import MockOs.Fs.Proofs.Victim

/-!
# The jumps back to `repeat`

With no buffer locked a call of `getblk` that finds its key, an idle head or no unused head
at all comes to its end without a jump. What is left is a cache with unused heads that are all
dirty: `while (bh->b_dirt) goto repeat;` writes nothing back, so the call comes to `repeat`
with the cache it had before, and does so for ever.
-/

namespace MockOs.Fs

variable {s : Cache} {ring : List Nat} {chains : Fin nrHash → List Nat} {dev block : BitVec 32}

/-- No buffer is locked. -/
def Cache.Unlocked (s : Cache) : Prop := ∀ b ∈ s.headers, (s.head b).bLock = 0

/-- The call returns a buffer or goes to sleep on `buffer_wait`. -/
def Settles (s : Cache) (dev block : BitVec 32) : Prop :=
  ∃ fuel s' p, getblk fuel s dev block = .ok (s', p) ∧ (p = .sleepFree ∨ ∃ b, p = .ret (some b))

/-- Either the key is cached, or every head is in use, or one that is not is clean. -/
def Cache.Serves (s : Cache) (dev block : BitVec 32) : Prop :=
  (∃ b, findBuffer s dev block = .ok (some b)) ∨ (∀ b ∈ s.headers, (s.head b).bCount ≠ 0) ∨
    ∃ b ∈ s.headers, (s.head b).bCount = 0 ∧ (s.head b).bDirt = 0

theorem Rep.settles_hit (h : Rep s ring chains) (hlock : s.Unlocked) {b : Nat}
    (hf : s.find dev block = some b) : Settles s dev block := by
  obtain ⟨hb, -, hkey⟩ := h.find_eq_some.mp hf
  have hlook := step_lookup_hit h .getblk hf
  have htest : step ⟨.getblk, dev, block⟩ (s.setCount b ((s.head b).bCount + 1)) (.testHit b) =
      .ok (s.setCount b ((s.head b).bCount + 1), .ret (some b)) := by
    apply step_testHit
    · simpa [setCount_head] using hlock b hb
    · simpa [setCount_head, BufferHead.hasKey] using hkey
  refine ⟨3, s.setCount b ((s.head b).bCount + 1), .ret (some b), ?_, Or.inr ⟨b, rfl⟩⟩
  rw [getblk, runCall_step rfl hlook, runCall_step rfl htest, runCall_stops rfl]

/-- An idle head is claimed in the first round. -/
theorem Rep.settles_idle (h : Rep s ring chains) (hf : s.find dev block = none)
    (hidle : ∃ b ∈ s.headers, s.idle b) : Settles s dev block := by
  obtain ⟨b, hb, hbidle⟩ := hidle
  obtain ⟨v, hv⟩ : ∃ v, ring.find? s.idle = some v := by
    rw [← Option.isSome_iff_exists, List.find?_isSome]
    exact ⟨b, h.perm.mem_iff.mpr hb, hbidle⟩
  have hvictim := (victim_of_idle ⟨b, h.perm.mem_iff.mpr hb, hbidle⟩).mpr hv
  have hvidle : s.idle v = true := List.find?_some hv
  simp only [Cache.idle, Bool.and_eq_true, decide_eq_true_eq] at hvidle
  obtain ⟨⟨hcount, hdirt⟩, hlock⟩ := hvidle
  have hscan := step_scan h ⟨.getblk, dev, block⟩
  rw [scanRing_eq_some.mpr hvictim] at hscan
  have hrecheck := step_recheck h ⟨.getblk, dev, block⟩ hdirt
  rw [if_pos ⟨hcount, hf⟩] at hrecheck
  obtain ⟨s', hok, -⟩ := h.queued.claim (h.perm.mem_iff.mp hvictim.mem) dev block
  have hclaim : step ⟨.getblk, dev, block⟩ s (.claim v) = .ok (s', .ret (some v)) := by
    simp only [step, hok, bind, Except.bind, pure, Except.pure]
  refine ⟨6, s', .ret (some v), ?_, Or.inr ⟨v, rfl⟩⟩
  rw [getblk, runCall_step rfl (step_lookup_miss h hf), runCall_step rfl hscan,
    runCall_step rfl (step_testVictim _ hlock), runCall_step rfl hrecheck, runCall_step rfl hclaim,
    runCall_stops rfl]

/-- The victim is dirty: the call is back at `repeat` and nothing has changed. -/
theorem Rep.repeats (h : Rep s ring chains) (hlock : s.Unlocked) (hf : s.find dev block = none)
    (hfree : ∃ b ∈ s.headers, (s.head b).bCount = 0)
    (hdirt : ∀ b ∈ s.headers, (s.head b).bCount = 0 → (s.head b).bDirt ≠ 0) {fuel : Nat}
    {r : Cache × Pc} (hok : getblk fuel s dev block = .ok r) :
    ∃ n < fuel, getblk n s dev block = .ok r := by
  have hscan := step_scan h ⟨.getblk, dev, block⟩
  cases hr : scanRing s ring none with
  | none =>
    obtain ⟨b, hb, hcount⟩ := hfree
    exact absurd hcount ((scanRing_none.mp hr).2 b (h.perm.mem_iff.mpr hb))
  | some v =>
    rw [hr] at hscan
    have hvictim := scanRing_eq_some.mp hr
    have hv : v ∈ s.headers := h.perm.mem_iff.mp hvictim.mem
    have hrecheck : step ⟨.getblk, dev, block⟩ s (.recheck v) = .ok (s, .lookup) := by
      simp only [step, hvictim.1, ne_eq, not_true_eq_false, if_false]
      rw [if_pos (hdirt v hv hvictim.1)]
      rfl
    obtain ⟨n₁, hlt₁, h₁⟩ := runCall_inv rfl (step_lookup_miss h hf) hok
    obtain ⟨n₂, hlt₂, h₂⟩ := runCall_inv rfl hscan h₁
    obtain ⟨n₃, hlt₃, h₃⟩ := runCall_inv rfl (step_testVictim _ (hlock v hv)) h₂
    obtain ⟨n₄, hlt₄, h₄⟩ := runCall_inv rfl hrecheck h₃
    exact ⟨n₄, by omega, h₄⟩

/-- So it never comes to an end. -/
theorem Rep.never_returns (h : Rep s ring chains) (hlock : s.Unlocked)
    (hf : s.find dev block = none) (hfree : ∃ b ∈ s.headers, (s.head b).bCount = 0)
    (hdirt : ∀ b ∈ s.headers, (s.head b).bCount = 0 → (s.head b).bDirt ≠ 0) (fuel : Nat)
    (r : Cache × Pc) : getblk fuel s dev block ≠ .ok r := by
  induction fuel using Nat.strong_induction_on with
  | _ fuel ih =>
    intro hok
    obtain ⟨n, hlt, hn⟩ := h.repeats hlock hf hfree hdirt hok
    exact ih n hlt hn

/-- With no buffer locked a call of `getblk` comes to its end exactly if its key is cached, no
head is free, or a free head is clean. -/
theorem getblk_settles_iff (h : RepInv s) (hlock : s.Unlocked) (dev block : BitVec 32) :
    Settles s dev block ↔ s.Serves dev block := by
  obtain ⟨ring, chains, h⟩ := h
  rw [Cache.Serves, h.findBuffer_eq]
  cases hf : s.find dev block with
  | some b => exact ⟨fun _ => Or.inl ⟨b, rfl⟩, fun _ => h.settles_hit hlock hf⟩
  | none =>
    constructor
    · rintro ⟨fuel, s', p, hok, -⟩
      right
      by_contra hno
      simp only [not_or, not_forall, not_exists, not_and, not_not] at hno
      obtain ⟨⟨b, hb, hcount⟩, hdirt⟩ := hno
      exact h.never_returns hlock hf ⟨b, hb, hcount⟩ hdirt fuel (s', p) hok
    · rintro (⟨b, hb⟩ | hfull | ⟨b, hb, hcount, hdirt⟩)
      · cases hb
      · exact ⟨6, s, .sleepFree, getblk_full h 0 hf hfull, Or.inl rfl⟩
      · refine h.settles_idle hf ⟨b, hb, ?_⟩
        simp [Cache.idle, hcount, hdirt, hlock b hb]

/-- A fresh cache: no head is dirty. -/
theorem getblk_settles_fresh : Settles (smallCache 4148) 0x300 0 := by
  have hmem : 2000 ∈ (smallCache 4148).headers := by decide
  have hidle := smallCache_initial.idle 2000 hmem
  refine (getblk_settles_iff ⟨_, _, smallCache_initial.rep⟩
    (fun b hb => (smallCache_initial.quiet b hb).1) 0x300 0).mpr ?_
  exact Or.inr (Or.inr ⟨2000, hmem, hidle.2.1, hidle.2.2.1⟩)

/-- The fresh cache of two heads with both of them dirty. -/
def dirtyCache : Cache :=
  ((smallCache 4148).modify 2000 ({ · with bDirt := 1 })).modify 2036 ({ · with bDirt := 1 })

/-- `getblk(0x300, 0)` loops on it. -/
theorem getblk_livelock : RepInv dirtyCache ∧ dirtyCache.Unlocked ∧
    ∀ fuel r, getblk fuel dirtyCache 0x300 0 ≠ .ok r := by
  have hflag : Unkeyed ({ · with bDirt := 1 }) :=
    ⟨fun _ => ⟨rfl, rfl⟩, fun _ => ⟨rfl, rfl, rfl, rfl⟩⟩
  have hrep : Rep dirtyCache _ _ := (smallCache_initial.rep.modify hflag 2000).modify hflag 2036
  have hlock : dirtyCache.Unlocked := by
    unfold Cache.Unlocked
    decide
  refine ⟨⟨_, _, hrep⟩, hlock, fun fuel r => ?_⟩
  exact hrep.never_returns hlock rfl ⟨2000, by decide, rfl⟩ (by decide) fuel r

end MockOs.Fs
