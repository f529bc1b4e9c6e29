import MockOs.Fs.Proofs.Getblk

/-!
# `getblk` as an operation on a finite map

Seen through `find_buffer` the cache is a finite map from `(dev, block)` to heads. A call
of `getblk` that finds no locked and no dirty buffer looks its key up, or gives the key to
a head that is not in use, or goes to sleep.
-/

namespace MockOs.Fs

variable {s s' : Cache} {ring : List Nat} {chains : Fin nrHash → List Nat}
  {dev block : BitVec 32}

/-- The head holds the key `(dev, block)`. -/
def Cache.Holds (s : Cache) (b : Nat) (dev block : BitVec 32) : Prop :=
  b ∈ s.headers ∧ (s.head b).bDev = dev.setWidth 16 ∧ (s.head b).bBlocknr = block

/-- No buffer is locked and none is dirty. -/
def Cache.Quiet (s : Cache) : Prop :=
  ∀ b ∈ s.headers, (s.head b).bLock = 0 ∧ (s.head b).bDirt = 0

/-- The keys a 16-bit device other than 0 can have. -/
def ValidDev (dev : BitVec 32) : Prop := 0 < dev.toNat ∧ dev.toNat ≤ 0xffff

instance : Decidable (ValidDev dev) := inferInstanceAs (Decidable (_ ∧ _))

theorem ValidDev.setWidth (h : ValidDev dev) : (dev.setWidth 16).setWidth 32 = dev := by
  rcases h with ⟨-, h⟩
  bv_omega

theorem ValidDev.ne_zero (h : ValidDev dev) : dev.setWidth 16 ≠ 0 := by
  rcases h with ⟨h0, h⟩
  bv_omega

theorem hasKey_iff_of_valid (h : ValidDev dev) {bh : BufferHead} :
    bh.hasKey dev block = true ↔ bh.bDev = dev.setWidth 16 ∧ bh.bBlocknr = block := by
  rw [BufferHead.hasKey_iff]
  rcases h with ⟨-, h⟩
  refine and_congr_left fun _ => ⟨fun hd => ?_, fun hd => ?_⟩
  · rw [← hd]
    bv_omega
  · rw [hd]
    bv_omega

/-- A lookup finds exactly the head that holds the key. -/
theorem Rep.find_iff_holds (h : Rep s ring chains) (hdev : ValidDev dev) {b : Nat} :
    s.find dev block = some b ↔ s.Holds b dev block := by
  rw [h.find_eq_some, hasKey_iff_of_valid hdev, Cache.Holds]
  refine and_congr_right fun _ => and_iff_right_of_imp ?_
  rintro ⟨hd, -⟩
  rw [hd]
  exact hdev.ne_zero

/-! ## The pieces of a call that meets no lock and no dirt -/

section Pieces

variable {b : Nat}

theorem setCount_head (n : BitVec 8) (a : Nat) : (s.setCount b n).head a =
    if a = b then { s.head a with bCount := n } else s.head a := by
  simp [Cache.setCount]

theorem step_lookup_hit (h : Rep s ring chains) (fn : Fn)
    (hf : s.find dev block = some b) : step ⟨fn, dev, block⟩ s .lookup =
      .ok (s.setCount b ((s.head b).bCount + 1), .testHit b) := by
  simp only [step, h.findBuffer_eq, hf, bind, Except.bind, pure, Except.pure]

theorem step_lookup_miss (h : Rep s ring chains) (hf : s.find dev block = none) :
    step ⟨.getblk, dev, block⟩ s .lookup = .ok (s, .scan) := by
  simp only [step, h.findBuffer_eq, hf, bind, Except.bind, pure, Except.pure]

theorem step_testHit (fn : Fn) (hlock : (s.head b).bLock = 0)
    (hkey : (s.head b).hasKey dev block = true) :
    step ⟨fn, dev, block⟩ s (.testHit b) = .ok (s, .ret (some b)) := by
  simp only [step, hlock, hkey, ne_eq, not_true_eq_false, if_false, if_true, pure, Except.pure]

theorem step_scan (h : Rep s ring chains) (c : Call) : step c s .scan = .ok (s,
    match scanRing s ring none with
    | some b => .testVictim b
    | none => .sleepFree) := by
  rcases h.queued.scanFree_eq with ⟨tmp, htmp, hscan⟩
  simp only [step, htmp, hscan, bind, Except.bind, pure, Except.pure]
  cases scanRing s ring none <;> rfl

theorem step_testVictim (c : Call) (hlock : (s.head b).bLock = 0) :
    step c s (.testVictim b) = .ok (s, .recheck b) := by
  simp only [step, hlock, ne_eq, not_true_eq_false, if_false, pure, Except.pure]

theorem step_recheck (h : Rep s ring chains) (c : Call) (hdirt : (s.head b).bDirt = 0) :
    step c s (.recheck b) = .ok (s,
      if (s.head b).bCount = 0 ∧ s.find c.dev c.block = none then .claim b else .lookup) := by
  simp only [step, h.findBuffer_eq, bind, Except.bind, pure, Except.pure, hdirt, ne_eq,
    not_true_eq_false, if_false]
  by_cases hcount : (s.head b).bCount = 0
  · cases hf : s.find c.dev c.block <;> simp [hcount]
  · rw [if_pos hcount, if_neg fun hc => hcount hc.1]

end Pieces

/-- The call finds its key in the cache. -/
theorem getblk_hit (h : Rep s ring chains) (hq : s.Quiet) (hdev : ValidDev dev) {b : Nat}
    (fuel : Nat) (hb : s.Holds b dev block) :
    getblk (fuel + 6) s dev block = .ok (s.setCount b ((s.head b).bCount + 1), .ret (some b)) := by
  have hlook := step_lookup_hit h .getblk ((h.find_iff_holds hdev).mpr hb)
  have htest : step ⟨.getblk, dev, block⟩ (s.setCount b ((s.head b).bCount + 1)) (.testHit b) =
      .ok (s.setCount b ((s.head b).bCount + 1), .ret (some b)) := by
    apply step_testHit
    · simpa [setCount_head] using (hq b hb.1).1
    · rw [setCount_head, if_pos rfl]
      exact (hasKey_iff_of_valid hdev).mpr hb.2
  simp only [getblk, runCall, Pc.stops, Pc.sleeps, hlook, htest, bind, Except.bind, pure,
    Except.pure, Bool.false_eq_true, if_false, if_true]

/-- The call finds neither its key nor a head that is not in use. -/
theorem getblk_full (h : Rep s ring chains) (fuel : Nat) (hf : s.find dev block = none)
    (hfull : ∀ b ∈ s.headers, (s.head b).bCount ≠ 0) :
    getblk (fuel + 6) s dev block = .ok (s, .sleepFree) := by
  have hscan := step_scan h ⟨.getblk, dev, block⟩
  have hnone : scanRing s ring none = none :=
    scanRing_none.mpr ⟨rfl, fun b hb => hfull b (h.perm.mem_iff.mp hb)⟩
  rw [hnone] at hscan
  simp only [getblk, runCall, Pc.stops, Pc.sleeps, step_lookup_miss h hf, hscan, bind, Except.bind,
    pure, Except.pure, Bool.false_eq_true, if_false, if_true]

/-- The call gives its key to a head that is not in use. -/
theorem getblk_miss (h : Rep s ring chains) (hq : s.Quiet) (hdev : ValidDev dev) (fuel : Nat)
    (hf : s.find dev block = none) (hfree : ∃ b ∈ s.headers, (s.head b).bCount = 0) :
    ∃ v s', getblk (fuel + 6) s dev block = .ok (s', .ret (some v)) ∧ v ∈ s.headers ∧
      (s.head v).bCount = 0 ∧ Claimed s s' v dev block ∧
      Rep s' (ring.erase v ++ [v]) (claimChains chains v dev block) := by
  have hscan := step_scan h ⟨.getblk, dev, block⟩
  cases hr : scanRing s ring none with
  | none =>
    rcases hfree with ⟨b, hb, hcount⟩
    exact absurd hcount ((scanRing_none.mp hr).2 b (h.perm.mem_iff.mpr hb))
  | some v =>
    rw [hr] at hscan
    rcases (scanRing_spec hr).resolve_left (by simp) with ⟨hvr, hcount⟩
    have hv : v ∈ s.headers := h.perm.mem_iff.mp hvr
    have hvictim := step_testVictim ⟨.getblk, dev, block⟩ (hq v hv).1
    have hrecheck := step_recheck h ⟨.getblk, dev, block⟩ (hq v hv).2
    rw [if_pos ⟨hcount, hf⟩] at hrecheck
    rcases h.claim hv dev block (fun h0 a ha _ => not_key_of_find_none hdev.2 hf h0 a ha) with
      ⟨s', hok, hcl, hrep⟩
    have hclaim : step ⟨.getblk, dev, block⟩ s (.claim v) = .ok (s', .ret (some v)) := by
      simp only [step, hok, bind, Except.bind, pure, Except.pure]
    refine ⟨v, s', ?_, hv, hcount, hcl, hrep⟩
    simp only [getblk, runCall, Pc.stops, Pc.sleeps, step_lookup_miss h hf, hscan, hvictim,
      hrecheck, hclaim, bind, Except.bind, pure, Except.pure, Bool.false_eq_true, if_false, if_true]

/-! ## The finite map -/

/-- What a call that takes a new head does to the map: the key is added, the old key of the
head is gone, and every other key is where it was. -/
theorem Claimed.find {v : Nat} (h : Rep s ring chains) (hdev : ValidDev dev)
    (hv : v ∈ s.headers) (hcl : Claimed s s' v dev block)
    {ring' : List Nat} {chains' : Fin nrHash → List Nat} (h' : Rep s' ring' chains')
    (d k : BitVec 32) : s'.find d k =
      if d = dev ∧ k = block then some v
      else if (s.head v).hasKey d k then none
      else s.find d k := by
  have hself : ∀ d k, (s'.head v).hasKey d k = true ↔ d = dev ∧ k = block := by
    intro d k
    rw [BufferHead.hasKey_iff, (hcl.key v).1, (hcl.key v).2, if_pos rfl, if_pos rfl, hdev.setWidth]
    exact and_congr eq_comm eq_comm
  have hother : ∀ a, a ≠ v → ∀ d k, (s'.head a).hasKey d k = (s.head a).hasKey d k := by
    intro a ha d k
    rw [BufferHead.hasKey, BufferHead.hasKey, (hcl.key a).1, (hcl.key a).2, if_neg ha, if_neg ha]
  split_ifs with hnew hold
  · rw [h'.find_eq_some, hcl.headers, hself, (hcl.key v).1, if_pos rfl]
    exact ⟨hv, hdev.ne_zero, hnew⟩
  · rw [find_eq_none, hcl.headers]
    intro b hb hb0
    by_cases hbv : b = v
    · rw [hbv, Bool.eq_false_iff, ne_eq, hself]
      exact hnew
    · rw [hother b hbv, Bool.eq_false_iff]
      intro hkey
      rw [(hcl.key b).1, if_neg hbv] at hb0
      rcases BufferHead.hasKey_iff.mp hkey with ⟨hd, hk⟩
      rcases BufferHead.hasKey_iff.mp hold with ⟨hd', hk'⟩
      have hdd : (s.head b).bDev = (s.head v).bDev := by
        have := hd.trans hd'.symm
        bv_omega
      exact hbv (h.uniq b hb v hv hb0 hdd (hk.trans hk'.symm))
  · cases hs : s.find d k with
    | none =>
      rw [find_eq_none, hcl.headers]
      intro b hb hb0
      by_cases hbv : b = v
      · rw [hbv, Bool.eq_false_iff, ne_eq, hself]
        exact hnew
      · rw [(hcl.key b).1, if_neg hbv] at hb0
        rw [hother b hbv]
        exact find_eq_none.mp hs b hb hb0
    | some b =>
      rcases h.find_eq_some.mp hs with ⟨hb, hb0, hkey⟩
      have hbv : b ≠ v := by
        rintro rfl
        exact hold hkey
      rw [h'.find_eq_some, hcl.headers, hother b hbv, (hcl.key b).1, if_neg hbv]
      exact ⟨hb, hb0, hkey⟩

/-- Taking a head locks nothing and leaves it clean. -/
theorem Claimed.quiet {v : Nat} (hcl : Claimed s s' v dev block) (hq : s.Quiet) : s'.Quiet := by
  intro b hb
  rw [hcl.headers] at hb
  rcases hcl.flags b with ⟨-, hd, hl⟩
  rw [hd, hl]
  refine ⟨(hq b hb).1, ?_⟩
  split
  · rfl
  · exact (hq b hb).2

/-- `getblk` refines a finite map from keys to heads. A cached key gives its head and only
`b_count` changes; a new key goes to a head that was not in use, whose old key is
forgotten; with all heads in use the call sleeps on `buffer_wait`. Lookup, insertion and
removal agree on the slot of the key. -/
theorem getblk_refines_map (h : ∃ ring chains, Rep s ring chains) (hq : s.Quiet)
    (hdev : ValidDev dev) (block : BitVec 32) (fuel : Nat) :
    (∀ b, s.Holds b dev block → getblk (fuel + 6) s dev block =
      .ok (s.setCount b ((s.head b).bCount + 1), .ret (some b))) ∧
    ((∀ b, ¬ s.Holds b dev block) → (∃ b ∈ s.headers, (s.head b).bCount = 0) →
      ∃ v s', getblk (fuel + 6) s dev block = .ok (s', .ret (some v)) ∧
        v ∈ s.headers ∧ (s.head v).bCount = 0 ∧
        findBuffer s' dev block = .ok (some v) ∧
        findBuffer s' ((s.head v).bDev.setWidth 32) (s.head v).bBlocknr = .ok none ∧
        (s'.head v).bCount = 1 ∧ (s'.head v).bDirt = 0 ∧ (s'.head v).bUptodate = 0 ∧
        (s'.head v).bData = (s.head v).bData ∧
        (∀ d k, ¬ (d = dev ∧ k = block) →
          ¬ (d = (s.head v).bDev.setWidth 32 ∧ k = (s.head v).bBlocknr) →
          findBuffer s' d k = findBuffer s d k) ∧
        ∀ a, a ≠ v → (s'.head a).unlinked = (s.head a).unlinked) ∧
    ((∀ b, ¬ s.Holds b dev block) → (∀ b ∈ s.headers, (s.head b).bCount ≠ 0) →
      getblk (fuel + 6) s dev block = .ok (s, .sleepFree)) ∧
    ∀ bh : BufferHead, bh.bDev = dev.setWidth 16 → bh.bBlocknr = block →
      bh.slot = hashfn dev block := by
  rcases h with ⟨ring, chains, h⟩
  have hnone : (∀ b, ¬ s.Holds b dev block) → s.find dev block = none := by
    intro hno
    cases hf : s.find dev block with
    | none => rfl
    | some b => exact absurd ((h.find_iff_holds hdev).mp hf) (hno b)
  refine ⟨fun b hb => getblk_hit h hq hdev fuel hb, fun hno hfree => ?_, fun hno hfull =>
    getblk_full h fuel (hnone hno) hfull, fun bh hd hk =>
    BufferHead.slot_of_hasKey ((hasKey_iff_of_valid hdev).mpr ⟨hd, hk⟩)⟩
  have hf := hnone hno
  rcases getblk_miss h hq hdev fuel hf hfree with ⟨v, s', hok, hv, hcount, hcl, hrep⟩
  have hfind := hcl.find h hdev hv hrep
  -- the old key of the head is not the new one, which was not cached
  have hold : ¬ ((s.head v).bDev.setWidth 32 = dev ∧ (s.head v).bBlocknr = block) := fun hvk =>
    hno v ⟨hv, (hasKey_iff_of_valid hdev).mp (BufferHead.hasKey_iff.mpr hvk)⟩
  have hdata : (s'.head v).unlinked.bData = (s.head v).bData := by rw [hcl.self]; rfl
  refine ⟨v, s', hok, hv, hcount, ?_, ?_, congrArg BufferHead.bCount hcl.self,
    congrArg BufferHead.bDirt hcl.self, congrArg BufferHead.bUptodate hcl.self, hdata,
    fun d k hnew hne => ?_, hcl.others⟩
  · rw [hrep.findBuffer_eq, hfind, if_pos ⟨rfl, rfl⟩]
  · rw [hrep.findBuffer_eq, hfind, if_neg hold, if_pos (BufferHead.hasKey_iff.mpr ⟨rfl, rfl⟩)]
  · rw [hrep.findBuffer_eq, h.findBuffer_eq, hfind, if_neg hnew, if_neg]
    intro hkey
    rcases BufferHead.hasKey_iff.mp hkey with ⟨hd, hk⟩
    exact hne ⟨hd.symm, hk.symm⟩

theorem Initial.quiet (h : Initial s) : s.Quiet := fun b hb =>
  ⟨(h.idle b hb).2.2.2, (h.idle b hb).2.2.1⟩

theorem smallCache_initial : Initial (smallCache 4148) :=
  bufferInit_initial (show bufferInit 3 2000 4148 (fun _ => zeroHead) = _ from rfl) (by decide)

/-- A block number with the sign bit set, on a fresh cache of two heads. -/
theorem getblk_refines_map_negative_block :
    (∃ ring chains, Rep (smallCache 4148) ring chains) ∧ (smallCache 4148).Quiet ∧
      ValidDev 0x300 ∧ ∃ v s', getblk 6 (smallCache 4148) 0x300 0x80000000 =
        .ok (s', .ret (some v)) ∧ findBuffer s' 0x300 0x80000000 = .ok (some v) := by
  have hrep : ∃ ring chains, Rep (smallCache 4148) ring chains := ⟨_, _, smallCache_initial.rep⟩
  have hdev : ValidDev 0x300 := by decide
  have hno : ∀ b, ¬ (smallCache 4148).Holds b 0x300 0x80000000 := by
    rintro b ⟨hb, hd, -⟩
    rw [(smallCache_initial.idle b hb).1] at hd
    exact absurd hd (by decide)
  have hmem : 2000 ∈ (smallCache 4148).headers := by decide
  rcases (getblk_refines_map hrep smallCache_initial.quiet hdev 0x80000000 0).2.1 hno
    ⟨2000, hmem, (smallCache_initial.idle 2000 hmem).2.1⟩ with ⟨v, s', hok, -, -, hfind, -⟩
  exact ⟨hrep, smallCache_initial.quiet, hdev, v, s', hok, hfind⟩

end MockOs.Fs
