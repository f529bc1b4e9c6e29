import MockOs.Fs.Proofs.Recycle

/-!
# `getblk` under the timer

Between the re-check and the claim of `getblk` another task can run. If it takes the same
head, or caches the same key, the claim goes through all the same and `b_count` starts
again at 1. As long as every claim still finds what the re-check found, all is well.
-/

namespace MockOs.Fs

open Relation Run

variable {T : Type} {u u' : PreSys T} {t : T}

/-- What is asked of every state: no two heads with one key, and `b_count` is the number of calls
that have returned the head for its key. -/
def PreSys.Sound (u : PreSys T) : Prop :=
  (∀ a ∈ u.cache.headers, ∀ b ∈ u.cache.headers, (u.cache.head a).bDev ≠ 0 →
    (u.cache.head a).bDev = (u.cache.head b).bDev →
    (u.cache.head a).bBlocknr = (u.cache.head b).bBlocknr → a = b) ∧
  ∀ b ∈ u.cache.headers, (u.cache.head b).bCount.toNat = u.returned b

/-- Fewer than 256 calls have returned each head for its key. -/
def PreSys.Few (u : PreSys T) : Prop := ∀ b ∈ u.cache.headers, u.returned b < 256

/-- If task `t` is about to claim a head, what its re-check found still holds. -/
def PreSys.Undisturbed (u : PreSys T) (t : T) : Prop :=
  ∀ c b, u.pc t = some (c, .claim b) →
    (u.cache.head b).bCount = 0 ∧ findBuffer u.cache c.dev c.block = .ok none

/-- A step of some task that `R` lets run. -/
def StepIf [DecidableEq T] (R : PreSys T → T → Prop) (u u' : PreSys T) : Prop :=
  ∃ t, PreStep t u u' ∧ R u t

/-- Where a task can be between two parts of `getblk`. -/
def Pc.between : Pc → Bool
  | .lookup | .scan | .sleepFree | .recheck _ | .claim _ | .ret _ => true
  | _ => false

/-- Every head that was returned still holds its key. -/
def PreSys.Held (u : PreSys T) : Prop :=
  ∀ e ∈ u.log, ValidDev e.1.1 ∧ u.cache.Holds e.2 e.1.1 e.1.2

/-- The invariant of the runs; `b_count` counts the calls that have returned the head. -/
structure PreInv (u : PreSys T) : Prop where
  rep : RepInv u.cache
  quiet : u.cache.Quiet
  pcs : ∀ t c p, u.pc t = some (c, p) → c.fn = .getblk ∧ ValidDev c.dev ∧ p.between = true ∧
    ∀ b, p.bh = some b → b ∈ u.cache.headers
  held : u.Held
  counts : ∀ b ∈ u.cache.headers, (u.cache.head b).bCount.toNat = u.log.countP (·.2 == b)

/-- When the heads keep their keys, the key in the count is always the current one. -/
theorem PreSys.Held.returned_eq (h : u.Held) (b : Nat) :
    u.returned b = u.log.countP (·.2 == b) := by
  refine List.countP_congr fun e he => ?_
  rcases h e he with ⟨hdev, hholds⟩
  simp only [Bool.and_eq_true, beq_iff_eq, and_iff_left_iff_imp]
  rintro rfl
  exact (hasKey_iff_of_valid hdev).mpr hholds.2

theorem PreInv.sound (h : PreInv u) : u.Sound := by
  rcases h.rep with ⟨ring, chains, hrep⟩
  exact ⟨hrep.uniq, fun b hb => (h.counts b hb).trans (h.held.returned_eq b).symm⟩

/-! ## The four parts -/

section Slices

variable {s : Cache} {ring : List Nat} {chains : Fin nrHash → List Nat} {c : Call}

theorem slice_hit (h : Rep s ring chains) (hq : s.Quiet) {b : Nat}
    (hf : s.find c.dev c.block = some b) :
    slice c s .lookup = .ok (s.setCount b ((s.head b).bCount + 1), .ret (some b)) := by
  rcases h.find_eq_some.mp hf with ⟨hb, -, hkey⟩
  have hlook := step_lookup_hit h c.fn hf
  have htest : step c (s.setCount b ((s.head b).bCount + 1)) (.testHit b) =
      .ok (s.setCount b ((s.head b).bCount + 1), .ret (some b)) := by
    apply step_testHit
    · simpa [setCount_head] using (hq b hb).1
    · rw [setCount_head, if_pos rfl]
      exact hkey
  simp only [slice, hlook, htest, bind, Except.bind]

theorem slice_miss (h : Rep s ring chains) (hfn : c.fn = .getblk)
    (hf : s.find c.dev c.block = none) : slice c s .lookup = .ok (s, .scan) := by
  obtain ⟨fn, dev, block⟩ := c
  obtain rfl : fn = .getblk := hfn
  simp only [slice, step_lookup_miss h hf, bind, Except.bind, pure, Except.pure]

theorem slice_scan (h : Rep s ring chains) (hq : s.Quiet) :
    (∃ b ∈ s.headers, slice c s .scan = .ok (s, .recheck b)) ∨
      slice c s .scan = .ok (s, .sleepFree) := by
  have hscan := step_scan h c
  cases hr : scanRing s ring none with
  | none =>
    rw [hr] at hscan
    exact Or.inr (by simp only [slice, hscan, bind, Except.bind, pure, Except.pure])
  | some b =>
    rw [hr] at hscan
    have hb : b ∈ s.headers :=
      h.perm.mem_iff.mp ((scanRing_spec hr).resolve_left (by simp)).1
    refine Or.inl ⟨b, hb, ?_⟩
    simp only [slice, hscan, step_testVictim c (hq b hb).1, bind, Except.bind]

theorem slice_recheck (h : Rep s ring chains) (hq : s.Quiet) {b : Nat} (hb : b ∈ s.headers) :
    slice c s (.recheck b) = .ok (s,
      if (s.head b).bCount = 0 ∧ s.find c.dev c.block = none then .claim b else .lookup) := by
  have hstep := step_recheck h c (hq b hb).2
  by_cases hcond : (s.head b).bCount = 0 ∧ s.find c.dev c.block = none
  · rw [if_pos hcond] at hstep ⊢
    simp only [slice, hstep, bind, Except.bind, pure, Except.pure]
  · rw [if_neg hcond] at hstep ⊢
    simp only [slice, hstep, bind, Except.bind, pure, Except.pure]

theorem slice_claim {s' : Cache} {b : Nat} (hok : claimBuffer s b c.dev c.block = .ok s') :
    slice c s (.claim b) = .ok (s', .ret (some b)) := by
  simp only [slice, step, hok, bind, Except.bind, pure, Except.pure]

end Slices

/-! ## The run -/

section Run

variable [DecidableEq T] {c : Call} {p : Pc}

/-- Moving task `t` on, with the cache and the log as they are. -/
theorem PreInv.setPc (h : PreInv u) {q : Option (Call × Pc)}
    (hq : ∀ c p, q = some (c, p) → c.fn = .getblk ∧ ValidDev c.dev ∧ p.between = true ∧
      ∀ b, p.bh = some b → b ∈ u.cache.headers) :
    PreInv { u with pc := Function.update u.pc t q } := by
  refine ⟨h.rep, h.quiet, fun t' c p ht' => ?_, h.held, h.counts⟩
  by_cases htt : t' = t
  · subst htt
    exact hq c p (by simpa using ht')
  · exact h.pcs t' c p (by simpa [htt] using ht')

/-- What the two steps that hand out a head have in common. -/
theorem PreInv.give (h : PreInv u) (hpc : u.pc t = some (c, p)) {b : Nat} {cache' : Cache}
    (hb : b ∈ u.cache.headers) (hrep : RepInv cache') (hquiet : cache'.Quiet)
    (hh : cache'.headers = u.cache.headers)
    (hothers : ∀ a, a ≠ b → (cache'.head a).unlinked = (u.cache.head a).unlinked)
    (hkey : cache'.Holds b c.dev c.block)
    (hlog : ∀ e ∈ u.log, e.2 = b → e.1 = (c.dev, c.block))
    (hcount : (cache'.head b).bCount.toNat = u.log.countP (·.2 == b) + 1) :
    PreInv (T := T) {
      cache := cache'
      pc := Function.update u.pc t (some (c, .ret (some b)))
      log := u.log ++ returns c (.ret (some b)) } := by
  rcases h.pcs t c p hpc with ⟨hfn, hdev, -, -⟩
  refine ⟨hrep, hquiet, fun t' c' p' ht' => ?_, fun e he => ?_, fun a ha => ?_⟩
  · by_cases htt : t' = t
    · subst htt
      obtain ⟨rfl, rfl⟩ : c = c' ∧ .ret (some b) = p' := by simpa using ht'
      refine ⟨hfn, hdev, rfl, ?_⟩
      rintro _ ⟨⟩
      exact hh ▸ hb
    · have hold := h.pcs t' c' p' (by simpa [htt] using ht')
      exact hh ▸ hold
  · rcases List.mem_append.mp he with he | he
    · refine ⟨(h.held e he).1, ?_⟩
      by_cases heb : e.2 = b
      · rw [heb, hlog e he heb]
        exact hkey
      · have hd := congrArg BufferHead.bDev (hothers e.2 heb)
        have hk := congrArg BufferHead.bBlocknr (hothers e.2 heb)
        rcases (h.held e he).2 with ⟨hm, hd', hk'⟩
        exact ⟨hh ▸ hm, hd.trans hd', hk.trans hk'⟩
    · obtain rfl : e = ((c.dev, c.block), b) := by simpa [returns] using he
      exact ⟨hdev, hkey⟩
  · by_cases hab : a = b
    · subst hab
      simpa [returns, List.countP_append] using hcount
    · have hc := congrArg BufferHead.bCount (hothers a hab)
      have hold := h.counts a (hh ▸ ha)
      have hc' : (cache'.head a).bCount = (u.cache.head a).bCount := hc
      simp [returns, List.countP_append, Ne.symm hab, hc', hold]

/-- The lookup hits: one more call has the head. -/
theorem PreInv.hit (h : PreInv u) (hpc : u.pc t = some (c, p)) {b : Nat}
    (hf : u.cache.find c.dev c.block = some b)
    (hfew : PreSys.Few (T := T) {
      cache := u.cache.setCount b ((u.cache.head b).bCount + 1)
      pc := Function.update u.pc t (some (c, .ret (some b)))
      log := u.log ++ returns c (.ret (some b)) }) :
    PreInv (T := T) {
      cache := u.cache.setCount b ((u.cache.head b).bCount + 1)
      pc := Function.update u.pc t (some (c, .ret (some b)))
      log := u.log ++ returns c (.ret (some b)) } := by
  rcases h.rep with ⟨ring, chains, hrep⟩
  rcases h.pcs t c p hpc with ⟨hfn, hdev, -, -⟩
  have hb := (hrep.find_iff_holds hdev).mp hf
  have hkeys : ∀ a, ((u.cache.setCount b ((u.cache.head b).bCount + 1)).head a).bDev =
        (u.cache.head a).bDev ∧
      ((u.cache.setCount b ((u.cache.head b).bCount + 1)).head a).bBlocknr =
        (u.cache.head a).bBlocknr := by
    intro a
    rw [setCount_head]
    split <;> exact ⟨rfl, rfl⟩
  have hold : ∀ e ∈ u.log, e.2 = b → e.1 = (c.dev, c.block) := by
    rintro e he rfl
    rcases h.held e he with ⟨hdev', hholds⟩
    exact hholds.inj hb hdev' hdev
  -- the count does not wrap, since fewer than 256 calls have the head after this one
  have hlt : u.log.countP (·.2 == b) + 1 < 256 := by
    have hlast := hfew b hb.1
    rw [PreSys.Held.returned_eq] at hlast
    · simpa [returns, List.countP_append] using hlast
    · intro e he
      rcases List.mem_append.mp he with he | he
      · rcases h.held e he with ⟨hdev', hm, hd, hk⟩
        exact ⟨hdev', hm, (hkeys e.2).1.trans hd, (hkeys e.2).2.trans hk⟩
      · obtain rfl : e = ((c.dev, c.block), b) := by simpa [returns] using he
        exact ⟨hdev, hb.1, (hkeys b).1.trans hb.2.1, (hkeys b).2.trans hb.2.2⟩
  refine h.give hpc hb.1 ⟨ring, chains, hrep.setCount b _⟩ (fun a ha => ?_) rfl (fun a ha => ?_)
    ⟨hb.1, (hkeys b).1.trans hb.2.1, (hkeys b).2.trans hb.2.2⟩ hold ?_
  · rw [setCount_head]
    split <;> exact h.quiet a ha
  · rw [setCount_head, if_neg ha]
  · have hcount := h.counts b hb.1
    rw [setCount_head, if_pos rfl]
    show ((u.cache.head b).bCount + 1).toNat = _
    bv_omega

/-- The claim, taken while what the re-check found still holds. -/
theorem PreInv.claim (h : PreInv u) {b : Nat} (hpc : u.pc t = some (c, .claim b))
    (hund : u.Undisturbed t) {cache' : Cache} {p' : Pc}
    (hok : slice c u.cache (.claim b) = .ok (cache', p')) :
    PreInv (T := T) {
      cache := cache'
      pc := Function.update u.pc t (some (c, p'))
      log := u.log ++ returns c p' } := by
  rcases h.rep with ⟨ring, chains, hrep⟩
  rcases h.pcs t c _ hpc with ⟨hfn, hdev, -, hmem⟩
  rcases hund c b hpc with ⟨hfree, hfind⟩
  have hb : b ∈ u.cache.headers := hmem b rfl
  rw [hrep.findBuffer_eq, Except.ok.injEq] at hfind
  rcases hrep.claim hb c.dev c.block (fun h0 a ha _ => not_key_of_find_none hdev.2 hfind h0 a ha) with
    ⟨s', hclaim, hcl, hrep'⟩
  rw [slice_claim hclaim] at hok
  cases hok
  -- a head that is not in use was returned to nobody
  have hnone : u.log.countP (·.2 == b) = 0 := by
    rw [← h.counts b hb, hfree]
    rfl
  refine h.give hpc hb ⟨_, _, hrep'⟩ (hcl.quiet h.quiet) hcl.headers hcl.others
    ⟨hcl.headers ▸ hb, ?_, ?_⟩ (fun e he heb => ?_) ?_
  · rw [(hcl.key b).1, if_pos rfl]
  · rw [(hcl.key b).2, if_pos rfl]
  · exact absurd (by simpa using heb) (List.countP_eq_zero.mp hnone e he)
  · rw [(hcl.flags b).1, if_pos rfl, hnone]
    rfl

theorem PreInv.step (h : PreInv u) (hstep : PreStep t u u') (hund : u.Undisturbed t)
    (hfew : u'.Few) : PreInv u' := by
  cases hstep with
  | call dev block h0 hdev hout =>
    refine h.setPc fun c p hq => ?_
    cases hq
    refine ⟨rfl, ⟨?_, hdev⟩, rfl, by simp [Pc.bh]⟩
    bv_omega
  | leave hpc => exact h.setPc fun c p hq => by cases hq
  | @exec c p p' cache' hpc hp hok =>
    rcases h.rep with ⟨ring, chains, hrep⟩
    rcases h.pcs t c p hpc with ⟨hfn, hdev, hbet, hmem⟩
    -- a part that hands out nothing and leaves the cache as it is
    have hpass : ∀ {q : Pc}, slice c u.cache p = .ok (u.cache, q) → q.between = true →
        returns c q = [] → (∀ b, q.bh = some b → b ∈ u.cache.headers) →
        PreInv (T := T) {
          cache := cache'
          pc := Function.update u.pc t (some (c, p'))
          log := u.log ++ returns c p' } := by
      intro q hq hqb hqr hqm
      rw [hok] at hq
      cases hq
      rw [hqr, List.append_nil]
      refine h.setPc fun c' p' hp' => ?_
      cases hp'
      exact ⟨hfn, hdev, hqb, hqm⟩
    cases p with
    | lookup =>
      cases hf : u.cache.find c.dev c.block with
      | none => exact hpass (slice_miss hrep hfn hf) rfl rfl (by simp [Pc.bh])
      | some b =>
        rw [slice_hit hrep h.quiet hf] at hok
        cases hok
        exact h.hit hpc hf hfew
    | scan =>
      rcases slice_scan (c := c) hrep h.quiet with ⟨b, hb, hs⟩ | hs
      · refine hpass hs rfl rfl ?_
        rintro _ ⟨⟩
        exact hb
      · exact hpass hs rfl rfl (by simp [Pc.bh])
    | sleepFree => exact hpass rfl rfl rfl (by simp [Pc.bh])
    | recheck b =>
      have hb : b ∈ u.cache.headers := hmem b rfl
      have hs := slice_recheck (c := c) hrep h.quiet hb
      split at hs
      · exact hpass hs rfl rfl fun a ha => hmem a ha
      · exact hpass hs rfl rfl (by simp [Pc.bh])
    | claim b => exact h.claim hpc hund hok
    | ret r => exact absurd rfl (hp r)
    | testHit b => cases hbet
    | sleepHit b => cases hbet
    | testVictim b => cases hbet
    | sleepVictim b => cases hbet

end Run

theorem PreInv.start {cache : Cache} (h : Initial cache) : PreInv (PreSys.start (T := T) cache) :=
  ⟨⟨_, _, h.rep⟩, h.quiet, by simp [PreSys.start], fun e he => by simp [PreSys.start] at he,
    fun b hb => by
      rw [show ((PreSys.start (T := T) cache).cache.head b).bCount = 0 from (h.idle b hb).2.1]
      rfl⟩

theorem few_of_length (h : u.log.length < 256) : u.Few := fun _ _ =>
  Nat.lt_of_le_of_lt List.countP_le_length h

/-- In every run whose claims are all taken while the victim still has `b_count = 0` and the
key is still not cached, and in which fewer than 256 calls have each head at a time, no two
heads carry one key and `b_count` is the number of calls that have returned the head for
its key, in every state. -/
theorem getblk_preempt_sound [DecidableEq T] {fuel start bufferEnd : Nat}
    {heads : Nat → BufferHead} {cache : Cache}
    (hinit : bufferInit fuel start bufferEnd heads = some cache) (hn : 1 ≤ cache.nrBuffers)
    (hrun : RunWhile (StepIf PreSys.Undisturbed) PreSys.Few (PreSys.start (T := T) cache) u) : u.Sound := by
  have hinv := RunWhile.invariant (Q := PreInv) hrun
    (fun a b _ hQ hstep hP => by
      rcases hstep with ⟨t, hs, hund⟩
      exact hQ.step hs hund hP)
    (few_of_length (by simp [PreSys.start])) (PreInv.start (bufferInit_initial hinit hn))
  exact hinv.2.sound

section Schedules

variable [DecidableEq T] {R : PreSys T → T → Prop} {c : Call} {p p' : Pc} {cache' : Cache}
  {u₀ : PreSys T}

/-- A run goes on with a call. -/
theorem preRun_call (h : RunWhile (StepIf R) PreSys.Few u₀ u) (t : T) (dev block : BitVec 32)
    (hdev : ValidDev dev) (hout : u.pc t = none) (hR : R u t) (hlog : u.log.length < 256) :
    RunWhile (StepIf R) PreSys.Few u₀
      { u with pc := Function.update u.pc t (some (⟨.getblk, dev, block⟩, .lookup)) } := by
  refine ReflTransGen.tail h ⟨⟨t, PreStep.call dev block ?_ hdev.2 hout, hR⟩, few_of_length hlog⟩
  rintro rfl
  exact absurd hdev.1 (by decide)

/-- A run goes on with one of the parts of `getblk`. -/
theorem preRun_exec (h : RunWhile (StepIf R) PreSys.Few u₀ u) (hpc : u.pc t = some (c, p))
    (hp : ∀ r, p ≠ .ret r) (hok : slice c u.cache p = .ok (cache', p')) (hR : R u t)
    (hlog : (u.log ++ returns c p').length < 256) :
    RunWhile (StepIf R) PreSys.Few u₀ {
      cache := cache'
      pc := Function.update u.pc t (some (c, p'))
      log := u.log ++ returns c p' } :=
  ReflTransGen.tail h ⟨⟨t, PreStep.exec hpc hp hok, hR⟩, few_of_length hlog⟩

end Schedules

/-! ## Two tasks in `kdebug` -/

/-- The call of `sys_kdebug`. -/
def kdebugCall : Call := ⟨.getblk, 0x300, 0⟩

section Kdebug

theorem kdebug_lookup : slice kdebugCall (smallCache 4148) .lookup =
    .ok (smallCache 4148, .scan) := rfl
theorem kdebug_scan : slice kdebugCall (smallCache 4148) .scan =
    .ok (smallCache 4148, .recheck 2000) := rfl
theorem kdebug_recheck : slice kdebugCall (smallCache 4148) (.recheck 2000) =
    .ok (smallCache 4148, .claim 2000) := rfl

/-- The head at 2000 can be claimed for `(0x300, 0)`, and claimed once more. -/
theorem kdebug_claim_twice : ∃ s₁ s₂, slice kdebugCall (smallCache 4148) (.claim 2000) =
      .ok (s₁, .ret (some 2000)) ∧ slice kdebugCall s₁ (.claim 2000) = .ok (s₂, .ret (some 2000)) ∧
    2000 ∈ s₂.headers ∧ (s₂.head 2000).bCount = 1 ∧
    (s₂.head 2000).hasKey 0x300 0 = true := by
  have hrep := smallCache_initial.rep
  have hmem : 2000 ∈ (smallCache 4148).headers := by decide
  have hdev : ∀ a ∈ (smallCache 4148).headers, ((smallCache 4148).head a).bDev = 0 := fun a ha =>
    (smallCache_initial.idle a ha).1
  rcases hrep.claim hmem 0x300 0 (fun _ a ha _ hk => by
    rw [hdev a ha] at hk
    exact absurd hk.1 (by decide)) with ⟨s₁, hok₁, hcl₁, hrep₁⟩
  have hmem₁ : 2000 ∈ s₁.headers := hcl₁.headers ▸ hmem
  rcases hrep₁.claim hmem₁ 0x300 0 (fun _ a ha hne hk => by
    rw [(hcl₁.key a).1, if_neg hne, hdev a (hcl₁.headers ▸ ha)] at hk
    exact absurd hk.1 (by decide)) with ⟨s₂, hok₂, hcl₂, -⟩
  refine ⟨s₁, s₂, slice_claim hok₁, slice_claim hok₂, hcl₂.headers ▸ hmem₁, ?_, ?_⟩
  · rw [(hcl₂.flags 2000).1, if_pos rfl]
  · rw [BufferHead.hasKey_iff, (hcl₂.key 2000).1, (hcl₂.key 2000).2, if_pos rfl, if_pos rfl]
    decide

/-- Two tasks call `getblk(0x300, 0)`, as both sides of the `fork` in `main` do. The first is
interrupted between its re-check and its claim: both calls return the head at 2000, and its
`b_count` is 1. -/
theorem getblk_preempt_race : bufferInit 3 2000 4148 (fun _ => zeroHead) = some (smallCache 4148) ∧
    ∃ u : PreSys Bool, RunWhile (StepIf fun _ _ => True) PreSys.Few
      (PreSys.start (smallCache 4148)) u ∧ ¬ u.Sound := by
  refine ⟨rfl, ?_⟩
  rcases kdebug_claim_twice with ⟨s₁, s₂, hclaim₁, hclaim₂, hmem, hcount, hkey⟩
  have h0 : RunWhile (StepIf fun _ _ => True) PreSys.Few
      (PreSys.start (T := Bool) (smallCache 4148)) _ := ReflTransGen.refl
  have h1 := preRun_call h0 false 0x300 0 (by decide) rfl trivial (by decide)
  have h2 := preRun_call h1 true 0x300 0 (by decide) rfl trivial (by decide)
  have h3 := preRun_exec (t := false) h2 rfl (by simp) kdebug_lookup trivial (by decide)
  have h4 := preRun_exec (t := false) h3 rfl (by simp) kdebug_scan trivial (by decide)
  have h5 := preRun_exec (t := false) h4 rfl (by simp) kdebug_recheck trivial (by decide)
  have h6 := preRun_exec (t := true) h5 rfl (by simp) kdebug_lookup trivial (by decide)
  have h7 := preRun_exec (t := true) h6 rfl (by simp) kdebug_scan trivial (by decide)
  have h8 := preRun_exec (t := true) h7 rfl (by simp) kdebug_recheck trivial (by decide)
  have h9 := preRun_exec (t := true) h8 rfl (by simp) hclaim₁ trivial
    (show 1 < 256 by decide)
  have h10 := preRun_exec (t := false) h9 rfl (by simp) hclaim₂ trivial
    (show 2 < 256 by decide)
  refine ⟨_, h10, fun hsound => ?_⟩
  have hreturned : (s₂.head 2000).bCount.toNat = List.countP (fun e => e.2 == 2000 &&
      (s₂.head 2000).hasKey e.1.1 e.1.2) [((0x300, 0), 2000), ((0x300, 0), 2000)] :=
    hsound.2 2000 hmem
  simp only [hcount, List.countP_cons, List.countP_nil, hkey] at hreturned
  exact absurd hreturned (by decide)

/-- After the claim of one task, the other one's re-check sends it back, and its lookup hits. -/
theorem kdebug_claim_then_hit : ∃ s₁ s₂, slice kdebugCall (smallCache 4148) (.claim 2000) =
      .ok (s₁, .ret (some 2000)) ∧ slice kdebugCall s₁ (.recheck 2000) = .ok (s₁, .lookup) ∧
    slice kdebugCall s₁ .lookup = .ok (s₂, .ret (some 2000)) ∧ (s₂.head 2000).bCount = 2 :=
  ⟨_, _, rfl, rfl, rfl, rfl⟩

/-- The same two calls, with the second one interrupted between its scan and its re-check: it
goes back to the lookup, and both have the head at 2000, with `b_count` 2. -/
theorem getblk_preempt_sound_two : ∃ u : PreSys Bool,
    RunWhile (StepIf PreSys.Undisturbed) PreSys.Few (PreSys.start (smallCache 4148)) u ∧
      u.log = [((0x300, 0), 2000), ((0x300, 0), 2000)] ∧ (u.cache.head 2000).bCount = 2 ∧
      u.Sound := by
  rcases kdebug_claim_then_hit with ⟨s₁, s₂, hclaim, hrecheck, hhit, hcount⟩
  -- a task that is not at its claim can take any step
  have hpass : ∀ {u : PreSys Bool} {t c p}, u.pc t = some (c, p) → (∀ b, p ≠ .claim b) →
      u.Undisturbed t := by
    intro u t c p hpc hp c' b hcb
    rw [hpc] at hcb
    cases hcb
    exact absurd rfl (hp b)
  have h0 : RunWhile (StepIf PreSys.Undisturbed) PreSys.Few
      (PreSys.start (T := Bool) (smallCache 4148)) _ := ReflTransGen.refl
  have h1 := preRun_call h0 false 0x300 0 (by decide) rfl (by simp [PreSys.Undisturbed, PreSys.start])
    (by decide)
  have h2 := preRun_call h1 true 0x300 0 (by decide) rfl
    (by simp [PreSys.Undisturbed, PreSys.start]) (by decide)
  have h3 := preRun_exec (t := false) h2 rfl (by simp) kdebug_lookup (hpass rfl (by simp))
    (by decide)
  have h4 := preRun_exec (t := false) h3 rfl (by simp) kdebug_scan (hpass rfl (by simp))
    (by decide)
  have h5 := preRun_exec (t := true) h4 rfl (by simp) kdebug_lookup (hpass rfl (by simp))
    (by decide)
  have h6 := preRun_exec (t := true) h5 rfl (by simp) kdebug_scan (hpass rfl (by simp))
    (by decide)
  have h7 := preRun_exec (t := false) h6 rfl (by simp) kdebug_recheck (hpass rfl (by simp))
    (by decide)
  -- what the re-check found still holds
  have hund : ∀ pc log, pc false = some (kdebugCall, Pc.claim 2000) →
      PreSys.Undisturbed (T := Bool) ⟨smallCache 4148, pc, log⟩ false := by
    intro pc log hpc c b hcb
    rw [show pc false = some (c, .claim b) from hcb] at hpc
    cases hpc
    exact ⟨(smallCache_initial.idle 2000 (by decide)).2.1, rfl⟩
  have h8 := preRun_exec (t := false) h7 rfl (by simp) hclaim (hund _ _ rfl)
    (show 1 < 256 by decide)
  have h9 := preRun_exec (t := true) h8 rfl (by simp) hrecheck (hpass rfl (by simp))
    (show 1 < 256 by decide)
  have h10 := preRun_exec (t := true) h9 rfl (by simp) hhit (hpass rfl (by simp))
    (show 2 < 256 by decide)
  exact ⟨_, h10, rfl, hcount, getblk_preempt_sound
    (show bufferInit 3 2000 4148 (fun _ => zeroHead) = _ from rfl) (by decide) h10⟩

end Kdebug

end MockOs.Fs
