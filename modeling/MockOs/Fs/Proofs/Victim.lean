import Mathlib.Order.Nat
import MockOs.Misc.MoveToEnd
import MockOs.Misc.Run
import MockOs.Fs.Tasks
import MockOs.Fs.Proofs.Refine

/-!
# Which head `getblk` replaces

The victim scan stops early when it meets a head with `BADNESS` 0 and goes on otherwise. It
picks the first of the least bad heads that are not in use. A head that is taken goes to the
end of the ring and nothing else moves one, so the ring is in the order of the last
assignments, and the first clean head in it is the one that has waited longest.
-/

namespace MockOs.Fs

open MoveToEnd Run

variable {s s' : Cache} {ring l : List Nat} {chains : Fin nrHash → List Nat} {v : Nat}

/-- `v` is the first of the least bad heads of the list that are not in use. -/
def Victim (s : Cache) (l : List Nat) (v : Nat) : Prop :=
  (s.head v).bCount = 0 ∧ ∃ before after, l = before ++ v :: after ∧
    (∀ b ∈ before, (s.head b).bCount = 0 → badness (s.head v) < badness (s.head b)) ∧
    ∀ b ∈ after, (s.head b).bCount = 0 → badness (s.head v) ≤ badness (s.head b)

/-- One more head in front, that is in use or worse. -/
theorem Victim.cons {tmp : Nat} (h : Victim s l v)
    (htmp : (s.head tmp).bCount = 0 → badness (s.head v) < badness (s.head tmp)) :
    Victim s (tmp :: l) v := by
  obtain ⟨hcount, before, after, rfl, hbefore, hafter⟩ := h
  refine ⟨hcount, tmp :: before, after, rfl, ?_, hafter⟩
  intro b hb
  rcases List.mem_cons.mp hb with rfl | hb
  · exact htmp
  · exact hbefore b hb

theorem Victim.mem (h : Victim s l v) : v ∈ l := by
  obtain ⟨-, before, after, rfl, -, -⟩ := h
  exact List.mem_append_right _ List.mem_cons_self

theorem Victim.le (h : Victim s l v) {b : Nat} (hb : b ∈ l) (hcount : (s.head b).bCount = 0) :
    badness (s.head v) ≤ badness (s.head b) := by
  obtain ⟨-, before, after, rfl, hbefore, hafter⟩ := h
  rcases List.mem_append.mp hb with hb | hb
  · exact (hbefore b hb hcount).le
  · rcases List.mem_cons.mp hb with rfl | hb
    · exact le_rfl
    · exact hafter b hb hcount

/-- The scan with `bh` as the best head so far: it keeps it unless something better follows. -/
theorem scanRing_victim {bh : Option Nat} (h : scanRing s l bh = some v) :
    (bh = some v ∧ ∀ b ∈ l, (s.head b).bCount = 0 → badness (s.head v) ≤ badness (s.head b)) ∨
    (Victim s l v ∧ ∀ a, bh = some a → badness (s.head v) < badness (s.head a)) := by
  induction l generalizing bh with
  | nil => exact Or.inl ⟨h, by simp⟩
  | cons tmp l ih =>
    rw [scanRing] at h
    by_cases htake : (s.head tmp).bCount = 0 ∧ better s tmp bh = true
    · have hless : ∀ a, bh = some a → badness (s.head tmp) < badness (s.head a) := by
        rintro a rfl
        simpa [better] using htake.2
      rw [if_pos htake] at h
      by_cases hbad : badness (s.head tmp) = 0
      · -- the early exit: nothing is better than 0
        rw [if_pos hbad] at h
        obtain rfl := Option.some.inj h
        refine Or.inr ⟨⟨htake.1, [], l, rfl, by simp, fun b _ _ => ?_⟩, hless⟩
        rw [hbad]
        exact Nat.zero_le _
      · rw [if_neg hbad] at h
        right
        rcases ih h with ⟨heq, hle⟩ | ⟨hvictim, hbest⟩
        · obtain rfl := Option.some.inj heq
          exact ⟨⟨htake.1, [], l, rfl, by simp, hle⟩, hless⟩
        · have hlt := hbest tmp rfl
          exact ⟨hvictim.cons fun _ => hlt, fun a ha => hlt.trans (hless a ha)⟩
    · rw [if_neg htake] at h
      have hskip : ∀ a, bh = some a → (s.head tmp).bCount = 0 →
          badness (s.head a) ≤ badness (s.head tmp) := by
        rintro a rfl hcount
        simpa [better, hcount] using htake
      rcases ih h with ⟨rfl, hle⟩ | ⟨hvictim, hbest⟩
      · refine Or.inl ⟨rfl, fun b hb => ?_⟩
        rcases List.mem_cons.mp hb with rfl | hb
        · exact hskip v rfl
        · exact hle b hb
      · refine Or.inr ⟨hvictim.cons fun hcount => ?_, hbest⟩
        cases bh with
        | none => exact absurd ⟨hcount, rfl⟩ htake
        | some a => exact (hbest a rfl).trans_le (hskip a rfl hcount)

/-- There is one victim at most. -/
theorem Victim.unique {v' : Nat} (h : Victim s l v) (h' : Victim s l v') : v = v' := by
  have hle := h.le h'.mem h'.1
  have hle' := h'.le h.mem h.1
  obtain ⟨hcount, before, after, hl, hbefore, hafter⟩ := h
  obtain ⟨hcount', before', after', hl', hbefore', hafter'⟩ := h'
  -- neither stands before the other
  have hnot : v' ∉ before := fun hin => absurd (hbefore v' hin hcount') (not_lt.mpr hle')
  have hnot' : v ∉ before' := fun hin => absurd (hbefore' v hin hcount) (not_lt.mpr hle)
  rw [hl] at hl'
  rcases List.append_eq_append_iff.mp hl' with ⟨m, rfl, hm⟩ | ⟨m, rfl, hm⟩
  · cases m with
    | nil => exact (List.cons.inj hm).1
    | cons a m => exact absurd (by simp [(List.cons.inj hm).1]) hnot'
  · cases m with
    | nil => exact (List.cons.inj hm).1.symm
    | cons a m => exact absurd (by simp [(List.cons.inj hm).1]) hnot

/-- The early exit does not change what is picked: the scan finds the victim, or that every
head is in use. -/
theorem scanRing_eq_some : scanRing s l none = some v ↔ Victim s l v := by
  have hpick : ∀ w, scanRing s l none = some w → Victim s l w := by
    intro w hw
    rcases scanRing_victim hw with ⟨hnone, -⟩ | ⟨hvictim, -⟩
    · cases hnone
    · exact hvictim
  refine ⟨hpick v, fun hv => ?_⟩
  cases hr : scanRing s l none with
  | none => exact absurd hv.1 ((scanRing_none.mp hr).2 v hv.mem)
  | some w => rw [hv.unique (hpick w hr)]

/-- The head is not in use, clean and unlocked. -/
def Cache.idle (s : Cache) (b : Nat) : Bool :=
  (s.head b).bCount = 0 && (s.head b).bDirt = 0 && (s.head b).bLock = 0

theorem idle_iff {b : Nat} :
    s.idle b = true ↔ (s.head b).bCount = 0 ∧ badness (s.head b) = 0 := by
  have hdirt : (s.head b).bDirt = 0 ↔ (s.head b).bDirt.toNat = 0 := BitVec.toNat_eq
  have hlock : (s.head b).bLock = 0 ↔ (s.head b).bLock.toNat = 0 := BitVec.toNat_eq
  have hsum : badness (s.head b) = 0 ↔
      (s.head b).bDirt.toNat = 0 ∧ (s.head b).bLock.toNat = 0 := by
    rw [badness]
    omega
  simp only [Cache.idle, Bool.and_eq_true, decide_eq_true_eq, hsum, hdirt, hlock, and_assoc]

/-- With an idle head there the victim is the first one. -/
theorem victim_of_idle (h : ∃ b ∈ l, s.idle b) : Victim s l v ↔ l.find? s.idle = some v := by
  have hfound : ∀ w, l.find? s.idle = some w → Victim s l w := by
    intro w hw
    obtain ⟨hidle, before, after, hl, hbefore⟩ := List.find?_eq_some_iff_append.mp hw
    obtain ⟨hcount, hbad⟩ := idle_iff.mp hidle
    refine ⟨hcount, before, after, hl, fun b hb hbcount => ?_, fun b _ _ => ?_⟩
    · have hnot : ¬ s.idle b = true := by simpa using hbefore b hb
      rw [idle_iff, not_and] at hnot
      rw [hbad]
      exact Nat.pos_of_ne_zero (hnot hbcount)
    · rw [hbad]
      exact Nat.zero_le _
  refine ⟨fun hv => ?_, hfound v⟩
  obtain ⟨w, hw⟩ : ∃ w, l.find? s.idle = some w := by
    rw [← Option.isSome_iff_exists, List.find?_isSome]
    exact h
  rw [hv.unique (hfound w hw), hw]

/-! ## The order of the ring -/

/-- The ring after a step: the head that was assigned is at the end. -/
def ringAfter : Option Nat → List Nat → List Nat
  | some b, ring => move ring b
  | none, ring => ring

theorem foldl_ringAfter (as : List (Option Nat)) (ring : List Nat) :
    as.foldl (fun ring a => ringAfter a ring) ring = as.reduceOption.foldl move ring := by
  induction as generalizing ring with
  | nil => rfl
  | cons a as ih =>
    cases a with
    | none => exact ih ring
    | some b => exact ih (move ring b)

/-- A piece of `getblk`/`get_hash_table` keeps the queues, whatever the device; the ring is as
it was unless the piece assigns a head. -/
theorem Queued.step {c : Call} {p p' : Pc} (h : Queued s ring chains)
    (hp : ∀ b, p.bh = some b → b ∈ s.headers) (hstep : step c s p = .ok (s', p')) :
    s'.headers = s.headers ∧ (∃ chains', Queued s' (ringAfter p.assigns ring) chains') ∧
      ∀ b, p'.bh = some b → b ∈ s.headers := by
  cases p with
  | lookup =>
    obtain ⟨r, hr, hfound⟩ := h.findBuffer_spec c.dev c.block
    simp only [Fs.step, hr, bind, Except.bind, pure, Except.pure] at hstep
    cases r with
    | none =>
      cases hfn : c.fn <;> simp only [hfn, Except.ok.injEq, Prod.mk.injEq] at hstep <;>
        obtain ⟨rfl, rfl⟩ := hstep <;> exact ⟨rfl, ⟨chains, h⟩, by simp [Pc.bh]⟩
    | some b =>
      simp only [Except.ok.injEq, Prod.mk.injEq] at hstep
      obtain ⟨rfl, rfl⟩ := hstep
      refine ⟨rfl, ⟨chains, h.modify (Unkeyed.count _) b⟩, fun a ha => ?_⟩
      obtain rfl := Option.some.inj ha
      exact (hfound b rfl).1
  | testHit b =>
    simp only [Fs.step, pure, Except.pure] at hstep
    split_ifs at hstep <;> simp only [Except.ok.injEq, Prod.mk.injEq] at hstep <;>
      obtain ⟨rfl, rfl⟩ := hstep
    · exact ⟨rfl, ⟨chains, h⟩, hp⟩
    · exact ⟨rfl, ⟨chains, h⟩, hp⟩
    · exact ⟨rfl, ⟨chains, h.modify (Unkeyed.count _) b⟩, by simp [Pc.bh]⟩
  | sleepHit b =>
    obtain ⟨rfl, rfl⟩ := Prod.mk.inj (Except.ok.inj hstep)
    exact ⟨rfl, ⟨chains, h⟩, hp⟩
  | scan =>
    obtain ⟨tmp, htmp, hscan⟩ := h.scanFree_eq
    simp only [Fs.step, htmp, hscan, bind, Except.bind, pure, Except.pure] at hstep
    cases hr : scanRing s ring none with
    | none =>
      simp only [hr, Except.ok.injEq, Prod.mk.injEq] at hstep
      obtain ⟨rfl, rfl⟩ := hstep
      exact ⟨rfl, ⟨chains, h⟩, by simp [Pc.bh]⟩
    | some b =>
      simp only [hr, Except.ok.injEq, Prod.mk.injEq] at hstep
      obtain ⟨rfl, rfl⟩ := hstep
      refine ⟨rfl, ⟨chains, h⟩, fun a ha => ?_⟩
      obtain rfl := Option.some.inj ha
      exact h.perm.mem_iff.mp (scanRing_eq_some.mp hr).mem
  | sleepFree =>
    obtain ⟨rfl, rfl⟩ := Prod.mk.inj (Except.ok.inj hstep)
    exact ⟨rfl, ⟨chains, h⟩, by simp [Pc.bh]⟩
  | testVictim b =>
    simp only [Fs.step, pure, Except.pure] at hstep
    split_ifs at hstep <;> simp only [Except.ok.injEq, Prod.mk.injEq] at hstep <;>
      obtain ⟨rfl, rfl⟩ := hstep <;> exact ⟨rfl, ⟨chains, h⟩, hp⟩
  | sleepVictim b =>
    obtain ⟨rfl, rfl⟩ := Prod.mk.inj (Except.ok.inj hstep)
    exact ⟨rfl, ⟨chains, h⟩, hp⟩
  | recheck b =>
    obtain ⟨r, hr, -⟩ := h.findBuffer_spec c.dev c.block
    simp only [Fs.step, hr, bind, Except.bind, pure, Except.pure] at hstep
    split_ifs at hstep
    · obtain ⟨rfl, rfl⟩ := Prod.mk.inj (Except.ok.inj hstep)
      exact ⟨rfl, ⟨chains, h⟩, by simp [Pc.bh]⟩
    · obtain ⟨rfl, rfl⟩ := Prod.mk.inj (Except.ok.inj hstep)
      exact ⟨rfl, ⟨chains, h⟩, by simp [Pc.bh]⟩
    · cases r with
      | none =>
        obtain ⟨rfl, rfl⟩ := Prod.mk.inj (Except.ok.inj hstep)
        exact ⟨rfl, ⟨chains, h⟩, hp⟩
      | some a =>
        obtain ⟨rfl, rfl⟩ := Prod.mk.inj (Except.ok.inj hstep)
        exact ⟨rfl, ⟨chains, h⟩, by simp [Pc.bh]⟩
  | claim b =>
    obtain ⟨s₁, hok, hcl, hq⟩ := h.claim (hp b rfl) c.dev c.block
    simp only [Fs.step, hok, bind, Except.bind, pure, Except.pure, Except.ok.injEq,
      Prod.mk.injEq] at hstep
    obtain ⟨rfl, rfl⟩ := hstep
    exact ⟨hcl.headers, ⟨_, hq⟩, hp⟩
  | ret r =>
    obtain ⟨rfl, rfl⟩ := Prod.mk.inj (Except.ok.inj hstep)
    exact ⟨rfl, ⟨chains, h⟩, hp⟩

section Run

variable {T : Type} {u u' : BufSys T}

/-- What a run keeps: the ring is `ring`, and the tasks hold pointers to heads. -/
structure RingInv (u : BufSys T) (ring : List Nat) : Prop where
  queued : ∃ chains, Queued u.cache ring chains
  heads : ∀ t c p, u.pc t = some (c, p) → ∀ b, p.bh = some b → b ∈ u.cache.headers

variable [DecidableEq T]

theorem RingInv.setPc (h : RingInv u ring) {t : T} {q : Option (Call × Pc)} {cache' : Cache}
    {ring' : List Nat} (hq : ∃ chains, Queued cache' ring' chains)
    (hh : cache'.headers = u.cache.headers)
    (hp : ∀ c p, q = some (c, p) → ∀ b, p.bh = some b → b ∈ u.cache.headers) :
    RingInv { u with cache := cache', pc := Function.update u.pc t q } ring' := by
  refine ⟨hq, fun t' c p ht' => ?_⟩
  rw [hh]
  by_cases htt : t' = t
  · subst htt
    exact hp c p (by simpa using ht')
  · exact h.heads t' c p (by simpa [htt] using ht')

theorem RingInv.step {a : Option Nat} (hstep : AssignStep a u u') (h : RingInv u ring) :
    RingInv u' (ringAfter a ring) := by
  obtain ⟨chains, hq⟩ := h.queued
  cases hstep with
  | call t c hout =>
    refine h.setPc h.queued rfl ?_
    rintro c' p' ⟨rfl, rfl⟩ b hb
    cases hb
  | exec hpc hok =>
    obtain ⟨hh, hq', hp'⟩ := hq.step (h.heads _ _ _ hpc) hok
    refine h.setPc hq' hh ?_
    rintro c' q' ⟨rfl, rfl⟩
    exact hp'
  | leave hpc => exact h.setPc h.queued rfl (by simp)
  | flags b count dirt lock uptodate =>
    have hflags : Unkeyed ({ · with
        bCount := count, bDirt := dirt, bLock := lock, bUptodate := uptodate }) :=
      ⟨fun _ => ⟨rfl, rfl⟩, fun _ => ⟨rfl, rfl, rfl, rfl⟩⟩
    exact ⟨⟨chains, hq.modify hflags b⟩, h.heads⟩

/-- After any run the ring is in the order of the last assignments. -/
theorem RingInv.run {as : List (Option Nat)} (htrace : Trace AssignStep u as u')
    (h : RingInv u ring) : RingInv u' (byLastUse ring as.reduceOption) := by
  obtain ⟨chains, hq⟩ := h.queued
  have hrun := Trace.simulation (f := ringAfter) (fun a v v' ring hv hstep => RingInv.step hstep hv)
    htrace h
  rwa [foldl_ringAfter, foldl_move _ hq.free.nodup] at hrun

end Run

/-- The scan of the ring in any state: it ends, with the victim. -/
theorem Queued.scan_victim (h : Queued s ring chains) :
    ∃ tmp r, deref s.freeList = .ok tmp ∧ scanFree s s.nrBuffers tmp none = .ok r ∧
      (∀ v, r = some v ↔ Victim s ring v) ∧
      (r = none ↔ ∀ b ∈ s.headers, (s.head b).bCount ≠ 0) := by
  obtain ⟨tmp, htmp, hscan⟩ := h.scanFree_eq
  refine ⟨tmp, _, htmp, hscan, fun v => scanRing_eq_some, ?_⟩
  rw [scanRing_none]
  simp [h.perm.mem_iff]

/-- A call of `getblk` for a cached key counts the head up, and returns it or sleeps on it. -/
theorem Queued.getblk_cached (h : Queued s ring chains) {dev block : BitVec 32} {b fuel : Nat}
    {p : Pc} (hf : findBuffer s dev block = .ok (some b))
    (hok : getblk fuel s dev block = .ok (s', p)) :
    s' = s.setCount b ((s.head b).bCount + 1) := by
  obtain ⟨r, hr, hfound⟩ := h.findBuffer_spec dev block
  obtain rfl : r = some b := Except.ok.inj (hr.symm.trans hf)
  have hkey : ((s.setCount b ((s.head b).bCount + 1)).head b).hasKey dev block = true := by
    simpa [Cache.setCount, BufferHead.hasKey] using (hfound b rfl).2
  have hlook : Fs.step ⟨.getblk, dev, block⟩ s .lookup =
      .ok (s.setCount b ((s.head b).bCount + 1), .testHit b) := by
    simp only [Fs.step, hf, bind, Except.bind, pure, Except.pure]
  obtain ⟨n, -, hn⟩ := runCall_inv rfl hlook hok
  by_cases hlock : ((s.setCount b ((s.head b).bCount + 1)).head b).bLock ≠ 0
  · have hsleep : Fs.step ⟨.getblk, dev, block⟩ (s.setCount b ((s.head b).bCount + 1))
        (.testHit b) = .ok (s.setCount b ((s.head b).bCount + 1), .sleepHit b) := by
      rw [Fs.step, if_pos hlock]
      rfl
    obtain ⟨m, -, hm⟩ := runCall_inv rfl hsleep hn
    exact congrArg Prod.fst (runCall_end rfl hm)
  · have hret : Fs.step ⟨.getblk, dev, block⟩ (s.setCount b ((s.head b).bCount + 1))
        (.testHit b) = .ok (s.setCount b ((s.head b).bCount + 1), .ret (some b)) := by
      rw [Fs.step, if_neg hlock, if_pos hkey]
      rfl
    obtain ⟨m, -, hm⟩ := runCall_inv rfl hret hn
    exact congrArg Prod.fst (runCall_end rfl hm)

/-- Victim choice and replacement order. In any state of the cache the scan picks the first
of the least bad heads that are not in use, and none when there is none. A head that is
claimed goes to the end of the ring, a hit moves nothing. After any run of the tasks the ring
is in the order of the last assignments, and where there is an idle head the scan picks the
first of them in that order. -/
theorem getblk_replacement {T : Type} [DecidableEq T] (h : Rep s ring chains) :
    (∃ tmp r, deref s.freeList = .ok tmp ∧ scanFree s s.nrBuffers tmp none = .ok r ∧
      (∀ v, r = some v ↔ Victim s ring v) ∧
      (r = none ↔ ∀ b ∈ s.headers, (s.head b).bCount ≠ 0)) ∧
    (∀ v dev block, Victim s ring v → ∃ s', claimBuffer s v dev block = .ok s' ∧
      FreeRing s' (ring.erase v ++ [v])) ∧
    (∀ fuel dev block b s' p, findBuffer s dev block = .ok (some b) →
      getblk fuel s dev block = .ok (s', p) → FreeRing s' ring) ∧
    ∀ (u u' : BufSys T) as, u.cache = s →
      (∀ t c p, u.pc t = some (c, p) → ∀ b, p.bh = some b → b ∈ s.headers) →
      Trace AssignStep u as u' →
      FreeRing u'.cache (byLastUse ring as.reduceOption) ∧
      ((∃ b ∈ u'.cache.headers, u'.cache.idle b) →
        ∃ tmp v, deref u'.cache.freeList = .ok tmp ∧
          scanFree u'.cache u'.cache.nrBuffers tmp none = .ok (some v) ∧
          (byLastUse ring as.reduceOption).find? u'.cache.idle = some v) := by
  refine ⟨h.queued.scan_victim, fun v dev block hv => ?_, fun fuel dev block b s' p hf hok => ?_,
    fun u u' as hu hheads htrace => ?_⟩
  · obtain ⟨s', hok, -, hq⟩ := h.queued.claim (h.perm.mem_iff.mp hv.mem) dev block
    exact ⟨s', hok, hq.free⟩
  · rw [h.queued.getblk_cached hf hok]
    exact (h.queued.modify (Unkeyed.count _) b).free
  · subst hu
    have hinv : RingInv u ring := ⟨⟨chains, h.queued⟩, hheads⟩
    obtain ⟨chains', hq'⟩ := (hinv.run htrace).queued
    refine ⟨hq'.free, ?_⟩
    rintro ⟨b, hb, hidle⟩
    have hsome : ∃ b ∈ byLastUse ring as.reduceOption, u'.cache.idle b :=
      ⟨b, hq'.perm.mem_iff.mpr hb, hidle⟩
    obtain ⟨tmp, r, htmp, hscan, hpick, hnone⟩ := hq'.scan_victim
    cases r with
    | none => exact absurd (idle_iff.mp hidle).1 (hnone.mp rfl b hb)
    | some v => exact ⟨tmp, v, htmp, hscan, (victim_of_idle hsome).mp ((hpick v).mp rfl)⟩

/-- A task calls `getblk(0x300, 0)` on a fresh cache of two heads: it takes the first of them,
which goes to the end. -/
theorem getblk_replacement_kdebug : ∃ u : BufSys Unit,
    Trace AssignStep (BufSys.start (smallCache 4148) ())
      [none, none, none, none, none, some 2000] u ∧ FreeRing u.cache [2036, 2000] := by
  have hmem : 2000 ∈ (smallCache 4148).headers := by decide
  obtain ⟨s₁, hok, -⟩ := smallCache_initial.rep.queued.claim hmem 0x300 0
  have hclaim : step ⟨.getblk, 0x300, 0⟩ (smallCache 4148) (.claim 2000) =
      .ok (s₁, .ret (some 2000)) := by
    simp only [step, hok, bind, Except.bind, pure, Except.pure]
  have hlook : step ⟨.getblk, 0x300, 0⟩ (smallCache 4148) .lookup =
      .ok (smallCache 4148, .scan) := rfl
  have hscan : step ⟨.getblk, 0x300, 0⟩ (smallCache 4148) .scan =
      .ok (smallCache 4148, .testVictim 2000) := rfl
  have htest : step ⟨.getblk, 0x300, 0⟩ (smallCache 4148) (.testVictim 2000) =
      .ok (smallCache 4148, .recheck 2000) := rfl
  have hrecheck : step ⟨.getblk, 0x300, 0⟩ (smallCache 4148) (.recheck 2000) =
      .ok (smallCache 4148, .claim 2000) := rfl
  have h1 : Trace AssignStep (BufSys.start (smallCache 4148) ()) [none] _ :=
    Trace.nil.snoc (.call () ⟨.getblk, 0x300, 0⟩ rfl)
  have h2 := h1.snoc (AssignStep.exec (t := ()) rfl hlook)
  have h3 := h2.snoc (AssignStep.exec (t := ()) rfl hscan)
  have h4 := h3.snoc (AssignStep.exec (t := ()) rfl htest)
  have h5 := h4.snoc (AssignStep.exec (t := ()) rfl hrecheck)
  have h6 := h5.snoc (AssignStep.exec (t := ()) rfl hclaim)
  have hring := ((getblk_replacement smallCache_initial.rep).2.2.2 (BufSys.start _ ()) _ _ rfl
    (by simp [BufSys.start]) h6).1
  exact ⟨_, h6, hring⟩

end MockOs.Fs
