import MockOs.Fs.Proofs.Refine

/-!
# Waiting for a buffer

`get_hash_table` compares the key once more after `wait_on_buffer`, and the source asks why.
A task that waits has counted its reference before it went to sleep, and `getblk` gives a new
key only to a head that nobody refers to, so the second comparison never fails. This needs no
more of the cache than its queues: it holds for devices beyond 16 bits as well.
-/

namespace MockOs.Fs

open Relation Run

variable {s s' : Cache} {ring : List Nat} {chains : Fin nrHash → List Nat} {refs refs' : List Nat}
  {c : Call} {p p' : Pc} {n : Nat}

/-- The head a task waits for in `get_hash_table`. -/
def Pc.hit : Pc → Option Nat
  | .testHit b | .sleepHit b => some b
  | _ => none

/-- The head that `wait_on_buffer` has just found unlocked. -/
def Pc.unlocked : Pc → Option Nat
  | .recheck b | .claim b => some b
  | .ret r => r
  | _ => none

/-- The queues are in order and `b_count` is the number of references. -/
structure Counted (s : Cache) (refs : List Nat) : Prop where
  queued : ∃ ring chains, Queued s ring chains
  counts : ∀ b ∈ s.headers, (s.head b).bCount.toNat = refs.count b

/-- What a task at `p` relies on, `n` being its turns of the loop of `get_hash_table`. -/
structure RefOk (s : Cache) (refs : List Nat) (n : Nat) (c : Call) (p : Pc) : Prop where
  head : ∀ b, p.bh = some b → b ∈ s.headers
  hit : ∀ b, p.hit = some b → (s.head b).hasKey c.dev c.block = true ∧ b ∈ refs
  ret : ∀ b, p = .ret (some b) → s.Holds b c.dev c.block ∧ b ∈ refs
  unlocked : ∀ b, p.unlocked = some b → (s.head b).bLock = 0
  free : ∀ b, p = .claim b → (s.head b).bCount = 0
  turns : n ≤ 1
  fresh : p = .lookup → n = 0

/-- Every head with a reference keeps its key and a reference. -/
structure Kept (s : Cache) (refs : List Nat) (s' : Cache) (refs' : List Nat) : Prop where
  headers : s'.headers = s.headers
  key : ∀ b ∈ refs, (s'.head b).bDev = (s.head b).bDev ∧
    (s'.head b).bBlocknr = (s.head b).bBlocknr
  refs : ∀ b ∈ refs, b ∈ refs'

theorem Kept.refl : Kept s refs s refs := ⟨rfl, fun _ _ => ⟨rfl, rfl⟩, fun _ hb => hb⟩

/-- A task inside `sleep_on` relies on the key of the head it waits for and on no other. -/
theorem RefOk.of_sleeps (h : RefOk s refs n c p) (hs : p.sleeps = true)
    (hk : Kept s refs s' refs') : RefOk s' refs' n c p := by
  refine ⟨fun b hb => hk.headers ▸ h.head b hb, fun b hb => ?_, ?_, ?_, ?_, h.turns, h.fresh⟩
  · rcases h.hit b hb with ⟨hkey, href⟩
    refine ⟨?_, hk.refs b href⟩
    rw [BufferHead.hasKey, (hk.key b href).1, (hk.key b href).2]
    exact hkey
  · rintro b rfl
    cases hs
  · intro b hb
    cases p <;> cases hs <;> cases hb
  · rintro b rfl
    cases hs

/-- A task that holds no pointer relies on nothing. -/
theorem RefOk.of_bh_none (hbh : p.bh = none) (hn : n ≤ 1) (hfresh : p = .lookup → n = 0) :
    RefOk s refs n c p := by
  cases p with
  | lookup | scan | sleepFree =>
    exact ⟨by simp [Pc.bh], by simp [Pc.hit], by simp, by simp [Pc.unlocked], by simp, hn, hfresh⟩
  | ret r =>
    cases hbh
    exact ⟨by simp [Pc.bh], by simp [Pc.hit], by simp, by simp [Pc.unlocked], by simp, hn, hfresh⟩
  | testHit b | sleepHit b | testVictim b | sleepVictim b | recheck b | claim b => cases hbh

/-- A task that waits for its victim has only the pointer. -/
theorem RefOk.testVictim {b : Nat} (hb : b ∈ s.headers) (hn : n ≤ 1) :
    RefOk s refs n c (.testVictim b) := by
  refine ⟨?_, by simp [Pc.hit], by simp, by simp [Pc.unlocked], by simp, hn, by simp⟩
  rintro _ ⟨⟩
  exact hb

theorem holds_of_hasKey {b : Nat} {dev block : BitVec 32} (hb : b ∈ s.headers)
    (hkey : (s.head b).hasKey dev block = true) : s.Holds b dev block := by
  rcases BufferHead.hasKey_iff.mp hkey with ⟨hd, hk⟩
  refine ⟨hb, ?_, hk⟩
  rw [← hd]
  bv_omega

/-! ## One piece of a call -/

/-- What a piece of a call, from `p` to `p'`, hands on. -/
structure RefStepped (s : Cache) (refs : List Nat) (n : Nat) (c : Call) (s' : Cache) (p p' : Pc) :
    Prop where
  counted : Counted s' (refsAfter refs p p')
  kept : Kept s refs s' (refsAfter refs p p')
  ok : RefOk s' (refsAfter refs p p') (turnsAfter n p p') c p'

/-- A piece that touches nothing. -/
theorem RefStepped.pass (h : Counted s refs) (hrefs : refsAfter refs p p' = refs)
    (hok : RefOk s refs (turnsAfter n p p') c p') : RefStepped s refs n c s p p' := by
  constructor
  · rw [hrefs]
    exact h
  · rw [hrefs]
    exact Kept.refl
  · rw [hrefs]
    exact hok

/-- The lookup finds `b`, and one more call refers to it. -/
theorem Counted.hit (h : Counted s refs) {b : Nat} (hb : b ∈ s.headers)
    (hkey : (s.head b).hasKey c.dev c.block = true) (hn : n = 0)
    (hfew : (b :: refs).count b < 256) :
    RefStepped s refs n c (s.setCount b ((s.head b).bCount + 1)) .lookup (.testHit b) := by
  rcases h.queued with ⟨ring, chains, hq⟩
  have hkeys := fun a => (Unkeyed.count ((s.head b).bCount + 1)).keys (s := s) b a
  refine ⟨⟨⟨ring, chains, hq.modify (Unkeyed.count _) b⟩, fun a ha => ?_⟩,
    ⟨rfl, fun a _ => hkeys a, fun a ha => List.mem_cons_of_mem _ ha⟩, ?_⟩
  · rw [setCount_head]
    have hold := h.counts a ha
    by_cases hab : a = b
    · subst hab
      rw [List.count_cons_self] at hfew
      have hsum : ((s.head a).bCount + 1).toNat = (a :: refs).count a := by
        rw [List.count_cons_self]
        bv_omega
      rw [if_pos rfl]
      exact hsum
    · rw [if_neg hab]
      simpa [refsAfter, Ne.symm hab] using hold
  · refine ⟨?_, ?_, by simp, by simp [Pc.unlocked], by simp, ?_, by simp⟩
    · rintro _ ⟨⟩
      exact hb
    · rintro _ ⟨⟩
      refine ⟨?_, List.mem_cons_self⟩
      rw [setCount_head, if_pos rfl]
      exact hkey
    · simp [turnsAfter, hn]

/-- A head with `b_count = 0` is taken: no call referred to it. -/
theorem Counted.take (h : Counted s refs) {b : Nat} (hb : b ∈ s.headers)
    (hfree : (s.head b).bCount = 0) (hlock : (s.head b).bLock = 0) (hn : n ≤ 1)
    (hok : claimBuffer s b c.dev c.block = .ok s') :
    RefStepped s refs n c s' (.claim b) (.ret (some b)) := by
  rcases h.queued with ⟨ring, chains, hq⟩
  rcases hq.claim hb c.dev c.block with ⟨s₁, hok₁, hcl, hq'⟩
  rw [hok] at hok₁
  cases hok₁
  have hzero : refs.count b = 0 := by
    rw [← h.counts b hb, hfree]
    rfl
  have hout : b ∉ refs := List.count_eq_zero.mp hzero
  have hne : ∀ a ∈ refs, a ≠ b := by
    rintro a ha rfl
    exact hout ha
  refine ⟨⟨⟨_, _, hq'⟩, fun a ha => ?_⟩,
    ⟨hcl.headers, fun a ha => ?_, fun a ha => List.mem_cons_of_mem _ ha⟩, ?_⟩
  · rw [(hcl.flags a).1]
    rw [hcl.headers] at ha
    by_cases hab : a = b
    · subst hab
      rw [if_pos rfl, refsAfter, List.count_cons_self, hzero]
      rfl
    · rw [if_neg hab, refsAfter, List.count_cons_of_ne (Ne.symm hab)]
      exact h.counts a ha
  · rw [(hcl.key a).1, (hcl.key a).2, if_neg (hne a ha), if_neg (hne a ha)]
    exact ⟨rfl, rfl⟩
  · refine ⟨?_, by simp [Pc.hit], ?_, ?_, by simp, hn, by simp⟩
    · rintro _ ⟨⟩
      exact hcl.headers ▸ hb
    · rintro _ ⟨⟩
      refine ⟨⟨hcl.headers ▸ hb, ?_, ?_⟩, List.mem_cons_self⟩
      · rw [(hcl.key b).1, if_pos rfl]
      · rw [(hcl.key b).2, if_pos rfl]
    · rintro _ ⟨⟩
      rw [(hcl.flags b).2.2]
      exact hlock

/-- After `wait_on_buffer` the key is still there. -/
theorem RefOk.step_testHit {b : Nat} (hp : RefOk s refs n c (.testHit b)) :
    step c s (.testHit b) =
      .ok (s, if (s.head b).bLock = 0 then .ret (some b) else .sleepHit b) := by
  have hkey := (hp.hit b rfl).1
  by_cases hlock : (s.head b).bLock = 0
  · rw [if_pos hlock]
    exact Fs.step_testHit c.fn hlock hkey
  · rw [if_neg hlock]
    simp only [step, ne_eq, hlock, not_false_eq_true, if_true, pure, Except.pure]

/-- One piece of `getblk`/`get_hash_table` keeps the count of the references, and the key of
every head that has one. -/
theorem Counted.step (h : Counted s refs) (hp : RefOk s refs n c p)
    (hok : step c s p = .ok (s', p'))
    (hfew : ∀ b ∈ s'.headers, (refsAfter refs p p').count b < 256) :
    RefStepped s refs n c s' p p' := by
  rcases h.queued with ⟨ring, chains, hq⟩
  cases p with
  | lookup =>
    have hn : n = 0 := hp.fresh rfl
    have hturns : n + 1 ≤ 1 := by omega
    rcases hq.findBuffer_spec c.dev c.block with ⟨r, hfind, hr⟩
    simp only [Fs.step, hfind, bind, Except.bind, pure, Except.pure] at hok
    cases r with
    | some b =>
      rcases hr b rfl with ⟨hb, hkey⟩
      cases hok
      exact h.hit hb hkey hn (hfew b hb)
    | none =>
      cases hfn : c.fn with
      | getblk =>
        rw [hfn] at hok
        cases hok
        exact .pass h rfl (.of_bh_none rfl hturns (by simp))
      | getHashTable =>
        rw [hfn] at hok
        cases hok
        exact .pass h rfl (.of_bh_none rfl hturns (by simp))
  | testHit b =>
    rcases hp.hit b rfl with ⟨hkey, href⟩
    have hb : b ∈ s.headers := hp.head b rfl
    rw [hp.step_testHit] at hok
    split at hok
    · rename_i hlock
      cases hok
      refine .pass h rfl ⟨hp.head, by simp [Pc.hit], ?_, ?_, by simp, hp.turns, by simp⟩
      · rintro _ ⟨⟩
        exact ⟨holds_of_hasKey hb hkey, href⟩
      · rintro _ ⟨⟩
        exact hlock
    · cases hok
      exact .pass h rfl ⟨hp.head, hp.hit, by simp, by simp [Pc.unlocked], by simp, hp.turns, by simp⟩
  | sleepHit b =>
    cases hok
    exact .pass h rfl ⟨hp.head, hp.hit, by simp, by simp [Pc.unlocked], by simp, hp.turns, by simp⟩
  | scan =>
    rcases hq.scanFree_eq with ⟨tmp, htmp, hscan⟩
    simp only [Fs.step, htmp, hscan, bind, Except.bind, pure, Except.pure] at hok
    cases hr : scanRing s ring none with
    | none =>
      rw [hr] at hok
      cases hok
      exact .pass h rfl (.of_bh_none rfl hp.turns (by simp))
    | some b =>
      rw [hr] at hok
      cases hok
      have hb : b ∈ ring := ((scanRing_spec hr).resolve_left (by simp)).1
      exact .pass h rfl (.testVictim (hq.perm.mem_iff.mp hb) hp.turns)
  | sleepFree =>
    cases hok
    exact .pass h rfl (.of_bh_none rfl (Nat.zero_le _) fun _ => rfl)
  | testVictim b =>
    simp only [Fs.step] at hok
    split at hok
    · cases hok
      exact .pass h rfl ⟨hp.head, by simp [Pc.hit], by simp, by simp [Pc.unlocked], by simp,
        hp.turns, by simp⟩
    · rename_i hlock
      cases hok
      refine .pass h rfl ⟨hp.head, by simp [Pc.hit], by simp, ?_, by simp, hp.turns, by simp⟩
      rintro _ ⟨⟩
      exact not_not.mp hlock
  | sleepVictim b =>
    cases hok
    exact .pass h rfl (.testVictim (hp.head b rfl) hp.turns)
  | recheck b =>
    -- `goto repeat`, from any of the three tests
    have hrepeat : RefStepped s refs n c s (.recheck b) .lookup :=
      .pass h rfl (.of_bh_none rfl (Nat.zero_le _) fun _ => rfl)
    rcases hq.findBuffer_spec c.dev c.block with ⟨r, hfind, -⟩
    simp only [Fs.step, hfind, bind, Except.bind, pure, Except.pure] at hok
    split at hok
    · cases hok
      exact hrepeat
    · rename_i hcount
      split at hok
      · cases hok
        exact hrepeat
      · cases r with
        | some a =>
          cases hok
          exact hrepeat
        | none =>
          cases hok
          refine .pass h rfl ⟨hp.head, by simp [Pc.hit], by simp, hp.unlocked, ?_, hp.turns, by simp⟩
          rintro _ ⟨⟩
          exact not_not.mp hcount
  | claim b =>
    have hb : b ∈ s.headers := hp.head b rfl
    rcases hq.claim hb c.dev c.block with ⟨s₁, hclaim, -, -⟩
    simp only [Fs.step, hclaim, bind, Except.bind, pure, Except.pure] at hok
    cases hok
    exact h.take hb (hp.free b rfl) (hp.unlocked b rfl) hp.turns hclaim
  | ret r =>
    cases hok
    exact .pass h rfl hp

/-! ## The system of tasks -/

section System

variable {T : Type} {u u' : RefSys T}

/-- The invariant of the runs: the tasks that do not have the processor are inside
`sleep_on`. -/
structure RefInv (u : RefSys T) : Prop where
  counted : Counted u.cache u.refs
  pcs : ∀ t c p, u.pc t = some (c, p) → RefOk u.cache u.refs (u.turns t) c p
  parked : ∀ t, t ≠ u.running → u.Parked t

theorem RefInv.start {cache : Cache} (h : Initial cache) (t : T) :
    RefInv (RefSys.start cache t) := by
  refine ⟨⟨⟨_, _, h.rep.queued⟩, fun b hb => ?_⟩, by simp [RefSys.start, BufSys.start], ?_⟩
  · rw [show ((RefSys.start cache t).cache.head b).bCount = 0 from (h.idle b hb).2.1]
    rfl
  · intro t' _ c p hpc
    simp [RefSys.start, BufSys.start] at hpc

/-- Every task relies on the same after the driver has set `b_lock`, provided the task that
has the processor has not just seen it clear. -/
theorem RefInv.setLock (h : RefInv u) (b : Nat) (lock : BitVec 8)
    (hlock : lock = 0 ∨ u.Parked u.running) :
    RefInv { u with cache := u.cache.modify b ({ · with bLock := lock }) } := by
  rcases h.counted with ⟨⟨ring, chains, hq⟩, hcounts⟩
  have hkeys := fun a => (Unkeyed.lock lock).keys (s := u.cache) b a
  have hcount : ∀ a, ((u.cache.modify b ({ · with bLock := lock })).head a).bCount =
      (u.cache.head a).bCount := by
    intro a
    rw [Cache.modify_head]
    split <;> rfl
  have hkept : Kept u.cache u.refs (u.cache.modify b ({ · with bLock := lock })) u.refs :=
    ⟨rfl, fun a _ => hkeys a, fun a ha => ha⟩
  refine ⟨⟨⟨ring, chains, hq.modify (Unkeyed.lock lock) b⟩, fun a ha => ?_⟩, fun t c p htc => ?_,
    h.parked⟩
  · exact (congrArg BitVec.toNat (hcount a)).trans (hcounts a ha)
  · have hp := h.pcs t c p htc
    rcases hlock with rfl | hpark
    · refine ⟨hp.head, fun a ha => ?_, fun a ha => ?_, fun a ha => ?_, fun a ha => ?_, hp.turns,
        hp.fresh⟩
      · rw [BufferHead.hasKey, (hkeys a).1, (hkeys a).2]
        exact hp.hit a ha
      · rcases hp.ret a ha with ⟨⟨hm, hd, hk⟩, href⟩
        exact ⟨⟨hm, (hkeys a).1.trans hd, (hkeys a).2.trans hk⟩, href⟩
      · have hold := hp.unlocked a ha
        rw [Cache.modify_head]
        split
        · rfl
        · exact hold
      · exact (hcount a).trans (hp.free a ha)
    · have hsleeps : p.sleeps = true := by
        by_cases htr : t = u.running
        · subst htr
          exact hpark c p htc
        · exact h.parked t htr c p htc
      exact hp.of_sleeps hsleeps hkept

variable [DecidableEq T]

/-- Moving the running task on. -/
theorem RefInv.setPc (h : RefInv u) {cache' : Cache} {refs' : List Nat} {n : Nat}
    {q : Option (Call × Pc)} (hcounted : Counted cache' refs')
    (hkept : Kept u.cache u.refs cache' refs')
    (hq : ∀ c p, q = some (c, p) → RefOk cache' refs' n c p) :
    RefInv { u with
      cache := cache'
      pc := Function.update u.pc u.running q
      refs := refs'
      turns := Function.update u.turns u.running n } := by
  refine ⟨hcounted, fun t c p ht => ?_, fun t ht c p htc => ?_⟩
  · by_cases htr : t = u.running
    · subst htr
      have hqc : q = some (c, p) := by simpa using ht
      simpa using hq c p hqc
    · have htc : u.pc t = some (c, p) := by simpa [htr] using ht
      have hold := (h.pcs t c p htc).of_sleeps (h.parked t htr c p htc) hkept
      simpa [htr] using hold
  · exact h.parked t ht c p (by simpa [show t ≠ u.running from ht] using htc)

theorem RefInv.step (h : RefInv u) (hstep : RefStep u u') (hfew : u'.Few) : RefInv u' := by
  cases hstep with
  | call c hout =>
    refine h.setPc h.counted Kept.refl fun c' p hq => ?_
    cases hq
    exact .of_bh_none rfl (Nat.zero_le _) fun _ => rfl
  | @exec c p p' cache' hpc hok =>
    have hp := h.pcs _ c p hpc
    have hst := h.counted.step hp hok hfew
    refine h.setPc hst.counted hst.kept fun c' q hq => ?_
    cases hq
    exact hst.ok
  | leave hpc =>
    have hold := h.setPc (n := u.turns u.running) (q := none) h.counted Kept.refl (by simp)
    simpa using hold
  | switch t hpark =>
    refine ⟨h.counted, h.pcs, fun t' _ => ?_⟩
    by_cases htr : t' = u.running
    · rw [htr]
      exact hpark
    · exact h.parked t' htr
  | lock b lock hb hpark => exact h.setLock b lock (Or.inr hpark)
  | unlock b hb => exact h.setLock b 0 (Or.inl rfl)

/-- From the state `buffer_init` leaves, with fewer than 256 references to each head: whoever
waits for a buffer in `get_hash_table` finds its key there, so that the re-check hands the head
out and the loop does not turn again. A head that a call returns has the key of the call, as
far as 16 bits of `b_dev` hold it, is not locked and is counted. -/
theorem waited_buffer_keeps_key {fuel start bufferEnd : Nat} {heads : Nat → BufferHead}
    {cache : Cache} (hinit : bufferInit fuel start bufferEnd heads = some cache)
    (hn : 1 ≤ cache.nrBuffers) (t₀ : T)
    (hrun : RunWhile RefStep RefSys.Few (RefSys.start cache t₀) u) :
    (∀ t c b, u.pc t = some (c, .testHit b) ∨ u.pc t = some (c, .sleepHit b) →
      (u.cache.head b).hasKey c.dev c.block = true) ∧
    (∀ t c b, u.pc t = some (c, .testHit b) → Fs.step c u.cache (.testHit b) =
      .ok (u.cache, if (u.cache.head b).bLock = 0 then .ret (some b) else .sleepHit b)) ∧
    (∀ t c p, u.pc t = some (c, p) → u.turns t ≤ 1) ∧
    ∀ t c b, u.pc t = some (c, .ret (some b)) → u.cache.Holds b c.dev c.block ∧
      (c.dev.toNat ≤ 0xffff → (u.cache.head b).hasKey c.dev c.block = true) ∧
      (u.cache.head b).bLock = 0 ∧ 1 ≤ (u.cache.head b).bCount.toNat := by
  have hinv := (RunWhile.invariant (Q := RefInv) hrun (fun _ _ _ h hs hfew => h.step hs hfew)
    (by simp [RefSys.Few, RefSys.start]) (RefInv.start (bufferInit_initial hinit hn) t₀)).2
  refine ⟨fun t c b ht => ?_, fun t c b ht => (hinv.pcs t c _ ht).step_testHit,
    fun t c p ht => (hinv.pcs t c p ht).turns, fun t c b ht => ?_⟩
  · rcases ht with ht | ht
    · exact ((hinv.pcs t c _ ht).hit b rfl).1
    · exact ((hinv.pcs t c _ ht).hit b rfl).1
  · have hp := hinv.pcs t c _ ht
    rcases hp.ret b rfl with ⟨hholds, href⟩
    refine ⟨hholds, fun hdev => ?_, hp.unlocked b rfl, ?_⟩
    · refine BufferHead.hasKey_iff.mpr ⟨?_, hholds.2.2⟩
      rw [hholds.2.1]
      bv_omega
    · rw [hinv.counted.counts b hholds.1]
      exact List.count_pos_iff.mpr href

omit [DecidableEq T] in
theorem few_of_refs_length (h : u.refs.length < 256) : u.Few := fun _ _ =>
  Nat.lt_of_le_of_lt List.count_le_length h

section Schedules

variable {u₀ : RefSys T} {cache' : Cache}

/-- A run goes on with a piece of the running call. -/
theorem refRun_exec (h : RunWhile RefStep RefSys.Few u₀ u) (hpc : u.pc u.running = some (c, p))
    (hok : Fs.step c u.cache p = .ok (cache', p'))
    (hlen : (refsAfter u.refs p p').length < 256) :
    RunWhile RefStep RefSys.Few u₀ { u with
      cache := cache'
      pc := Function.update u.pc u.running (some (c, p'))
      refs := refsAfter u.refs p p'
      turns := Function.update u.turns u.running (turnsAfter (u.turns u.running) p p') } :=
  ReflTransGen.tail h ⟨RefStep.exec hpc hok, few_of_refs_length hlen⟩

/-- A run goes on with a step that takes no reference. -/
theorem refRun_step (h : RunWhile RefStep RefSys.Few u₀ u) (hstep : RefStep u u')
    (hlen : u'.refs.length < 256) : RunWhile RefStep RefSys.Few u₀ u' :=
  ReflTransGen.tail h ⟨hstep, few_of_refs_length hlen⟩

end Schedules

/-- One task calls `getblk(0x300, 0)`, which takes the head at 2000, and returns. -/
theorem refRun_taken : ∃ u : RefSys Bool,
    RunWhile RefStep RefSys.Few (RefSys.start (smallCache 4148) false) u ∧ u.refs = [2000] ∧
      (∀ t, u.pc t = none) ∧ RepInv u.cache ∧ u.cache.Holds 2000 0x300 0 := by
  have hmem : 2000 ∈ (smallCache 4148).headers := by decide
  have hnone : ∀ a ∈ (smallCache 4148).headers, ((smallCache 4148).head a).bDev = 0 := fun a ha =>
    (smallCache_initial.idle a ha).1
  rcases smallCache_initial.rep.claim hmem 0x300 0 (fun _ a ha _ hk => by
    rw [hnone a ha] at hk
    exact absurd hk.1 (by decide)) with ⟨s₁, hok, hcl, hrep⟩
  have hclaim : Fs.step ⟨.getblk, 0x300, 0⟩ (smallCache 4148) (.claim 2000) =
      .ok (s₁, .ret (some 2000)) := by
    simp only [Fs.step, hok, bind, Except.bind, pure, Except.pure]
  have h0 : RunWhile RefStep RefSys.Few (RefSys.start (T := Bool) (smallCache 4148) false) _ :=
    ReflTransGen.refl
  have h1 := refRun_step h0 (RefStep.call ⟨.getblk, 0x300, 0⟩ rfl) (show 0 < 256 by decide)
  have h2 := refRun_exec h1 rfl (show Fs.step ⟨.getblk, 0x300, 0⟩ (smallCache 4148) .lookup =
    .ok (smallCache 4148, .scan) from rfl) (show 0 < 256 by decide)
  have h3 := refRun_exec h2 rfl (show Fs.step ⟨.getblk, 0x300, 0⟩ (smallCache 4148) .scan =
    .ok (smallCache 4148, .testVictim 2000) from rfl) (show 0 < 256 by decide)
  have h4 := refRun_exec h3 rfl (show Fs.step ⟨.getblk, 0x300, 0⟩ (smallCache 4148)
    (.testVictim 2000) = .ok (smallCache 4148, .recheck 2000) from rfl) (show 0 < 256 by decide)
  have h5 := refRun_exec h4 rfl (show Fs.step ⟨.getblk, 0x300, 0⟩ (smallCache 4148)
    (.recheck 2000) = .ok (smallCache 4148, .claim 2000) from rfl) (show 0 < 256 by decide)
  have h6 := refRun_exec h5 rfl hclaim (show 1 < 256 by decide)
  have h7 := refRun_step h6 (RefStep.leave rfl) (show 1 < 256 by decide)
  have hmem₁ : 2000 ∈ s₁.headers := by
    rw [hcl.headers]
    exact hmem
  refine ⟨_, h7, rfl, fun t => by cases t <;> rfl, ⟨_, _, hrep⟩, hmem₁, ?_, ?_⟩
  · rw [(hcl.key 2000).1, if_pos rfl]
  · rw [(hcl.key 2000).2, if_pos rfl]

/-- The driver locks the head at 2000; a second task finds it locked, sleeps and is woken. -/
theorem waited_buffer_keeps_key_two_tasks : ∃ u : RefSys Bool,
    RunWhile RefStep RefSys.Few (RefSys.start (smallCache 4148) false) u ∧
      u.pc true = some (⟨.getHashTable, 0x300, 0⟩, .testHit 2000) ∧
      (u.cache.head 2000).hasKey 0x300 0 = true := by
  rcases refRun_taken with ⟨u, hrun, hrefs, hidle, ⟨ring, chains, hrep⟩, hmem, hd, hk⟩
  have hpark : ∀ t, u.Parked t := fun t c p hpc => by
    rw [hidle t] at hpc
    cases hpc
  have h8 := refRun_step hrun (RefStep.lock 2000 1 hmem (hpark _)) (by simp [hrefs])
  have h9 := refRun_step h8 (RefStep.switch true (hpark _)) (by simp [hrefs])
  have h10 := refRun_step h9 (RefStep.call ⟨.getHashTable, 0x300, 0⟩ (hidle true)) (by simp [hrefs])
  have hrep' := hrep.setLock 2000 1
  have hfind : (u.cache.modify 2000 ({ · with bLock := 1 })).find 0x300 0 = some 2000 := by
    refine (hrep'.find_iff_holds (by decide)).mpr ⟨hmem, ?_, ?_⟩
    · rw [((Unkeyed.lock 1).keys 2000 2000).1, hd]
    · rw [((Unkeyed.lock 1).keys 2000 2000).2, hk]
  have hlocked : ∀ n : BitVec 8, Fs.step ⟨.getHashTable, 0x300, 0⟩
      ((u.cache.modify 2000 ({ · with bLock := 1 })).setCount 2000 n) (.testHit 2000) =
      .ok ((u.cache.modify 2000 ({ · with bLock := 1 })).setCount 2000 n, .sleepHit 2000) := by
    intro n
    simp only [Fs.step, setCount_head, if_true, Cache.modify_head]
    rfl
  have h11 := refRun_exec h10 rfl (step_lookup_hit hrep' .getHashTable hfind)
    (by simp [refsAfter, hrefs])
  have h12 := refRun_exec h11 rfl (hlocked _) (by simp [refsAfter, hrefs])
  have h13 := refRun_step h12 (RefStep.unlock 2000 hmem) (by simp [refsAfter, hrefs])
  have h14 := refRun_exec h13 rfl (show Fs.step _ _ (.sleepHit 2000) = .ok (_, .testHit 2000) from
    rfl) (by simp [refsAfter, hrefs])
  refine ⟨_, h14, rfl, ?_⟩
  exact (waited_buffer_keeps_key (show bufferInit 3 2000 4148 (fun _ => zeroHead) = _ from rfl)
    (by decide) false h14).1 true _ 2000 (Or.inl rfl)

end System

end MockOs.Fs
