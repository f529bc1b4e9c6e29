import MockOs.Fs.Proofs.Init
import MockOs.Fs.Tasks
import MockOs.Misc.Run

/-!
# The representation invariant over all runs of `getblk`

Each piece of straight-line code of `getblk` keeps the representation invariant. The one
that needs more than that is the last: it takes a head for a key that must not be cached
yet, which the test just before it has found out with nothing in between.
-/

namespace MockOs.Fs

open Relation

variable {s s' : Cache} {ring : List Nat} {chains : Fin nrHash → List Nat}

/-- A write to a head that touches neither its key nor its links. -/
structure Unkeyed (f : BufferHead → BufferHead) : Prop where
  key : ∀ x, (f x).bDev = x.bDev ∧ (f x).bBlocknr = x.bBlocknr
  link : ∀ x, (f x).bNext = x.bNext ∧ (f x).bPrev = x.bPrev ∧
    (f x).bNextFree = x.bNextFree ∧ (f x).bPrevFree = x.bPrevFree

theorem Unkeyed.count (n : BitVec 8) : Unkeyed ({ · with bCount := n }) :=
  ⟨fun _ => ⟨rfl, rfl⟩, fun _ => ⟨rfl, rfl, rfl, rfl⟩⟩

theorem Unkeyed.lock (n : BitVec 8) : Unkeyed ({ · with bLock := n }) :=
  ⟨fun _ => ⟨rfl, rfl⟩, fun _ => ⟨rfl, rfl, rfl, rfl⟩⟩

section Unkeyed

variable {f : BufferHead → BufferHead} (hf : Unkeyed f) (b a : Nat)
include hf

theorem Unkeyed.keys : ((s.modify b f).head a).bDev = (s.head a).bDev ∧
    ((s.modify b f).head a).bBlocknr = (s.head a).bBlocknr := by
  rw [Cache.modify_head]
  split
  · exact hf.key _
  · exact ⟨rfl, rfl⟩

theorem Unkeyed.links : (s.modify b f).next a = s.next a ∧ (s.modify b f).prev a = s.prev a ∧
    (s.modify b f).nextFree a = s.nextFree a ∧ (s.modify b f).prevFree a = s.prevFree a := by
  simp only [Cache.next, Cache.prev, Cache.nextFree, Cache.prevFree, Cache.modify_head]
  split
  · exact hf.link _
  · exact ⟨rfl, rfl, rfl, rfl⟩

omit a

theorem Rep.modify (h : Rep s ring chains) : Rep (s.modify b f) ring chains :=
  h.congr rfl rfl rfl rfl (hf.keys b) (hf.links b)

theorem Queued.modify (h : Queued s ring chains) : Queued (s.modify b f) ring chains :=
  h.congr rfl rfl rfl rfl (hf.keys b) (hf.links b)

end Unkeyed

theorem Rep.setCount (h : Rep s ring chains) (b : Nat) (n : BitVec 8) :
    Rep (s.setCount b n) ring chains :=
  h.modify (Unkeyed.count n) b

theorem Rep.setLock (h : Rep s ring chains) (b : Nat) (n : BitVec 8) :
    Rep (s.modify b ({ · with bLock := n })) ring chains :=
  h.modify (Unkeyed.lock n) b

/-- Lookups depend on the keys only. -/
theorem find_congr (hh : s'.headers = s.headers)
    (hkey : ∀ a, (s'.head a).bDev = (s.head a).bDev ∧ (s'.head a).bBlocknr = (s.head a).bBlocknr)
    (dev block : BitVec 32) : s'.find dev block = s.find dev block := by
  simp only [Cache.find, hh, BufferHead.hasKey, hkey]

/-- The head a task holds a pointer to. -/
def Pc.bh : Pc → Option Nat
  | .testHit b | .sleepHit b | .testVictim b | .sleepVictim b | .recheck b | .claim b => some b
  | .ret r => r
  | .lookup | .scan | .sleepFree => none

/-- What the code at `p` relies on: its pointer is a head, and the key of a task about to
take a head is not cached. -/
structure PcOk (c : Call) (s : Cache) (p : Pc) : Prop where
  head : ∀ b, p.bh = some b → b ∈ s.headers
  fresh : ∀ b, p = .claim b → s.find c.dev c.block = none

/-- A key that is not found is not the key of any head. -/
theorem not_key_of_find_none {dev block : BitVec 32} (hdev : dev.toNat ≤ 0xffff)
    (hf : s.find dev block = none) (h0 : dev.setWidth 16 ≠ 0) (a : Nat) (ha : a ∈ s.headers) :
    ¬ ((s.head a).bDev = dev.setWidth 16 ∧ (s.head a).bBlocknr = block) := by
  rintro ⟨hd, hb⟩
  have hkey : (s.head a).hasKey dev block = true := by
    refine BufferHead.hasKey_iff.mpr ⟨?_, hb⟩
    rw [hd]
    bv_omega
  have hno := find_eq_none.mp hf a ha (by rwa [hd])
  rw [hkey] at hno
  cases hno

/-! ## A call that is not interrupted -/

theorem runCall_stops {c : Call} {p : Pc} (hp : p.stops = true) (fuel : Nat) :
    runCall c (fuel + 1) s p = .ok (s, p) := by
  rw [runCall, if_pos hp]
  rfl

theorem runCall_step {c : Call} {p p₁ : Pc} {s₁ : Cache} (hp : p.stops = false)
    (hstep : step c s p = .ok (s₁, p₁)) (fuel : Nat) :
    runCall c (fuel + 1) s p = runCall c fuel s₁ p₁ := by
  rw [runCall, hp, hstep]
  rfl

/-- A call that comes to its end goes through its next piece on the way. -/
theorem runCall_inv {c : Call} {p p₁ : Pc} {s₁ : Cache} {r : Cache × Pc} {fuel : Nat}
    (hp : p.stops = false) (hstep : step c s p = .ok (s₁, p₁)) (h : runCall c fuel s p = .ok r) :
    ∃ n < fuel, runCall c n s₁ p₁ = .ok r := by
  cases fuel with
  | zero => cases h
  | succ n =>
    rw [runCall_step hp hstep] at h
    exact ⟨n, n.lt_succ_self, h⟩

theorem runCall_end {c : Call} {p : Pc} {r : Cache × Pc} {fuel : Nat} (hp : p.stops = true)
    (h : runCall c fuel s p = .ok r) : r = (s, p) := by
  cases fuel with
  | zero => cases h
  | succ n => exact (Except.ok.inj ((runCall_stops hp n).symm.trans h)).symm

/-- One piece of `getblk`/`get_hash_table` ends, keeps the representation and hands on what
the next one relies on. -/
theorem step_spec {c : Call} {p : Pc} (hdev : c.dev.toNat ≤ 0xffff) (h : Rep s ring chains)
    (hp : PcOk c s p) : ∃ s' p', step c s p = .ok (s', p') ∧ RepInv s' ∧
      s'.headers = s.headers ∧ PcOk c s' p' := by
  have hrep : RepInv s := ⟨ring, chains, h⟩
  cases p with
  | lookup =>
    simp only [step, h.findBuffer_eq, bind, Except.bind, pure, Except.pure]
    cases hf : s.find c.dev c.block with
    | some b =>
      refine ⟨_, _, rfl, ⟨ring, chains, h.setCount b _⟩, rfl, ?_, by simp⟩
      rintro _ ⟨⟩
      exact (h.find_eq_some.mp hf).1
    | none =>
      cases c.fn with
      | getblk => exact ⟨_, _, rfl, hrep, rfl, by simp [Pc.bh], by simp⟩
      | getHashTable => exact ⟨_, _, rfl, hrep, rfl, by simp [Pc.bh], by simp⟩
  | testHit b =>
    have hb : b ∈ s.headers := hp.head b rfl
    simp only [step]
    split_ifs
    · exact ⟨_, _, rfl, hrep, rfl, by simpa [Pc.bh] using hb, by simp⟩
    · exact ⟨_, _, rfl, hrep, rfl, by simpa [Pc.bh] using hb, by simp⟩
    · exact ⟨_, _, rfl, ⟨ring, chains, h.setCount b _⟩, rfl, by simp [Pc.bh], by simp⟩
  | sleepHit b => exact ⟨_, _, rfl, hrep, rfl, fun a ha => hp.head a ha, by simp⟩
  | scan =>
    rcases h.queued.scanFree_eq with ⟨tmp, htmp, hscan⟩
    simp only [step, htmp, hscan, bind, Except.bind, pure, Except.pure]
    cases hr : scanRing s ring none with
    | none => exact ⟨_, _, rfl, hrep, rfl, by simp [Pc.bh], by simp⟩
    | some b =>
      have hb : b ∈ ring := ((scanRing_spec hr).resolve_left (by simp)).1
      refine ⟨_, _, rfl, hrep, rfl, ?_, by simp⟩
      rintro _ ⟨⟩
      exact h.perm.mem_iff.mp hb
  | sleepFree => exact ⟨_, _, rfl, hrep, rfl, by simp [Pc.bh], by simp⟩
  | testVictim b =>
    have hb : b ∈ s.headers := hp.head b rfl
    simp only [step]
    split_ifs
    · exact ⟨_, _, rfl, hrep, rfl, by simpa [Pc.bh] using hb, by simp⟩
    · exact ⟨_, _, rfl, hrep, rfl, by simpa [Pc.bh] using hb, by simp⟩
  | sleepVictim b => exact ⟨_, _, rfl, hrep, rfl, fun a ha => hp.head a ha, by simp⟩
  | recheck b =>
    simp only [step, h.findBuffer_eq, bind, Except.bind, pure, Except.pure]
    split_ifs
    · exact ⟨_, _, rfl, hrep, rfl, by simp [Pc.bh], by simp⟩
    · exact ⟨_, _, rfl, hrep, rfl, by simp [Pc.bh], by simp⟩
    · cases hf : s.find c.dev c.block with
      | some a => exact ⟨_, _, rfl, hrep, rfl, by simp [Pc.bh], by simp⟩
      | none => exact ⟨_, _, rfl, hrep, rfl, fun a ha => hp.head a ha, fun _ _ => hf⟩
  | claim b =>
    have hb : b ∈ s.headers := hp.head b rfl
    rcases h.claim hb c.dev c.block (fun h0 a ha _ =>
      not_key_of_find_none hdev (hp.fresh b rfl) h0 a ha) with ⟨s', hok, hcl, hrep'⟩
    simp only [step, hok, bind, Except.bind, pure, Except.pure]
    refine ⟨_, _, rfl, ⟨_, _, hrep'⟩, hcl.headers, ?_, by simp⟩
    rintro _ ⟨⟩
    rwa [hcl.headers]
  | ret r => exact ⟨_, _, rfl, hrep, rfl, hp.head, by simp⟩

/-! ## The system of tasks -/

section System

variable {T : Type} {u u' : BufSys T}

/-- The invariant of the runs: the tasks that do not have the processor are inside
`sleep_on`, so what they rely on is no more than a pointer to some head. -/
structure BufInv (u : BufSys T) : Prop where
  rep : RepInv u.cache
  dev : ∀ t c p, u.pc t = some (c, p) → c.dev.toNat ≤ 0xffff
  pcs : ∀ t c p, u.pc t = some (c, p) → PcOk c u.cache p
  parked : ∀ t, t ≠ u.running → u.Parked t

/-- A task inside `sleep_on` relies on the heads being where they are. -/
theorem PcOk.of_sleeps {c : Call} {p : Pc} (h : PcOk c s p) (hs : p.sleeps = true)
    (hh : s'.headers = s.headers) : PcOk c s' p := by
  refine ⟨fun b hb => hh ▸ h.head b hb, ?_⟩
  rintro b rfl
  cases hs

variable [DecidableEq T]

/-- Moving the running task on. -/
theorem BufInv.setPc (h : BufInv u) {cache' : Cache} {q : Option (Call × Pc)}
    (hrep : RepInv cache') (hh : cache'.headers = u.cache.headers)
    (hq : ∀ c p, q = some (c, p) → c.dev.toNat ≤ 0xffff ∧ PcOk c cache' p) :
    BufInv { u with cache := cache', pc := Function.update u.pc u.running q } := by
  have hpc : ∀ t c p, Function.update u.pc u.running q t = some (c, p) →
      (t = u.running ∧ q = some (c, p)) ∨ (t ≠ u.running ∧ u.pc t = some (c, p)) := by
    intro t c p ht
    by_cases htr : t = u.running
    · exact Or.inl ⟨htr, by simpa [htr] using ht⟩
    · exact Or.inr ⟨htr, by simpa [htr] using ht⟩
  refine ⟨hrep, fun t c p ht => ?_, fun t c p ht => ?_, fun t ht c p htc => ?_⟩
  · rcases hpc t c p ht with ⟨-, hqc⟩ | ⟨-, htc⟩
    · exact (hq c p hqc).1
    · exact h.dev t c p htc
  · rcases hpc t c p ht with ⟨-, hqc⟩ | ⟨htr, htc⟩
    · exact (hq c p hqc).2
    · exact (h.pcs t c p htc).of_sleeps (h.parked t htr c p htc) hh
  · rcases hpc t c p htc with ⟨htr, -⟩ | ⟨-, htc'⟩
    · exact absurd htr ht
    · exact h.parked t ht c p htc'

theorem BufInv.step (h : BufInv u) (hstep : BufStep u u') : BufInv u' := by
  cases hstep with
  | call c hdev hout =>
    refine h.setPc h.rep rfl fun c' p hq => ?_
    cases hq
    exact ⟨hdev, by simp [Pc.bh], by simp⟩
  | @exec c p p' cache' hpc hok =>
    rcases h.rep with ⟨ring, chains, hrep⟩
    rcases step_spec (h.dev _ c p hpc) hrep (h.pcs _ c p hpc) with ⟨s', q, hok', hrep', hh, hq⟩
    rw [hok] at hok'
    cases hok'
    refine h.setPc hrep' hh fun c' p hq' => ?_
    cases hq'
    exact ⟨h.dev _ _ _ hpc, hq⟩
  | leave hpc => exact h.setPc h.rep rfl fun c p hq => by cases hq
  | switch t hpark =>
    refine ⟨h.rep, h.dev, h.pcs, fun t' _ => ?_⟩
    by_cases htr : t' = u.running
    · rw [htr]
      exact hpark
    · exact h.parked t' htr
  | driver b lock hb =>
    rcases h.rep with ⟨ring, chains, hrep⟩
    refine ⟨⟨ring, chains, hrep.setLock b lock⟩, h.dev, fun t c p ht => ?_, h.parked⟩
    have hp := h.pcs t c p ht
    refine ⟨hp.head, fun a ha => ?_⟩
    have hfind : (u.cache.modify b ({ · with bLock := lock })).find c.dev c.block =
        u.cache.find c.dev c.block := by
      refine find_congr ?_ ((Unkeyed.lock lock).keys b) c.dev c.block
      rfl
    exact hfind.trans (hp.fresh a ha)

omit [DecidableEq T] in
theorem BufInv.start {cache : Cache} (h : Initial cache) (t : T) :
    BufInv (BufSys.start cache t) :=
  ⟨⟨_, _, h.rep⟩, by simp [BufSys.start], by simp [BufSys.start],
    fun t _ c p hpc => by simp [BufSys.start] at hpc⟩

/-- From the state `buffer_init` leaves, whatever the tasks call and whenever the driver
locks and unlocks buffers, every reachable state satisfies the representation invariant and
no task ever runs into the panic of `remove_from_queues`, a NULL pointer or a loop that
does not end. -/
theorem getblk_runs_keep_rep {fuel start bufferEnd : Nat} {heads : Nat → BufferHead}
    {cache : Cache} (hinit : bufferInit fuel start bufferEnd heads = some cache)
    (hn : 1 ≤ cache.nrBuffers) (t₀ : T)
    (hrun : ReflTransGen BufStep (BufSys.start cache t₀) u) :
    (∃ ring chains, Rep u.cache ring chains) ∧
      ∀ t c p, u.pc t = some (c, p) → ∃ s' p', Fs.step c u.cache p = .ok (s', p') := by
  have hinv : BufInv u := Run.invariant (fun _ _ h hs => h.step hs) hrun
    (BufInv.start (bufferInit_initial hinit hn) t₀)
  refine ⟨hinv.rep, fun t c p hpc => ?_⟩
  rcases hinv.rep with ⟨ring, chains, hrep⟩
  rcases step_spec (hinv.dev t c p hpc) hrep (hinv.pcs t c p hpc) with ⟨s', p', hok, -⟩
  exact ⟨s', p', hok⟩

/-- Two heads, and one task that has called `getblk(0x300, 0)` and found out that the block is
not cached. -/
theorem getblk_runs_keep_rep_kdebug :
    bufferInit 3 2000 4148 (fun _ => zeroHead) = some (smallCache 4148) ∧
      1 ≤ (smallCache 4148).nrBuffers ∧ (∃ ring chains, Rep (smallCache 4148) ring chains) ∧
      ∃ s' p', Fs.step ⟨.getblk, 0x300, 0⟩ (smallCache 4148) .scan = .ok (s', p') := by
  have hcall := BufStep.call (s := BufSys.start (smallCache 4148) ()) ⟨.getblk, 0x300, 0⟩
    (by decide) rfl
  have hlookup : Fs.step ⟨.getblk, 0x300, 0⟩ (smallCache 4148) .lookup =
      .ok (smallCache 4148, .scan) := rfl
  have hexec := BufStep.exec (s := ⟨smallCache 4148,
    Function.update (fun _ => none) () (some (⟨.getblk, 0x300, 0⟩, .lookup)), ()⟩)
    (by simp) hlookup
  have h := getblk_runs_keep_rep (show bufferInit 3 2000 4148 (fun _ => zeroHead) = _ from rfl)
    (by decide) () ((ReflTransGen.single hcall).tail hexec)
  exact ⟨rfl, by decide, h.1, h.2 () _ _ (by simp)⟩

end System

end MockOs.Fs
