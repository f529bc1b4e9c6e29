import MockOs.Kernel.Proofs.SysFork

/-!
# The tasks have memory of their own

`Simulates` relates the paged system to `Procs`, where each task has a private array. Every
action keeps it, so what a task loads at the end of a run is what it would load there.
-/

namespace MockOs.Kernel

open Mm

/-! ## The simulation -/

/-- The tasks of `s` are those of `ps`, and their pages hold the bytes of their arrays. -/
structure Simulates (b : Boot) (s : ForkSys) (ps : Procs) (loc tab : Fin 64 → Option Nat) (a : Spaces)
    (arr : Fin 64 → Nat → Nat → BitVec 32) : Prop where
  rep : ForkRep b.Modelled b.init s loc tab a
  agrees : Cow.Agrees a arr
  slots : ∀ t : Fin 64, ps.mem t = none ↔ loc t = none
  bytes : ∀ (t : Fin 64) m off, ps.mem t = some m → off < 655360 → b.Modelled (off / 4) →
    m off = byteOf (arr t (off / 4096) (off / 4 % 1024)) (off % 4)

/-- The two systems are related. -/
def Simulated (b : Boot) (s : ForkSys) (ps : Procs) : Prop := ∃ loc tab a arr, Simulates b s ps loc tab a arr

theorem Boot.start_simulated (b : Boot) : Simulated b b.start b.procs := by
  refine ⟨b.loc, fun _ => none, bootSpaces b.start.mm, fun _ p i => b.start.mm.word (1024 * p + i),
    b.start_forkRep, bootSpaces_agrees b.start.mm, fun t => ?_, ?_⟩
  · by_cases ht : t = 0
    · subst ht
      simp [Boot.procs, Boot.loc]
    · have hpos : (t : Nat) ≠ 0 := fun hz => ht (Fin.ext hz)
      simp [Boot.procs, Boot.loc, ht, hpos]
  · intro t m off hm hoff _
    simp only [Boot.procs] at hm
    split at hm
    · rw [← Option.some.inj hm, show 1024 * (off / 4096) + off / 4 % 1024 = off / 4 by omega]
    · cases hm

namespace Simulates

variable {b : Boot} {s s' : ForkSys} {ps : Procs} {loc tab : Fin 64 → Option Nat} {a : Spaces}
  {arr : Fin 64 → Nat → Nat → BitVec 32} {t c : Fin 64} {x : Nat} {off : BitVec 32}

/-- A load gives the byte of the array. -/
theorem load {m : Nat → BitVec 8} (h : Simulates b s ps loc tab a arr) (hm : ps.mem t = some m)
    (hoff : off.toNat < 655360) (hvis : b.Modelled (off.toNat / 4)) :
    s.userLoad t off = some (m off.toNat) := by
  have hne : loc t ≠ none := fun hno => by
    rw [(h.slots t).mpr hno] at hm
    cases hm
  rcases Option.ne_none_iff_exists'.mp hne with ⟨x, ht⟩
  rcases h.rep.page_eq ht hoff with ⟨f, hf⟩
  have hword := h.rep.rep.mem t _ f (off.toNat / 4 % 1024) hf (by omega)
    (by rwa [show 1024 * (off.toNat / 4096) + off.toNat / 4 % 1024 = off.toNat / 4 by omega])
  rw [h.rep.userLoad_eq ht hoff hf, hword, h.agrees t _ f hf, ← h.bytes t m _ hm hoff hvis]

/-- A fork in the slot `c` copies the array of the parent. -/
theorem fork_slot (h : Simulates b s ps loc tab a arr) (hc : c ≠ 0) (hcn : loc c = none)
    (hfirst : ∀ j : Fin 64, j ≠ 0 → j < c → loc j ≠ none) (n : Nat) (t : Fin 64) :
    (ps.fork n).mem t = if t = c then ps.mem n else ps.mem t := by
  have hlt := c.isLt
  have hpos : 0 < (c : Nat) := Fin.pos_iff_ne_zero.mpr hc
  have hfind : (List.range' 1 (nrTasks - 1)).find? (fun i => (ps.mem i).isNone) = some (c : Nat) := by
    refine List.find?_range'_eq_some.mpr ⟨?_, List.mem_range'_1.mpr ⟨hpos, hlt⟩, fun j hj hjc => ?_⟩
    · rw [Option.isNone_iff_eq_none]
      exact (h.slots c).mpr hcn
    · have hj0 : (⟨j, by omega⟩ : Fin 64) ≠ 0 := Fin.pos_iff_ne_zero.mp hj
      have hne := hfirst ⟨j, by omega⟩ hj0 hjc
      have hsome : ps.mem j ≠ none := fun hno => hne ((h.slots ⟨j, by omega⟩).mp hno)
      simpa [Option.isSome_iff_ne_none] using hsome
  simp only [Procs.fork, hfind, Function.update_apply, Fin.ext_iff]

theorem fork_full (h : Simulates b s ps loc tab a arr) (hfull : ¬ s.FreeSlot) (t : Nat) : ps.fork t = ps := by
  have hfind : (List.range' 1 (nrTasks - 1)).find? (fun i => (ps.mem i).isNone) = none := by
    refine List.find?_eq_none.mpr fun i hi hnone => hfull ?_
    rcases List.mem_range'_1.mp hi with ⟨hi1, hi2⟩
    have hlt : i < 64 := hi2
    rw [Option.isNone_iff_eq_none] at hnone
    exact ⟨i, hi1, hlt, (h.rep.slot_eq_zero (t := ⟨i, hlt⟩)).mpr ((h.slots ⟨i, hlt⟩).mp hnone)⟩
  rw [Procs.fork, hfind]

theorem fork {n : Nat} {r : Regs} (h : Simulates b s ps loc tab a arr)
    (hallow : s.Allowed (.fork n r)) : ∃ s', s.exec (.fork n r) = some s' ∧ Simulated b s' (ps.fork n) := by
  rcases hallow with ⟨hlive, h0, h1, hpages⟩
  rcases h.rep.of_live hlive with ⟨t, y, rfl, ht⟩
  by_cases hslot : s.FreeSlot
  · rcases h.rep.sysFork_forked ht hslot (hpages hslot) h0 h1 with
      ⟨c, pid, k, g, l, f, old, s', hc, hcn, hfirst, -, -, -, hk, hg, hl, hf, hcall, -, -, hrep⟩
    refine ⟨s', ?_, _, _, _, _, hrep, h.rep.forkedSpaces_agrees ht hc hcn hk hg hl hf h.agrees, ?_, ?_⟩
    · simp only [ForkSys.exec, hcall]
    · intro t'
      rw [h.fork_slot hc hcn hfirst]
      by_cases htc : t' = c
      · rw [if_pos htc, htc, Function.update_self, h.slots t, ht]
        simp
      · rw [if_neg htc, Function.update_of_ne htc]
        exact h.slots t'
    · intro t' m off hm hoff hvis
      rw [h.fork_slot hc hcn hfirst] at hm
      by_cases htc : t' = c
      · rw [if_pos htc] at hm
        rw [htc, Function.update_self]
        exact h.bytes t m off hm hoff hvis
      · rw [if_neg htc] at hm
        rw [Function.update_of_ne htc]
        exact h.bytes t' m off hm hoff hvis
  · rcases h.rep.sysFork_full r (s.task t) hslot with ⟨pid, hlt, hcall⟩
    refine ⟨_, by simp only [ForkSys.exec, hcall]; rfl, loc, tab, a, arr, h.rep.switch _ hlt, h.agrees, ?_, ?_⟩
    · rw [h.fork_full hslot]
      exact h.slots
    · rw [h.fork_full hslot]
      exact h.bytes

theorem fault {n : Nat} (h : Simulates b s ps loc tab a arr) (hallow : s.Allowed (.fault n off))
    (hexec : s.exec (.fault n off) = some s') : Simulated b s' ps := by
  rcases hallow with ⟨hlive, hn, hoff, hpages⟩
  rcases h.rep.of_live hlive with ⟨t, x, rfl, ht⟩
  have ht0 : t ≠ 0 := Fin.pos_iff_ne_zero.mp hn
  rcases h.rep.page_eq ht hoff with ⟨f, hf⟩
  have hfault : s.userFault t off = some s' := hexec
  rcases h.rep.userFault_unshared ht ht0 hoff hf hpages with ⟨-, hno⟩ | ⟨-, s1, a', heq, hun, -, hrep⟩
  · rw [hno] at hfault
    cases hfault
  · obtain rfl : s1 = s' := Option.some.inj (heq.symm.trans hfault)
    exact ⟨loc, tab, a', arr, hrep, hun.agrees h.rep.rep hf h.agrees, h.slots, h.bytes⟩

theorem store {n : Nat} {v : BitVec 8} (h : Simulates b s ps loc tab a arr)
    (hallow : s.Allowed (.store n off v)) :
    ∃ s', s.exec (.store n off v) = some s' ∧ Simulated b s' (ps.store n off.toNat v) := by
  rcases hallow with ⟨hlive, hn, hoff, hpages⟩
  rcases h.rep.of_live hlive with ⟨t, x, rfl, ht⟩
  have ht0 : t ≠ 0 := Fin.pos_iff_ne_zero.mp hn
  rcases h.rep.page_eq ht hoff with ⟨f, hf⟩
  rcases h.rep.userStore_eq ht ht0 hoff hf v hpages with
    ⟨s', a', f', w, heq, hor, hwr, hf', hw, hinv, -, hrep, -⟩
  have hagree : Cow.Agrees a' arr := by
    rcases hor with rfl | hun
    · exact h.agrees
    · exact hun.agrees h.rep.rep hf h.agrees
  have hmem : ∀ t' : Fin 64, (ps.store t off.toNat v).mem t' =
      if t' = t then (ps.mem t).map fun m => Function.update m off.toNat v else ps.mem t' := by
    intro t'
    simp only [Procs.store, Function.update_apply, Fin.ext_iff]
  refine ⟨s', heq, loc, tab, _, _, hrep, hagree.write hinv hwr hf' _, fun t' => ?_, fun t' m o hm ho hvis => ?_⟩
  · rw [hmem, ← h.slots t']
    split
    · rename_i htt
      rw [htt, Option.map_eq_none_iff]
    · rfl
  · rw [hmem] at hm
    by_cases htt : t' = t
    · subst htt
      rw [if_pos rfl, Option.map_eq_some_iff] at hm
      rcases hm with ⟨m0, hm0, rfl⟩
      have hold := h.bytes t' m0 o hm0 ho hvis
      by_cases hpage : o / 4096 = off.toNat / 4096
      · rw [hpage, Cow.set2_self]
        rw [hpage, ← hagree t' _ f' hf'] at hold
        by_cases hword : o / 4 % 1024 = off.toNat / 4 % 1024
        · -- the word that was stored to
          have ho4 : o / 4 = off.toNat / 4 := by omega
          rw [hword, Function.update_self, byteOf_setByteOf _ _ (by omega), Function.update_apply]
          by_cases hbyte : o = off.toNat
          · rw [if_pos hbyte, if_pos (by omega)]
          · rw [if_neg hbyte, if_neg (by omega), hold, hw (ho4 ▸ hvis), hword]
        · have hne : o ≠ off.toNat := fun heq => hword (by rw [heq])
          rw [Function.update_of_ne hword, Function.update_of_ne hne]
          exact hold
      · have hne : o ≠ off.toNat := fun heq => hpage (by rw [heq])
        rw [Cow.set2_ne fun hin => hpage hin.2, Function.update_of_ne hne]
        exact hold
    · rw [if_neg htt] at hm
      rw [Cow.set2_ne fun hin => htt hin.1]
      exact h.bytes t' m o hm ho hvis

end Simulates

/-! ## Runs -/

/-- One action, in both systems. -/
theorem Simulated.step {b : Boot} (act : Act) (s s' : ForkSys) (ps : Procs) (h : Simulated b s ps)
    (hstep : ForkStep act s s') : Simulated b s' (ps.exec act) := by
  rcases h with ⟨loc, tab, a, arr, h⟩
  rcases hstep with ⟨hallow, hexec⟩
  cases act with
  | fork n r =>
    rcases h.fork hallow with ⟨s1, heq, hsim⟩
    rwa [← Option.some.inj (heq.symm.trans hexec)]
  | fault n off => exact h.fault hallow hexec
  | store n off v =>
    rcases h.store hallow with ⟨s1, heq, hsim⟩
    rwa [← Option.some.inj (heq.symm.trans hexec)]

/-- Every run from boot is a run of the tasks with memory of their own. -/
theorem Boot.simulated (b : Boot) {acts : List Act} {s : ForkSys} (hrun : Run.Trace ForkStep b.start acts s) :
    Simulated b s (b.procs.run acts) :=
  hrun.simulation Simulated.step b.start_simulated

namespace Simulated

variable {b : Boot} {s : ForkSys} {ps : Procs} {t : Nat}

/-- Both systems have the same tasks. -/
theorem live_iff (h : Simulated b s ps) : s.Live t ↔ t < 64 ∧ ps.mem t ≠ none := by
  rcases h with ⟨loc, tab, a, arr, h⟩
  by_cases hlt : t < 64
  · have hlive := h.rep.live_iff (t := ⟨t, hlt⟩)
    have hslot := h.slots ⟨t, hlt⟩
    exact hlive.trans ((not_congr hslot.symm).trans (iff_and_self.mpr fun _ => hlt))
  · exact ⟨fun hlive => absurd hlive.1 hlt, fun hin => absurd hin.1 hlt⟩

theorem load {m : Nat → BitVec 8} {off : BitVec 32} (h : Simulated b s ps) (ht : t < 64)
    (hm : ps.mem t = some m) (hoff : off.toNat < 655360) (hvis : b.Modelled (off.toNat / 4)) :
    s.userLoad t off = some (m off.toNat) := by
  rcases h with ⟨loc, tab, a, arr, h⟩
  exact h.load (t := ⟨t, ht⟩) hm hoff hvis

/-- A store is seen by the task that makes it, at its place, and nowhere else. -/
theorem store {off : BitVec 32} {v : BitVec 8} (h : Simulated b s ps) (hallow : s.Allowed (.store t off v)) :
    ∃ s', s.exec (.store t off v) = some s' ∧
      (b.Modelled (off.toNat / 4) → s'.userLoad t off = some v) ∧
      ∀ t' off', s.Live t' → off'.toNat < 655360 → b.Modelled (off'.toNat / 4) → ¬ (t' = t ∧ off' = off) →
        s'.userLoad t' off' = s.userLoad t' off' := by
  rcases id h with ⟨loc, tab, a, arr, hsim⟩
  rcases hsim.store hallow with ⟨s', hexec, h'⟩
  rcases hallow with ⟨hlive, -, hoff, -⟩
  rcases h.live_iff.mp hlive with ⟨ht, hsome⟩
  rcases Option.ne_none_iff_exists'.mp hsome with ⟨m, hm⟩
  have hm' : (ps.store t off.toNat v).mem t = some (Function.update m off.toNat v) := by
    simp only [Procs.store, Function.update_self, hm, Option.map_some]
  refine ⟨s', hexec, fun hvis => ?_, fun t' off' hlive' hoff' hvis' hne => ?_⟩
  · rw [h'.load ht hm' hoff hvis, Function.update_self]
  · rcases h.live_iff.mp hlive' with ⟨ht', hsome'⟩
    rcases Option.ne_none_iff_exists'.mp hsome' with ⟨m1, hm1⟩
    rw [h.load ht' hm1 hoff' hvis']
    by_cases htt : t' = t
    · subst htt
      have hoo : off'.toNat ≠ off.toNat := fun heq => hne ⟨rfl, BitVec.eq_of_toNat_eq heq⟩
      rw [h'.load ht' hm' hoff' hvis', Function.update_of_ne hoo, Option.some.inj (hm.symm.trans hm1)]
    · refine h'.load ht' ?_ hoff' hvis'
      simp only [Procs.store, Function.update_of_ne htt]
      exact hm1

end Simulated

/-- In every run of forks, faults and stores, a load gives the byte that the task has in the
system where every task has memory of its own. Stores and forks that find the pages they need
go through, and a store is seen nowhere but in the byte of the task that makes it. -/
theorem forked_tasks_isolated (b : Boot) (acts : List Act) (s : ForkSys)
    (hrun : Run.Trace ForkStep b.start acts s) :
    (∀ t off, s.Live t → off.toNat < 0xa0000 → b.Modelled (off.toNat / 4) →
      ∃ m, (b.procs.run acts).mem t = some m ∧ s.userLoad t off = some (m off.toNat)) ∧
    (∀ t off v, s.Allowed (.store t off v) → ∃ s', s.exec (.store t off v) = some s' ∧
      (b.Modelled (off.toNat / 4) → s'.userLoad t off = some v) ∧
      ∀ t' off', s.Live t' → off'.toNat < 0xa0000 → b.Modelled (off'.toNat / 4) → ¬ (t' = t ∧ off' = off) →
        s'.userLoad t' off' = s.userLoad t' off') ∧
    ∀ t r, s.Allowed (.fork t r) → ∃ s', s.exec (.fork t r) = some s' := by
  have h := b.simulated hrun
  refine ⟨fun t off hlive hoff hvis => ?_, fun t off v hallow => h.store hallow, fun t r hallow => ?_⟩
  · rcases h.live_iff.mp hlive with ⟨ht, hsome⟩
    rcases Option.ne_none_iff_exists'.mp hsome with ⟨m, hm⟩
    exact ⟨m, hm, h.load ht hm hoff hvis⟩
  · rcases h with ⟨loc, tab, a, arr, hsim⟩
    rcases hsim.fork hallow with ⟨s', hexec, -⟩
    exact ⟨s', hexec⟩

/-- The first child stores a byte; task 0 does not see it. -/
theorem forked_tasks_isolated_child_store : ∃ s,
    Run.Trace ForkStep Boot.blank.start [.fork 0 stackTop, .store 1 0x8000 7] s ∧
      s.userLoad 1 0x8000 = some 7 ∧ s.userLoad 0 0x8000 = some 0 := by
  rcases Boot.blank.start_spent.fork (by decide) with ⟨s1, hfork, loc, tab, a, hrep, hspent⟩
  have hrun1 : Run.Trace ForkStep Boot.blank.start [.fork 0 stackTop] s1 := Run.Trace.nil.snoc hfork
  have hlive : ∀ t : Fin 64, (t : Nat) ≤ 1 → s1.Live t := fun t ht =>
    hrep.live_iff.mpr fun hno => Nat.not_lt.mpr ht ((hspent.tasks t).mp hno)
  have hcard := hspent.card
  have hallow : s1.Allowed (.store 1 0x8000 7) :=
    ⟨hlive 1 (by decide), by decide, by decide, Or.inl (Finset.card_pos.mp (by omega))⟩
  have hvis : Boot.blank.Modelled ((0x8000 : BitVec 32).toNat / 4) := by decide
  rcases (forked_tasks_isolated Boot.blank _ s1 hrun1).2.1 1 0x8000 7 hallow with ⟨s2, hexec, hself, hother⟩
  refine ⟨s2, hrun1.snoc ⟨hallow, hexec⟩, hself hvis, ?_⟩
  rcases (forked_tasks_isolated Boot.blank _ s1 hrun1).1 0 0x8000 (hlive 0 (by decide)) (by decide) hvis with
    ⟨m, hm, hload⟩
  rw [hother 0 0x8000 (hlive 0 (by decide)) (by decide) hvis (by decide), hload]
  have hm' : (Boot.blank.procs.run [.fork 0 stackTop]).mem 0 =
      some fun off => byteOf (Boot.blank.start.mm.word (off / 4)) (off % 4) := rfl
  rw [hm'] at hm
  have hbyte : ∀ o, o = 0x8000 → byteOf (Boot.blank.start.mm.word (o / 4)) (o % 4) = 0 := by
    rintro o rfl
    rw [Boot.blank.start_word (by decide)]
    rfl
  rw [← Option.some.inj hm]
  exact congrArg some (hbyte _ rfl)

end MockOs.Kernel
