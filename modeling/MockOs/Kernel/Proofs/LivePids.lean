import MockOs.Kernel.Proofs.AnyStack
import MockOs.Kernel.Proofs.SysFork

/-!
# The process numbers of the tasks

`find_empty_process` passes over the numbers that tasks have, so a new task has a number of
its own, also after `last_pid` has gone round.
-/

namespace MockOs.Kernel

open Mm

/-- No two tasks have the same number, and only that of task 0 is not positive. -/
structure PidsDistinct (s : ForkSys) : Prop where
  inj : ∀ i < nrTasks, ∀ j < nrTasks, s.task i ≠ 0 → s.task j ≠ 0 →
    s.get (s.task i) Off.pid = s.get (s.task j) Off.pid → i = j
  pos : ∀ i, 1 ≤ i → i < nrTasks → s.task i ≠ 0 → 0 < (s.get (s.task i) Off.pid).toInt

/-- The same of the words in the structures. -/
structure Pids (s : ForkSys) (loc : Fin 64 → Option Nat) : Prop where
  inj : ∀ t t' x x', loc t = some x → loc t' = some x' → s.mm.word (x + 139) = s.mm.word (x' + 139) → t = t'
  pos : ∀ t x, t ≠ 0 → loc t = some x → 0 < (s.mm.word (x + 139)).toNat ∧
    (s.mm.word (x + 139)).toNat < 2147483648

theorem Boot.start_pids (b : Boot) : Pids b.start b.loc where
  inj t t' x x' hx hx' _ := by rw [(b.loc_eq hx).1, (b.loc_eq hx').1]
  pos t x ht hx := absurd (b.loc_eq hx).1 ht

namespace Pids

variable {w0 : Nat} {s s' : ForkSys} {loc loc' : Fin 64 → Option Nat}

/-- The words of the numbers decide. -/
theorem congr (h : Pids s loc) (hword : ∀ t x, loc t = some x → s'.mm.word (x + 139) = s.mm.word (x + 139)) :
    Pids s' loc where
  inj t t' x x' hx hx' heq := by
    rw [hword t x hx, hword t' x' hx'] at heq
    exact h.inj t t' x x' hx hx' heq
  pos t x ht hx := by
    rw [hword t x hx]
    exact h.pos t x ht hx

/-- A task with a number that no other has. -/
theorem update {c : Fin 64} {z : Nat} (h : Pids s loc) (hpos : 0 < (s.mm.word (z + 139)).toNat)
    (hlt : (s.mm.word (z + 139)).toNat < 2147483648)
    (hfresh : ∀ t x, loc t = some x → s.mm.word (x + 139) ≠ s.mm.word (z + 139)) :
    Pids s (Function.update loc c (some z)) := by
  have hcases : ∀ t x, Function.update loc c (some z) t = some x → (t = c ∧ x = z) ∨ loc t = some x := by
    intro t x hx
    by_cases htc : t = c
    · rw [htc, Function.update_self] at hx
      exact Or.inl ⟨htc, (Option.some.inj hx).symm⟩
    · rw [Function.update_of_ne htc] at hx
      exact Or.inr hx
  refine ⟨fun t t' x x' hx hx' heq => ?_, fun t x ht hx => ?_⟩
  · rcases hcases t x hx with ⟨rfl, rfl⟩ | hold
    · rcases hcases t' x' hx' with ⟨rfl, -⟩ | hold'
      · rfl
      · exact absurd heq.symm (hfresh t' x' hold')
    · rcases hcases t' x' hx' with ⟨-, rfl⟩ | hold'
      · exact absurd heq (hfresh t x hold)
      · exact h.inj t t' x x' hold hold' heq
  · rcases hcases t x hx with ⟨-, rfl⟩ | hold
    · exact ⟨hpos, hlt⟩
    · exact h.pos t x ht hold

theorem step (hs : Structs w0 s loc) (h : Pids s loc) (hstep : StructStep loc s s' loc') : Pids s' loc' := by
  cases hstep with
  | forked t c y k pid old m ht hc hcn hfirst hpos hlt htaken hk hforked hset =>
    have hs0 : Structs w0 { s with current := s.task t, lastPid := pid } loc := { hs with }
    have hkept : ∀ t' x, loc t' = some x → s'.mm.word (x + 139) = s.mm.word (x + 139) :=
      fun t' x hx => hforked.kept hs0 ht hx (by decide) (by decide)
    refine (h.congr hkept).update (by rwa [hset.pid]) (by rwa [hset.pid]) fun t' x hx => ?_
    have hb := hs.loc_bounds hx
    have hne : s.task t' ≠ 0 := by
      rw [hs.task_eq hx]
      exact wordAddr_ne_zero (by omega) (by omega)
    have hfresh := (ForkSys.ne_of_pidTaken htaken t'.isLt hne).1
    rw [hs.task_eq hx, ForkSys.get_word 139 (by decide) (by decide) (by omega)] at hfresh
    rwa [hkept t' x hx, hset.pid]
  | failed cur pid hlt heq =>
    refine h.congr fun t x _ => ?_
    rw [heq]
  | kept hkept => exact h.congr fun t x hx => hkept.word t x 139 hx (by decide)

theorem distinct {b : Boot} (hsane : ForkSane b s loc) (h : Pids s loc) : PidsDistinct s := by
  have hget : ∀ i < nrTasks, s.task i ≠ 0 → ∃ (t : Fin 64) (x : Nat), (t : Nat) = i ∧ loc t = some x ∧
      s.get (s.task i) Off.pid = s.mm.word (x + 139) := by
    intro i hi hne
    rcases hsane.tasks.of_live ⟨hi, hne⟩ with ⟨t, x, rfl, hx⟩
    have hb := hsane.structs.loc_bounds hx
    refine ⟨t, x, rfl, hx, ?_⟩
    rw [hsane.structs.task_eq hx, ForkSys.get_word 139 (by decide) (by decide) (by omega)]
  refine ⟨fun i hi j hj hni hnj heq => ?_, fun i h1 hi hne => ?_⟩
  · rcases hget i hi hni with ⟨t, x, rfl, hx, hpid⟩
    rcases hget j hj hnj with ⟨t', x', rfl, hx', hpid'⟩
    rw [hpid, hpid'] at heq
    rw [h.inj t t' x x' hx hx' heq]
  · rcases hget i hi hne with ⟨t, x, rfl, hx, hpid⟩
    rcases h.pos t x (Fin.pos_iff_ne_zero.mp h1) hx with ⟨hpos, hlt⟩
    rw [hpid, BitVec.toInt_eq_toNat_of_lt (by omega)]
    omega

end Pids

/-- `find_empty_process` finds a number that no task has, whatever is in the table and wherever
the search begins; so the numbers of the tasks stay different from each other. -/
theorem pids_not_reused :
    (∀ s : ForkSys, s.lastPid.toNat ≤ 2 ^ 31 - 1 →
      ∃ s' nr, s.findEmptyProcess = .ok (s', nr) ∧ ForkSys.PidFound s s' nr) ∧
    ∀ (b : Boot) (calls : List (Nat × Regs)) (s : ForkSys), Run.Trace ForkCall b.start calls s →
      PidsDistinct s := by
  refine ⟨fun s hs => ForkSys.findEmptyProcess_found (by omega), fun b calls s hrun => ?_⟩
  rcases b.forks_invariant (P := Pids) b.start_pids (fun _ _ _ _ hs h hstep => h.step hs hstep) hrun with
    ⟨loc, hsane, hpids⟩
  exact hpids.distinct hsane

/-- The search from the last number on, and the numbers of task 0 and its child. -/
theorem pids_not_reused_child :
    (∃ s' nr, ({ Boot.blank.start with lastPid := 0x7fffffff } : ForkSys).findEmptyProcess = .ok (s', nr) ∧
      ForkSys.PidFound { Boot.blank.start with lastPid := 0x7fffffff } s' nr) ∧
    ∃ s, Run.Trace ForkCall Boot.blank.start [(0, stackTop)] s ∧ PidsDistinct s := by
  rcases Boot.blank.start_spent.fork (by decide) with ⟨s1, hfork, -⟩
  have hrun : Run.Trace ForkCall Boot.blank.start [(0, stackTop)] s1 := Run.Trace.nil.snoc ⟨hfork.1.1, hfork.2⟩
  exact ⟨pids_not_reused.1 _ (by show (0x7fffffff : BitVec 32).toNat ≤ 2 ^ 31 - 1; decide), s1, hrun,
    pids_not_reused.2 Boot.blank _ s1 hrun⟩

end MockOs.Kernel
