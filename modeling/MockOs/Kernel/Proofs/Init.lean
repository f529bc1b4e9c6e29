import Mathlib.Tactic.IntervalCases
import MockOs.Kernel.Proofs.Fork
import MockOs.Kernel.User
import MockOs.Mm.Proofs.Init

/-!
# The system at boot

`init_task` is linked above the page tables that `setup_paging` writes, so it is still there
when task 0 enters user mode, and the system is represented with task 0 as its only task.
-/

namespace MockOs.Kernel

open Mm

namespace Boot

variable (b : Boot)

/-- Where the structures of the tasks are at boot. -/
def loc (t : Fin 64) : Option Nat := if t = 0 then some b.init else none

theorem loc_eq {t : Fin 64} {x : Nat} (h : b.loc t = some x) : t = 0 ∧ x = b.init := by
  rw [loc] at h
  split at h
  · rename_i ht
    exact ⟨ht, (Option.some.inj h).symm⟩
  · cases h

theorem start_mm : b.start.mm = memInit 0x400000 0x1000000 (setupPaging b.image) := by
  rw [start, schedInit, linked]

/-- `setup_paging` and `mem_init` leave what is above the page tables. -/
theorem start_word {x : Nat} (hx : 5120 ≤ x) : b.start.mm.word x = b.image.word x := by
  rw [b.start_mm, memInit_eq, setupPaging_eq]
  show (if x < 4 then _ else if x < 1024 then _ else if x < 5120 then _ else b.image.word x) = _
  rw [if_neg (by omega), if_neg (by omega), if_neg (by omega)]

theorem start_init {j : Nat} (hj : j < 289) : b.start.mm.word (b.init + j) = initTask b.initAddr j := by
  have hlow := b.low
  rw [b.start_word (by omega)]
  show (if b.init ≤ b.init + j ∧ b.init + j < b.init + taskWords then initTask b.initAddr (b.init + j - b.init)
    else _) = _
  rw [if_pos ⟨by omega, Nat.add_lt_add_left hj _⟩, Nat.add_sub_cancel_left]

theorem start_taskOk : TaskOk b.start.mm b.loc 0 b.init := by
  refine ⟨?_, ?_, fun j hj hj' hne => ?_, Or.inl ?_⟩
  · rw [b.start_init (by decide), b.start_init (by decide)]
    exact (by decide : (⟨0x9f, 0xc0fa00⟩ : Desc) = setBase ⟨0x9f, 0xc0fa00⟩ (taskBase 0))
  · rw [b.start_init (by decide), b.start_init (by decide)]
    exact (by decide : (⟨0x9f, 0xc0f200⟩ : Desc) = setBase ⟨0x9f, 0xc0f200⟩ (taskBase 0))
  · rw [b.start_init (by omega)]
    interval_cases j <;> rfl
  · rw [b.start_init (by decide)]
    rfl

theorem start_task (t : Fin 64) : b.start.task t = (b.loc t).elim 0 wordAddr := by
  have ht := t.isLt
  show (if 1 ≤ (t : Nat) ∧ (t : Nat) < nrTasks then 0 else if (t : Nat) = 0 then b.initAddr else 0) = _
  by_cases ht0 : t = 0
  · rw [ht0, loc, if_pos rfl, if_neg (by decide)]
    rfl
  · have hpos : 0 < (t : Nat) := Fin.pos_iff_ne_zero.mpr ht0
    rw [loc, if_neg ht0, if_pos ⟨hpos, ht⟩]
    rfl

/-- The system at boot is represented. -/
theorem start_forkRep : ForkRep b.Modelled b.init b.start b.loc (fun _ => none) (bootSpaces b.start.mm) where
  rep := by
    rw [b.start_mm]
    exact rep_boot (fun _ hx => hx.1) b.image
  initLow := ⟨b.low, b.high⟩
  initHidden x hx hx' hvis := by
    rcases hvis.2 with h | h <;> omega
  task := b.start_task
  locZero := if_pos rfl
  locTab t ht := by
    rw [loc, if_neg ht]
  locFrame t x ht hx := absurd (b.loc_eq hx).1 ht
  locInj t t' x ht ht' := by rw [(b.loc_eq ht).1, (b.loc_eq ht').1]
  owned f hf := by cases hf
  full t p hlive hp := by
    rcases Option.ne_none_iff_exists'.mp hlive with ⟨x, hx⟩
    rw [(b.loc_eq hx).1, show (bootSpaces b.start.mm).pte 0 p = some p from if_pos ⟨rfl, hp⟩]
    exact Option.some_ne_none p
  ok t x hx := by
    rcases b.loc_eq hx with ⟨rfl, rfl⟩
    exact b.start_taskOk
  math := rfl
  pid := (by decide : (0 : BitVec 32).toNat < 2147483648)

end Boot

end MockOs.Kernel
