import MockOs.Kernel.Sched.Cpu

/-!
# The choice of `schedule()` (`kernel/sched.c`, `include/linux/sched.h`)

One call of `schedule()` with nothing in between, over the variables it reads: the pointers
in `task[]`, the states of the task structures and `current`. Whether `current` is in the
table, and how often, is left open; `findLoop` runs off the end of `task[]` when it is not.
-/

namespace MockOs.Kernel

/-- `task[NR_TASKS]`, the states of the task structures, and `current`. `none` is NULL. -/
structure TaskArray (T : Type) where
  task : Slot → Option T
  state : T → TaskState
  current : Option T

namespace TaskArray

variable {T : Type} [DecidableEq T]

/-- `for (i = 0; task[i] != current; i++)` (`sched.c:123`). There is nothing to read past the
end of `task[]`. -/
def findLoop (s : TaskArray T) : ℕ → ℕ → Option ℕ
  | 0, _ => none
  | fuel + 1, i =>
    if h : i < 64 then
      if s.task ⟨i, h⟩ = s.current then some i else s.findLoop fuel (i + 1)
    else none

/-- `task[k] != NULL && task[k]->state == TASK_RUNNING`. -/
def runnable (s : TaskArray T) (k : Slot) : Bool :=
  match s.task k with
  | some p => s.state p = .running
  | none => false

/-- `for (;; i++)` (`sched.c:127-135`): `some none` is its first `return`, `some (some k)` the
one behind `switch_to(k)`. -/
def scanLoop (s : TaskArray T) : ℕ → ℕ → Option (Option Slot)
  | 0, _ => none
  | fuel + 1, i =>
    let k : Slot := Fin.ofNat 64 i
    if s.task k = s.current then some none
    else if s.runnable k then some (some k)
    else s.scanLoop fuel (i + 1)

/-- `switch_to(k)` (`sched.h:308-325`), with the slot whose TSS the far jump goes to, if it is
taken. -/
def switchTo (s : TaskArray T) (k : Slot) : TaskArray T × Option Slot :=
  if s.task k = s.current then (s, none) else ({ s with current := s.task k }, some k)

/-- `schedule()` (`sched.c:118-136`). -/
def schedule (fuel : ℕ) (s : TaskArray T) : Option (TaskArray T × Option Slot) := do
  let i ← s.findLoop fuel 0
  match ← s.scanLoop fuel (i + 1) with
  | none => some (s, none)
  | some k => some (s.switchTo k)

end TaskArray

/-- The table that the processor's `schedule()` reads, where a task is named by its slot. -/
def Cpu.table (s : Cpu) : TaskArray Slot where
  task k := if s.live k then some k else none
  state := s.state
  current := some s.current

end MockOs.Kernel
