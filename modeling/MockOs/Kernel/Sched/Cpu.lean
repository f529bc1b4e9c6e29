import MockOs.Kernel.Sched.SleepOn
import MockOs.Misc.Bits

/-!
# `schedule()` on one processor (`kernel/sched.c`, `kernel/sys_call.s`)

The processor runs the kernel one statement at a time, `switch_to` one instruction at a time.
A task is named by its slot in `task[]`. What is left to do on its kernel stack is a list of
program points, the innermost first: a call puts the first point of the callee in front of the
point it returns to. The list and the interrupt flag are what a far jump saves in the TSS of
the task register and loads from the TSS of its target; the list of the task in TR is the one
that runs.

The code names the running task by the variable `current`, the hardware by TR. Nothing here
assumes that they agree.
-/

namespace MockOs.Kernel

/-- An index of `task[NR_TASKS]`. -/
abbrev Slot := Fin 64

/-- The wait pointers: those of the kernel mutexes and `buffer_wait`. -/
inductive Chan where
  | mutex (n : Fin 64)
  | bufferWait
  deriving DecidableEq, Repr

/-- Inside `schedule()` (`sched.c:118-136`). -/
inductive SchedPc where
  /-- `for (i = 0; task[i] != current; i++)`. -/
  | find (i : Nat)
  /-- The body of `for (;; i++)`. -/
  | scan (i : Nat)
  /-- `switch_to(k)`: `cmpl %ecx,current; je 1f`. -/
  | cmp (k : Slot)
  /-- `movw %dx,%1; xchgl %ecx,current`. -/
  | xchg (k : Slot)
  /-- `ljmp *%0`. -/
  | ljmp (k : Slot)
  /-- After the far jump. -/
  | back
  deriving DecidableEq, Repr

/-- A point of the code, about to be run. -/
inductive Pt where
  | user
  /-- `sys_pause` (`sched.c:110-114`): the assignment, the call and the return. -/
  | pauseSet
  | pauseCall
  | pauseRet
  /-- `sys_klock(n)` (`sched.c:14-21`): `cli`, the `while` test, the assignment, `sti`. -/
  | klockCli (n : Fin 64)
  | klockTest (n : Fin 64)
  | klockTake (n : Fin 64)
  | klockSti
  /-- `sys_kunlock(n)` (`sched.c:23-26`): the assignment, and the test of `wake_up`. -/
  | kunlockClear (n : Fin 64)
  | kunlockWake (n : Fin 64)
  /-- `getblk` at `repeat:`, up to its return or its `sleep_on(&buffer_wait)`. -/
  | getblk
  /-- `sys_fork` (`sys_call.s:192-204`). -/
  | forkCli
  | fork
  /-- `system_call` after the call: label 2, and `ret_from_sys_call`. -/
  | sysTest
  | sysRet
  /-- `__sleep_on(p, TASK_UNINTERRUPTIBLE)` (`sched.c:151-181`) with its local `tmp`. -/
  | sleepEnter (p : Chan)
  | sleepPush (p : Chan) (tmp : Option Slot)
  | sleepState (p : Chan) (tmp : Option Slot)
  | sleepCall (p : Chan) (tmp : Option Slot)
  /-- After `schedule()`. -/
  | sleepBack (p : Chan) (tmp : Option Slot)
  | sleepAgain (p : Chan) (tmp : Option Slot)
  | sleepPop (p : Chan) (tmp : Option Slot)
  /-- `(**p).state = TASK_RUNNING`: the load of `*p`, and the store. -/
  | wakeHead (p : Chan)
  | wake (h : Slot)
  | panic
  | sched (p : SchedPc)
  /-- `timer_interrupt` up to `do_timer`, and from there to its `iret`. -/
  | tick
  | tickRet
  deriving DecidableEq, Repr

/-- The machine: TR, `current`, `task[]` (which slots are not NULL) with the fields of the
task structures that are used, the wait pointers, the mutexes, and the stack and the
interrupt flag of each task. -/
structure Cpu where
  tr : Slot
  current : Slot
  live : Slot → Bool
  state : Slot → TaskState
  counter : Slot → Nat
  priority : Slot → Nat
  wait : Chan → Option Slot
  lock : Fin 64 → Int
  code : Slot → List Pt
  iflag : Slot → Bool

/-- Task 0 in user mode (`INIT_TASK`, `move_to_user_mode`). -/
def Cpu.start : Cpu where
  tr := 0
  current := 0
  live k := k = 0
  state _ := .running
  counter _ := 15
  priority _ := 15
  wait _ := none
  lock _ := 0
  code _ := [.user]
  iflag _ := true

namespace Cpu

/-- The running task goes on with `q`. -/
def goto (s : Cpu) (q : List Pt) : Cpu := { s with code := Function.update s.code s.tr q }

def setState (s : Cpu) (k : Slot) (st : TaskState) : Cpu :=
  { s with state := Function.update s.state k st }

/-- `cli` and `sti`, and the flag that `iret` restores. -/
def setIf (s : Cpu) (b : Bool) : Cpu := { s with iflag := Function.update s.iflag s.tr b }

def setWait (s : Cpu) (p : Chan) (q : Option Slot) : Cpu :=
  { s with wait := Function.update s.wait p q }

def setLock (s : Cpu) (n : Fin 64) (v : Int) : Cpu :=
  { s with lock := Function.update s.lock n v }

/-- The slot `find_empty_process` returns (`fork.c:151-155`). -/
def findEmptyProcess (s : Cpu) : Option Slot :=
  (List.finRange 64).find? fun i => i ≠ 0 ∧ s.live i = false

/-- What `copy_process` does to `task[nr]` and the new task structure, all of it with
interrupts off: the child is in user mode behind its `fork`. -/
def copyProcess (s : Cpu) (nr : Slot) : Cpu :=
  { s with
    live := Function.update s.live nr true
    state := Function.update s.state nr .running
    counter := Function.update s.counter nr (s.priority s.current)
    priority := Function.update s.priority nr (s.priority s.current)
    code := Function.update s.code nr [.user]
    iflag := Function.update s.iflag nr true }

/-- One statement of `schedule()`, with `rest` behind it. A far jump to the task in TR is a
general protection fault, its TSS being busy. -/
def schedule (s : Cpu) (rest : List Pt) : SchedPc → Option Cpu
  | .find i =>
    if i = s.current then some (s.goto (.sched (.scan (i + 1)) :: rest))
    else some (s.goto (.sched (.find (i + 1)) :: rest))
  | .scan i =>
    let k : Slot := Fin.ofNat 64 i
    if k = s.current then some (s.goto rest)
    else if s.live k ∧ s.state k = .running then some (s.goto (.sched (.cmp k) :: rest))
    else some (s.goto (.sched (.scan (i + 1)) :: rest))
  | .cmp k =>
    if k = s.current then some (s.goto rest) else some (s.goto (.sched (.xchg k) :: rest))
  | .xchg k => some ({ s with current := k }.goto (.sched (.ljmp k) :: rest))
  | .ljmp k =>
    if k = s.tr then none else some { s.goto (.sched .back :: rest) with tr := k }
  | .back => some (s.goto rest)

/-- One statement of the running task, with `rest` behind it. -/
def exec (s : Cpu) (rest : List Pt) : Pt → Option Cpu
  | .user => none
  | .pauseSet => some ((s.setState s.current .interruptible).goto (.pauseCall :: rest))
  | .pauseCall => some (s.goto (.sched (.find 0) :: .pauseRet :: rest))
  | .pauseRet => some (s.goto rest)
  | .klockCli n => some ((s.setIf false).goto (.klockTest n :: rest))
  | .klockTest n =>
    if s.lock n ≠ 0 then some (s.goto (.sleepEnter (.mutex n) :: .klockTest n :: rest))
    else some (s.goto (.klockTake n :: rest))
  | .klockTake n => some ((s.setLock n 1).goto (.klockSti :: rest))
  | .klockSti => some ((s.setIf true).goto rest)
  | .kunlockClear n => some ((s.setLock n 0).goto (.kunlockWake n :: rest))
  | .kunlockWake n =>
    if s.wait (.mutex n) ≠ none then some (s.goto (.wakeHead (.mutex n) :: rest))
    else some (s.goto rest)
  | .getblk => some (s.goto rest)
  | .forkCli => some ((s.setIf false).goto (.fork :: rest))
  | .fork =>
    match s.findEmptyProcess with
    | some nr => some ((s.copyProcess nr).goto rest)
    | none => some (s.goto rest)
  | .sysTest =>
    if s.state s.current ≠ .running ∨ s.counter s.current = 0 then
      some (s.goto (.sched (.find 0) :: .sysRet :: rest))
    else some (s.goto (.sysRet :: rest))
  | .sysRet => some ((s.setIf true).goto rest)
  | .sleepEnter p =>
    if s.current = 0 then some (s.goto (.panic :: rest))
    else some (s.goto (.sleepPush p (s.wait p) :: rest))
  | .sleepPush p tmp => some ((s.setWait p (some s.current)).goto (.sleepState p tmp :: rest))
  | .sleepState p tmp =>
    some ((s.setState s.current .uninterruptible).goto (.sleepCall p tmp :: rest))
  | .sleepCall p tmp => some (s.goto (.sched (.find 0) :: .sleepBack p tmp :: rest))
  | .sleepBack p tmp =>
    if s.wait p ≠ none ∧ s.wait p ≠ some s.current then
      some (s.goto (.wakeHead p :: .sleepAgain p tmp :: rest))
    else some (s.goto (.sleepPop p tmp :: rest))
  | .sleepAgain p tmp =>
    some ((s.setState s.current .uninterruptible).goto (.sleepCall p tmp :: rest))
  | .sleepPop p tmp =>
    match tmp with
    | some u => some ((s.setWait p tmp).goto (.wake u :: rest))
    | none => some ((s.setWait p tmp).goto rest)
  | .wakeHead p =>
    match s.wait p with
    | some h => some (s.goto (.wake h :: rest))
    -- a store through NULL
    | none => none
  | .wake h => some ((s.setState h .running).goto rest)
  | .panic => none
  | .sched p => s.schedule rest p
  | .tick => some (s.goto (.sched (.find 0) :: .tickRet :: rest))
  | .tickRet => some ((s.setIf true).goto rest)

end Cpu

/-- The system calls. `kdebug` is the caller of `getblk`. -/
inductive Sys where
  | pause
  | klock (n : Fin 64)
  | kunlock (n : Fin 64)
  | fork
  | kdebug
  deriving DecidableEq, Repr

/-- The first statement of a system call. -/
def Sys.entry : Sys → Pt
  | .pause => .pauseSet
  | .klock n => .klockCli n
  | .kunlock n => .kunlockClear n
  | .fork => .forkCli
  | .kdebug => .getblk

/-- What happens next: a statement of the running task, the same with no free page for
`fork` or no free buffer for `getblk`, a system call from user mode, a timer interrupt. -/
inductive CpuAct where
  | go
  | full
  | call (c : Sys)
  | tick
  deriving DecidableEq, Repr

/-- One step of the machine. System calls go through a trap gate, which leaves the interrupt
flag as it is; the timer interrupt goes through an interrupt gate, which clears it. -/
def Cpu.step (s : Cpu) : CpuAct → Option Cpu
  | .go =>
    match s.code s.tr with
    | p :: rest => s.exec rest p
    | [] => none
  | .full =>
    match s.code s.tr with
    | .fork :: rest => some (s.goto rest)
    | .getblk :: rest => some (s.goto (.sleepEnter .bufferWait :: .getblk :: rest))
    | _ => none
  | .call c =>
    match s.code s.tr with
    | .user :: rest => some (s.goto (c.entry :: .sysTest :: .user :: rest))
    | _ => none
  | .tick =>
    if s.iflag s.tr then some ((s.setIf false).goto (.tick :: s.code s.tr)) else none

/-- A step that `R` lets happen. -/
def CpuStep (R : Cpu → CpuAct → Prop) (s s' : Cpu) : Prop := ∃ a, R s a ∧ s.step a = some s'

/-- Steps one after the other, as long as `R` lets them happen. -/
def Cpu.steps (R : Cpu → CpuAct → Prop) [∀ s a, Decidable (R s a)] (s : Cpu) (as : List CpuAct) :
    Option Cpu :=
  as.foldlM (fun s a => if R s a then s.step a else none) s

end MockOs.Kernel
