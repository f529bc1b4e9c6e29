import MockOs.Kernel.Sched.Schedule
import MockOs.Kernel.Switch
import MockOs.Misc.RoundRobin

/-!
# Time sharing

`schedule()` on the processor, as the timer interrupt calls it: interrupts are off, so nothing
changes between the reads of `task[]` and the far jump. `Deed` is what a task does with the
processor until then, in user mode and in the kernel, and `World` are tasks that each have a
processor, a memory and a stack in kernel mode of their own.

The gates of page faults and of system calls leave interrupts on. In the runs here none comes
inside a fork or inside the answer to a write fault: each is one step. Task 0 does not store,
since its pages below `LOW_MEM` stay writable and are those of its children.
-/

namespace MockOs.Kernel

open Mm

/-! ## `schedule()` on the processor -/

/-- The states of a task (`sched.h:47-51`). Any other word is not `TASK_RUNNING` either. -/
def TaskState.ofWord (w : BitVec 32) : TaskState :=
  if w = 0 then .running
  else if w = 1 then .interruptible
  else if w = 2 then .uninterruptible
  else if w = 3 then .zombie
  else .stopped

namespace ForkSys

/-- What `schedule()` reads. -/
def table (s : ForkSys) : TaskArray (BitVec 32) where
  task k := if s.task k = 0 then none else some (s.task k)
  state p := .ofWord (s.get p Off.state)
  current := some s.current

/-- Task `t` could run. -/
def Ready (s : ForkSys) (t : Nat) : Prop := s.Live t ∧ s.get (s.task t) Off.state = taskRunning

end ForkSys

namespace Core

/-- `schedule()` (`sched.c:118-136`). -/
def schedule (up : Machine → BitVec 16) (after : BitVec 32) (p : Core) : Option Core := do
  let i ← p.cpu.sys.table.findLoop nrTasks 0
  match ← p.cpu.sys.table.scanLoop nrTasks (i + 1) with
  | none => some p
  | some k => p.switchTo up after k

end Core

/-- A step of the task that has the processor, in user mode or in the kernel: it computes in its
registers, loads or stores the byte at EBX of its data segment, writes or reads a word of its
stack in kernel mode, goes through `sys_fork` with the registers of the call, or is interrupted
by the timer. -/
inductive Deed where
  | compute (f : Context → Context)
  | load
  | store
  | push (j : Nat)
  | peek (j : Nat)
  | fork (r : Regs)
  | slice (after : BitVec 32)

namespace Core

/-- The task that the processor runs, as `str(n)` reads it (`sched.h:296-301`). -/
def running (p : Core) : Nat := (p.tr.toNat - 32) / 16

/-- The word of the structure of the task that runs. -/
def stackWord (p : Core) (j : Nat) : Nat := p.cpu.sys.current.toNat / 4 + j

/-- What a step does. No interrupt comes inside a store with its write fault or inside a fork. -/
def does (up : Machine → BitVec 16) : Deed → Core → Option Core
  | .compute f, p => some { p with cpu := (f p.cpu.context).machine p.cpu.sys }
  | .load, p => do
    let v ← p.cpu.sys.userLoad p.running p.cpu.ebx
    some { p with cpu := { p.cpu with eax := v.setWidth 32 } }
  | .store, p => do
    let s ← p.cpu.sys.userStore p.running p.cpu.ebx (p.cpu.eax.setWidth 8)
    some { p with cpu := { p.cpu with sys := s } }
  | .push j, p =>
    let mm := p.cpu.sys.mm.setWord (p.stackWord j) p.cpu.eax
    some { p with cpu := { p.cpu with sys := { p.cpu.sys with mm } } }
  | .peek j, p => some { p with cpu := { p.cpu with eax := p.cpu.sys.mm.word (p.stackWord j) } }
  | .fork r, p =>
    match ForkSys.sysFork r p.cpu.sys with
    | .ok (s, v) => some { p with cpu := { p.cpu with eax := v, sys := s } }
    | .error _ => none
  | .slice after, p => p.schedule up after

/-- The steps of the runs looked at: addresses in the 640 KB of the segment that hold nothing of
the kernel, stores not by task 0, words of the stack in kernel mode, and pages for whoever needs
them. -/
def Allowed (b : Boot) : Deed → Core → Prop
  | .compute _, _ => True
  | .load, p => p.cpu.ebx.toNat < 0xa0000 ∧ b.Modelled (p.cpu.ebx.toNat / 4)
  | .store, p => p.cpu.sys.Allowed (.store p.running p.cpu.ebx (p.cpu.eax.setWidth 8))
  | .push j, _ | .peek j, _ => taskWords ≤ j ∧ j < 1024
  | .fork r, p => p.cpu.sys.Allowed (.fork p.running r)
  | .slice _, _ => True

end Core

/-- One step of the processor. -/
def DeedStep (b : Boot) (up : Machine → BitVec 16) (a : Deed) (p p' : Core) : Prop :=
  p.Allowed b a ∧ p.does up a = some p'

/-! ## Processors of their own -/

/-- A task by itself. -/
structure Proc where
  regs : Context
  mem : Nat → BitVec 8
  stack : Nat → BitVec 32

/-- The tasks by their slots, and the one whose turn it is. -/
structure World where
  proc : Slot → Option Proc
  running : Slot

namespace World

def put (w : World) (q : Proc) : World := { w with proc := Function.update w.proc w.running (some q) }

/-- Every step is one of the task whose turn it is, in its own registers, memory and stack. `fork`
makes a copy in the first empty slot, and the turns go round by slots. What is left open is the
process number, the contents of a new stack, and what `switch_to` leaves in ECX. -/
inductive Does : Deed → World → World → Prop
  | compute {w : World} {q : Proc} {f : Context → Context} : w.proc w.running = some q →
      Does (.compute f) w (w.put { q with regs := f q.regs })
  | load {w : World} {q : Proc} : w.proc w.running = some q →
      Does .load w (w.put { q with regs := { q.regs with eax := (q.mem q.regs.ebx.toNat).setWidth 32 } })
  | store {w : World} {q : Proc} : w.proc w.running = some q →
      Does .store w (w.put { q with mem := Function.update q.mem q.regs.ebx.toNat (q.regs.eax.setWidth 8) })
  | push {w : World} {q : Proc} {j : Nat} : w.proc w.running = some q →
      Does (.push j) w (w.put { q with stack := Function.update q.stack j q.regs.eax })
  | peek {w : World} {q : Proc} {j : Nat} : w.proc w.running = some q →
      Does (.peek j) w (w.put { q with regs := { q.regs with eax := q.stack j } })
  | fork {w : World} {q : Proc} {r : Regs} (n : Slot) (pid : BitVec 32) (stack : Nat → BitVec 32) :
      w.proc w.running = some q → n ≠ 0 → w.proc n = none → (∀ i ≠ 0, i < n → w.proc i ≠ none) →
      Does (.fork r) w { w.put { q with regs := { q.regs with eax := pid } } with
        proc := Function.update (w.put { q with regs := { q.regs with eax := pid } }).proc n
          (some { regs := r.child, mem := q.mem, stack }) }
  | full {w : World} {q : Proc} {r : Regs} : w.proc w.running = some q → (∀ i ≠ 0, w.proc i ≠ none) →
      Does (.fork r) w (w.put { q with regs := { q.regs with eax := -eagain } })
  | slice {w : World} {q : Proc} {after : BitVec 32} (n : Slot) (ecx : BitVec 32) : w.proc w.running = some q →
      RoundRobin.Picks (w.proc · ≠ none) w.running n →
      Does (.slice after) w { w.put { q with regs := { q.regs with
        eip := after, ecx, edx := BitVec.ofNat 32 (16 * n + 32) } } with running := n }
  | alone {w : World} {after : BitVec 32} : (∀ n ≠ w.running, w.proc n = none) → Does (.slice after) w w

end World

/-- Task 0, with what is in memory. -/
def Boot.world (b : Boot) (r : Context) : World where
  proc t := if t = 0 then
    some ⟨r, fun off => byteOf (b.start.mm.word (off / 4)) (off % 4), fun j => b.start.mm.word (b.init + j)⟩ else none
  running := 0

/-- The processor runs the task whose turn it is with the registers it has by itself, `switch_to`
gives the others theirs, and memory holds what each of them has. -/
structure Core.Shows (b : Boot) (p : Core) (w : World) : Prop where
  runs : p.Runs w.running
  live : ∀ t : Slot, p.cpu.sys.Live t ↔ w.proc t ≠ none
  regs : ∀ q, w.proc w.running = some q → p.cpu.context = q.regs
  resumes : ∀ t q, t ≠ w.running → w.proc t = some q → ∀ up after,
    ∃ p', p.switchTo up after t = some p' ∧ p'.cpu.context = q.regs
  mem : ∀ (t : Slot) q (off : BitVec 32), w.proc t = some q → off.toNat < 0xa0000 → b.Modelled (off.toNat / 4) →
    p.cpu.sys.userLoad t off = some (q.mem off.toNat)
  stack : ∀ t q j, w.proc t = some q → taskWords ≤ j → j < 1024 →
    p.cpu.sys.mm.word ((p.cpu.sys.task t).toNat / 4 + j) = q.stack j

end MockOs.Kernel
