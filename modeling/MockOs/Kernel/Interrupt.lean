import MockOs.Kernel.Hd
import MockOs.Kernel.Switch
import MockOs.Kernel.Traps
import MockOs.Misc.Code

/-!
# Interrupts (`kernel/sys_call.s`, `kernel/idt.asm`, `mm/page.asm`)

`timer_interrupt`, `hd_interrupt`, `page_fault` and `system_call`, one instruction at a time. The
timer and the disk have interrupt gates and are not interrupted themselves; the other two can be,
between any two instructions. A C function that they call is one instruction: no interrupt comes
inside it. The log and the variables of the disk driver are apart from the memory here.
-/

namespace MockOs.Kernel

open Mm Relation

/-- What else the assembly does not say: the addresses of the code, the variables of the disk driver
and the answer of the controller when a disk interrupt comes, and what the processor reports of a
page fault. -/
structure Vectors where
  timer : BitVec 32
  hd : BitVec 32
  pageFault : BitVec 32
  afterSync : BitVec 32
  afterTimer : BitVec 32
  afterHd : BitVec 32
  afterWp : BitVec 32
  ignoreInt : BitVec 32
  idtPtrs : Nat → BitVec 32
  disk : Machine → HdSys
  report : Machine → HdIrq
  cr2 : Machine → BitVec 32
  errorCode : Machine → BitVec 32

/-- The memory with these bytes. -/
def setBytes (mem : BitVec 32 → BitVec 8) (m : Memory) : Memory :=
  { m with word := fun z =>
      if z < 2 ^ 30 then
        mem (BitVec.ofNat 32 (4 * z + 3)) ++ mem (BitVec.ofNat 32 (4 * z + 2)) ++
          mem (BitVec.ofNat 32 (4 * z + 1)) ++ mem (BitVec.ofNat 32 (4 * z))
      else m.word z }

/-- The driver behind `hd_interrupt` (`idt.asm:76-90`). -/
def Vectors.answer (v : Vectors) (c : Machine) : HdSys :=
  hdInterrupt (v.report c) { v.disk c with mem := fun a => loadByte a c.sys.mm }

namespace Machine

/-- What the processor does for an interrupt, with the bits of `mask` taken out of EFLAGS. From
user mode it takes the stack from the TSS of the task. -/
def interrupt (k : Linkage) (entry mask : BitVec 32) (u : Machine) : Machine :=
  let c :=
    if u.cs &&& 3 = 0 then u
    else
      let c := { u with
        ss := (u.sys.get u.sys.current Tss.ss0).setWidth 16
        esp := u.sys.get u.sys.current Tss.esp0 }
      (c.pushSeg k u.ss).push u.esp
  let c := c.push u.eflags
  let c := c.pushSeg k u.cs
  let c := c.push u.eip
  { c with cs := 0x08, eip := entry, eflags := u.eflags &&& ~~~mask }

/-- A trap gate leaves interrupts on, an interrupt gate turns them off. -/
def trapMask : BitVec 32 := 0x34100
def intrMask : BitVec 32 := 0x34300

/-- What a gate of the kernel's code segment does. -/
def enterGate (k : Linkage) (g : Gate) (u : Machine) : Machine :=
  u.interrupt k g.offset (if g.type = trapGate then trapMask else intrMask)

/-- `int n`, which the privilege level of the gate may forbid. -/
def softInt (k : Linkage) (idt : Nat → Desc) (n : Nat) (u : Machine) : Option Machine :=
  if (idt n).gate.present ∧ (u.cs &&& 3).toNat ≤ (idt n).gate.dpl.toNat then some (u.enterGate k (idt n).gate) else none

/-- `mov al, v`. -/
def setAl (v : BitVec 8) (c : Machine) : Machine := { c with eax := (c.eax &&& 0xffffff00) ||| v.setWidth 32 }

def setEax (c : Machine) (v : BitVec 32) : Machine := { c with eax := v }
def setEbx (c : Machine) (v : BitVec 32) : Machine := { c with ebx := v }
def setEcx (c : Machine) (v : BitVec 32) : Machine := { c with ecx := v }
def setEdx (c : Machine) (v : BitVec 32) : Machine := { c with edx := v }
def setFs (c : Machine) (v : BitVec 32) : Machine := { c with fs := v.setWidth 16 }
def setEs (c : Machine) (v : BitVec 32) : Machine := { c with es := v.setWidth 16 }
def setDs (c : Machine) (v : BitVec 32) : Machine := { c with ds := v.setWidth 16 }

/-! ## C functions -/

/-- `sync_log_buf_2` (`nasm.asm:141`) writes to `log_buffer` only. -/
def syncLogBuf2 (k : Linkage) : Machine → Except Trap Machine := cFunction k fun c => .ok (c.sys, k.eax c)

/-- `do_timer` (`sched.c:142`) calls `schedule`, whatever the privilege level was. -/
def doTimer (k : Linkage) : Machine → Except Trap Machine := schedule k

/-- The function that `do_hd` points to, with what `hd_interrupt` does to the ports and to the
variables of the driver before it. It may halt, or not return from `printm`. -/
def callDoHd (k : Linkage) (v : Vectors) : Machine → Except Trap Machine :=
  cFunction k fun c =>
    if (v.answer c).stopped then .error .loop
    else .ok ({ c.sys with mm := setBytes (v.answer c).mem c.sys.mm }, k.eax c)

/-- `do_wp_page(error_code, address)`. -/
def callDoWpPage (k : Linkage) : Machine → Except Trap Machine :=
  cFunction k fun c => .ok ({ c.sys with mm := doWpPage (c.arg 1) c.sys.mm }, k.eax c)

/-- The system calls that do nothing (`traps.c:24-108`). -/
def sysNothing (k : Linkage) : Machine → Except Trap Machine := cFunction k fun c => .ok (c.sys, 0)

/-- `TASK_INTERRUPTIBLE` (`include/linux/sched.h:49`). -/
def taskInterruptible : BitVec 32 := 1

/-- `sys_pause` (`sched.c:110-114`). -/
def sysPause (k : Linkage) : Machine → Except Trap Machine :=
  cFunction k fun c =>
    let s := c.sys.set c.sys.current Off.state taskInterruptible
    .ok (if otherRuns s then k.away { c with sys := s } else s, 0)

/-! ## The code -/

open Code

/-- The registers come off the stack (`sys_call.s:152-159`). -/
def restoreCode : Code Trap Machine :=
  block [op (pop setEax), op (pop setEbx), op (pop setEcx), op (pop setEdx), op (drop 4), op (pop setFs),
    op (pop setEs), op (pop setDs)] .halt

/-- A signal is taken off `signal` (`sys_call.s:145-150`). -/
def dropSignalCode (n : BitVec 32) : Code Trap Machine :=
  block [op fun c => c.setEcx n, op fun c => c.setEbx (c.ebx &&& ~~~(1#32 <<< c.ecx)),
    op fun c => { c with sys := c.sys.set c.eax Off.signal c.ebx }, op fun c => c.setEcx (c.ecx + 1),
    op fun c => c.push c.ecx, op (pop setEcx)] restoreCode

/-- `je 3f` behind `bsfl` (`sys_call.s:144`). -/
def foundSignalCode : Option (BitVec 32) → Code Trap Machine
  | none => restoreCode
  | some n => dropSignalCode n

/-- The lowest signal that is not blocked (`sys_call.s:139-144`). -/
def findSignalCode : Code Trap Machine :=
  block [op fun c => c.setEbx (c.sys.get c.eax Off.signal), op fun c => c.setEcx (c.sys.get c.eax Off.blocked),
    op fun c => c.setEcx (~~~c.ecx), op fun c => c.setEcx (c.ecx &&& c.ebx)] <|
  .instr .ok fun c => foundSignalCode (bsf c.ecx)

/-- Only a task in user mode that is not `task[0]` gets signals (`sys_call.s:133-138`). -/
def signalCode : Code Trap Machine :=
  cond (fun c => c.eax = c.sys.task 0) restoreCode <|
  cond (fun c => (c.slot 0x24).setWidth 16 ≠ (0x0f : BitVec 16)) restoreCode <|
  cond (fun c => (c.slot 0x30).setWidth 16 ≠ (0x17 : BitVec 16)) restoreCode findSignalCode

/-- `ret_from_sys_call` up to its `iret` (`sys_call.s:131-160`). -/
def retCode : Code Trap Machine := block [op fun c => c.setEax c.sys.current] signalCode

/-- The pushes and the segments that `system_call` begins with (`sys_call.s:109-120`). -/
def enterCode (k : Linkage) : List (Machine → Except Trap Machine) :=
  [op fun c => c.pushSeg k c.ds, op fun c => c.pushSeg k c.es, op fun c => c.pushSeg k c.fs, op fun c => c.push c.eax,
    op fun c => c.push c.edx, op fun c => c.push c.ecx, op fun c => c.push c.ebx, op fun c => c.setEdx 0x10,
    op fun c => c.setDs c.edx, op fun c => c.setEs c.edx, op fun c => c.setEdx 0x17, op fun c => c.setFs c.edx]

/-- `reschedule` makes `schedule` return to `ret_from_sys_call` (`sys_call.s:105-107`). -/
def rescheduleCode (k : Linkage) : Code Trap Machine :=
  block [fun c => c.call k.retFromSysCall (schedule k)] retCode

/-- Another task may have to run before the call returns (`sys_call.s:127-130`). -/
def exitCode (k : Linkage) : Code Trap Machine :=
  cond (fun c => c.sys.get c.eax Off.state ≠ 0) (rescheduleCode k) <|
  cond (fun c => c.sys.get c.eax Off.counter = 0) (rescheduleCode k) retCode

/-- `system_call` (`sys_call.s:108-160`) up to its `iret`. -/
def systemCallCode (k : Linkage) : Code Trap Machine :=
  block (enterCode k ++ [fun c => c.call k.afterCall (sysCallTable k (4 * c.eax)), op fun c => c.push c.eax,
    op fun c => c.setEax c.sys.current]) (exitCode k)

/-- `timer_interrupt` (`sys_call.s:165-190`) up to its `iret`. -/
def timerCode (k : Linkage) (v : Vectors) : Code Trap Machine :=
  block [op fun c => c.pushSeg k c.ds, op fun c => c.pushSeg k c.es, op fun c => c.pushSeg k c.fs,
    op fun c => c.push (-1), op fun c => c.push c.edx, op fun c => c.push c.ecx, op fun c => c.push c.ebx,
    op fun c => c.push c.eax, op fun c => c.setEax 0x10, op fun c => c.setDs c.eax, op fun c => c.setEs c.eax,
    op fun c => c.setEax 0x17, op fun c => c.setFs c.eax,
    op fun c => { c with sys := { c.sys with jiffies := c.sys.jiffies + 1 } },
    fun c => c.call v.afterSync (syncLogBuf2 k), op fun c => c.setAl 0x20, op fun c => c.setEax (c.slot 0x24),
    op fun c => c.setEax (c.eax &&& 3), op fun c => c.push c.eax, fun c => c.call v.afterTimer (doTimer k),
    op (drop 4)] retCode

/-- `hd_interrupt` (`idt.asm:62-95`) up to its `iret`. -/
def hdCode (k : Linkage) (v : Vectors) : Code Trap Machine :=
  block [op fun c => c.push c.eax, op fun c => c.push c.ecx, op fun c => c.push c.edx, op fun c => c.pushSeg k c.ds,
    op fun c => c.pushSeg k c.es, op fun c => c.pushSeg k c.fs, op fun c => c.setEax 0x10, op fun c => c.setDs c.eax,
    op fun c => c.setEs c.eax, op fun c => c.setEax 0x17, op fun c => c.setFs c.eax, op fun c => c.setAl 0x20,
    op fun c => c.setEdx 0, fun c => c.call v.afterHd (callDoHd k v), op (pop setFs), op (pop setEs), op (pop setDs),
    op (pop setEdx), op (pop setEcx), op (pop setEax)] .halt

/-- `page_fault` (`page.asm:4-31`) up to its `iret`. -/
def pageFaultCode (k : Linkage) (v : Vectors) : Code Trap Machine :=
  block [op fun c => { c with eax := c.slot 0, sys := { c.sys with mm := c.sys.mm.write c.esp c.eax } },
    op fun c => c.push c.ecx, op fun c => c.push c.edx, op fun c => c.pushSeg k c.ds, op fun c => c.pushSeg k c.es,
    op fun c => c.pushSeg k c.fs, op fun c => c.setEdx 0x10, op fun c => c.setDs c.edx, op fun c => c.setEs c.edx,
    op fun c => c.setFs c.edx, op fun c => c.setEdx (v.cr2 c), op fun c => c.push c.edx, op fun c => c.push c.eax,
    fun c => c.call v.afterWp (callDoWpPage k), op (drop 8), op (pop setFs), op (pop setEs), op (pop setDs),
    op (pop setEdx), op (pop setEcx), op (pop setEax)] .halt

/-! ## What happens between two instructions -/

/-- The interrupts that can come at any time. -/
inductive Irq where
  | timer
  | hd

/-- An interrupt, from the instruction in front of which it comes to the `iret`. -/
def irq (k : Linkage) (v : Vectors) (i : Irq) (c : Machine) : Except Trap Machine :=
  match i with
  | .timer => ((timerCode k v).run (c.interrupt k v.timer intrMask)).map iret
  | .hd => ((hdCode k v).run (c.interrupt k v.hd intrMask)).map iret

/-- An interrupt comes in kernel mode, and is let in. -/
def Interrupts (k : Linkage) (v : Vectors) (c c' : Machine) : Prop :=
  c.cs &&& 3 = 0 ∧ c.eflags &&& 0x200 ≠ 0 ∧ ∃ i, irq k v i c = .ok c'

/-- What goes on between two instructions of the kernel, and no instruction of it notices: the
registers, the words in use of the kernel stack and `current` are the same. -/
structure Unseen (c c' : Machine) : Prop where
  context : c'.context = c.context
  current : c'.sys.current = c.sys.current
  stack : ∀ j, taskWords ≤ j → j < 1024 → c.esp.toNat ≤ c.sys.current.toNat + 4 * j →
    c'.sys.mm.word (c.sys.current.toNat / 4 + j) = c.sys.mm.word (c.sys.current.toNat / 4 + j)

end Machine

/-- The table after `setup_idt`, `trap_init`, `sched_init` and `hd_init` (`main.c:41-43`). -/
def Vectors.bootIdt (v : Vectors) (k : Linkage) (idt : Nat → Desc) : Nat → Desc :=
  hdInitGate v.hd (schedInitGates v.timer k.systemCall (trapInit v.idtPtrs v.pageFault (setupIdt v.ignoreInt idt)))

/-- A disk interrupt finds that a read waits for it, with room in the log, and with a buffer that is
no word that is fixed or saved and not on the kernel stack. -/
structure Vectors.Armed (v : Vectors) (c : Machine) : Prop where
  doHd : (v.disk c).doHd = some .readIntr
  running : ¬ (v.disk c).stopped
  room : (v.report c).Room
  buffer : ∀ j < 512, ∀ z, z = ((v.disk c).current.buffer + BitVec.ofNat 32 j).toNat / 4 →
    ¬ c.sys.Fixed z ∧ ¬ c.sys.Saved z ∧
      ¬ (c.sys.current.toNat / 4 + taskWords ≤ z ∧ z < c.sys.current.toNat / 4 + 1024)

/-- So it is in every state that can be reached from `p0`. -/
def Vectors.DriverOk (v : Vectors) (up : Machine → BitVec 16) (p0 : Core) : Prop :=
  ∀ p, ReflTransGen (CoreStep up) p0 p → v.Armed p.cpu

end MockOs.Kernel
