import MockOs.Kernel.User

/-!
# System calls (`kernel/sys_call.s`)

`system_call`, `sys_fork` and `ret_from_sys_call`, one instruction at a time, with the kernel
stack in the memory of `ForkSys`: it is the rest of the page that the `task_struct` begins. Of
the flags only EFLAGS as a whole is kept; a comparison is taken together with the jump behind
it. The timer interrupt, which restores all it changes, is left out.
-/

namespace MockOs.Kernel

open Mm

/-- `blocked` of `struct task_struct` (`sys_call.s:80`). -/
def Off.blocked : BitVec 32 := 528

/-- The registers of the processor and the system. -/
structure Machine where
  eax : BitVec 32
  ebx : BitVec 32
  ecx : BitVec 32
  edx : BitVec 32
  esi : BitVec 32
  edi : BitVec 32
  ebp : BitVec 32
  esp : BitVec 32
  eip : BitVec 32
  eflags : BitVec 32
  cs : BitVec 16
  ss : BitVec 16
  ds : BitVec 16
  es : BitVec 16
  fs : BitVec 16
  gs : BitVec 16
  sys : ForkSys

/-- Why the machine does not get on: the kernel has halted, or a `ret` does not lead back to its
`call`. -/
inductive Trap where
  | halt (h : Halt)
  | stray

/-- What the assembly does not say: the addresses of the code, the upper half of the slot of a
segment register, the values that C functions leave in the registers they need not keep and in
the stack below them, the other system calls, and the system as a task that has called `schedule`
finds it when it gets the processor back. -/
structure Linkage where
  systemCall : BitVec 32
  afterCall : BitVec 32
  afterFind : BitVec 32
  afterCopy : BitVec 32
  retFromSysCall : BitVec 32
  upper : Machine → BitVec 16
  eax : Machine → BitVec 32
  ecx : Machine → BitVec 32
  edx : Machine → BitVec 32
  scratch : Machine → Nat → BitVec 32
  others : BitVec 32 → Machine → Except Trap Machine
  away : Machine → ForkSys

namespace Machine

/-! ## Instructions -/

def push (v : BitVec 32) (c : Machine) : Machine :=
  { c with esp := c.esp - 4, sys := { c.sys with mm := c.sys.mm.write (c.esp - 4) v } }

/-- `push` of a segment register: the slot has 32 bits and the register 16. -/
def pushSeg (k : Linkage) (v : BitVec 16) (c : Machine) : Machine := c.push (k.upper c ++ v)

/-- The word `off` bytes above the top of the stack. -/
def slot (c : Machine) (off : BitVec 32) : BitVec 32 := c.sys.mm.read (c.esp + off)

/-- The stack without its first `n` bytes. -/
def drop (n : BitVec 32) (c : Machine) : Machine := { c with esp := c.esp + n }

/-- `pop` into the register that `set` sets. -/
def pop (set : Machine → BitVec 32 → Machine) (c : Machine) : Machine := set (c.drop 4) (c.slot 0)

def ret (c : Machine) : Machine := c.pop fun c v => { c with eip := v }

/-- `call f`, where `after` is the address behind it. -/
def call (after : BitVec 32) (f : Machine → Except Trap Machine) (c : Machine) : Except Trap Machine := do
  let c ← f (c.push after)
  if c.eip = after then return c else throw .stray

/-- `int $0x80` through the gate of `sched_init` (`sched.c:101`), a trap gate to the kernel's code
segment. From user mode the processor takes the stack from the TSS of the task. -/
def int80 (k : Linkage) (u : Machine) : Machine :=
  let c :=
    if u.cs &&& 3 = 0 then u
    else
      let c := { u with
        ss := (u.sys.get u.sys.current Tss.ss0).setWidth 16
        esp := u.sys.get u.sys.current Tss.esp0 }
      (c.pushSeg k u.ss).push u.esp
  let c := c.push u.eflags
  let c := c.pushSeg k u.cs
  let c := c.push u.eip
  { c with cs := 0x08, eip := k.systemCall, eflags := u.eflags &&& ~~~0x34100 }

/-- `iret` in kernel mode: to user mode, with the stack pointer. -/
def iret (c : Machine) : Machine :=
  let d := { c with
    eip := c.slot 0
    cs := (c.slot 4).setWidth 16
    eflags := c.slot 8
    esp := c.esp + 12 }
  if d.cs &&& 3 = 0 then d else { d with esp := c.slot 12, ss := (c.slot 16).setWidth 16 }

/-- `bsfl`: the lowest bit that is set. -/
def bsf (w : BitVec 32) : Option (BitVec 32) :=
  ((List.range 32).find? fun i => w.getLsbD i).map (BitVec.ofNat 32)

/-! ## C functions -/

/-- What a C function leaves in the stack below `esp`: it does not get as far down as the
`task_struct`. -/
def scribble (k : Linkage) (c : Machine) (s : ForkSys) : ForkSys :=
  { s with mm := { s.mm with word := fun z =>
      if s.current.toNat / 4 + taskWords ≤ z ∧ 4 * z < c.esp.toNat then k.scratch c z else s.mm.word z } }

/-- A C function from its first instruction to its `ret`: EBX, ESI, EDI and EBP are kept, and so
are the parameters, as no function here assigns to one. -/
def cFunction (k : Linkage) (body : Machine → Except Halt (ForkSys × BitVec 32)) (c : Machine) :
    Except Trap Machine :=
  match body c with
  | .error h => .error (.halt h)
  | .ok (s, v) =>
    .ok { c with eax := v, ecx := k.ecx c, edx := k.edx c, sys := scribble k c s }.ret

/-- Parameter `i` of a C function, at its first instruction. -/
def arg (c : Machine) (i : Nat) : BitVec 32 := c.slot (BitVec.ofNat 32 (4 + 4 * i))

def findEmptyProcess (k : Linkage) : Machine → Except Trap Machine :=
  cFunction k fun c => c.sys.findEmptyProcess

/-- The parameters of `copy_process` (`fork.c:37-44`): `nr`, `ebp`, `edi`, `esi`, `gs`, `none`,
`ebx`, `ecx`, `edx`, `orig_eax`, `fs`, `es`, `ds`, `eip`, `cs`, `eflags`, `esp` and `ss`. -/
def regArgs (c : Machine) : Regs where
  ebp := c.arg 1
  edi := c.arg 2
  esi := c.arg 3
  gs := c.arg 4
  ebx := c.arg 6
  ecx := c.arg 7
  edx := c.arg 8
  fs := c.arg 10
  es := c.arg 11
  ds := c.arg 12
  eip := c.arg 13
  cs := c.arg 14
  eflags := c.arg 15
  esp := c.arg 16
  ss := c.arg 17

def copyProcess (k : Linkage) : Machine → Except Trap Machine :=
  cFunction k fun c => c.sys.copyProcess (c.arg 0).toNat c.regArgs

/-- Whether `schedule` finds another task to run (`sched.c:126-134`). -/
def otherRuns (s : ForkSys) : Bool :=
  (List.range nrTasks).any fun i =>
    s.task i ≠ 0 && s.task i ≠ s.current && s.get (s.task i) Off.state = taskRunning

/-- `schedule` (`sched.c:118-136`), as the task that calls it sees it: the far jump of `switch_to`
saves its registers and the far jump back restores them. -/
def schedule (k : Linkage) : Machine → Except Trap Machine :=
  cFunction k fun c => .ok (if otherRuns c.sys then k.away c else c.sys, k.eax c)

/-! ## `kernel/sys_call.s` -/

def cli (c : Machine) : Machine := { c with eflags := c.eflags &&& ~~~0x200 }

/-- The parameters that `sys_fork` pushes (`sys_call.s:197-201`). -/
def pushParams (k : Linkage) (c : Machine) : Machine :=
  let c := c.pushSeg k c.gs
  let c := c.push c.esi
  let c := c.push c.edi
  let c := c.push c.ebp
  c.push c.eax

/-- `sys_fork` (`sys_call.s:192-204`). -/
def sysFork (k : Linkage) (c : Machine) : Except Trap Machine := do
  let c ← c.cli.call k.afterFind (findEmptyProcess k)
  if c.eax.slt 0 then return c.ret
  let c ← (c.pushParams k).call k.afterCopy (copyProcess k)
  return (c.drop 20).ret

/-- `sys_call_table(,%eax,4)` (`include/linux/sys.h:104-127`), by the offset in the table. -/
def sysCallTable (k : Linkage) (off : BitVec 32) : Machine → Except Trap Machine :=
  if off = 8 then sysFork k else k.others off

/-- The registers that `system_call` pushes (`sys_call.s:109-115`). -/
def pushRegs (k : Linkage) (c : Machine) : Machine :=
  let c := c.pushSeg k c.ds
  let c := c.pushSeg k c.es
  let c := c.pushSeg k c.fs
  let c := c.push c.eax
  let c := c.push c.edx
  let c := c.push c.ecx
  c.push c.ebx

/-- The segments of the kernel (`sys_call.s:116-120`). -/
def kernelSegments (c : Machine) : Machine := { c with ds := 0x10, es := 0x10, fs := 0x17, edx := 0x17 }

/-- `system_call` up to the return of the system call (`sys_call.s:108-123`). -/
def systemCall (k : Linkage) (c : Machine) : Except Trap Machine :=
  let c := (c.pushRegs k).kernelSegments
  c.call k.afterCall (sysCallTable k (4 * c.eax))

/-- The signal with number `n` is taken off `signal`, and nothing is done about it
(`sys_call.s:145-150`). -/
def dropSignal (n : BitVec 32) (c : Machine) : Machine :=
  let c := { c with ecx := n, ebx := c.ebx &&& ~~~(1#32 <<< n) }
  let c := { c with sys := c.sys.set c.eax Off.signal c.ebx, ecx := c.ecx + 1 }
  let c := c.push c.ecx
  c.pop fun c v => { c with ecx := v }

/-- The signals of a task (`sys_call.s:132-150`). -/
def takeSignal (c : Machine) : Machine :=
  let c := { c with eax := c.sys.current }
  if c.eax = c.sys.task 0 then c
  else if (c.slot 0x24).setWidth 16 ≠ (0x0f : BitVec 16) then c
  else if (c.slot 0x30).setWidth 16 ≠ (0x17 : BitVec 16) then c
  else
    let c := { c with ebx := c.sys.get c.eax Off.signal, ecx := c.sys.get c.eax Off.blocked }
    let c := { c with ecx := ~~~c.ecx &&& c.ebx }
    match bsf c.ecx with
    | none => c
    | some n => c.dropSignal n

/-- `ret_from_sys_call` up to its `iret` (`sys_call.s:131-160`). -/
def retFromSysCall (c : Machine) : Machine :=
  let c := c.takeSignal
  let c := c.pop fun c v => { c with eax := v }
  let c := c.pop fun c v => { c with ebx := v }
  let c := c.pop fun c v => { c with ecx := v }
  let c := c.pop fun c v => { c with edx := v }
  let c := c.drop 4
  let c := c.pop fun c v => { c with fs := v.setWidth 16 }
  let c := c.pop fun c v => { c with es := v.setWidth 16 }
  c.pop fun c v => { c with ds := v.setWidth 16 }

/-- `system_call` from the return of the system call to the `iret` (`sys_call.s:124-160`);
`reschedule` makes `schedule` return to `ret_from_sys_call`. -/
def sysCallExit (k : Linkage) (c : Machine) : Except Trap Machine := do
  let c := c.push c.eax
  let c := { c with eax := c.sys.current }
  if c.sys.get c.eax Off.state ≠ 0 ∨ c.sys.get c.eax Off.counter = 0 then
    let c ← c.call k.retFromSysCall (schedule k)
    return c.retFromSysCall
  else return c.retFromSysCall

end Machine

/-! ## The states in which a task can call -/

/-- `find_empty_process` finds slot `nr`, and there are pages for the structure, the page table and
the page of the stack. -/
structure ForkSys.Available (s : ForkSys) (nr : Nat) : Prop where
  pos : 1 ≤ nr
  high : nr < nrTasks
  free : s.task nr = 0
  first : ∀ j, 1 ≤ j → j < nr → s.task j ≠ 0
  pages : 3 ≤ s.mm.freePages.card

/-- The TSS that `copy_process` gives the child in slot `nr` of the task with the registers of
`u`. -/
structure ChildTss (s : ForkSys) (nr : Nat) (u : Machine) : Prop where
  ebx : s.get (s.task nr) Tss.ebx = u.ebx
  ecx : s.get (s.task nr) Tss.ecx = u.ecx
  edx : s.get (s.task nr) Tss.edx = u.edx
  esi : s.get (s.task nr) Tss.esi = u.esi
  edi : s.get (s.task nr) Tss.edi = u.edi
  ebp : s.get (s.task nr) Tss.ebp = u.ebp
  esp : s.get (s.task nr) Tss.esp = u.esp
  eip : s.get (s.task nr) Tss.eip = u.eip
  eflags : s.get (s.task nr) Tss.eflags = u.eflags
  cs : s.get (s.task nr) Tss.cs = u.cs.setWidth 32
  ss : s.get (s.task nr) Tss.ss = u.ss.setWidth 32
  ds : s.get (s.task nr) Tss.ds = u.ds.setWidth 32
  es : s.get (s.task nr) Tss.es = u.es.setWidth 32
  fs : s.get (s.task nr) Tss.fs = u.fs.setWidth 32
  gs : s.get (s.task nr) Tss.gs = u.gs.setWidth 32
  eax : s.get (s.task nr) Tss.eax = 0
  ss0 : s.get (s.task nr) Tss.ss0 = 0x10
  esp0 : s.get (s.task nr) Tss.esp0 = s.task nr + 4096
  ldt : s.get (s.task nr) Tss.ldt = BitVec.ofNat 32 (16 * nr + 40)
  ownStack : ∀ j < nrTasks, j ≠ nr → s.task j ≠ 0 →
    (s.task j).toNat + 4096 ≤ (s.task nr).toNat ∨ (s.task nr).toNat + 4096 ≤ (s.task j).toNat

/-- A `fork` into slot `nr` returns twice: `int $0x80` comes back from `copy_process` with a child
whose TSS has the registers of the caller, and goes on to an `iret` that gives the caller its
registers back but for EAX, which has the process number of the child. -/
def Machine.ForksInto (k : Linkage) (nr : Nat) (u : Machine) : Prop :=
  ∃ c₁ c₂ : Machine, (u.int80 k).systemCall k = .ok c₁ ∧ ChildTss c₁.sys nr u ∧ c₁.sysCallExit k = .ok c₂ ∧
    c₂.esp + 20 = u.sys.get u.sys.current Tss.esp0 ∧
    c₂.iret = { u with eax := c₁.sys.get (c₁.sys.task nr) Off.pid, sys := c₂.sys }

end MockOs.Kernel
