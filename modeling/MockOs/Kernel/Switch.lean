import MockOs.Kernel.Descriptor
import MockOs.Kernel.SysCall
import MockOs.Misc.Run

/-!
# Task switches (`switch_to`, `include/linux/sched.h`)

`switch_to` ends in a far jump to the TSS of another task: the processor stores its registers in
the TSS that the task register names and loads them from the one it jumps to. The processor caches
the descriptor that the task register names; here it is read again from `gdt`. The coprocessor is
left out, with it the comparison behind the jump, and so are the checks on the segment registers
that are loaded.

`switch_to` has no `cli`, and not all of its callers have interrupts off. A timer interrupt between
the exchange of `current` and the far jump calls `schedule` with a `current` that is not the task
that runs. The runs here are those in which no interrupt comes at that place. A `fork` and the
answer to a write fault are one step each too, and find the pages they need.
-/

namespace MockOs.Kernel

open Mm

/-- The registers that a task switch stores and loads (`sched.h:103-113`). -/
@[ext]
structure Context where
  eip : BitVec 32
  eflags : BitVec 32
  eax : BitVec 32
  ecx : BitVec 32
  edx : BitVec 32
  ebx : BitVec 32
  esp : BitVec 32
  ebp : BitVec 32
  esi : BitVec 32
  edi : BitVec 32
  es : BitVec 16
  cs : BitVec 16
  ss : BitVec 16
  ds : BitVec 16
  fs : BitVec 16
  gs : BitVec 16

namespace Context

/-- The words of the TSS from `eip` on. A segment register is the lower half of its word. -/
def words (up : BitVec 16) (r : Context) : List (BitVec 32) :=
  [r.eip, r.eflags, r.eax, r.ecx, r.edx, r.ebx, r.esp, r.ebp, r.esi, r.edi,
    up ++ r.es, up ++ r.cs, up ++ r.ss, up ++ r.ds, up ++ r.fs, up ++ r.gs]

/-- What is loaded from the TSS at an address. -/
def ofTss (m : Memory) (a : BitVec 32) : Context where
  eip := m.read (a + 32)
  eflags := m.read (a + 36)
  eax := m.read (a + 40)
  ecx := m.read (a + 44)
  edx := m.read (a + 48)
  ebx := m.read (a + 52)
  esp := m.read (a + 56)
  ebp := m.read (a + 60)
  esi := m.read (a + 64)
  edi := m.read (a + 68)
  es := (m.read (a + 72)).setWidth 16
  cs := (m.read (a + 76)).setWidth 16
  ss := (m.read (a + 80)).setWidth 16
  ds := (m.read (a + 84)).setWidth 16
  fs := (m.read (a + 88)).setWidth 16
  gs := (m.read (a + 92)).setWidth 16

end Context

/-- The registers that `copy_process` puts into the TSS of the child (`fork.c:75-92`). -/
def Regs.child (r : Regs) : Context where
  eip := r.eip
  eflags := r.eflags
  eax := 0
  ecx := r.ecx
  edx := r.edx
  ebx := r.ebx
  esp := r.esp
  ebp := r.ebp
  esi := r.esi
  edi := r.edi
  es := r.es.setWidth 16
  cs := r.cs.setWidth 16
  ss := r.ss.setWidth 16
  ds := r.ds.setWidth 16
  fs := r.fs.setWidth 16
  gs := r.gs.setWidth 16

/-- The registers of the machine. -/
def Machine.context (c : Machine) : Context where
  eip := c.eip
  eflags := c.eflags
  eax := c.eax
  ecx := c.ecx
  edx := c.edx
  ebx := c.ebx
  esp := c.esp
  ebp := c.ebp
  esi := c.esi
  edi := c.edi
  es := c.es
  cs := c.cs
  ss := c.ss
  ds := c.ds
  fs := c.fs
  gs := c.gs

/-- A machine with these registers. -/
def Context.machine (r : Context) (s : ForkSys) : Machine where
  eip := r.eip
  eflags := r.eflags
  eax := r.eax
  ecx := r.ecx
  edx := r.edx
  ebx := r.ebx
  esp := r.esp
  ebp := r.ebp
  esi := r.esi
  edi := r.edi
  es := r.es
  cs := r.cs
  ss := r.ss
  ds := r.ds
  fs := r.fs
  gs := r.gs
  sys := s

/-- The machine with the other registers that a task switch loads. -/
structure Core where
  cpu : Machine
  tr : BitVec 16
  ldtr : BitVec 16
  cr3 : BitVec 32

/-- Words stored one after the other. -/
def storeList : List (BitVec 32) → BitVec 32 → Memory → Memory
  | [], _, m => m
  | v :: vs, a, m => storeList vs (a + 4) (m.write a v)

/-- The bit that the processor sets in the descriptor of the TSS in use. -/
def Desc.setBusy (d : Desc) : Desc := { d with b := d.b ||| 0x200 }
def Desc.clearBusy (d : Desc) : Desc := { d with b := d.b &&& ~~~0x200 }

/-- `_TSS(n)` and `_LDT(n)` (`sched.h:289-292`). -/
def tssSelectorOf (n : Nat) : BitVec 16 := BitVec.ofNat 16 (16 * n + 32)
def ldtSelectorOf (n : Nat) : BitVec 16 := BitVec.ofNat 16 (16 * n + 40)

namespace Core

/-- A far jump to the TSS with selector `sel`. Its descriptor has to be that of a TSS in memory
that is not in use, 104 bytes long at least, and the LDT that the TSS names has to be one. What
is in the upper halves of the words of the segment registers is `up`. -/
def farJump (up : Machine → BitVec 16) (sel : BitVec 16) (p : Core) : Option Core :=
  let s := p.cpu.sys
  let old := s.gdt (p.tr.toNat / 8)
  let new := s.gdt (sel.toNat / 8)
  if new.decode.type ≠ 0x89 ∨ new.decode.limit.toNat < 103 then none
  else
    let mm := storeList (p.cpu.context.words (up p.cpu)) (getBase old + 32) s.mm
    let gdt := Function.update s.gdt (p.tr.toNat / 8) old.clearBusy
    let gdt := Function.update gdt (sel.toNat / 8) new.setBusy
    let ldtr := (mm.read (getBase new + 96)).setWidth 16
    if (gdt (ldtr.toNat / 8)).decode.type ≠ 0x82 then none
    else some {
      cpu := (Context.ofTss mm (getBase new)).machine { s with mm, gdt }
      tr := sel
      ldtr
      cr3 := mm.read (getBase new + 28) }

/-- `switch_to(n)` (`sched.h:308-325`), up to the far jump if there is one, with no interrupt on the
way; `after` is the address of the instruction behind it. -/
def switchTo (up : Machine → BitVec 16) (after : BitVec 32) (n : Nat) (p : Core) : Option Core :=
  let c := { p.cpu with ecx := p.cpu.sys.task n, edx := BitVec.ofNat 32 (16 * n + 32) }
  if c.ecx = c.sys.current then some { p with cpu := c }
  else
    let c := { c with ecx := c.sys.current, sys := { c.sys with current := c.ecx }, eip := after }
    farJump up (c.edx.setWidth 16) { p with cpu := c }

/-- The registers of a task behind the far jump of its `switch_to(n)`. -/
def leaving (after : BitVec 32) (n : Nat) (p : Core) : Context :=
  { p.cpu.context with eip := after, ecx := p.cpu.sys.current, edx := BitVec.ofNat 32 (16 * n + 32) }

end Core

/-! ## What happens between the switches -/

/-- The words that only `fork` and page faults write: the directory and the page tables, and of a
`task_struct` the links, the files, the segments and the stack in kernel mode. -/
def ForkSys.Fixed (s : ForkSys) (z : Nat) : Prop :=
  z < 5120 ∨ (∃ d < 1024, z / 1024 = (s.mm.word d).toNat / 4096) ∨
    ∃ t j, s.Live t ∧ (175 ≤ j ∧ j < 179 ∨ 205 ≤ j ∧ j < 239) ∧ z = (s.task t).toNat / 4 + j

/-- The words of a suspended task, and of every task those that only task switches and `fork`
write: the registers in the TSS, and the stack in kernel mode. -/
def ForkSys.Saved (s : ForkSys) (z : Nat) : Prop :=
  ∃ t j, s.Live t ∧ (243 ≤ j ∧ j < 261 ∨ s.task t ≠ s.current ∧ 289 ≤ j ∧ j < 1024) ∧
    z = (s.task t).toNat / 4 + j

/-- A step of the processor: the running task computes, in user mode or in the kernel, and stores
to no word that is fixed or saved; a write fault is answered, with a page that is free or that has
no other user; the running task calls `fork`, with pages for the child if there is a slot; or the
kernel switches to a task. No interrupt comes inside a step. -/
inductive CoreStep (up : Machine → BitVec 16) (p : Core) : Core → Prop
  | work (c : Machine) : c.sys.current = p.cpu.sys.current → c.sys.task = p.cpu.sys.task →
      c.sys.lastPid = p.cpu.sys.lastPid → c.sys.lastTaskUsedMath = p.cpu.sys.lastTaskUsedMath →
      c.sys.gdt = p.cpu.sys.gdt → c.sys.mm.memMap = p.cpu.sys.mm.memMap →
      (∀ z, p.cpu.sys.Fixed z ∨ p.cpu.sys.Saved z → c.sys.mm.word z = p.cpu.sys.mm.word z) →
      CoreStep up p { p with cpu := c }
  | fault (address : BitVec 32) : p.cpu.sys.mm.freePages.Nonempty ∨ SolePage address p.cpu.sys.mm →
      CoreStep up p
        { p with cpu := { p.cpu with sys := { p.cpu.sys with mm := doWpPage address p.cpu.sys.mm } } }
  | fork (t : Nat) (r : Regs) (c : Machine) : p.cpu.sys.current = p.cpu.sys.task t →
      ForkCall (t, r) p.cpu.sys c.sys → (p.cpu.sys.FreeSlot → 3 ≤ p.cpu.sys.mm.freePages.card) →
      CoreStep up p { p with cpu := c }
  | switch (after : BitVec 32) (n : Nat) (p' : Core) : p.cpu.sys.Live n → p.switchTo up after n = some p' →
      CoreStep up p p'

/-- Task `t` does not have the processor. -/
def Core.Away (t : Nat) (p : Core) : Prop := p.cpu.sys.current ≠ p.cpu.sys.task t

/-- Task `n` has the processor: the registers that name the task that runs name it, and of all TSS
descriptors of tasks its own is that of the TSS in use. -/
structure Core.Runs (p : Core) (n : Nat) : Prop where
  live : p.cpu.sys.Live n
  current : p.cpu.sys.current = p.cpu.sys.task n
  tr : p.tr = tssSelectorOf n
  ldtr : p.ldtr = ldtSelectorOf n
  cr3 : p.cr3 = 0
  busy : ∀ i, p.cpu.sys.Live i → (p.cpu.sys.gdt (2 * i + 4)).decode.type = if i = n then 0x8b else 0x89

/-- Only the words of the kernel stack below ESP have changed. -/
structure Machine.Below (c c' : Machine) : Prop where
  rest : c'.sys = { c.sys with mm := c'.sys.mm }
  map : c'.sys.mm.memMap = c.sys.mm.memMap
  word : ∀ z, ¬ (c.sys.current.toNat / 4 + taskWords ≤ z ∧ z < c.sys.current.toNat / 4 + 1024 ∧
    4 * z < c.esp.toNat) → c'.sys.mm.word z = c.sys.mm.word z

/-- How task `t` gets the processor back, from its call of `schedule` in `p` to `p'`: `switch_to`
leaves it for another task, the processor goes on without it as long as it likes, and a
`switch_to` of the task that then runs comes back to it. -/
def Core.Returns (up : Machine → BitVec 16) (t : Nat) (p p' : Core) : Prop :=
  ∃ (c : Machine) (after after' : BitVec 32) (n : Nat) (p1 q : Core), p.cpu.Below c ∧ p.cpu.sys.Live n ∧ n ≠ t ∧
    Core.switchTo up after n { p with cpu := c } = some p1 ∧ Run.RunWhile (CoreStep up) (Core.Away t) p1 q ∧
    q.switchTo up after' t = some p'

/-- The system as a task finds it is what such a return leaves, in every state that can be reached
from `p0`. -/
def Linkage.Switches (k : Linkage) (up : Machine → BitVec 16) (p0 : Core) : Prop :=
  ∀ p t, Relation.ReflTransGen (CoreStep up) p0 p → p.Runs t → Machine.otherRuns p.cpu.sys →
    ∃ p', Core.Returns up t p p' ∧ k.away p.cpu = p'.cpu.sys

/-- The processor after `ltr(0)` and `lldt(0)` (`sched.c:93-94`), with whatever registers. -/
def Boot.loaded (b : Boot) (r : Context) : Core where
  cpu := r.machine { b.start with gdt := Function.update b.start.gdt 4 (b.start.gdt 4).setBusy }
  tr := tssSelectorOf 0
  ldtr := ldtSelectorOf 0
  cr3 := 0

end MockOs.Kernel
