import MockOs.Mm.Memory

/-!
# fork (`kernel/fork.c`, `sys_fork` of `kernel/sys_call.s`)

A `task_struct` is read and written in memory, at the offsets the compiler gives its fields
on i386, so that a page used twice shows in the model. The other variables of the kernel
(`task[]`, `gdt`, `last_pid`, ...) are outside of the memory.
-/

namespace MockOs.Kernel

open Mm

/-- `struct desc_struct` (`include/linux/head.h:5-7`). -/
@[ext]
structure Desc where
  a : BitVec 32
  b : BitVec 32
  deriving DecidableEq

/-- `get_base` (`kernel/sched.c:57-62`). -/
def getBase (d : Desc) : BitVec 32 :=
  (d.a >>> 16) ||| ((d.b &&& 0xff) <<< 16) ||| (d.b &&& 0xff000000)

/-- `set_base` (`kernel/sched.c:64-70`). -/
def setBase (d : Desc) (base : BitVec 32) : Desc :=
  let a := (d.a &&& 0x0000ffff) ||| ((base &&& 0xffff) <<< 16)
  let b := (d.b &&& 0xffffff00) ||| ((base &&& 0xff0000) >>> 16)
  ⟨a, (b &&& 0x00ffffff) ||| (base &&& 0xff000000)⟩

/-- What `lsll` followed by `incl` finds for a descriptor (`get_limit`,
`include/linux/sched.h:346-352`). -/
def limitOf (d : Desc) : BitVec 32 :=
  let limit := (d.a &&& 0xffff) ||| (d.b &&& 0xf0000)
  (if d.b &&& 0x800000 = 0 then limit else (limit <<< 12) ||| 0xfff) + 1

/-- `_set_tssldt_desc(n, addr, type)` (`include/asm/system.h:71-83`): all eight bytes are
written. -/
def setTssldtDesc (addr type : BitVec 32) : Desc :=
  ⟨104 ||| (addr <<< 16), ((addr >>> 16) &&& 0xff) ||| (type <<< 8) ||| (addr &&& 0xff000000)⟩

/-! ## Offsets in `struct task_struct` (`include/linux/sched.h:121-189`) -/

namespace Off

def state : BitVec 32 := 0
def counter : BitVec 32 := 4
def priority : BitVec 32 := 8
def signal : BitVec 32 := 12
def startCode : BitVec 32 := 536
def pid : BitVec 32 := 556
def pgrp : BitVec 32 := 560
def leader : BitVec 32 := 568
def pPptr : BitVec 32 := 700
def pCptr : BitVec 32 := 704
def pYsptr : BitVec 32 := 708
def pOsptr : BitVec 32 := 712
def alarm : BitVec 32 := 732
def utime : BitVec 32 := 736
def stime : BitVec 32 := 740
def cutime : BitVec 32 := 744
def cstime : BitVec 32 := 748
def startTime : BitVec 32 := 752
def pwd : BitVec 32 := 820
def root : BitVec 32 := 824
def executable : BitVec 32 := 828
def library : BitVec 32 := 832
def filp : BitVec 32 := 840
def ldt : BitVec 32 := 920
def tss : BitVec 32 := 944

end Off

/-! ## Offsets of the fields of `tss` (`include/linux/sched.h:82-119`) in the `task_struct` -/

namespace Tss

def backLink : BitVec 32 := 944
def esp0 : BitVec 32 := 948
def ss0 : BitVec 32 := 952
def eip : BitVec 32 := 976
def eflags : BitVec 32 := 980
def eax : BitVec 32 := 984
def ecx : BitVec 32 := 988
def edx : BitVec 32 := 992
def ebx : BitVec 32 := 996
def esp : BitVec 32 := 1000
def ebp : BitVec 32 := 1004
def esi : BitVec 32 := 1008
def edi : BitVec 32 := 1012
def es : BitVec 32 := 1016
def cs : BitVec 32 := 1020
def ss : BitVec 32 := 1024
def ds : BitVec 32 := 1028
def fs : BitVec 32 := 1032
def gs : BitVec 32 := 1036
def ldt : BitVec 32 := 1040
def traceBitmap : BitVec 32 := 1044
def i387 : BitVec 32 := 1048

end Tss

/-- `sizeof(struct task_struct)` in words. -/
def taskWords : Nat := 289

/-- `NR_TASKS`, `NR_OPEN`, `TASK_SIZE`, `EAGAIN`. -/
def nrTasks : Nat := 64
def nrOpen : Nat := 20
def taskSize : BitVec 32 := 0x04000000
def eagain : BitVec 32 := 11

/-- `TASK_RUNNING` and `TASK_UNINTERRUPTIBLE` (`include/linux/sched.h:48-50`). -/
def taskRunning : BitVec 32 := 0
def taskUninterruptible : BitVec 32 := 2

/-- Memory and the variables of the kernel that `fork` uses; `fpu` is what `fnsave` stores. -/
structure ForkSys where
  mm : Memory
  task : Nat → BitVec 32
  current : BitVec 32
  lastPid : BitVec 32
  jiffies : BitVec 32
  lastTaskUsedMath : BitVec 32
  gdt : Nat → Desc
  fpu : Nat → BitVec 32

/-- The user registers on the kernel stack in `sys_fork`. -/
structure Regs where
  ebx : BitVec 32
  ecx : BitVec 32
  edx : BitVec 32
  esi : BitVec 32
  edi : BitVec 32
  ebp : BitVec 32
  esp : BitVec 32
  eip : BitVec 32
  eflags : BitVec 32
  cs : BitVec 32
  ss : BitVec 32
  ds : BitVec 32
  es : BitVec 32
  fs : BitVec 32
  gs : BitVec 32

namespace ForkSys

/-- A field of the structure at `p`. -/
def get (s : ForkSys) (p off : BitVec 32) : BitVec 32 := s.mm.read (p + off)

def set (s : ForkSys) (p off v : BitVec 32) : ForkSys := { s with mm := s.mm.write (p + off) v }

/-- The descriptor in memory at an address. -/
def getDesc (s : ForkSys) (p : BitVec 32) : Desc := ⟨s.mm.read p, s.mm.read (p + 4)⟩

def setDesc (s : ForkSys) (p : BitVec 32) (d : Desc) : ForkSys := (s.set p 0 d.a).set p 4 d.b

/-- Entry `i` of the local descriptor table of the task at `p`. -/
def ldtEntry (p : BitVec 32) (i : Nat) : BitVec 32 := p + Off.ldt + BitVec.ofNat 32 (8 * i)

/-- `get_limit(segment)` for a selector of the current local descriptor table. -/
def getLimit (s : ForkSys) (segment : Nat) : BitVec 32 :=
  limitOf (s.getDesc (ldtEntry s.current (segment / 8)))

/-- Adds one to the `unsigned short` at an address. -/
def incShort (s : ForkSys) (a : BitVec 32) : ForkSys :=
  let w := s.mm.read a
  let w := if a.toNat % 4 < 2 then (w &&& 0xffff0000) ||| ((w + 1) &&& 0xffff) else w + 0x10000
  { s with mm := s.mm.write a w }

/-- The new base address in the structure at `p` (`fork.c:29-32`). -/
def setBases (newBase p : BitVec 32) (s : ForkSys) : ForkSys :=
  let s := s.set p Off.startCode newBase
  let s := s.setDesc (ldtEntry p 1) (setBase (s.getDesc (ldtEntry p 1)) newBase)
  s.setDesc (ldtEntry p 2) (setBase (s.getDesc (ldtEntry p 2)) newBase)

/-- `copy_mem(nr, p)` (`fork.c:14-35`). -/
def copyMem (nr : Nat) (p : BitVec 32) (s : ForkSys) : Except Halt (ForkSys × BitVec 32) := do
  let codeLimit := s.getLimit 0x0f
  let dataLimit := s.getLimit 0x17
  let oldCodeBase := getBase (s.getDesc (ldtEntry s.current 1))
  let oldDataBase := getBase (s.getDesc (ldtEntry s.current 2))
  if oldDataBase ≠ oldCodeBase then throw (.panic "We don't support separate I&D")
  if dataLimit < codeLimit then throw (.panic "Bad data_limit")
  let newBase := BitVec.ofNat 32 nr * taskSize
  let s := s.setBases newBase p
  let (mm, _) ← copyPageTables oldDataBase newBase dataLimit s.mm
  return ({ s with mm }, 0)

/-- The loop over the open files of `copy_process` (`fork.c:108-112`), from file `i` on. -/
def countFiles (p : BitVec 32) : Nat → Nat → ForkSys → ForkSys
  | 0, _, s => s
  | n + 1, i, s =>
    let f := s.get p (Off.filp + BitVec.ofNat 32 (4 * i))
    countFiles p n (i + 1) (if f ≠ 0 then s.incShort (f + 4) else s)

/-- `if (current->f) current->f->i_count++`, for the field at `off` (`fork.c:113-124`). -/
def countInode (off : BitVec 32) (s : ForkSys) : ForkSys :=
  if s.get s.current off ≠ 0 then s.incShort (s.get s.current off + 52) else s

/-- Storing words one after the other. -/
def storeWords (f : Nat → BitVec 32) : Nat → Nat → BitVec 32 → Memory → Memory
  | 0, _, _, s => s
  | n + 1, i, a, s => storeWords f n (i + 1) (a + 4) (s.write a (f i))

/-- Sets fields of the structure at `p` one after the other. -/
def setFields (p : BitVec 32) (fs : List (BitVec 32 × BitVec 32)) (s : ForkSys) : ForkSys :=
  fs.foldl (fun s f => s.set p f.1 f.2) s

/-- The fields of the new `task_struct` that `copy_process` sets (`fork.c:59-91`). -/
def childFields (nr : Nat) (r : Regs) (p : BitVec 32) (s : ForkSys) : List (BitVec 32 × BitVec 32) :=
  [(Off.state, taskUninterruptible), (Off.pid, s.lastPid), (Off.counter, s.get p Off.priority),
    (Off.signal, 0), (Off.alarm, 0), (Off.leader, 0), (Off.stime, 0), (Off.utime, 0),
    (Off.cstime, 0), (Off.cutime, 0), (Off.startTime, s.jiffies),
    (Tss.backLink, 0), (Tss.esp0, 4096 + p), (Tss.ss0, 0x10), (Tss.eip, r.eip),
    (Tss.eflags, r.eflags), (Tss.eax, 0), (Tss.ecx, r.ecx), (Tss.edx, r.edx), (Tss.ebx, r.ebx),
    (Tss.esp, r.esp), (Tss.ebp, r.ebp), (Tss.esi, r.esi), (Tss.edi, r.edi),
    (Tss.es, r.es &&& 0xffff), (Tss.cs, r.cs &&& 0xffff), (Tss.ss, r.ss &&& 0xffff),
    (Tss.ds, r.ds &&& 0xffff), (Tss.fs, r.fs &&& 0xffff), (Tss.gs, r.gs &&& 0xffff),
    (Tss.ldt, BitVec.ofNat 32 (16 * nr + 40)), (Tss.traceBitmap, 0x80000000)]

/-- The new `task_struct` (`fork.c:55-96`): a copy of the current one, with the fields above
set and the state of the coprocessor saved in it. -/
def initChild (nr : Nat) (r : Regs) (p : BitVec 32) (s : ForkSys) : ForkSys :=
  let s := { s with mm := movsl taskWords s.current p s.mm }
  let s := s.setFields p (s.childFields nr r p)
  if s.lastTaskUsedMath = s.current then
    { s with mm := storeWords s.fpu 27 0 (p + Tss.i387) s.mm }
  else s

/-- The links of the new process (`fork.c:131-138`). -/
def linkProcess (p : BitVec 32) (s : ForkSys) : ForkSys :=
  let s := s.set p Off.pPptr s.current
  let s := s.set p Off.pCptr 0
  let s := s.set p Off.pYsptr 0
  let s := s.set p Off.pOsptr (s.get s.current Off.pCptr)
  let s := if s.get p Off.pOsptr ≠ 0 then s.set (s.get p Off.pOsptr) Off.pYsptr p else s
  s.set s.current Off.pCptr p

/-- The linear address of the page of the child's stack (`fork.c:103-105`); `esp` is signed. -/
def stackAddress (esp newDataBase : BitVec 32) : BitVec 32 :=
  (esp + 4095).sdiv 4096 * 4096 + newDataBase - 4096

/-- `copy_process` after `copy_mem` (`fork.c:103-140`): the page of the stack, the counts, the
descriptors of the task and the links. -/
def finishChild (nr : Nat) (esp p : BitVec 32) (s : ForkSys) : ForkSys :=
  let newDataBase := getBase (s.getDesc (ldtEntry p 2))
  let s := { s with mm := unWpPage (lin2phy (stackAddress esp newDataBase) s.mm) s.mm }
  let s := s.countFiles p nrOpen 0
  let s := s.countInode Off.pwd
  let s := s.countInode Off.root
  let s := s.countInode Off.executable
  let s := s.countInode Off.library
  let gdt := Function.update s.gdt (2 * nr + 4) (setTssldtDesc (p + Off.tss) 0x89)
  let s := { s with gdt := Function.update gdt (2 * nr + 5) (setTssldtDesc (p + Off.ldt) 0x82) }
  let s := s.linkProcess p
  s.set p Off.state taskRunning

/-- `copy_process(nr, ...)` (`fork.c:37-143`). -/
def copyProcess (nr : Nat) (r : Regs) (s : ForkSys) : Except Halt (ForkSys × BitVec 32) := do
  let (mm, p) := getFreePage s.mm
  let s := { s with mm }
  if p = 0 then return (s, -eagain)
  let s := { s with task := Function.update s.task nr p }
  let s := s.initChild nr r p
  let (s, err) ← s.copyMem nr p
  if err ≠ 0 then return (s, -eagain)
  let s := s.finishChild nr r.esp p
  return (s, s.lastPid)

/-- Whether a task has `pid` as its `pid` or its `pgrp` (`fork.c:158-164`). -/
def pidTaken (s : ForkSys) (pid : BitVec 32) : Bool :=
  (List.range nrTasks).any fun i => s.task i ≠ 0 &&
    (s.get (s.task i) Off.pid = pid || s.get (s.task i) Off.pgrp = pid)

/-- `++last_pid` with its wrap (`fork.c:155-157`). -/
def nextPid (pid : BitVec 32) : BitVec 32 := if (pid + 1).slt 0 then 1 else pid + 1

/-- The `repeat` loop of `find_empty_process` (`fork.c:154-164`), at most `n` times. -/
def searchPid : Nat → ForkSys → Option ForkSys
  | 0, _ => none
  | n + 1, s =>
    let s := { s with lastPid := nextPid s.lastPid }
    if s.pidTaken s.lastPid then searchPid n s else some s

/-- The first empty slot of `task[]` (`fork.c:165-170`). -/
def emptySlot (s : ForkSys) : BitVec 32 :=
  match (List.range' 1 (nrTasks - 1)).find? fun i => s.task i = 0 with
  | some i => BitVec.ofNat 32 i
  | none => -eagain

/-- `find_empty_process()` (`fork.c:151-171`). Two numbers for each task can be taken, so one
more than that many tries are enough. -/
def findEmptyProcess (s : ForkSys) : Except Halt (ForkSys × BitVec 32) :=
  match s.searchPid (2 * nrTasks + 1) with
  | none => .error .loop
  | some s => .ok (s, s.emptySlot)

/-- `sys_fork` (`sys_call.s:192-204`). -/
def sysFork (r : Regs) (s : ForkSys) : Except Halt (ForkSys × BitVec 32) := do
  let (s, nr) ← s.findEmptyProcess
  if nr.slt 0 then return (s, nr)
  s.copyProcess nr.toNat r

end ForkSys

/-! ## The state at boot -/

/-- `INIT_TASK` (`include/linux/sched.h:203-256`) as words, for the task at `init`. -/
def initTask (init : BitVec 32) (i : Nat) : BitVec 32 :=
  match 4 * i with
  | 4 => 15
  | 8 => 15
  | 572 => 0xffffffff
  | 700 => init
  | 756 | 760 | 764 | 768 | 772 | 776 | 780 | 784 | 788 | 792 | 796 | 800 => 0x7fffffff
  | 812 => 0xffffffff
  | 816 => 0o22
  | 928 => 0x9f
  | 932 => 0xc0fa00
  | 936 => 0x9f
  | 940 => 0xc0f200
  | 948 => 4096 + init
  | 952 => 0x10
  | 1016 | 1020 | 1024 | 1028 | 1032 | 1036 => 0x17
  | 1040 => 40
  | 1044 => 0x80000000
  | _ => 0

/-- What the boot loader leaves: the word where `init_task` is linked, below 640 KB, and the
rest of memory, of the descriptor table and of the coprocessor, which can be anything. -/
structure Boot where
  init : Nat
  low : 5120 ≤ init
  high : init + 1024 ≤ 163840
  mm : Memory
  gdt : Nat → Desc
  fpu : Nat → BitVec 32

namespace Boot

/-- The address of `init_task`. -/
def initAddr (b : Boot) : BitVec 32 := BitVec.ofNat 32 (4 * b.init)

/-- Memory with `init_task` in its place. -/
def image (b : Boot) : Memory :=
  { b.mm with word := fun x =>
      if b.init ≤ x ∧ x < b.init + taskWords then initTask b.initAddr (x - b.init) else b.mm.word x }

/-- The variables as they are linked: `task[]` holds `init_task` only. -/
def linked (b : Boot) (mm : Memory) : ForkSys :=
  { mm, task := fun i => if i = 0 then b.initAddr else 0, current := b.initAddr, lastPid := 0,
    jiffies := 0, lastTaskUsedMath := 0, gdt := b.gdt, fpu := b.fpu }

/-- The part of `sched_init` (`kernel/sched.c:81-90`) that sets up `task[]` and `gdt`. -/
def schedInit (b : Boot) (s : ForkSys) : ForkSys :=
  { s with
    gdt := fun i =>
      if i = 4 then setTssldtDesc (b.initAddr + Off.tss) 0x89
      else if i = 5 then setTssldtDesc (b.initAddr + Off.ldt) 0x82
      else if 6 ≤ i ∧ i < 4 + 2 * nrTasks then ⟨0, 0⟩ else s.gdt i
    task := fun i => if 1 ≤ i ∧ i < nrTasks then 0 else s.task i }

/-- The system when `main` (`init/main.c:30-41`) enters user mode: `setup_paging`,
`mem_init(4 MB, 16 MB)` and `sched_init` have run. -/
def start (b : Boot) : ForkSys :=
  b.schedInit (b.linked (memInit 0x400000 0x1000000 (setupPaging b.image)))

end Boot

end MockOs.Kernel
