import MockOs.Kernel.Log

/-!
# Reading from the disk (`kernel/blk_drv/hd.c`, `kernel/blk_drv/blk.h`, `kernel/idt.asm`)

A read is armed by storing a handler in `do_hd`; each disk interrupt takes the handler out and
calls it. Memory is what `rep insw` stores to; the driver's own variables are apart from it, and
of the log only the number of bytes in it is kept. The handlers run with interrupts off, so a
`printm` of theirs whose text does not fit the log does not return.
-/

namespace MockOs.Kernel

/-- The functions that `hd_interrupt` calls through a pointer. -/
inductive HdHandler where
  | readIntr
  | unexpectedHdInt
  deriving DecidableEq, Repr

/-- The fields of `struct request` (`blk.h:22-32`) that the driver uses. -/
structure Request where
  errors : BitVec 32
  sector : BitVec 32
  nrSectors : BitVec 32
  buffer : BitVec 32
  deriving DecidableEq

/-- The driver and what it writes to. `current` is `*CURRENT`, `out` the bytes written to ports,
`called` the handlers called so far. -/
structure HdSys where
  mem : BitVec 32 → BitVec 8
  current : Request
  doHd : Option HdHandler
  hdTimeout : BitVec 32
  out : List (BitVec 16 × BitVec 8)
  /-- After `cli; hlt`. -/
  halted : Bool
  /-- In a `printm` that does not return. -/
  hung : Bool
  called : List HdHandler

/-- What the controller answers during an interrupt, the status and error registers and the
words that reads of the data port return, and the limit of the log at that time. -/
structure HdIrq where
  status : BitVec 8
  error : BitVec 8
  data : Nat → BitVec 16
  limit : Nat

/-! ## `hd.c` -/

/-- The bits of `HD_STATUS` that `win_result` looks at (`hdreg.h:24-31`). -/
def errStat : BitVec 32 := 0x01
def seekStat : BitVec 32 := 0x10
def wrerrStat : BitVec 32 := 0x20
def readyStat : BitVec 32 := 0x40
def busyStat : BitVec 32 := 0x80

/-- `printm` with interrupts off, of a text without conversions. -/
def printm (text : String) (irq : HdIrq) (s : HdSys) : HdSys :=
  { s with hung := (atomicAdd irq.limit text.length).isNone }

/-- `win_result` (`hd.c:28-37`). The error register is read and dropped. -/
def winResult (irq : HdIrq) : BitVec 32 :=
  let i := irq.status.setWidth 32
  if i &&& (busyStat ||| readyStat ||| wrerrStat ||| seekStat ||| errStat) = readyStat ||| seekStat
  then 0
  else
    let _i := if i &&& 1 ≠ 0 then irq.error.setWidth 32 else i
    1

/-- `rep insw` (`hd.c:22-23`): `ecx` words to `edi`, the first of them word `k` of the data. -/
def insw (data : Nat → BitVec 16) :
    (ecx k : Nat) → (edi : BitVec 32) → (BitVec 32 → BitVec 8) → BitVec 32 → BitVec 8
  | 0, _, _, mem => mem
  | ecx + 1, k, edi, mem =>
    let mem := Function.update mem edi ((data k).extractLsb' 0 8)
    let mem := Function.update mem (edi + 1) ((data k).extractLsb' 8 8)
    insw data ecx (k + 1) (edi + 2) mem

/-- `port_read(HD_DATA, buf, nr)`. -/
def portRead (irq : HdIrq) (buf : BitVec 32) (nr : Nat) (mem : BitVec 32 → BitVec 8) :
    BitVec 32 → BitVec 8 :=
  insw irq.data nr 0 buf mem

/-- `SET_INTR(x)` (`blk.h:108`). -/
def setIntr (x : HdHandler) (s : HdSys) : HdSys := { s with doHd := some x, hdTimeout := 200 }

/-- `read_intr` (`hd.c:39-55`). -/
def readIntr (irq : HdIrq) (s : HdSys) : HdSys :=
  if winResult irq ≠ 0 then printm "bad rw intr\n" irq s
  else
    let s := { s with mem := portRead irq s.current.buffer 256 s.mem }
    let s := printm "read into buffer success\n" irq s
    if s.hung then s
    else
      let s := { s with current.errors := 0 }
      let s := { s with current.buffer := s.current.buffer + 512 }
      let s := { s with current.sector := s.current.sector + 1 }
      let s := { s with current.nrSectors := s.current.nrSectors - 1 }
      if s.current.nrSectors ≠ 0 then setIntr .readIntr s else s

/-- `unexpected_hd_int` (`hd.c:61-64`). -/
def unexpectedHdInt (irq : HdIrq) (s : HdSys) : HdSys :=
  let s := printm "unexpected int" irq s
  if s.hung then s else { s with halted := true }

/-- `outb(value, port)`. -/
def outb (value : BitVec 8) (port : BitVec 16) (s : HdSys) : HdSys :=
  { s with out := s.out ++ [(port, value)] }

/-- `mock_hd_out` (`hd.c:73-88`). -/
def mockHdOut (s : HdSys) : HdSys :=
  let s := setIntr .readIntr s
  let s := outb 0xc8 0x3f6 s
  let s := outb 0xff 0x1f1 s
  let s := outb 0x02 0x1f2 s
  let s := outb 0x01 0x1f3 s
  let s := outb 0 0x1f4 s
  let s := outb 0 0x1f5 s
  let s := outb 0xa0 0x1f6 s
  outb 0x20 0x1f7 s

/-- `sys_kdebug` (`hd.c:90-114`), for a buffer head with this block number and data. -/
def sysKdebug (blocknr data : BitVec 32) (s : HdSys) : HdSys :=
  let req : Request := { errors := 0, sector := blocknr <<< 1, nrSectors := 2, buffer := data }
  mockHdOut { s with current := req }

/-- Whether the processor takes no more interrupts. -/
def HdSys.stopped (s : HdSys) : Prop := s.halted = true ∨ s.hung = true

instance : DecidablePred HdSys.stopped := fun _ => inferInstanceAs (Decidable (_ ∨ _))

/-! ## `idt.asm` -/

/-- `hd_interrupt` (`idt.asm:61-97`). -/
def hdInterrupt (irq : HdIrq) (s : HdSys) : HdSys :=
  let s := outb 0x20 0xa0 s
  let s := { s with hdTimeout := 0 }
  let edx := s.doHd
  let s := { s with doHd := none }
  let edx := edx.getD .unexpectedHdInt
  let s := outb 0x20 0x20 s
  let s := { s with called := s.called ++ [edx] }
  match edx with
  | .readIntr => readIntr irq s
  | .unexpectedHdInt => unexpectedHdInt irq s

/-- A disk interrupt: with interrupts off, halted or in `printm`, the processor does not take it. -/
def takeIrq (s : HdSys) (irq : HdIrq) : HdSys := if s.stopped then s else hdInterrupt irq s

/-- The interrupts of a list, one after the other. -/
def takeIrqs (s : HdSys) (irqs : List HdIrq) : HdSys := irqs.foldl takeIrq s

/-! ## A read -/

/-- Byte `j` of the data that an interrupt delivers. -/
def HdIrq.byte (irq : HdIrq) (j : Nat) : BitVec 8 :=
  (irq.data (j / 2)).extractLsb' (8 * (j % 2)) 8

/-- The controller reports success. -/
def HdIrq.Good (irq : HdIrq) : Prop := winResult irq = 0

instance : DecidablePred HdIrq.Good := fun _ => inferInstanceAs (Decidable (_ = _))

/-- There is room in the log for what `read_intr` prints. -/
def HdIrq.Room (irq : HdIrq) : Prop := irq.limit + (if irq.Good then 25 else 12) ≤ bufferSize

instance : DecidablePred HdIrq.Room := fun _ => inferInstanceAs (Decidable (_ ≤ _))

/-- Every interrupt that finds the read waiting, for less than `n` sectors all of them good so far,
finds room in the log. -/
def Roomy (n : Nat) (irqs : List HdIrq) : Prop :=
  ∀ before irq, before ++ [irq] <+: irqs → before.length < n → (∀ i ∈ before, i.Good) → irq.Room

/-- What a read from `start` on has come to after these interrupts: `n` is the number of sectors of
the request. -/
structure DiskRead (start : HdSys) (irqs : List HdIrq) : Prop where
  /-- While every status is good, each interrupt stores its sector and counts it. -/
  sector : (∀ irq ∈ irqs, irq.Good) → irqs.length ≤ start.current.nrSectors.toNat →
    (takeIrqs (mockHdOut start) irqs).current.sector = start.current.sector + BitVec.ofNat 32 irqs.length
  nrSectors : (∀ irq ∈ irqs, irq.Good) → irqs.length ≤ start.current.nrSectors.toNat →
    (takeIrqs (mockHdOut start) irqs).current.nrSectors.toNat = start.current.nrSectors.toNat - irqs.length
  stores : (∀ irq ∈ irqs, irq.Good) → irqs.length ≤ start.current.nrSectors.toNat →
    ∀ before irq, irqs = before ++ [irq] → ∀ j < 512,
      (takeIrqs (mockHdOut start) irqs).mem
        (start.current.buffer + BitVec.ofNat 32 (512 * before.length) + BitVec.ofNat 32 j) = irq.byte j
  calls : (takeIrqs (mockHdOut start) irqs).called.count .readIntr ≤ start.current.nrSectors.toNat
  /-- After the last sector, or a bad status, the handler is gone and the next interrupt is
  unexpected. -/
  ended : start.current.nrSectors.toNat ≤ irqs.length ∨ (∃ irq ∈ irqs, ¬ irq.Good) →
    (takeIrqs (mockHdOut start) irqs).doHd = none ∧
    ∀ irq, .unexpectedHdInt ∉ (takeIrqs (mockHdOut start) irqs).called →
      (takeIrqs (mockHdOut start) (irqs ++ [irq])).called =
        (takeIrqs (mockHdOut start) irqs).called ++ [.unexpectedHdInt]
  noWrap : (takeIrqs (mockHdOut start) irqs).current.nrSectors.toNat ≤ start.current.nrSectors.toNat
  frame : ∀ a : BitVec 32, 512 * start.current.nrSectors.toNat ≤ (a - start.current.buffer).toNat →
    (takeIrqs (mockHdOut start) irqs).mem a = start.mem a

end MockOs.Kernel
