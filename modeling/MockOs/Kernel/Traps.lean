import MockOs.Kernel.Fork

/-!
# The interrupt descriptor table (`boot/head.s`, `kernel/traps.c`, `include/asm/system.h`)

The address of a handler is split over the two words of its gate. `setup_idt` writes both words
of every gate, `trap_init` patches the first, and `_set_gate` writes both again. The table is
indexed by vector; `&idt[i]` is eight bytes after `&idt[i - 1]`.
-/

namespace MockOs.Kernel

/-- `movw src, dst`: the high half of the register stays. -/
def movw (dst : BitVec 32) (src : BitVec 16) : BitVec 32 := dst.extractLsb' 16 16 ++ src

/-- `rp_sidt` (`head.s:143-148`): `ecx` gates from entry `edi` on. -/
def rpSidt (eax edx : BitVec 32) : (ecx edi : Nat) → (Nat → Desc) → Nat → Desc
  | 0, _, idt => idt
  | ecx + 1, edi, idt => rpSidt eax edx ecx (edi + 1) (Function.update idt edi ⟨eax, edx⟩)

/-- `setup_idt` (`head.s:134-150`). -/
def setupIdt (ignoreInt : BitVec 32) (idt : Nat → Desc) : Nat → Desc :=
  let edx := ignoreInt
  let eax := 0x00080000#32
  let eax := movw eax (edx.extractLsb' 0 16)
  let edx := movw edx 0x8E00
  rpSidt eax edx 256 0 idt

/-- `_set_gate(gate_addr, type, dpl, addr)` (`system.h:36-45`): the two words it stores. -/
def setGate (type dpl : Nat) (addr : BitVec 32) : Desc :=
  let edx := addr
  let eax := 0x00080000#32
  let eax := movw eax (edx.extractLsb' 0 16)
  let edx := movw edx (BitVec.ofNat 16 (0x8000 + (dpl <<< 13) + (type <<< 8)))
  ⟨eax, edx⟩

/-- `set_trap_gate(n, addr)` (`system.h:90`). -/
def setTrapGate (n : Nat) (addr : BitVec 32) (idt : Nat → Desc) : Nat → Desc :=
  Function.update idt n (setGate 15 0 addr)

/-- The body of the loop of `trap_init`. -/
def patchGate (idtPtrs : Nat → BitVec 32) (i : Nat) (idt : Nat → Desc) : Nat → Desc :=
  let off := idtPtrs i
  Function.update idt i { idt i with a := ((idt i).a &&& ~~~0xffff) ||| (off &&& 0xffff) }

/-- The loop of `trap_init` up to `i = n`. -/
def trapLoop (idtPtrs : Nat → BitVec 32) : Nat → (Nat → Desc) → Nat → Desc
  | 0, idt => idt
  | n + 1, idt => patchGate idtPtrs n (trapLoop idtPtrs n idt)

/-- `trap_init` (`traps.c:15-22`). -/
def trapInit (idtPtrs : Nat → BitVec 32) (pageFault : BitVec 32) (idt : Nat → Desc) : Nat → Desc :=
  setTrapGate 14 pageFault (trapLoop idtPtrs 256 idt)

/-- `set_system_gate` and `set_intr_gate` (`system.h:97-104`). -/
def setSystemGate (n : Nat) (addr : BitVec 32) (idt : Nat → Desc) : Nat → Desc :=
  Function.update idt n (setGate 15 3 addr)

def setIntrGate (n : Nat) (addr : BitVec 32) (idt : Nat → Desc) : Nat → Desc :=
  Function.update idt n (setGate 14 0 addr)

/-- The gates of `sched_init` (`sched.c:99-102`). -/
def schedInitGates (timerInterrupt systemCall : BitVec 32) (idt : Nat → Desc) : Nat → Desc :=
  setSystemGate 0x80 systemCall (setIntrGate 0x20 timerInterrupt idt)

/-- The gate of `hd_init` (`hd.c:67`). -/
def hdInitGate (hdInterrupt : BitVec 32) (idt : Nat → Desc) : Nat → Desc := setIntrGate 0x2E hdInterrupt idt

/-! ## What a gate says -/

/-- A gate of the table. The type is the descriptor type bit and the four bits below it. -/
@[ext]
structure Gate where
  offset : BitVec 32
  selector : BitVec 16
  present : Bool
  dpl : BitVec 2
  type : BitVec 5
  deriving DecidableEq

/-- The types of the 32-bit interrupt and trap gates. -/
def interruptGate : BitVec 5 := 0b01110
def trapGate : BitVec 5 := 0b01111

/-- How the processor reads a gate. -/
def Desc.gate (d : Desc) : Gate where
  offset := d.b.extractLsb' 16 16 ++ d.a.extractLsb' 0 16
  selector := d.a.extractLsb' 16 16
  present := d.b.getLsbD 15
  dpl := d.b.extractLsb' 13 2
  type := d.b.extractLsb' 8 5

end MockOs.Kernel
