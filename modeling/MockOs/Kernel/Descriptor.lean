import MockOs.Kernel.Fork
import MockOs.Misc.Bytes

/-!
# Segment descriptors (`include/linux/sched.h`, `include/asm/system.h`)

The macros that write a descriptor byte by byte, on the eight bytes at `n`. `Segment` is what
the processor makes of a descriptor: `get_base` and `set_base` (`kernel/sched.c`) and the two
macros are four views of it.
-/

namespace MockOs.Kernel

open Bytes

/-- The descriptor at an address. -/
def descAt (m : Nat → BitVec 8) (n : Nat) : Desc := ⟨load32 m n, load32 m (n + 4)⟩

/-- `set_base` (`kernel/sched.c:64-70`) on the two words at `n`. -/
def setBaseAt (m : Nat → BitVec 8) (n : Nat) (base : BitVec 32) : Nat → BitVec 8 :=
  let d := setBase (descAt m n) base
  store (store m n d.a) (n + 4) d.b

/-- The byte registers of a 32-bit one. -/
def lowByte (r : BitVec 32) : BitVec 8 := r.extractLsb' 0 8
def highByte (r : BitVec 32) : BitVec 8 := r.extractLsb' 8 8

/-- `_set_limit(addr, limit)` (`sched.h:332-339`). -/
def setLimitAt (m : Nat → BitVec 8) (addr : Nat) (limit : BitVec 32) : Nat → BitVec 8 :=
  let edx := limit
  let m := store m addr (edx.extractLsb' 0 16)
  let edx := edx.rotateRight 16
  let dh := m (addr + 6)
  let dh := dh &&& 0xf0
  let dl := lowByte edx ||| dh
  store m (addr + 6) dl

/-- `_set_tssldt_desc(n, addr, type)` (`system.h:71-83`). -/
def setTssldtDescAt (m : Nat → BitVec 8) (n : Nat) (addr : BitVec 32) (type : BitVec 8) :
    Nat → BitVec 8 :=
  let eax := addr
  let m := store m n 104#16
  let m := store m (n + 2) (eax.extractLsb' 0 16)
  let eax := eax.rotateRight 16
  let m := store m (n + 4) (lowByte eax)
  let m := store m (n + 5) type
  let m := store m (n + 6) 0#8
  store m (n + 7) (highByte eax)

/-! ## What a descriptor says -/

/-- A segment: its base, the limit field, the access byte, and the four bits above the limit. -/
@[ext]
structure Segment where
  base : BitVec 32
  limit : BitVec 20
  type : BitVec 8
  flags : BitVec 4
  deriving DecidableEq

/-- How the processor reads a descriptor. -/
def Desc.decode (d : Desc) : Segment where
  base := d.b.extractLsb' 24 8 ++ d.b.extractLsb' 0 8 ++ d.a.extractLsb' 16 16
  limit := d.b.extractLsb' 16 4 ++ d.a.extractLsb' 0 16
  type := d.b.extractLsb' 8 8
  flags := d.b.extractLsb' 20 4

end MockOs.Kernel
