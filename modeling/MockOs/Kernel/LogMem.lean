import MockOs.Kernel.Log
import MockOs.Misc.Bytes

/-!
# The log buffer as bytes (`kernel/nasm.asm`)

`log_buffer` with its words where they are, and calls of `log_buf` that can be interrupted
between any two instructions that touch it. Addresses are relative to `log_buffer`, modulo
2^32, as the registers hold them. The segment registers and the stack are left out.
-/

namespace MockOs.Kernel

open Bytes

/-- Where a call of `log_buf` is, with its registers. -/
inductive LogCall where
  /-- At `add_loop` (`nasm.asm:19`). -/
  | addLoop (edx : BitVec 32)
  /-- After the load of the limit (`21-25`). -/
  | loaded (eax edx : BitVec 32)
  /-- At the `cmpxchg` (`28`). -/
  | cas (eax ecx edx : BitVec 32)
  /-- Back in `log_buf` with the new limit (`64-80`). -/
  | reserved (eax len : BitVec 32)
  /-- In `rep movsb` (`81-82`). -/
  | movsb (edi ecx : BitVec 32)
  deriving DecidableEq, Repr

/-- The byte that the next instruction of the copy stores to. -/
def LogCall.dest : LogCall → Option Nat
  | .movsb edi ecx => if ecx = 0 then none else some edi.toNat
  | _ => none

/-- The next instructions of a call, up to one that other calls can see; `none` when it returns.
A call that finds no room tries again: the `jnz` of `atomic_add_try` sees the flags of
`add esp, 4`. `b` is the byte at `[esi]`. -/
def logBufStep (m : Nat → BitVec 8) (b : BitVec 8) : LogCall → (Nat → BitVec 8) × Option LogCall
  | .addLoop edx => (m, some (.loaded (load32 m 0) edx))
  | .loaded eax edx =>
    let ecx := eax + edx
    if (2048#32).slt ecx then (m, some (.addLoop edx)) else (m, some (.cas eax ecx edx))
  | .cas eax ecx edx =>
    if load32 m 0 = eax then (store m 0 ecx, some (.reserved ecx edx)) else (m, some (.addLoop edx))
  | .reserved eax len =>
    let ecx := len
    let edi := eax + 16
    (m, some (.movsb (edi - ecx) ecx))
  | .movsb edi ecx =>
    if ecx = 0 then (m, none) else (store m edi.toNat b, some (.movsb (edi + 1) (ecx - 1)))

/-- `log_buffer`, the calls of `log_buf` that have not returned, and the addresses that calls
have stored message bytes to. -/
structure LogMem (T : Type) where
  mem : Nat → BitVec 8
  call : T → Option LogCall
  stored : List Nat

namespace LogMem

variable {T : Type}

/-- The zeroed `log_buffer`, no calls. -/
def init : LogMem T := ⟨fun _ => 0, fun _ => none, []⟩

def limit (s : LogMem T) : BitVec 32 := load32 s.mem 0
def offset (s : LogMem T) : BitVec 32 := load32 s.mem 8

/-- `sync_log_buf_2` (`nasm.asm:141-185`) on the bytes of `log_buffer`. -/
def syncLogBuf2 (ah : BitVec 8) (ready : Nat → Bool) (m : Nat → BitVec 8) : Nat → BitVec 8 :=
  let ecx := load32 m 0
  let ecx := ecx - load32 m 8
  if ecx = 0 then m
  else
    let ebx := ecx
    let esi := 16 + load32 m 8
    let left := (drainLoop ah ready (fun a => m (a % 2 ^ 32)) ecx.toNat esi.toNat 0).2
    if left = 0 then store (store m 0 0#32) 8 0#32
    else store m 8 (load32 m 8 + (ebx - BitVec.ofNat 32 left))

/-- A step: a call begins, a call goes on, or the timer interrupt drains the buffer. -/
inductive Step [DecidableEq T] : LogMem T → LogMem T → Prop
  | enter {s : LogMem T} (t : T) (len : BitVec 32) (hlen : len.toNat < 2 ^ 30)
      (hout : s.call t = none) :
      Step s { s with call := Function.update s.call t (some (.addLoop len)) }
  | next {s : LogMem T} {c : LogCall} (t : T) (b : BitVec 8) (hc : s.call t = some c) :
      Step s ⟨(logBufStep s.mem b c).1, Function.update s.call t (logBufStep s.mem b c).2,
        s.stored ++ c.dest.toList⟩
  | tick {s : LogMem T} (ah : BitVec 8) (ready : Nat → Bool) :
      Step s { s with mem := syncLogBuf2 ah ready s.mem }

end LogMem

end MockOs.Kernel
