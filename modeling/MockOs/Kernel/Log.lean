import Mathlib.Logic.Function.Basic
import Mathlib.Data.List.Basic

/-!
# The kernel log (`kernel/nasm.asm`)

`log_buf` reserves space in `log_buffer` with one `cmpxchg` and then copies its message
byte by byte; the timer interrupt sends what is there to the serial port. Interrupts can
come between any two bytes of the copy. The buffer has its limit word at offset 0, the
offset word at 8 and the bytes from 16 on.
-/

namespace MockOs.Kernel

/-- `buffer_size` (`nasm.asm:4`). -/
def bufferSize : Nat := 2048

/-- A task inside `log_buf`, past its reservation: the source bytes, the buffer index the
copy started at and how many bytes `rep movsb` has stored. `pos` is where the message
stands in the stream of all messages. -/
structure Writer where
  msg : List (BitVec 8)
  dest : Nat
  copied : Nat
  pos : Nat
  deriving DecidableEq, Repr

/-- `log_buffer` and the tasks that write to it. `msgs` lists the messages in the order of
their reservations and `sent` the bytes that went out to the serial port. -/
structure LogSys (T : Type) where
  buf : Nat → BitVec 8
  limit : Nat
  offset : Nat
  writer : T → Option Writer
  msgs : List (List (BitVec 8))
  sent : List (BitVec 8)

variable {T : Type}

/-- The zeroed `log_buffer`. -/
def LogSys.init : LogSys T := ⟨fun _ => 0, 0, 0, fun _ => none, [], []⟩

/-- The concatenation of the messages in reservation order. -/
def LogSys.stream (s : LogSys T) : List (BitVec 8) := s.msgs.flatten

/-- `atomic_add` (`nasm.asm:15-31`): the new limit, or no room. The sum does not overflow
with lengths that fit in memory. -/
def atomicAdd (limit edx : Nat) : Option Nat :=
  if limit + edx > bufferSize then none else some (limit + edx)

/-- The reservation of `log_buf(msg, len)` by task `t`. -/
def logBufReserve [DecidableEq T] (s : LogSys T) (t : T) (msg : List (BitVec 8)) :
    Option (LogSys T) :=
  (atomicAdd s.limit msg.length).map fun limit =>
    { s with
      limit := limit
      writer := Function.update s.writer t
        (some ⟨msg, limit - msg.length, 0, s.stream.length⟩)
      msgs := s.msgs ++ [msg] }

/-- One turn of `rep movsb`. -/
def logBufCopy [DecidableEq T] (s : LogSys T) (t : T) (w : Writer) (b : BitVec 8) : LogSys T :=
  { s with
    buf := Function.update s.buf (w.dest + w.copied) b
    writer := Function.update s.writer t (some { w with copied := w.copied + 1 }) }

/-- The loop of `sync_log_buf_2` (`nasm.asm:157-170`), with `ecx` bytes to go, the next one
at `esi`; `ready k` is what the `k`-th poll of the port reads. Returns the bytes sent and
`ecx` at `.write_end`. The test for NUL is made on `ax`, with `ah` from the caller. -/
def drainLoop (ah : BitVec 8) (ready : Nat → Bool) (buf : Nat → BitVec 8) :
    Nat → Nat → Nat → List (BitVec 8) × Nat
  | 0, _, _ => ([], 0)
  | ecx + 1, esi, k =>
    if ready k = false then ([], ecx + 1)
    else if ah = 0 ∧ buf esi = 0 then ([], ecx + 1)
    else
      let (out, left) := drainLoop ah ready buf ecx (esi + 1) (k + 1)
      (buf esi :: out, left)

/-- `sync_log_buf_2` (`nasm.asm:141-185`). -/
def syncLogBuf2 (ah : BitVec 8) (ready : Nat → Bool) (s : LogSys T) : LogSys T :=
  let ebx := s.limit - s.offset
  if ebx = 0 then s
  else
    let (out, ecx) := drainLoop ah ready s.buf ebx s.offset 0
    if ecx = 0 then { s with limit := 0, offset := 0, sent := s.sent ++ out }
    else { s with offset := s.offset + (ebx - ecx), sent := s.sent ++ out }

/-- A step of the log. A writer that finds no room only tries again: the `jnz` of
`atomic_add_try` sees the flags of `add esp, 4`, not those of the test of the interrupt flag.
`R` says which runs of `sync_log_buf_2` are considered. -/
inductive LogStep [DecidableEq T] (R : LogSys T → BitVec 8 → (Nat → Bool) → Prop) :
    LogSys T → LogSys T → Prop
  | reserve {s s' : LogSys T} (t : T) (msg : List (BitVec 8)) (hnul : 0 ∉ msg)
      (hout : s.writer t = none) (h : logBufReserve s t msg = some s') : LogStep R s s'
  | copy {s : LogSys T} {w : Writer} (t : T) (b : BitVec 8) (hw : s.writer t = some w)
      (hb : w.msg[w.copied]? = some b) : LogStep R s (logBufCopy s t w b)
  | leave {s : LogSys T} {w : Writer} (t : T) (hw : s.writer t = some w)
      (hdone : w.copied = w.msg.length) :
      LogStep R s { s with writer := Function.update s.writer t none }
  /-- `timer_interrupt` has loaded `eax` with 0x17 before the call. -/
  | tick {s : LogSys T} (ready : Nat → Bool) (hR : R s 0 ready) :
      LogStep R s (syncLogBuf2 0 ready s)

end MockOs.Kernel
