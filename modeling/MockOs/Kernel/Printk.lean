import MockOs.Kernel.Format
import MockOs.Kernel.Log

/-!
# Printing to the log (`kernel/printk.c`)

`printk` and `printm` format into a buffer and hand the first `vsprintf(...)` bytes of it to
`log_buf`. The buffer of `printm` is on the stack of the task; that of `printk` is one array
for all tasks. `vsprintf` knows neither size: a text that does not fit is written over what is
behind the array, which is not part of the model.
-/

namespace MockOs.Kernel

/-- What is handed to `log_buf` (`printk.c:30-33` and `69-72`). -/
def Printed.message (r : Printed) : List (BitVec 8) := r.buf.take r.ret.toNat

/-- The bytes of `buf`, of `printk` (`true`, `printk.c:17`) or `printm` (`false`, `printk.c:66`). -/
def bufBytes (shared : Bool) : Nat := if shared then 1024 else 128

/-- The text stays in its array, with the NUL behind it. -/
def Printed.Fits (r : Printed) (shared : Bool) : Prop := r.buf.length ≤ bufBytes shared

instance (r : Printed) (shared : Bool) : Decidable (r.Fits shared) := inferInstanceAs (Decidable (_ ≤ _))

/-- The log and the tasks that print. -/
structure PrintSys (T : Type) where
  log : LogSys T
  /-- `buf` of `printk`. -/
  buf : Nat → BitVec 8
  /-- The last message of the task is in `buf`, not on its stack. -/
  inPrintk : T → Bool

variable {T : Type}

def PrintSys.init : PrintSys T := ⟨LogSys.init, fun _ => 0, fun _ => false⟩

/-- The bytes `l` written at the start of `buf`. -/
def overwrite (buf : Nat → BitVec 8) (l : List (BitVec 8)) (i : Nat) : BitVec 8 := l.getD i (buf i)

/-- The byte that `rep movsb` copies next for `t`, from the buffer as it is now. -/
def PrintSys.source (s : PrintSys T) (t : T) (w : Writer) : Option (BitVec 8) :=
  (w.msg[w.copied]?).map fun b => if s.inPrintk t then s.buf w.copied else b

/-- A step of the tasks that print, or of the timer. `ok` says which calls are considered, of
`printk` (`true`) or `printm` (`false`). A task formats and reserves in one step: a second
task inside `printk` at that time is for `ok` to exclude, and so is a text that does not fit. A
call that finds no room in the log only tries again. -/
inductive PrintStep [DecidableEq T] (str : BitVec 32 → Option (List (BitVec 8)))
    (ok : PrintSys T → Bool → List (BitVec 8) → List (BitVec 32) → Prop) :
    PrintSys T → PrintSys T → Prop
  | printk {s : PrintSys T} {log : LogSys T} {fmt : List (BitVec 8)} {args : List (BitVec 32)}
      {r : Printed} (t : T) (hok : ok s true fmt args) (hnul : 0 ∉ fmt)
      (hout : s.log.writer t = none) (hr : vsprintf str fmt args = .ok r)
      (h : logBufReserve s.log t r.message = some log) :
      PrintStep str ok s ⟨log, overwrite s.buf r.buf, Function.update s.inPrintk t true⟩
  | printm {s : PrintSys T} {log : LogSys T} {fmt : List (BitVec 8)} {args : List (BitVec 32)}
      {r : Printed} (t : T) (hok : ok s false fmt args) (hnul : 0 ∉ fmt)
      (hout : s.log.writer t = none) (hr : vsprintf str fmt args = .ok r)
      (h : logBufReserve s.log t r.message = some log) :
      PrintStep str ok s ⟨log, s.buf, Function.update s.inPrintk t false⟩
  | copy {s : PrintSys T} {w : Writer} (t : T) (b : BitVec 8) (hw : s.log.writer t = some w)
      (hb : s.source t w = some b) : PrintStep str ok s { s with log := logBufCopy s.log t w b }
  | leave {s : PrintSys T} {w : Writer} (t : T) (hw : s.log.writer t = some w)
      (hdone : w.copied = w.msg.length) :
      PrintStep str ok s
        { s with log := { s.log with writer := Function.update s.log.writer t none } }
  | tick {s : PrintSys T} (ready : Nat → Bool) :
      PrintStep str ok s { s with log := syncLogBuf2 0 ready s.log }

/-- The arguments that the `%c` of a format print. A `*` takes an argument of its own. -/
def charArgs : List Token → List (BitVec 32) → List (BitVec 32)
  | [], _ => []
  | .lit _ :: ts, args => charArgs ts args
  | .dir d :: ts, args =>
    let args := args.drop (if d.width = .star then 1 else 0)
    let args := args.drop (if d.precision = some .star then 1 else 0)
    (if d.conv = ch 'c' then args.head?.toList else []) ++ charArgs ts (d.rest args)

/-- No `%c` of the format prints a NUL. -/
def NoNulChar (fmt : List (BitVec 8)) (args : List (BitVec 32)) : Prop :=
  ∀ a ∈ charArgs (tokens fmt) args, a.setWidth 8 ≠ 0

instance (fmt : List (BitVec 8)) (args : List (BitVec 32)) : Decidable (NoNulChar fmt args) :=
  inferInstanceAs (Decidable (∀ a ∈ _, _))

end MockOs.Kernel
