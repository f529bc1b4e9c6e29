import MockOs.Misc.Bits

/-!
# The formatter of the kernel (`kernel/vsprintf.c`)

`skip_atoi`, `number` and `vsprintf` as the code computes them, with `int` as 32-bit words
that wrap. A function that moves `str` returns the bytes it writes. The format is a list of
bytes with a NUL behind it, and `fmt` an index of it: reading further is a fault, as is
`va_arg` behind the last argument and an index of `tmp[36]` out of its bounds.
-/

namespace MockOs.Kernel

/-- A byte of text. -/
def ch (c : Char) : BitVec 8 := BitVec.ofNat 8 c.toNat

/-- What the code must never do. -/
inductive Fault where
  /-- The format is read behind its NUL. -/
  | format
  /-- `va_arg` behind the last argument. -/
  | args
  /-- `%s` with an argument that points to no string. -/
  | string
  /-- `tmp` or `digits` is indexed outside its bounds. -/
  | index
  /-- `number` returns 0 and `str` becomes a null pointer. -/
  | null
  /-- The loop has not ended; no call gets here. -/
  | fuel
  deriving DecidableEq, Repr

/-- The bits of `type` and `flags` (`vsprintf.c:24-30`). -/
structure Flags where
  zeropad : Bool := false
  sign : Bool := false
  plus : Bool := false
  space : Bool := false
  left : Bool := false
  special : Bool := false
  small : Bool := false
  deriving DecidableEq, Repr

/-! ## `number` -/

def digitsUpper : List (BitVec 8) := "0123456789ABCDEFGHIJKLMNOPQRSTUVWXYZ".toList.map ch

def digitsLower : List (BitVec 8) := "0123456789abcdefghijklmnopqrstuvwxyz".toList.map ch

/-- `while (lo < x--) *str++ = c`: the bytes written and `x` behind the loop. -/
def fillLoop (c : BitVec 8) (lo x : BitVec 32) : List (BitVec 8) × BitVec 32 :=
  if lo.toInt < x.toInt then
    let r := fillLoop c lo (x - 1)
    (c :: r.1, r.2)
  else ([], x - 1)
termination_by (x.toInt - lo.toInt).toNat
decreasing_by
  have hlo := BitVec.le_toInt lo
  have hx := Word32.toInt_pred (x := x) (by omega)
  omega

/-- `while (num != 0) tmp[i++] = digits[do_div(num, base)]`, with `slots` elements of `tmp`
left; `divl` is unsigned. -/
def divLoop (digits : List (BitVec 8)) (base : BitVec 32) :
    Nat → BitVec 32 → Except Fault (List (BitVec 8))
  | 0, num => if num = 0 then .ok [] else .error .index
  | slots + 1, num =>
    if num = 0 then .ok []
    else
      match digits[(num % base).toNat]? with
      | some d => (divLoop digits base slots (num / base)).map (d :: ·)
      | none => .error .index

/-- The sign character, 0 for none (`vsprintf.c:72-77`). -/
def signChar (num : BitVec 32) (type : Flags) : BitVec 8 :=
  if type.sign ∧ num.toInt < 0 then ch '-'
  else if type.plus then ch '+'
  else if type.space then ch ' '
  else 0

/-- `number` (`vsprintf.c:55-131`). -/
def number (num base size precision : BitVec 32) (type : Flags) :
    Except Fault (List (BitVec 8)) :=
  let digits := if type.small then digitsLower else digitsUpper
  let zeropad := type.zeropad && !type.left
  if base.toInt < 2 ∨ 36 < base.toInt then .error .null
  else
    let c := if zeropad then ch '0' else ch ' '
    let sign := signChar num type
    let num := if type.sign ∧ num.toInt < 0 then -num else num
    let size := if sign ≠ 0 then size - 1 else size
    let size :=
      if type.special then
        if base = 16 then size - 2 else if base = 8 then size - 1 else size
      else size
    (if num = 0 then .ok [ch '0'] else divLoop digits base 36 num).map fun tmp =>
      let i := BitVec.ofNat 32 tmp.length
      let precision := if precision.toInt < i.toInt then i else precision
      let size := size - precision
      let lead := if zeropad || type.left then ([], size) else fillLoop (ch ' ') 0 size
      let signText := if sign ≠ 0 then [sign] else []
      let special :=
        if type.special then
          if base = 8 then [ch '0']
          else if base = 16 then [ch '0', digits.getD 33 0]
          else []
        else []
      let pad := if type.left then ([], lead.2) else fillLoop c 0 lead.2
      let zeros := fillLoop (ch '0') i precision
      let tail := fillLoop (ch ' ') 0 pad.2
      lead.1 ++ signText ++ special ++ pad.1 ++ zeros.1 ++ tmp.reverse ++ tail.1

/-! ## Reading the format -/

/-- `is_digit` (`vsprintf.c:6`). -/
def isDigit (c : BitVec 8) : Bool := ch '0' ≤ c && c ≤ ch '9'

/-- `fmt[i]`. -/
def peek (fmt : List (BitVec 8)) (i : Nat) : Except Fault (BitVec 8) :=
  match (fmt ++ [0])[i]? with
  | some c => .ok c
  | none => .error .format

/-- `va_arg`: every argument is one word. -/
def vaArg : List (BitVec 32) → Except Fault (BitVec 32 × List (BitVec 32))
  | [] => .error .args
  | a :: args => .ok (a, args)

/-- `skip_atoi` (`vsprintf.c:13-21`): the number and the index behind it. -/
def skipAtoi (fmt : List (BitVec 8)) : Nat → Nat → BitVec 32 → Except Fault (BitVec 32 × Nat)
  | 0, _, _ => .error .fuel
  | fuel + 1, s, i => do
    let c ← peek fmt s
    if isDigit c then
      skipAtoi fmt fuel (s + 1) (i * 10 + c.signExtend 32 - (ch '0').signExtend 32)
    else .ok (i, s)

/-- The `switch` behind `repeat` (`vsprintf.c:166-172`). -/
def flagOf (c : BitVec 8) (flags : Flags) : Option Flags :=
  if c = ch '-' then some { flags with left := true }
  else if c = ch '+' then some { flags with plus := true }
  else if c = ch ' ' then some { flags with space := true }
  else if c = ch '#' then some { flags with special := true }
  else if c = ch '0' then some { flags with zeropad := true }
  else none

/-- `repeat` (`vsprintf.c:164-172`). -/
def flagsLoop (fmt : List (BitVec 8)) : Nat → Nat → Flags → Except Fault (Flags × Nat)
  | 0, _, _ => .error .fuel
  | fuel + 1, i, flags => do
    let c ← peek fmt (i + 1)
    match flagOf c flags with
    | some flags => flagsLoop fmt fuel (i + 1) flags
    | none => .ok (flags, i + 1)

/-- What the scanner has read of a directive: the index, the arguments left, the flags and one
of the two field sizes. -/
structure Scan where
  i : Nat
  args : List (BitVec 32)
  flags : Flags
  size : BitVec 32

/-- The field width (`vsprintf.c:174-185`). A `*` is not stepped over. -/
def fieldWidth (fmt : List (BitVec 8)) (fuel i : Nat) (args : List (BitVec 32)) (flags : Flags) :
    Except Fault Scan := do
  let c ← peek fmt i
  if isDigit c then
    let (w, i) ← skipAtoi fmt fuel i 0
    .ok ⟨i, args, flags, w⟩
  else if c = ch '*' then
    let (w, args) ← vaArg args
    if w.toInt < 0 then .ok ⟨i, args, { flags with left := true }, -w⟩
    else .ok ⟨i, args, flags, w⟩
  else .ok ⟨i, args, flags, -1⟩

/-- The precision (`vsprintf.c:187-199`). A `*` is not stepped over here either. -/
def precisionOf (fmt : List (BitVec 8)) (fuel i : Nat) (args : List (BitVec 32)) (flags : Flags) :
    Except Fault Scan := do
  let c ← peek fmt i
  if c = ch '.' then
    let c ← peek fmt (i + 1)
    let s : Scan ←
      if isDigit c then
        let (p, i) ← skipAtoi fmt fuel (i + 1) 0
        .ok ⟨i, args, flags, p⟩
      else if c = ch '*' then
        let (p, args) ← vaArg args
        .ok ⟨i + 1, args, flags, p⟩
      else .ok ⟨i + 1, args, flags, -1⟩
    .ok { s with size := if s.size.toInt < 0 then 0 else s.size }
  else .ok ⟨i, args, flags, -1⟩

/-- The qualifier (`vsprintf.c:201-206`), which nothing looks at. -/
def skipQualifier (fmt : List (BitVec 8)) (i : Nat) : Except Fault Nat := do
  let c ← peek fmt i
  .ok (if c = ch 'h' ∨ c = ch 'l' ∨ c = ch 'L' then i + 1 else i)

/-! ## The conversions -/

/-- `while (--x > 0) *str++ = c`: the bytes written and `x` behind the loop. -/
def stepLoop (c : BitVec 8) (x : BitVec 32) : List (BitVec 8) × BitVec 32 :=
  if 0 < (x - 1).toInt then
    let r := stepLoop c (x - 1)
    (c :: r.1, r.2)
  else ([], x - 1)
termination_by (x - 1).toInt.toNat
decreasing_by
  have hx := Word32.toInt_pred (x := x - 1) (by omega)
  omega

/-- `case 'c'` (`vsprintf.c:209-216`). -/
def convChar (a : BitVec 32) (flags : Flags) (width : BitVec 32) : List (BitVec 8) :=
  let lead := if flags.left then ([], width) else stepLoop (ch ' ') width
  lead.1 ++ [a.setWidth 8] ++ (stepLoop (ch ' ') lead.2).1

/-- `case 's'` (`vsprintf.c:218-234`), for the string `s`. -/
def convString (s : List (BitVec 8)) (flags : Flags) (width precision : BitVec 32) :
    List (BitVec 8) :=
  let strlen := BitVec.ofNat 32 s.length
  let len :=
    if precision.toInt < 0 then strlen
    else if precision.toInt < strlen.toInt then precision
    else strlen
  let lead := if flags.left then ([], width) else fillLoop (ch ' ') len width
  lead.1 ++ s.take len.toInt.toNat ++ (fillLoop (ch ' ') len lead.2).1

/-- What a conversion writes, the arguments left and the stores of `%n`. -/
structure Conv where
  out : List (BitVec 8)
  args : List (BitVec 32)
  stores : List (BitVec 32 × BitVec 32) := []

/-- The conversions through `number`, on the next argument. -/
def convNumber (args : List (BitVec 32)) (base width precision : BitVec 32) (flags : Flags) :
    Except Fault Conv := do
  let (a, args) ← vaArg args
  let out ← number a base width precision flags
  .ok { out := out, args := args }

/-- The `switch` on the conversion (`vsprintf.c:208-281`), with `count` bytes written before.
`str p` is the string at address `p`. -/
def convert (str : BitVec 32 → Option (List (BitVec 8))) (c : BitVec 8) (flags : Flags)
    (width precision : BitVec 32) (args : List (BitVec 32)) (count : Nat) : Except Fault Conv :=
  if c = ch 'c' then do
    let (a, args) ← vaArg args
    .ok { out := convChar a flags width, args := args }
  else if c = ch 's' then do
    let (p, args) ← vaArg args
    match str p with
    | some s => .ok { out := convString s flags width precision, args := args }
    | none => .error .string
  else if c = ch 'o' then convNumber args 8 width precision flags
  else if c = ch 'p' then
    if width = -1 then convNumber args 16 8 precision { flags with zeropad := true }
    else convNumber args 16 width precision flags
  else if c = ch 'x' then convNumber args 16 width precision { flags with small := true }
  else if c = ch 'X' then convNumber args 16 width precision flags
  else if c = ch 'd' ∨ c = ch 'i' then
    convNumber args 10 width precision { flags with sign := true }
  else if c = ch 'u' then convNumber args 10 width precision flags
  else if c = ch 'n' then do
    let (ip, args) ← vaArg args
    .ok { out := [], args := args, stores := [(ip, BitVec.ofNat 32 count)] }
  else
    .ok {
      out := (if c ≠ ch '%' then [ch '%'] else []) ++ if c ≠ 0 then [c] else []
      args := args }

/-! ## `vsprintf` -/

/-- The bytes of `buf` that are written, the final NUL included, the value returned, and the
stores of `%n`. -/
structure Printed where
  buf : List (BitVec 8)
  ret : BitVec 32
  stores : List (BitVec 32 × BitVec 32)
  deriving DecidableEq, Repr

/-- The loop of `vsprintf` (`vsprintf.c:156-284`), with `out` written so far. Every inner loop
gets as much fuel as there are bytes in the format. -/
def vsprintfLoop (str : BitVec 32 → Option (List (BitVec 8))) (fmt : List (BitVec 8)) :
    Nat → Nat → List (BitVec 32) → List (BitVec 8) → List (BitVec 32 × BitVec 32) →
      Except Fault Printed
  | 0, _, _, _, _ => .error .fuel
  | fuel + 1, i, args, out, stores => do
    let c ← peek fmt i
    if c = 0 then .ok ⟨out ++ [0], BitVec.ofNat 32 out.length, stores⟩
    else if c ≠ ch '%' then vsprintfLoop str fmt fuel (i + 1) args (out ++ [c]) stores
    else
      let (flags, i) ← flagsLoop fmt (fmt.length + 1) i {}
      let w ← fieldWidth fmt (fmt.length + 1) i args flags
      let p ← precisionOf fmt (fmt.length + 1) w.i w.args w.flags
      let i ← skipQualifier fmt p.i
      let c ← peek fmt i
      let r ← convert str c p.flags w.size p.size p.args out.length
      -- at the end of the format the code steps back, for the step of the loop to reach the NUL
      let i := if c = 0 then i - 1 else i
      vsprintfLoop str fmt fuel (i + 1) r.args (out ++ r.out) (stores ++ r.stores)

/-- `vsprintf` (`vsprintf.c:141-284`). -/
def vsprintf (str : BitVec 32 → Option (List (BitVec 8))) (fmt : List (BitVec 8))
    (args : List (BitVec 32)) : Except Fault Printed :=
  vsprintfLoop str fmt (fmt.length + 1) 0 args [] []

end MockOs.Kernel
