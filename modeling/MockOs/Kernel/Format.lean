import MockOs.Kernel.Vsprintf
import MockOs.Misc.Numeral

/-!
# What the formatter is for

A reference formatter in its own terms: a format is cut into tokens, and each of them has its
text. Numbers are laid out from the sign, the prefix and the numeral, and sizes are integers
that do not wrap.
-/

namespace MockOs.Kernel

open Numeral

/-- The number to print: `|num|` for a negative one, if it is signed, else `num` modulo 2^32. -/
def numberValue (num : BitVec 32) (type : Flags) : Nat :=
  if type.sign ∧ num.toInt < 0 then num.toInt.natAbs else num.toNat

def signText (num : BitVec 32) (type : Flags) : List (BitVec 8) :=
  if type.sign ∧ num.toInt < 0 then [ch '-']
  else if type.plus then [ch '+']
  else if type.space then [ch ' ']
  else []

def prefixText (base : Nat) (type : Flags) : List (BitVec 8) :=
  if type.special then
    if base = 8 then [ch '0']
    else if base = 16 then [ch '0', if type.small then ch 'x' else ch 'X']
    else []
  else []

/-- The sign `s`, the prefix `x` and the digits `d`, in a field of `size` bytes with
`precision` digits at least. -/
def layout (s x d : List (BitVec 8)) (size precision : Int) (type : Flags) : List (BitVec 8) :=
  let z := List.replicate (precision - d.length).toNat (ch '0')
  let gap := (size - s.length - x.length - z.length - d.length).toNat
  if type.left then s ++ x ++ z ++ d ++ List.replicate gap (ch ' ')
  else if type.zeropad then s ++ x ++ List.replicate gap (ch '0') ++ z ++ d
  else List.replicate gap (ch ' ') ++ s ++ x ++ z ++ d

/-! ## Tokens -/

/-- A field size of a directive: absent, in digits, or `*`. -/
inductive FieldSize where
  | absent
  | digits (n : Nat)
  | star
  deriving DecidableEq, Repr

/-- A directive, up to its conversion character, which is NUL where the format ends. -/
structure Directive where
  flags : Flags
  width : FieldSize
  /-- The precision, if there is a point. -/
  precision : Option FieldSize
  conv : BitVec 8
  deriving DecidableEq, Repr

inductive Token where
  | lit (c : BitVec 8)
  | dir (d : Directive)
  deriving DecidableEq, Repr

def isFlag (c : BitVec 8) : Bool :=
  c = ch '-' || c = ch '+' || c = ch ' ' || c = ch '#' || c = ch '0'

/-- The flags that a run of flag characters sets. -/
def flagsOf (run : List (BitVec 8)) : Flags where
  left := run.contains (ch '-')
  plus := run.contains (ch '+')
  space := run.contains (ch ' ')
  special := run.contains (ch '#')
  zeropad := run.contains (ch '0')

/-- A field size, from the front of a text: digits if there are any, or a `*`, which stays
where it is. -/
def fieldOf (l : List (BitVec 8)) : FieldSize :=
  if l.takeWhile isDigit ≠ [] then .digits (valueOf 10 (l.takeWhile isDigit))
  else if l.head? = some (ch '*') then .star
  else .absent

/-- The precision and what follows it. -/
def precisionField (l : List (BitVec 8)) : Option FieldSize × List (BitVec 8) :=
  if l.head? = some (ch '.') then (some (fieldOf l.tail), l.tail.dropWhile isDigit) else (none, l)

def isQualifier (c : BitVec 8) : Bool := c = ch 'h' || c = ch 'l' || c = ch 'L'

/-- What follows the qualifier, of which there is one at most. -/
def dropQualifier (l : List (BitVec 8)) : List (BitVec 8) :=
  if l.head?.any isQualifier then l.tail else l

/-- The directive whose text behind the `%` stands at the front of `l`, and what is left from
its conversion character on. -/
def directiveOf (l : List (BitVec 8)) : Directive × List (BitVec 8) :=
  let sizes := l.dropWhile isFlag
  let precision := precisionField (sizes.dropWhile isDigit)
  let rest := dropQualifier precision.2
  (⟨flagsOf (l.takeWhile isFlag), fieldOf sizes, precision.1, rest.headD 0⟩, rest)

theorem directiveOf_suffix (l : List (BitVec 8)) : (directiveOf l).2 <:+ l := by
  have hprecision : ∀ l, (precisionField l).2 <:+ l := by
    intro l
    unfold precisionField
    split
    · exact (List.dropWhile_suffix _).trans (List.tail_suffix l)
    · exact List.suffix_refl l
  have hqualifier : ∀ l, dropQualifier l <:+ l := by
    intro l
    unfold dropQualifier
    split
    · exact List.tail_suffix l
    · exact List.suffix_refl l
  calc (directiveOf l).2
      <:+ (precisionField ((l.dropWhile isFlag).dropWhile isDigit)).2 := hqualifier _
    _ <:+ (l.dropWhile isFlag).dropWhile isDigit := hprecision _
    _ <:+ l.dropWhile isFlag := List.dropWhile_suffix _
    _ <:+ l := List.dropWhile_suffix _

theorem length_directiveOf_le (l : List (BitVec 8)) : (directiveOf l).2.length ≤ l.length :=
  (directiveOf_suffix l).length_le

/-- The first tokens of a format, `fuel` of them at most. -/
def tokensUpTo : Nat → List (BitVec 8) → List Token
  | 0, _ => []
  | _, [] => []
  | fuel + 1, c :: l =>
    if c = ch '%' then .dir (directiveOf l).1 :: tokensUpTo fuel (directiveOf l).2.tail
    else .lit c :: tokensUpTo fuel l

/-- The tokens of a format: there are no more of them than bytes. -/
def tokens (l : List (BitVec 8)) : List Token := tokensUpTo l.length l

theorem tokensUpTo_eq {fuel : Nat} {l : List (BitVec 8)} (h : l.length ≤ fuel) :
    tokensUpTo fuel l = tokens l := by
  induction fuel using Nat.strongRecOn generalizing l with
  | _ fuel ih =>
    cases l with
    | nil => cases fuel <;> rfl
    | cons c l =>
      obtain ⟨fuel, rfl⟩ : ∃ n, fuel = n + 1 := Nat.exists_eq_add_one.mpr (Nat.lt_of_lt_of_le (by simp) h)
      have hlen : l.length ≤ fuel := Nat.le_of_succ_le_succ h
      have hrest : (directiveOf l).2.tail.length ≤ l.length := by
        have hle := length_directiveOf_le l
        rw [List.length_tail]
        omega
      rw [tokens, List.length_cons, tokensUpTo, tokensUpTo, ih fuel (by omega) hlen,
        ih fuel (by omega) (Nat.le_trans hrest hlen)]
      rcases Nat.lt_or_ge l.length (fuel + 1) with hlt | hge
      · rw [ih _ hlt (Nat.le_refl _), ih _ hlt hrest]
      · omega

theorem tokens_cons (c : BitVec 8) (l : List (BitVec 8)) :
    tokens (c :: l) =
      if c = ch '%' then .dir (directiveOf l).1 :: tokens (directiveOf l).2.tail
      else .lit c :: tokens l := by
  have hrest : (directiveOf l).2.tail.length ≤ l.length := by
    have hle := length_directiveOf_le l
    rw [List.length_tail]
    omega
  rw [tokens, List.length_cons, tokensUpTo, tokensUpTo_eq (Nat.le_refl _), tokensUpTo_eq hrest]

/-! ## The text of a token -/

/-- The size that a field asks for; none is as good as 0. -/
def FieldSize.size : FieldSize → Nat
  | .digits n => n
  | _ => 0

/-- The precision, if there is one: a point alone is `.0`. -/
def Directive.limit (d : Directive) : Option Nat := d.precision.map FieldSize.size

/-- `text` in a field of `width` bytes, padded with spaces. -/
def fieldText (text : List (BitVec 8)) (width : Nat) (left : Bool) : List (BitVec 8) :=
  let gap := List.replicate (width - text.length) (ch ' ')
  if left then text ++ gap else gap ++ text

/-- A number in a field. -/
def numberText (num : BitVec 32) (base width precision : Nat) (flags : Flags) : List (BitVec 8) :=
  layout (signText num flags) (prefixText base flags)
    (numeral flags.small base (numberValue num flags)) width precision flags

/-- Whether a conversion takes an argument. -/
def takesArg (c : BitVec 8) : Bool := ("csopxXdiun".toList.map ch).contains c

/-- The text of a directive with the argument `a`; `str p` is the string at `p`. -/
def Directive.text (str : BitVec 32 → Option (List (BitVec 8))) (d : Directive) (a : BitVec 32) :
    List (BitVec 8) :=
  let width := d.width.size
  let precision := d.limit.getD 0
  if d.conv = ch 'c' then fieldText [a.setWidth 8] width d.flags.left
  else if d.conv = ch 's' then
    let s := (str a).getD []
    fieldText (s.take (d.limit.getD s.length)) width d.flags.left
  else if d.conv = ch 'o' then numberText a 8 width precision d.flags
  else if d.conv = ch 'p' then
    if d.width = .absent then numberText a 16 8 precision { d.flags with zeropad := true }
    else numberText a 16 width precision d.flags
  else if d.conv = ch 'x' then numberText a 16 width precision { d.flags with small := true }
  else if d.conv = ch 'X' then numberText a 16 width precision d.flags
  else if d.conv = ch 'd' ∨ d.conv = ch 'i' then
    numberText a 10 width precision { d.flags with sign := true }
  else if d.conv = ch 'u' then numberText a 10 width precision d.flags
  else if d.conv = ch 'n' then []
  else if d.conv = ch '%' ∨ d.conv = 0 then [ch '%']
  else [ch '%', d.conv]

/-- The arguments behind a directive. -/
def Directive.rest (d : Directive) (args : List (BitVec 32)) : List (BitVec 32) :=
  if takesArg d.conv then args.tail else args

/-- The text of a format. -/
def render (str : BitVec 32 → Option (List (BitVec 8))) :
    List Token → List (BitVec 32) → List (BitVec 8)
  | [], _ => []
  | .lit c :: ts, args => c :: render str ts args
  | .dir d :: ts, args => d.text str (args.headD 0) ++ render str ts (d.rest args)

/-- What the `%n` of a format store, with `count` bytes in front of it. -/
def countStores (str : BitVec 32 → Option (List (BitVec 8))) :
    List Token → List (BitVec 32) → Nat → List (BitVec 32 × BitVec 32)
  | [], _, _ => []
  | .lit _ :: ts, args, count => countStores str ts args (count + 1)
  | .dir d :: ts, args, count =>
    (if d.conv = ch 'n' then [(args.headD 0, BitVec.ofNat 32 count)] else []) ++
      countStores str ts (d.rest args) (count + (d.text str (args.headD 0)).length)

/-- The argument list supplies what the tokens take, and `%s` a string that is not too long. -/
def Supplied (str : BitVec 32 → Option (List (BitVec 8))) :
    List Token → List (BitVec 32) → Prop
  | [], _ => True
  | .lit _ :: ts, args => Supplied str ts args
  | .dir d :: ts, args =>
    (takesArg d.conv → args ≠ []) ∧
    (d.conv = ch 's' → ∃ s, str (args.headD 0) = some s ∧ s.length < 2 ^ 30) ∧
    Supplied str ts (d.rest args)

/-- No `*` for a field size, and no size of 2^30 or more. -/
def Directive.plain (d : Directive) : Prop :=
  d.width ≠ .star ∧ d.precision ≠ some .star ∧ d.width.size < 2 ^ 30 ∧ d.limit.getD 0 < 2 ^ 30

instance (d : Directive) : Decidable d.plain := inferInstanceAs (Decidable (_ ∧ _))

def Token.plain : Token → Prop
  | .lit _ => True
  | .dir d => d.plain

instance : DecidablePred Token.plain
  | .lit _ => isTrue trivial
  | .dir d => inferInstanceAs (Decidable d.plain)

end MockOs.Kernel
