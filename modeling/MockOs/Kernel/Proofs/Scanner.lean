import MockOs.Kernel.Format

/-!
# The scanner of `vsprintf`

The loop with its index into the format does, token by token, what the conversions do. It never
reads behind the NUL and always ends: where the format ends inside a directive the step back
leaves the index on the NUL again.
-/

namespace MockOs.Kernel

open Numeral

variable {fmt l : List (BitVec 8)} {i fuel : Nat}

/-- `fmt[i]` is the first byte of `l`. -/
def At (fmt : List (BitVec 8)) (i : Nat) (l : List (BitVec 8)) : Prop :=
  ∃ before, fmt = before ++ l ∧ i = before.length

theorem At.start (fmt : List (BitVec 8)) : At fmt 0 fmt := ⟨[], rfl, rfl⟩

theorem At.peek (h : At fmt i l) : peek fmt i = .ok (l.headD 0) := by
  obtain ⟨before, rfl, rfl⟩ := h
  rw [Kernel.peek, List.append_assoc, List.getElem?_append_right (Nat.le_refl _), Nat.sub_self]
  cases l <;> rfl

/-- A step over a run of bytes. -/
theorem At.skip (run : List (BitVec 8)) (h : At fmt i (run ++ l)) : At fmt (i + run.length) l := by
  obtain ⟨before, rfl, rfl⟩ := h
  exact ⟨before ++ run, (List.append_assoc _ _ _).symm, List.length_append.symm⟩

theorem At.next {c : BitVec 8} (h : At fmt i (c :: l)) : At fmt (i + 1) l :=
  At.skip [c] h

theorem At.length (h : At fmt i l) : i + l.length = fmt.length := by
  obtain ⟨before, rfl, rfl⟩ := h
  simp

theorem At.mem {c : BitVec 8} (h : At fmt i l) (hc : c ∈ l) : c ∈ fmt := by
  obtain ⟨before, rfl, rfl⟩ := h
  exact List.mem_append_right before hc

theorem At.dropWhile (p : BitVec 8 → Bool) (h : At fmt i l) :
    At fmt (i + (l.takeWhile p).length) (l.dropWhile p) :=
  At.skip _ (by rwa [List.takeWhile_append_dropWhile])

/-! ## Numbers and flags -/

theorem bind_eq_ok {α β : Type} {x : Except Fault α} {f : α → Except Fault β} {b : β}
    (h : (x >>= f) = .ok b) : ∃ a, x = .ok a ∧ f a = .ok b := by
  cases x with
  | error e => cases h
  | ok a => exact ⟨a, rfl, h⟩

theorem ok_bind {α β : Type} (a : α) (f : α → Except Fault β) : (Except.ok a >>= f) = f a := rfl

theorem map_bind {α β γ : Type} (x : Except Fault α) (g : α → β) (f : β → Except Fault γ) :
    (x.map g >>= f) = x >>= fun a => f (g a) := by
  cases x <;> rfl

/-- One digit more. -/
theorem skipAtoi_digit {c : BitVec 8} (h : isDigit c = true) (n : Nat) :
    BitVec.ofNat 32 n * 10 + c.signExtend 32 - (ch '0').signExtend 32 =
      BitVec.ofNat 32 (n * 10 + digitValue c) := by
  have hdigit : ∀ c : BitVec 8, isDigit c = true →
      c.signExtend 32 = (ch '0').signExtend 32 + BitVec.ofNat 32 (digitValue c) := by decide
  rw [hdigit c h]
  bv_omega

theorem skipAtoi_eq (h : At fmt i l) (hfuel : l.length < fuel) (n : Nat) :
    skipAtoi fmt fuel i (BitVec.ofNat 32 n) =
      .ok (BitVec.ofNat 32 ((l.takeWhile isDigit).foldl (fun a c => a * 10 + digitValue c) n),
        i + (l.takeWhile isDigit).length) := by
  induction fuel generalizing i l n with
  | zero => omega
  | succ fuel ih =>
    rw [skipAtoi, h.peek]
    change (if isDigit (l.headD 0) then _ else _) = _
    cases l with
    | nil => rfl
    | cons c l =>
      rw [List.headD_cons]
      cases hc : isDigit c with
      | false =>
        rw [List.takeWhile_cons_of_neg (by simp [hc])]
        rfl
      | true =>
        rw [if_pos rfl, skipAtoi_digit hc, ih h.next (by simp at hfuel; omega),
          List.takeWhile_cons_of_pos hc, List.foldl_cons, List.length_cons]
        congr 2
        omega

/-- A flag character sets its flag. -/
theorem flagOf_isFlag {c : BitVec 8} (flags : Flags) (h : isFlag c = false) : flagOf c flags = none := by
  simp only [isFlag, Bool.or_eq_false_iff, decide_eq_false_iff_not] at h
  obtain ⟨⟨⟨⟨hleft, hplus⟩, hspace⟩, hspecial⟩, hzero⟩ := h
  rw [flagOf, if_neg hleft, if_neg hplus, if_neg hspace, if_neg hspecial, if_neg hzero]

/-- The flags of two runs together. -/
def Flags.or (a b : Flags) : Flags where
  zeropad := a.zeropad || b.zeropad
  sign := a.sign || b.sign
  plus := a.plus || b.plus
  space := a.space || b.space
  left := a.left || b.left
  special := a.special || b.special
  small := a.small || b.small

theorem flagOf_eq {c : BitVec 8} (flags : Flags) (h : isFlag c = true) :
    flagOf c flags = some (flags.or (flagsOf [c])) := by
  simp only [isFlag, Bool.or_eq_true, decide_eq_true_iff] at h
  obtain ⟨z, s, p, b, l, x, m⟩ := flags
  rcases h with (((rfl | rfl) | rfl) | rfl) | rfl
  all_goals
    simp [flagOf, Flags.or, flagsOf, ch]

theorem or_flagsOf_cons (flags : Flags) (c : BitVec 8) (run : List (BitVec 8)) :
    (flags.or (flagsOf [c])).or (flagsOf run) = flags.or (flagsOf (c :: run)) := by
  simp only [Flags.or, flagsOf, List.contains_cons]
  simp [Bool.or_assoc]

theorem or_flagsOf_nil (flags : Flags) : flags.or (flagsOf []) = flags := by
  simp [Flags.or, flagsOf]

theorem flagsLoop_flag {flags flags' : Flags} (h : At fmt (i + 1) l) (hf : flagOf (l.headD 0) flags = some flags') :
    flagsLoop fmt (fuel + 1) i flags = flagsLoop fmt fuel (i + 1) flags' := by
  rw [flagsLoop, h.peek]
  simp only [bind, Except.bind, hf]

theorem flagsLoop_stop {flags : Flags} (h : At fmt (i + 1) l) (hf : flagOf (l.headD 0) flags = none) :
    flagsLoop fmt (fuel + 1) i flags = .ok (flags, i + 1) := by
  rw [flagsLoop, h.peek]
  simp only [bind, Except.bind, hf]

theorem flagsLoop_eq (h : At fmt (i + 1) l) (hfuel : l.length < fuel) (flags : Flags) :
    flagsLoop fmt fuel i flags =
      .ok (flags.or (flagsOf (l.takeWhile isFlag)), i + 1 + (l.takeWhile isFlag).length) := by
  induction fuel generalizing i l flags with
  | zero => omega
  | succ fuel ih =>
    cases l with
    | nil =>
      rw [flagsLoop_stop h (flagOf_isFlag flags (by decide)), List.takeWhile_nil, or_flagsOf_nil]
      rfl
    | cons c l =>
      cases hc : isFlag c with
      | false =>
        rw [flagsLoop_stop h (flagOf_isFlag flags hc), List.takeWhile_cons_of_neg (by simp [hc]), or_flagsOf_nil]
        rfl
      | true =>
        rw [flagsLoop_flag h (flagOf_eq flags hc), ih h.next (by simp at hfuel; omega),
          List.takeWhile_cons_of_pos hc, or_flagsOf_cons, List.length_cons]
        congr 2
        omega

/-! ## Field sizes -/

/-- The arguments left, the flags and a field size. -/
structure Sized where
  args : List (BitVec 32)
  flags : Flags
  size : BitVec 32

/-- What the code makes of a width. -/
def FieldSize.width (f : FieldSize) (args : List (BitVec 32)) (flags : Flags) : Except Fault Sized :=
  match f with
  | .absent => .ok ⟨args, flags, -1⟩
  | .digits n => .ok ⟨args, flags, BitVec.ofNat 32 n⟩
  | .star => do
    let (w, args) ← vaArg args
    if w.toInt < 0 then .ok ⟨args, { flags with left := true }, -w⟩
    else .ok ⟨args, flags, w⟩

theorem head?_eq_some {c : BitVec 8} (hc : c ≠ 0) : l.head? = some c ↔ l.headD 0 = c := by
  cases l with
  | nil => simpa using hc.symm
  | cons => simp

/-- The first byte decides what a field size is. -/
theorem fieldOf_eq (l : List (BitVec 8)) :
    fieldOf l =
      if isDigit (l.headD 0) then .digits (valueOf 10 (l.takeWhile isDigit))
      else if l.headD 0 = ch '*' then .star
      else .absent := by
  rw [fieldOf]
  simp only [head?_eq_some (show ch '*' ≠ 0 by decide)]
  cases l with
  | nil => rfl
  | cons c l =>
    rw [List.headD_cons]
    cases hc : isDigit c with
    | false => simp [hc]
    | true => simp [hc]

theorem takeWhile_of_head (h : isDigit (l.headD 0) = false) : l.takeWhile isDigit = [] := by
  cases l with
  | nil => rfl
  | cons c l => exact List.takeWhile_cons_of_neg (by simpa using h)

theorem fieldWidth_eq (h : At fmt i l) (hfuel : l.length < fuel) (args : List (BitVec 32))
    (flags : Flags) :
    fieldWidth fmt fuel i args flags = ((fieldOf l).width args flags).map fun s =>
      ⟨i + (l.takeWhile isDigit).length, s.args, s.flags, s.size⟩ := by
  rw [fieldWidth, h.peek, fieldOf_eq]
  change (if isDigit (l.headD 0) then _ else _) = _
  cases hdigit : isDigit (l.headD 0) with
  | true =>
    rw [if_pos rfl, if_pos rfl]
    have hatoi : skipAtoi fmt fuel i 0 = _ := skipAtoi_eq h hfuel 0
    rw [hatoi]
    rfl
  | false =>
    simp only [Bool.false_eq_true, if_false, takeWhile_of_head hdigit]
    split
    · cases args with
      | nil => rfl
      | cons w args =>
        change (if w.toInt < 0 then _ else _) = Except.map _ (if w.toInt < 0 then _ else _)
        split <;> rfl
    · rfl

/-- What the code makes of a precision. -/
def FieldSize.precision (f : Option FieldSize) (args : List (BitVec 32)) (flags : Flags) :
    Except Fault Sized :=
  match f with
  | none => .ok ⟨args, flags, -1⟩
  | some .absent => .ok ⟨args, flags, 0⟩
  | some (.digits n) =>
    .ok ⟨args, flags, if (BitVec.ofNat 32 n).toInt < 0 then 0 else BitVec.ofNat 32 n⟩
  | some .star => do
    let (p, args) ← vaArg args
    .ok ⟨args, flags, if p.toInt < 0 then 0 else p⟩

/-- The step over a precision. -/
theorem precisionOf_eq (h : At fmt i l) (hfuel : l.length < fuel) :
    ∃ j, At fmt j (precisionField l).2 ∧ ∀ args flags,
      precisionOf fmt fuel i args flags =
        (FieldSize.precision (precisionField l).1 args flags).map fun s =>
          ⟨j, s.args, s.flags, s.size⟩ := by
  rw [precisionField]
  simp only [head?_eq_some (show ch '.' ≠ 0 by decide)]
  by_cases hpoint : l.headD 0 = ch '.'
  · rw [if_pos hpoint]
    cases l with
    | nil => exact absurd hpoint (by decide)
    | cons c l =>
      have hnext := h.next
      refine ⟨_, hnext.dropWhile isDigit, fun args flags => ?_⟩
      rw [precisionOf, h.peek, ok_bind, if_pos hpoint, hnext.peek, List.tail_cons, ok_bind, fieldOf_eq]
      cases hdigit : isDigit (l.headD 0) with
      | true =>
        have hatoi : skipAtoi fmt fuel (i + 1) 0 = _ := skipAtoi_eq hnext (by simp at hfuel; omega) 0
        rw [hatoi]
        rfl
      | false =>
        simp only [Bool.false_eq_true, if_false, takeWhile_of_head hdigit]
        split
        · cases args with
          | nil => rfl
          | cons p args => rfl
        · rfl
  · rw [if_neg hpoint]
    refine ⟨i, h, fun args flags => ?_⟩
    rw [precisionOf, h.peek, ok_bind, if_neg hpoint]
    rfl

theorem skipQualifier_eq (h : At fmt i l) :
    ∃ j, At fmt j (dropQualifier l) ∧ skipQualifier fmt i = .ok j := by
  rw [skipQualifier, h.peek, dropQualifier]
  cases l with
  | nil => exact ⟨i, h, rfl⟩
  | cons c l =>
    change ∃ j, At fmt j (if isQualifier c then l else c :: l) ∧
      Except.ok (if c = ch 'h' ∨ c = ch 'l' ∨ c = ch 'L' then i + 1 else i) = .ok j
    have hiff : isQualifier c = true ↔ c = ch 'h' ∨ c = ch 'l' ∨ c = ch 'L' := by
      simp [isQualifier, or_assoc]
    by_cases hq : isQualifier c = true
    · rw [if_pos hq, if_pos (hiff.mp hq)]
      exact ⟨i + 1, h.next, rfl⟩
    · rw [if_neg hq, if_neg fun hor => hq (hiff.mpr hor)]
      exact ⟨i, h, rfl⟩

/-! ## The loop -/

/-- The tokens one after the other, each with the conversions of the code. -/
def printTokens (str : BitVec 32 → Option (List (BitVec 8))) :
    List Token → List (BitVec 32) → List (BitVec 8) → List (BitVec 32 × BitVec 32) →
      Except Fault Printed
  | [], _, out, stores => .ok ⟨out ++ [0], BitVec.ofNat 32 out.length, stores⟩
  | .lit c :: ts, args, out, stores => printTokens str ts args (out ++ [c]) stores
  | .dir d :: ts, args, out, stores => do
    let w ← d.width.width args d.flags
    let p ← FieldSize.precision d.precision w.args w.flags
    let r ← convert str d.conv p.flags w.size p.size p.args out.length
    printTokens str ts r.args (out ++ r.out) (stores ++ r.stores)

variable {str : BitVec 32 → Option (List (BitVec 8))}

theorem or_flagsOf_start (run : List (BitVec 8)) : ({} : Flags).or (flagsOf run) = flagsOf run := by
  simp [Flags.or, flagsOf]

/-- A directive up to its conversion: the code reads what `directiveOf` says and stands on the
conversion character. -/
theorem directive_eq {α : Type} (h : At fmt (i + 1) l) (args : List (BitVec 32))
    (k : Flags → BitVec 32 → BitVec 32 → List (BitVec 32) → Nat → Except Fault α) :
    ∃ j, At fmt j (directiveOf l).2 ∧ 0 < j ∧
      (do
        let (flags, i) ← flagsLoop fmt (fmt.length + 1) i {}
        let w ← fieldWidth fmt (fmt.length + 1) i args flags
        let p ← precisionOf fmt (fmt.length + 1) w.i w.args w.flags
        let i ← skipQualifier fmt p.i
        k p.flags w.size p.size p.args i) =
      (do
        let w ← (directiveOf l).1.width.width args (directiveOf l).1.flags
        let p ← FieldSize.precision (directiveOf l).1.precision w.args w.flags
        k p.flags w.size p.size p.args j) := by
  have hsizes := h.dropWhile isFlag
  have hpoint := hsizes.dropWhile isDigit
  have hfuel : ∀ {i l}, At fmt i l → l.length < fmt.length + 1 := fun h =>
    Nat.lt_succ_of_le (h.length ▸ Nat.le_add_left _ _)
  rw [flagsLoop_eq h (hfuel h), or_flagsOf_start, ok_bind]
  dsimp only
  rw [fieldWidth_eq hsizes (hfuel hsizes), map_bind]
  obtain ⟨m, hm, hprecision⟩ := precisionOf_eq hpoint (hfuel hpoint)
  obtain ⟨j, hj, hqualifier⟩ := skipQualifier_eq hm
  refine ⟨j, hj, ?_, ?_⟩
  · have hle := length_directiveOf_le l
    have hfrom := h.length
    have hto : j + (directiveOf l).2.length = fmt.length := hj.length
    omega
  · simp only [hprecision, map_bind, hqualifier, ok_bind]
    rfl

/-- The loop prints the tokens of what is left of the format. -/
theorem vsprintfLoop_eq (hnul : 0 ∉ fmt) (h : At fmt i l) (hfuel : l.length < fuel)
    (args : List (BitVec 32)) (out : List (BitVec 8)) (stores : List (BitVec 32 × BitVec 32)) :
    vsprintfLoop str fmt fuel i args out stores = printTokens str (tokens l) args out stores := by
  induction fuel generalizing i l args out stores with
  | zero => omega
  | succ fuel ih =>
    rw [vsprintfLoop, h.peek, ok_bind]
    cases l with
    | nil => rfl
    | cons c l =>
      rw [List.headD_cons]
      have hc : c ≠ 0 := fun hzero => hnul (h.mem (hzero ▸ List.mem_cons_self))
      have hlen : l.length < fuel := Nat.lt_of_succ_lt_succ hfuel
      rw [if_neg hc, tokens_cons]
      by_cases hpercent : c = ch '%'
      · rw [if_neg (not_not.mpr hpercent), if_pos hpercent]
        obtain ⟨j, hj, hpos, hdir⟩ := directive_eq h.next args
          fun flags width precision args i => do
            let c ← peek fmt i
            let r ← convert str c flags width precision args out.length
            let i := if c = 0 then i - 1 else i
            vsprintfLoop str fmt fuel (i + 1) r.args (out ++ r.out) (stores ++ r.stores)
        rw [hdir, printTokens]
        simp only [hj.peek, ok_bind]
        refine bind_congr fun w => bind_congr fun p => bind_congr fun r => ?_
        have hle := length_directiveOf_le l
        cases hrest : (directiveOf l).2 with
        | nil =>
          -- the format ends here, and the index is on the NUL again
          rw [hrest] at hj
          rw [List.headD_nil, if_pos rfl, Nat.sub_add_cancel hpos]
          exact ih hj (by simp; omega) _ _ _
        | cons k rest =>
          rw [hrest] at hj hle
          have hk : k ≠ 0 := fun hzero => hnul (hj.mem (hzero ▸ List.mem_cons_self))
          rw [List.headD_cons, if_neg hk]
          exact ih hj.next (by simp at hle; omega) _ _ _
      · rw [if_pos hpercent, if_neg hpercent, printTokens]
        exact ih h.next hlen args _ stores

/-- A directive, once its parts are known. -/
theorem printTokens_dir {d : Directive} {ts : List Token} {args : List (BitVec 32)}
    {out : List (BitVec 8)} {stores : List (BitVec 32 × BitVec 32)} {w p : Sized} {r : Conv}
    (hw : d.width.width args d.flags = .ok w)
    (hp : FieldSize.precision d.precision w.args w.flags = .ok p)
    (hr : convert str d.conv p.flags w.size p.size p.args out.length = .ok r) :
    printTokens str (.dir d :: ts) args out stores =
      printTokens str ts r.args (out ++ r.out) (stores ++ r.stores) := by
  rw [printTokens, hw, ok_bind, hp, ok_bind, hr, ok_bind]

/-- What is written stays in front. -/
theorem printTokens_prefix {ts : List Token} {args : List (BitVec 32)} {out : List (BitVec 8)}
    {stores : List (BitVec 32 × BitVec 32)} {r : Printed}
    (h : printTokens str ts args out stores = .ok r) : out <+: r.buf := by
  induction ts generalizing args out stores with
  | nil =>
    cases h
    exact List.prefix_append out [0]
  | cons t ts ih =>
    cases t with
    | lit c => exact (List.prefix_append out [c]).trans (ih h)
    | dir d =>
      obtain ⟨w, -, h⟩ := bind_eq_ok h
      obtain ⟨p, -, h⟩ := bind_eq_ok h
      obtain ⟨c, -, h⟩ := bind_eq_ok h
      exact (List.prefix_append out c.out).trans (ih h)

/-- The scanner reads the tokens of the format, and no more of it than that. -/
theorem vsprintf_eq (hnul : 0 ∉ fmt) (args : List (BitVec 32)) :
    vsprintf str fmt args = printTokens str (tokens fmt) args [] [] :=
  vsprintfLoop_eq hnul (At.start fmt) (Nat.lt_succ_self _) args [] []

end MockOs.Kernel
