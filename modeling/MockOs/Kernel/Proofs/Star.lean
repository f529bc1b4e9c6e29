import MockOs.Kernel.Proofs.Vsprintf

/-!
# Field sizes given as arguments

For a `*` the code takes the width or the precision from the arguments but does not step over
the `*`. The `*` is then the conversion character, an unknown one: the text is `%*` and the
rest of the directive, and the value is left to the next one.
-/

namespace MockOs.Kernel

open Numeral

variable {str : BitVec 32 → Option (List (BitVec 8))} {fl rest : List (BitVec 8)}
  {conv : BitVec 8}

/-! ## Reading a directive back -/

theorem takeWhile_run {p : BitVec 8 → Bool} {run l : List (BitVec 8)} {c : BitVec 8}
    (hrun : ∀ a ∈ run, p a = true) (hc : p c = false) :
    (run ++ c :: l).takeWhile p = run ∧ (run ++ c :: l).dropWhile p = c :: l := by
  rw [List.takeWhile_append_of_pos hrun, List.dropWhile_append_of_pos hrun,
    List.takeWhile_cons_of_neg (by simp [hc]), List.dropWhile_cons_of_neg (by simp [hc])]
  exact ⟨List.append_nil run, rfl⟩

/-- A character that ends every part of a directive. -/
structure ConvChar (c : BitVec 8) : Prop where
  flag : isFlag c = false
  digit : isDigit c = false
  point : c ≠ ch '.'
  star : c ≠ ch '*'
  qualifier : isQualifier c = false

theorem digitChar_isDigit : ∀ d < 10, isDigit (digitChar false d) = true := by decide

theorem numeral_isDigit (n : Nat) : ∀ c ∈ numeral false 10 n, isDigit c = true := by
  intro c hc
  rw [numeral] at hc
  split at hc
  · rw [List.mem_singleton] at hc
    rw [hc]
    exact digitChar_isDigit 0 (by decide)
  · rw [List.mem_reverse, List.mem_map] at hc
    obtain ⟨d, hd, rfl⟩ := hc
    exact digitChar_isDigit d (Nat.digits_lt_base (by decide) hd)

/-- A number other than 0 does not begin with a flag character. -/
theorem numeral_head {n : Nat} (hn : 0 < n) :
    ∃ c l, numeral false 10 n = c :: l ∧ isFlag c = false := by
  have hne : Nat.digits 10 n ≠ [] := Nat.digits_ne_nil_iff_ne_zero.mpr (by omega)
  have hlast := Nat.getLast_digit_ne_zero 10 (m := n) (by omega)
  have hlt : (Nat.digits 10 n).getLast hne < 10 :=
    Nat.digits_lt_base (by decide) (List.getLast_mem hne)
  have hflag : ∀ d < 10, d ≠ 0 → isFlag (digitChar false d) = false := by decide
  refine ⟨_, (Nat.digits 10 n).dropLast.reverse.map (digitChar false), ?_, hflag _ hlt hlast⟩
  rw [numeral_of_pos hn, ← List.map_reverse]
  nth_rewrite 1 [← List.dropLast_append_getLast hne]
  rw [List.reverse_append, List.reverse_singleton, List.singleton_append, List.map_cons]

/-- A size in digits. -/
theorem fieldOf_numeral (n : Nat) {c : BitVec 8} (hc : isDigit c = false) (l : List (BitVec 8)) :
    fieldOf (numeral false 10 n ++ c :: l) = .digits n ∧
      (numeral false 10 n ++ c :: l).dropWhile isDigit = c :: l := by
  obtain ⟨htake, hdrop⟩ := takeWhile_run (l := l) (numeral_isDigit n) hc
  refine ⟨?_, hdrop⟩
  rw [fieldOf, htake, if_pos, valueOf_numeral (by decide) (by decide)]
  exact List.length_pos_iff.mp length_numeral_pos

/-- No size at all. -/
theorem fieldOf_absent {c : BitVec 8} (hc : isDigit c = false) (hstar : c ≠ ch '*')
    (l : List (BitVec 8)) :
    fieldOf (c :: l) = .absent ∧ (c :: l).dropWhile isDigit = c :: l := by
  refine ⟨?_, List.dropWhile_cons_of_neg (by simp [hc])⟩
  rw [fieldOf_eq, List.headD_cons, hc, if_neg Bool.noConfusion, if_neg hstar]

/-- The digits of a width, or nothing. -/
def widthText (w : Option Nat) : List (BitVec 8) := w.elim [] (numeral false 10)

/-- A precision, or nothing. -/
def precisionText (p : Option Nat) : List (BitVec 8) := p.elim [] fun n => ch '.' :: numeral false 10 n

theorem precisionField_text (p : Option Nat) (hconv : ConvChar conv) (rest : List (BitVec 8)) :
    precisionField (precisionText p ++ conv :: rest) = (p.map .digits, conv :: rest) := by
  cases p with
  | none =>
    rw [precisionText, Option.elim_none, List.nil_append, precisionField, List.head?_cons, if_neg]
    · rfl
    · simpa using hconv.point
  | some n =>
    obtain ⟨hfield, hdrop⟩ := fieldOf_numeral n hconv.digit rest
    rw [precisionText, Option.elim_some, List.cons_append, precisionField, List.head?_cons,
      if_pos rfl, List.tail_cons, hfield, hdrop]
    rfl

theorem precisionText_head (p : Option Nat) (hconv : ConvChar conv) (rest : List (BitVec 8)) :
    ∃ c l, precisionText p ++ conv :: rest = c :: l ∧ isFlag c = false ∧ isDigit c = false ∧
      c ≠ ch '*' := by
  cases p with
  | none => exact ⟨conv, rest, rfl, hconv.flag, hconv.digit, hconv.star⟩
  | some n => exact ⟨ch '.', _, rfl, by decide, by decide, by decide⟩

/-- The width and what follows it. -/
theorem fieldOf_text {w p : Option Nat} (hw : ∀ n, w = some n → 0 < n) (hconv : ConvChar conv)
    (rest : List (BitVec 8)) :
    (∃ c l, widthText w ++ (precisionText p ++ conv :: rest) = c :: l ∧ isFlag c = false) ∧
    fieldOf (widthText w ++ (precisionText p ++ conv :: rest)) = w.elim .absent .digits ∧
    (widthText w ++ (precisionText p ++ conv :: rest)).dropWhile isDigit =
      precisionText p ++ conv :: rest := by
  obtain ⟨c, l, heq, hflag, hdigit, hstar⟩ := precisionText_head p hconv rest
  rw [heq]
  cases w with
  | none => exact ⟨⟨c, l, rfl, hflag⟩, fieldOf_absent hdigit hstar l⟩
  | some n =>
    obtain ⟨c', l', hnum, hflag'⟩ := numeral_head (hw n rfl)
    refine ⟨⟨c', l' ++ c :: l, ?_, hflag'⟩, fieldOf_numeral n hdigit l⟩
    rw [widthText, Option.elim_some, hnum, List.cons_append]

/-- A directive with its sizes in digits reads back as it was written. -/
theorem directiveOf_text {w p : Option Nat} (hfl : ∀ c ∈ fl, isFlag c = true)
    (hw : ∀ n, w = some n → 0 < n) (hconv : ConvChar conv) (rest : List (BitVec 8)) :
    directiveOf (fl ++ (widthText w ++ (precisionText p ++ conv :: rest))) =
      (⟨flagsOf fl, w.elim .absent .digits, p.map .digits, conv⟩, conv :: rest) := by
  obtain ⟨⟨c, l, heq, hflag⟩, hfield, hdrop⟩ := fieldOf_text (p := p) hw hconv rest
  obtain ⟨hrun, hsizes⟩ := takeWhile_run (l := l) hfl hflag
  rw [← heq] at hrun hsizes
  have hqualifier : dropQualifier (conv :: rest) = conv :: rest :=
    if_neg (by simp [hconv.qualifier])
  unfold directiveOf
  dsimp only
  rw [hsizes, hdrop, precisionField_text p hconv rest, hrun, hfield, hqualifier]
  rfl

/-- A `*` for the width is what the conversion character is taken to be. -/
theorem directiveOf_width (hfl : ∀ c ∈ fl, isFlag c = true) (l : List (BitVec 8)) :
    directiveOf (fl ++ ch '*' :: l) = (⟨flagsOf fl, .star, none, ch '*'⟩, ch '*' :: l) := by
  obtain ⟨hrun, hsizes⟩ := takeWhile_run (l := l) (c := ch '*') hfl (by decide)
  unfold directiveOf
  dsimp only
  rw [hsizes, hrun]
  rfl

/-- And so is one for the precision. -/
theorem directiveOf_precision (hfl : ∀ c ∈ fl, isFlag c = true) (l : List (BitVec 8)) :
    directiveOf (fl ++ ch '.' :: ch '*' :: l) =
      (⟨flagsOf fl, .absent, some .star, ch '*'⟩, ch '*' :: l) := by
  obtain ⟨hrun, hsizes⟩ := takeWhile_run (l := ch '*' :: l) (c := ch '.') hfl (by decide)
  unfold directiveOf
  dsimp only
  rw [hsizes, hrun]
  rfl

/-! ## The two formats -/

/-- `%[flags]*conv`, `%[flags].*conv` or both, for the sizes that are given. -/
def starFormat (fl : List (BitVec 8)) (w p : Option (BitVec 32)) (conv : BitVec 8) :
    List (BitVec 8) :=
  ch '%' :: fl ++ w.elim [] (fun _ => [ch '*']) ++ p.elim [] (fun _ => [ch '.', ch '*']) ++ [conv]

/-- The same directive with the sizes in digits: a negative width is a `-` and its absolute
value, a negative precision is 0. -/
def literalFormat (fl : List (BitVec 8)) (w p : Option (BitVec 32)) (conv : BitVec 8) :
    List (BitVec 8) :=
  ch '%' :: fl ++ w.elim [] (fun w => if w.toInt < 0 then [ch '-'] else []) ++
    widthText (w.map fun w => w.toInt.natAbs) ++ precisionText (p.map fun p => p.toInt.toNat) ++
    [conv]

theorem starFormat_cons (fl : List (BitVec 8)) (w p : Option (BitVec 32)) (conv : BitVec 8)
    (rest : List (BitVec 8)) :
    starFormat fl w p conv ++ rest = ch '%' :: (fl ++ (w.elim [] (fun _ => [ch '*']) ++
      (p.elim [] (fun _ => [ch '.', ch '*']) ++ conv :: rest))) := by
  simp [starFormat]

/-- The first token of a format with a `*` has the `*` for its conversion. -/
theorem tokens_star {w p : Option (BitVec 32)} (conv : BitVec 8) (rest : List (BitVec 8))
    (hfl : ∀ c ∈ fl, isFlag c = true) (hstar : w.isSome ∨ p.isSome) :
    ∃ d ts, tokens (starFormat fl w p conv ++ rest) = .dir d :: ts ∧ d.conv = ch '*' := by
  rw [starFormat_cons, tokens_cons, if_pos rfl]
  refine ⟨_, _, rfl, ?_⟩
  cases w with
  | some w =>
    change (directiveOf (fl ++ ch '*' :: _)).1.conv = _
    rw [directiveOf_width hfl]
  | none =>
    cases p with
    | some p =>
      change (directiveOf (fl ++ ch '.' :: ch '*' :: _)).1.conv = _
      rw [directiveOf_precision hfl]
    | none => simp at hstar

/-- So its text begins with `%`. -/
theorem star_head {w p : Option (BitVec 32)} (hfl : ∀ c ∈ fl, isFlag c = true)
    (hstar : w.isSome ∨ p.isSome) (hnul : 0 ∉ starFormat fl w p conv ++ rest)
    {args : List (BitVec 32)} {r : Printed}
    (h : vsprintf str (starFormat fl w p conv ++ rest) args = .ok r) :
    r.buf.head? = some (ch '%') := by
  obtain ⟨d, ts, hts, hconv⟩ := tokens_star conv rest hfl hstar
  rw [vsprintf_eq hnul, hts] at h
  obtain ⟨w, -, h⟩ := bind_eq_ok h
  obtain ⟨p, -, h⟩ := bind_eq_ok h
  obtain ⟨c, hc, h⟩ := bind_eq_ok h
  rw [hconv, convert_literal (by decide)] at hc
  cases hc
  obtain ⟨l, hl⟩ := printTokens_prefix h
  rw [← hl]
  rfl

/-- The flags of the literal directive. -/
def literalFlags (fl : List (BitVec 8)) (w : Option (BitVec 32)) : List (BitVec 8) :=
  fl ++ w.elim [] fun w => if w.toInt < 0 then [ch '-'] else []

theorem literalFlags_isFlag (hfl : ∀ c ∈ fl, isFlag c = true) (w : Option (BitVec 32)) :
    ∀ c ∈ literalFlags fl w, isFlag c = true := by
  intro c hc
  rcases List.mem_append.mp hc with hc | hc
  · exact hfl c hc
  · cases w with
    | none => cases hc
    | some w =>
      rw [Option.elim_some] at hc
      split at hc
      · rw [List.mem_singleton.mp hc]
        decide
      · cases hc

/-- The literal directive. -/
def literalDirective (fl : List (BitVec 8)) (w p : Option (BitVec 32)) (conv : BitVec 8) :
    Directive :=
  ⟨flagsOf (literalFlags fl w), (w.map fun w => w.toInt.natAbs).elim .absent .digits,
    (p.map fun p => p.toInt.toNat).map .digits, conv⟩

theorem tokens_literal {w p : Option (BitVec 32)} (hfl : ∀ c ∈ fl, isFlag c = true)
    (hw : ∀ x, w = some x → x ≠ 0) (hconv : ConvChar conv) :
    tokens (literalFormat fl w p conv ++ rest) =
      .dir (literalDirective fl w p conv) :: tokens rest := by
  have hformat : literalFormat fl w p conv ++ rest = ch '%' :: (literalFlags fl w ++
      (widthText (w.map fun w => w.toInt.natAbs) ++
        (precisionText (p.map fun p => p.toInt.toNat) ++ conv :: rest))) := by
    simp [literalFormat, literalFlags]
  have hpos : ∀ n, (w.map fun w => w.toInt.natAbs) = some n → 0 < n := by
    intro n hn
    obtain ⟨x, hx, rfl⟩ := Option.map_eq_some_iff.mp hn
    have hne : x.toInt ≠ 0 := fun hzero => hw x hx (BitVec.eq_of_toInt_eq hzero)
    omega
  rw [hformat, tokens_cons, if_pos rfl, directiveOf_text (literalFlags_isFlag hfl w) hpos hconv]
  rfl

/-! ## Star and literal field sizes -/

/-- A directive with a `*` for its width, its precision or both, and the arguments for them. -/
structure StarDirective (fl : List (BitVec 8)) (w p : Option (BitVec 32)) (conv : BitVec 8) :
    Prop where
  flags : ∀ c ∈ fl, isFlag c = true
  conv : conv ∈ "diuoxXpsc".toList.map ch
  star : w.isSome ∨ p.isSome
  width : ∀ x, w = some x → x ≠ 0 ∧ x.toInt.natAbs < 2 ^ 30
  precision : ∀ x, p = some x → x.toInt.natAbs < 2 ^ 30

variable {w p : Option (BitVec 32)}

theorem StarDirective.plain (h : StarDirective fl w p conv) : ConvChar conv := by
  have hall : ∀ c ∈ "diuoxXpsc".toList.map ch, isFlag c = false ∧ isDigit c = false ∧
      c ≠ ch '.' ∧ c ≠ ch '*' ∧ isQualifier c = false := by decide
  obtain ⟨hflag, hdigit, hpoint, hstar, hqualifier⟩ := hall conv h.conv
  exact ⟨hflag, hdigit, hpoint, hstar, hqualifier⟩

theorem StarDirective.takesArg (h : StarDirective fl w p conv) : takesArg conv = true := by
  have hall : ∀ c ∈ "diuoxXpsc".toList.map ch, Kernel.takesArg c = true := by decide
  exact hall conv h.conv

theorem StarDirective.conv_ne (h : StarDirective fl w p conv) : conv ≠ 0 ∧ conv ≠ ch 'n' := by
  have hall : ∀ c ∈ "diuoxXpsc".toList.map ch, c ≠ 0 ∧ c ≠ ch 'n' := by decide
  exact hall conv h.conv

theorem zero_notMem_flags {fl : List (BitVec 8)} (hfl : ∀ c ∈ fl, isFlag c = true) : 0 ∉ fl := by
  intro hmem
  have hzero := hfl 0 hmem
  revert hzero
  decide

theorem zero_notMem_numeral (n : Nat) : 0 ∉ numeral false 10 n := by
  intro hmem
  have hzero := numeral_isDigit n 0 hmem
  revert hzero
  decide

theorem zero_notMem_texts (w p : Option Nat) : 0 ∉ widthText w ∧ 0 ∉ precisionText p := by
  constructor
  · cases w with
    | none => exact List.not_mem_nil
    | some n => exact zero_notMem_numeral n
  · cases p with
    | none => exact List.not_mem_nil
    | some n =>
      intro hmem
      rcases List.mem_cons.mp hmem with hmem | hmem
      · revert hmem
        decide
      · exact zero_notMem_numeral n hmem

theorem StarDirective.nul (h : StarDirective fl w p conv) (hrest : 0 ∉ rest) :
    0 ∉ starFormat fl w p conv ++ rest ∧ 0 ∉ literalFormat fl w p conv ++ rest := by
  have hfl := zero_notMem_flags h.flags
  have hlf := zero_notMem_flags (literalFlags_isFlag h.flags w)
  have hconv : 0 ∉ [conv] := fun hmem => h.conv_ne.1 (List.mem_singleton.mp hmem).symm
  have hpercent : (0 : BitVec 8) ≠ ch '%' := by decide
  obtain ⟨hwidth, hprecision⟩ := zero_notMem_texts (w.map fun w => w.toInt.natAbs)
    (p.map fun p => p.toInt.toNat)
  constructor
  · have hw : 0 ∉ w.elim [] fun _ => [ch '*'] := by
      cases w with
      | none => exact List.not_mem_nil
      | some => change 0 ∉ [ch '*']; decide
    have hp : 0 ∉ p.elim [] fun _ => [ch '.', ch '*'] := by
      cases p with
      | none => exact List.not_mem_nil
      | some => change 0 ∉ [ch '.', ch '*']; decide
    simp only [starFormat, List.cons_append, List.mem_cons, List.mem_append, not_or]
    exact ⟨hpercent, ⟨⟨⟨hfl, hw⟩, hp⟩, by simpa using hconv⟩, hrest⟩
  · have hformat : literalFormat fl w p conv ++ rest = ch '%' :: (literalFlags fl w ++
        widthText (w.map fun w => w.toInt.natAbs) ++
        precisionText (p.map fun p => p.toInt.toNat) ++ [conv] ++ rest) := by
      simp [literalFormat, literalFlags]
    rw [hformat]
    simp only [List.mem_cons, List.mem_append, not_or]
    exact ⟨hpercent, ⟨⟨⟨hlf, hwidth⟩, hprecision⟩, by simpa using hconv⟩, hrest⟩

theorem StarDirective.literal_plain (h : StarDirective fl w p conv) :
    (literalDirective fl w p conv).plain := by
  have hw : ∀ w : Option (BitVec 32), (∀ x, w = some x → x.toInt.natAbs < 2 ^ 30) →
      (w.map fun w => w.toInt.natAbs).elim FieldSize.absent .digits ≠ .star ∧
      ((w.map fun w => w.toInt.natAbs).elim FieldSize.absent .digits).size < 2 ^ 30 := by
    intro w hx
    cases w with
    | none => decide
    | some x => exact ⟨FieldSize.noConfusion, hx x rfl⟩
  have hp : ∀ p : Option (BitVec 32), (∀ x, p = some x → x.toInt.natAbs < 2 ^ 30) →
      ((p.map fun p => p.toInt.toNat).map FieldSize.digits) ≠ some .star ∧
      (((p.map fun p => p.toInt.toNat).map FieldSize.digits).map FieldSize.size).getD 0 < 2 ^ 30 := by
    intro p hx
    cases p with
    | none => decide
    | some x =>
      have hlt := hx x rfl
      refine ⟨fun heq => FieldSize.noConfusion (Option.some.inj heq), ?_⟩
      change x.toInt.toNat < 2 ^ 30
      omega
  obtain ⟨hwidth, hsize⟩ := hw w fun x hx => (h.width x hx).2
  obtain ⟨hprecision, hlimit⟩ := hp p h.precision
  exact ⟨hwidth, hprecision, hsize, hlimit⟩

/-- The literal directive takes the value, and what follows goes on behind it. -/
theorem literal_eq (h : StarDirective fl w p conv) {v : BitVec 32}
    (hv : conv = ch 's' → ∃ s, str v = some s ∧ s.length < 2 ^ 30) : ∃ out,
    ∀ rest args, 0 ∉ rest → vsprintf str (literalFormat fl w p conv ++ rest) (v :: args) =
      printTokens str (tokens rest) args out [] := by
  refine ⟨(literalDirective fl w p conv).text str v, fun rest args hrest => ?_⟩
  have hstores : (literalDirective fl w p conv).conv ≠ ch 'n' := h.conv_ne.2
  have hmore : (literalDirective fl w p conv).rest (v :: args) = args := if_pos h.takesArg
  rw [vsprintf_eq (h.nul hrest).2, tokens_literal h.flags (fun x hx => (h.width x hx).1) h.plain,
    printTokens_plain h.literal_plain (fun _ => List.cons_ne_nil _ _) hv, hmore, if_neg hstores]
  rfl

theorem convert_star (flags : Flags) (width precision : BitVec 32) (args : List (BitVec 32))
    (count : Nat) :
    convert str (ch '*') flags width precision args count =
      .ok { out := [ch '%', ch '*'], args := args } :=
  convert_literal (by decide) args count

/-- A `*` for the width takes an argument and prints `%*`. -/
theorem printTokens_width (flags : Flags) (ts : List Token) (w : BitVec 32)
    (args : List (BitVec 32)) :
    printTokens str (.dir ⟨flags, .star, none, ch '*'⟩ :: ts) (w :: args) [] [] =
      printTokens str ts args [ch '%', ch '*'] [] := by
  have hwidth : ∃ s, FieldSize.star.width (w :: args) flags = .ok s ∧ s.args = args := by
    change ∃ s, (if w.toInt < 0 then Except.ok _ else .ok _) = .ok s ∧ _
    split <;> exact ⟨_, rfl, rfl⟩
  obtain ⟨s, hs, rfl⟩ := hwidth
  rw [printTokens_dir (p := ⟨s.args, s.flags, -1⟩) hs rfl (convert_star _ _ _ _ _)]
  rfl

/-- And so does one for the precision. -/
theorem printTokens_precision (flags : Flags) (ts : List Token) (p : BitVec 32)
    (args : List (BitVec 32)) :
    printTokens str (.dir ⟨flags, .absent, some .star, ch '*'⟩ :: ts) (p :: args) [] [] =
      printTokens str ts args [ch '%', ch '*'] [] := by
  rw [printTokens_dir (p := ⟨args, flags, if p.toInt < 0 then 0 else p⟩) rfl rfl
    (convert_star _ _ _ _ _)]
  rfl

/-- A `*` takes its argument and is printed with the rest of the directive; the next argument
is there for what follows. -/
theorem star_eq (str : BitVec 32 → Option (List (BitVec 8))) (h : StarDirective fl w p conv)
    (v : BitVec 32) : ∃ out x more,
    ∀ rest args, 0 ∉ rest →
      vsprintf str (starFormat fl w p conv ++ rest) (w.toList ++ p.toList ++ v :: args) =
        printTokens str (tokens rest) (x :: (more ++ args)) out [] := by
  have hlit : ∀ l, tokens (conv :: l) = .lit conv :: tokens l := by
    have hall : ∀ c ∈ "diuoxXpsc".toList.map ch, c ≠ ch '%' := by decide
    intro l
    rw [tokens_cons, if_neg (hall conv h.conv)]
  cases w with
  | some w =>
    have htokens : ∀ l, tokens (ch '%' :: (fl ++ ch '*' :: l)) =
        .dir ⟨flagsOf fl, .star, none, ch '*'⟩ :: tokens l := by
      intro l
      rw [tokens_cons, if_pos rfl, directiveOf_width h.flags]
      rfl
    cases p with
    | none =>
      refine ⟨[ch '%', ch '*', conv], v, [], fun rest args hrest => ?_⟩
      rw [vsprintf_eq (h.nul hrest).1, starFormat_cons]
      change printTokens str (tokens (ch '%' :: (fl ++ ch '*' :: conv :: rest))) (w :: v :: args) _ _ = _
      rw [htokens, printTokens_width, hlit]
      rfl
    | some p =>
      refine ⟨[ch '%', ch '*', ch '.', ch '*', conv], p, [v], fun rest args hrest => ?_⟩
      rw [vsprintf_eq (h.nul hrest).1, starFormat_cons]
      change printTokens str (tokens (ch '%' :: (fl ++ ch '*' :: ch '.' :: ch '*' :: conv :: rest)))
        (w :: p :: v :: args) _ _ = _
      rw [htokens, printTokens_width, tokens_cons, if_neg (by decide), tokens_cons,
        if_neg (by decide), hlit]
      rfl
  | none =>
    cases p with
    | none => exact absurd h.star (by simp)
    | some p =>
      refine ⟨[ch '%', ch '*', conv], v, [], fun rest args hrest => ?_⟩
      rw [vsprintf_eq (h.nul hrest).1, starFormat_cons]
      change printTokens str (tokens (ch '%' :: (fl ++ ch '.' :: ch '*' :: conv :: rest)))
        (p :: v :: args) _ _ = _
      rw [tokens_cons, if_pos rfl, directiveOf_precision h.flags, printTokens_precision,
        List.tail_cons, hlit]
      rfl

/-- The text of the literal directive is in front of what follows. -/
theorem literal_prefix (h : StarDirective fl w p conv) (hrest : 0 ∉ rest)
    {args : List (BitVec 32)} {r : Printed}
    (hr : vsprintf str (literalFormat fl w p conv ++ rest) args = .ok r) :
    ∃ flags width precision c, convert str conv flags width precision args 0 = .ok c ∧
      c.out <+: r.buf := by
  rw [vsprintf_eq (h.nul hrest).2, tokens_literal h.flags (fun x hx => (h.width x hx).1) h.plain] at hr
  obtain ⟨w', p', hw, hp, -⟩ := h.literal_plain.sizes
  rw [printTokens, hw, ok_bind] at hr
  dsimp only at hr
  rw [hp, ok_bind] at hr
  obtain ⟨c, hc, hr⟩ := bind_eq_ok hr
  exact ⟨_, _, _, c, hc, printTokens_prefix hr⟩

/-- `%c` alone. -/
theorem printTokens_char (a : BitVec 32) (args : List (BitVec 32)) (out : List (BitVec 8)) :
    printTokens str (tokens [ch '%', ch 'c']) (a :: args) out [] =
      .ok ⟨out ++ [a.setWidth 8] ++ [0], BitVec.ofNat 32 (out.length + 1), []⟩ := by
  have htokens : tokens [ch '%', ch 'c'] = [.dir ⟨{}, .absent, none, ch 'c'⟩] := by decide
  have hconv : convert str (ch 'c') {} (-1) (-1) (a :: args) out.length =
      .ok { out := [a.setWidth 8], args := args } := by
    change Except.ok ({ out := convChar a {} (-1), args := args } : Conv) = _
    rw [convChar_eq a {} (by decide)]
    rfl
  rw [htokens, printTokens_dir rfl rfl hconv, printTokens, List.length_append]
  rfl

/-- Star and literal sizes never agree: for no directive and no value do they print the same
whatever follows, and for a number they do not print the same with anything that follows. -/
theorem star_never_agrees (h : StarDirective fl w p conv) (v : BitVec 32)
    (hv : conv = ch 's' → ∃ s, str v = some s ∧ s.length < 2 ^ 30) :
    (¬ ∀ rest args r, 0 ∉ rest →
      vsprintf str (literalFormat fl w p conv ++ rest) (v :: args) = .ok r →
      vsprintf str (starFormat fl w p conv ++ rest) (w.toList ++ p.toList ++ v :: args) = .ok r) ∧
    (conv ≠ ch 'c' → conv ≠ ch 's' → ∀ rest args r, 0 ∉ rest →
      vsprintf str (literalFormat fl w p conv ++ rest) (v :: args) = .ok r →
      vsprintf str (starFormat fl w p conv ++ rest) (w.toList ++ p.toList ++ v :: args) ≠ .ok r) := by
  constructor
  · intro hagree
    obtain ⟨out, hliteral⟩ := literal_eq h hv
    obtain ⟨out', x, more, hstar⟩ := star_eq str h v
    -- with nothing behind it, both texts are the same
    have hsame := hagree [] [] _ List.not_mem_nil (hliteral [] [] List.not_mem_nil)
    rw [hstar [] [] List.not_mem_nil] at hsame
    have hout : out' ++ [0] = out ++ [0] := congrArg Printed.buf (Except.ok.inj hsame)
    -- but the star left an argument behind, and a character shows it
    have hchar := hagree [ch '%', ch 'c'] [x + 1] _ (by decide)
      ((hliteral _ _ (by decide)).trans (printTokens_char _ _ _))
    rw [hstar _ _ (by decide), printTokens_char] at hchar
    have hbuf := congrArg Printed.buf (Except.ok.inj hchar)
    rw [List.append_cancel_right hout] at hbuf
    have hbyte : x.setWidth 8 = (x + 1).setWidth 8 := by simpa using hbuf
    bv_omega
  · intro hc hs rest args r hrest hliteral hstar
    obtain ⟨flags, width, precision, c, hconvert, l, hl⟩ := literal_prefix h hrest hliteral
    obtain ⟨base, width', flags', hnumber⟩ :=
      convert_number h.takesArg hc hs h.conv_ne.2 (v :: args) 0
    rw [hnumber] at hconvert
    obtain ⟨hne, hink⟩ := convNumber_ink hconvert
    have hhead := star_head h.flags h.star (h.nul hrest).1 hstar
    obtain ⟨b, out, hout⟩ := List.exists_cons_of_ne_nil hne
    rw [← hl, hout, List.cons_append, List.head?_cons] at hhead
    exact (hink b (hout ▸ List.mem_cons_self)).2 (Option.some.inj hhead)

theorem star_five : StarDirective [] (some 5) none (ch 'd') := by
  refine ⟨fun c hc => absurd hc List.not_mem_nil, by decide, Or.inl rfl, fun x hx => ?_,
    fun x hx => by cases hx⟩
  cases hx
  decide

/-- `%5d` with 7. -/
theorem literal_five :
    vsprintf (fun _ => none) (literalFormat [] (some 5) none (ch 'd') ++ []) [7] =
      .ok ⟨"    7".toList.map ch ++ [0], 5, []⟩ := by
  have hargs : Supplied (fun _ => none)
      (tokens (literalFormat [] (some 5) none (ch 'd') ++ [])) [7] :=
    ⟨fun _ => List.cons_ne_nil _ _, fun h => absurd h (by decide), trivial⟩
  rw [vsprintf_eq (by decide), printTokens_eq (by decide) hargs]
  decide

theorem star_never_agrees_five :
    vsprintf (fun _ => none) (starFormat [] (some 5) none (ch 'd') ++ []) [5, 7] ≠
      .ok ⟨"    7".toList.map ch ++ [0], 5, []⟩ :=
  (star_never_agrees star_five 7 fun h => absurd h (by decide)).2 (by decide) (by decide) [] [] _
    List.not_mem_nil literal_five

/-- `%*d` with 5 and 7 is printed as it stands. -/
theorem star_five_differs :
    vsprintf (fun _ => none) ("%*d".toList.map ch) [5, 7] = .ok ⟨"%*d".toList.map ch ++ [0], 3, []⟩ ∧
    vsprintf (fun _ => none) ("%5d".toList.map ch) [7] = .ok ⟨"    7".toList.map ch ++ [0], 5, []⟩ := by
  refine ⟨by decide, ?_⟩
  have hformat : "%5d".toList.map ch = literalFormat [] (some 5) none (ch 'd') ++ [] := by decide
  rw [hformat]
  exact literal_five

end MockOs.Kernel
