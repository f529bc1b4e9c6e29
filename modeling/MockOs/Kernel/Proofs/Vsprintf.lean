import MockOs.Kernel.Proofs.Number
import MockOs.Kernel.Proofs.Scanner

/-!
# `vsprintf` is the reference formatter

With field sizes below 2^30 no `int` of the conversions wraps, and each of them writes the text
that its directive stands for.
-/

namespace MockOs.Kernel

open Numeral Word32

variable {str : BitVec 32 → Option (List (BitVec 8))} {fmt : List (BitVec 8)}
  {flags : Flags} {w p : BitVec 32}

/-! ## The conversions -/

/-- The loop in closed form. -/
theorem stepLoop_eq (c : BitVec 8) (x : BitVec 32) :
    stepLoop c x = (List.replicate (x - 1).toInt.toNat c, if 0 < (x - 1).toInt then 0 else x - 1) := by
  fun_induction stepLoop c x with
  | case1 x hlt r ih =>
    have hpred := toInt_pred (x := x - 1) (by omega)
    have hcount : (x - 1).toInt.toNat = (x - 1 - 1).toInt.toNat + 1 := by omega
    have hlast : (if 0 < (x - 1 - 1).toInt then 0 else x - 1 - 1) = 0 := by
      split
      · rfl
      · exact BitVec.eq_of_toInt_eq (by change _ = (0 : Int); omega)
    simp only [r, ih]
    rw [hcount, hlast, if_pos hlt, List.replicate_succ]
  | case2 x hge =>
    rw [if_neg hge, Int.toNat_of_nonpos (by omega)]
    rfl

/-- `%c`. -/
theorem convChar_eq (a : BitVec 32) (flags : Flags) (hw : -1 ≤ w.toInt) :
    convChar a flags w = fieldText [a.setWidth 8] w.toInt.toNat flags.left := by
  have hpred := toInt_pred (x := w) (by omega)
  have hgap : (w - 1).toInt.toNat = w.toInt.toNat - 1 := by omega
  unfold convChar fieldText
  cases flags.left with
  | true =>
    simp only [if_true]
    rw [stepLoop_eq, hgap]
    rfl
  | false =>
    have hstop : (stepLoop (ch ' ') (if 0 < (w - 1).toInt then 0 else w - 1)).1 = [] := by
      rw [stepLoop_eq, Int.toNat_of_nonpos]
      · rfl
      · split
        · decide
        · rw [toInt_pred (by omega)]
          omega
    simp only [Bool.false_eq_true, if_false]
    rw [stepLoop_eq, hgap, hstop]
    simp

/-- `%s`, for a string of `s.length` bytes. -/
theorem convString_eq {s : List (BitVec 8)} {limit : Option Nat} (flags : Flags) (hw : -1 ≤ w.toInt)
    (hs : s.length < 2 ^ 31) (hp : p.toInt = limit.elim (-1) Nat.cast) :
    convString s flags w p = fieldText (s.take (limit.getD s.length)) w.toInt.toNat flags.left := by
  have hlen : (BitVec.ofNat 32 s.length).toInt = s.length := toInt_ofNat_of_lt hs
  unfold convString fieldText
  dsimp only
  generalize hlen' : (if p.toInt < 0 then BitVec.ofNat 32 s.length
    else if p.toInt < (BitVec.ofNat 32 s.length).toInt then p else BitVec.ofNat 32 s.length) = len
  have hint : len.toInt = ((s.take (limit.getD s.length)).length : Nat) := by
    rw [← hlen', List.length_take]
    cases limit with
    | none =>
      rw [Option.elim_none] at hp
      rw [if_pos (by omega), hlen, Option.getD_none, Nat.min_self]
    | some n =>
      rw [Option.elim_some] at hp
      rw [if_neg (by omega), Option.getD_some]
      split <;> omega
  have htake : s.take len.toInt.toNat = s.take (limit.getD s.length) := by
    rw [hint, Int.toNat_natCast, List.length_take, ← List.take_take, List.take_length]
  have hwidth := BitVec.toInt_lt (x := w)
  have hgap : (w.toInt - len.toInt).toNat =
      w.toInt.toNat - (s.take (limit.getD s.length)).length := by omega
  rw [htake]
  cases flags.left with
  | true =>
    simp only [if_true]
    rw [fillLoop_eq, hgap]
    rfl
  | false =>
    have hstop : (fillLoop (ch ' ') len ((if len.toInt < w.toInt then len else w) - 1)).1 = [] := by
      rw [fillLoop_none]
      split
      · rw [toInt_pred (by omega)]
        omega
      · rw [toInt_pred (by omega)]
        omega
    simp only [Bool.false_eq_true, if_false]
    rw [fillLoop_eq, hgap, hstop, List.append_nil]

/-- The conversions through `number`. -/
theorem convNumber_eq {a base : BitVec 32} {args : List (BitVec 32)} {width precision : Nat}
    (flags : Flags) (hbase : 2 ≤ base.toInt) (hbase' : base.toInt ≤ 36) (hw : -1 ≤ w.toInt)
    (hp : -1 ≤ p.toInt) (hp' : p.toInt < 2 ^ 30) (hwidth : w.toInt.toNat = width)
    (hprecision : p.toInt.toNat = precision) :
    convNumber (a :: args) base w p flags =
      .ok { out := numberText a base.toNat width precision flags, args := args } := by
  have hs := length_signText_le a flags
  have hx := length_prefixText_le base.toNat flags
  have hb : 1 < base.toNat := by
    have hint := BitVec.toInt_eq_toNat_cond base
    split at hint <;> omega
  have hd : (numeral flags.small base.toNat (numberValue a flags)).length ≤ 32 :=
    length_numeral_le hb (by omega) (numberValue_lt a flags)
  have hpos : 0 < (numeral flags.small base.toNat (numberValue a flags)).length := length_numeral_pos
  have hloops : padLoops flags ≤ 2 := by
    unfold padLoops
    split
    · omega
    · split <;> omega
  have hnumber := number_layout a base w p flags hbase hbase' (by unfold fieldRoom; omega)
  rw [layout_toNat hpos _ _ _ hw hp, hwidth, hprecision] at hnumber
  rw [convNumber, vaArg, ok_bind]
  dsimp only
  rw [hnumber, ok_bind]
  rfl

/-! ## Directives -/

/-- The words that the code has for the field sizes of a directive. -/
structure Sizes (d : Directive) (w p : BitVec 32) : Prop where
  width_ge : -1 ≤ w.toInt
  width_eq : w.toInt.toNat = d.width.size
  absent : w = -1 ↔ d.width = .absent
  precision_eq : p.toInt = d.limit.elim (-1) Nat.cast
  precision_lt : p.toInt < 2 ^ 30

/-- Without a `*` the sizes come from the format alone. -/
theorem Directive.plain.sizes {d : Directive} (h : d.plain) : ∃ w p,
    (∀ args flags, d.width.width args flags = .ok ⟨args, flags, w⟩) ∧
    (∀ args flags, FieldSize.precision d.precision args flags = .ok ⟨args, flags, p⟩) ∧
    Sizes d w p := by
  obtain ⟨flags, width, precision, conv⟩ := d
  obtain ⟨hwidth, hprecision, hsize, hlimit⟩ := h
  have hw : ∃ w : BitVec 32, (∀ args flags, width.width args flags = .ok ⟨args, flags, w⟩) ∧
      -1 ≤ w.toInt ∧ w.toInt.toNat = width.size ∧ (w = -1 ↔ width = .absent) := by
    cases width with
    | absent => exact ⟨-1, fun _ _ => rfl, by decide, rfl, by simp⟩
    | digits n =>
      have hint : (BitVec.ofNat 32 n).toInt = n := toInt_ofNat_of_lt (Nat.lt_trans hsize (by decide))
      refine ⟨BitVec.ofNat 32 n, fun _ _ => rfl, by omega, by rw [hint]; rfl, ?_⟩
      refine ⟨fun heq => ?_, fun heq => by cases heq⟩
      rw [heq] at hint
      exact absurd hint (by change ¬ (-1 : Int) = n; omega)
    | star => exact absurd rfl hwidth
  have hp : ∃ p : BitVec 32,
      (∀ args flags, FieldSize.precision precision args flags = .ok ⟨args, flags, p⟩) ∧
      p.toInt = (precision.map FieldSize.size).elim (-1) Nat.cast ∧ p.toInt < 2 ^ 30 := by
    cases precision with
    | none => exact ⟨-1, fun _ _ => rfl, rfl, by decide⟩
    | some f =>
      cases f with
      | absent => exact ⟨0, fun _ _ => rfl, rfl, by decide⟩
      | digits n =>
        have hn : n < 2 ^ 30 := hlimit
        have hint : (BitVec.ofNat 32 n).toInt = n := toInt_ofNat_of_lt (Nat.lt_trans hn (by decide))
        refine ⟨BitVec.ofNat 32 n, fun args flags => ?_, hint, by omega⟩
        rw [FieldSize.precision, if_neg (by omega)]
      | star => exact absurd rfl hprecision
  obtain ⟨w, hw, hge, heq, habsent⟩ := hw
  obtain ⟨p, hp, hpe, hplt⟩ := hp
  exact ⟨w, p, hw, hp, hge, heq, habsent, hpe, hplt⟩

theorem takesArg_cases {c : BitVec 8} (h : takesArg c = true) :
    c = ch 'c' ∨ c = ch 's' ∨ c = ch 'o' ∨ c = ch 'p' ∨ c = ch 'x' ∨ c = ch 'X' ∨ c = ch 'd' ∨
      c = ch 'i' ∨ c = ch 'u' ∨ c = ch 'n' := by
  simpa [takesArg] using h

/-- The conversions of numbers. -/
theorem convert_number {c : BitVec 8} (h : takesArg c = true) (hc : c ≠ ch 'c') (hs : c ≠ ch 's')
    (hn : c ≠ ch 'n') (args : List (BitVec 32)) (count : Nat) : ∃ base width flags',
    convert str c flags w p args count = convNumber args base width p flags' := by
  rcases takesArg_cases h with rfl | rfl | rfl | rfl | rfl | rfl | rfl | rfl | rfl | rfl
  · exact absurd rfl hc
  · exact absurd rfl hs
  · exact ⟨8, w, flags, rfl⟩
  · by_cases hwidth : w = -1
    · exact ⟨16, 8, _, if_pos hwidth⟩
    · exact ⟨16, w, flags, if_neg hwidth⟩
  · exact ⟨16, w, _, rfl⟩
  · exact ⟨16, w, flags, rfl⟩
  · exact ⟨10, w, _, rfl⟩
  · exact ⟨10, w, _, rfl⟩
  · exact ⟨10, w, flags, rfl⟩
  · exact absurd rfl hn

theorem convNumber_ink {args : List (BitVec 32)} {base : BitVec 32} {r : Conv}
    (h : convNumber args base w p flags = .ok r) : r.out ≠ [] ∧ ∀ c ∈ r.out, Ink c := by
  obtain ⟨a, -, h⟩ := bind_eq_ok h
  obtain ⟨out, hout, h⟩ := bind_eq_ok h
  cases h
  exact number_ink hout

/-- A conversion without an argument. -/
theorem convert_literal {c : BitVec 8} (h : takesArg c = false) (args : List (BitVec 32))
    (count : Nat) :
    convert str c flags w p args count = .ok {
      out := (if c ≠ ch '%' then [ch '%'] else []) ++ if c ≠ 0 then [c] else []
      args := args } := by
  have hne : ∀ k, takesArg k = true → c ≠ k := fun k hk heq => by
    rw [heq, hk] at h
    cases h
  rw [convert, if_neg (hne _ rfl), if_neg (hne _ rfl), if_neg (hne _ rfl), if_neg (hne _ rfl),
    if_neg (hne _ rfl), if_neg (hne _ rfl), if_neg (not_or.mpr ⟨hne _ rfl, hne _ rfl⟩),
    if_neg (hne _ rfl), if_neg (hne _ rfl)]

theorem convChar_mem {a : BitVec 32} {b : BitVec 8} (h : b ∈ convChar a flags w) :
    Ink b ∨ b = a.setWidth 8 := by
  have hspace : ∀ x, b ∈ (stepLoop (ch ' ') x).1 → Ink b := fun x hb => by
    rw [stepLoop_eq] at hb
    rw [List.eq_of_mem_replicate hb]
    decide
  unfold convChar at h
  simp only [List.mem_append, List.mem_singleton] at h
  rcases h with (hb | hb) | hb
  · split at hb
    · cases hb
    · exact Or.inl (hspace _ hb)
  · exact Or.inr hb
  · exact Or.inl (hspace _ hb)

theorem convString_mem {s : List (BitVec 8)} {b : BitVec 8} (h : b ∈ convString s flags w p) :
    Ink b ∨ b ∈ s := by
  have hspace : ∀ lo x, b ∈ (fillLoop (ch ' ') lo x).1 → Ink b := fun lo x hb => by
    rw [fillLoop_mem hb]
    decide
  unfold convString at h
  simp only [List.mem_append] at h
  rcases h with (hb | hb) | hb
  · split at hb
    · cases hb
    · exact Or.inl (hspace _ _ hb)
  · exact Or.inr (List.mem_of_mem_take hb)
  · exact Or.inl (hspace _ _ hb)

/-- `%s` of an address with a string. -/
theorem convert_string {a : BitVec 32} {t : List (BitVec 8)} (h : str a = some t) (args : List (BitVec 32))
    (count : Nat) :
    convert str (ch 's') flags w p (a :: args) count = .ok { out := convString t flags w p, args := args } := by
  rw [convert, if_neg (by decide), if_pos rfl]
  simp only [vaArg, bind, Except.bind, h]

theorem convert_no_string {a : BitVec 32} (h : str a = none) (args : List (BitVec 32)) (count : Nat) :
    convert str (ch 's') flags w p (a :: args) count = .error .string := by
  rw [convert, if_neg (by decide), if_pos rfl]
  simp only [vaArg, bind, Except.bind, h]

/-- Everything a conversion can do: it prints itself, or takes an argument. -/
theorem convert_cases {c : BitVec 8} {args : List (BitVec 32)} {count : Nat} {r : Conv}
    (h : convert str c flags w p args count = .ok r) :
    (takesArg c = false ∧ r.args = args ∧
      r.out = (if c ≠ ch '%' then [ch '%'] else []) ++ if c ≠ 0 then [c] else []) ∨
    (takesArg c = true ∧ ∃ a, args = a :: r.args ∧
      (c = ch 'c' ∧ r.out = convChar a flags w ∨
        c = ch 's' ∧ (∃ s, str a = some s ∧ r.out = convString s flags w p) ∨
        c = ch 'n' ∧ r.out = [] ∨
        c ≠ ch 'c' ∧ ∃ base width flags', number a base width p flags' = .ok r.out)) := by
  cases htakes : takesArg c with
  | false =>
    rw [convert_literal htakes] at h
    cases h
    exact Or.inl ⟨rfl, rfl, rfl⟩
  | true =>
    refine Or.inr ⟨rfl, ?_⟩
    by_cases hc : c = ch 'c'
    · subst hc
      cases args with
      | nil => cases h
      | cons a args =>
        cases h
        exact ⟨a, rfl, Or.inl ⟨rfl, rfl⟩⟩
    · by_cases hs : c = ch 's'
      · subst hs
        cases args with
        | nil => cases h
        | cons a args =>
          cases hstr : str a with
          | none =>
            rw [convert_no_string hstr] at h
            cases h
          | some s =>
            rw [convert_string hstr] at h
            cases h
            exact ⟨a, rfl, Or.inr (Or.inl ⟨rfl, s, hstr, rfl⟩)⟩
      · by_cases hn : c = ch 'n'
        · subst hn
          cases args with
          | nil => cases h
          | cons a args =>
            cases h
            exact ⟨a, rfl, Or.inr (Or.inr (Or.inl ⟨rfl, rfl⟩))⟩
        · obtain ⟨base, width, flags', hconv⟩ := convert_number htakes hc hs hn args count
          rw [hconv] at h
          obtain ⟨⟨a, rest⟩, ha, h⟩ := bind_eq_ok h
          obtain ⟨out, hout, h⟩ := bind_eq_ok h
          cases h
          cases args with
          | nil => cases ha
          | cons a' args =>
            cases ha
            exact ⟨a, rfl, Or.inr (Or.inr (Or.inr ⟨hc, base, width, flags', hout⟩))⟩

/-- Where the bytes of a conversion come from, whatever the sizes. -/
theorem convert_mem {c b : BitVec 8} {args : List (BitVec 32)} {count : Nat} {r : Conv}
    (h : convert str c flags w p args count = .ok r) (hb : b ∈ r.out) :
    Ink b ∨ (c = ch 'c' ∧ ∃ a, args.head? = some a ∧ b = a.setWidth 8) ∨
    (∃ a s, str a = some s ∧ b ∈ s) ∨ b = ch '%' ∨ b = c ∧ c ≠ 0 := by
  rcases convert_cases h with ⟨-, -, hout⟩ | ⟨-, a, rfl, hcases⟩
  · rw [hout] at hb
    rcases List.mem_append.mp hb with hb | hb
    · split at hb
      · exact Or.inr (Or.inr (Or.inr (Or.inl (List.mem_singleton.mp hb))))
      · cases hb
    · split at hb
      · exact Or.inr (Or.inr (Or.inr (Or.inr ⟨List.mem_singleton.mp hb, by assumption⟩)))
      · cases hb
  · rcases hcases with ⟨hc, hout⟩ | ⟨-, s, hs, hout⟩ | ⟨-, hout⟩ | ⟨-, base, width, flags', hnumber⟩
    · rw [hout] at hb
      rcases convChar_mem hb with hb | hb
      · exact Or.inl hb
      · exact Or.inr (Or.inl ⟨hc, a, rfl, hb⟩)
    · rw [hout] at hb
      rcases convString_mem hb with hb | hb
      · exact Or.inl hb
      · exact Or.inr (Or.inr (Or.inl ⟨a, s, hs, hb⟩))
    · rw [hout] at hb
      cases hb
    · exact Or.inl ((number_ink hnumber).2 b hb)

theorem text_literal {d : Directive} (h : takesArg d.conv = false) (a : BitVec 32) :
    d.text str a =
      (if d.conv ≠ ch '%' then [ch '%'] else []) ++ if d.conv ≠ 0 then [d.conv] else [] := by
  have hne : ∀ k, takesArg k = true → d.conv ≠ k := fun k hk heq => by
    rw [heq, hk] at h
    cases h
  rw [Directive.text]
  dsimp only
  rw [if_neg (hne _ rfl), if_neg (hne _ rfl), if_neg (hne _ rfl), if_neg (hne _ rfl),
    if_neg (hne _ rfl), if_neg (hne _ rfl), if_neg (not_or.mpr ⟨hne _ rfl, hne _ rfl⟩),
    if_neg (hne _ rfl), if_neg (hne _ rfl)]
  by_cases hpercent : d.conv = ch '%'
  · rw [hpercent]
    rfl
  · by_cases hzero : d.conv = 0
    · rw [hzero]
      rfl
    · rw [if_neg (not_or.mpr ⟨hpercent, hzero⟩), if_pos hpercent, if_pos hzero]
      rfl

/-- The conversion of a directive writes its text. -/
theorem convert_eq {d : Directive} (hsizes : Sizes d w p) {args : List (BitVec 32)} {count : Nat}
    (hargs : takesArg d.conv = true → args ≠ [])
    (hstring : d.conv = ch 's' → ∃ s, str (args.headD 0) = some s ∧ s.length < 2 ^ 30) :
    convert str d.conv d.flags w p args count =
      .ok {
        out := d.text str (args.headD 0)
        args := d.rest args
        stores := if d.conv = ch 'n' then [(args.headD 0, BitVec.ofNat 32 count)] else [] } := by
  obtain ⟨hge, heq, habsent, hpe, hplt⟩ := hsizes
  have hpge : -1 ≤ p.toInt := by
    rw [hpe]
    cases d.limit with
    | none => exact Int.le_refl _
    | some n =>
      rw [Option.elim_some]
      omega
  have hpn : p.toInt.toNat = d.limit.getD 0 := by
    rw [hpe]
    cases d.limit <;> rfl
  cases htakes : takesArg d.conv with
  | false =>
    have hn : d.conv ≠ ch 'n' := fun hn => by
      rw [hn] at htakes
      revert htakes
      decide
    rw [convert_literal htakes, text_literal htakes, Directive.rest, htakes, if_neg hn]
    rfl
  | true =>
    obtain ⟨a, rest, rfl⟩ := List.exists_cons_of_ne_nil (hargs htakes)
    obtain ⟨flags, width, precision, conv⟩ := d
    dsimp only at *
    have hnumber : ∀ (base : BitVec 32) (flags : Flags), 2 ≤ base.toInt → base.toInt ≤ 36 →
        convNumber (a :: rest) base w p flags = _ :=
      fun base flags hb hb' => convNumber_eq flags hb hb' hge hpge hplt heq hpn
    rcases takesArg_cases htakes with rfl | rfl | rfl | rfl | rfl | rfl | rfl | rfl | rfl | rfl
    · change Except.ok ({ out := convChar a flags w, args := rest } : Conv) = _
      rw [convChar_eq a flags hge, heq]
      rfl
    · obtain ⟨s, hs, hlen⟩ := hstring rfl
      rw [List.headD_cons] at hs
      rw [convert_string hs, convString_eq flags hge (Nat.lt_trans hlen (by decide)) hpe, heq, Directive.text]
      simp only [List.headD_cons, hs, Option.getD_some]
      rfl
    · exact hnumber 8 flags (by decide) (by decide)
    · by_cases hwidth : w = -1
      · have hconv : convert str (ch 'p') flags w p (a :: rest) count =
            convNumber (a :: rest) 16 8 p { flags with zeropad := true } := if_pos hwidth
        have htext : Directive.text str ⟨flags, width, precision, ch 'p'⟩ a =
            numberText a 16 8 _ { flags with zeropad := true } := if_pos (habsent.mp hwidth)
        rw [hconv, List.headD_cons, htext]
        exact convNumber_eq _ (by decide) (by decide) (by decide) hpge hplt rfl hpn
      · have hconv : convert str (ch 'p') flags w p (a :: rest) count =
            convNumber (a :: rest) 16 w p flags := if_neg hwidth
        have htext : Directive.text str ⟨flags, width, precision, ch 'p'⟩ a =
            numberText a 16 width.size _ flags := if_neg fun habs => hwidth (habsent.mpr habs)
        rw [hconv, List.headD_cons, htext]
        exact hnumber 16 flags (by decide) (by decide)
    · exact hnumber 16 { flags with small := true } (by decide) (by decide)
    · exact hnumber 16 flags (by decide) (by decide)
    · exact hnumber 10 { flags with sign := true } (by decide) (by decide)
    · exact hnumber 10 { flags with sign := true } (by decide) (by decide)
    · exact hnumber 10 flags (by decide) (by decide)
    · rfl

/-! ## Formats -/

/-- A directive without a `*` writes its text. -/
theorem printTokens_plain {d : Directive} (hd : d.plain) {args : List (BitVec 32)}
    (hargs : takesArg d.conv = true → args ≠ [])
    (hstring : d.conv = ch 's' → ∃ s, str (args.headD 0) = some s ∧ s.length < 2 ^ 30)
    (ts : List Token) (out : List (BitVec 8)) (stores : List (BitVec 32 × BitVec 32)) :
    printTokens str (.dir d :: ts) args out stores =
      printTokens str ts (d.rest args) (out ++ d.text str (args.headD 0))
        (stores ++ if d.conv = ch 'n' then [(args.headD 0, BitVec.ofNat 32 out.length)] else []) := by
  obtain ⟨w, p, hw, hp, hsizes⟩ := hd.sizes
  exact printTokens_dir (hw args d.flags) (hp args d.flags) (convert_eq hsizes hargs hstring)

theorem printTokens_eq {ts : List Token} (hplain : ∀ t ∈ ts, t.plain)
    {args : List (BitVec 32)} (hargs : Supplied str ts args) (out : List (BitVec 8))
    (stores : List (BitVec 32 × BitVec 32)) :
    printTokens str ts args out stores =
      .ok ⟨out ++ render str ts args ++ [0], BitVec.ofNat 32 (out ++ render str ts args).length,
        stores ++ countStores str ts args out.length⟩ := by
  induction ts generalizing args out stores with
  | nil => simp [printTokens, render, countStores]
  | cons t ts ih =>
    have hrest : ∀ t ∈ ts, t.plain := fun t ht => hplain t (List.mem_cons_of_mem _ ht)
    cases t with
    | lit c =>
      rw [printTokens, ih hrest hargs, render, countStores]
      simp
    | dir d =>
      obtain ⟨hone, hstring, hmore⟩ := hargs
      have hd : d.plain := hplain (.dir d) List.mem_cons_self
      rw [printTokens_plain hd hone hstring, ih hrest hmore, render, countStores]
      simp

/-- `vsprintf` writes the concatenation of the texts of the tokens and a NUL, and returns the
length without it. It ends, and reads neither behind the NUL of the format nor outside any
other array. -/
theorem vsprintf_reference {args : List (BitVec 32)} (hnul : 0 ∉ fmt)
    (hplain : ∀ t ∈ tokens fmt, t.plain) (hargs : Supplied str (tokens fmt) args) :
    vsprintf str fmt args =
      .ok ⟨render str (tokens fmt) args ++ [0],
        BitVec.ofNat 32 (render str (tokens fmt) args).length,
        countStores str (tokens fmt) args 0⟩ := by
  rw [vsprintf_eq hnul, printTokens_eq hplain hargs]
  simp

theorem vsprintf_reference_mixed :
    vsprintf (fun _ => some ("abc".toList.map ch)) ("x=%-5d|%.2s%%%n%".toList.map ch) [-7, 1, 2] =
      .ok ⟨"x=-7   |ab%%".toList.map ch ++ [0], 12, [(2, 11)]⟩ := by
  have hargs : Supplied (fun _ => some ("abc".toList.map ch))
      (tokens ("x=%-5d|%.2s%%%n%".toList.map ch)) [-7, 1, 2] :=
    ⟨fun _ => List.cons_ne_nil _ _, fun h => absurd h (by decide), fun _ => List.cons_ne_nil _ _,
      fun _ => ⟨_, rfl, by decide⟩, fun h => absurd h (by decide), fun h => absurd h (by decide),
      fun _ => List.cons_ne_nil _ _, fun h => absurd h (by decide), fun h => absurd h (by decide),
      fun h => absurd h (by decide), trivial⟩
  exact (vsprintf_reference (by decide) (by decide) hargs).trans (by decide)

end MockOs.Kernel
