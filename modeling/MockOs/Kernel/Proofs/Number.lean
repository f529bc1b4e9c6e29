import MockOs.Kernel.Format

/-!
# `number`

The digits come out backwards by unsigned division, so that `INT_MIN` needs no case of its
own; one variable drives the four padding loops, and of these at most one writes anything.
-/

namespace MockOs.Kernel

open Numeral Word32

/-- The loop in closed form. -/
theorem fillLoop_eq (c : BitVec 8) (lo x : BitVec 32) :
    fillLoop c lo x = (List.replicate (x.toInt - lo.toInt).toNat c,
      (if lo.toInt < x.toInt then lo else x) - 1) := by
  fun_induction fillLoop c lo x with
  | case1 x hlt r ih =>
    have hlo := BitVec.le_toInt lo
    have hpred := toInt_pred (x := x) (by omega)
    have hcount : (x.toInt - lo.toInt).toNat = ((x - 1).toInt - lo.toInt).toNat + 1 := by omega
    have hlast : (if lo.toInt < (x - 1).toInt then lo else x - 1) = lo := by
      split
      · rfl
      · exact BitVec.eq_of_toInt_eq (by omega)
    simp only [r, ih]
    rw [hcount, hlast, if_pos hlt, List.replicate_succ]
  | case2 x hge =>
    rw [if_neg hge, Int.toNat_of_nonpos (by omega)]
    rfl

/-- The tables of digits. -/
theorem digits_get (small : Bool) {d : Nat} (h : d < 36) :
    (if small then digitsLower else digitsUpper)[d]? = some (digitChar small d) := by
  revert d
  cases small <;> decide

/-- The division loop writes the digits, least significant first. -/
theorem divLoop_eq (small : Bool) {base : BitVec 32} (hb : 1 < base.toNat) (hb' : base.toNat ≤ 36)
    {slots : Nat} (num : BitVec 32) (hslots : num.toNat < base.toNat ^ slots) :
    divLoop (if small then digitsLower else digitsUpper) base slots num =
      .ok ((Nat.digits base.toNat num.toNat).map (digitChar small)) := by
  induction slots generalizing num with
  | zero =>
    have hzero : num = 0 := BitVec.eq_of_toNat_eq (by simpa using hslots)
    rw [divLoop, if_pos hzero, hzero]
    simp
  | succ slots ih =>
    rw [divLoop]
    by_cases hzero : num = 0
    · rw [if_pos hzero, hzero]
      simp
    · have hpos : 0 < num.toNat := by bv_omega
      have hmod : (num % base).toNat = num.toNat % base.toNat := BitVec.toNat_umod
      have hdiv : (num / base).toNat = num.toNat / base.toNat := BitVec.toNat_udiv
      have hlt : num.toNat % base.toNat < base.toNat := Nat.mod_lt _ (by omega)
      have hrest := ih (num / base) (by
        rw [hdiv, Nat.div_lt_iff_lt_mul (by omega), ← Nat.pow_succ]
        exact hslots)
      rw [if_neg hzero, hmod, digits_get small (by omega), hrest, hdiv, Nat.digits_def' hb hpos]
      rfl

/-! ## From the arguments to the text -/

variable {num base size precision : BitVec 32} {type : Flags}

/-- The value that is divided, `INT_MIN` included. -/
theorem toNat_value (num : BitVec 32) (type : Flags) :
    (if type.sign ∧ num.toInt < 0 then -num else num).toNat = numberValue num type := by
  rw [numberValue]
  split
  · rename_i hneg
    have hint := BitVec.toInt_eq_toNat_cond num
    have hlt := num.isLt
    have hnat : (-num).toNat = (2 ^ 32 - num.toNat) % 2 ^ 32 := BitVec.toNat_neg num
    split at hint <;> omega
  · rfl

/-- `tmp` holds the numeral backwards, and all of it fits. -/
theorem tmp_eq (base num : BitVec 32) (hb : 1 < base.toNat) (hb' : base.toNat ≤ 36) (small : Bool) :
    (if num = 0 then .ok [ch '0']
      else divLoop (if small then digitsLower else digitsUpper) base 36 num) =
      .ok (numeral small base.toNat num.toNat).reverse := by
  by_cases hzero : num = 0
  · rw [if_pos hzero, hzero]
    cases small <;> rfl
  · have hpow : num.toNat < base.toNat ^ 36 := by
      have hlt := num.isLt
      have hle : 2 ^ 36 ≤ base.toNat ^ 36 := Nat.pow_le_pow_left hb 36
      omega
    rw [if_neg hzero, divLoop_eq small hb hb' num hpow, numeral_of_pos (by bv_omega),
      List.reverse_reverse]

theorem signText_eq (num : BitVec 32) (type : Flags) :
    signText num type = if signChar num type ≠ 0 then [signChar num type] else [] := by
  unfold signText signChar
  split
  · rfl
  · split
    · rfl
    · split <;> rfl

theorem sign_size (num size : BitVec 32) (type : Flags) :
    (if signChar num type ≠ 0 then size - 1 else size) =
      size - BitVec.ofNat 32 (signText num type).length := by
  rw [signText_eq]
  split
  · rfl
  · exact (BitVec.sub_zero size).symm

theorem prefix_size (base size : BitVec 32) (type : Flags) :
    (if type.special then
        if base = 16 then size - 2 else if base = 8 then size - 1 else size
      else size) = size - BitVec.ofNat 32 (prefixText base.toNat type).length := by
  have h16 : base = 16 ↔ base.toNat = 16 := by bv_omega
  have h8 : base = 8 ↔ base.toNat = 8 := by bv_omega
  rw [prefixText]
  simp only [h16, h8]
  split
  · split
    · rename_i h
      simp [h]
    · split
      · rfl
      · exact (BitVec.sub_zero size).symm
  · exact (BitVec.sub_zero size).symm

theorem prefix_text (base : BitVec 32) (type : Flags) :
    (if type.special then
        if base = 8 then [ch '0']
        else if base = 16 then
          [ch '0', (if type.small then digitsLower else digitsUpper).getD 33 0]
        else []
      else []) = prefixText base.toNat type := by
  have h16 : base = 16 ↔ base.toNat = 16 := by bv_omega
  have h8 : base = 8 ↔ base.toNat = 8 := by bv_omega
  have hx : (if type.small then digitsLower else digitsUpper).getD 33 0 =
      if type.small then ch 'x' else ch 'X' := by
    cases type.small <;> decide
  rw [prefixText, hx]
  simp only [h16, h8]

/-- The sign, the prefix and the digits with the padding as the loops of `number` make it. -/
def padded (s x d : List (BitVec 8)) (size precision : BitVec 32) (type : Flags) :
    List (BitVec 8) :=
  let i := BitVec.ofNat 32 d.length
  let precision := if precision.toInt < i.toInt then i else precision
  let size := size - BitVec.ofNat 32 s.length - BitVec.ofNat 32 x.length - precision
  let zeropad := type.zeropad && !type.left
  let lead := if zeropad || type.left then ([], size) else fillLoop (ch ' ') 0 size
  let pad := if type.left then ([], lead.2)
    else fillLoop (if zeropad then ch '0' else ch ' ') 0 lead.2
  lead.1 ++ s ++ x ++ pad.1 ++ (fillLoop (ch '0') i precision).1 ++ d ++
    (fillLoop (ch ' ') 0 pad.2).1

theorem number_eq (hbase : 2 ≤ base.toInt) (hbase' : base.toInt ≤ 36) :
    number num base size precision type =
      .ok (padded (signText num type) (prefixText base.toNat type)
        (numeral type.small base.toNat (numberValue num type)) size precision type) := by
  have hnat : base.toInt = base.toNat := by
    have hint := BitVec.toInt_eq_toNat_cond base
    have hlt := base.isLt
    split at hint <;> omega
  have hrange : ¬ (base.toInt < 2 ∨ 36 < base.toInt) := by omega
  have htmp := tmp_eq base (if type.sign ∧ num.toInt < 0 then -num else num) (by omega) (by omega)
    type.small
  rw [toNat_value] at htmp
  unfold number
  simp only [if_neg hrange, sign_size, prefix_size, prefix_text, htmp, Except.map,
    List.reverse_reverse, List.length_reverse, ← signText_eq]
  rfl

/-- Every byte of a number is visible or a space: neither NUL nor `%`. -/
def Ink (c : BitVec 8) : Prop := c ≠ 0 ∧ c ≠ ch '%'

instance : DecidablePred Ink := fun _ => inferInstanceAs (Decidable (_ ∧ _))

theorem fillLoop_mem {c b : BitVec 8} {lo x : BitVec 32} (h : b ∈ (fillLoop c lo x).1) : b = c := by
  rw [fillLoop_eq] at h
  exact List.eq_of_mem_replicate h

theorem signText_ink {c : BitVec 8} (h : c ∈ signText num type) : Ink c := by
  unfold signText at h
  split at h
  · rw [List.mem_singleton.mp h]
    decide
  · split at h
    · rw [List.mem_singleton.mp h]
      decide
    · split at h
      · rw [List.mem_singleton.mp h]
        decide
      · cases h

theorem prefixText_ink {base : Nat} {c : BitVec 8} (h : c ∈ prefixText base type) : Ink c := by
  unfold prefixText at h
  split at h
  · split at h
    · rw [List.mem_singleton.mp h]
      decide
    · split at h
      · rcases List.mem_pair.mp h with rfl | rfl
        · decide
        · split <;> decide
      · cases h
  · cases h

theorem numeral_ink {base v : Nat} (hb : 1 < base) (hb' : base ≤ 36) {small : Bool} {c : BitVec 8}
    (h : c ∈ numeral small base v) : Ink c := by
  have hdigits : ∀ small, ∀ d < 36, Ink (digitChar small d) := by decide
  obtain ⟨d, hd, rfl⟩ := mem_numeral hb h
  exact hdigits small d (by omega)

/-- What `number` writes, whatever the sizes. -/
theorem number_ink {out : List (BitVec 8)} (h : number num base size precision type = .ok out) :
    out ≠ [] ∧ ∀ c ∈ out, Ink c := by
  have hbase : 2 ≤ base.toInt ∧ base.toInt ≤ 36 := by
    by_contra hrange
    rw [number, if_pos (by omega)] at h
    cases h
  have hb : 1 < base.toNat ∧ base.toNat ≤ 36 := by
    have hint := BitVec.toInt_eq_toNat_cond base
    have hlt := base.isLt
    split at hint <;> omega
  rw [number_eq hbase.1 hbase.2] at h
  rw [← Except.ok.inj h]
  have hpos : 0 < (numeral type.small base.toNat (numberValue num type)).length :=
    length_numeral_pos
  have hd : ∀ c ∈ numeral type.small base.toNat (numberValue num type), Ink c := fun c hc =>
    numeral_ink hb.1 hb.2 hc
  unfold padded
  dsimp only
  refine ⟨fun hnil => ?_, fun c hc => ?_⟩
  · simp only [List.append_eq_nil_iff] at hnil
    rw [hnil.1.2] at hpos
    exact absurd hpos (Nat.lt_irrefl 0)
  · have hspace : Ink (ch ' ') := by decide
    have hzero : Ink (ch '0') := by decide
    simp only [List.mem_append] at hc
    rcases hc with (((((hc | hc) | hc) | hc) | hc) | hc) | hc
    · split at hc
      · cases hc
      · rwa [fillLoop_mem hc]
    · exact signText_ink hc
    · exact prefixText_ink hc
    · split at hc
      · cases hc
      · rw [fillLoop_mem hc]
        split
        · exact hzero
        · exact hspace
    · rwa [fillLoop_mem hc]
    · exact hd c hc
    · rwa [fillLoop_mem hc]

/-! ## The padding -/

/-- How many padding loops run before the last one. -/
def padLoops (type : Flags) : Int := if type.left then 0 else if type.zeropad then 1 else 2

/-- What is left of the field for the padding. -/
def fieldRoom (s x d : List (BitVec 8)) (size precision : Int) : Int :=
  size - s.length - x.length - max precision d.length

theorem fillLoop_none {c : BitVec 8} {lo x : BitVec 32} (h : x.toInt ≤ lo.toInt) :
    fillLoop c lo x = ([], x - 1) := by
  rw [fillLoop_eq, Int.toNat_of_nonpos (by omega), if_neg (by omega)]
  rfl

/-- Behind a padding loop `size` is negative, and no later one runs. -/
theorem fillLoop_after {c : BitVec 8} {x : BitVec 32} (h : -2 ^ 31 < x.toInt) :
    (fillLoop c 0 x).2.toInt = min 0 x.toInt - 1 := by
  rw [fillLoop_eq]
  change ((if 0 < x.toInt then (0 : BitVec 32) else x) - 1).toInt = _
  split
  · rename_i hpos
    rw [Int.min_eq_left (by omega)]
    rfl
  · rw [toInt_pred h, Int.min_eq_right (by omega)]

theorem padded_layout {s x d : List (BitVec 8)} (hs : s.length ≤ 1) (hx : x.length ≤ 2)
    (hd : d.length < 2 ^ 31)
    (hroom : -2 ^ 31 + padLoops type ≤ fieldRoom s x d size.toInt precision.toInt) :
    padded s x d size precision type = layout s x d size.toInt precision.toInt type := by
  have hi : (BitVec.ofNat 32 d.length).toInt = d.length := toInt_ofNat_of_lt hd
  have hloops : 0 ≤ padLoops type := by
    unfold padLoops
    split
    · omega
    · split <;> omega
  unfold padded layout
  dsimp only
  generalize hp : (if precision.toInt < (BitVec.ofNat 32 d.length).toInt
    then BitVec.ofNat 32 d.length else precision) = p
  have hpint : p.toInt = max precision.toInt d.length := by
    rw [← hp]
    split <;> omega
  have hsize := BitVec.toInt_lt (x := size)
  generalize hz : size - BitVec.ofNat 32 s.length - BitVec.ofNat 32 x.length - p = z
  have hzint : z.toInt = fieldRoom s x d size.toInt precision.toInt := by
    unfold fieldRoom at hroom ⊢
    rw [← hz, ← hpint]
    rw [← hpint] at hroom
    exact toInt_sub_sub_sub (by omega) (by omega) (by omega) (by omega)
  have hzeros : (fillLoop (ch '0') (BitVec.ofNat 32 d.length) p).1 =
      List.replicate (precision.toInt - d.length).toNat (ch '0') := by
    have hsame : (p.toInt - d.length).toNat = (precision.toInt - d.length).toNat := by omega
    rw [fillLoop_eq, hi, hsame]
  have hgap : (size.toInt - s.length - x.length -
      (List.replicate (precision.toInt - d.length).toNat (ch '0')).length - d.length).toNat =
      z.toInt.toNat := by
    rw [hzint, fieldRoom, List.length_replicate]
    omega
  have hfill : ∀ c, (fillLoop c 0 z).1 = List.replicate z.toInt.toNat c := by
    intro c
    rw [fillLoop_eq]
    change List.replicate (z.toInt - 0).toNat c = _
    rw [Int.sub_zero]
  simp only [hzeros, hgap]
  rw [← hzint] at hroom
  cases hleft : type.left with
  | true =>
    simp only [Bool.or_true, if_true, hfill, List.nil_append, List.append_nil]
  | false =>
    cases hzero : type.zeropad with
    | true =>
      -- one loop pads with zeros, and the last one finds a negative size
      have hmin : -2 ^ 31 + 1 ≤ z.toInt := by simpa [padLoops, hleft, hzero] using hroom
      have hafter := fillLoop_after (c := ch '0') (x := z) (by omega)
      have hnone : fillLoop (ch ' ') 0 (fillLoop (ch '0') 0 z).2 = ([], _) :=
        fillLoop_none (by rw [hafter]; change _ ≤ (0 : Int); omega)
      simp only [Bool.not_false, Bool.and_true, Bool.or_false, Bool.false_eq_true, if_true, if_false,
        hfill, hnone, List.nil_append, List.append_nil]
    | false =>
      have hmin : -2 ^ 31 + 2 ≤ z.toInt := by simpa [padLoops, hleft, hzero] using hroom
      have hafter := fillLoop_after (c := ch ' ') (x := z) (by omega)
      have hnone : fillLoop (ch ' ') 0 (fillLoop (ch ' ') 0 z).2 = ([], _) :=
        fillLoop_none (by rw [hafter]; change _ ≤ (0 : Int); omega)
      have hlast : fillLoop (ch ' ') 0 ((fillLoop (ch ' ') 0 z).2 - 1) = ([], _) :=
        fillLoop_none (by rw [toInt_pred (by omega), hafter]; change _ ≤ (0 : Int); omega)
      simp only [Bool.false_and, Bool.or_false, Bool.false_eq_true, if_false, hfill, hnone, hlast,
        List.append_nil]

/-- A size or a precision below 0 is as good as 0. -/
theorem layout_toNat {s x d : List (BitVec 8)} (hd : 0 < d.length) (size precision : Int)
    (type : Flags) (hsize : -1 ≤ size) (hprecision : -1 ≤ precision) :
    layout s x d size precision type = layout s x d size.toNat precision.toNat type := by
  have hz : (precision - d.length).toNat = (precision.toNat - d.length : Int).toNat := by omega
  have hgap : (size - s.length - x.length - (precision.toNat - d.length : Int).toNat -
      d.length).toNat = (size.toNat - s.length - x.length - (precision.toNat - d.length : Int).toNat -
      d.length : Int).toNat := by omega
  unfold layout
  simp only [List.length_replicate]
  rw [hz, hgap]

theorem length_signText_le (num : BitVec 32) (type : Flags) : (signText num type).length ≤ 1 := by
  rw [signText_eq]
  split
  · exact Nat.le_refl 1
  · exact Nat.zero_le 1

theorem length_prefixText_le (base : Nat) (type : Flags) : (prefixText base type).length ≤ 2 := by
  unfold prefixText
  split
  · split
    · exact Nat.le_succ 1
    · split
      · exact Nat.le_refl 2
      · exact Nat.zero_le 2
  · exact Nat.zero_le 2

theorem numberValue_lt (num : BitVec 32) (type : Flags) : numberValue num type < 2 ^ 32 := by
  rw [← toNat_value]
  exact BitVec.isLt _

/-- The text of a number, as long as `size` does not wrap. -/
theorem number_layout (num base size precision : BitVec 32) (type : Flags)
    (hbase : 2 ≤ base.toInt) (hbase' : base.toInt ≤ 36)
    (hroom : -2 ^ 31 + padLoops type ≤ fieldRoom (signText num type) (prefixText base.toNat type)
      (numeral type.small base.toNat (numberValue num type)) size.toInt precision.toInt) :
    number num base size precision type =
      .ok (layout (signText num type) (prefixText base.toNat type)
        (numeral type.small base.toNat (numberValue num type)) size.toInt precision.toInt type) := by
  have hb : 1 < base.toNat := by
    have hint := BitVec.toInt_eq_toNat_cond base
    split at hint <;> omega
  have hlen : (numeral type.small base.toNat (numberValue num type)).length ≤ 32 :=
    length_numeral_le hb (by omega) (numberValue_lt num type)
  rw [number_eq hbase hbase', padded_layout (length_signText_le num type)
    (length_prefixText_le base.toNat type) (by omega) hroom]

/-- `number` never leaves `tmp[36]`; the digits are those of the value; and the text is the
sign, the prefix, the zeros and the digits, with the padding on the side that the flags say,
unless the padding loops step `size` below `INT_MIN`. -/
theorem number_prints (num base size precision : BitVec 32) (type : Flags)
    (hbase : 2 ≤ base.toInt) (hbase' : base.toInt ≤ 36) :
    (∃ out, number num base size precision type = .ok out) ∧
    valueOf base.toNat (numeral type.small base.toNat (numberValue num type)) =
      numberValue num type ∧
    (-2 ^ 31 + padLoops type ≤ fieldRoom (signText num type) (prefixText base.toNat type)
        (numeral type.small base.toNat (numberValue num type)) size.toInt precision.toInt →
      number num base size precision type =
        .ok (layout (signText num type) (prefixText base.toNat type)
          (numeral type.small base.toNat (numberValue num type)) size.toInt precision.toInt
          type)) := by
  have hb : 1 < base.toNat ∧ base.toNat ≤ 36 := by
    have hint := BitVec.toInt_eq_toNat_cond base
    have hlt := base.isLt
    split at hint <;> omega
  exact ⟨⟨_, number_eq hbase hbase'⟩, valueOf_numeral hb.1 hb.2,
    number_layout num base size precision type hbase hbase'⟩

theorem number_prints_min : number (BitVec.intMin 32) 10 15 12 { sign := true } =
    .ok ("  -002147483648".toList.map ch) := by
  have htext := (number_prints (BitVec.intMin 32) 10 15 12 { sign := true } (by decide)
    (by decide)).2.2 (by decide)
  exact htext.trans (by decide)

/-- With a size and a precision of almost 2^30 in absolute value `size` wraps around, and the
padding starts where there is to be none. -/
theorem number_wraps : number 0 16 (-1073741823) 1073741823 { special := true, plus := true } ≠
    .ok (layout (signText 0 { special := true, plus := true })
      (prefixText 16 { special := true, plus := true }) (numeral false 16 0)
      (-1073741823) 1073741823 { special := true, plus := true }) := by
  have hlead : ∃ rest, (fillLoop (ch ' ') 0 2147483647).1 = ch ' ' :: rest := by
    rw [fillLoop_eq]
    exact ⟨_, List.replicate_succ⟩
  have hpadded : ∃ rest, padded [ch '+'] [ch '0', ch 'X'] [ch '0'] (-1073741823) 1073741823
      { special := true, plus := true } = ch ' ' :: rest := by
    obtain ⟨rest, hlead⟩ := hlead
    have hsize : (-1073741823 : BitVec 32) - BitVec.ofNat 32 1 - BitVec.ofNat 32 2 - 1073741823 =
        2147483647 := by decide
    unfold padded
    simp only [List.length_cons, List.length_nil, Nat.zero_add, Bool.false_and, Bool.or_false,
      Bool.false_eq_true, if_false, List.append_assoc]
    rw [if_neg (by decide), hsize, hlead]
    exact ⟨_, List.cons_append⟩
  obtain ⟨rest, hpadded⟩ := hpadded
  intro heq
  rw [number_eq (by decide) (by decide)] at heq
  have htext : padded [ch '+'] [ch '0', ch 'X'] [ch '0'] (-1073741823) 1073741823
      { special := true, plus := true } = _ := Except.ok.inj heq
  have hlayout : ∃ rest, layout [ch '+'] [ch '0', ch 'X'] [ch '0'] (-1073741823) 1073741823
      { special := true, plus := true } = ch '+' :: rest := by
    unfold layout
    simp only [List.length_cons, List.length_nil, List.length_replicate, Bool.false_eq_true, if_false,
      List.append_assoc]
    rw [Int.toNat_of_nonpos (by decide)]
    exact ⟨_, rfl⟩
  obtain ⟨rest', hlayout⟩ := hlayout
  rw [hpadded] at htext
  have hfirst := (List.cons.inj (htext.trans hlayout)).1
  revert hfirst
  decide

end MockOs.Kernel
