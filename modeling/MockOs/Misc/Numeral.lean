import Mathlib.Data.Nat.Digits.Lemmas

/-!
# Numerals

Numbers written in a base between 2 and 36, with ASCII digits, most significant first and
without leading zeros.
-/

namespace MockOs.Numeral

/-- The digit `d`; from 10 on a letter. -/
def digitChar (small : Bool) (d : Nat) : BitVec 8 :=
  BitVec.ofNat 8 (if d < 10 then 48 + d else (if small then 87 else 55) + d)

def digitValue (c : BitVec 8) : Nat :=
  if c.toNat < 58 then c.toNat - 48 else if c.toNat < 91 then c.toNat - 55 else c.toNat - 87

/-- `v` in base `base`. -/
def numeral (small : Bool) (base v : Nat) : List (BitVec 8) :=
  if v = 0 then [digitChar small 0] else ((Nat.digits base v).map (digitChar small)).reverse

/-- The number that a list of digits stands for. -/
def valueOf (base : Nat) (l : List (BitVec 8)) : Nat :=
  l.foldl (fun a c => a * base + digitValue c) 0

variable {small : Bool} {base v : Nat}

theorem digitValue_digitChar (small : Bool) {d : Nat} (h : d < 36) :
    digitValue (digitChar small d) = d := by
  revert d
  cases small <;> decide

/-- A numeral reads back as the number it was made from. -/
theorem valueOf_numeral (hb : 1 < base) (hb' : base ≤ 36) :
    valueOf base (numeral small base v) = v := by
  rw [numeral]
  split
  · rename_i hv
    rw [hv, valueOf, List.foldl_cons, List.foldl_nil, Nat.zero_mul, Nat.zero_add,
      digitValue_digitChar small (by omega)]
  · have hvalue : ∀ l : List Nat, (∀ d ∈ l, d < base) →
        valueOf base (l.map (digitChar small)).reverse = Nat.ofDigits base l := by
      intro l hl
      rw [valueOf, List.foldl_reverse]
      induction l with
      | nil => rfl
      | cons d l ih =>
        have hd : d < base := hl d List.mem_cons_self
        rw [List.map_cons, List.foldr_cons, ih fun d hd => hl d (List.mem_cons_of_mem _ hd),
          digitValue_digitChar small (by omega), Nat.ofDigits_cons, Nat.mul_comm, Nat.add_comm]
    rw [hvalue _ fun d hd => Nat.digits_lt_base hb hd, Nat.ofDigits_digits]

theorem numeral_of_pos (h : 0 < v) :
    numeral small base v = ((Nat.digits base v).map (digitChar small)).reverse :=
  if_neg (Nat.ne_of_gt h)

theorem length_numeral_pos : 0 < (numeral small base v).length := by
  rw [numeral]
  split
  · exact Nat.one_pos
  · rename_i hv
    rw [List.length_reverse, List.length_map, List.length_pos_iff]
    exact Nat.digits_ne_nil_iff_ne_zero.mpr hv

/-- A number below `2 ^ k` has at most `k` digits. -/
theorem length_numeral_le (hb : 1 < base) {k : Nat} (hk : 0 < k) (h : v < 2 ^ k) :
    (numeral small base v).length ≤ k := by
  rw [numeral]
  split
  · exact hk
  · rw [List.length_reverse, List.length_map, Nat.digits_length_le_iff hb]
    exact h.trans_le (Nat.pow_le_pow_left hb k)

/-- A numeral is made of digits. -/
theorem mem_numeral (hb : 1 < base) {c : BitVec 8}
    (h : c ∈ numeral small base v) : ∃ d < base, c = digitChar small d := by
  rw [numeral] at h
  split at h
  · exact ⟨0, by omega, List.mem_singleton.mp h⟩
  · rw [List.mem_reverse, List.mem_map] at h
    obtain ⟨d, hd, heq⟩ := h
    exact ⟨d, Nat.digits_lt_base hb hd, heq.symm⟩

end MockOs.Numeral
