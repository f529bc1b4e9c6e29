import Mathlib.Algebra.Group.Int.Defs
import Mathlib.Algebra.Group.Nat.Defs
import Mathlib.Data.Fin.Basic
import Mathlib.Data.Int.Order.Basic
import Mathlib.Data.Nat.Bitwise

/-!
# Words and masks

A number splits at bit `k` into a high and a low part, and the bitwise operations work on
the two parts apart. Masking with a block of ones is then a division and a remainder. For
signed words: when the wrapping operations are those of the integers.
-/

namespace MockOs

/-- The numerals of `Fin 64` rest on this instance in every module. -/
instance neZero64 : @NeZero Nat Zero.ofOfNat0 64 := Nat.instNeZeroSucc (n := 63)

end MockOs

namespace MockOs.Bits

theorem and_split (k a a' : Nat) {b b' : Nat} (hb : b < 2 ^ k) (hb' : b' < 2 ^ k) :
    (2 ^ k * a + b) &&& (2 ^ k * a' + b') = 2 ^ k * (a &&& a') + (b &&& b') := by
  apply Nat.eq_of_testBit_eq
  intro j
  rw [Nat.testBit_and, Nat.testBit_two_pow_mul_add a hb, Nat.testBit_two_pow_mul_add a' hb',
    Nat.testBit_two_pow_mul_add _ (Nat.and_lt_two_pow _ hb')]
  split <;> rw [Nat.testBit_and]

theorem or_split (k a a' : Nat) {b b' : Nat} (hb : b < 2 ^ k) (hb' : b' < 2 ^ k) :
    (2 ^ k * a + b) ||| (2 ^ k * a' + b') = 2 ^ k * (a ||| a') + (b ||| b') := by
  apply Nat.eq_of_testBit_eq
  intro j
  rw [Nat.testBit_or, Nat.testBit_two_pow_mul_add a hb, Nat.testBit_two_pow_mul_add a' hb',
    Nat.testBit_two_pow_mul_add _ (Nat.or_lt_two_pow hb hb')]
  split <;> rw [Nat.testBit_or]

/-- Masking with `n` ones above `k` zeros. -/
theorem and_mask (x k n : Nat) : x &&& (2 ^ k * (2 ^ n - 1)) = 2 ^ k * (x / 2 ^ k % 2 ^ n) := by
  have hx : x = 2 ^ k * (x / 2 ^ k) + x % 2 ^ k := (Nat.div_add_mod x (2 ^ k)).symm
  have hlow : x % 2 ^ k < 2 ^ k := Nat.mod_lt _ (Nat.two_pow_pos k)
  calc x &&& (2 ^ k * (2 ^ n - 1))
      = (2 ^ k * (x / 2 ^ k) + x % 2 ^ k) &&& (2 ^ k * (2 ^ n - 1) + 0) := by rw [← hx, Nat.add_zero]
    _ = 2 ^ k * (x / 2 ^ k &&& (2 ^ n - 1)) + (x % 2 ^ k &&& 0) :=
        and_split k _ _ hlow (Nat.two_pow_pos k)
    _ = 2 ^ k * (x / 2 ^ k % 2 ^ n) := by
        rw [Nat.and_two_pow_sub_one_eq_mod, Nat.and_zero, Nat.add_zero]

variable {w : Nat}

theorem toNat_and_mask {m : BitVec w} (x : BitVec w) (k n : Nat) (hm : m.toNat = 2 ^ k * (2 ^ n - 1)) :
    (x &&& m).toNat = 2 ^ k * (x.toNat / 2 ^ k % 2 ^ n) := by
  rw [BitVec.toNat_and, hm, and_mask]

/-- Masking after a shift to the right. -/
theorem toNat_shift_mask {m : BitVec w} (x : BitVec w) (i k n : Nat)
    (hm : m.toNat = 2 ^ k * (2 ^ n - 1)) :
    ((x >>> i) &&& m).toNat = 2 ^ k * (x.toNat / 2 ^ (i + k) % 2 ^ n) := by
  rw [toNat_and_mask _ k n hm, BitVec.toNat_ushiftRight, Nat.shiftRight_eq_div_pow, Nat.div_div_eq_div_mul,
    ← Nat.pow_add]

end MockOs.Bits

namespace MockOs.Word32

variable {x y : BitVec 32}

theorem toInt_sub_of_le (h : -2 ^ 31 ≤ x.toInt - y.toInt) (h' : x.toInt - y.toInt < 2 ^ 31) :
    (x - y).toInt = x.toInt - y.toInt := by
  rw [BitVec.toInt_sub]
  exact Int.bmod_eq_of_le h h'

theorem toInt_pred (h : -2 ^ 31 < x.toInt) : (x - 1).toInt = x.toInt - 1 := by
  have hlt := BitVec.toInt_lt (x := x)
  have hone : (1 : BitVec 32).toInt = 1 := rfl
  rw [toInt_sub_of_le (by omega) (by omega), hone]

theorem toInt_ofNat_of_lt {n : Nat} (h : n < 2 ^ 31) : (BitVec.ofNat 32 n).toInt = n := by
  rw [BitVec.toInt_eq_toNat_of_lt, BitVec.toNat_ofNat, Nat.mod_eq_of_lt (by omega)]
  rw [BitVec.toNat_ofNat]
  omega

/-- Several subtractions at once: only the result has to be in range. -/
theorem toInt_sub_sub_sub {z : BitVec 32} {m n : Nat} (hm : m < 2 ^ 31) (hn : n < 2 ^ 31)
    (h : -2 ^ 31 ≤ x.toInt - m - n - z.toInt) (h' : x.toInt - m - n - z.toInt < 2 ^ 31) :
    (x - BitVec.ofNat 32 m - BitVec.ofNat 32 n - z).toInt = x.toInt - m - n - z.toInt := by
  simp only [BitVec.toInt_sub, Int.bmod_sub_bmod, toInt_ofNat_of_lt hm, toInt_ofNat_of_lt hn]
  exact Int.bmod_eq_of_le h h'

end MockOs.Word32
