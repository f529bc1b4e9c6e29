import Mathlib.Tactic.IntervalCases

/-!
# Little-endian words in a memory of bytes
-/

namespace MockOs.Bytes

/-- The 32-bit word at an address. -/
def load32 (m : Nat → BitVec 8) (a : Nat) : BitVec 32 := m (a + 3) ++ m (a + 2) ++ m (a + 1) ++ m a

/-- A store of whole bytes, of any width. -/
def store {w : Nat} (m : Nat → BitVec 8) (a : Nat) (v : BitVec w) : Nat → BitVec 8 := fun b =>
  if a ≤ b ∧ b < a + w / 8 then v.extractLsb' (8 * (b - a)) 8 else m b

variable {m m' : Nat → BitVec 8} {w a b i : Nat}

theorem store_inside (v : BitVec w) (h : i < w / 8) :
    store m a v (a + i) = v.extractLsb' (8 * i) 8 := by
  rw [store, if_pos (by omega), Nat.add_sub_cancel_left]

theorem store_other (v : BitVec w) (h : b < a ∨ a + w / 8 ≤ b) : store m a v b = m b := by
  rw [store, if_neg (by omega)]

theorem store_byte (v : BitVec 8) : store m a v a = v := by
  have h : store m a v (a + 0) = v.extractLsb' (8 * 0) 8 := store_inside v (by decide)
  exact h.trans BitVec.extractLsb'_eq_self

theorem load32_congr (h : ∀ i < 4, m' (a + i) = m (a + i)) : load32 m' a = load32 m a := by
  have h0 : m' a = m a := h 0 (by decide)
  rw [load32, load32, h0, h 1 (by decide), h 2 (by decide), h 3 (by decide)]

/-- The bits of a word, byte by byte. -/
theorem getLsbD_load32 (m : Nat → BitVec 8) (a : Nat) (hi : i < 32) :
    (load32 m a).getLsbD i = (m (a + i / 8)).getLsbD (i % 8) := by
  rw [load32]
  simp only [BitVec.getLsbD_append]
  interval_cases i <;> rfl

/-- A word determines its bytes. -/
theorem byte_of_load32 (h : load32 m' a = load32 m a) (hle : a ≤ b) (hlt : b < a + 4) : m' b = m b := by
  apply BitVec.eq_of_getLsbD_eq
  intro i hi
  have hbit := congrArg (BitVec.getLsbD · (8 * (b - a) + i)) h
  rw [getLsbD_load32 _ _ (by omega), getLsbD_load32 _ _ (by omega)] at hbit
  rwa [show a + (8 * (b - a) + i) / 8 = b by omega, show (8 * (b - a) + i) % 8 = i by omega] at hbit

theorem load32_store32 (v : BitVec 32) : load32 (store m a v) a = v := by
  apply BitVec.eq_of_getLsbD_eq
  intro i hi
  have hbyte : i % 8 < 8 := Nat.mod_lt _ (by decide)
  rw [getLsbD_load32 _ _ hi, store_inside v (by omega), BitVec.getLsbD_extractLsb', decide_eq_true hbyte,
    Bool.true_and, Nat.div_add_mod]

theorem load32_store_other (v : BitVec w) (h : b + 4 ≤ a ∨ a + w / 8 ≤ b) :
    load32 (store m a v) b = load32 m b :=
  load32_congr fun i hi => store_other v (by omega)

end MockOs.Bytes
