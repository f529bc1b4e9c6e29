import Mathlib.Algebra.Group.Nat.Defs
import Mathlib.Logic.Function.Basic
import Mathlib.Data.List.Basic

/-!
# Strings in memory

Bytes in a flat memory with 32-bit addresses that wrap around, strings that end with a zero, and
writes of one byte after the other.
-/

namespace MockOs.CString

abbrev Mem := BitVec 32 → BitVec 8

/-- The bytes from `a` on. -/
def Block (m : Mem) (a : BitVec 32) : List (BitVec 8) → Prop
  | [] => True
  | c :: l => m a = c ∧ Block m (a + 1) l

/-- The string at `a`. -/
def Str (m : Mem) (a : BitVec 32) (l : List (BitVec 8)) : Prop := Block m a (l ++ [0]) ∧ 0 ∉ l

instance Block.decidable (m : Mem) : (a : BitVec 32) → (l : List (BitVec 8)) → Decidable (Block m a l)
  | _, [] => inferInstanceAs (Decidable True)
  | a, c :: l =>
    have := Block.decidable m (a + 1) l
    inferInstanceAs (Decidable (m a = c ∧ Block m (a + 1) l))

instance (m : Mem) (a : BitVec 32) (l : List (BitVec 8)) : Decidable (Str m a l) := inferInstanceAs (Decidable (_ ∧ _))

/-- The bytes are stored from `a` upwards. -/
def put (m : Mem) (a : BitVec 32) : List (BitVec 8) → Mem
  | [] => m
  | c :: l => put (Function.update m a c) (a + 1) l

/-- `b` is not one of the `n` addresses behind `a`. -/
def Apart (a b : BitVec 32) (n : Nat) : Prop := b = a ∨ n < (b - a).toNat

instance (a b : BitVec 32) (n : Nat) : Decidable (Apart a b n) := inferInstanceAs (Decidable (_ ∨ _))

variable {m m' : Mem} {a b x : BitVec 32} {c : BitVec 8} {l l' : List (BitVec 8)} {n k : Nat}

/-! ## Addresses -/

theorem add_ofNat_succ (a : BitVec 32) (i : Nat) : a + BitVec.ofNat 32 (i + 1) = a + 1 + BitVec.ofNat 32 i := by
  rw [BitVec.add_assoc]
  congr 1
  exact BitVec.eq_of_toNat_eq (by simp [BitVec.toNat_add, Nat.add_comm])

theorem sub_ofNat_succ (a : BitVec 32) (i : Nat) : a - BitVec.ofNat 32 (i + 1) = a - 1 - BitVec.ofNat 32 i := by
  rw [BitVec.sub_sub]
  congr 1
  exact BitVec.eq_of_toNat_eq (by simp [BitVec.toNat_add, Nat.add_comm])

theorem add_ofNat_zero (a : BitVec 32) : a + BitVec.ofNat 32 0 = a := BitVec.add_zero a

theorem add_ofNat_succ_sub (a : BitVec 32) (i : Nat) : a + BitVec.ofNat 32 (i + 1) - 1 = a + BitVec.ofNat 32 i := by
  rw [add_ofNat_succ, BitVec.add_assoc, BitVec.add_comm 1, ← BitVec.add_assoc, BitVec.add_sub_cancel]

/-- Addresses in a block are different. -/
theorem add_ofNat_inj {i j : Nat} (hi : i < 2 ^ 32) (hj : j < 2 ^ 32) (h : a + BitVec.ofNat 32 i = a + BitVec.ofNat 32 j) :
    i = j := by
  have hnat := congrArg BitVec.toNat ((BitVec.add_right_inj a).mp h)
  rw [BitVec.toNat_ofNat, BitVec.toNat_ofNat, Nat.mod_eq_of_lt hi, Nat.mod_eq_of_lt hj] at hnat
  exact hnat

theorem Apart.ne (h : Apart a b n) {i : Nat} (h0 : 0 < i) (hi : i ≤ n) (hn : n < 2 ^ 32) : b ≠ a + BitVec.ofNat 32 i := by
  rintro rfl
  have hsub : (a + BitVec.ofNat 32 i - a).toNat = i := by
    rw [BitVec.add_comm, BitVec.add_sub_cancel, BitVec.toNat_ofNat]
    omega
  rcases h with heq | hlt
  · rw [heq, BitVec.sub_self] at hsub
    exact absurd hsub (Nat.ne_of_lt h0)
  · omega

theorem Apart.mono (h : Apart a b n) (hk : k ≤ n) : Apart a b k := h.imp_right (Nat.lt_of_le_of_lt hk)

theorem Apart.succ (h : Apart a b n) : Apart (a + 1) (b + 1) n := by
  have hsub : b + 1 - (a + 1) = b - a := by bv_omega
  rw [Apart, hsub]
  exact h.imp_left (congrArg (· + 1))

/-! ## Blocks -/

theorem block_append : Block m a (l ++ l') ↔ Block m a l ∧ Block m (a + BitVec.ofNat 32 l.length) l' := by
  induction l generalizing a with
  | nil => simp [Block]
  | cons c l ih => simp only [List.cons_append, Block, ih, List.length_cons, add_ofNat_succ, and_assoc]

theorem Block.get (h : Block m a l) {i : Nat} (hi : i < l.length) : m (a + BitVec.ofNat 32 i) = l[i] := by
  induction l generalizing a i with
  | nil => exact absurd hi (Nat.not_lt_zero i)
  | cons c l ih =>
    cases i with
    | zero => rw [add_ofNat_zero]; exact h.1
    | succ i => rw [add_ofNat_succ]; exact ih h.2 (Nat.lt_of_succ_lt_succ hi)

theorem Block.congr (h : Block m a l) (heq : ∀ i < l.length, m' (a + BitVec.ofNat 32 i) = m (a + BitVec.ofNat 32 i)) :
    Block m' a l := by
  induction l generalizing a with
  | nil => trivial
  | cons c l ih =>
    have h0 := heq 0 (Nat.zero_lt_succ _)
    rw [add_ofNat_zero] at h0
    refine ⟨h0.trans h.1, ih h.2 fun i hi => ?_⟩
    rw [← add_ofNat_succ]
    exact heq (i + 1) (Nat.succ_lt_succ hi)

/-- A string is shorter than the memory. -/
theorem Str.length_lt (h : Str m a l) : l.length < 2 ^ 32 := by
  by_contra hlong
  have hzero : m (a + BitVec.ofNat 32 l.length) = 0 := (block_append.mp h.1).2.1
  have hmod : l.length % 2 ^ 32 < l.length := Nat.lt_of_lt_of_le (Nat.mod_lt _ (by decide)) (by omega)
  have hget := (block_append.mp h.1).1.get hmod
  have hwrap : BitVec.ofNat 32 (l.length % 2 ^ 32) = BitVec.ofNat 32 l.length := BitVec.eq_of_toNat_eq (by simp)
  rw [hwrap, hzero] at hget
  exact h.2 (hget ▸ List.getElem_mem hmod)

theorem str_nil : Str m a [] ↔ m a = 0 := by simp [Str, Block]

theorem str_cons : Str m a (c :: l) ↔ m a = c ∧ c ≠ 0 ∧ Str m (a + 1) l := by
  simp only [Str, List.cons_append, Block, List.mem_cons, not_or, Ne, eq_comm (a := (0 : BitVec 8))]
  tauto

/-- The first byte of a string, which may be the zero at its end. -/
theorem Str.head (h : Str m a l) : ∃ l', l ++ [0] = m a :: l' ∧ (m a = 0 → l' = []) ∧
    (m a ≠ 0 → ∃ t, l = m a :: t ∧ l' = t ++ [0] ∧ Str m (a + 1) t) := by
  cases l with
  | nil =>
    rw [str_nil.mp h]
    exact ⟨[], rfl, fun _ => rfl, fun hne => absurd rfl hne⟩
  | cons c t =>
    rcases str_cons.mp h with ⟨rfl, hne, ht⟩
    exact ⟨t ++ [0], rfl, fun hzero => absurd hzero hne, fun _ => ⟨t, rfl, rfl, ht⟩⟩

theorem Str.congr (h : Str m a l) (heq : ∀ i ≤ l.length, m' (a + BitVec.ofNat 32 i) = m (a + BitVec.ofNat 32 i)) :
    Str m' a l := by
  refine ⟨h.1.congr fun i hi => heq i ?_, h.2⟩
  rw [List.length_append, List.length_singleton] at hi
  exact Nat.le_of_lt_succ hi

/-- A string behind its first characters. -/
theorem Str.drop (h : Str m a (l ++ l')) : Str m (a + BitVec.ofNat 32 l.length) l' := by
  have hblock := h.1
  rw [List.append_assoc] at hblock
  exact ⟨(block_append.mp hblock).2, fun h0 => h.2 (List.mem_append_right l h0)⟩

/-- A write outside of a string. -/
theorem Str.update (h : Str m a l) (hx : ∀ i ≤ l.length, x ≠ a + BitVec.ofNat 32 i) :
    Str (Function.update m x c) a l :=
  h.congr fun i hi => Function.update_of_ne (hx i hi).symm _ _

/-- A zero in the middle makes two strings of one. -/
theorem Str.cut (h : Str m a (l ++ c :: l')) :
    Str (Function.update m (a + BitVec.ofNat 32 l.length) 0) a l ∧
      Str (Function.update m (a + BitVec.ofNat 32 l.length) 0) (a + BitVec.ofNat 32 (l.length + 1)) l' := by
  have hlen := h.length_lt
  rw [List.length_append, List.length_cons] at hlen
  refine ⟨⟨block_append.mpr ⟨?_, Function.update_self _ _ _, trivial⟩, fun h0 => h.2 (List.mem_append_left _ h0)⟩, ?_⟩
  · refine (block_append.mp (block_append.mp h.1).1).1.congr fun i hi => Function.update_of_ne (fun heq => ?_) _ _
    exact Nat.ne_of_lt hi (add_ofNat_inj (by omega) (by omega) heq)
  · have hrest : Str m (a + BitVec.ofNat 32 (l ++ [c]).length) l' := Str.drop (by rwa [← List.append_cons])
    rw [List.length_append, List.length_singleton] at hrest
    refine hrest.update fun i hi heq => ?_
    rw [BitVec.add_assoc, ← BitVec.ofNat_add] at heq
    have hindex := add_ofNat_inj (by omega) (by omega) heq
    omega

/-! ## Writes -/

theorem put_append : put m a (l ++ l') = put (put m a l) (a + BitVec.ofNat 32 l.length) l' := by
  induction l generalizing m a with
  | nil => simp [put]
  | cons c l ih => simp only [List.cons_append, put, ih, List.length_cons, add_ofNat_succ]

/-- What is in memory after the bytes have been written. -/
theorem put_apply (hl : l.length ≤ 2 ^ 32) :
    put m a l x = if h : (x - a).toNat < l.length then l[(x - a).toNat] else m x := by
  induction l generalizing m a with
  | nil => rfl
  | cons c l ih =>
    rw [List.length_cons] at hl
    rw [put, ih (Nat.le_of_succ_le hl)]
    by_cases hx : x = a
    · have hlast : ¬ (x - (a + 1)).toNat < l.length := by bv_omega
      subst hx
      rw [dif_neg hlast, Function.update_self]
      simp
    · have hnext : (x - a).toNat = (x - (a + 1)).toNat + 1 := by bv_omega
      rw [Function.update_of_ne hx]
      simp [hnext]

/-- What is there already. -/
theorem Block.put_eq (h : Block m a l) : put m a l = m := by
  induction l generalizing a with
  | nil => rfl
  | cons c l ih => rw [CString.put, ← h.1, Function.update_eq_self, ih h.2]

/-- Writing behind a string. -/
theorem Str.put_behind (h : Str m a l) : CString.put m (a + BitVec.ofNat 32 l.length) l' = CString.put m a (l ++ l') := by
  rw [put_append, (block_append.mp h.1).1.put_eq]

/-- The zero that a string ends with. -/
theorem eq_of_zero {p t : List (BitVec 8)} (h0 : 0 ∉ l) (h : l ++ [0] = p ++ 0 :: t) : l = p := by
  induction p generalizing l with
  | nil =>
    cases l with
    | nil => rfl
    | cons c l =>
      rw [List.cons_append, List.nil_append, List.cons.injEq] at h
      exact absurd (List.mem_cons.mpr (Or.inl h.1.symm)) h0
  | cons x p ih =>
    cases l with
    | nil =>
      have hlen := congrArg List.length h
      simp at hlen
    | cons c l =>
      rw [List.cons_append, List.cons_append, List.cons.injEq] at h
      rw [h.1, ih (fun hmem => h0 (List.mem_cons_of_mem c hmem)) h.2]

/-- Where two lists differ for the first time. -/
theorem exists_differ {α : Type} {l r : List α} (hlen : l.length = r.length) (hne : l ≠ r) :
    ∃ p a b t u, l = p ++ a :: t ∧ r = p ++ b :: u ∧ a ≠ b := by
  induction l generalizing r with
  | nil => exact absurd (List.length_eq_zero_iff.mp hlen.symm).symm hne
  | cons a l ih =>
    cases r with
    | nil => exact absurd hlen (Nat.succ_ne_zero _)
    | cons b r =>
      by_cases hab : a = b
      · subst hab
        rcases ih (Nat.succ.inj hlen) (fun heq => hne (heq ▸ rfl)) with ⟨p, c, d, t, u, rfl, rfl, hcd⟩
        exact ⟨a :: p, c, d, t, u, rfl, rfl, hcd⟩
      · exact ⟨[], a, b, l, r, rfl, rfl, hab⟩

end MockOs.CString
