import Mathlib.Data.Fin.Basic
import Mathlib.Data.List.Nodup
import Mathlib.Algebra.Group.Fin.Basic
import Mathlib.Tactic.Abel

/-!
# Round robin on a ring of `n` places

A choice behind `a` is the first place after `a`, going round, that a predicate holds of. A
place `t` that the predicate holds of all the time is never overtaken: every choice is closer
to it than the one before. So the places chosen before `t` are all different, and there are
fewer of them than places between.
-/

namespace MockOs.RoundRobin

variable {n : ℕ} [NeZero n] {P : Fin n → Prop} {a b t : Fin n}

/-- The steps from `a` to `b`, going round. -/
def dist (a b : Fin n) : ℕ := (b - a).val

omit [NeZero n] in
theorem dist_lt (a b : Fin n) : dist a b < n := (b - a).isLt

theorem dist_self (a : Fin n) : dist a a = 0 := by
  rw [dist, sub_self, Fin.val_zero]

theorem dist_eq_zero : dist a b = 0 ↔ b = a := by
  unfold dist
  rw [← Fin.val_zero n, Fin.val_inj, sub_eq_zero]

theorem dist_pos (h : b ≠ a) : 0 < dist a b :=
  Nat.pos_of_ne_zero fun h0 => h (dist_eq_zero.mp h0)

/-- Going `dist a b` steps on from `a` leads to `b`. -/
theorem add_dist (a b : Fin n) : a + Fin.ofNat n (dist a b) = b := by
  rw [dist, Fin.ofNat_val_eq_self, add_sub_cancel]

theorem dist_add {j : ℕ} (hj : j < n) : dist a (a + Fin.ofNat n j) = j := by
  rw [dist, add_sub_cancel_left, Fin.val_ofNat, Nat.mod_eq_of_lt hj]

/-- The way to `t` leads through `b` when `b` is not farther than `t`. -/
theorem dist_through (h : dist a b ≤ dist a t) : dist a b + dist b t = dist a t := by
  unfold dist at *
  have hsplit : t - b = (t - a) - (b - a) := by abel
  rw [hsplit, Fin.sub_val_of_le h]
  exact Nat.add_sub_cancel' h

/-- `b` is the first place behind `a` that `P` holds of. -/
structure Picks (P : Fin n → Prop) (a b : Fin n) : Prop where
  ne : b ≠ a
  holds : P b
  first : ∀ k, k ≠ a → P k → dist a b ≤ dist a k

/-- The choice is closer to whoever is waiting. -/
theorem Picks.closer (h : Picks P a b) (ht : P t) (hne : t ≠ a) : dist b t < dist a t := by
  have hthrough := dist_through (h.first t hne ht)
  have hpos := dist_pos h.ne
  omega

/-- Choices one after the other, the first behind `a`: each is made by a predicate of its own,
and each of these holds of `t`. -/
inductive Turns (t : Fin n) : Fin n → List (Fin n) → Prop
  | nil (a : Fin n) : Turns t a []
  | cons {P : Fin n → Prop} {a b : Fin n} {l : List (Fin n)} :
      Picks P a b → P t → Turns t b l → Turns t a (b :: l)

/-- Until `t` has its turn the choices come closer to it. -/
theorem Turns.closer {l : List (Fin n)} (h : Turns t a l) (hne : t ≠ a) :
    ((a :: l.takeWhile (· ≠ t)).map (dist · t)).Pairwise (· > ·) := by
  induction h with
  | nil a => simp
  | @cons P a b l hpick ht hrest ih =>
    have hcloser := hpick.closer ht hne
    by_cases hb : b = t
    · simp [hb]
    · have hrec := ih (Ne.symm hb)
      rw [List.takeWhile_cons_of_pos (by simpa using hb)]
      simp only [List.map_cons, List.pairwise_cons, List.mem_cons, List.mem_map] at hrec ⊢
      refine ⟨?_, hrec⟩
      rintro _ (rfl | ⟨k, hk, rfl⟩)
      · exact hcloser
      · exact lt_trans (hrec.1 _ ⟨k, hk, rfl⟩) hcloser

/-- The place to start from and the choices before `t` are all different. -/
theorem Turns.nodup {l : List (Fin n)} (h : Turns t a l) (hne : t ≠ a) :
    (a :: l.takeWhile (· ≠ t)).Nodup := by
  have hdist : ((a :: l.takeWhile (· ≠ t)).map (dist · t)).Nodup :=
    (h.closer hne).imp fun hgt => (ne_of_lt hgt).symm
  exact hdist.of_map

/-- `t` has its turn by the time as many choices are made as it was steps away. -/
theorem Turns.mem_take {l : List (Fin n)} (h : Turns t a l) (hne : t ≠ a)
    (hl : dist a t ≤ l.length) : t ∈ l.take (dist a t) := by
  induction h with
  | nil a => exact absurd (Nat.le_zero.mp hl) (dist_pos hne).ne'
  | @cons P a b l hpick ht hrest ih =>
    have hcloser := hpick.closer ht hne
    obtain ⟨d, hd⟩ : ∃ d, dist a t = d + 1 := Nat.exists_eq_add_one.mpr (dist_pos hne)
    rw [hd, List.take_succ_cons, List.mem_cons]
    by_cases hb : t = b
    · exact Or.inl hb
    · right
      have hmem := ih hb (by rw [List.length_cons] at hl; omega)
      exact (List.take_sublist_take_left (by omega)).mem hmem

end MockOs.RoundRobin
