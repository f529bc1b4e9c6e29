import Mathlib.Data.List.Dedup
import Mathlib.Data.List.Nodup
import Mathlib.Data.List.Induction

/-!
# Moving elements of a list to its end

A list whose elements are moved to the end as they are used is ordered by their last use:
first what was never used, in the order it had, then the rest. `List.dedup` keeps the last
occurrence of each element, so it lists the elements of a history by their last use.
-/

namespace MockOs.MoveToEnd

variable {α : Type} [DecidableEq α]

/-- `b` is taken out and put behind the rest. -/
def move (l : List α) (b : α) : List α := l.erase b ++ [b]

/-- The list `l`, ordered by the last use in the history `as`. -/
def byLastUse (l as : List α) : List α := l.filter (· ∉ as) ++ as.dedup

theorem dedup_snoc (as : List α) (b : α) :
    (as ++ [b]).dedup = as.dedup.filter (· ≠ b) ++ [b] := by
  induction as with
  | nil => rfl
  | cons a as ih =>
    by_cases ha : a ∈ as
    · rw [List.cons_append, List.dedup_cons_of_mem (List.mem_append_left _ ha), ih,
        List.dedup_cons_of_mem ha]
    · rw [List.dedup_cons_of_notMem ha]
      by_cases hb : a = b
      · rw [List.cons_append, List.dedup_cons_of_mem (by simp [hb]), ih,
          List.filter_cons_of_neg (by simpa using hb)]
      · rw [List.cons_append, List.dedup_cons_of_notMem (by simp [ha, hb]), ih,
          List.filter_cons_of_pos (by simpa using hb), List.cons_append]

theorem nodup_byLastUse {l : List α} (as : List α) (hl : l.Nodup) : (byLastUse l as).Nodup := by
  refine List.nodup_append.mpr ⟨hl.filter _, List.nodup_dedup as, ?_⟩
  rintro a ha b hb rfl
  have hnot : a ∉ as := by simpa using (List.mem_filter.mp ha).2
  exact hnot (List.mem_dedup.mp hb)

theorem move_byLastUse {l : List α} (as : List α) (b : α) (hl : l.Nodup) :
    move (byLastUse l as) b = byLastUse l (as ++ [b]) := by
  rw [move, (nodup_byLastUse as hl).erase_eq_filter, byLastUse, List.filter_append, byLastUse,
    dedup_snoc, List.filter_filter, List.append_assoc]
  congr 1
  · apply List.filter_congr
    intro a _
    by_cases ha : a = b <;> simp [ha]
  · congr 1
    apply List.filter_congr
    intro a _
    by_cases ha : a = b <;> simp [ha]

/-- Moving the elements of `as` one after the other orders the list by their last use. -/
theorem foldl_move {l : List α} (as : List α) (hl : l.Nodup) :
    as.foldl move l = byLastUse l as := by
  induction as using List.reverseRecOn with
  | nil => simp [byLastUse]
  | append_singleton as b ih =>
    rw [List.foldl_append, ih]
    exact move_byLastUse as b hl

end MockOs.MoveToEnd
