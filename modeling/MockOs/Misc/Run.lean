import Mathlib.Logic.Relation

/-!
# Runs of a step relation

A run is Mathlib's `Relation.ReflTransGen` of a step relation. What every step keeps,
every run keeps; `RunWhile` is the form for properties that only last while the states
passed through satisfy a condition. A `Trace` is a run with the list of its labels; a
system that follows each label computes along with it.
-/

namespace MockOs.Run

open Relation

variable {σ : Type} {step : σ → σ → Prop} {P Q : σ → Prop}

/-- An invariant of the steps holds in every state of every run. -/
theorem invariant (hstep : ∀ s s', P s → step s s' → P s') {s s' : σ}
    (hrun : ReflTransGen step s s') (hs : P s) : P s' := by
  induction hrun with
  | refl => exact hs
  | tail _ h ih => exact hstep _ _ ih h

/-- A run whose states after the first all satisfy `P`. -/
def RunWhile (step : σ → σ → Prop) (P : σ → Prop) : σ → σ → Prop :=
  ReflTransGen fun s s' => step s s' ∧ P s'

theorem RunWhile.run {s s' : σ} (h : RunWhile step P s s') : ReflTransGen step s s' :=
  ReflTransGen.mono (fun _ _ h => h.1) _ _ h

/-- Invariant rule for `RunWhile`: a step may use `P` of both its ends. -/
theorem RunWhile.invariant {s s' : σ} (hrun : RunWhile step P s s')
    (hstep : ∀ a b, P a → Q a → step a b → P b → Q b) (hP : P s) (hQ : Q s) : P s' ∧ Q s' := by
  induction hrun with
  | refl => exact ⟨hP, hQ⟩
  | tail _ h ih => exact ⟨h.2, hstep _ _ ih.1 ih.2 h.1 h.2⟩

/-! ## Labelled runs -/

variable {α τ : Type} {lstep : α → σ → σ → Prop}

/-- The steps with the labels of a list, one after the other. -/
inductive Trace (lstep : α → σ → σ → Prop) (s : σ) : List α → σ → Prop
  | nil : Trace lstep s [] s
  | snoc {as : List α} {a : α} {s' s'' : σ} :
      Trace lstep s as s' → lstep a s' s'' → Trace lstep s (as ++ [a]) s''

theorem Trace.append {s s' s'' : σ} {as bs : List α} (h : Trace lstep s as s')
    (h' : Trace lstep s' bs s'') : Trace lstep s (as ++ bs) s'' := by
  induction h' with
  | nil => rwa [List.append_nil]
  | snoc _ hlast ih =>
    rw [← List.append_assoc]
    exact ih.snoc hlast

/-- A relation to a second system that each step keeps when that system takes the same label. -/
theorem Trace.simulation {R : σ → τ → Prop} {f : α → τ → τ}
    (hstep : ∀ a s s' p, R s p → lstep a s s' → R s' (f a p)) {s s' : σ} {as : List α}
    (htrace : Trace lstep s as s') {p : τ} (h : R s p) : R s' (as.foldl (fun p a => f a p) p) := by
  induction htrace with
  | nil => exact h
  | snoc _ hlast ih =>
    rw [List.foldl_append]
    exact hstep _ _ _ _ ih hlast

/-- The same with a second system whose steps are a relation. -/
theorem Trace.refines {R : σ → τ → Prop} {astep : α → τ → τ → Prop}
    (hstep : ∀ a s s' p, R s p → lstep a s s' → ∃ p', astep a p p' ∧ R s' p') {s s' : σ} {as : List α}
    (htrace : Trace lstep s as s') {p : τ} (h : R s p) : ∃ p', Trace astep p as p' ∧ R s' p' := by
  induction htrace with
  | nil => exact ⟨p, .nil, h⟩
  | snoc _ hlast ih =>
    rcases ih with ⟨q, hq, hR⟩
    rcases hstep _ _ _ _ hR hlast with ⟨q', hq', hR'⟩
    exact ⟨q', hq.snoc hq', hR'⟩

theorem Trace.invariant (hstep : ∀ a s s', P s → lstep a s s' → P s') {s s' : σ} {as : List α}
    (htrace : Trace lstep s as s') (h : P s) : P s' :=
  Trace.simulation (R := fun s (_ : Unit) => P s) (f := fun _ p => p) (fun a s s' _ => hstep a s s')
    htrace (p := ()) h

end MockOs.Run
