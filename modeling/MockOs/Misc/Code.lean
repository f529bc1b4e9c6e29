import Mathlib.Logic.Relation

/-!
# Code that is interrupted

Code is a tree of instructions: each may fail, and the state behind it says which one is next.
`run` is the code on its own. `Always env` is the code with other code in between: whatever steps
of `env` come before each instruction and behind the last, no instruction fails and the end is as
asked for.
-/

namespace MockOs

open Relation

inductive Code (ε σ : Type) where
  | halt
  | instr (f : σ → Except ε σ) (next : σ → Code ε σ)

namespace Code

variable {ε σ : Type} {code : Code ε σ} {env : σ → σ → Prop} {P Q Q' : σ → Prop} {s s' : σ}

/-- An instruction that does not fail. -/
def op (f : σ → σ) : σ → Except ε σ := fun s => .ok (f s)

/-- Instructions without a jump. -/
def block (fs : List (σ → Except ε σ)) (code : Code ε σ) : Code ε σ :=
  fs.foldr (fun f code => .instr f fun _ => code) code

/-- A jump on a condition, together with the comparison in front of it. -/
def cond (p : σ → Bool) (yes no : Code ε σ) : Code ε σ :=
  .instr .ok fun s => if p s then yes else no

def run : Code ε σ → σ → Except ε σ
  | .halt, s => .ok s
  | .instr f next, s =>
    match f s with
    | .error e => .error e
    | .ok s => (next s).run s

theorem run_instr (f : σ → Except ε σ) (next : σ → Code ε σ) (s : σ) :
    (instr f next).run s = (f s).bind fun s => (next s).run s := by
  rw [run]
  cases f s <;> rfl

theorem run_cond (p : σ → Bool) (yes no : Code ε σ) (s : σ) :
    (cond p yes no).run s = if p s then yes.run s else no.run s := by
  show (if p s then yes else no).run s = _
  split <;> rfl

/-- With steps of `env` before each instruction and behind the last, the code comes to its end,
and there `Q` holds. -/
def Always (env : σ → σ → Prop) (Q : σ → Prop) : Code ε σ → σ → Prop
  | .halt, s => ∀ s', env s s' → Q s'
  | .instr f next, s => ∀ s', env s s' → ∃ s'', f s' = .ok s'' ∧ (next s'').Always env Q s''

/-- The steps of `env` keep `P`. -/
def Stable (env : σ → σ → Prop) (P : σ → Prop) : Prop := ∀ s s', P s → env s s' → P s'

theorem Stable.star (h : Stable env P) : Stable (ReflTransGen env) P := by
  intro s s' hs hrun
  induction hrun with
  | refl => exact hs
  | tail _ hstep ih => exact h _ _ ih hstep

namespace Always

theorem halt (hP : Stable env P) (hs : P s) (hQ : ∀ s, P s → Q s) : (Code.halt : Code ε σ).Always env Q s :=
  fun s' henv => hQ s' (hP s s' hs henv)

theorem instr {f : σ → Except ε σ} {next : σ → Code ε σ} (hP : Stable env P) (hs : P s)
    (hstep : ∀ s, P s → ∃ s', f s = .ok s' ∧ (next s').Always env Q s') : (Code.instr f next).Always env Q s :=
  fun s' henv => hstep s' (hP s s' hs henv)

/-- The first instruction of a block that does not fail. -/
theorem op {f : σ → σ} {fs : List (σ → Except ε σ)} (hP : Stable env P) (hs : P s)
    (hstep : ∀ s, P s → (block fs code).Always env Q (f s)) : (block (Code.op f :: fs) code).Always env Q s :=
  instr hP hs fun s hs => ⟨f s, rfl, hstep s hs⟩

theorem cond {p : σ → Bool} {yes no : Code ε σ} (hP : Stable env P) (hs : P s)
    (hyes : ∀ s, P s → p s = true → yes.Always env Q s) (hno : ∀ s, P s → p s = false → no.Always env Q s) :
    (Code.cond p yes no).Always env Q s := by
  refine instr hP hs fun s hs => ⟨s, rfl, ?_⟩
  cases hp : p s with
  | true => exact hyes s hs hp
  | false => exact hno s hs hp

theorem mono (h : code.Always env Q s) (hQ : ∀ s, Q s → Q' s) : code.Always env Q' s := by
  induction code generalizing s with
  | halt => exact fun s' henv => hQ s' (h s' henv)
  | instr f next ih =>
    intro s' henv
    rcases h s' henv with ⟨s'', hf, hnext⟩
    exact ⟨s'', hf, ih s'' hnext⟩

/-- With nothing in between. -/
theorem run (h : code.Always Eq Q s) : ∃ s', code.run s = .ok s' ∧ Q s' := by
  induction code generalizing s with
  | halt => exact ⟨s, rfl, h s rfl⟩
  | instr f next ih =>
    rcases h s rfl with ⟨s', hf, hnext⟩
    rcases ih s' hnext with ⟨s'', hrun, hQ⟩
    refine ⟨s'', ?_, hQ⟩
    rw [Code.run, hf]
    exact hrun

end Always

end Code

end MockOs
