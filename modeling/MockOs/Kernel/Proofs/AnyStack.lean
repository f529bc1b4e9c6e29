import MockOs.Kernel.Proofs.Init
import MockOs.Kernel.Proofs.SaneTasks
import MockOs.Misc.Run

/-!
# Forks with any stack pointer

`copy_process` copies the page that the user's `esp` points to, whatever `esp` is. The address
spaces are not kept then, but the structures of the tasks are. A fork takes at most four pages
out of `mem_map`, so forks alone never use up the memory.
-/

namespace MockOs.Kernel

open Mm

/-- What every fork keeps. -/
structure ForkSane (b : Boot) (s : ForkSys) (loc : Fin 64 → Option Nat) : Prop where
  structs : Structs b.init s loc
  sane : Sane s.mm (HeldBy loc) (fun t => loc t ≠ none) (taskCount loc)
  pid : s.lastPid.toNat < 2147483648
  pages : 3076 ≤ s.mm.freePages.card + 4 * taskCount loc

/-! ## The start -/

theorem Boot.start_forkSane (b : Boot) : ForkSane b b.start b.loc := by
  have hrep := b.start_forkRep
  have hloc : ∀ t : Fin 64, b.loc t ≠ none ↔ t = 0 := by
    intro t
    by_cases ht : t = 0 <;> simp [Boot.loc, ht]
  have hheld : ∀ f, ¬ HeldBy b.loc f := by
    rintro f ⟨t, ht, hx⟩
    exact ht (b.loc_eq hx).1
  have hcount : taskCount b.loc = 1 := by
    rw [taskCount, Finset.filter_congr fun t _ => hloc t, Finset.filter_eq' _ (0 : Fin 64),
      if_pos (Finset.mem_univ _), Finset.card_singleton]
  have hdir : ∀ d < 1024, DirOk b.start.mm (HeldBy b.loc) d := by
    intro d hd
    by_cases h4 : d < 4
    · have hframe : dirFrame b.start.mm d = d + 1 := by
        rw [dirFrame, hrep.rep.dirKernel d h4, frameOf_entry (by omega) (by decide)]
      exact .kernel (by omega) (by omega)
    · refine .none ?_
      by_cases hmod : d % 16 = 0
      · have hzero := hrep.rep.dirTask ⟨d / 16, by omega⟩ fun hz => by
          have hval := congrArg Fin.val hz
          have : d / 16 = 0 := hval
          omega
        rwa [show 16 * ((⟨d / 16, by omega⟩ : Fin 64) : Nat) = d by show 16 * (d / 16) = d; omega] at hzero
      · exact hrep.rep.dirRest d hd (by omega) hmod
  have hpage : ∀ p < 160, pageFrame b.start.mm 0 p = p := by
    intro p hp
    have hframe : dirFrame b.start.mm (16 * ((0 : Fin 64) : Nat)) = 1 := by
      rw [dirFrame, show 16 * ((0 : Fin 64) : Nat) = 0 from rfl, hrep.rep.dirKernel 0 (by decide),
        frameOf_entry (by decide) (by decide)]
    rw [pageFrame, hframe, Nat.mul_one, hrep.rep.kernel p (by omega), frameOf_entry (by omega) (by decide)]
  refine ⟨hrep.structs, ⟨fun f hf => absurd hf (hheld f), hdir, fun t ht => ?_, fun t ht p hp hlow => ?_,
    fun t ht p hp q hq heq hlow => ?_⟩, hrep.pid, ?_⟩
  · obtain rfl := (hloc t).mp ht
    rw [show 16 * ((0 : Fin 64) : Nat) = 0 from rfl, hrep.rep.dirKernel 0 (by decide)]
    exact present_entry (by decide) (Or.inr rfl)
  · obtain rfl := (hloc t).mp ht
    have hp160 : p < 160 := hp
    rw [hpage p hp160] at hlow
    omega
  · obtain rfl := (hloc t).mp ht
    have hp160 : p < 160 := hp
    rw [hpage p hp160] at hlow
    omega
  · rw [hcount, hrep.rep.card_freePages, card_bootSpaces]

/-! ## One fork -/

namespace ForkSane

variable {b : Boot} {s s' : ForkSys} {loc : Fin 64 → Option Nat}

theorem tasks (h : ForkSane b s loc) : SaneTasks b.init s loc := ⟨h.structs, h.sane, h.pid⟩

/-- A call of `fork` that returns has made a task, or has found no slot. -/
theorem step {call : Nat × Regs} (h : ForkSane b s loc) (hstep : ForkCall call s s') :
    ∃ loc', StructStep loc s s' loc' ∧ ForkSane b s' loc' := by
  have hle := taskCount_le loc
  have hpages := h.pages
  rcases h.tasks.step hstep (fun _ => by omega) with ⟨loc', hstruct, htasks, -, hcard⟩
  exact ⟨loc', hstruct, htasks.structs, htasks.sane, htasks.pid, by omega⟩

end ForkSane

/-- An invariant of the structures holds after any calls of `fork`. -/
theorem Boot.forks_invariant (b : Boot) {P : ForkSys → (Fin 64 → Option Nat) → Prop} (h0 : P b.start b.loc)
    (hstep : ∀ s s' loc loc', Structs b.init s loc → P s loc → StructStep loc s s' loc' → P s' loc')
    {calls : List (Nat × Regs)} {s : ForkSys} (hrun : Run.Trace ForkCall b.start calls s) :
    ∃ loc, ForkSane b s loc ∧ P s loc := by
  refine hrun.invariant (P := fun s => ∃ loc, ForkSane b s loc ∧ P s loc) ?_ ⟨b.loc, b.start_forkSane, h0⟩
  rintro call s s' ⟨loc, hsane, hP⟩ hcall
  rcases hsane.step hcall with ⟨loc', hstruct, hsane'⟩
  exact ⟨loc', hsane', hstep s s' loc loc' hsane.structs hP hstruct⟩

end MockOs.Kernel
