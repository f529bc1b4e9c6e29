import MockOs.Kernel.Proofs.SysFork
import MockOs.Mm.Proofs.Walk

/-!
# Page faults at any address

`page_fault` (`mm/page.asm`) passes every fault on to `do_wp_page`, so an address that has no
translation is walked like one on a read-only page.
-/

namespace MockOs.Kernel

open Mm

theorem Boot.forkRep (b : Boot) {acts : List Act} {s : ForkSys} (hrun : Run.Trace ForkStep b.start acts s) :
    ∃ loc tab a, ForkRep b.Modelled b.init s loc tab a := by
  refine hrun.invariant (P := fun s => ∃ loc tab a, ForkRep b.Modelled b.init s loc tab a) ?_
    ⟨_, _, _, b.start_forkRep⟩
  rintro act s s' ⟨loc, tab, a, h⟩ hstep
  rcases h.step hstep with ⟨loc', tab', a', -, h'⟩
  exact ⟨loc', tab', a', h'⟩

/-- The tasks with a page table are those of `task[]` other than task 0. -/
theorem ForkRep.tab_live {vis : Nat → Prop} {w0 : Nat} {s : ForkSys} {loc tab : Fin 64 → Option Nat} {a : Spaces}
    (h : ForkRep vis w0 s loc tab a) {i : Nat} :
    (∃ t g, t ≠ 0 ∧ tab t = some g ∧ i = 16 * (t : Nat)) ↔ ∃ t, 1 ≤ t ∧ s.Live t ∧ i = 16 * t := by
  constructor
  · rintro ⟨t, g, ht, hg, hi⟩
    refine ⟨t, Fin.pos_iff_ne_zero.mpr ht, h.live_iff.mpr fun hno => ?_, hi⟩
    rw [(h.locTab t ht).mp hno] at hg
    cases hg
  · rintro ⟨n, hn, hlive, hi⟩
    rcases h.of_live hlive with ⟨t, x, rfl, hx⟩
    have ht : t ≠ 0 := Fin.pos_iff_ne_zero.mp hn
    cases hg : tab t with
    | none =>
      rw [(h.locTab t ht).mpr hg] at hx
      cases hx
    | some g => exact ⟨t, g, ht, hg, hi⟩

/-- In every state of every run, `do_wp_page` keeps to the translation of the address exactly if
there is one, or the walk comes upon the directory entry of a task. -/
theorem page_fault_frame (b : Boot) (acts : List Act) (s : ForkSys) (hrun : Run.Trace ForkStep b.start acts s)
    (address : BitVec 32) :
    OnlyTranslation address s.mm (doWpPage address s.mm) ↔
      Translated address s.mm ∨ (¬ Present (s.mm.word (dirIndex address)) ∧
        ∃ t, 1 ≤ t ∧ s.Live t ∧ tableIndex address = 16 * t) := by
  rcases b.forkRep hrun with ⟨loc, tab, a, h⟩
  rw [← h.tab_live]
  constructor
  · intro honly
    by_contra hno
    rw [not_or, not_and] at hno
    exact h.rep.doWpPage_other address hno.1 (fun habs t g ht hg hidx => hno.2 habs ⟨t, g, ht, hg, hidx⟩) honly
  · rintro (htrans | ⟨habs, t, g, ht, hg, hidx⟩)
    · exact h.rep.doWpPage_translated address htrans
    · rw [h.rep.doWpPage_directory address habs ht hg hidx]
      exact ⟨fun d _ => rfl, fun x _ hne => absurd rfl hne⟩

/-- At boot: the page of task 0 at the start of the memory has a translation, and keeps it. -/
theorem page_fault_frame_boot :
    OnlyTranslation 0 Boot.blank.start.mm (doWpPage 0 Boot.blank.start.mm) :=
  (page_fault_frame Boot.blank [] _ .nil 0).mpr (Or.inl Boot.blank.start_forkRep.rep.translated_zero)

/-- A fault at 16 MB, where nothing is mapped, changes the first directory entry. -/
theorem page_fault_unmapped :
    Run.Trace ForkStep Boot.blank.start [] Boot.blank.start ∧ ¬ Translated 0x1000000 Boot.blank.start.mm ∧
      (doWpPage 0x1000000 Boot.blank.start.mm).word 0 ≠ Boot.blank.start.mm.word 0 ∧
      ¬ OnlyTranslation 0x1000000 Boot.blank.start.mm (doWpPage 0x1000000 Boot.blank.start.mm) := by
  rcases Boot.blank.start_forkRep.rep.doWpPage_unmapped with ⟨hno, hchanged⟩
  exact ⟨.nil, hno, hchanged, fun honly => hchanged (honly.dir 0 (by decide))⟩

end MockOs.Kernel
