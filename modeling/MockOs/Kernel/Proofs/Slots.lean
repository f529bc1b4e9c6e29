import MockOs.Kernel.Proofs.Isolation

/-!
# The slots of `task[]`

A slot that is taken has two descriptors in `gdt`, the fields of its `task_struct` that name
them, and a page directory entry. `sched_init`, `copy_process`, `copy_mem` and
`copy_page_tables` write them, and keep them in step.
-/

namespace MockOs.Kernel

open Mm

/-- `_LDT(n)` (`include/linux/sched.h:292`). -/
def ldtSelector (n : Nat) : BitVec 32 := BitVec.ofNat 32 (16 * n + 40)

/-- What belongs to the slot `i` agrees. -/
structure SlotCoherent (s : ForkSys) (i : Nat) : Prop where
  tss : getBase (s.gdt (4 + 2 * i)) = s.task i + Off.tss
  ldt : getBase (s.gdt (5 + 2 * i)) = s.task i + Off.ldt
  selector : s.get (s.task i) Tss.ldt = ldtSelector i
  segment : ∀ j, j = 1 ∨ j = 2 →
    getBase (s.getDesc (ForkSys.ldtEntry (s.task i) j)) = BitVec.ofNat 32 i * taskSize ∧
      limitOf (s.getDesc (ForkSys.ldtEntry (s.task i) j)) = 0xa0000
  esp0 : 1 ≤ i → s.get (s.task i) Tss.esp0 = (s.task i &&& 0xfffff000) + 4096

/-- The slots that are taken are coherent, and the page directory has the entries of the kernel
and one for each of them. -/
structure SlotsCoherent (s : ForkSys) : Prop where
  slot : ∀ i < nrTasks, s.task i ≠ 0 → SlotCoherent s i
  dir : ∀ d < 1024, 1#32 &&& s.mm.word d ≠ 0 ↔ d < 4 ∨ ∃ i, 1 ≤ i ∧ i < nrTasks ∧ s.task i ≠ 0 ∧ d = 16 * i

/-! ## The invariant -/

/-- The base address of a descriptor that `_set_tssldt_desc` has written. -/
theorem getBase_setTssldtDesc (addr : BitVec 32) {type : BitVec 32} (htype : type &&& 0xff = type) :
    getBase (setTssldtDesc addr type) = addr := by
  rw [← htype]
  apply BitVec.eq_of_getLsbD_eq
  intro i hi
  simp only [getBase, setTssldtDesc, BitVec.getLsbD_or, BitVec.getLsbD_and, BitVec.getLsbD_shiftLeft,
    BitVec.getLsbD_ushiftRight]
  interval_cases i <;> simp

/-- What is not in the address spaces: the descriptors and the fields of the structures. -/
structure Slots (s : ForkSys) (loc : Fin 64 → Option Nat) : Prop where
  tss : ∀ (t : Fin 64) x, loc t = some x → s.gdt (2 * t + 4) = setTssldtDesc (wordAddr x + Off.tss) 0x89
  ldt : ∀ (t : Fin 64) x, loc t = some x → s.gdt (2 * t + 5) = setTssldtDesc (wordAddr x + Off.ldt) 0x82
  selector : ∀ t x, loc t = some x → s.mm.word (x + 260) = ldtSelector t
  esp0 : ∀ t x, t ≠ 0 → loc t = some x → s.mm.word (x + 237) = 4096 + wordAddr x

theorem Boot.start_slots (b : Boot) : Slots b.start b.loc := by
  refine ⟨fun t x hx => ?_, fun t x hx => ?_, fun t x hx => ?_, fun t x ht hx => ?_⟩
  · rcases b.loc_eq hx with ⟨rfl, rfl⟩
    rfl
  · rcases b.loc_eq hx with ⟨rfl, rfl⟩
    rfl
  · rcases b.loc_eq hx with ⟨rfl, rfl⟩
    rw [b.start_init (by decide)]
    rfl
  · exact absurd (b.loc_eq hx).1 ht

theorem Slots.step {w0 : Nat} {s s' : ForkSys} {loc loc' : Fin 64 → Option Nat} (h : Slots s loc)
    (hs : Structs w0 s loc) (hstep : StructStep loc s s' loc') : Slots s' loc' := by
  cases hstep with
  | forked t c y k pid old m ht hc hcn hfirst hpos hlt htaken hk hforked hset =>
    have hs0 : Structs w0 { s with current := s.task t, lastPid := pid } loc := { hs with }
    have hne : ∀ (t' : Fin 64) x, loc t' = some x → t' ≠ c := by
      rintro t' x hx rfl
      rw [hcn] at hx
      cases hx
    have hgdt : s'.gdt = Function.update (Function.update s.gdt (2 * c + 4)
      (setTssldtDesc (wordAddr (1024 * k) + Off.tss) 0x89)) (2 * c + 5)
      (setTssldtDesc (wordAddr (1024 * k) + Off.ldt) 0x82) := by rw [hforked.rest]
    refine ⟨fun t' x hx => ?_, fun t' x hx => ?_, fun t' x hx => ?_, fun t' x ht' hx => ?_⟩
    · by_cases htc : t' = c
      · rw [htc, Function.update_self] at hx
        rw [hgdt, htc, Function.update_of_ne (by omega), Function.update_self, ← Option.some.inj hx]
      · have hval : (t' : Nat) ≠ c := fun heq => htc (Fin.ext heq)
        rw [Function.update_of_ne htc] at hx
        rw [hgdt, Function.update_of_ne (by omega), Function.update_of_ne (by omega)]
        exact h.tss t' x hx
    · by_cases htc : t' = c
      · rw [htc, Function.update_self] at hx
        rw [hgdt, htc, Function.update_self, ← Option.some.inj hx]
      · have hval : (t' : Nat) ≠ c := fun heq => htc (Fin.ext heq)
        rw [Function.update_of_ne htc] at hx
        rw [hgdt, Function.update_of_ne (by omega), Function.update_of_ne (by omega)]
        exact h.ldt t' x hx
    · by_cases htc : t' = c
      · rw [htc, Function.update_self] at hx
        rw [htc, ← Option.some.inj hx]
        exact hset.ldt
      · rw [Function.update_of_ne htc] at hx
        rw [hforked.kept hs0 ht hx (by decide) (by decide)]
        exact h.selector t' x hx
    · by_cases htc : t' = c
      · rw [htc, Function.update_self] at hx
        rw [← Option.some.inj hx]
        exact hset.esp0
      · rw [Function.update_of_ne htc] at hx
        rw [hforked.kept hs0 ht hx (by decide) (by decide)]
        exact h.esp0 t' x ht' hx
  | failed cur pid hlt heq =>
    rw [heq]
    exact ⟨h.tss, h.ldt, h.selector, h.esp0⟩
  | kept hkept =>
    have hgdt : s'.gdt = s.gdt := by rw [hkept.rest]
    refine ⟨fun t' x hx => ?_, fun t' x hx => ?_, fun t' x hx => ?_, fun t' x ht' hx => ?_⟩
    · rw [hgdt]
      exact h.tss t' x hx
    · rw [hgdt]
      exact h.ldt t' x hx
    · rw [hkept.word t' x 260 hx (by decide)]
      exact h.selector t' x hx
    · rw [hkept.word t' x 237 hx (by decide)]
      exact h.esp0 t' x ht' hx

/-! ## Coherence -/

/-- A represented system with these descriptors and fields. -/
def SlotsRep (b : Boot) (s : ForkSys) : Prop :=
  ∃ loc tab a, ForkRep b.Modelled b.init s loc tab a ∧ Slots s loc

theorem Boot.slotsRep (b : Boot) {acts : List Act} {s : ForkSys}
    (hrun : Run.Trace ForkStep b.start acts s) : SlotsRep b s := by
  refine hrun.invariant (P := SlotsRep b) ?_ ⟨b.loc, _, _, b.start_forkRep, b.start_slots⟩
  rintro act s s' ⟨loc, tab, a, h, hslots⟩ hstep
  rcases h.step hstep with ⟨loc', tab', a', hstruct, h'⟩
  exact ⟨loc', tab', a', h', hslots.step h.structs hstruct⟩

/-- The page directory entries that are present. -/
theorem ForkRep.dir_present {vis : Nat → Prop} {w0 : Nat} {s : ForkSys} {loc tab : Fin 64 → Option Nat}
    {a : Spaces} (h : ForkRep vis w0 s loc tab a) {d : Nat} (hd : d < 1024) :
    1#32 &&& s.mm.word d ≠ 0 ↔ d < 4 ∨ ∃ i, 1 ≤ i ∧ i < nrTasks ∧ s.task i ≠ 0 ∧ d = 16 * i := by
  by_cases hlow : d < 4
  · refine ⟨fun _ => Or.inl hlow, fun _ => ?_⟩
    rw [h.rep.dirKernel d hlow]
    exact present_entry (by omega) (Or.inr rfl)
  · by_cases htask : ∃ t : Fin 64, t ≠ 0 ∧ d = 16 * (t : Nat)
    · rcases htask with ⟨t, ht0, rfl⟩
      have hpos : 0 < (t : Nat) := Fin.pos_iff_ne_zero.mpr ht0
      have hiff : 1#32 &&& s.mm.word (16 * t) ≠ 0 ↔ s.task t ≠ 0 := by
        rw [ne_eq, ne_eq, h.slot_eq_zero (t := t), h.locTab t ht0, h.rep.dirTask t ht0]
        cases hg : tab t with
        | none => exact ⟨fun hne => absurd rfl hne, fun hne => absurd rfl hne⟩
        | some g =>
          have hghigh := h.rep.tab_high hg
          exact ⟨fun _ => Option.some_ne_none g, fun _ => present_entry (by omega) (Or.inr rfl)⟩
      refine hiff.trans ⟨fun hne => Or.inr ⟨t, hpos, t.isLt, hne, rfl⟩, ?_⟩
      rintro (hlt | ⟨i, -, -, hne, heq⟩)
      · exact absurd hlt hlow
      · rwa [show (t : Nat) = i by omega]
    · have hword : s.mm.word d = 0 := by
        by_cases hmod : d % 16 = 0
        · exact absurd ⟨⟨d / 16, by omega⟩, fun hz => hlow (by have := congrArg Fin.val hz; simp at this; omega),
            by show d = 16 * (d / 16); omega⟩ htask
        · exact h.rep.dirRest d hd (by omega) hmod
      refine ⟨fun hne => absurd (by rw [hword]; rfl) hne, ?_⟩
      rintro (hlt | ⟨i, hi, hi64, -, heq⟩)
      · exact absurd hlt hlow
      · refine absurd ⟨⟨i, hi64⟩, fun hz => ?_, heq⟩ htask
        have hval := congrArg Fin.val hz
        have hi0 : i = 0 := hval
        omega

theorem SlotsRep.coherent {b : Boot} {s : ForkSys} (h : SlotsRep b s) : SlotsCoherent s := by
  rcases h with ⟨loc, tab, a, h, hslots⟩
  refine ⟨fun i hi hne => ?_, fun d hd => h.dir_present hd⟩
  rcases h.of_live ⟨hi, hne⟩ with ⟨t, x, rfl, hx⟩
  have hx' := h.loc_bounds hx
  refine ⟨?_, ?_, ?_, fun j hj => ?_, fun hpos => ?_⟩
  · rw [Nat.add_comm, hslots.tss t x hx, getBase_setTssldtDesc _ (by decide), h.task_eq hx]
  · rw [Nat.add_comm, hslots.ldt t x hx, getBase_setTssldtDesc _ (by decide), h.task_eq hx]
  · rw [h.task_eq hx, ForkSys.get_word 260 (by decide) (by decide) (by omega), hslots.selector t x hx]
  · rw [h.task_eq hx]
    exact h.structs.segment hx hj
  · have ht0 : t ≠ 0 := Fin.pos_iff_ne_zero.mp hpos
    rcases h.structs.locHigh t x ht0 hx with ⟨f, rfl, -, hf⟩
    have hpage : wordAddr (1024 * f) &&& 0xfffff000 = wordAddr (1024 * f) := by
      rw [BitVec.and_comm, wordAddr_frame]
      exact (page_entry (by omega) (by decide)).trans (wordAddr_frame f)
    rw [h.task_eq hx, ForkSys.get_word 237 (by decide) (by decide) (by omega), hslots.esp0 t _ ht0 hx, hpage,
      BitVec.add_comm]

/-- In every state of every run, the slots are coherent, and no fork panics. -/
theorem task_slots_coherent (b : Boot) (acts : List Act) (s : ForkSys)
    (hrun : Run.Trace ForkStep b.start acts s) :
    SlotsCoherent s ∧ ∀ t r, s.Allowed (.fork t r) →
      ∃ s' n, ForkSys.sysFork r { s with current := s.task t } = .ok (s', n) := by
  have h := b.slotsRep hrun
  refine ⟨h.coherent, fun t r hallow => ?_⟩
  rcases h with ⟨loc, tab, a, h, -⟩
  rcases hallow with ⟨hlive, h0, h1, hpages⟩
  rcases h.of_live hlive with ⟨t, y, rfl, ht⟩
  by_cases hslot : s.FreeSlot
  · rcases h.sysFork_forked ht hslot (hpages hslot) h0 h1 with
      ⟨c, pid, k, g, l, f, old, s', -, -, -, -, -, -, -, -, -, -, hcall, -⟩
    exact ⟨s', pid, hcall⟩
  · rcases h.sysFork_full r (s.task t) hslot with ⟨pid, -, hcall⟩
    exact ⟨_, _, hcall⟩

/-- The slots after the child of a child has been made. -/
theorem task_slots_coherent_grandchild : ∃ s,
    Run.Trace ForkStep Boot.blank.start [.fork 0 stackTop, .fork 1 stackTop] s ∧ SlotsCoherent s := by
  rcases Boot.blank.start_spent.fork (by decide) with ⟨s1, hfork, loc, tab, a, hrep, hspent⟩
  have hrun1 : Run.Trace ForkStep Boot.blank.start [.fork 0 stackTop] s1 := Run.Trace.nil.snoc hfork
  have hcard := hspent.card
  have hlive : s1.Live 1 := hrep.live_iff.mpr fun hno => Nat.lt_irrefl 1 ((hspent.tasks 1).mp hno)
  have hallow : s1.Allowed (.fork 1 stackTop) := ⟨hlive, by decide, by decide, fun _ => by omega⟩
  rcases (task_slots_coherent Boot.blank _ s1 hrun1).2 1 stackTop hallow with ⟨s2, n, hcall⟩
  have hrun2 : Run.Trace ForkStep Boot.blank.start [.fork 0 stackTop, .fork 1 stackTop] s2 :=
    hrun1.snoc ⟨hallow, by simp only [ForkSys.exec, hcall]⟩
  exact ⟨s2, hrun2, (task_slots_coherent Boot.blank _ s2 hrun2).1⟩

end MockOs.Kernel
