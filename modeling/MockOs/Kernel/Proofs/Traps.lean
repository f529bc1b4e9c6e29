import Mathlib.Tactic.IntervalCases
import MockOs.Kernel.Traps

/-!
# Where the interrupt gates lead

After `setup_idt` and `trap_init` a gate has the low half of its own handler's address and the
high half of `ignore_int`'s. It leads to its handler when the two lie in one 64 KB block.
-/

namespace MockOs.Kernel

section Words

variable (dst addr : BitVec 32) (src : BitVec 16)

theorem getLsbD_movw (i : Nat) :
    (movw dst src).getLsbD i = if i < 16 then src.getLsbD i else dst.getLsbD i := by
  rw [movw, BitVec.getLsbD_append, BitVec.getLsbD_extractLsb']
  rcases Nat.lt_or_ge i 16 with hlt | hge
  · simp [hlt]
  · rcases Nat.lt_or_ge i 32 with h32 | h32
    · simp [show ¬ i < 16 by omega, show i - 16 < 16 by omega, Nat.add_sub_cancel' hge]
    · simp [show ¬ i < 16 by omega, show ¬ i - 16 < 16 by omega, h32]

/-- A field of the low half. -/
theorem extract_movw_low {start len : Nat} (h : start + len ≤ 16) :
    (movw dst src).extractLsb' start len = src.extractLsb' start len := by
  apply BitVec.eq_of_getLsbD_eq
  intro i hi
  rw [BitVec.getLsbD_extractLsb', BitVec.getLsbD_extractLsb', getLsbD_movw, if_pos (by omega)]

theorem extract_movw_high : (movw dst src).extractLsb' 16 16 = dst.extractLsb' 16 16 := by
  apply BitVec.eq_of_getLsbD_eq
  intro i hi
  rw [BitVec.getLsbD_extractLsb', BitVec.getLsbD_extractLsb', getLsbD_movw, if_neg (by omega)]

theorem halves : addr.extractLsb' 16 16 ++ addr.extractLsb' 0 16 = addr := by
  apply BitVec.eq_of_getLsbD_eq
  intro i hi
  rw [BitVec.getLsbD_append, BitVec.getLsbD_extractLsb', BitVec.getLsbD_extractLsb']
  rcases Nat.lt_or_ge i 16 with hlt | hge
  · simp [hlt]
  · simp [show ¬ i < 16 by omega, show i - 16 < 16 by omega, Nat.add_sub_cancel' hge]

end Words

/-- The access bits of a gate are in the low half of its second word. -/
theorem gate_movw (addr edx : BitVec 32) (access : BitVec 16) :
    (Desc.mk (movw 0x00080000#32 (addr.extractLsb' 0 16)) (movw edx access)).gate =
      ⟨edx.extractLsb' 16 16 ++ addr.extractLsb' 0 16, 8, access.getLsbD 15,
        access.extractLsb' 13 2, access.extractLsb' 8 5⟩ := by
  have hlow : (movw 0x00080000#32 (addr.extractLsb' 0 16)).extractLsb' 0 16 = addr.extractLsb' 0 16 := by
    rw [extract_movw_low _ _ (by decide), BitVec.extractLsb'_eq_self]
  have hselector : (movw 0x00080000#32 (addr.extractLsb' 0 16)).extractLsb' 16 16 = 8 := by
    rw [extract_movw_high]
    decide
  have hpresent : (movw edx access).getLsbD 15 = access.getLsbD 15 := by
    rw [getLsbD_movw, if_pos (by decide)]
  simp only [Desc.gate, hlow, hselector, hpresent, extract_movw_high,
    extract_movw_low edx access (show 13 + 2 ≤ 16 by decide),
    extract_movw_low edx access (show 8 + 5 ≤ 16 by decide)]

/-! ## The three writers -/

theorem rpSidt_eq (eax edx : BitVec 32) (ecx edi : Nat) (idt : Nat → Desc) (i : Nat) :
    rpSidt eax edx ecx edi idt i = if edi ≤ i ∧ i < edi + ecx then ⟨eax, edx⟩ else idt i := by
  induction ecx generalizing edi idt with
  | zero => rw [rpSidt, if_neg (by omega)]
  | succ ecx ih =>
    rw [rpSidt, ih]
    by_cases hfirst : i = edi
    · subst hfirst
      rw [Function.update_self, ite_self, if_pos (by omega)]
    · rw [Function.update_of_ne hfirst]
      apply if_congr _ rfl rfl
      omega

/-- Every gate after `setup_idt`. -/
theorem setupIdt_eq (ignoreInt : BitVec 32) (idt : Nat → Desc) {i : Nat} (hi : i < 256) :
    setupIdt ignoreInt idt i =
      ⟨movw 0x00080000#32 (ignoreInt.extractLsb' 0 16), movw ignoreInt 0x8E00⟩ := by
  rw [setupIdt, rpSidt_eq, if_pos (by omega)]

/-- What the loop of `trap_init` leaves: each first word patched once. -/
theorem trapLoop_eq (idtPtrs : Nat → BitVec 32) (n : Nat) (idt : Nat → Desc) (i : Nat) :
    trapLoop idtPtrs n idt i =
      if i < n then ⟨((idt i).a &&& ~~~0xffff) ||| (idtPtrs i &&& 0xffff), (idt i).b⟩ else idt i := by
  induction n with
  | zero => rw [trapLoop, if_neg (by omega)]
  | succ n ih =>
    rw [trapLoop, patchGate]
    by_cases hlast : i = n
    · subst hlast
      rw [if_neg (by omega)] at ih
      rw [Function.update_self, if_pos (by omega), ih]
    · rw [Function.update_of_ne hlast, ih]
      apply if_congr _ rfl rfl
      omega

/-- The patch is a move to the low half. -/
theorem patch_eq_movw (a off : BitVec 32) :
    (a &&& ~~~0xffff) ||| (off &&& 0xffff) = movw a (off.extractLsb' 0 16) := by
  apply BitVec.eq_of_getLsbD_eq
  intro i hi
  rw [getLsbD_movw, BitVec.getLsbD_extractLsb']
  interval_cases i <;> simp

/-- The first word that is patched held the selector already. -/
theorem movw_movw (a : BitVec 32) (v v' : BitVec 16) : movw (movw a v) v' = movw a v' := by
  rw [movw, extract_movw_high, ← movw]

/-- A gate besides 14 when `trap_init` is done. -/
theorem trapInit_gate (idtPtrs : Nat → BitVec 32) (ignoreInt pageFault : BitVec 32)
    (idt : Nat → Desc) {i : Nat} (hi : i < 256) (h14 : i ≠ 14) :
    (trapInit idtPtrs pageFault (setupIdt ignoreInt idt) i).gate =
      ⟨ignoreInt.extractLsb' 16 16 ++ (idtPtrs i).extractLsb' 0 16, 8, true, 0, interruptGate⟩ := by
  have hdesc : trapInit idtPtrs pageFault (setupIdt ignoreInt idt) i =
      ⟨movw 0x00080000#32 ((idtPtrs i).extractLsb' 0 16), movw ignoreInt 0x8E00⟩ := by
    rw [trapInit, setTrapGate, Function.update_of_ne h14, trapLoop_eq, if_pos hi,
      setupIdt_eq ignoreInt idt hi, patch_eq_movw, movw_movw]
  rw [hdesc, gate_movw]
  exact Gate.ext rfl rfl rfl rfl rfl

/-- Gate 14 gets both halves of its address. -/
theorem trapInit_pageFault (idtPtrs : Nat → BitVec 32) (pageFault : BitVec 32) (idt : Nat → Desc) :
    (trapInit idtPtrs pageFault idt 14).gate = ⟨pageFault, 8, true, 0, trapGate⟩ := by
  rw [trapInit, setTrapGate, Function.update_self, setGate, gate_movw, halves]
  exact Gate.ext rfl rfl rfl rfl rfl

/-- The gates lead to their handlers exactly when every handler shares its high half with
`ignore_int`: `trap_init` patches the low half only. -/
theorem gates_lead_to_handlers_iff (idtPtrs : Nat → BitVec 32) (ignoreInt pageFault : BitVec 32)
    (idt : Nat → Desc) :
    ((∀ i < 256, i ≠ 14 → (trapInit idtPtrs pageFault (setupIdt ignoreInt idt) i).gate =
        ⟨idtPtrs i, 8, true, 0, interruptGate⟩) ∧
      (trapInit idtPtrs pageFault (setupIdt ignoreInt idt) 14).gate =
        ⟨pageFault, 8, true, 0, trapGate⟩) ↔
    ∀ i < 256, i ≠ 14 → (idtPtrs i).extractLsb' 16 16 = ignoreInt.extractLsb' 16 16 := by
  constructor
  · rintro ⟨hgates, -⟩ i hi h14
    have hgate := hgates i hi h14
    rw [trapInit_gate idtPtrs ignoreInt pageFault idt hi h14] at hgate
    have hoffset : ignoreInt.extractLsb' 16 16 ++ (idtPtrs i).extractLsb' 0 16 = idtPtrs i :=
      congrArg Gate.offset hgate
    have hhigh := congrArg (BitVec.extractLsb' 16 16) hoffset
    rw [← hhigh]
    exact extract_movw_high ignoreInt _
  · intro hhigh
    refine ⟨?_, trapInit_pageFault idtPtrs pageFault _⟩
    intro i hi h14
    rw [trapInit_gate idtPtrs ignoreInt pageFault idt hi h14, ← hhigh i hi h14, halves]

/-- A kernel of more than 64 KB before `idt.asm`: `ignore_int` low, the handlers above
`0x10000`. -/
theorem gates_second_block : ¬ ((∀ i < 256, i ≠ 14 →
      (trapInit (fun i => BitVec.ofNat 32 (0x10000 + 64 * i)) 0x8000
        (setupIdt 0x5000 fun _ => ⟨0, 0⟩) i).gate =
        ⟨BitVec.ofNat 32 (0x10000 + 64 * i), 8, true, 0, interruptGate⟩) ∧
    (trapInit (fun i => BitVec.ofNat 32 (0x10000 + 64 * i)) 0x8000
        (setupIdt 0x5000 fun _ => ⟨0, 0⟩) 14).gate = ⟨0x8000, 8, true, 0, trapGate⟩) := by
  rintro ⟨hgates, -⟩
  have hgate := hgates 0 (by decide) (by decide)
  rw [trapInit_gate _ _ _ _ (by decide) (by decide)] at hgate
  exact absurd (congrArg Gate.offset hgate) (by decide)

end MockOs.Kernel
