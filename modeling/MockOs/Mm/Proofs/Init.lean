import Mathlib.Order.Interval.Finset.Nat
import MockOs.Mm.Proofs.CopyOnWrite

/-!
# Paging at boot

What `setup_paging` and `mem_init(4 MB, 16 MB)` leave represents the system in which task 0
alone has an address space: its 160 pages, mapped to themselves.
-/

namespace MockOs.Mm

theorem clearWords_eq : ∀ (n x : Nat) (s : Memory), x + n < 2 ^ 30 →
    clearWords n (wordAddr x) s =
      { s with word := fun z => if x ≤ z ∧ z < x + n then 0 else s.word z } := by
  intro n
  induction n with
  | zero =>
    intro x s _
    have hout : ∀ z, ¬ (x ≤ z ∧ z < x + 0) := by omega
    simp only [hout, if_false]
    rfl
  | succ n ih =>
    intro x s hx
    rw [clearWords, wordAddr_add_four, ih (x + 1) _ (by omega), Memory.write_wordAddr (by omega)]
    apply Memory.ext
    · funext z
      show (if x + 1 ≤ z ∧ z < x + 1 + n then 0 else (s.setWord x 0).word z) = if _ then 0 else s.word z
      by_cases hz : z = x
      · subst hz
        rw [if_neg (by omega), if_pos (by omega), Memory.setWord_word_self]
      · rw [Memory.setWord_word_ne hz]
        by_cases hin : x + 1 ≤ z ∧ z < x + 1 + n
        · rw [if_pos hin, if_pos (by omega)]
        · rw [if_neg hin, if_neg (by omega)]
    · rfl

/-- Filling the page tables backwards from the entry of frame `i`. -/
theorem fillTables_eq : ∀ (i n : Nat) (s : Memory), i < 4096 → i < n →
    fillTables n (wordAddr (1024 + i)) (entry i 7) s =
      { s with word := fun z => if 1024 ≤ z ∧ z ≤ 1024 + i then entry (z - 1024) 7 else s.word z } := by
  intro i
  induction i with
  | zero =>
    intro n s _ hn
    obtain ⟨m, rfl⟩ : ∃ m, n = m + 1 := ⟨n - 1, by omega⟩
    have hneg : (entry 0 7 - 0x1000).slt 0 = true := by decide
    simp only [fillTables, hneg, if_true]
    rw [Memory.write_wordAddr (by decide)]
    apply Memory.ext
    · funext z
      show (s.setWord 1024 (entry 0 7)).word z = if _ then _ else s.word z
      by_cases hz : z = 1024
      · subst hz
        rw [Memory.setWord_word_self, if_pos (by omega)]
      · rw [Memory.setWord_word_ne hz, if_neg (by omega)]
    · rfl
  | succ i ih =>
    intro n s hi hn
    obtain ⟨m, rfl⟩ : ∃ m, n = m + 1 := ⟨n - 1, by omega⟩
    have hsub : entry (i + 1) 7 - 0x1000 = entry i 7 := by
      apply BitVec.eq_of_toNat_eq
      rw [BitVec.toNat_sub, toNat_entry (by omega) (by decide), toNat_entry (by omega) (by decide)]
      show (2 ^ 32 - 4096 + (4096 * (i + 1) + 7)) % 2 ^ 32 = _
      omega
    have hneg : ¬ (entry i 7).slt 0 = true := by
      have hlt := toNat_entry (f := i) (c := 7) (by omega) (by decide)
      rw [BitVec.slt_iff_toInt_lt, BitVec.toInt_eq_toNat_of_lt (by omega), hlt]
      show ¬ (((4096 * i + 7 : Nat) : Int) < 0)
      omega
    have hdown : wordAddr (1024 + (i + 1)) - 4 = wordAddr (1024 + i) := wordAddr_sub_four (1024 + i)
    simp only [fillTables, hsub, hneg, hdown]
    rw [ih m _ (by omega) (by omega), Memory.write_wordAddr (by omega)]
    apply Memory.ext
    · funext z
      show (if _ then _ else (s.setWord (1024 + (i + 1)) (entry (i + 1) 7)).word z) = if _ then _ else s.word z
      by_cases hz : z = 1024 + (i + 1)
      · subst hz
        rw [if_neg (by omega), if_pos (by omega), Memory.setWord_word_self,
          show 1024 + (i + 1) - 1024 = i + 1 by omega]
      · rw [Memory.setWord_word_ne hz]
        by_cases hin : 1024 ≤ z ∧ z ≤ 1024 + i
        · rw [if_pos hin, if_pos (by omega)]
        · rw [if_neg hin, if_neg (by omega)]
    · rfl

/-- The words that `setup_paging` leaves. -/
theorem setupPaging_eq (s : Memory) : setupPaging s =
    { s with word := fun z =>
        if z < 4 then entry (z + 1) 7 else if z < 1024 then 0
        else if z < 5120 then entry (z - 1024) 7 else s.word z } := by
  obtain ⟨m, hclear, hmap, hword⟩ : ∃ m, clearWords 5120 (wordAddr 0) s = m ∧ m.memMap = s.memMap ∧
      ∀ z, m.word z = if z < 5120 then 0 else s.word z := by
    refine ⟨_, clearWords_eq 5120 0 s (by decide), rfl, fun z => ?_⟩
    exact if_congr (by omega) rfl rfl
  have hend : (0x4000 + 4092 : BitVec 32) = wordAddr (1024 + 4095) := by decide
  have hlast : (0xfff007 : BitVec 32) = entry 4095 7 := by decide
  have h0 : (0 : BitVec 32) = wordAddr 0 := by decide
  have h1 : (4 : BitVec 32) = wordAddr 1 := by decide
  have h2 : (8 : BitVec 32) = wordAddr 2 := by decide
  have h3 : (12 : BitVec 32) = wordAddr 3 := by decide
  have hp0 : (0x1000 + 7 : BitVec 32) = entry 1 7 := by decide
  have hp1 : (0x2000 + 7 : BitVec 32) = entry 2 7 := by decide
  have hp2 : (0x3000 + 7 : BitVec 32) = entry 3 7 := by decide
  have hp3 : (0x4000 + 7 : BitVec 32) = entry 4 7 := by decide
  rw [setupPaging, show 1024 * 5 = 5120 from rfl]
  simp only [hp0, hp1, hp2, hp3, hend, hlast]
  rw [h0, h1, h2, h3, hclear, fillTables_eq 4095 4096 _ (by decide) (by decide),
    Memory.write_wordAddr (by decide), Memory.write_wordAddr (by decide),
    Memory.write_wordAddr (by decide), Memory.write_wordAddr (by decide)]
  apply Memory.ext
  · funext z
    show (if 1024 ≤ z ∧ z ≤ 1024 + 4095 then entry (z - 1024) 7 else
      ((((m.setWord 0 (entry 1 7)).setWord 1 (entry 2 7)).setWord 2 (entry 3 7)).setWord 3 (entry 4 7)).word z) =
      if z < 4 then entry (z + 1) 7 else if z < 1024 then 0 else if z < 5120 then entry (z - 1024) 7
      else s.word z
    by_cases htables : 1024 ≤ z ∧ z ≤ 1024 + 4095
    · rw [if_pos htables, if_neg (by omega), if_neg (by omega), if_pos (by omega)]
    · rw [if_neg htables]
      by_cases hdir : z < 4
      · rw [if_pos hdir]
        obtain rfl | rfl | rfl | rfl : z = 0 ∨ z = 1 ∨ z = 2 ∨ z = 3 := by omega
        · rfl
        · rfl
        · rfl
        · rfl
      · rw [Memory.setWord_word_ne (by omega), Memory.setWord_word_ne (by omega),
          Memory.setWord_word_ne (by omega), Memory.setWord_word_ne (by omega), hword, if_neg hdir]
        by_cases hlow : z < 1024
        · rw [if_pos (by omega), if_pos hlow]
        · rw [if_neg (by omega), if_neg hlow, if_neg (by omega)]
  · exact hmap

theorem fillMap_eq (v : BitVec 8) : ∀ (n : Nat) (i : Int) (s : Memory), fillMap v n i s =
    { s with memMap := fun j => if i ≤ j ∧ j < i + n then v else s.memMap j } := by
  intro n
  induction n with
  | zero =>
    intro i s
    have hout : ∀ j : Int, ¬ (i ≤ j ∧ j < i + ((0 : Nat) : Int)) := by omega
    simp only [hout, if_false]
    rfl
  | succ n ih =>
    intro i s
    rw [fillMap, ih]
    apply Memory.ext
    · rfl
    · funext j
      show (if i + 1 ≤ j ∧ j < i + 1 + (n : Int) then v else Function.update s.memMap i v j) =
        if i ≤ j ∧ j < i + ((n + 1 : Nat) : Int) then v else s.memMap j
      by_cases hj : j = i
      · subst hj
        rw [if_neg (by omega), if_pos (by omega), Function.update_self]
      · rw [Function.update_of_ne hj]
        by_cases hin : i + 1 ≤ j ∧ j < i + 1 + (n : Int)
        · rw [if_pos hin, if_pos (by omega)]
        · rw [if_neg hin, if_neg (by omega)]

/-- `mem_map` after `mem_init(4 MB, 16 MB)`. -/
theorem memInit_eq (s : Memory) : memInit 0x400000 0x1000000 s =
    { s with memMap := fun j => if 768 ≤ j ∧ j < 3840 then 0 else if 0 ≤ j ∧ j < 3840 then used
        else s.memMap j } := by
  have hn : (((0x1000000 : BitVec 32) - 0x400000).sshiftRight 12).toNat = 3072 := by decide
  have hi : mapNr 0x400000 = 768 := by decide
  rw [memInit, hn, hi, fillMap_eq, fillMap_eq]
  rfl

/-- The address spaces at boot. -/
def bootSpaces (s : Memory) : Spaces where
  pte t p := if t = 0 ∧ p < 160 then some p else none
  wr _ _ := false
  rc _ := 0
  own _ := false
  mem f i := s.word (1024 * f + i)

theorem bootSpaces_pte {s : Memory} {t : Fin 64} {p f : Nat} :
    (bootSpaces s).pte t p = some f ↔ t = 0 ∧ p < 160 ∧ f = p := by
  show (if t = 0 ∧ p < 160 then some p else none) = some f ↔ _
  split
  · rename_i h
    simp only [Option.some.injEq, h.1, h.2, true_and]
    exact eq_comm
  · rename_i h
    exact ⟨fun hno => (Option.some_ne_none f hno.symm).elim, fun hin => absurd ⟨hin.1, hin.2.1⟩ h⟩

theorem bootSpaces_agrees (s : Memory) :
    Cow.Agrees (bootSpaces s) fun _ p i => s.word (1024 * p + i) := by
  intro t p f hf
  rw [(bootSpaces_pte.mp hf).2.2]
  rfl

theorem bootSpaces_inv (s : Memory) : Cow.Inv Counted (bootSpaces s) := by
  refine ⟨fun f hf => ?_, fun f t p t' p' _ h h' => ?_, fun t p hwr => ?_, fun f hf => ?_⟩
  · have hempty : Cow.users (bootSpaces s) f = ∅ := by
      apply Finset.eq_empty_of_forall_notMem
      intro t ht
      rcases Cow.mem_users.mp ht with ⟨p, hp⟩
      have hp' := bootSpaces_pte.mp hp
      have hf' : 256 ≤ f := hf
      omega
    rw [hempty]
    rfl
  · rw [← (bootSpaces_pte.mp h).2.2, (bootSpaces_pte.mp h').2.2]
  · cases hwr
  · cases hf

/-- The frames from 4 MB on are free. -/
theorem card_bootSpaces (s : Memory) : (freeFrames (bootSpaces s)).card = 3072 := by
  have heq : freeFrames (bootSpaces s) = Finset.Ico 1024 4096 := by
    ext f
    rw [mem_freeFrames, Finset.mem_Ico]
    exact ⟨fun h => ⟨h.2.1, h.1⟩, fun h => ⟨h.2, h.1, rfl⟩⟩
  rw [heq, Nat.card_Ico]

/-- The memory that `setup_paging` and `mem_init` leave. -/
theorem memInit_setupPaging (s : Memory) : memInit 0x400000 0x1000000 (setupPaging s) =
    { word := fun z => if z < 4 then entry (z + 1) 7 else if z < 1024 then 0
        else if z < 5120 then entry (z - 1024) 7 else s.word z
      memMap := fun j => if 768 ≤ j ∧ j < 3840 then 0 else if 0 ≤ j ∧ j < 3840 then used
        else s.memMap j } := by
  rw [memInit_eq, setupPaging_eq]

/-- Paging after `setup_paging` and `mem_init`. -/
theorem rep_boot {vis : Nat → Prop} (hvis : ∀ x, vis x → 5120 ≤ x) (s : Memory) :
    Rep vis (memInit 0x400000 0x1000000 (setupPaging s)) (fun _ => none)
      (bootSpaces (memInit 0x400000 0x1000000 (setupPaging s))) := by
  obtain ⟨m, hm, hword, hmap⟩ : ∃ m, memInit 0x400000 0x1000000 (setupPaging s) = m ∧
      (∀ z, m.word z = if z < 4 then entry (z + 1) 7 else if z < 1024 then 0
        else if z < 5120 then entry (z - 1024) 7 else s.word z) ∧
      ∀ j, m.memMap j = if 768 ≤ j ∧ j < 3840 then 0 else if 0 ≤ j ∧ j < 3840 then used else s.memMap j :=
    ⟨_, memInit_setupPaging s, fun _ => rfl, fun _ => rfl⟩
  rw [hm]
  exact {
    inv := bootSpaces_inv m
    dirKernel := fun d hd => by rw [hword, if_pos hd]
    dirTask := fun t ht => by
      have hpos : 0 < (t : Nat) := Fin.pos_iff_ne_zero.mpr ht
      have hlt := t.isLt
      rw [hword, if_neg (by omega), if_pos (by omega)]
      rfl
    dirRest := fun d hd h4 _ => by rw [hword, if_neg (by omega), if_pos hd]
    kernel := fun i hi => by
      rw [hword, if_neg (by omega), if_neg (by omega), if_pos (by omega), Nat.add_sub_cancel_left]
    table := fun _ _ hno => by cases hno
    tabZero := rfl
    tabOwn := fun _ _ hno => by cases hno
    tabInj := fun _ _ _ hno => by cases hno
    ownHigh := fun _ hno => by cases hno
    unmapped := fun t ht _ p => if_neg fun h => ht h.1
    zero := fun p => if_congr (by simp) rfl rfl
    frame := fun t p f hp => by
      have hp' := bootSpaces_pte.mp hp
      exact ⟨hp'.2.1, Or.inl hp'.2.2⟩
    map := fun f hf hf' => by
      rw [hmap, if_pos (by omega)]
      rfl
    mapUsed := fun f hf hf' => by rw [hmap, if_neg (by omega), if_pos (by omega)]
    visHigh := hvis
    mem := fun _ _ _ _ _ _ _ => rfl }

end MockOs.Mm
