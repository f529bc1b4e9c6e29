import Mathlib.Algebra.Group.Nat.Defs
import Mathlib.Data.Finset.Card
import Mathlib.Data.Finset.Image
import Mathlib.Logic.Function.Iterate
import MockOs.Kernel.Fork

/-!
# `find_empty_process`

The search for a process number goes through the positive numbers in a circle, and at most
128 of them are taken. So it ends, and the number it finds is positive.
-/

namespace MockOs.Kernel

namespace ForkSys

/-- The numbers go round from 2^31 - 1 to 1. -/
theorem toNat_nextPid {pid : BitVec 32} (h : pid.toNat < 2147483648) :
    (nextPid pid).toNat = pid.toNat % 2147483647 + 1 := by
  have hadd : (pid + 1).toNat = pid.toNat + 1 := by
    rw [BitVec.toNat_add, show (1 : BitVec 32).toNat = 1 from rfl]
    omega
  have hneg : (pid + 1).slt 0 = true ↔ pid.toNat = 2147483647 := by
    rw [BitVec.slt_iff_toInt_lt, BitVec.toInt_eq_toNat_cond, hadd]
    show (if 2 * (pid.toNat + 1) < 2 ^ 32 then ((pid.toNat + 1 : Nat) : Int)
      else ((pid.toNat + 1 : Nat) : Int) - (2 ^ 32 : Nat)) < 0 ↔ _
    split <;> omega
  rw [nextPid]
  by_cases hlast : pid.toNat = 2147483647
  · rw [if_pos (hneg.mpr hlast), hlast]
    rfl
  · rw [if_neg fun hlt => hlast (hneg.mp hlt), hadd]
    omega

theorem toNat_nextPid_iterate {pid : BitVec 32} (h : pid.toNat < 2147483648) (i : Nat) :
    (nextPid^[i + 1] pid).toNat = (pid.toNat + i) % 2147483647 + 1 := by
  induction i with
  | zero => exact toNat_nextPid h
  | succ i ih =>
    rw [Function.iterate_succ_apply', toNat_nextPid (by rw [ih]; omega), ih]
    omega

/-- The numbers that are in use. -/
def takenPids (s : ForkSys) : Finset (BitVec 32) :=
  (Finset.range nrTasks).image (fun i => s.get (s.task i) Off.pid) ∪
    (Finset.range nrTasks).image fun i => s.get (s.task i) Off.pgrp

theorem card_takenPids (s : ForkSys) : s.takenPids.card ≤ 2 * nrTasks := by
  have h1 := Finset.card_image_le (s := Finset.range nrTasks) (f := fun i => s.get (s.task i) Off.pid)
  have h2 := Finset.card_image_le (s := Finset.range nrTasks) (f := fun i => s.get (s.task i) Off.pgrp)
  have h3 := Finset.card_union_le ((Finset.range nrTasks).image fun i => s.get (s.task i) Off.pid)
    ((Finset.range nrTasks).image fun i => s.get (s.task i) Off.pgrp)
  rw [Finset.card_range] at h1 h2
  rw [takenPids]
  omega

theorem mem_takenPids {s : ForkSys} {pid : BitVec 32} (h : s.pidTaken pid = true) : pid ∈ s.takenPids := by
  rw [pidTaken, List.any_eq_true] at h
  rcases h with ⟨i, hi, htaken⟩
  rw [List.mem_range] at hi
  simp only [Bool.and_eq_true, Bool.or_eq_true, decide_eq_true_eq] at htaken
  rw [takenPids, Finset.mem_union, Finset.mem_image, Finset.mem_image]
  rcases htaken.2 with hpid | hpgrp
  · exact Or.inl ⟨i, Finset.mem_range.mpr hi, hpid⟩
  · exact Or.inr ⟨i, Finset.mem_range.mpr hi, hpgrp⟩

/-- The search changes `last_pid` only, and ends at a number that is not taken. -/
theorem searchPid_cases : ∀ (n : Nat) (s : ForkSys),
    (∃ i < n, searchPid n s = some { s with lastPid := nextPid^[i + 1] s.lastPid } ∧
      s.pidTaken (nextPid^[i + 1] s.lastPid) = false) ∨
    (searchPid n s = none ∧ ∀ i < n, s.pidTaken (nextPid^[i + 1] s.lastPid) = true) := by
  intro n
  induction n with
  | zero => exact fun s => Or.inr ⟨rfl, fun i hi => absurd hi (Nat.not_lt_zero i)⟩
  | succ n ih =>
    intro s
    cases htaken : s.pidTaken (nextPid s.lastPid) with
    | false =>
      refine Or.inl ⟨0, Nat.succ_pos n, ?_, htaken⟩
      have htaken' : ({ s with lastPid := nextPid s.lastPid } : ForkSys).pidTaken (nextPid s.lastPid) = false :=
        htaken
      simp only [searchPid, htaken']
      rfl
    | true =>
      have htaken' : ({ s with lastPid := nextPid s.lastPid } : ForkSys).pidTaken (nextPid s.lastPid) = true :=
        htaken
      have hrec : searchPid (n + 1) s = searchPid n { s with lastPid := nextPid s.lastPid } := by
        simp only [searchPid, htaken', if_true]
      rw [hrec]
      rcases ih { s with lastPid := nextPid s.lastPid } with ⟨i, hi, heq, hfree⟩ | ⟨heq, hall⟩
      · exact Or.inl ⟨i + 1, by omega, heq, hfree⟩
      · refine Or.inr ⟨heq, fun i hi => ?_⟩
        cases i with
        | zero => exact htaken
        | succ i => exact hall i (by omega)

/-- `find_empty_process` ends, whatever numbers are taken. -/
theorem findEmptyProcess_eq {s : ForkSys} (h : s.lastPid.toNat < 2147483648) :
    ∃ pid : BitVec 32, 0 < pid.toNat ∧ pid.toNat < 2147483648 ∧ s.pidTaken pid = false ∧
      s.findEmptyProcess = .ok ({ s with lastPid := pid }, s.emptySlot) := by
  rcases searchPid_cases (2 * nrTasks + 1) s with ⟨i, -, heq, hfree⟩ | ⟨-, hall⟩
  · have hpid := toNat_nextPid_iterate h i
    refine ⟨nextPid^[i + 1] s.lastPid, by omega, by omega, hfree, ?_⟩
    rw [findEmptyProcess, heq]
    rfl
  · -- the numbers tried are different from each other
    have hinj : ∀ i < 129, ∀ j < 129, nextPid^[i + 1] s.lastPid = nextPid^[j + 1] s.lastPid → i = j := by
      intro i hi j hj heq
      have htoNat := congrArg BitVec.toNat heq
      rw [toNat_nextPid_iterate h, toNat_nextPid_iterate h] at htoNat
      omega
    have hsub : (Finset.range 129).image (fun i => nextPid^[i + 1] s.lastPid) ⊆ s.takenPids := by
      intro pid hpid
      rcases Finset.mem_image.mp hpid with ⟨i, hi, rfl⟩
      exact mem_takenPids (hall i (Finset.mem_range.mp hi))
    have hcard := Finset.card_le_card hsub
    rw [Finset.card_image_of_injOn, Finset.card_range] at hcard
    · have hle := card_takenPids s
      rw [show 2 * nrTasks = 128 from rfl] at hle
      omega
    · intro i hi j hj heq
      exact hinj i (by simpa using hi) j (by simpa using hj) heq

/-- The slot that is found: the first one that is empty. -/
theorem emptySlot_cases (s : ForkSys) :
    (∃ i, 1 ≤ i ∧ i < 64 ∧ s.task i = 0 ∧ (∀ j, 1 ≤ j → j < i → s.task j ≠ 0) ∧
      s.emptySlot = BitVec.ofNat 32 i) ∨
    (s.emptySlot = -eagain ∧ ∀ i, 1 ≤ i → i < 64 → s.task i ≠ 0) := by
  cases hfind : (List.range' 1 (nrTasks - 1)).find? fun i => decide (s.task i = 0) with
  | some i =>
    rcases (List.find?_range'_eq_some).mp hfind with ⟨hzero, hmem, hfirst⟩
    rw [List.mem_range'_1] at hmem
    refine Or.inl ⟨i, hmem.1, hmem.2, of_decide_eq_true hzero, fun j hj hji => ?_, ?_⟩
    · simpa using hfirst j hj hji
    · rw [emptySlot, hfind]
  | none =>
    refine Or.inr ⟨by rw [emptySlot, hfind], fun i hi hi' => ?_⟩
    have hno := List.find?_eq_none.mp hfind i (List.mem_range'_1.mpr ⟨hi, hi'⟩)
    simpa using hno

theorem ne_of_pidTaken {s : ForkSys} {pid : BitVec 32} (h : s.pidTaken pid = false) {i : Nat}
    (hi : i < nrTasks) (hne : s.task i ≠ 0) :
    s.get (s.task i) Off.pid ≠ pid ∧ s.get (s.task i) Off.pgrp ≠ pid := by
  rw [pidTaken, List.any_eq_false] at h
  have hno := h i (List.mem_range.mpr hi)
  simp only [Bool.and_eq_true, Bool.or_eq_true, decide_eq_true_eq, not_and, not_or] at hno
  exact hno hne

/-- What `find_empty_process` leaves and returns: a number that no task has, and the first empty
slot, or `-EAGAIN` without one. -/
structure PidFound (s s' : ForkSys) (nr : BitVec 32) : Prop where
  rest : s' = { s with lastPid := s'.lastPid }
  pos : 1 ≤ s'.lastPid.toNat
  high : s'.lastPid.toNat ≤ 2 ^ 31 - 1
  fresh : ∀ i < nrTasks, s.task i ≠ 0 →
    s.get (s.task i) Off.pid ≠ s'.lastPid ∧ s.get (s.task i) Off.pgrp ≠ s'.lastPid
  slot : ∀ i, 1 ≤ i → i < nrTasks → s.task i = 0 → (∀ j, 1 ≤ j → j < i → s.task j ≠ 0) →
    nr = BitVec.ofNat 32 i
  full : nr = -eagain ↔ ∀ i, 1 ≤ i → i < nrTasks → s.task i ≠ 0

theorem findEmptyProcess_found {s : ForkSys} (h : s.lastPid.toNat < 2147483648) :
    ∃ s' nr, s.findEmptyProcess = .ok (s', nr) ∧ PidFound s s' nr := by
  rcases findEmptyProcess_eq h with ⟨pid, hpos, hlt, htaken, heq⟩
  refine ⟨_, _, heq, rfl, hpos, Nat.le_sub_one_of_lt hlt, fun i hi hne => ne_of_pidTaken htaken hi hne, ?_, ?_⟩
  · intro i h1 h2 hzero hfirst
    rcases s.emptySlot_cases with ⟨j, hj1, hj2, hjzero, hjfirst, hslot⟩ | ⟨-, hfull⟩
    · have hij : ¬ i < j := fun hlt => hjfirst i h1 hlt hzero
      have hji : ¬ j < i := fun hlt => hfirst j hj1 hlt hjzero
      rw [hslot, show i = j by omega]
    · exact absurd hzero (hfull i h1 h2)
  · rcases s.emptySlot_cases with ⟨j, hj1, hj2, hjzero, -, hslot⟩ | ⟨hslot, hfull⟩
    · refine ⟨fun hagain => ?_, fun hfull => absurd hjzero (hfull j hj1 hj2)⟩
      have htoNat := congrArg BitVec.toNat (hslot.symm.trans hagain)
      rw [BitVec.toNat_ofNat, show (-eagain).toNat = 4294967285 from rfl] at htoNat
      omega
    · exact ⟨fun _ => hfull, fun _ => hslot⟩

/-- A memory in which the same numbers are taken. -/
theorem searchPid_remap {m : Mm.Memory} {s : ForkSys}
    (htaken : ∀ pid, ({ s with mm := m } : ForkSys).pidTaken pid = s.pidTaken pid) : ∀ (n : Nat) (pid : BitVec 32),
    searchPid n { s with mm := m, lastPid := pid } =
      (searchPid n { s with lastPid := pid }).map fun s => { s with mm := m } := by
  intro n
  induction n with
  | zero => exact fun _ => rfl
  | succ n ih =>
    intro pid
    rw [searchPid, searchPid]
    dsimp only
    have hsame : ({ s with mm := m, lastPid := nextPid pid } : ForkSys).pidTaken (nextPid pid) =
        ({ s with lastPid := nextPid pid } : ForkSys).pidTaken (nextPid pid) := htaken (nextPid pid)
    rw [hsame]
    split
    · exact ih (nextPid pid)
    · rfl

theorem findEmptyProcess_remap {m : Mm.Memory} {s s' : ForkSys} {nr : BitVec 32}
    (htaken : ∀ pid, ({ s with mm := m } : ForkSys).pidTaken pid = s.pidTaken pid)
    (h : s.findEmptyProcess = .ok (s', nr)) :
    ({ s with mm := m } : ForkSys).findEmptyProcess = .ok ({ s' with mm := m }, nr) := by
  have hsearch := searchPid_remap htaken (2 * nrTasks + 1) s.lastPid
  have hs : ({ s with mm := m, lastPid := s.lastPid } : ForkSys) = { s with mm := m } := rfl
  rw [hs, show ({ s with lastPid := s.lastPid } : ForkSys) = s from rfl] at hsearch
  rw [findEmptyProcess] at h
  rw [findEmptyProcess, hsearch]
  cases hfound : s.searchPid (2 * nrTasks + 1) with
  | none =>
    rw [hfound] at h
    cases h
  | some s1 =>
    rw [hfound] at h
    cases h
    rfl

theorem sysFork_full {r : Regs} {s : ForkSys} (h : s.lastPid.toNat < 2147483648)
    (hfull : ∀ i, 1 ≤ i → i < 64 → s.task i ≠ 0) :
    ∃ pid : BitVec 32, pid.toNat < 2147483648 ∧
      s.sysFork r = .ok ({ s with lastPid := pid }, -eagain) := by
  rcases findEmptyProcess_eq h with ⟨pid, -, hlt, -, heq⟩
  refine ⟨pid, hlt, ?_⟩
  rcases s.emptySlot_cases with ⟨i, h1, h2, hzero, -, -⟩ | ⟨hslot, -⟩
  · exact absurd hzero (hfull i h1 h2)
  · have hneg : (-eagain : BitVec 32).slt 0 = true := by decide
    simp only [sysFork, heq, hslot, bind, Except.bind]
    rw [if_pos hneg]
    rfl

theorem sysFork_free {r : Regs} {s : ForkSys} (h : s.lastPid.toNat < 2147483648) {i : Nat} (h1 : 1 ≤ i)
    (h2 : i < 64) (hfree : s.task i = 0) :
    ∃ (nr : Nat) (pid : BitVec 32), 1 ≤ nr ∧ nr < 64 ∧ s.task nr = 0 ∧ (∀ j, 1 ≤ j → j < nr → s.task j ≠ 0) ∧
      0 < pid.toNat ∧ pid.toNat < 2147483648 ∧ s.pidTaken pid = false ∧
      s.sysFork r = ({ s with lastPid := pid } : ForkSys).copyProcess nr r := by
  rcases findEmptyProcess_eq h with ⟨pid, hpos, hlt, htaken, heq⟩
  rcases s.emptySlot_cases with ⟨nr, hnr1, hnr2, hzero, hfirst, hslot⟩ | ⟨-, hfull⟩
  · refine ⟨nr, pid, hnr1, hnr2, hzero, hfirst, hpos, hlt, htaken, ?_⟩
    have htoNat : (BitVec.ofNat 32 nr).toNat = nr := by
      rw [BitVec.toNat_ofNat, Nat.mod_eq_of_lt (by omega)]
    have hneg : ¬ (BitVec.ofNat 32 nr).slt 0 = true := by
      rw [BitVec.slt_iff_toInt_lt, BitVec.toInt_eq_toNat_of_lt (by omega), htoNat]
      show ¬ ((nr : Int) < 0)
      omega
    simp only [sysFork, heq, hslot, bind, Except.bind]
    rw [if_neg hneg, htoNat]
  · exact absurd hfree (hfull i h1 h2)

end ForkSys

end MockOs.Kernel
