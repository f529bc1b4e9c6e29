import MockOs.Mm.Proofs.Memory

/-!
# What `get_free_page` promises (`mm/swap.c:3-27`)

The comment in front of it says that the last free page is marked as used, and that 0 is
returned if there is none. The `while` loop reads `mem_map[i]` before it tests `i >= 0`, and
nothing looks at `i` after it: a full map ends with `mem_map[-1]` written and the frame below
`LOW_MEM` cleared.
-/

namespace MockOs.Mm

/-- The indices of `mem_map` that `get_free_page` reads or writes. -/
def mapAccesses (s : Memory) : List Int :=
  scanReads s.memMap pagingPages ++ [scanMap s.memMap pagingPages]

/-- The contract of `get_free_page`. -/
structure FreePageContract (s : Memory) : Prop where
  /-- The last free page is returned, marked and cleared, and nothing else changes. -/
  found : ∀ i : Nat, i < pagingPages → s.memMap i = 0 →
    (∀ j : Nat, i < j → j < pagingPages → s.memMap j ≠ 0) →
      (getFreePage s).2 = lowMem + BitVec.ofNat 32 (4096 * i) ∧
      (getFreePage s).1.memMap = Function.update s.memMap i 1 ∧
      ∀ x, (getFreePage s).1.word x =
        if lowMem.toNat + 4096 * i ≤ 4 * x ∧ 4 * x < lowMem.toNat + 4096 * (i + 1) then 0
        else s.word x
  /-- Without a free page, the result is 0 and nothing changes. -/
  full : (∀ i : Nat, i < pagingPages → s.memMap i ≠ 0) → getFreePage s = (s, 0)
  /-- The index stays in the array. -/
  inside : ∀ i ∈ mapAccesses s, 0 ≤ i ∧ i < pagingPages

/-- A scan that finds a page reads from the end of the map down to that page. -/
theorem scanReads_found {m : Int → BitVec 8} {i : Nat} (h0 : m i = 0) : ∀ n : Nat, i < n →
    ∀ k ∈ scanReads m n, 0 ≤ k ∧ k < n := by
  intro n
  induction n with
  | zero => intro hlt; exact absurd hlt (Nat.not_lt_zero i)
  | succ n ih =>
    intro hlt k hk
    rw [scanReads, List.mem_cons] at hk
    rcases hk with rfl | hk
    · omega
    · by_cases hn : m n = 0
      · rw [if_neg (not_not_intro hn)] at hk
        exact absurd hk List.not_mem_nil
      · have hne : i ≠ n := by
          rintro rfl
          exact hn h0
        rw [if_pos hn] at hk
        have hin := ih (by omega) k hk
        omega

/-- The scan ends at the last free page. -/
theorem scanMap_last {m : Int → BitVec 8} {i n : Nat} (hi : i < n) (h0 : m i = 0)
    (hlast : ∀ j : Nat, i < j → j < n → m j ≠ 0) : scanMap m n = i := by
  rcases scanMap_spec (m := m) n with ⟨k, hk, hk0, heq, hklast⟩ | ⟨-, hall⟩
  · have hik : i = k := by
      rcases Nat.lt_trichotomy i k with hlt | rfl | hlt
      · exact absurd hk0 (hlast k hlt hk)
      · rfl
      · exact absurd h0 (hklast i hlt hi)
    rw [heq, hik]
  · exact absurd h0 (hall i hi)

/-- `get_free_page` at the last free page. -/
theorem getFreePage_last {s : Memory} {i : Nat} (hi : i < pagingPages) (h0 : s.memMap i = 0)
    (hlast : ∀ j : Nat, i < j → j < pagingPages → s.memMap j ≠ 0) :
    getFreePage s =
      ((s.setMap i 1).fill (i + 256) fun _ => 0, lowMem + BitVec.ofNat 32 (4096 * i)) := by
  have hlt : i < 3840 := hi
  have hidx : ((i + 256 : Nat) : Int) - 256 = i := by omega
  have hscan : scanMap s.memMap pagingPages = ((i + 256 : Nat) : Int) - 256 := by
    rw [hidx]
    exact scanMap_last hi h0 hlast
  have haddr : wordAddr (1024 * (i + 256)) = lowMem + BitVec.ofNat 32 (4096 * i) := by
    have hlow : lowMem = wordAddr (1024 * 256) := by decide
    have hsize : 4096 * i = 4 * (1024 * i) := by omega
    have hsum : 1024 * (i + 256) = 1024 * 256 + 1024 * i := by omega
    rw [hlow, hsize, wordAddr_add, hsum]
  rw [getFreePage_scan (by omega) hscan, hidx, haddr]

theorem exists_last_free {m : Int → BitVec 8} {n : Nat} (h : ∃ i : Nat, i < n ∧ m i = 0) :
    ∃ i : Nat, i < n ∧ m i = 0 ∧ ∀ j : Nat, i < j → j < n → m j ≠ 0 := by
  rcases scanMap_spec (m := m) n with ⟨i, hi, h0, -, hlast⟩ | ⟨-, hall⟩
  · exact ⟨i, hi, h0, hlast⟩
  · rcases h with ⟨i, hi, h0⟩
    exact absurd h0 (hall i hi)

/-- A free page is all that `get_free_page` needs to keep its contract, and without one it
breaks it. -/
theorem freePageContract_iff (s : Memory) :
    FreePageContract s ↔ ∃ i : Nat, i < pagingPages ∧ s.memMap i = 0 := by
  constructor
  · intro h
    by_contra hnone
    have hfull : ∀ i : Nat, i < pagingPages → s.memMap i ≠ 0 :=
      fun i hi h0 => hnone ⟨i, hi, h0⟩
    exact getFreePage_ne_zero s (congrArg Prod.snd (h.full hfull))
  · intro hfree
    refine ⟨fun i hi h0 hlast => ?_, fun hfull => ?_, fun k hk => ?_⟩
    · rw [getFreePage_last hi h0 hlast]
      refine ⟨rfl, rfl, fun x => ?_⟩
      have hlow : lowMem.toNat = 1048576 := by decide
      rw [Memory.fill_word, hlow]
      by_cases hx : x / 1024 = i + 256
      · rw [if_pos hx, if_pos (by omega)]
      · rw [if_neg hx, if_neg (by omega), Memory.setMap_word]
    · rcases hfree with ⟨i, hi, h0⟩
      exact absurd h0 (hfull i hi)
    · rcases exists_last_free hfree with ⟨i, hi, h0, hlast⟩
      rw [mapAccesses, List.mem_append, List.mem_singleton] at hk
      rcases hk with hk | hk
      · exact scanReads_found h0 pagingPages hi k hk
      · rw [hk, scanMap_last hi h0 hlast]
        omega

/-- Memory without a free page. -/
def fullMemory : Memory := ⟨fun x => BitVec.ofNat 32 x, fun _ => used⟩

/-- A full map: the page returned is not 0, its entry is `mem_map[-1]`, and what was in it is
gone. -/
theorem fullMemory_getFreePage :
    ¬ FreePageContract fullMemory ∧ (getFreePage fullMemory).2 = 0xff000 ∧
      (getFreePage fullMemory).1.memMap (-1) = 1 ∧ fullMemory.memMap (-1) = 100 ∧
      (getFreePage fullMemory).1.word 261120 = 0 ∧ fullMemory.word 261120 = 261120 ∧
      (-1 : Int) ∈ mapAccesses fullMemory := by
  have hfull : fullMemory.freePages = ∅ := by
    refine Finset.eq_empty_of_forall_notMem fun i hi => ?_
    have hzero : used = 0 := (mem_freePages.mp hi).2
    exact absurd hzero (by decide)
  have hscan : ∀ n, scanMap fullMemory.memMap n = -1 := by
    intro n
    induction n with
    | zero => rfl
    | succ n ih =>
      have hused : fullMemory.memMap n ≠ 0 := by
        show used ≠ 0
        decide
      rw [scanMap, if_pos hused, ih]
  refine ⟨fun h => getFreePage_ne_zero fullMemory (congrArg Prod.snd (h.full fun i _ => ?_)),
    ?_, ?_, rfl, ?_, rfl, ?_⟩
  · show used ≠ 0
    decide
  · rw [getFreePage_full hfull]
    decide
  · rw [getFreePage_full hfull]
    decide
  · rw [getFreePage_full hfull, Memory.fill_word, if_pos (by decide)]
  · rw [mapAccesses, hscan]
    exact List.mem_append_right _ List.mem_cons_self

end MockOs.Mm
