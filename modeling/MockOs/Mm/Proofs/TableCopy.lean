import Mathlib.Algebra.BigOperators.Fin
import MockOs.Mm.Proofs.Sane
import MockOs.Mm.Proofs.Walk

/-!
# Copying a page table

What one round of the outer loop of `copy_page_tables` (`mm/memory.c:55-91`) leaves in each word
and in `mem_map`, for any page table whose entries are empty or present.
-/

namespace MockOs.Mm

/-! ## Entries -/

instance : DecidablePred Present := fun w => inferInstanceAs (Decidable (1#32 &&& w ≠ 0))

/-- An entry names the frame that is counted at index `j` of `mem_map`. -/
def Names (w : BitVec 32) (j : Int) : Prop := 0 ≤ j ∧ (frameOf w : Int) = j + 256

instance (w : BitVec 32) (j : Int) : Decidable (Names w j) :=
  inferInstanceAs (Decidable (0 ≤ j ∧ (frameOf w : Int) = j + 256))

/-- What becomes of an entry of the parent. -/
def shared (w : BitVec 32) : BitVec 32 := if 256 ≤ frameOf w then w &&& ~~~2#32 else w

/-- How many of the `n` words from `x` on name the frame of index `j`. -/
def namesCount (s : Memory) (x n : Nat) (j : Int) : Nat :=
  ((Finset.range n).filter fun i => Names (s.word (x + i)) j).card

theorem present_and_not_two (w : BitVec 32) : 1#32 &&& (w &&& ~~~2#32) = 1#32 &&& w := by
  have hone : 1#32 &&& ~~~2#32 = 1#32 := by decide
  rw [BitVec.and_comm w, ← BitVec.and_assoc, hone]

/-- The test of the code is one on the frame, since the flags of a present entry are not 0. -/
theorem gt_lowMem_iff {w : BitVec 32} (h : Present w) :
    w &&& ~~~2#32 > lowMem ↔ 256 ≤ frameOf w := by
  have hlt : w.toNat % 4096 &&& 4093 < 4096 := Nat.and_lt_two_pow (n := 12) _ (by decide)
  have hflags : 0 < (w.toNat % 4096 &&& 4093) := by
    rcases Nat.eq_zero_or_pos (w.toNat % 4096 &&& 4093) with hzero | hpos
    · exfalso
      apply h
      rw [← present_and_not_two, and_not_two, hzero, BitVec.and_comm]
      apply BitVec.eq_of_toNat_eq
      rw [entry_and_low (m := 1) (by decide) (frameOf_lt w) (by decide) (by decide)]
      rfl
    · exact hpos
  rw [and_not_two, entry_gt_lowMem (frameOf_lt w) hlt hflags]

theorem not_names_of_low {w : BitVec 32} (h : ¬ 256 ≤ frameOf w) (j : Int) : ¬ Names w j := by
  rintro ⟨hj, hframe⟩
  omega

theorem namesCount_succ (s : Memory) (x n : Nat) (j : Int) :
    namesCount s x (n + 1) j =
      namesCount s (x + 1) n j + if Names (s.word x) j then 1 else 0 := by
  rw [namesCount, namesCount, Finset.card_filter, Finset.card_filter, Finset.sum_range_succ']
  simp only [Nat.add_zero, Nat.add_assoc, Nat.add_comm 1]

theorem namesCount_congr {s s' : Memory} {x n : Nat} (h : ∀ i < n, s'.word (x + i) = s.word (x + i))
    (j : Int) : namesCount s' x n j = namesCount s x n j := by
  rw [namesCount, namesCount]
  refine congrArg Finset.card (Finset.filter_congr fun i hi => ?_)
  rw [h i (Finset.mem_range.mp hi)]

/-! ## The inner loop -/

/-- `n` entries from word `x` on have been copied to those from word `y` on. -/
structure EntriesCopied (s s' : Memory) (x y n : Nat) : Prop where
  copy : ∀ i < n, s'.word (y + i) = s.word (x + i) &&& ~~~2#32
  source : ∀ i < n, s'.word (x + i) = shared (s.word (x + i))
  word : ∀ z, ¬ (y ≤ z ∧ z < y + n) → ¬ (x ≤ z ∧ z < x + n) → s'.word z = s.word z
  map : ∀ j, s'.memMap j = s.memMap j + BitVec.ofNat 8 (namesCount s x n j)

section CopyEntries

variable {s s1 s' : Memory} {x y n : Nat}

/-- Two words are enough to say what one round does. -/
theorem EntriesCopied.one (hy : s'.word y = s.word x &&& ~~~2#32)
    (hx : s'.word x = shared (s.word x)) (hword : ∀ z, z ≠ x → z ≠ y → s'.word z = s.word z)
    (hmap : ∀ j, s'.memMap j = s.memMap j + if Names (s.word x) j then 1 else 0) :
    EntriesCopied s s' x y 1 := by
  refine ⟨fun i hi => ?_, fun i hi => ?_, fun z hzy hzx => ?_, fun j => ?_⟩
  · obtain rfl : i = 0 := by omega
    exact hy
  · obtain rfl : i = 0 := by omega
    exact hx
  · exact hword z (by omega) (by omega)
  · rw [hmap, namesCount_succ]
    have hnone : namesCount s (x + 1) 0 j = 0 := rfl
    rw [hnone]
    split
    · rfl
    · rfl

/-- One round of the loop. -/
theorem copyEntries_entry (n : Nat) (hx : x < 2 ^ 30) (hy : y < 2 ^ 30) (hxy : x ≠ y)
    (hzero : s.word y = 0) (hpresent : s.word x ≠ 0 → Present (s.word x)) :
    ∃ s', copyEntries (n + 1) (wordAddr x) (wordAddr y) s =
      copyEntries n (wordAddr (x + 1)) (wordAddr (y + 1)) s' ∧ EntriesCopied s s' x y 1 := by
  by_cases hv : s.word x = 0
  · refine ⟨s, ?_, .one ?_ ?_ (fun _ _ _ => rfl) fun j => ?_⟩
    · rw [copyEntries, Memory.read_wordAddr hx, if_pos hv, wordAddr_add_four, wordAddr_add_four]
    · rw [hzero, hv]
      rfl
    · rw [hv]
      rfl
    · rw [hv, if_neg (not_names_of_low (by decide) j)]
      exact (BitVec.add_zero _).symm
  · have hcounted := gt_lowMem_iff (hpresent hv)
    by_cases hlow : 256 ≤ frameOf (s.word x)
    · have hnr : mapNr (s.word x &&& ~~~2#32) = (frameOf (s.word x) : Int) - 256 := by
        rw [eq_entry (s.word x &&& ~~~2#32), frameOf_and_not_two]
        exact mapNr_entry (frameOf_lt _) hlow (Nat.mod_lt _ (by decide))
      refine ⟨((s.setWord y (s.word x &&& ~~~2#32)).setWord x (s.word x &&& ~~~2#32)).setMap
        ((frameOf (s.word x) : Int) - 256) (s.memMap ((frameOf (s.word x) : Int) - 256) + 1), ?_,
        .one ?_ ?_ (fun z hzx hzy => ?_) fun j => ?_⟩
      · rw [copyEntries, Memory.read_wordAddr hx, if_neg hv, wordAddr_add_four, wordAddr_add_four]
        simp only [hcounted.mpr hlow, if_true, Memory.write_wordAddr hx, Memory.write_wordAddr hy,
          hnr, Memory.setWord_memMap]
      · rw [Memory.setMap_word, Memory.setWord_word_ne hxy.symm, Memory.setWord_word_self]
      · rw [Memory.setMap_word, Memory.setWord_word_self, shared, if_pos hlow]
      · rw [Memory.setMap_word, Memory.setWord_word_ne hzx, Memory.setWord_word_ne hzy]
      · change Function.update s.memMap _ _ j = _
        by_cases hj : j = (frameOf (s.word x) : Int) - 256
        · subst hj
          rw [Function.update_self, if_pos ⟨by omega, by omega⟩]
        · have hnot : ¬ Names (s.word x) j := by
            rintro ⟨-, hframe⟩
            omega
          rw [Function.update_of_ne hj, if_neg hnot]
          exact (BitVec.add_zero _).symm
    · refine ⟨s.setWord y (s.word x &&& ~~~2#32), ?_, .one Memory.setWord_word_self ?_
        (fun z _ hzy => ?_) fun j => ?_⟩
      · rw [copyEntries, Memory.read_wordAddr hx, if_neg hv, wordAddr_add_four, wordAddr_add_four]
        simp only [mt hcounted.mp hlow, if_false, Memory.write_wordAddr hy]
      · rw [Memory.setWord_word_ne hxy, shared, if_neg hlow]
      · rw [Memory.setWord_word_ne hzy]
      · rw [if_neg (not_names_of_low hlow j)]
        exact (BitVec.add_zero _).symm

/-- The rounds after the first find their entries as they were. -/
theorem EntriesCopied.cons (hdisj : x + (n + 1) ≤ y ∨ y + (n + 1) ≤ x)
    (hone : EntriesCopied s s1 x y 1) (hrest : EntriesCopied s1 s' (x + 1) (y + 1) n) :
    EntriesCopied s s' x y (n + 1) := by
  have hsrc : ∀ i < n, s1.word (x + 1 + i) = s.word (x + 1 + i) :=
    fun i hi => hone.word _ (by omega) (by omega)
  refine ⟨fun i hi => ?_, fun i hi => ?_, fun z hzy hzx => ?_, fun j => ?_⟩
  · cases i with
    | zero => rw [hrest.word _ (by omega) (by omega), hone.copy 0 (by omega)]
    | succ i =>
      have hcopy := hrest.copy i (by omega)
      rw [hsrc i (by omega), Nat.add_assoc, Nat.add_comm 1 i, Nat.add_assoc, Nat.add_comm 1 i] at hcopy
      exact hcopy
  · cases i with
    | zero => rw [hrest.word _ (by omega) (by omega), hone.source 0 (by omega)]
    | succ i =>
      have hsource := hrest.source i (by omega)
      rw [hsrc i (by omega), Nat.add_assoc, Nat.add_comm 1 i] at hsource
      exact hsource
  · rw [hrest.word z (by omega) (by omega), hone.word z (by omega) (by omega)]
  · have hnone : namesCount s (x + 1) 0 j = 0 := rfl
    rw [hrest.map, hone.map, namesCount_congr hsrc, namesCount_succ, namesCount_succ, hnone,
      Nat.zero_add, BitVec.add_assoc, ← BitVec.ofNat_add, Nat.add_comm]

/-- The whole loop, between words that do not overlap. -/
theorem copyEntries_eq (hx : x + n ≤ 2 ^ 30) (hy : y + n ≤ 2 ^ 30) (hdisj : x + n ≤ y ∨ y + n ≤ x)
    (hzero : ∀ i < n, s.word (y + i) = 0)
    (hpresent : ∀ i < n, s.word (x + i) ≠ 0 → Present (s.word (x + i))) :
    EntriesCopied s (copyEntries n (wordAddr x) (wordAddr y) s) x y n := by
  induction n generalizing x y s with
  | zero =>
    exact ⟨fun i hi => absurd hi (Nat.not_lt_zero i), fun i hi => absurd hi (Nat.not_lt_zero i),
      fun _ _ _ => rfl, fun j => (BitVec.add_zero _).symm⟩
  | succ n ih =>
    have hfirst : s.word y = 0 := hzero 0 (by omega)
    have hentry : s.word x ≠ 0 → Present (s.word x) := hpresent 0 (by omega)
    obtain ⟨s1, heq, hone⟩ :=
      copyEntries_entry n (by omega) (by omega) (by omega) hfirst hentry
    have hkeep : ∀ z, z ≠ x → z ≠ y → s1.word z = s.word z :=
      fun z hzx hzy => hone.word z (by omega) (by omega)
    have hrest := ih (x := x + 1) (y := y + 1) (s := s1) (by omega) (by omega) (by omega)
      (fun i hi => by
        rw [hkeep _ (by omega) (by omega), Nat.add_assoc, Nat.add_comm 1 i]
        exact hzero (i + 1) (by omega))
      (fun i hi => by
        rw [hkeep _ (by omega) (by omega), Nat.add_assoc, Nat.add_comm 1 i]
        exact hpresent (i + 1) (by omega))
    rw [heq]
    exact hone.cons hdisj hrest

end CopyEntries

/-! ## A directory entry -/

/-- Entry `i` of the table that directory entry `d` names. -/
def tableEntry (s : Memory) (d i : Nat) : BitVec 32 := s.word (1024 * dirFrame s d + i)

/-- How many of the first `nr` entries of that table name the frame of index `j`. -/
def tableCopies (s : Memory) (d nr : Nat) (j : Int) : Nat := namesCount s (1024 * dirFrame s d) nr j

/-- Directory entry `d` has been copied to entry `e`, with `nr` entries of the table behind it
in a new table in frame `g`. -/
structure DirCopied (s s' : Memory) (d e nr g : Nat) : Prop where
  dir : s'.word e = entry g 7
  copy : ∀ i < 1024, s'.word (1024 * g + i) = if i < nr then tableEntry s d i &&& ~~~2#32 else 0
  source : ∀ i < 1024, s'.word (1024 * dirFrame s d + i) =
    if i < nr then shared (tableEntry s d i) else tableEntry s d i
  word : ∀ x, x ≠ e → x / 1024 ≠ g → x / 1024 ≠ dirFrame s d → s'.word x = s.word x
  map : ∀ j, s'.memMap j =
    (if j = (g : Int) - 256 then 1 else s.memMap j) + BitVec.ofNat 8 (tableCopies s d nr j)

/-- How many entries of each table are copied (`memory.c:73`). -/
def entryCount (src : BitVec 32) : Nat := if src = 0 then 160 else 1024

theorem entryCount_le (src : BitVec 32) : entryCount src ≤ 1024 := by
  unfold entryCount
  split
  · decide
  · decide

section CopyDirs

variable {s : Memory} {src : BitVec 32} {d e g : Nat}

/-- One round of the outer loop, for an entry that is present. -/
theorem copyDirs_present (m : Nat) (hd : d < 1024) (he : e < 1024) (hto : ¬ Present (s.word e))
    (hfrom : Present (s.word d)) (htable : dirFrame s d ≠ 0)
    (hpresent : ∀ i < entryCount src, tableEntry s d i ≠ 0 → Present (tableEntry s d i))
    (hg : 256 ≤ g) (hg' : g < 4096) (hne : dirFrame s d ≠ g)
    (heq : getFreePage s = ((s.setMap ((g : Int) - 256) 1).fill g fun _ => 0, wordAddr (1024 * g))) :
    ∃ s', copyDirs src (m + 1) (wordAddr d) (wordAddr e) s =
      copyDirs src m (wordAddr (d + 1)) (wordAddr (e + 1)) s' ∧
      DirCopied s s' d e (entryCount src) g := by
  have hN := entryCount_le src
  have hF : dirFrame s d < 2 ^ 20 := frameOf_lt _
  have hround := @copyDirs_table s src d e g m (by omega) (by omega) (not_not.mp hto) hfrom hg hg' heq
  -- the memory when the inner loop starts
  obtain ⟨s1, hs1⟩ : ∃ s1,
      ((s.setMap ((g : Int) - 256) 1).fill g fun _ => 0).setWord e (entry g 7) = s1 := ⟨_, rfl⟩
  have hnew : NewTable s s1 e g := newTable he hg hs1
  rw [hs1] at hround
  have hsrc1 : ∀ i < 1024, s1.word (1024 * dirFrame s d + i) = tableEntry s d i :=
    fun i hi => hnew.word _ (by omega) (by omega)
  have hcopied := copyEntries_eq (s := s1) (x := 1024 * dirFrame s d) (y := 1024 * g)
    (n := entryCount src) (by omega) (by omega) (by omega) (fun i hi => hnew.zero i (by omega))
    (fun i hi => by
      rw [hsrc1 i (by omega)]
      exact hpresent i hi)
  refine ⟨copyEntries (entryCount src) (wordAddr (1024 * dirFrame s d)) (wordAddr (1024 * g)) s1,
    hround, ?_, fun i hi => ?_, fun i hi => ?_, fun x hxe hxg hxd => ?_, fun j => ?_⟩
  · rw [hcopied.word e (by omega) (by omega), hnew.dir]
  · split
    · rename_i hin
      rw [hcopied.copy i hin, hsrc1 i hi]
    · rw [hcopied.word _ (by omega) (by omega), hnew.zero i hi]
  · split
    · rename_i hin
      rw [hcopied.source i hin, hsrc1 i hi]
    · rw [hcopied.word _ (by omega) (by omega), hsrc1 i hi]
  · rw [hcopied.word x (by omega) (by omega), hnew.word x hxe hxg]
  · rw [hcopied.map, hnew.map, tableCopies]
    exact congrArg (fun c => _ + BitVec.ofNat 8 c)
      (namesCount_congr (fun i hi => hsrc1 i (by omega)) j)

end CopyDirs

end MockOs.Mm
