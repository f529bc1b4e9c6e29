import MockOs.Mm.Proofs.Paging

/-!
# What the paging code does to any memory

`un_wp_page` and `copy_page_tables` are given here for every memory, whatever is in the page
tables: they only look at the frame that an entry names.
-/

namespace MockOs.Mm

/-! ## The frame of an entry -/

/-- The frame that an entry names. -/
def frameOf (w : BitVec 32) : Nat := w.toNat / 4096

theorem frameOf_lt (w : BitVec 32) : frameOf w < 2 ^ 20 := by
  have hlt := w.isLt
  rw [frameOf]
  omega

@[simp] theorem frameOf_zero : frameOf 0 = 0 := rfl

/-- A word as an entry. -/
theorem eq_entry (w : BitVec 32) : w = entry (frameOf w) (w.toNat % 4096) := by
  have hlt := w.isLt
  apply BitVec.eq_of_toNat_eq
  rw [toNat_entry (frameOf_lt w) (Nat.mod_lt _ (by decide)), frameOf]
  omega

theorem frameOf_entry {f c : Nat} (hf : f < 2 ^ 20) (hc : c < 4096) : frameOf (entry f c) = f := by
  rw [frameOf, toNat_entry hf hc]
  omega

theorem page_and (w : BitVec 32) : 0xfffff000#32 &&& w = wordAddr (1024 * frameOf w) := by
  conv_lhs => rw [eq_entry w]
  exact page_entry (frameOf_lt w) (Nat.mod_lt _ (by decide))

/-- The entry for a new page. -/
theorem page_or_seven {f : Nat} (hf : f < 2 ^ 20) : wordAddr (1024 * f) ||| 7 = entry f 7 := by
  rw [wordAddr_frame, entry_or (m := 7) (by decide) hf (by decide) (by decide)]
  rfl

theorem frameOf_or_two (w : BitVec 32) : frameOf (w ||| 2) = frameOf w := by
  have hmod : w.toNat % 4096 < 4096 := Nat.mod_lt _ (by decide)
  conv_lhs => rw [eq_entry w]
  rw [entry_or (m := 2) (by decide) (frameOf_lt w) hmod (by decide),
    frameOf_entry (frameOf_lt w) (Nat.or_lt_two_pow (n := 12) hmod (by decide))]

theorem and_not_two (w : BitVec 32) :
    w &&& ~~~2#32 = entry (frameOf w) (w.toNat % 4096 &&& 4093) :=  by
  have hmod : w.toNat % 4096 < 4096 := Nat.mod_lt _ (by decide)
  conv_lhs => rw [eq_entry w]
  exact entry_and (m := 4093) (by decide) (frameOf_lt w) hmod (by decide)

theorem frameOf_and_not_two (w : BitVec 32) : frameOf (w &&& ~~~2#32) = frameOf w := by
  rw [and_not_two, frameOf_entry (frameOf_lt w) (Nat.and_lt_two_pow (n := 12) _ (by decide))]

/-- The flag that says that an entry is present is not the one that is cleared or set. -/
theorem present_or_two (w : BitVec 32) : 1#32 &&& (w ||| 2) = 1#32 &&& w := by
  have hno : 1#32 &&& 2 = 0#32 := by decide
  rw [BitVec.and_or_distrib_left, hno, BitVec.or_zero]

/-- `mem_map` has an entry for the frames from `LOW_MEM` on. -/
theorem mapNr_frame {f : Nat} (hf : 256 ≤ f) (hf' : f < 2 ^ 20) :
    mapNr (wordAddr (1024 * f)) = (f : Int) - 256 := by
  rw [wordAddr_frame, mapNr_entry hf' hf (by decide)]

theorem frame_ge_lowMem {f : Nat} (hf : f < 2 ^ 20) : wordAddr (1024 * f) ≥ lowMem ↔ 256 ≤ f := by
  rw [wordAddr_frame, entry_ge_lowMem hf (by decide)]

/-! ## Walking the tables -/

theorem dir_walk (a : BitVec 32) : (a >>> 20) &&& 0xffc#32 = wordAddr (a.toNat / 4194304) := by
  have hlt := a.isLt
  apply BitVec.eq_of_toNat_eq
  rw [Bits.toNat_shift_mask _ 20 2 10 (by decide), toNat_wordAddr (by omega)]
  omega

/-- `lin2phy` takes the table from the directory, whether the entry is present or not. -/
theorem lin2phy_walk (a : BitVec 32) (s : Memory) :
    lin2phy a s = wordAddr (1024 * frameOf (s.word (a.toNat / 4194304)) + a.toNat / 4096 % 1024) := by
  have hlt := a.isLt
  have hidx : (a >>> 10) &&& 0xffc#32 = BitVec.ofNat 32 (4 * (a.toNat / 4096 % 1024)) := by
    apply BitVec.eq_of_toNat_eq
    rw [Bits.toNat_shift_mask _ 10 2 10 (by decide), BitVec.toNat_ofNat]
    omega
  show ((a >>> 10) &&& 0xffc#32) + (0xfffff000#32 &&& s.read ((a >>> 20) &&& 0xffc#32)) = _
  rw [hidx, dir_walk, Memory.read_wordAddr (by omega), page_and, BitVec.add_comm, wordAddr_add]

/-- `do_wp_page` finds the same entry. -/
theorem doWpPage_walk (a : BitVec 32) (s : Memory) :
    doWpPage a s = unWpPage (wordAddr (1024 * frameOf (s.word (a.toNat / 4194304)) + a.toNat / 4096 % 1024)) s := by
  have hlt := a.isLt
  have hidx : ((a >>> 12) &&& 0x3ff#32) * 4 = BitVec.ofNat 32 (4 * (a.toNat / 4096 % 1024)) := by
    apply BitVec.eq_of_toNat_eq
    have h4 : (4 : BitVec 32).toNat = 4 := rfl
    rw [BitVec.toNat_mul, Bits.toNat_shift_mask _ 12 0 10 (by decide), BitVec.toNat_ofNat, h4]
    omega
  show unWpPage ((s.read ((a >>> 20) &&& 0xffc#32) &&& 0xfffff000#32) + ((a >>> 12) &&& 0x3ff#32) * 4) s = _
  rw [hidx, dir_walk, Memory.read_wordAddr (by omega), BitVec.and_comm, page_and, wordAddr_add]

/-! ## `un_wp_page` -/

section UnWpPage

variable {s : Memory} {e f : Nat}

/-- The only user of the page may write it from then on. -/
theorem unWpPage_once (he : e < 2 ^ 30) (hf : frameOf (s.word e) = f) (hlow : 256 ≤ f)
    (hone : s.memMap ((f : Int) - 256) = 1) :
    unWpPage (wordAddr e) s = s.setWord e (s.word e ||| 2) := by
  have hlt : f < 2 ^ 20 := hf ▸ frameOf_lt _
  simp only [unWpPage, Memory.read_wordAddr he, page_and, hf, mapNr_frame hlow hlt]
  rw [if_pos ⟨(frame_ge_lowMem hlt).mpr hlow, hone⟩, Memory.write_wordAddr he]

/-- `mem_map` after the count of the old page went down. -/
theorem countDown (s : Memory) (hlt : f < 2 ^ 20) : ∃ s' : Memory,
    (if wordAddr (1024 * f) ≥ lowMem then s.setMap (mapNr (wordAddr (1024 * f)))
      (s.memMap (mapNr (wordAddr (1024 * f))) - 1) else s) = s' ∧ s'.word = s.word ∧
    ∀ j : Nat, s'.memMap ((j : Int) - 256) = if Counted f ∧ j = f then s.memMap ((j : Int) - 256) - 1
      else s.memMap ((j : Int) - 256) := by
  refine ⟨_, rfl, ?_, fun j => ?_⟩
  · split <;> rfl
  · by_cases hcf : 256 ≤ f
    · rw [if_pos ((frame_ge_lowMem hlt).mpr hcf), mapNr_frame hcf hlt]
      show Function.update s.memMap ((f : Int) - 256) _ _ = _
      by_cases hjf : j = f
      · rw [hjf, if_pos ⟨hcf, rfl⟩, Function.update_self]
      · rw [if_neg fun h => hjf h.2, Function.update_of_ne (by omega)]
    · rw [if_neg fun h => hcf ((frame_ge_lowMem hlt).mp h), if_neg fun h => hcf h.1]

/-- Any other user gets the page that `get_free_page` returns, with a copy of the old one. -/
theorem unWpPage_page {k : Nat} {m1 : Memory} (he : e < 2 ^ 30) (hf : frameOf (s.word e) = f)
    (hno : ¬ (256 ≤ f ∧ s.memMap ((f : Int) - 256) = 1)) (hk : k < 4096)
    (hpage : getFreePage s = (m1, wordAddr (1024 * k))) :
    ∃ s1 : Memory, s1.word = m1.word ∧ (∀ j : Nat, s1.memMap ((j : Int) - 256) =
        if Counted f ∧ j = f then m1.memMap ((j : Int) - 256) - 1 else m1.memMap ((j : Int) - 256)) ∧
      unWpPage (wordAddr e) s = (copyPage (wordAddr (1024 * f)) (wordAddr (1024 * k)) s1).setWord e (entry k 7) := by
  have hlt : f < 2 ^ 20 := hf ▸ frameOf_lt _
  have hnot : ¬ (wordAddr (1024 * f) ≥ lowMem ∧ s.memMap (mapNr (wordAddr (1024 * f))) = 1) := by
    rintro ⟨hge, hone⟩
    have hlow := (frame_ge_lowMem hlt).mp hge
    rw [mapNr_frame hlow hlt] at hone
    exact hno ⟨hlow, hone⟩
  rcases countDown m1 hlt with ⟨s1, hs1, hword1, hmap1⟩
  refine ⟨s1, hword1, hmap1, ?_⟩
  simp only [unWpPage, Memory.read_wordAddr he, page_and, hf, hpage, hs1]
  rw [if_neg hnot, page_or_seven (by omega), Memory.write_wordAddr he]

/-- `un_wp_page` writes the entry and the new page. -/
theorem unWpPage_new {k : Nat} {i : Int} (he : e < 2 ^ 30) (hf : frameOf (s.word e) = f)
    (hno : ¬ (256 ≤ f ∧ s.memMap ((f : Int) - 256) = 1)) (hk : k < 4096)
    (hpage : getFreePage s = ((s.setMap i 1).fill k fun _ => 0, wordAddr (1024 * k))) :
    (unWpPage (wordAddr e) s).word e = entry k 7 ∧
      ∀ x, x ≠ e → x / 1024 ≠ k → (unWpPage (wordAddr e) s).word x = s.word x := by
  rcases unWpPage_page he hf hno hk hpage with ⟨s1, hword1, -, hunwp⟩
  rw [hunwp]
  refine ⟨Memory.setWord_word_self, fun x hxe hxk => ?_⟩
  rw [Memory.setWord_word_ne hxe, copyPage, movsl_other (by omega) (by omega), hword1, Memory.fill_word_ne _ hxk]
  rfl

/-- With or without a free page, the new page is one that no count is for. -/
theorem unWpPage_frame (he : e < 2 ^ 30) (hf : frameOf (s.word e) = f)
    (hno : ¬ (256 ≤ f ∧ s.memMap ((f : Int) - 256) = 1)) :
    ∃ k : Nat, (k = 255 ∨ 256 ≤ k ∧ k < 4096 ∧ s.memMap ((k : Int) - 256) = 0) ∧
      (unWpPage (wordAddr e) s).word e = entry k 7 ∧
      ∀ x, x ≠ e → x / 1024 ≠ k → (unWpPage (wordAddr e) s).word x = s.word x := by
  rcases s.freePages.eq_empty_or_nonempty with hempty | hfree
  · exact ⟨255, Or.inl rfl, unWpPage_new he hf hno (by decide) (getFreePage_full hempty)⟩
  · rcases getFreePage_eq hfree with ⟨k, hk, hk', h0, heq⟩
    exact ⟨k, Or.inr ⟨hk, hk', h0⟩, unWpPage_new he hf hno hk' heq⟩

/-- An entry that has got a copy of its page, in a free frame. -/
structure Recopied (s s' : Memory) (e f k : Nat) : Prop where
  low : 256 ≤ k
  high : k < 4096
  free : s.memMap ((k : Int) - 256) = 0
  entry : s'.word e = Mm.entry k 7
  word : ∀ x, x ≠ e → x / 1024 ≠ k → s'.word x = s.word x
  copy : f < 4096 → f ≠ k → ∀ i < 1024, 1024 * k + i ≠ e → s'.word (1024 * k + i) = s.word (1024 * f + i)
  map : ∀ j : Nat, s'.memMap ((j : Int) - 256) =
    (if j = k then 1 else s.memMap ((j : Int) - 256)) - if Counted f ∧ j = f then 1 else 0#8

theorem unWpPage_recopied (he : e < 2 ^ 30) (hf : frameOf (s.word e) = f)
    (hno : ¬ (256 ≤ f ∧ s.memMap ((f : Int) - 256) = 1)) (hfree : s.freePages.Nonempty) :
    ∃ k, Recopied s (unWpPage (wordAddr e) s) e f k := by
  rcases getFreePage_eq hfree with ⟨k, hk, hk', h0, heq⟩
  rcases unWpPage_page he hf hno hk' heq with ⟨s1, hword1, hmap1, hunwp⟩
  have hother : ∀ x, x / 1024 ≠ k → s1.word x = s.word x := by
    intro x hx
    rw [hword1, Memory.fill_word_ne _ hx]
    rfl
  rw [hunwp]
  refine ⟨k, hk, hk', h0, Memory.setWord_word_self, fun x hxe hxk => ?_, fun hf4096 hfk i hi hie => ?_,
    fun j => ?_⟩
  · rw [Memory.setWord_word_ne hxe, copyPage, movsl_other (by omega) (by omega), hother x hxk]
  · rw [Memory.setWord_word_ne hie, copyPage_eq hf4096 hk' hfk, Memory.fill_word_self _ hi,
      hother _ (by omega)]
  · rw [Memory.setWord_memMap, copyPage, movsl_memMap, hmap1, Memory.fill_memMap]
    have hset : (s.setMap ((k : Int) - 256) 1).memMap ((j : Int) - 256) =
        if j = k then 1 else s.memMap ((j : Int) - 256) := by
      show Function.update s.memMap ((k : Int) - 256) 1 ((j : Int) - 256) = _
      by_cases hjk : j = k
      · rw [hjk, Function.update_self, if_pos rfl]
      · rw [Function.update_of_ne (by omega), if_neg hjk]
    rw [hset]
    by_cases hjf : Counted f ∧ j = f
    · rw [if_pos hjf, if_pos hjf]
    · rw [if_neg hjf, if_neg hjf, BitVec.sub_zero]

end UnWpPage

/-! ## `copy_page_tables` -/

/-- `n` entries from word `x` on have been copied to the empty words from `y` on. The flags can
differ, and a frame that the entries name can have been counted once more. -/
structure TableCopied (s s' : Memory) (x y n : Nat) : Prop where
  copy : ∀ i < n, frameOf (s'.word (y + i)) = frameOf (s.word (x + i))
  frame : ∀ z, ¬ (y ≤ z ∧ z < y + n) → frameOf (s'.word z) = frameOf (s.word z)
  word : ∀ z, ¬ (y ≤ z ∧ z < y + n) → ¬ (x ≤ z ∧ z < x + n) → s'.word z = s.word z
  map : ∀ j : Nat, s'.memMap ((j : Int) - 256) = s.memMap ((j : Int) - 256) ∨
    (s'.memMap ((j : Int) - 256) = s.memMap ((j : Int) - 256) + 1 ∧ 256 ≤ j ∧
      ∃ i < n, frameOf (s.word (x + i)) = j)

section CopyEntries

variable {s : Memory} {x y : Nat}

/-- One round of the loop. -/
theorem copyEntries_round (n : Nat) (hx : x < 2 ^ 30) (hy : y < 2 ^ 30) (hxy : x ≠ y) (hzero : s.word y = 0) :
    ∃ s', copyEntries (n + 1) (wordAddr x) (wordAddr y) s =
      copyEntries n (wordAddr (x + 1)) (wordAddr (y + 1)) s' ∧ TableCopied s s' x y 1 := by
  have honly : ∀ i, i < 1 → i = 0 := fun i hi => by omega
  by_cases hv : s.word x = 0
  · refine ⟨s, ?_, fun i hi => ?_, fun z _ => rfl, fun z _ _ => rfl, fun j => Or.inl rfl⟩
    · rw [copyEntries, Memory.read_wordAddr hx, if_pos hv, wordAddr_add_four, wordAddr_add_four]
    · rw [honly i hi, Nat.add_zero, Nat.add_zero, hzero, hv]
  · obtain ⟨w, hw⟩ : ∃ w, s.word x &&& ~~~2#32 = w := ⟨_, rfl⟩
    have hframe : frameOf w = frameOf (s.word x) := hw ▸ frameOf_and_not_two _
    by_cases hcount : w > lowMem
    · -- the frame is counted, and the entry of the parent cleared too
      have hlow : 256 ≤ frameOf w := by
        have hlt : lowMem.toNat < w.toNat := hcount
        have hl : lowMem.toNat = 1048576 := rfl
        rw [frameOf]
        omega
      have hnr : mapNr w = (frameOf (s.word x) : Int) - 256 := by
        rw [← hframe]
        conv_lhs => rw [eq_entry w]
        exact mapNr_entry (frameOf_lt w) hlow (Nat.mod_lt _ (by decide))
      refine ⟨((s.setWord y w).setWord x w).setMap (mapNr w) (s.memMap (mapNr w) + 1), ?_, fun i hi => ?_,
        fun z hz => ?_, fun z hz hz' => ?_, fun j => ?_⟩
      · rw [copyEntries, Memory.read_wordAddr hx, if_neg hv, wordAddr_add_four, wordAddr_add_four]
        simp only [hw, hcount, if_true, Memory.write_wordAddr hx, Memory.write_wordAddr hy,
          Memory.setWord_memMap]
      · rw [honly i hi, Nat.add_zero, Nat.add_zero, Memory.setMap_word,
          Memory.setWord_word_ne (Ne.symm hxy), Memory.setWord_word_self, hframe]
      · rw [Memory.setMap_word]
        by_cases hzx : z = x
        · rw [hzx, Memory.setWord_word_self, hframe]
        · rw [Memory.setWord_word_ne hzx, Memory.setWord_word_ne (by omega)]
      · rw [Memory.setMap_word, Memory.setWord_word_ne (by omega), Memory.setWord_word_ne (by omega)]
      · show Function.update s.memMap (mapNr w) _ _ = _ ∨ Function.update s.memMap (mapNr w) _ _ = _ ∧ _
        by_cases hj : (j : Int) - 256 = mapNr w
        · right
          rw [hj, Function.update_self]
          exact ⟨rfl, by omega, 0, by omega, by rw [Nat.add_zero]; omega⟩
        · rw [Function.update_of_ne hj]
          exact Or.inl rfl
    · refine ⟨s.setWord y w, ?_, fun i hi => ?_, fun z hz => ?_, fun z hz hz' => ?_, fun j => Or.inl rfl⟩
      · rw [copyEntries, Memory.read_wordAddr hx, if_neg hv, wordAddr_add_four, wordAddr_add_four]
        simp only [hw, hcount, if_false, Memory.write_wordAddr hy]
      · rw [honly i hi, Nat.add_zero, Nat.add_zero, Memory.setWord_word_self, hframe]
      · rw [Memory.setWord_word_ne (by omega)]
      · rw [Memory.setWord_word_ne (by omega)]

/-- The whole loop, over entries that name no frame of `mem_map` twice. -/
theorem copyEntries_copied {n : Nat} : ∀ {x y : Nat} {s : Memory}, x + n < 2 ^ 30 → y + n < 2 ^ 30 →
    (x + n ≤ y ∨ y + n ≤ x) → (∀ i < n, s.word (y + i) = 0) →
    (∀ i < n, ∀ j < n, frameOf (s.word (x + i)) = frameOf (s.word (x + j)) → 256 ≤ frameOf (s.word (x + i)) →
      i = j) → TableCopied s (copyEntries n (wordAddr x) (wordAddr y) s) x y n := by
  induction n with
  | zero =>
    intro x y s _ _ _ _ _
    exact ⟨fun i hi => absurd hi (Nat.not_lt_zero i), fun _ _ => rfl, fun _ _ _ => rfl, fun _ => Or.inl rfl⟩
  | succ n ih =>
    intro x y s hx hy hdisj hzero hinj
    have hfirst : s.word y = 0 := hzero 0 (by omega)
    rcases copyEntries_round (x := x) n (by omega) (by omega) (by omega) hfirst with ⟨s1, heq, hone⟩
    have hsrc : ∀ i < n, s1.word (x + 1 + i) = s.word (x + (i + 1)) := by
      intro i hi
      rw [hone.word _ (by omega) (by omega), Nat.add_assoc, Nat.add_comm 1 i]
    have hrest := ih (x := x + 1) (y := y + 1) (s := s1) (by omega) (by omega) (by omega)
      (fun i hi => by
        rw [hone.word _ (by omega) (by omega), Nat.add_assoc, Nat.add_comm 1 i]
        exact hzero (i + 1) (by omega))
      (fun i hi j hj hframe hlow => by
        rw [hsrc i hi] at hframe hlow
        rw [hsrc j hj] at hframe
        have hsame := hinj (i + 1) (by omega) (j + 1) (by omega) hframe hlow
        omega)
    rw [heq]
    refine ⟨fun i hi => ?_, fun z hz => ?_, fun z hz hz' => ?_, fun j => ?_⟩
    · cases i with
      | zero => rw [hrest.frame _ (by omega), hone.copy 0 (by omega)]
      | succ i =>
        have hcopy := hrest.copy i (by omega)
        rw [hsrc i (by omega), Nat.add_assoc, Nat.add_comm 1 i] at hcopy
        exact hcopy
    · rw [hrest.frame z (by omega), hone.frame z (by omega)]
    · rw [hrest.word z (by omega) (by omega), hone.word z (by omega) (by omega)]
    · rcases hrest.map j with hsame | ⟨hmore, hlow, i, hi, hframe⟩
      · rw [hsame]
        rcases hone.map j with hsame' | ⟨hmore', hlow', i, hi, hframe'⟩
        · exact Or.inl hsame'
        · exact Or.inr ⟨hmore', hlow', i, by omega, hframe'⟩
      · rw [hsrc i hi] at hframe
        refine Or.inr ⟨?_, hlow, i + 1, by omega, hframe⟩
        rw [hmore]
        rcases hone.map j with hsame' | ⟨-, -, i', hi', hframe'⟩
        · rw [hsame']
        · -- the first entry does not name the same frame as a later one
          have hi0 : i' = 0 := by omega
          rw [hi0] at hframe'
          have hno := hinj 0 (by omega) (i + 1) (by omega) (hframe'.trans hframe.symm) (by omega)
          omega

end CopyEntries

section CopyDirs

variable {s s1 : Memory} {src : BitVec 32} {d e g : Nat}

/-- A new table in frame `g` that directory entry `e` names, and nothing in it yet. -/
structure NewTable (s s1 : Memory) (e g : Nat) : Prop where
  dir : s1.word e = entry g 7
  zero : ∀ i < 1024, s1.word (1024 * g + i) = 0
  word : ∀ z, z ≠ e → z / 1024 ≠ g → s1.word z = s.word z
  map : ∀ j, s1.memMap j = if j = (g : Int) - 256 then 1 else s.memMap j

theorem newTable (he : e < 1024) (hg : 256 ≤ g)
    (h : ((s.setMap ((g : Int) - 256) 1).fill g fun _ => 0).setWord e (entry g 7) = s1) :
    NewTable s s1 e g := by
  refine ⟨?_, fun i hi => ?_, fun z hze hzg => ?_, fun j => ?_⟩
  · rw [← h, Memory.setWord_word_self]
  · rw [← h, Memory.setWord_word_ne (by omega), Memory.fill_word_self _ hi]
  · rw [← h, Memory.setWord_word_ne hze, Memory.fill_word_ne _ hzg]
    rfl
  · rw [← h]
    exact Function.update_apply _ _ _ _

/-- A round of the outer loop for an entry that is present: the table behind it is copied to a
new table in frame `g`. -/
theorem copyDirs_table (m : Nat) (hd : d < 2 ^ 30) (he : e < 2 ^ 30) (hto : 1#32 &&& s.word e = 0)
    (hfrom : 1#32 &&& s.word d ≠ 0) (hg : 256 ≤ g) (hg' : g < 4096)
    (heq : getFreePage s = ((s.setMap ((g : Int) - 256) 1).fill g fun _ => 0, wordAddr (1024 * g))) :
    copyDirs src (m + 1) (wordAddr d) (wordAddr e) s =
      copyDirs src m (wordAddr (d + 1)) (wordAddr (e + 1))
        (copyEntries (if src = 0 then 0xA0 else 1024) (wordAddr (1024 * frameOf (s.word d)))
          (wordAddr (1024 * g))
          (((s.setMap ((g : Int) - 256) 1).fill g fun _ => 0).setWord e (entry g 7))) := by
  have hpage : wordAddr (1024 * g) ≠ 0 := wordAddr_ne_zero (by omega) (by omega)
  rw [copyDirs, Memory.read_wordAddr he, if_neg (not_not_intro hto), Memory.read_wordAddr hd,
    if_neg hfrom, heq, page_and, wordAddr_add_four, wordAddr_add_four]
  simp only [hpage, if_false, page_or_seven (by omega : g < 2 ^ 20)]
  rw [Memory.write_wordAddr he]

end CopyDirs

section CopyPageTables

variable {s : Memory} {t c : Fin 64} {g : Nat} {src dst size : BitVec 32}

theorem aligned {x : BitVec 32} (hx : x.toNat % 4194304 = 0) : ¬ (x &&& 0x3fffff#32 ≠ 0) := by
  refine not_not_intro (BitVec.eq_of_toNat_eq ?_)
  rw [Bits.toNat_and_mask _ 0 22 (by decide)]
  show _ = 0
  omega

/-- The directory entries that a call is about. -/
theorem copyPageTables_dirs (hsrc : src.toNat % 4194304 = 0) (hdst : dst.toNat % 4194304 = 0)
    (hsize : size.toNat ≤ 67108864) :
    copyPageTables src dst size s = copyDirs src ((size.toNat + 4194303) / 4194304)
      (wordAddr (src.toNat / 4194304)) (wordAddr (dst.toNat / 4194304)) s := by
  have hcount : ((size + 0x3fffff) >>> 22).toNat = (size.toNat + 4194303) / 4194304 := by
    have hmask : (0x3fffff : BitVec 32).toNat = 4194303 := rfl
    rw [BitVec.toNat_ushiftRight, BitVec.toNat_add, hmask, Nat.shiftRight_eq_div_pow,
      Nat.mod_eq_of_lt (by omega)]
  have hok : ¬ (src &&& 0x3fffff ≠ 0 ∨ dst &&& 0x3fffff ≠ 0) := by
    rintro (hne | hne)
    · exact aligned hsrc hne
    · exact aligned hdst hne
  rw [copyPageTables, if_neg hok, hcount, ← dir_walk, ← dir_walk]
  rfl

/-- The directory entry of the first 4 MB of task `t`. -/
theorem dir_wordAddr {lin : BitVec 32} {off : Nat} (hlin : lin.toNat = 67108864 * (t : Nat) + off)
    (hoff : off < 4194304) : (lin >>> 20) &&& 0xffc#32 = wordAddr (16 * t) := by
  rw [dir_walk, show lin.toNat / 4194304 = 16 * (t : Nat) by omega]

/-- For 640 KB of a task, one directory entry is copied. -/
theorem copyPageTables_one (hsrc : src.toNat = 67108864 * (t : Nat)) (hdst : dst.toNat = 67108864 * (c : Nat)) :
    copyPageTables src dst 0xa0000 s = copyDirs src 1 (wordAddr (16 * t)) (wordAddr (16 * c)) s := by
  have hcount : ((0xa0000 : BitVec 32).toNat + 4194303) / 4194304 = 1 := rfl
  rw [copyPageTables_dirs (by omega) (by omega) (by decide), hcount, hsrc, hdst]
  congr 2
  · omega
  · omega

/-- Only the first 640 KB of the kernel are copied. -/
def copiedPages (t : Fin 64) : Nat := if t = 0 then 160 else 1024

/-- The directory entry is copied, with the table behind it, to a new table in frame `g`. -/
theorem copyPageTables_copy (hsrc : src.toNat = 67108864 * (t : Nat)) (hdst : dst.toNat = 67108864 * (c : Nat))
    (hto : 1#32 &&& s.word (16 * c) = 0) (hfrom : 1#32 &&& s.word (16 * t) ≠ 0) (hg : 256 ≤ g) (hg' : g < 4096)
    (heq : getFreePage s = ((s.setMap ((g : Int) - 256) 1).fill g fun _ => 0, wordAddr (1024 * g))) :
    copyPageTables src dst 0xa0000 s =
      .ok (copyEntries (copiedPages t) (wordAddr (1024 * frameOf (s.word (16 * t)))) (wordAddr (1024 * g))
        (((s.setMap ((g : Int) - 256) 1).fill g fun _ => 0).setWord (16 * c) (entry g 7)), 0) := by
  have ht64 := t.isLt
  have hc64 := c.isLt
  have hsrc0 : src = 0 ↔ t = 0 := by
    rw [BitVec.toNat_inj.symm, hsrc, Fin.ext_iff]
    show 67108864 * (t : Nat) = 0 ↔ (t : Nat) = 0
    omega
  have hn : (if src = 0 then 0xA0 else 1024) = copiedPages t := if_congr hsrc0 rfl rfl
  rw [copyPageTables_one hsrc hdst, copyDirs_table 0 (by omega) (by omega) hto hfrom hg hg' heq, hn]
  rfl

/-- A directory entry that is there already. -/
theorem copyPageTables_exists (hsrc : src.toNat = 67108864 * (t : Nat))
    (hdst : dst.toNat = 67108864 * (c : Nat)) (hto : 1#32 &&& s.word (16 * c) ≠ 0) :
    copyPageTables src dst 0xa0000 s = .error (.panic "copy_page_tables: already exist") := by
  have hc64 := c.isLt
  rw [copyPageTables_one hsrc hdst, copyDirs, Memory.read_wordAddr (by omega), if_pos hto]

end CopyPageTables

end MockOs.Mm
