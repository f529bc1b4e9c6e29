import MockOs.Mm.Proofs.Frames

/-!
# Faults and `copy_page_tables` as copy-on-write steps

Each call of `mm/memory.c` on a represented memory is one step of `Misc/Cow.lean`, and the
words it changes are those of the tables and of the frames it takes.
-/

namespace MockOs.Mm

/-- The free frames. -/
def freeFrames (a : Spaces) : Finset Nat := (Finset.range 4096).filter fun f => 1024 ≤ f ∧ a.rc f = 0

theorem mem_freeFrames {a : Spaces} {f : Nat} : f ∈ freeFrames a ↔ f < 4096 ∧ 1024 ≤ f ∧ a.rc f = 0 := by
  rw [freeFrames, Finset.mem_filter, Finset.mem_range]

section Free

variable {a : Spaces} {t c : Fin 64} {f g p : Nat}

theorem freeFrames_alloc (v : Nat → BitVec 32) :
    freeFrames (Cow.alloc a g v) = (freeFrames a).erase g := by
  ext f
  rw [Finset.mem_erase, mem_freeFrames, mem_freeFrames]
  show _ ∧ _ ∧ Function.update a.rc g 1 f = 0 ↔ _
  by_cases hfg : f = g
  · subst hfg
    simp
  · simp [hfg]

theorem freeFrames_split (hno : ¬ (Counted f ∧ a.rc f = 1)) (hpos : Counted f → a.rc f ≠ 0) :
    freeFrames (Cow.split Counted a c p f g) = (freeFrames a).erase g := by
  ext k
  rw [Finset.mem_erase, mem_freeFrames, mem_freeFrames, Cow.split_rc]
  by_cases hkg : k = g
  · simp [hkg]
  · rw [if_neg hkg]
    by_cases hkf : Counted f ∧ k = f
    · rcases hkf with ⟨hcf, rfl⟩
      have h0 := hpos hcf
      have h1 : a.rc k ≠ 1 := fun h => hno ⟨hcf, h⟩
      rw [if_pos ⟨hcf, rfl⟩]
      constructor
      · rintro ⟨-, -, h⟩
        omega
      · rintro ⟨-, -, -, h⟩
        omega
    · rw [if_neg hkf]
      simp [hkg]

theorem freeFrames_shareRange {n i : Nat} (h : Cow.Inv Counted a) (hc : ∀ p, i ≤ p → a.pte c p = none) :
    freeFrames (Cow.shareRange Counted t c n i a) = freeFrames a := by
  ext k
  rw [mem_freeFrames, mem_freeFrames, h.shareRange_rc hc]

end Free

namespace Rep

variable {vis : Nat → Prop} {s : Memory} {tab : Fin 64 → Option Nat} {a : Spaces} {t c : Fin 64}
  {f g p : Nat}

theorem mem_freePages (h : Rep vis s tab a) {i : Nat} : i ∈ s.freePages ↔ i + 256 ∈ freeFrames a := by
  rw [Memory.freePages, Finset.mem_filter, Finset.mem_range, mem_freeFrames]
  constructor
  · rintro ⟨hi, hz⟩
    have hlt : i < 3840 := hi
    rw [h.map_eq_zero hlt] at hz
    exact ⟨by omega, by omega, hz.2⟩
  · rintro ⟨h1, h2, hz⟩
    have hlt : i < 3840 := by omega
    exact ⟨hlt, (h.map_eq_zero hlt).mpr ⟨by omega, hz⟩⟩

/-- `mem_map` has as many free pages as there are free frames. -/
theorem card_freePages (h : Rep vis s tab a) : s.freePages.card = (freeFrames a).card := by
  refine Finset.card_bij (fun i _ => i + 256) (fun i hi => h.mem_freePages.mp hi)
    (fun i _ j _ heq => by omega) fun f hf => ?_
  have hge : 1024 ≤ f := (mem_freeFrames.mp hf).2.1
  refine ⟨f - 256, h.mem_freePages.mpr ?_, by omega⟩
  rwa [show f - 256 + 256 = f by omega]

theorem map_eq_one (h : Rep vis s tab a) (hf : 1024 ≤ f) (hf' : f < 4096) :
    s.memMap ((f : Int) - 256) = 1 ↔ a.rc f = 1 := by
  have hle := h.rc_le (f := f) (by omega)
  rw [h.map f hf hf']
  refine ⟨fun h1 => ?_, fun h1 => by rw [h1]; rfl⟩
  have htoNat := congrArg BitVec.toNat h1
  rw [BitVec.toNat_ofNat, Nat.mod_eq_of_lt (by omega)] at htoNat
  exact htoNat

/-- The test of `un_wp_page` for a page that nobody else uses. -/
theorem sole_iff (h : Rep vis s tab a) (hf : a.pte c p = some f) :
    (wordAddr (1024 * f) ≥ lowMem ∧ s.memMap (mapNr (wordAddr (1024 * f))) = 1) ↔
      256 ≤ f ∧ a.rc f = 1 := by
  have hlt := h.frame_lt hf
  rw [wordAddr_frame, entry_ge_lowMem (by omega) (by decide)]
  refine and_congr_right fun hcf => ?_
  rw [mapNr_entry (by omega) hcf (by decide)]
  have hfr := h.frame c p f hf
  exact h.map_eq_one (by omega) hlt

/-! ## `un_wp_page` -/

theorem entry_word (h : Rep vis s tab a) (hc : tab c = some g) (hp : p < 1024)
    (hf : a.pte c p = some f) :
    s.read (wordAddr (1024 * g + p)) = entry f (if a.wr c p then 7 else 5) := by
  have hg := h.tab_high hc
  rw [Memory.read_wordAddr (by omega), h.table c g hc p hp, hf]
  rfl

theorem entry_frame (h : Rep vis s tab a) (hc : tab c = some g) (hp : p < 1024)
    (hf : a.pte c p = some f) : frameOf (s.word (1024 * g + p)) = f := by
  have hlt := h.frame_lt hf
  rw [h.table c g hc p hp, hf]
  exact frameOf_entry (by omega) (by split <;> decide)

theorem unWpPage_sole (h : Rep vis s tab a) (hc : tab c = some g) (hp : p < 1024)
    (hf : a.pte c p = some f) (hcf : 256 ≤ f) (h1 : a.rc f = 1) :
    unWpPage (wordAddr (1024 * g + p)) s = s.setWord (1024 * g + p) (entry f 7) := by
  have hg := h.tab_high hc
  have hlt := h.frame_lt hf
  have hfr := h.frame c p f hf
  have hword : s.word (1024 * g + p) ||| 2 = entry f 7 := by
    rw [h.table c g hc p hp, hf]
    show entry f (if a.wr c p = true then 7 else 5) ||| 2 = entry f 7
    rw [entry_or (m := 2) (by decide) (by omega) (by split <;> decide) (by decide)]
    cases a.wr c p <;> rfl
  rw [unWpPage_once (by omega) (h.entry_frame hc hp hf) hcf ((h.map_eq_one (by omega) hlt).mpr h1), hword]

theorem unWpPage_shared (h : Rep vis s tab a) (hc : tab c = some g) (hp : p < 1024)
    (hf : a.pte c p = some f) (hno : ¬ (256 ≤ f ∧ a.rc f = 1)) (hfree : s.freePages.Nonempty) :
    ∃ k, k ∈ freeFrames a ∧
      Rep vis (unWpPage (wordAddr (1024 * g + p)) s) tab (Cow.split Counted a c p f k) ∧
      (∀ x, x / 1024 ≠ g → x / 1024 ≠ k → (unWpPage (wordAddr (1024 * g + p)) s).word x = s.word x) ∧
      ∀ i < 1024, (unWpPage (wordAddr (1024 * g + p)) s).word (1024 * k + i) = s.word (1024 * f + i) := by
  have hg := h.tab_high hc
  have hlt := h.frame_lt hf
  have hfr := h.frame c p f hf
  have hno' : ¬ (256 ≤ f ∧ s.memMap ((f : Int) - 256) = 1) := fun hone =>
    hno ⟨hone.1, (h.map_eq_one (by omega) hlt).mp hone.2⟩
  rcases unWpPage_recopied (by omega) (h.entry_frame hc hp hf) hno' hfree with ⟨k, hcopied⟩
  rcases h.frame_free hcopied.low hcopied.high hcopied.free with ⟨hk, h0⟩
  have hk' := hcopied.high
  rcases h.free hk h0 with ⟨htabk, hptek⟩
  have hgk : g ≠ k := by
    rintro rfl
    exact htabk c hc
  have hfk : f ≠ k := by
    rintro rfl
    exact hptek c p hf
  generalize unWpPage (wordAddr (1024 * g + p)) s = s' at hcopied
  have hcopy : ∀ i < 1024, s'.word (1024 * k + i) = s.word (1024 * f + i) := fun i hi =>
    hcopied.copy hlt hfk i hi (by omega)
  refine ⟨k, mem_freeFrames.mpr ⟨hk', hk, h0⟩, h.split hc hp hf hk hk' h0 hcopied.entry hcopy hcopied.word ?_,
    ?_, hcopy⟩
  · intro j
    rw [hcopied.map j]
    by_cases hjk : j = k
    · rw [if_pos hjk, if_pos hjk, if_neg fun hin => hfk (hin.2.symm.trans hjk), BitVec.sub_zero]
    · rw [if_neg hjk, if_neg hjk]
      by_cases hjf : Counted f ∧ j = f
      · rw [if_pos hjf, if_pos hjf]
      · rw [if_neg hjf, if_neg hjf, BitVec.sub_zero]
  · exact fun x hxg hxk => hcopied.word x (by omega) hxk

/-! ## Linear addresses -/

section Linear

variable {lin : BitVec 32} {off : Nat}

theorem read_dir (h : Rep vis s tab a) (hc : tab c = some g) :
    s.read (wordAddr (16 * c)) = entry g 7 := by
  have hc64 := c.isLt
  have hc0 : c ≠ 0 := by
    rintro rfl
    rw [h.tabZero] at hc
    cases hc
  rw [Memory.read_wordAddr (by omega), h.dirTask c hc0, hc]
  rfl

/-- `lin2phy` finds the table entry behind a directory entry. -/
theorem lin2phy_dir (hread : s.read (wordAddr (16 * c)) = entry g 7) (hg : g < 4096)
    (hlin : lin.toNat = 67108864 * (c : Nat) + off) (hoff : off < 4194304) :
    lin2phy lin s = wordAddr (1024 * g + off / 4096) := by
  have hc64 := c.isLt
  rw [Memory.read_wordAddr (by omega)] at hread
  rw [lin2phy_walk, show lin.toNat / 4194304 = 16 * (c : Nat) by omega, hread,
    frameOf_entry (by omega) (by decide), show lin.toNat / 4096 % 1024 = off / 4096 by omega]

theorem lin2phy_eq (h : Rep vis s tab a) (hc : tab c = some g)
    (hlin : lin.toNat = 67108864 * (c : Nat) + off) (hoff : off < 4194304) :
    lin2phy lin s = wordAddr (1024 * g + off / 4096) :=
  lin2phy_dir (h.read_dir hc) (h.tab_high hc).2 hlin hoff

/-- A fault in a task unshares its page. -/
theorem doWpPage_eq (h : Rep vis s tab a) (hc : tab c = some g)
    (hlin : lin.toNat = 67108864 * (c : Nat) + off) (hoff : off < 4194304) :
    doWpPage lin s = unWpPage (wordAddr (1024 * g + off / 4096)) s := by
  rw [doWpPage_walk, ← lin2phy_walk, h.lin2phy_eq hc hlin hoff]

end Linear

/-! ## `copy_page_tables` -/

/-- The address spaces after `copy_page_tables`: from task 0 only the first 160 pages are
copied. -/
def forkSpaces (t c : Fin 64) (a : Spaces) : Spaces :=
  Cow.shareRange Counted t c (if t = 0 then 160 else 1024) 0 a

/-- The child maps what the parent maps. -/
theorem forkSpaces_pte (hct : c ≠ t) (hc : ∀ p, a.pte c p = none) (ht : ∀ p, 160 ≤ p → a.pte t p = none)
    (t' : Fin 64) (p : Nat) :
    (forkSpaces t c a).pte t' p = if t' = c then a.pte t p else a.pte t' p := by
  rw [forkSpaces, Cow.shareRange_pte hct fun p _ => hc p]
  by_cases htc : t' = c
  · have hn : 160 ≤ if t = 0 then 160 else 1024 := by split <;> omega
    generalize (if t = 0 then 160 else 1024) = n at hn
    rw [if_pos htc, htc]
    by_cases hp : p < n
    · rw [if_pos ⟨rfl, Nat.zero_le p, by omega⟩]
    · rw [if_neg (by omega), hc p, ht p (by omega)]
  · rw [if_neg htc, if_neg fun h => htc h.1]

theorem forkSpaces_own (t c : Fin 64) (a : Spaces) : (forkSpaces t c a).own = a.own :=
  Cow.shareRange_own _ _ a

theorem freeFrames_forkSpaces (h : Cow.Inv Counted a) (hc : ∀ p, a.pte c p = none) :
    freeFrames (forkSpaces t c a) = freeFrames a := freeFrames_shareRange h fun p _ => hc p

/-- The directory entry of a live task is present, and names the table that is copied. -/
theorem source_dir (h : Rep vis s tab a) (hlive : t = 0 ∨ tab t ≠ none) :
    ∃ gs, Source tab t gs (if t = 0 then 160 else 1024) ∧ s.read (wordAddr (16 * t)) = entry gs 7 := by
  by_cases ht : t = 0
  · refine ⟨1, ⟨fun _ => ⟨rfl, by rw [if_pos ht]⟩, fun hne => absurd ht hne⟩, ?_⟩
    rw [ht, Memory.read_wordAddr (by decide)]
    exact h.dirKernel 0 (by decide)
  · rcases Option.ne_none_iff_exists'.mp (hlive.resolve_left ht) with ⟨gs, hgs⟩
    exact ⟨gs, ⟨fun hz => absurd hz ht, fun _ => ⟨hgs, by rw [if_neg ht]⟩⟩, h.read_dir hgs⟩

theorem copyPageTables (h : Rep vis s tab a) {src dst : BitVec 32} (hct : c ≠ t) (hc : c ≠ 0)
    (hcnone : tab c = none) (hlive : t = 0 ∨ tab t ≠ none) (hsrc : src.toNat = 67108864 * (t : Nat))
    (hdst : dst.toNat = 67108864 * (c : Nat)) (hfree : s.freePages.Nonempty) (v : Nat → BitVec 32) :
    ∃ g s', g ∈ freeFrames a ∧ (getFreePage s).2 = wordAddr (1024 * g) ∧
      copyPageTables src dst 0xa0000 s = .ok (s', 0) ∧
      Rep vis s' (Function.update tab c (some g)) (forkSpaces t c (Cow.alloc a g v)) ∧
      ∀ x, 5120 ≤ x → (∀ t, tab t ≠ some (x / 1024)) → x / 1024 ≠ g → s'.word x = s.word x := by
  rcases h.getFreePage_eq hfree with ⟨g, hg, hg', h0, heq⟩
  have hmem : g ∈ freeFrames a := mem_freeFrames.mpr ⟨hg', hg, h0⟩
  rcases h.source_dir hlive with ⟨gs, hsource, hread⟩
  have hgs := hsource.frame_lt h
  rcases h.free hg h0 with ⟨htab, -⟩
  have ht64 := t.isLt
  rw [Memory.read_wordAddr (by omega)] at hread
  have hto : 1#32 &&& s.word (16 * c) = 0 := by
    rw [h.dirTask c hc, hcnone]
    rfl
  have hfrom : 1#32 &&& s.word (16 * t) ≠ 0 := by
    rw [hread]
    exact present_entry hgs (Or.inr rfl)
  have hcall := copyPageTables_copy hsrc hdst hto hfrom (by omega) hg' heq
  rw [hread, frameOf_entry (by omega) (by decide)] at hcall
  -- the new table is empty when it is entered in the directory
  have halloc : Rep vis ((s.setMap ((g : Int) - 256) 1).fill g fun _ => 0) tab (Cow.alloc a g v) :=
    (h.fill_free hg h0 fun _ => 0).alloc hg hg' h0 v
  have hown : (Cow.alloc a g v).own g = true := by simp only [Cow.alloc, Function.update_self]
  have hadd := halloc.addTable hc hcnone hown htab
    fun i hi => Memory.fill_word_self _ hi
  have hsource' : Source (Function.update tab c (some g)) t gs (if t = 0 then 160 else 1024) :=
    ⟨hsource.kernel, fun ht => by
      rw [Function.update_of_ne (Ne.symm hct)]
      exact hsource.task ht⟩
  have hloop := Rep.copyEntries hct (Function.update_self c (some g) tab) hsource' (if t = 0 then 160 else 1024) 0
    hadd (by omega) fun p _ => h.unmapped c hc hcnone p
  refine ⟨g, _, hmem, by rw [heq], hcall, hloop.1, fun x hx hxtab hxg => ?_⟩
  · have hxs : x / 1024 ≠ gs := by
      by_cases ht : t = 0
      · have := (hsource.kernel ht).1
        omega
      · exact fun hxs => hxtab t (hxs ▸ (hsource.task ht).1)
    have hc64 := c.isLt
    refine (hloop.2 x hxs hxg).trans ?_
    rw [Memory.setWord_word_ne (by omega), Memory.fill_word_ne _ hxg]
    rfl

end Rep

end MockOs.Mm
