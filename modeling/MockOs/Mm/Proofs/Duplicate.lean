import Mathlib.Algebra.Order.BigOperators.Group.Finset
import MockOs.Mm.Proofs.TableCopy

/-!
# Duplicating a mapping

`copy_page_tables` between any two ranges of the directory. The child gets tables of its own,
with the entries of the parent and no right to write; the parent loses that right too where
the frame is counted, and the frame is counted once for each entry that was copied.
-/

namespace MockOs.Mm

/-! ## A range of the directory -/

/-- How many copied entries of the `n` tables from directory entry `d` on name the frame of
index `j`. -/
def copies (s : Memory) (d n nr : Nat) (j : Int) : Nat :=
  ∑ k ∈ Finset.range n, if Present (s.word (d + k)) then tableCopies s (d + k) nr j else 0

/-- The tables of a range, by their place in it. -/
def presentDirs (s : Memory) (d n : Nat) : Finset Nat :=
  (Finset.range n).filter fun k => Present (s.word (d + k))

/-- What `n` directory entries from `d` on must be like to be copied to those from `e` on. -/
structure Copyable (s : Memory) (d e n nr : Nat) : Prop where
  fromEnd : d + n ≤ 1024
  toEnd : e + n ≤ 1024
  apart : d + n ≤ e ∨ e + n ≤ d
  absent : ∀ k < n, ¬ Present (s.word (e + k))
  table : ∀ k ∈ presentDirs s d n, dirFrame s (d + k) ≠ 0
  distinct : ∀ k ∈ presentDirs s d n, ∀ l ∈ presentDirs s d n,
    dirFrame s (d + k) = dirFrame s (d + l) → k = l
  tableUsed : ∀ k ∈ presentDirs s d n, 256 ≤ dirFrame s (d + k) →
    s.memMap ((dirFrame s (d + k) : Int) - 256) ≠ 0
  present : ∀ k ∈ presentDirs s d n, ∀ i < nr,
    tableEntry s (d + k) i ≠ 0 → Present (tableEntry s (d + k) i)
  pageUsed : ∀ k ∈ presentDirs s d n, ∀ i < nr, 256 ≤ frameOf (tableEntry s (d + k) i) →
    s.memMap ((frameOf (tableEntry s (d + k) i) : Int) - 256) ≠ 0
  counts : ∀ j, (s.memMap j).toNat + copies s d n nr j < 256
  free : (presentDirs s d n).card ≤ s.freePages.card

/-- `n` directory entries from `d` on, with `nr` entries of the tables behind them, have been
copied to those from `e` on. The new tables are in the frames `new`. -/
structure Duplicated (s s' : Memory) (d e n nr : Nat) (new : Nat → Nat) : Prop where
  /-- A new table has a frame that was free. -/
  fresh : ∀ k ∈ presentDirs s d n, 256 ≤ new k ∧ new k < 4096 ∧ s.memMap ((new k : Int) - 256) = 0
  inj : ∀ k ∈ presentDirs s d n, ∀ l ∈ presentDirs s d n, new k = new l → k = l
  dir : ∀ k ∈ presentDirs s d n, s'.word (e + k) = entry (new k) 7
  /-- The child has the entries of the parent, without the right to write. -/
  copy : ∀ k ∈ presentDirs s d n, ∀ i < 1024, s'.word (1024 * new k + i) =
    if i < nr then tableEntry s (d + k) i &&& ~~~2#32 else 0
  /-- The parent loses it for the frames that are counted. -/
  source : ∀ k ∈ presentDirs s d n, ∀ i < 1024, s'.word (1024 * dirFrame s (d + k) + i) =
    if i < nr then shared (tableEntry s (d + k) i) else tableEntry s (d + k) i
  /-- Nothing else is written; so where the parent has no table, the child has none. -/
  word : ∀ x, (∀ k ∈ presentDirs s d n,
    x ≠ e + k ∧ x / 1024 ≠ new k ∧ x / 1024 ≠ dirFrame s (d + k)) → s'.word x = s.word x
  mapNew : ∀ k ∈ presentDirs s d n, s'.memMap ((new k : Int) - 256) = 1
  /-- The other frames are counted once for each copied entry that names them. -/
  map : ∀ j, (∀ k ∈ presentDirs s d n, j ≠ (new k : Int) - 256) →
    (s'.memMap j).toNat = (s.memMap j).toNat + copies s d n nr j

section Dirs

variable {s s' : Memory} {src : BitVec 32} {d e n k nr g : Nat} {new : Nat → Nat}

theorem mem_presentDirs : k ∈ presentDirs s d n ↔ k < n ∧ Present (s.word (d + k)) := by
  rw [presentDirs, Finset.mem_filter, Finset.mem_range]

theorem presentDirs_mono {m : Nat} (h : m ≤ n) (hk : k ∈ presentDirs s d m) :
    k ∈ presentDirs s d n := by
  rw [mem_presentDirs] at hk ⊢
  exact ⟨by omega, hk.2⟩

theorem copies_succ (s : Memory) (d n nr : Nat) (j : Int) :
    copies s d (n + 1) nr j =
      copies s d n nr j + if Present (s.word (d + n)) then tableCopies s (d + n) nr j else 0 :=
  Finset.sum_range_succ _ n

theorem copies_mono {m : Nat} (h : m ≤ n) (nr : Nat) (j : Int) :
    copies s d m nr j ≤ copies s d n nr j :=
  Finset.sum_le_sum_of_subset (Finset.range_mono h)

/-- No copied entry names a free frame. -/
theorem Copyable.tableCopies_free (h : Copyable s d e n nr) (hk : k ∈ presentDirs s d n) {j : Int}
    (hj : s.memMap j = 0) : tableCopies s (d + k) nr j = 0 := by
  rw [tableCopies, namesCount, Finset.card_eq_zero, Finset.filter_eq_empty_iff]
  rintro i hi ⟨hlow, hframe⟩
  have hname : frameOf (tableEntry s (d + k) i) = (j + 256).toNat := by
    rw [← hframe]
    rfl
  refine h.pageUsed k hk i (Finset.mem_range.mp hi) (by omega) ?_
  rw [show (frameOf (tableEntry s (d + k) i) : Int) - 256 = j by omega]
  exact hj

theorem Copyable.copies_free (h : Copyable s d e n nr) {m : Nat} (hm : m ≤ n) {j : Int}
    (hj : s.memMap j = 0) : copies s d m nr j = 0 := by
  refine Finset.sum_eq_zero fun k hk => ?_
  have hlt := Finset.mem_range.mp hk
  split
  · rename_i hpresent
    exact h.tableCopies_free (mem_presentDirs.mpr ⟨by omega, hpresent⟩) hj
  · rfl

/-- Before the first round. -/
theorem Duplicated.start (s : Memory) (d e nr : Nat) (new : Nat → Nat) :
    Duplicated s s d e 0 nr new := by
  have hnone : ∀ k, k ∉ presentDirs s d 0 := fun k hk =>
    absurd (mem_presentDirs.mp hk).1 (Nat.not_lt_zero k)
  exact ⟨fun k hk => absurd hk (hnone k), fun k hk => absurd hk (hnone k),
    fun k hk => absurd hk (hnone k), fun k hk => absurd hk (hnone k),
    fun k hk => absurd hk (hnone k), fun _ _ => rfl, fun k hk => absurd hk (hnone k),
    fun _ _ => rfl⟩

namespace Duplicated

/-- A directory entry that has not been written yet. -/
theorem word_dir (h : Duplicated s s' d e k nr new) (hc : Copyable s d e n nr) (hk : k ≤ n) {x : Nat}
    (hx : x < 1024) (hout : ∀ l < k, x ≠ e + l) : s'.word x = s.word x := by
  refine h.word x fun l hl => ⟨hout l (mem_presentDirs.mp hl).1, ?_, ?_⟩
  · have hfresh := h.fresh l hl
    omega
  · have htable := hc.table l (presentDirs_mono hk hl)
    omega

/-- The new tables are not those of the parent. -/
theorem new_ne_table (h : Duplicated s s' d e k nr new) (hc : Copyable s d e n nr) {l m : Nat}
    (hl : l ∈ presentDirs s d k) (hm : m ∈ presentDirs s d n) : new l ≠ dirFrame s (d + m) := by
  intro heq
  obtain ⟨hlow, -, hfree⟩ := h.fresh l hl
  rw [heq] at hlow hfree
  exact hc.tableUsed m hm hlow hfree

/-- A table that has not been copied yet. -/
theorem word_table (h : Duplicated s s' d e k nr new) (hc : Copyable s d e n nr)
    (hk : k ∈ presentDirs s d n) {i : Nat} (hi : i < 1024) :
    s'.word (1024 * dirFrame s (d + k) + i) = tableEntry s (d + k) i := by
  have hkn := (mem_presentDirs.mp hk).1
  have htable := hc.table k hk
  refine h.word _ fun l hl => ⟨?_, ?_, ?_⟩
  · have hlk := (mem_presentDirs.mp hl).1
    have hend := hc.toEnd
    omega
  · have hne := h.new_ne_table hc hl hk
    omega
  · have hlk := (mem_presentDirs.mp hl).1
    have hne := mt (hc.distinct l (presentDirs_mono (by omega) hl) k hk) (by omega)
    omega

/-- A frame that is free was free before, and is not one of the new tables. -/
theorem free_before (h : Duplicated s s' d e k nr new) {j : Int} (hj : s'.memMap j = 0) :
    s.memMap j = 0 ∧ ∀ l ∈ presentDirs s d k, j ≠ (new l : Int) - 256 := by
  have hnew : ∀ l ∈ presentDirs s d k, j ≠ (new l : Int) - 256 := by
    rintro l hl rfl
    rw [h.mapNew l hl] at hj
    exact absurd hj (by decide)
  refine ⟨?_, hnew⟩
  have hcount := h.map j hnew
  rw [hj] at hcount
  have hzero : (0 : BitVec 8).toNat = 0 := rfl
  apply BitVec.eq_of_toNat_eq
  omega

/-- There is a free page for every table that is left. -/
theorem freePages_nonempty (h : Duplicated s s' d e k nr new) (hc : Copyable s d e n nr)
    (hk : k ∈ presentDirs s d n) : s'.freePages.Nonempty := by
  have hkn := (mem_presentDirs.mp hk).1
  rw [Finset.nonempty_iff_ne_empty]
  intro hempty
  -- a page that was free and is not now has gone to a new table
  have htaken : s.freePages ⊆ (presentDirs s d k).image fun l => new l - 256 := by
    intro i hi
    obtain ⟨hlt, hfree⟩ := mem_freePages.mp hi
    by_contra hnot
    have hnew : ∀ l ∈ presentDirs s d k, (i : Int) ≠ (new l : Int) - 256 := by
      intro l hl heq
      exact hnot (Finset.mem_image.mpr ⟨l, hl, by omega⟩)
    have hcount := h.map i hnew
    rw [hc.copies_free (by omega) hfree, hfree] at hcount
    have hstill : i ∈ s'.freePages := mem_freePages.mpr ⟨hlt, BitVec.eq_of_toNat_eq hcount⟩
    rw [hempty] at hstill
    exact absurd hstill (Finset.notMem_empty i)
  have hless : presentDirs s d k ⊂ presentDirs s d n := by
    refine Finset.ssubset_iff_subset_ne.mpr
      ⟨fun l hl => presentDirs_mono (by omega) hl, fun heq => ?_⟩
    rw [← heq] at hk
    exact absurd (mem_presentDirs.mp hk).1 (Nat.lt_irrefl k)
  have hcard := Finset.card_lt_card hless
  have hle := (Finset.card_le_card htaken).trans Finset.card_image_le
  have henough := hc.free
  omega

/-- A round for an entry that is absent. -/
theorem skip (h : Duplicated s s' d e k nr new) (habsent : ¬ Present (s.word (d + k))) :
    Duplicated s s' d e (k + 1) nr new := by
  have hset : presentDirs s d (k + 1) = presentDirs s d k := by
    ext l
    rw [mem_presentDirs, mem_presentDirs]
    constructor
    · rintro ⟨hl, hpresent⟩
      have hne : l ≠ k := by
        rintro rfl
        exact habsent hpresent
      exact ⟨by omega, hpresent⟩
    · rintro ⟨hl, hpresent⟩
      exact ⟨by omega, hpresent⟩
  have hcopies : ∀ j, copies s d (k + 1) nr j = copies s d k nr j := by
    intro j
    rw [copies_succ, if_neg habsent, Nat.add_zero]
  obtain ⟨hfresh, hinj, hdir, hcopy, hsource, hword, hmapNew, hmap⟩ := h
  rw [← hset] at hfresh hinj hdir hcopy hsource hword hmapNew hmap
  refine ⟨hfresh, hinj, hdir, hcopy, hsource, hword, hmapNew, fun j hj => ?_⟩
  rw [hcopies, hmap j hj]

/-- The tables of one round more. -/
theorem presentDirs_succ {P : Nat → Prop} (hold : ∀ l ∈ presentDirs s d k, P l) (hlast : P k) :
    ∀ l ∈ presentDirs s d (k + 1), P l := by
  intro l hl
  obtain ⟨hlt, hpresent⟩ := mem_presentDirs.mp hl
  by_cases hlk : l = k
  · rw [hlk]
    exact hlast
  · exact hold l (mem_presentDirs.mpr ⟨by omega, hpresent⟩)

/-- The round for entry `k` finds the table as it was before the call. -/
theorem before (h : Duplicated s s' d e k nr new) (hc : Copyable s d e n nr) (hnr : nr ≤ 1024)
    (hk : k ∈ presentDirs s d n) :
    s'.word (d + k) = s.word (d + k) ∧ dirFrame s' (d + k) = dirFrame s (d + k) ∧
    (∀ i < 1024, tableEntry s' (d + k) i = tableEntry s (d + k) i) ∧
    ∀ j, tableCopies s' (d + k) nr j = tableCopies s (d + k) nr j := by
  have hkn := (mem_presentDirs.mp hk).1
  have hapart := hc.apart
  have hfromEnd := hc.fromEnd
  have hdir : s'.word (d + k) = s.word (d + k) :=
    h.word_dir hc (by omega) (by omega) (by omega)
  have hdf : dirFrame s' (d + k) = dirFrame s (d + k) := by
    rw [dirFrame, dirFrame, hdir]
  refine ⟨hdir, hdf, fun i hi => ?_, fun j => ?_⟩
  · rw [tableEntry, hdf, h.word_table hc hk hi]
  · rw [tableCopies, hdf]
    exact namesCount_congr (fun i hi => h.word_table hc hk (by omega)) j

/-- What was done before is apart from the round for entry `k`. -/
theorem older (h : Duplicated s s' d e k nr new) (hc : Copyable s d e n nr)
    (hk : k ∈ presentDirs s d n) (hg : 256 ≤ g) (hfree : s'.memMap ((g : Int) - 256) = 0) {l : Nat}
    (hl : l ∈ presentDirs s d k) :
    l < k ∧ 256 ≤ new l ∧ new l ≠ g ∧ new l ≠ dirFrame s (d + k) ∧ dirFrame s (d + l) ≠ 0 ∧
      dirFrame s (d + l) ≠ g ∧ dirFrame s (d + l) ≠ dirFrame s (d + k) := by
  obtain ⟨hbefore, hnotNew⟩ := h.free_before hfree
  have hkn := (mem_presentDirs.mp hk).1
  have hlk := (mem_presentDirs.mp hl).1
  have hln := presentDirs_mono (by omega : k ≤ n) hl
  have hne := hnotNew l hl
  refine ⟨hlk, (h.fresh l hl).1, by omega, h.new_ne_table hc hl hk, hc.table l hln, ?_,
    mt (hc.distinct l hln k hk) (by omega)⟩
  rintro rfl
  exact hc.tableUsed l hln hg hbefore

/-- The counts after a round. The sum does not reach 256. -/
theorem next_map {s'' : Memory} (h : Duplicated s s' d e k nr new) (hc : Copyable s d e n nr)
    (hk : k ∈ presentDirs s d n) {j : Int} (hj : ∀ l ∈ presentDirs s d k, j ≠ (new l : Int) - 256)
    (hmap : s''.memMap j = s'.memMap j + BitVec.ofNat 8 (tableCopies s (d + k) nr j)) :
    (s''.memMap j).toNat = (s.memMap j).toNat + copies s d (k + 1) nr j := by
  obtain ⟨hkn, hpresent⟩ := mem_presentDirs.mp hk
  have hcounts := hc.counts j
  have hmono : copies s d (k + 1) nr j ≤ copies s d n nr j := copies_mono (by omega) nr j
  have hsum : copies s d (k + 1) nr j = copies s d k nr j + tableCopies s (d + k) nr j := by
    rw [copies_succ, if_pos hpresent]
  rw [hmap, BitVec.toNat_add, BitVec.toNat_ofNat, h.map j hj]
  omega

/-- A round for an entry that is present. -/
theorem next {s'' : Memory} (h : Duplicated s s' d e k nr new) (hc : Copyable s d e n nr)
    (hnr : nr ≤ 1024) (hk : k ∈ presentDirs s d n) (hg : 256 ≤ g) (hg' : g < 4096)
    (hfree : s'.memMap ((g : Int) - 256) = 0) (hcopied : DirCopied s' s'' (d + k) (e + k) nr g) :
    Duplicated s s'' d e (k + 1) nr (Function.update new k g) := by
  obtain ⟨hkn, hpresent⟩ := mem_presentDirs.mp hk
  obtain ⟨hbefore, -⟩ := h.free_before hfree
  obtain ⟨-, hdf, hentry, hcount⟩ := h.before hc hnr hk
  have hend := hc.toEnd
  have htable := hc.table k hk
  have hsource := hcopied.source
  have hkeep := hcopied.word
  rw [hdf] at hsource hkeep
  have hmap : ∀ j, j ≠ (g : Int) - 256 →
      s''.memMap j = s'.memMap j + BitVec.ofNat 8 (tableCopies s (d + k) nr j) := by
    intro j hj
    rw [hcopied.map, if_neg hj, hcount]
  have hlast : Function.update new k g k = g := Function.update_self _ _ _
  have hnew : ∀ l ∈ presentDirs s d k, Function.update new k g l = new l := by
    intro l hl
    have hlk := (mem_presentDirs.mp hl).1
    exact Function.update_of_ne (by omega) _ _
  have hold : ∀ l ∈ presentDirs s d k, _ := fun l hl => h.older hc hk hg hfree hl
  refine ⟨presentDirs_succ (fun l hl => ?_) ?_,
    presentDirs_succ (fun l hl => presentDirs_succ (fun m hm => ?_) ?_)
      (presentDirs_succ (fun l hl => ?_) fun _ => rfl),
    presentDirs_succ (fun l hl => ?_) ?_, presentDirs_succ (fun l hl i hi => ?_) fun i hi => ?_,
    presentDirs_succ (fun l hl i hi => ?_) fun i hi => ?_, fun x hx => ?_,
    presentDirs_succ (fun l hl => ?_) ?_, fun j hj => ?_⟩
  · rw [hnew l hl]
    exact h.fresh l hl
  · rw [hlast]
    exact ⟨hg, hg', hbefore⟩
  · rw [hnew l hl, hnew m hm]
    exact h.inj l hl m hm
  · rw [hnew l hl, hlast]
    exact fun heq => absurd heq (hold l hl).2.2.1
  · rw [hnew l hl, hlast]
    exact fun heq => absurd heq.symm (hold l hl).2.2.1
  · obtain ⟨hlk, -⟩ := hold l hl
    rw [hnew l hl, hkeep _ (by omega) (by omega) (by omega), h.dir l hl]
  · rw [hlast]
    exact hcopied.dir
  · obtain ⟨-, hlow, hng, hnt, -⟩ := hold l hl
    rw [hnew l hl, hkeep _ (by omega) (by omega) (by omega), h.copy l hl i hi]
  · rw [hlast, hcopied.copy i hi, hentry i hi]
  · obtain ⟨-, -, -, -, hpos, htg, htt⟩ := hold l hl
    rw [hkeep _ (by omega) (by omega) (by omega), h.source l hl i hi]
  · rw [hsource i hi, hentry i hi]
  · have hround := hx k (mem_presentDirs.mpr ⟨by omega, hpresent⟩)
    rw [hlast] at hround
    rw [hkeep x hround.1 hround.2.1 hround.2.2]
    refine h.word x fun l hl => ?_
    have hxl := hx l (presentDirs_mono (by omega) hl)
    rw [hnew l hl] at hxl
    exact hxl
  · have hng := (hold l hl).2.2.1
    rw [hnew l hl, hmap _ (by omega), h.mapNew l hl, hc.tableCopies_free hk (h.fresh l hl).2.2]
    rfl
  · rw [hlast, hcopied.map, if_pos rfl, hcount, hc.tableCopies_free hk hbefore]
    rfl
  · have hround := hj k (mem_presentDirs.mpr ⟨by omega, hpresent⟩)
    rw [hlast] at hround
    refine h.next_map hc hk (fun l hl => ?_) (hmap j hround)
    have hjl := hj l (presentDirs_mono (by omega) hl)
    rw [hnew l hl] at hjl
    exact hjl

end Duplicated

/-- The outer loop, from a round on. -/
theorem copyDirs_duplicates (hc : Copyable s d e n (entryCount src)) {m : Nat} (hm : k + m = n)
    (h : Duplicated s s' d e k (entryCount src) new) :
    ∃ s'' new', copyDirs src m (wordAddr (d + k)) (wordAddr (e + k)) s' = .ok (s'', 0) ∧
      Duplicated s s'' d e n (entryCount src) new' := by
  induction m generalizing k s' new with
  | zero =>
    obtain rfl : k = n := hm
    exact ⟨s', new, rfl, h⟩
  | succ m ih =>
    have hfromEnd := hc.fromEnd
    have htoEnd := hc.toEnd
    have hapart := hc.apart
    have hto : s'.word (e + k) = s.word (e + k) := h.word_dir hc (by omega) (by omega) (by omega)
    have hfrom : s'.word (d + k) = s.word (d + k) := h.word_dir hc (by omega) (by omega) (by omega)
    have habsent : ¬ Present (s'.word (e + k)) := by
      rw [hto]
      exact hc.absent k (by omega)
    by_cases hpresent : Present (s.word (d + k))
    · have hk : k ∈ presentDirs s d n := mem_presentDirs.mpr ⟨by omega, hpresent⟩
      obtain ⟨-, hdf, hentry, -⟩ := h.before hc (entryCount_le src) hk
      obtain ⟨g, hg, hg', hfree, heq⟩ := getFreePage_eq (h.freePages_nonempty hc hk)
      have hne : dirFrame s (d + k) ≠ g := by
        rintro rfl
        exact hc.tableUsed k hk hg (h.free_before hfree).1
      obtain ⟨s1, hround, hcopied⟩ := @copyDirs_present s' src _ _ _ m (by omega) (by omega) habsent
        (hfrom ▸ hpresent) (hdf ▸ hc.table k hk)
        (fun i hi => by
          rw [hentry i (by have := entryCount_le src; omega)]
          exact hc.present k hk i hi)
        hg hg' (hdf ▸ hne) heq
      rw [hround]
      exact ih (by omega) (h.next hc (entryCount_le src) hk hg hg' hfree hcopied)
    · have hto' : ¬ (1#32 &&& s'.word (e + k) ≠ 0) := habsent
      have hfrom' : 1#32 &&& s'.word (d + k) = 0 := by
        rw [hfrom]
        exact not_not.mp hpresent
      rw [copyDirs, Memory.read_wordAddr (by omega), if_neg hto', Memory.read_wordAddr (by omega),
        if_pos hfrom', wordAddr_add_four, wordAddr_add_four]
      exact ih (by omega) (h.skip hpresent)

end Dirs

/-! ## The call -/

/-- A well-formed paging state. -/
structure WellFormed (s : Memory) : Prop where
  /-- A present directory entry names a page table, and frame 0 is the directory. -/
  table : ∀ d < 1024, Present (s.word d) → dirFrame s d ≠ 0
  distinct : ∀ d < 1024, ∀ d' < 1024, Present (s.word d) → Present (s.word d') →
    dirFrame s d = dirFrame s d' → d = d'
  tableUsed : ∀ d < 1024, Present (s.word d) → 256 ≤ dirFrame s d →
    s.memMap ((dirFrame s d : Int) - 256) ≠ 0
  /-- An entry of a table is empty, or present and names a frame below 16 MB. -/
  page : ∀ d < 1024, Present (s.word d) → ∀ i < 1024, tableEntry s d i ≠ 0 →
    Present (tableEntry s d i) ∧ frameOf (tableEntry s d i) < 4096
  pageUsed : ∀ d < 1024, Present (s.word d) → ∀ i < 1024, 256 ≤ frameOf (tableEntry s d i) →
    s.memMap ((frameOf (tableEntry s d i) : Int) - 256) ≠ 0

/-- The number of directory entries for `size` bytes, rounded up. -/
def dirCount (size : BitVec 32) : Nat := (size.toNat + 4194303) / 4194304

section Call

variable {s : Memory} {src dst size : BitVec 32}

/-- What the call relies on in a well-formed state. -/
theorem WellFormed.copyable (h : WellFormed s) (hfromEnd : dirIndex src + dirCount size ≤ 1024)
    (htoEnd : dirIndex dst + dirCount size ≤ 1024)
    (hapart : dirIndex src + dirCount size ≤ dirIndex dst ∨ dirIndex dst + dirCount size ≤ dirIndex src)
    (habsent : ∀ k < dirCount size, ¬ Present (s.word (dirIndex dst + k)))
    (hcounts : ∀ j, (s.memMap j).toNat +
      copies s (dirIndex src) (dirCount size) (entryCount src) j < 256)
    (hfree : (presentDirs s (dirIndex src) (dirCount size)).card ≤ s.freePages.card) :
    Copyable s (dirIndex src) (dirIndex dst) (dirCount size) (entryCount src) := by
  have hN := entryCount_le src
  have hin : ∀ k ∈ presentDirs s (dirIndex src) (dirCount size), dirIndex src + k < 1024 ∧
      Present (s.word (dirIndex src + k)) := by
    intro k hk
    obtain ⟨hlt, hpresent⟩ := mem_presentDirs.mp hk
    exact ⟨by omega, hpresent⟩
  refine ⟨hfromEnd, htoEnd, hapart, habsent, fun k hk => ?_, fun k hk l hl heq => ?_, fun k hk => ?_,
    fun k hk i hi hne => ?_, fun k hk i hi => ?_, hcounts, hfree⟩
  · exact h.table _ (hin k hk).1 (hin k hk).2
  · have hsame := h.distinct _ (hin k hk).1 _ (hin l hl).1 (hin k hk).2 (hin l hl).2 heq
    omega
  · exact h.tableUsed _ (hin k hk).1 (hin k hk).2
  · exact (h.page _ (hin k hk).1 (hin k hk).2 i (by omega) hne).1
  · exact h.pageUsed _ (hin k hk).1 (hin k hk).2 i (by omega)

/-- Only `mem_map` itself is counted in. -/
theorem WellFormed.copies_outside (h : WellFormed s) (hfromEnd : dirIndex src + dirCount size ≤ 1024)
    {j : Int} (hj : ¬ (0 ≤ j ∧ j < pagingPages)) :
    copies s (dirIndex src) (dirCount size) (entryCount src) j = 0 := by
  have hN := entryCount_le src
  have hpages : (pagingPages : Int) = 3840 := rfl
  refine Finset.sum_eq_zero fun k hk => ?_
  have hlt := Finset.mem_range.mp hk
  split
  · rename_i hpresent
    rw [tableCopies, namesCount, Finset.card_eq_zero, Finset.filter_eq_empty_iff]
    rintro i hi ⟨hlow, hframe⟩
    have hi := Finset.mem_range.mp hi
    have hne : tableEntry s (dirIndex src + k) i ≠ 0 := by
      intro hzero
      change ((frameOf (tableEntry s (dirIndex src + k) i) : Nat) : Int) = j + 256 at hframe
      rw [hzero, frameOf_zero] at hframe
      omega
    have hbelow := (h.page _ (by omega) hpresent i (by omega) hne).2
    change ((frameOf (tableEntry s (dirIndex src + k) i) : Nat) : Int) = j + 256 at hframe
    omega
  · rfl

/-- `copy_page_tables` duplicates a mapping: with ranges of the directory that do not overlap,
an empty one to copy to, a free page for each table and no count at its end, it succeeds. -/
theorem copyPageTables_duplicates (hwf : WellFormed s) (hsrc : src.toNat % 4194304 = 0)
    (hdst : dst.toNat % 4194304 = 0) (hsize : size.toNat ≤ 67108864)
    (hfromEnd : dirIndex src + dirCount size ≤ 1024) (htoEnd : dirIndex dst + dirCount size ≤ 1024)
    (hapart : dirIndex src + dirCount size ≤ dirIndex dst ∨ dirIndex dst + dirCount size ≤ dirIndex src)
    (habsent : ∀ k < dirCount size, ¬ Present (s.word (dirIndex dst + k)))
    (hcounts : ∀ j, (s.memMap j).toNat +
      copies s (dirIndex src) (dirCount size) (entryCount src) j < 256)
    (hfree : (presentDirs s (dirIndex src) (dirCount size)).card ≤ s.freePages.card) :
    ∃ s' new, copyPageTables src dst size s = .ok (s', 0) ∧
      Duplicated s s' (dirIndex src) (dirIndex dst) (dirCount size) (entryCount src) new ∧
      (∀ k < dirCount size, ¬ Present (s.word (dirIndex src + k)) →
        ¬ Present (s'.word (dirIndex dst + k))) ∧
      ∀ j : Int, ¬ (0 ≤ j ∧ j < pagingPages) → s'.memMap j = s.memMap j := by
  have hc := hwf.copyable hfromEnd htoEnd hapart habsent hcounts hfree
  obtain ⟨s', new, hcall, hdup⟩ :=
    copyDirs_duplicates hc (Nat.zero_add _) (Duplicated.start s _ _ _ fun _ => 0)
  refine ⟨s', new, ?_, hdup, fun k hk hno => ?_, fun j hj => ?_⟩
  · rw [copyPageTables_dirs hsrc hdst hsize]
    exact hcall
  · have hkeep : s'.word (dirIndex dst + k) = s.word (dirIndex dst + k) := by
      refine hdup.word _ fun l hl => ⟨?_, ?_, ?_⟩
      · rintro heq
        obtain rfl : k = l := by omega
        exact hno (mem_presentDirs.mp hl).2
      · have hfresh := hdup.fresh l hl
        omega
      · have htable := hc.table l hl
        omega
    rw [hkeep]
    exact habsent k hk
  · have hnew : ∀ k ∈ presentDirs s (dirIndex src) (dirCount size), j ≠ (new k : Int) - 256 := by
      rintro k hk rfl
      have hfresh := hdup.fresh k hk
      have hpages : (pagingPages : Int) = 3840 := rfl
      omega
    apply BitVec.eq_of_toNat_eq
    rw [hdup.map j hnew, hwf.copies_outside hfromEnd hj, Nat.add_zero]

/-- A table in frame 256 for the start of the second 64 MB: a page of its own in frame 257, one
in frame 258 that another process has too, one in the low frame 3, and empty entries. -/
def mixedTable : Memory :=
  ⟨fun x => if x = 16 then entry 256 7 else if x = 262144 then entry 257 7
    else if x = 262145 then entry 258 5 else if x = 262146 then entry 3 7 else 0,
    fun j => if j = 2 then 2 else if j = 0 ∨ j = 1 then 1 else 0⟩

theorem mixedTable_dir : ∀ d < 1024, Present (mixedTable.word d) → d = 16 := by
  decide +kernel

theorem mixedTable_entry (i : Nat) : tableEntry mixedTable 16 i =
    if i = 0 then entry 257 7 else if i = 1 then entry 258 5 else if i = 2 then entry 3 7
      else 0 := by
  have htable : dirFrame mixedTable 16 = 256 := by decide
  rw [tableEntry, htable]
  change (if _ then _ else if _ then _ else if _ then _ else if _ then _ else _) = _
  rw [if_neg (by omega)]
  congr 1
  · rw [eq_iff_iff]
    omega
  · congr 1
    · rw [eq_iff_iff]
      omega
    · congr 1
      rw [eq_iff_iff]
      omega

theorem mixedTable_wellFormed : WellFormed mixedTable := by
  refine ⟨fun d hd hp => ?_, fun d hd d' hd' hp hp' _ => ?_, fun d hd hp _ => ?_,
    fun d hd hp i hi hne => ?_, fun d hd hp i hi hlow => ?_⟩
  · rw [mixedTable_dir d hd hp]
    decide
  · rw [mixedTable_dir d hd hp, mixedTable_dir d' hd' hp']
  · rw [mixedTable_dir d hd hp]
    decide
  · rw [mixedTable_dir d hd hp, mixedTable_entry] at hne ⊢
    split_ifs at hne ⊢ with h0 h1 h2
    · decide
    · decide
    · decide
    · exact absurd rfl hne
  · rw [mixedTable_dir d hd hp, mixedTable_entry] at hlow ⊢
    split_ifs at hlow ⊢ with h0 h1 h2
    · decide
    · decide
    · exact absurd hlow (by decide)
    · exact absurd hlow (by decide)

/-- The two pages from `LOW_MEM` on are named by one entry each. -/
theorem mixedTable_copies (j : Int) :
    copies mixedTable 16 1 1024 j = if j = 1 ∨ j = 2 then 1 else 0 := by
  have hnames : ∀ i ∈ Finset.range 1024,
      Names (tableEntry mixedTable 16 i) j ↔ i = 0 ∧ j = 1 ∨ i = 1 ∧ j = 2 := by
    intro i _
    have hown : frameOf (entry 257 7) = 257 := by decide
    have hshared : frameOf (entry 258 5) = 258 := by decide
    rw [mixedTable_entry]
    split_ifs with h0 h1 h2
    · rw [Names, hown]
      omega
    · rw [Names, hshared]
      omega
    · exact ⟨fun h => absurd h (not_names_of_low (by decide) j), by omega⟩
    · exact ⟨fun h => absurd h (not_names_of_low (by decide) j), by omega⟩
  have htable : tableCopies mixedTable 16 1024 j = if j = 1 ∨ j = 2 then 1 else 0 := by
    change ((Finset.range 1024).filter fun i => Names (tableEntry mixedTable 16 i) j).card = _
    rw [Finset.filter_congr hnames]
    by_cases h1 : j = 1
    · simp [h1, Finset.filter_eq']
    · by_cases h2 : j = 2
      · simp [h2, Finset.filter_eq']
      · simp [h1, h2]
  rw [copies, Finset.sum_range_one, if_pos (by decide)]
  exact htable

/-- The own page becomes read-only and is counted twice, the shared one three times; of the low
page only the copy loses the right to write, and it is not counted. -/
theorem copyPageTables_mixed : ∃ s' g,
    copyPageTables 0x4000000 0x8000000 0xa0000 mixedTable = .ok (s', 0) ∧
      s'.word 32 = entry g 7 ∧
      (s'.word (1024 * g + 0) = entry 257 5 ∧ s'.word 262144 = entry 257 5) ∧
      (s'.word (1024 * g + 1) = entry 258 5 ∧ s'.word 262145 = entry 258 5) ∧
      (s'.word (1024 * g + 2) = entry 3 5 ∧ s'.word 262146 = entry 3 7) ∧
      (s'.word (1024 * g + 3) = 0 ∧ s'.word 262147 = 0) ∧
      s'.memMap 1 = 2 ∧ s'.memMap 2 = 3 ∧ s'.memMap ((g : Int) - 256) = 1 := by
  have hsrc : dirIndex 0x4000000 = 16 := by decide
  have hdst : dirIndex 0x8000000 = 32 := by decide
  have hcount : dirCount 0xa0000 = 1 := by decide
  have hN : entryCount 0x4000000 = 1024 := by decide
  have hdirs : presentDirs mixedTable 16 1 = {0} := by decide
  have hfree : (presentDirs mixedTable 16 1).card ≤ mixedTable.freePages.card := by
    have hmem : 3 ∈ mixedTable.freePages := mem_freePages.mpr ⟨by decide, by decide⟩
    rw [hdirs, Finset.card_singleton]
    exact Finset.card_pos.mpr ⟨3, hmem⟩
  obtain ⟨s', new, hcall, hdup, -, -⟩ := @copyPageTables_duplicates mixedTable 0x4000000 0x8000000
    0xa0000 mixedTable_wellFormed (by decide) (by decide) (by decide) (by decide) (by decide)
    (by decide) (by decide)
    (fun j => by
      rw [hsrc, hcount, hN, mixedTable_copies]
      have hmap : (mixedTable.memMap j).toNat ≤ 2 := by
        change (if _ then 2 else if _ then 1 else 0 : BitVec 8).toNat ≤ 2
        split_ifs
        · decide
        · decide
        · decide
      split
      · omega
      · omega)
    (by
      rw [hsrc, hcount]
      exact hfree)
  rw [hsrc, hdst, hcount, hN] at hdup
  have hzero : 0 ∈ presentDirs mixedTable 16 1 := by decide
  have hnew : ∀ j : Int, mixedTable.memMap j ≠ 0 →
      ∀ k ∈ presentDirs mixedTable 16 1, j ≠ (new k : Int) - 256 := by
    intro j hj k hk heq
    have hfresh := (hdup.fresh k hk).2.2
    rw [← heq] at hfresh
    exact hj hfresh
  have hcopy := hdup.copy 0 hzero
  have hsource := hdup.source 0 hzero
  refine ⟨s', new 0, hcall, hdup.dir 0 hzero, ⟨?_, ?_⟩, ⟨?_, ?_⟩, ⟨?_, ?_⟩, ⟨?_, ?_⟩, ?_, ?_,
    hdup.mapNew 0 hzero⟩
  · exact (hcopy 0 (by decide)).trans (by decide)
  · exact (hsource 0 (by decide)).trans (by decide)
  · exact (hcopy 1 (by decide)).trans (by decide)
  · exact (hsource 1 (by decide)).trans (by decide)
  · exact (hcopy 2 (by decide)).trans (by decide)
  · exact (hsource 2 (by decide)).trans (by decide)
  · exact (hcopy 3 (by decide)).trans (by decide)
  · exact (hsource 3 (by decide)).trans (by decide)
  · apply BitVec.eq_of_toNat_eq
    rw [hdup.map 1 (hnew 1 (by decide)), mixedTable_copies]
    rfl
  · apply BitVec.eq_of_toNat_eq
    rw [hdup.map 2 (hnew 2 (by decide)), mixedTable_copies]
    rfl

end Call

end MockOs.Mm
