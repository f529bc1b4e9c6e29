import MockOs.Mm.Proofs.Frames

/-!
# Walking the page tables from any address

`page_fault` calls `do_wp_page` for every fault, and `do_wp_page` walks the page directory and
the page table without looking at the present bits. Where the directory has no entry, the walk
ends in the page directory itself.
-/

namespace MockOs.Mm

/-- The directory entry and the entry of the page table that belong to a linear address. -/
def dirIndex (a : BitVec 32) : Nat := a.toNat / 4194304
def tableIndex (a : BitVec 32) : Nat := a.toNat / 4096 % 1024

/-- The entry is present. -/
def Present (w : BitVec 32) : Prop := 1#32 &&& w ≠ 0

/-- The word of the entry that the page directory leads to. -/
def entryWord (a : BitVec 32) (s : Memory) : Nat := 1024 * frameOf (s.word (dirIndex a)) + tableIndex a

/-- The linear address has a translation. -/
def Translated (a : BitVec 32) (s : Memory) : Prop :=
  Present (s.word (dirIndex a)) ∧ Present (s.word (entryWord a s))

/-- A word of a page table that the page directory names. -/
def TableWord (s : Memory) (x : Nat) : Prop :=
  ∃ d < 1024, Present (s.word d) ∧ x / 1024 = frameOf (s.word d)

/-- No directory entry is changed, and no entry of a page table but the one that translates
`a`. -/
structure OnlyTranslation (a : BitVec 32) (s s' : Memory) : Prop where
  dir : ∀ d < 1024, s'.word d = s.word d
  table : ∀ x, TableWord s x → s'.word x ≠ s.word x → Translated a s ∧ x = entryWord a s

theorem not_present_zero : ¬ Present 0 := fun h => h rfl

theorem dirIndex_lt (a : BitVec 32) : dirIndex a < 1024 := by
  have hlt := a.isLt
  rw [dirIndex]
  omega

theorem tableIndex_lt (a : BitVec 32) : tableIndex a < 1024 := Nat.mod_lt _ (by decide)

theorem doWpPage_entryWord (a : BitVec 32) (s : Memory) : doWpPage a s = unWpPage (wordAddr (entryWord a s)) s :=
  doWpPage_walk a s

theorem entryWord_lt (a : BitVec 32) (s : Memory) : entryWord a s < 2 ^ 30 := by
  have hframe := frameOf_lt (s.word (dirIndex a))
  have hidx := tableIndex_lt a
  rw [entryWord]
  omega

theorem entry_or_two {f k : Nat} (hf : f < 4096) (hk : k = 5 ∨ k = 7) : entry f k ||| 2 = entry f 7 := by
  rw [entry_or (m := 2) (by decide) (by omega) (by omega) (by decide)]
  rcases hk with rfl | rfl <;> rfl

namespace Rep

variable {vis : Nat → Prop} {s : Memory} {tab : Fin 64 → Option Nat} {a : Spaces} {t : Fin 64} {g d : Nat}

/-- A frame that the system owns is counted once. -/
theorem own_map (h : Rep vis s tab a) (hown : a.own g = true) : s.memMap ((g : Int) - 256) = 1 := by
  have hhigh := h.ownHigh g hown
  have hcount := h.inv.count g (show Counted g by unfold Counted; omega)
  have hempty : Cow.users a g = ∅ := by
    refine Finset.eq_empty_of_forall_notMem fun t' hmem => ?_
    rcases Cow.mem_users.mp hmem with ⟨p, hp⟩
    exact (h.inv.owned g hown).2 t' p hp
  rw [hown, hempty] at hcount
  rw [h.map g hhigh.1 hhigh.2, hcount]
  rfl

theorem tab_map (h : Rep vis s tab a) (ht : tab t = some g) : s.memMap ((g : Int) - 256) = 1 :=
  h.own_map (h.tabOwn t g ht)

/-- What a directory entry is. -/
theorem dir_cases (h : Rep vis s tab a) (hd : d < 1024) :
    (d < 4 ∧ s.word d = entry (d + 1) 7) ∨ (∃ t g, t ≠ 0 ∧ tab t = some g ∧ d = 16 * (t : Nat) ∧ s.word d = entry g 7) ∨
      (4 ≤ d ∧ s.word d = 0) := by
  by_cases hlow : d < 4
  · exact Or.inl ⟨hlow, h.dirKernel d hlow⟩
  · right
    by_cases hmod : d % 16 = 0
    · have ht0 : (⟨d / 16, by omega⟩ : Fin 64) ≠ 0 := Fin.pos_iff_ne_zero.mp (show 0 < d / 16 by omega)
      have hd16 : 16 * ((⟨d / 16, by omega⟩ : Fin 64) : Nat) = d := by
        show 16 * (d / 16) = d
        omega
      have hword := h.dirTask ⟨d / 16, by omega⟩ ht0
      rw [hd16] at hword
      cases hg : tab ⟨d / 16, by omega⟩ with
      | none =>
        rw [hg] at hword
        exact Or.inr ⟨by omega, hword⟩
      | some g =>
        rw [hg] at hword
        exact Or.inl ⟨_, g, ht0, hg, hd16.symm, hword⟩
    · exact Or.inr ⟨by omega, h.dirRest d hd (by omega) hmod⟩

/-- A directory entry that is present names a page table: one of the kernel's, or that of a task,
whose frame is counted once. -/
theorem dir_frame (h : Rep vis s tab a) (hd : d < 1024) (hpres : Present (s.word d)) :
    (1 ≤ frameOf (s.word d) ∧ frameOf (s.word d) < 5) ∨
      (1024 ≤ frameOf (s.word d) ∧ s.memMap ((frameOf (s.word d) : Int) - 256) = 1) := by
  rcases h.dir_cases hd with ⟨hlow, hword⟩ | ⟨t, g, -, hg, -, hword⟩ | ⟨-, hword⟩
  · rw [hword, frameOf_entry (by omega) (by decide)]
    exact Or.inl ⟨by omega, by omega⟩
  · have hhigh := h.tab_high hg
    rw [hword, frameOf_entry (by omega) (by decide)]
    exact Or.inr ⟨hhigh.1, h.tab_map hg⟩
  · rw [hword] at hpres
    exact absurd hpres not_present_zero

/-- A directory entry that is not present is empty. -/
theorem dir_absent (h : Rep vis s tab a) (hd : d < 1024) (habs : ¬ Present (s.word d)) : s.word d = 0 := by
  rcases h.dir_cases hd with ⟨hlow, hword⟩ | ⟨t, g, -, hg, -, hword⟩ | ⟨-, hword⟩
  · rw [hword] at habs
    exact absurd (present_entry (by omega) (Or.inr rfl)) habs
  · have hhigh := h.tab_high hg
    rw [hword] at habs
    exact absurd (present_entry (by omega) (Or.inr rfl)) habs
  · exact hword

/-- An entry of a page table that is not present is empty. -/
theorem table_absent (h : Rep vis s tab a) (hd : d < 1024) (hpres : Present (s.word d)) {i : Nat} (hi : i < 1024)
    (habs : ¬ Present (s.word (1024 * frameOf (s.word d) + i))) : s.word (1024 * frameOf (s.word d) + i) = 0 := by
  rcases h.dir_cases hd with ⟨hlow, hword⟩ | ⟨t, g, -, hg, -, hword⟩ | ⟨-, hword⟩
  · rw [hword, frameOf_entry (by omega) (by decide)] at habs
    have hkernel := h.kernel (1024 * d + i) (by omega)
    rw [show 1024 * (d + 1) + i = 1024 + (1024 * d + i) by omega, hkernel] at habs
    exact absurd (present_entry (by omega) (Or.inr rfl)) habs
  · have hhigh := h.tab_high hg
    rw [hword, frameOf_entry (by omega) (by decide)] at habs ⊢
    rw [h.table t g hg i hi] at habs ⊢
    cases hf : a.pte t i with
    | none => rfl
    | some f =>
      rw [hf] at habs
      refine absurd (present_entry (h.frame_lt hf) ?_) habs
      split
      · exact Or.inr rfl
      · exact Or.inl rfl
  · rw [hword] at hpres
    exact absurd hpres not_present_zero

/-- The walk ends in the page directory, in a page table of the kernel or in that of a task. -/
theorem entryWord_cases (h : Rep vis s tab a) (addr : BitVec 32) :
    entryWord addr s < 5120 ∨ ∃ u, tab u = some (entryWord addr s / 1024) := by
  have hidx := tableIndex_lt addr
  rw [entryWord]
  rcases h.dir_cases (dirIndex_lt addr) with ⟨hlow, hword⟩ | ⟨t, g, -, hg, -, hword⟩ | ⟨-, hword⟩
  · rw [hword, frameOf_entry (by omega) (by decide)]
    left
    omega
  · have hhigh := h.tab_high hg
    rw [hword, frameOf_entry (by omega) (by decide)]
    exact Or.inr ⟨t, by rw [show (1024 * g + tableIndex addr) / 1024 = g by omega]; exact hg⟩
  · rw [hword, frameOf_zero]
    left
    omega

/-- A page that `get_free_page` returns is no page table. -/
theorem tableWord_ne (h : Rep vis s tab a) {x k : Nat} (hx : TableWord s x)
    (hk : k = 255 ∨ 256 ≤ k ∧ k < 4096 ∧ s.memMap ((k : Int) - 256) = 0) : x / 1024 ≠ k ∧ 1 ≤ x / 1024 := by
  rcases hx with ⟨d, hd, hpres, hx⟩
  rw [hx]
  rcases h.dir_frame hd hpres with ⟨h1, h5⟩ | ⟨hhigh, hone⟩
  · exact ⟨by omega, h1⟩
  · refine ⟨?_, by omega⟩
    rintro rfl
    rcases hk with h255 | ⟨-, -, h0⟩
    · omega
    · rw [hone] at h0
      exact absurd h0 (by decide)

/-- The entry that `do_wp_page` finds, when nobody else is counted for its page. -/
theorem doWpPage_sole (a : BitVec 32) {f : Nat} (hf : frameOf (s.word (entryWord a s)) = f) (hlow : 256 ≤ f)
    (hone : s.memMap ((f : Int) - 256) = 1) :
    doWpPage a s = s.setWord (entryWord a s) (s.word (entryWord a s) ||| 2) := by
  rw [doWpPage_entryWord, unWpPage_once (entryWord_lt a s) hf hlow hone]

/-- A fault at an address that has a translation. -/
theorem doWpPage_translated (h : Rep vis s tab a) (addr : BitVec 32) (htrans : Translated addr s) :
    OnlyTranslation addr s (doWpPage addr s) := by
  have hhigh : 1024 ≤ entryWord addr s := by
    rw [entryWord]
    rcases h.dir_frame (dirIndex_lt addr) htrans.1 with h1 | h1 <;> omega
  obtain ⟨f, hf⟩ : ∃ f, frameOf (s.word (entryWord addr s)) = f := ⟨_, rfl⟩
  by_cases hsole : 256 ≤ f ∧ s.memMap ((f : Int) - 256) = 1
  · rw [doWpPage_sole addr hf hsole.1 hsole.2]
    refine ⟨fun d hd => Memory.setWord_word_ne (by omega), fun x _ hne => ⟨htrans, ?_⟩⟩
    by_contra hx
    exact hne (Memory.setWord_word_ne hx)
  · rw [doWpPage_entryWord]
    rcases unWpPage_frame (entryWord_lt addr s) hf hsole with ⟨k, hk, -, hword⟩
    refine ⟨fun d hd => hword d (by omega) (by omega), fun x hx hne => ⟨htrans, ?_⟩⟩
    by_contra hxe
    exact hne (hword x hxe (h.tableWord_ne hx hk).1)

/-- A fault at an address whose directory entry is empty: the walk ends at the directory entry
of a task, which stays as it is. -/
theorem doWpPage_directory (h : Rep vis s tab a) (addr : BitVec 32) (habs : ¬ Present (s.word (dirIndex addr)))
    (ht : t ≠ 0) (hg : tab t = some g) (hidx : tableIndex addr = 16 * (t : Nat)) : doWpPage addr s = s := by
  have hhigh := h.tab_high hg
  have hzero := h.dir_absent (dirIndex_lt addr) habs
  have hentry : entryWord addr s = 16 * (t : Nat) := by rw [entryWord, hzero, frameOf_zero, hidx, Nat.mul_zero, Nat.zero_add]
  have hword : s.word (entryWord addr s) = entry g 7 := by
    rw [hentry, h.dirTask t ht, hg]
    rfl
  rw [doWpPage_sole addr (f := g) (by rw [hword, frameOf_entry (by omega) (by decide)]) (by omega) (h.tab_map hg), hword,
    entry_or_two hhigh.2 (Or.inr rfl), ← hword]
  exact Memory.ext (Function.update_eq_self _ _) rfl

/-- Any other walk writes an entry that is not there, or a directory entry. -/
theorem doWpPage_other (h : Rep vis s tab a) (addr : BitVec 32) (hno : ¬ Translated addr s)
    (hdir : ¬ Present (s.word (dirIndex addr)) → ∀ t g, t ≠ 0 → tab t = some g → tableIndex addr ≠ 16 * (t : Nat)) :
    ¬ OnlyTranslation addr s (doWpPage addr s) := by
  intro honly
  have hidx := tableIndex_lt addr
  by_cases hpres : Present (s.word (dirIndex addr))
  · -- an empty entry of a page table is filled in
    have hzero : s.word (entryWord addr s) = 0 :=
      h.table_absent (dirIndex_lt addr) hpres hidx fun hp => hno ⟨hpres, hp⟩
    have hf : frameOf (s.word (entryWord addr s)) = 0 := by rw [hzero, frameOf_zero]
    rcases unWpPage_frame (entryWord_lt addr s) hf (by omega) with ⟨k, hk, hentry, -⟩
    have htable : TableWord s (entryWord addr s) := ⟨dirIndex addr, dirIndex_lt addr, hpres, by rw [entryWord]; omega⟩
    refine hno (honly.table _ htable ?_).1
    rw [doWpPage_entryWord, hentry, hzero]
    exact entry_ne_zero (by omega) (by decide) (by decide)
  · have hzero := h.dir_absent (dirIndex_lt addr) hpres
    have hew : entryWord addr s = tableIndex addr := by
      rw [entryWord, hzero, frameOf_zero, Nat.mul_zero, Nat.zero_add]
    have hsame := honly.dir _ hidx
    rw [doWpPage_entryWord, hew] at hsame
    rcases h.dir_cases hidx with ⟨hlow, hword⟩ | ⟨t', g', ht', hg', heq, -⟩ | ⟨-, hword⟩
    · have hf : frameOf (s.word (tableIndex addr)) = tableIndex addr + 1 := by
        rw [hword, frameOf_entry (by omega) (by decide)]
      rcases unWpPage_frame (by omega) hf (by omega) with ⟨k, hk, hentry, -⟩
      have hframe := congrArg frameOf (hentry.symm.trans hsame)
      rw [hf, frameOf_entry (by omega) (by decide)] at hframe
      omega
    · exact hdir hpres t' g' ht' hg' heq
    · have hf : frameOf (s.word (tableIndex addr)) = 0 := by rw [hword, frameOf_zero]
      rcases unWpPage_frame (by omega) hf (by omega) with ⟨k, hk, hentry, -⟩
      rw [hentry, hword] at hsame
      exact absurd hsame (entry_ne_zero (by omega) (by decide) (by decide))

/-- The first page of task 0. -/
theorem translated_zero (h : Rep vis s tab a) : Translated 0 s := by
  refine ⟨?_, ?_⟩
  · rw [show dirIndex 0 = 0 from rfl, h.dirKernel 0 (by decide)]
    exact present_entry (by decide) (Or.inr rfl)
  · rw [entryWord, show dirIndex 0 = 0 from rfl, h.dirKernel 0 (by decide), frameOf_entry (by decide) (by decide),
      show tableIndex 0 = 0 from rfl, h.kernel 0 (by decide)]
    exact present_entry (by decide) (Or.inr rfl)

/-- At 16 MB nothing is mapped, and the walk ends at the first directory entry. -/
theorem doWpPage_unmapped (h : Rep vis s tab a) :
    ¬ Translated 0x1000000 s ∧ (doWpPage 0x1000000 s).word 0 ≠ s.word 0 := by
  have hzero : s.word (dirIndex 0x1000000) = 0 := h.dirRest 4 (by decide) (by decide) (by decide)
  have hew : entryWord 0x1000000 s = 0 := by
    rw [entryWord, hzero, frameOf_zero]
    rfl
  have hf : frameOf (s.word 0) = 1 := by rw [h.dirKernel 0 (by decide), frameOf_entry (by decide) (by decide)]
  refine ⟨fun htrans => ?_, fun hsame => ?_⟩
  · have hpres := htrans.1
    rw [hzero] at hpres
    exact not_present_zero hpres
  · rcases unWpPage_frame (e := 0) (by decide) hf (by omega) with ⟨k, hk, hentry, -⟩
    rw [doWpPage_entryWord, hew] at hsame
    have hframe := congrArg frameOf (hentry.symm.trans hsame)
    rw [hf, frameOf_entry (by omega) (by decide)] at hframe
    omega

end Rep

end MockOs.Mm
