import MockOs.Kernel.Proofs.Fault

/-!
# The page of the stack that `copy_process` copies

The user chooses `esp`, and `copy_process` walks the page tables from the address that it
computes from it (`fork.c:103-106`), without looking whether that is in the child. Which
entries the walk can change is settled here for every `esp`.
-/

namespace MockOs.Kernel

open Mm

/-- The frames that the next calls of `get_free_page` return. -/
def nextPages : Nat → Memory → List Nat
  | 0, _ => []
  | n + 1, m => frameOf (getFreePage m).2 :: nextPages n (getFreePage m).1

/-- A word of a page table of task `u`, whose directory entries are 16 in a row. -/
def TaskTable (m : Memory) (u x : Nat) : Prop :=
  ∃ d < 1024, d / 16 = u ∧ Present (m.word d) ∧ x / 1024 = frameOf (m.word d)

/-- A fork of task `t` into slot `c` stays inside: of the directory only the entries of the
child change, of the page tables of the other tasks nothing, and in those of the parent only
write bits are cleared. -/
structure ForkInside (m m' : Memory) (t c : Nat) : Prop where
  dir : ∀ d < 1024, d / 16 ≠ c → m'.word d = m.word d
  others : ∀ u < nrTasks, u ≠ t → u ≠ c → ∀ x, TaskTable m u x → m'.word x = m.word x
  parent : ∀ x, TaskTable m t x → m'.word x = m.word x ∨ m'.word x = m.word x &&& ~~~2#32

/-- The kernel's own entry for frame `f` is left alone: there is one user, who is not the
parent, or the frame is one of those that the fork itself takes. -/
def KernelEntryKept (m : Memory) (t f : Nat) : Prop :=
  f ∈ nextPages 3 m ∨ (256 ≤ f ∧ m.memMap ((f : Int) - 256) = 1 ∧
    ∀ p < 1024, frameOf (m.word (1024 * frameOf (m.word (16 * t)) + p)) ≠ f)

/-- Where the walk from the linear address `a` has to end: in the page table of the child, at a
directory entry of the child or one that names the table of a task, at an entry of the kernel
that is left alone, or at a page of another task that this task may write. -/
inductive StackWalk (s : ForkSys) (t c : Nat) (a : BitVec 32) : Prop
  | child : dirIndex a = 16 * c → StackWalk s t c a
  | directory : dirIndex a ≠ 16 * c → ¬ Present (s.mm.word (dirIndex a)) →
      (tableIndex a / 16 = c ∨ ∃ u, 1 ≤ u ∧ s.Live u ∧ tableIndex a = 16 * u) → StackWalk s t c a
  | kernel : dirIndex a < 4 → KernelEntryKept s.mm t (1024 * dirIndex a + tableIndex a) → StackWalk s t c a
  | other (u : Nat) : 1 ≤ u → s.Live u → u ≠ t → dirIndex a = 16 * u →
      2#32 &&& s.mm.word (entryWord a s.mm) ≠ 0 → StackWalk s t c a

/-! ## The frames that are taken -/

theorem nextPages_three {m m1 m3 m4 : Memory} {k g l : Nat} (hg : 256 ≤ g) (hg' : g < 4096) (hk' : k < 4096) (hl' : l < 4096)
    (hk : getFreePage m = (m1, wordAddr (1024 * k))) (h1 : m1.freePages.Nonempty) (h3 : m3.freePages = m1.freePages)
    (hg3 : (getFreePage m3).2 = wordAddr (1024 * g)) (h4 : m4.freePages = m1.freePages.erase (g - 256))
    (hl4 : (getFreePage m4).2 = wordAddr (1024 * l)) : nextPages 3 m = [k, g, l] := by
  have hframe : ∀ f, f < 4096 → frameOf (wordAddr (1024 * f)) = f := by
    intro f hf
    rw [wordAddr_frame, frameOf_entry (by omega) (by decide)]
  have hpage1 : (getFreePage m1).2 = wordAddr (1024 * g) := (getFreePage_congr h3).symm.trans hg3
  rcases getFreePage_eq h1 with ⟨g', hlow, hhigh, -, heq⟩
  have hgg : g' = g := by
    rw [heq] at hpage1
    have hf := congrArg frameOf hpage1
    rwa [hframe g' hhigh, hframe g hg'] at hf
  rw [hgg] at heq
  have hpage2 : (getFreePage (getFreePage m1).1).2 = wordAddr (1024 * l) := by
    rw [← hl4]
    refine (getFreePage_congr ?_).symm
    rw [h4, heq, freePages_take _ hg]
  rw [nextPages, nextPages, nextPages, nextPages, hk, hframe k hk', hpage1, hframe g hg', hpage2, hframe l hl']

/-! ## `copy_process` with any stack pointer -/

/-- The address spaces when the page tables have been copied, with the frames `k` and `g`
taken. -/
def copiedSpaces (t c : Fin 64) (k g : Nat) (a : Spaces) : Spaces :=
  Rep.forkSpaces t c (Cow.alloc (Cow.alloc a k fun _ => 0) g fun _ => 0)

section Walk

variable {vis : Nat → Prop} {w0 : Nat} {s : ForkSys} {loc tab : Fin 64 → Option Nat} {a : Spaces}
  {t c : Fin 64} {y k g l : Nat}

/-- What `un_wp_page` can change is not in a structure. -/
theorem unWpPage_apart {m : Memory} {e : Nat} {i : Int} (he : e < 2 ^ 30) (hl : l < 4096)
    (hpage : getFreePage m = ((m.setMap i 1).fill l fun _ => 0, wordAddr (1024 * l))) {z : Nat} (hze : z ≠ e)
    (hzl : z / 1024 ≠ l) : (unWpPage (wordAddr e) m).word z = m.word z := by
  by_cases hsole : 256 ≤ frameOf (m.word e) ∧ m.memMap ((frameOf (m.word e) : Int) - 256) = 1
  · rw [unWpPage_once he rfl hsole.1 hsole.2, Memory.setWord_word_ne hze]
  · exact (unWpPage_new he rfl hsole hl hpage).2 z hze hzl

/-- No word of the kernel's tables or of a page table is hidden. -/
theorem hidden_not_table {z : Nat} (hhid : Rep.Hidden vis tab a z) (hzg : z / 1024 ≠ g) :
    ¬ (z < 5120 ∨ ∃ u, Function.update tab c (some g) u = some (z / 1024)) := by
  rintro (hlow | ⟨u, hu⟩)
  · have hhigh := hhid.1
    omega
  · by_cases huc : u = c
    · rw [huc, Function.update_self] at hu
      exact hzg (Option.some.inj hu).symm
    · rw [Function.update_of_ne huc] at hu
      exact hhid.2.1 u hu

/-- What `copy_process` leaves in the directory and the page tables. -/
theorem ForkRep.copyProcess_walk (h : ForkRep vis w0 s loc tab a) (ht : loc t = some y)
    (hcur : s.current = wordAddr y) (hc : c ≠ 0) (hcn : loc c = none) (r : Regs) (hfree : 3 ≤ s.mm.freePages.card) :
    ∃ (k g l : Nat) (m4 : Memory) (i : Int) (s' : ForkSys), k ∈ freeFrames a ∧ g ∈ (freeFrames a).erase k ∧
      l ∈ ((freeFrames a).erase k).erase g ∧ nextPages 3 s.mm = [k, g, l] ∧
      Rep vis m4 (Function.update tab c (some g)) (copiedSpaces t c k g a) ∧
      getFreePage m4 = ((m4.setMap i 1).fill l fun _ => 0, wordAddr (1024 * l)) ∧
      s.copyProcess c r = .ok (s', s.lastPid) ∧ (∃ old, Forked s s' loc c y k old) ∧
      s'.mm.memMap = (unWpPage (wordAddr (entryWord (ForkSys.stackAddress r.esp (taskBase c)) m4)) m4).memMap ∧
      ∀ z, (z < 5120 ∨ ∃ u, Function.update tab c (some g) u = some (z / 1024)) →
        s'.mm.word z = (unWpPage (wordAddr (entryWord (ForkSys.stackAddress r.esp (taskBase c)) m4)) m4).word z := by
  rcases h.rep.getFreePage_eq (Finset.card_pos.mp (by omega)) with ⟨k, hk1, hk', hk0, heq⟩
  have hk : k ∈ freeFrames a := mem_freeFrames.mpr ⟨hk', hk1, hk0⟩
  have hfresh := h.freshPage hk
  have hprep := h.structs.prepared ht hcur c r hfresh
  rcases h.copyTables ht hc hcn (by omega) (fun _ => 0) hk hprep with
    ⟨g, m4, hg, hkg, hpageg, hcopy, hrep4, hword4⟩
  have hgk : g ∈ (freeFrames a).erase k := Finset.mem_erase.mpr ⟨Ne.symm hkg, hg⟩
  have hcard := h.rep.card_freePages
  have hfree4 : m4.freePages.Nonempty := by
    apply Finset.card_pos.mp
    rw [hrep4.card_freePages, h.copied_free hc hcn _ hk hg hkg, Finset.card_erase_of_mem hgk,
      Finset.card_erase_of_mem hk]
    omega
  rcases hrep4.getFreePage_eq hfree4 with ⟨l, hl1, hl', hl0, heq4⟩
  have hl : l ∈ ((freeFrames a).erase k).erase g := by
    rw [← h.copied_free hc hcn (fun _ => 0) hk hg hkg]
    exact mem_freeFrames.mpr ⟨hl', hl1, hl0⟩
  rcases Finset.mem_erase.mp hl with ⟨hlg, hl2⟩
  rcases Finset.mem_erase.mp hl2 with ⟨hlk, hla⟩
  have hghigh := mem_freeFrames.mp hg
  -- the pages that are free when the third one is taken
  have hmem1 : ∀ i, i ∈ ((s.mm.setMap ((k : Int) - 256) 1).fill k fun _ => 0).freePages ↔
      i + 256 ∈ (freeFrames a).erase k := by
    intro i
    rw [freePages_take _ (by omega), Finset.mem_erase, Finset.mem_erase, h.rep.mem_freePages]
    refine and_congr_left fun _ => ⟨fun hne heq => hne (by omega), fun hne heq => hne (by omega)⟩
  have hthree : nextPages 3 s.mm = [k, g, l] := by
    refine nextPages_three (by omega) hghigh.1 hk' hl' heq ?_ (Memory.freePages_congr hprep.map) hpageg ?_
      (by rw [heq4])
    · exact ⟨g - 256, (hmem1 _).mpr (by rw [show g - 256 + 256 = g by omega]; exact hgk)⟩
    · ext i
      rw [hrep4.mem_freePages, h.copied_free hc hcn _ hk hg hkg, Finset.mem_erase, Finset.mem_erase (a := i), hmem1]
      exact and_congr_left fun _ => ⟨fun hne heq => hne (by omega), fun hne heq => hne (by omega)⟩
  have hhidden : ∀ z, InStruct loc z ∨ z / 1024 = k → Rep.Hidden vis tab a z ∧ z / 1024 ≠ g ∧ z / 1024 ≠ l :=
    fun _ => h.struct_hidden hk hg hla hkg (Ne.symm hlk)
  have hkeep4 : ∀ z, InStruct loc z ∨ z / 1024 = k → m4.word z = _ := fun z hz =>
    hword4 z (hhidden z hz).1.1 (hhidden z hz).1.2.1 (hhidden z hz).2.1
  have hlin : lin2phy (ForkSys.stackAddress r.esp (taskBase c)) m4 =
      wordAddr (entryWord (ForkSys.stackAddress r.esp (taskBase c)) m4) := lin2phy_walk _ _
  have hkeep5 : ∀ z, InStruct loc z ∨ z / 1024 = k →
      (unWpPage (lin2phy (ForkSys.stackAddress r.esp (taskBase c)) m4) m4).word z =
        (s.prepared c r k ((s.mm.setMap ((k : Int) - 256) 1).fill k fun _ => 0)).mm.word z := by
    intro z hz
    rcases hhidden z hz with ⟨hin, hzg, hzl⟩
    rw [hlin, unWpPage_apart (entryWord_lt _ _) hl' heq4 ?_ hzl, hkeep4 z hz]
    rintro rfl
    exact hidden_not_table hin hzg (hrep4.entryWord_cases _)
  rcases h.structs.copyProcess_forked ht hcur hfresh heq hcopy rfl hkeep4 hkeep5 with
    ⟨old, s', hcall, hforked, -, hmap, hword, -⟩
  refine ⟨k, g, l, m4, _, s', hk, hgk, hl, hthree, hrep4, heq4, hcall, ⟨old, hforked⟩, by rw [hmap, hlin],
    fun z hz => ?_⟩
  rw [← hlin]
  have hno : ¬ (InStruct loc z ∨ z / 1024 = k) := by
    intro hin
    rcases hhidden z hin with ⟨hhid, hzg, -⟩
    exact hidden_not_table hhid hzg hz
  exact hword z (fun hin => hno (Or.inl hin)) fun hzk => hno (Or.inr hzk)

end Walk

/-! ## What the copy of the tables changes -/

section Copied

variable {vis : Nat → Prop} {w0 : Nat} {s : ForkSys} {loc tab : Fin 64 → Option Nat} {a : Spaces}
  {t c u : Fin 64} {y k g l x : Nat} {m m4 : Memory}

theorem copiedSpaces_own : (copiedSpaces t c k g a).own = Function.update (Function.update a.own k true) g true := by
  rw [copiedSpaces, Rep.forkSpaces_own]
  rfl

theorem copiedSpaces_wr (u : Fin 64) (p : Nat) : (copiedSpaces t c k g a).wr u p = a.wr u p ∨
    (u = t ∧ (copiedSpaces t c k g a).wr u p = false) := Cow.shareRange_wr u p

/-- The words of the page tables of a task. -/
theorem taskTable_iff (h : Rep vis m tab a) :
    TaskTable m u x ↔ (u = 0 ∧ 1024 ≤ x ∧ x < 5120) ∨ (u ≠ 0 ∧ tab u = some (x / 1024)) := by
  have hu := u.isLt
  constructor
  · rintro ⟨d, hd, hdu, hpres, hx⟩
    rcases h.dir_cases hd with ⟨hlow, hword⟩ | ⟨t, g, ht, hg, hdt, hword⟩ | ⟨-, hword⟩
    · rw [hword, frameOf_entry (by omega) (by decide)] at hx
      exact Or.inl ⟨Fin.ext (by show (u : Nat) = 0; omega), by omega, by omega⟩
    · have hhigh := h.tab_high hg
      rw [hword, frameOf_entry (by omega) (by decide)] at hx
      obtain rfl : t = u := Fin.ext (by omega)
      exact Or.inr ⟨ht, by rw [hx]; exact hg⟩
    · rw [hword] at hpres
      exact absurd hpres not_present_zero
  · rintro (⟨rfl, hx, hx'⟩ | ⟨hu0, hg⟩)
    · have hword := h.dirKernel (x / 1024 - 1) (by omega)
      refine ⟨x / 1024 - 1, by omega, by show (x / 1024 - 1) / 16 = 0; omega, ?_, ?_⟩
      · rw [hword]
        exact present_entry (by omega) (Or.inr rfl)
      · rw [hword, frameOf_entry (by omega) (by decide)]
        omega
    · have hhigh := h.tab_high hg
      have hword := h.dirTask u hu0
      rw [hg] at hword
      refine ⟨16 * (u : Nat), by omega, by omega, ?_, ?_⟩
      · rw [hword]
        exact present_entry (by omega) (Or.inr rfl)
      · rw [hword]
        exact (frameOf_entry (by omega) (by decide)).symm

/-- The directory entries of the others are as they were. -/
theorem ForkRep.copied_dir (h : ForkRep vis w0 s loc tab a)
    (h4 : Rep vis m4 (Function.update tab c (some g)) (copiedSpaces t c k g a)) {d : Nat} (hd : d < 1024)
    (hdc : d ≠ 16 * (c : Nat)) : m4.word d = s.mm.word d := by
  rcases h.rep.dir_cases hd with ⟨hlow, hword⟩ | ⟨u, g', hu, hg', rfl, hword⟩ | ⟨h4d, hword⟩
  · rw [hword, h4.dirKernel d hlow]
  · have huc : u ≠ c := fun heq => hdc (by rw [heq])
    rw [hword, h4.dirTask u hu, Function.update_of_ne huc, hg']
    rfl
  · rw [hword]
    rcases h4.dir_cases hd with ⟨hlow, -⟩ | ⟨u, g', hu, hg', rfl, -⟩ | ⟨-, hzero⟩
    · omega
    · have huc : u ≠ c := fun heq => hdc (by rw [heq])
      rw [Function.update_of_ne huc] at hg'
      rw [h.rep.dirTask u hu, hg'] at hword
      have hhigh := h.rep.tab_high hg'
      exact absurd hword (entry_ne_zero (by omega) (by decide) (by decide))
    · exact hzero

/-- An entry of a task is as it was, but those of the parent can lose their write bit. -/
theorem ForkRep.copied_entry (h : ForkRep vis w0 s loc tab a) (ht : loc t = some y) (hc : c ≠ 0) (hcn : loc c = none)
    (h4 : Rep vis m4 (Function.update tab c (some g)) (copiedSpaces t c k g a)) (hu : tab u = some (x / 1024)) :
    m4.word x = s.mm.word x ∨ (u = t ∧ m4.word x = s.mm.word x &&& ~~~2#32) := by
  have huc : u ≠ c := by
    rintro rfl
    rw [(h.locTab u hc).mp hcn] at hu
    cases hu
  have hx : 1024 * (x / 1024) + x % 1024 = x := by omega
  have hword := h.rep.table u _ hu (x % 1024) (by omega)
  have hword4 := h4.table u (x / 1024) (by rw [Function.update_of_ne huc]; exact hu) (x % 1024) (by omega)
  have hpte : (copiedSpaces t c k g a).pte u (x % 1024) = a.pte u (x % 1024) := by
    rw [copiedSpaces, h.copied_pte ht hc hcn, if_neg huc]
  rw [hx] at hword hword4
  rw [hword4, hword, hpte]
  rcases copiedSpaces_wr (t := t) (c := c) (k := k) (g := g) (a := a) u (x % 1024) with hsame | ⟨hut, hlost⟩
  · left
    rw [hsame]
  · right
    refine ⟨hut, ?_⟩
    rw [hlost]
    cases hf : a.pte u (x % 1024) with
    | none =>
      show (0 : BitVec 32) = 0 &&& ~~~2#32
      decide
    | some f =>
      have hlt := h.rep.frame_lt hf
      symm
      refine Rep.entry_not_two hlt ?_
      split
      · exact Or.inr rfl
      · exact Or.inl rfl

/-- What staying inside asks of one word. -/
structure EntryInside (m m' : Memory) (t c : Fin 64) (e : Nat) : Prop where
  dir : e < 1024 → e / 16 ≠ (c : Nat) → m'.word e = m.word e
  others : ∀ u : Fin 64, u ≠ t → TaskTable m u e → m'.word e = m.word e
  parent : TaskTable m t e → m'.word e = m.word e ∨ m'.word e = m.word e &&& ~~~2#32

theorem EntryInside.of_eq {m' : Memory} {e : Nat} (h : m'.word e = m.word e) : EntryInside m m' t c e :=
  ⟨fun _ _ => h, fun _ _ _ => h, fun _ => Or.inl h⟩

/-- A new page would show in the frame of the entry. -/
theorem EntryInside.frame_eq {m' : Memory} {e : Nat} (h : EntryInside m m' t c e) (hu : TaskTable m u e) :
    frameOf (m'.word e) = frameOf (m.word e) := by
  by_cases hut : u = t
  · rcases h.parent (hut ▸ hu) with hsame | hsame
    · rw [hsame]
    · rw [hsame, frameOf_and_not_two]
  · rw [h.others u hut hu]

/-- Only the entry at which the walk ends can be wrong. -/
theorem ForkRep.inside_iff {m' : Memory} {e : Nat} (h : ForkRep vis w0 s loc tab a) (ht : loc t = some y) (hc : c ≠ 0)
    (hcn : loc c = none) (h4 : Rep vis m4 (Function.update tab c (some g)) (copiedSpaces t c k g a))
    (hkeep : ∀ z, (z < 5120 ∨ ∃ u, tab u = some (z / 1024)) → z ≠ e → m'.word z = m4.word z) :
    ForkInside s.mm m' t c ↔ EntryInside s.mm m' t c e := by
  have htab : ∀ {u : Fin 64} {x : Nat}, TaskTable s.mm u x → x < 5120 ∨ ∃ u, tab u = some (x / 1024) := by
    intro u x hx
    rcases (taskTable_iff h.rep).mp hx with ⟨-, -, hlow⟩ | ⟨-, hg⟩
    · exact Or.inl hlow
    · exact Or.inr ⟨u, hg⟩
  have hentry : ∀ {u : Fin 64} {x : Nat}, TaskTable s.mm u x → x ≠ e →
      m'.word x = s.mm.word x ∨ (u = t ∧ m'.word x = s.mm.word x &&& ~~~2#32) := by
    intro u x hx hxe
    rw [hkeep x (htab hx) hxe]
    rcases (taskTable_iff h.rep).mp hx with ⟨-, hlow, hhigh⟩ | ⟨-, hg⟩
    · left
      rw [show x = 1024 + (x - 1024) by omega, h4.kernel _ (by omega), h.rep.kernel _ (by omega)]
    · exact h.copied_entry ht hc hcn h4 hg
  constructor
  · intro hin
    refine ⟨fun hlow hec => hin.dir e hlow hec, fun u hut hu => ?_, fun htt => hin.parent e htt⟩
    refine hin.others u u.isLt (fun heq => hut (Fin.ext heq)) ?_ e hu
    intro huc
    obtain rfl : u = c := Fin.ext huc
    rcases (taskTable_iff h.rep).mp hu with ⟨hu0, -⟩ | ⟨-, hg⟩
    · exact hc hu0
    · rw [(h.locTab u hc).mp hcn] at hg
      cases hg
  · rintro ⟨hdir, hothers, hparent⟩
    refine ⟨fun d hd hdc => ?_, fun u hu hut huc x hx => ?_, fun x hx => ?_⟩
    · by_cases hde : d = e
      · rw [hde] at hd hdc ⊢
        exact hdir hd hdc
      · rw [hkeep d (Or.inl (by omega)) hde]
        exact h.copied_dir h4 hd (by omega)
    · by_cases hxe : x = e
      · rw [hxe] at hx ⊢
        exact hothers ⟨u, hu⟩ (fun heq => hut (congrArg Fin.val heq)) hx
      · rcases hentry (u := ⟨u, hu⟩) hx hxe with hsame | ⟨heq, -⟩
        · exact hsame
        · exact absurd (congrArg Fin.val heq) hut
    · by_cases hxe : x = e
      · rw [hxe] at hx ⊢
        exact hparent hx
      · exact (hentry hx hxe).imp_right fun hlost => hlost.2

/-- The frames that nobody shares when the tables have been copied. -/
theorem ForkRep.copied_sole (h : ForkRep vis w0 s loc tab a) (ht : loc t = some y) (hc : c ≠ 0) (hcn : loc c = none)
    (hgk : g ≠ k) (h4 : Rep vis m4 (Function.update tab c (some g)) (copiedSpaces t c k g a)) {f : Nat} (hf : f < 4096) :
    (256 ≤ f ∧ m4.memMap ((f : Int) - 256) = 1) ↔ f = k ∨ f = g ∨
      (256 ≤ f ∧ s.mm.memMap ((f : Int) - 256) = 1 ∧ ∀ p, a.pte t p ≠ some f) := by
  have hown : ∀ f', f' = k ∨ f' = g → 256 ≤ f' ∧ m4.memMap ((f' : Int) - 256) = 1 := by
    intro f' hf'
    have howned : (copiedSpaces t c k g a).own f' = true := by
      rw [copiedSpaces_own]
      rcases hf' with rfl | rfl
      · rw [Function.update_of_ne (Ne.symm hgk), Function.update_self]
      · rw [Function.update_self]
    have hhigh := h4.ownHigh f' howned
    exact ⟨by omega, h4.own_map howned⟩
  have hpte : ∀ t' p, (copiedSpaces t c k g a).pte t' p = if t' = c then a.pte t p else a.pte t' p :=
    h.copied_pte ht hc hcn fun _ => 0
  by_cases hk : f = k
  · exact ⟨fun _ => Or.inl hk, fun _ => hown f (Or.inl hk)⟩
  by_cases hg : f = g
  · exact ⟨fun _ => Or.inr (Or.inl hg), fun _ => hown f (Or.inr hg)⟩
  rw [or_iff_right hk, or_iff_right hg]
  refine and_congr_right fun hlow => ?_
  by_cases h1024 : f < 1024
  · rw [h4.mapUsed f hlow h1024, h.rep.mapUsed f hlow h1024]
    exact ⟨fun hone => absurd hone (by decide), fun hone => absurd hone.1 (by decide)⟩
  · have hcounted : Counted f := hlow
    have hrc : (∀ p, a.pte t p ≠ some f) → (copiedSpaces t c k g a).rc f = a.rc f := by
      intro hno
      refine h.rep.inv.rc_congr h4.inv hcounted (fun t' p => ?_) ?_
      · rw [hpte]
        by_cases htc : t' = c
        · rw [if_pos htc, htc, h.rep.unmapped c hc ((h.locTab c hc).mp hcn) p]
          exact ⟨fun heq => absurd heq (hno p), fun heq => by cases heq⟩
        · rw [if_neg htc]
      · rw [copiedSpaces_own, Function.update_of_ne hg, Function.update_of_ne hk]
    rw [h4.map_eq_one (by omega) hf, h.rep.map_eq_one (by omega) hf]
    constructor
    · intro hone
      have hno : ∀ p, a.pte t p ≠ some f := by
        intro p hp
        have htwo : 2 ≤ (copiedSpaces t c k g a).rc f := h.copied_shared ht hc hcn _ h4.inv hp hcounted
        omega
      exact ⟨(hrc hno).symm.trans hone, hno⟩
    · rintro ⟨hone, hno⟩
      exact (hrc hno).trans hone

/-- The pages of a task, as its page table has them. -/
theorem ForkRep.pages_iff (h : ForkRep vis w0 s loc tab a) (ht : loc t = some y) {f : Nat} (hf : 1024 ≤ f) :
    (∀ p < 1024, frameOf (s.mm.word (1024 * frameOf (s.mm.word (16 * t)) + p)) ≠ f) ↔ ∀ p, a.pte t p ≠ some f := by
  by_cases ht0 : t = 0
  · rw [ht0]
    refine ⟨fun _ p hp => ?_, fun _ p hp => ?_⟩
    · have hframe := h.rep.frame 0 p f hp
      rw [h.rep.zero, if_pos hframe.1] at hp
      have := Option.some.inj hp
      omega
    · rw [show 16 * ((0 : Fin 64) : Nat) = 0 from rfl, h.rep.dirKernel 0 (by decide),
        frameOf_entry (by decide) (by decide), Nat.zero_add, Nat.mul_one, h.rep.kernel p (by omega),
        frameOf_entry (by omega) (by decide)]
      omega
  · rcases Option.ne_none_iff_exists'.mp ((h.live_tab ht).resolve_left ht0) with ⟨gt, hgt⟩
    have hhigh := h.rep.tab_high hgt
    have hdir := h.rep.dirTask t ht0
    rw [hgt] at hdir
    have hframe : frameOf (s.mm.word (16 * t)) = gt := by
      rw [hdir]
      exact frameOf_entry (by omega) (by decide)
    rw [hframe]
    constructor
    · intro hall p hp
      have h160 := (h.rep.frame t p f hp).1
      exact hall p (by omega) (h.rep.entry_frame hgt (by omega) hp)
    · intro hno p hp heq
      cases hpte : a.pte t p with
      | none =>
        rw [h.rep.table t gt hgt p hp, hpte] at heq
        have hzero : frameOf (pteWord none (a.wr t p)) = 0 := frameOf_zero
        omega
      | some f' =>
        rw [h.rep.entry_frame hgt hp hpte] at heq
        exact hno p (by rw [hpte, heq])

/-! ## Where the walk ends -/

/-- The entry at which the walk ends, afterwards. -/
structure Rewritten (m m' : Memory) (e l : Nat) : Prop where
  sole : 256 ≤ frameOf (m.word e) ∧ m.memMap ((frameOf (m.word e) : Int) - 256) = 1 → m'.word e = m.word e ||| 2
  copied : ¬ (256 ≤ frameOf (m.word e) ∧ m.memMap ((frameOf (m.word e) : Int) - 256) = 1) → m'.word e = entry l 7

/-- The entry of the kernel for frame `f`. -/
theorem ForkRep.inside_kernel {m' : Memory} {f : Nat} (h : ForkRep vis w0 s loc tab a) (ht : loc t = some y)
    (hc : c ≠ 0) (hcn : loc c = none) (hgk : g ≠ k) (hl : l < 4096) (hpages : nextPages 3 s.mm = [k, g, l])
    (h4 : Rep vis m4 (Function.update tab c (some g)) (copiedSpaces t c k g a)) (hf : f < 4096)
    (hre : Rewritten m4 m' (1024 + f) l) :
    EntryInside s.mm m' t c (1024 + f) ↔ KernelEntryKept s.mm t f := by
  have hword : s.mm.word (1024 + f) = entry f 7 := h.rep.kernel f hf
  have hword4 : m4.word (1024 + f) = entry f 7 := h4.kernel f hf
  have hframe4 : frameOf (m4.word (1024 + f)) = f := by rw [hword4, frameOf_entry (by omega) (by decide)]
  have htable : TaskTable s.mm ((0 : Fin 64) : Nat) (1024 + f) :=
    (taskTable_iff h.rep).mpr (Or.inl ⟨rfl, by omega, by omega⟩)
  have hsole := hre.sole
  have hcopied := hre.copied
  rw [hframe4] at hsole hcopied
  have hinside : EntryInside s.mm m' t c (1024 + f) ↔ (256 ≤ f ∧ m4.memMap ((f : Int) - 256) = 1) ∨ l = f := by
    constructor
    · intro hin
      by_contra hno
      rw [not_or] at hno
      have hframe := hin.frame_eq htable
      rw [hcopied hno.1, hword, frameOf_entry (by omega) (by decide), frameOf_entry (by omega) (by decide)] at hframe
      exact hno.2 hframe
    · intro hor
      refine EntryInside.of_eq ?_
      rw [hword]
      by_cases hone : 256 ≤ f ∧ m4.memMap ((f : Int) - 256) = 1
      · rw [hsole hone, hword4, entry_or_two hf (Or.inr rfl)]
      · rw [hcopied hone, hor.resolve_left hone]
  rw [hinside, h.copied_sole ht hc hcn hgk h4 hf, KernelEntryKept, hpages]
  have hmem : f ∈ [k, g, l] ↔ f = k ∨ f = g ∨ f = l := by simp
  have hpart : (256 ≤ f ∧ s.mm.memMap ((f : Int) - 256) = 1 ∧ ∀ p, a.pte t p ≠ some f) ↔
      (256 ≤ f ∧ s.mm.memMap ((f : Int) - 256) = 1 ∧
        ∀ p < 1024, frameOf (s.mm.word (1024 * frameOf (s.mm.word (16 * t)) + p)) ≠ f) := by
    refine and_congr_right fun hlow => and_congr_right fun hone => ?_
    have h1024 : 1024 ≤ f := by
      by_contra hlt
      rw [h.rep.mapUsed f hlow (by omega)] at hone
      exact absurd hone (by decide)
    exact (h.pages_iff ht h1024).symm
  rw [hmem, ← hpart]
  constructor
  · rintro ((hk | hg | hrest) | rfl)
    · exact Or.inl (Or.inl hk)
    · exact Or.inl (Or.inr (Or.inl hg))
    · exact Or.inr hrest
    · exact Or.inl (Or.inr (Or.inr rfl))
  · rintro ((hk | hg | hl) | hrest)
    · exact Or.inl (Or.inl hk)
    · exact Or.inl (Or.inr (Or.inl hg))
    · exact Or.inr hl.symm
    · exact Or.inl (Or.inr (Or.inr hrest))

/-- A page that a task other than the parent may write is still its own. -/
theorem ForkRep.writable_sole (h : ForkRep vis w0 s loc tab a) (ht : loc t = some y) (hc : c ≠ 0) (hcn : loc c = none)
    (hgk : g ≠ k) (h4 : Rep vis m4 (Function.update tab c (some g)) (copiedSpaces t c k g a)) {i f : Nat}
    (hut : u ≠ t) (hf : a.pte u i = some f) (hwr : a.wr u i = true) :
    256 ≤ f ∧ m4.memMap ((f : Int) - 256) = 1 := by
  have hlt := h.rep.frame_lt hf
  have hframe := h.rep.frame u i f hf
  rcases h.rep.inv.rc_writable hwr hf with ⟨hlow, hrc⟩
  have hlow' : 256 ≤ f := hlow
  refine (h.copied_sole ht hc hcn hgk h4 hlt).mpr (Or.inr (Or.inr ⟨hlow, ?_, fun p hp => ?_⟩))
  · exact (h.rep.map_eq_one (by omega) hlt).mpr hrc
  · rcases h.rep.inv.excl u i hwr with ⟨f', hf', -, hexcl⟩
    rw [hf] at hf'
    exact hut (hexcl t p (hf' ▸ hp)).symm

theorem two_and_entry {f : Nat} (hf : f < 4096) : 2#32 &&& entry f 7 ≠ 0 := by
  intro hz
  have htoNat := congrArg BitVec.toNat hz
  rw [BitVec.and_comm, entry_and_low (m := 2) (by decide) (by omega) (by decide) (by decide)] at htoNat
  exact absurd htoNat (by decide)

theorem two_and_entry_five {f : Nat} (hf : f < 4096) : 2#32 &&& entry f 5 = 0 := by
  apply BitVec.eq_of_toNat_eq
  rw [BitVec.and_comm, entry_and_low (m := 2) (by decide) (by omega) (by decide) (by decide)]
  rfl

/-- An entry of a task other than the child. -/
theorem ForkRep.inside_task {m' : Memory} {gu i : Nat} (h : ForkRep vis w0 s loc tab a) (ht : loc t = some y)
    (hc : c ≠ 0) (hcn : loc c = none) (hgk : g ≠ k) (hlfree : ∀ t' p, a.pte t' p ≠ some l) (hl : 1 ≤ l ∧ l < 4096)
    (h4 : Rep vis m4 (Function.update tab c (some g)) (copiedSpaces t c k g a)) (hu0 : u ≠ 0) (hu : tab u = some gu)
    (hi : i < 1024) (hre : Rewritten m4 m' (1024 * gu + i) l) :
    EntryInside s.mm m' t c (1024 * gu + i) ↔ u ≠ t ∧ 2#32 &&& s.mm.word (1024 * gu + i) ≠ 0 := by
  have huc : u ≠ c := by
    rintro rfl
    rw [(h.locTab u hc).mp hcn] at hu
    cases hu
  have hu4 : Function.update tab c (some g) u = some gu := by rw [Function.update_of_ne huc]; exact hu
  have hdiv : (1024 * gu + i) / 1024 = gu := by omega
  have htable : TaskTable s.mm u (1024 * gu + i) := (taskTable_iff h.rep).mpr (Or.inr ⟨hu0, by rw [hdiv]; exact hu⟩)
  have hpte : ∀ t' p, (copiedSpaces t c k g a).pte t' p = if t' = c then a.pte t p else a.pte t' p :=
    h.copied_pte ht hc hcn fun _ => 0
  have hword := h.rep.table u gu hu i hi
  have hword4 := h4.table u gu hu4 i hi
  rw [hpte, if_neg huc] at hword4
  have hsole := hre.sole
  have hcopied := hre.copied
  have hother : frameOf (m'.word (1024 * gu + i)) ≠ frameOf (s.mm.word (1024 * gu + i)) →
      ¬ EntryInside s.mm m' t c (1024 * gu + i) := by
    exact fun hne hin => hne (hin.frame_eq htable)
  have hnewframe : frameOf (entry l 7) = l := frameOf_entry (by omega) (by decide)
  cases hf : a.pte u i with
  | none =>
    have hzero : s.mm.word (1024 * gu + i) = 0 := by rw [hword, hf]; rfl
    have hzero4 : m4.word (1024 * gu + i) = 0 := by rw [hword4, hf]; rfl
    rw [hzero4, frameOf_zero] at hcopied
    refine iff_of_false (hother ?_) fun hand => hand.2 (by rw [hzero]; decide)
    rw [hcopied (by omega), hnewframe, hzero, frameOf_zero]
    omega
  | some f =>
    have hlt := h.rep.frame_lt hf
    have hlf : l ≠ f := fun heq => hlfree u i (heq ▸ hf)
    have hframe : frameOf (s.mm.word (1024 * gu + i)) = f := h.rep.entry_frame hu hi hf
    have hframe4 : frameOf (m4.word (1024 * gu + i)) = f := h4.entry_frame hu4 hi (by rw [hpte, if_neg huc]; exact hf)
    rw [hframe4] at hsole hcopied
    rw [hframe] at hother
    by_cases hut : u = t
    · refine iff_of_false (hother ?_) fun hand => hand.1 hut
      rw [hcopied, hnewframe]
      · exact hlf
      · rintro ⟨hlow, hone⟩
        have h1024 := h.rep.frame u i f hf
        have h160 := (h.rep.frame u i f hf).1
        rw [h4.map_eq_one (by omega) hlt] at hone
        have htwo : 2 ≤ (copiedSpaces t c k g a).rc f := h.copied_shared ht hc hcn _ h4.inv (hut ▸ hf) hlow
        omega
    · have hsame4 : m4.word (1024 * gu + i) = s.mm.word (1024 * gu + i) := by
        rcases h.copied_entry ht hc hcn h4 (u := u) (by rw [hdiv]; exact hu) with hsame | ⟨heq, -⟩
        · exact hsame
        · exact absurd heq hut
      rw [hsame4] at hsole
      cases hwr : a.wr u i with
      | true =>
        -- nobody else has the page, so the entry stays as it is
        have hentry : s.mm.word (1024 * gu + i) = entry f 7 := by rw [hword, hf, hwr]; rfl
        have hone := h.writable_sole ht hc hcn hgk h4 hut hf hwr
        refine iff_of_true (EntryInside.of_eq ?_) ⟨hut, ?_⟩
        · rw [hsole hone, hentry, entry_or_two hlt (Or.inr rfl)]
        · rw [hentry]
          exact two_and_entry hlt
      | false =>
        have hentry : s.mm.word (1024 * gu + i) = entry f 5 := by rw [hword, hf, hwr]; rfl
        refine iff_of_false (fun hin => ?_) fun hand => hand.2 ?_
        · by_cases hone : 256 ≤ f ∧ m4.memMap ((f : Int) - 256) = 1
          · have hset := hin.others u hut htable
            rw [hsole hone, hentry, entry_or_two hlt (Or.inl rfl)] at hset
            have htoNat := congrArg BitVec.toNat hset
            rw [toNat_entry (by omega) (by decide), toNat_entry (by omega) (by decide)] at htoNat
            omega
          · exact hother (by rw [hcopied hone, hnewframe]; exact hlf) hin
        · rw [hentry]
          exact two_and_entry_five hlt

/-- A directory entry. -/
theorem ForkRep.inside_directory {m' : Memory} {i : Nat} (h : ForkRep vis w0 s loc tab a) (hc : c ≠ 0)
    (hl : 1024 ≤ l ∧ l < 4096)
    (h4 : Rep vis m4 (Function.update tab c (some g)) (copiedSpaces t c k g a)) (hi : i < 1024)
    (hre : Rewritten m4 m' i l) :
    EntryInside s.mm m' t c i ↔ i / 16 = c ∨ ∃ u g', u ≠ 0 ∧ tab u = some g' ∧ i = 16 * (u : Nat) := by
  have hc64 := c.isLt
  have hcpos : 0 < (c : Nat) := Fin.pos_iff_ne_zero.mpr hc
  have hno : ∀ u : Fin 64, ¬ TaskTable s.mm u i := by
    intro u hu
    rcases (taskTable_iff h.rep).mp hu with ⟨-, hlow, -⟩ | ⟨-, hg'⟩
    · omega
    · have hhigh := h.rep.tab_high hg'
      omega
  have hinside : EntryInside s.mm m' t c i ↔ (i / 16 ≠ (c : Nat) → m'.word i = s.mm.word i) :=
    ⟨fun hin => hin.dir hi, fun hdir => ⟨fun _ => hdir, fun u _ hu => absurd hu (hno u), fun ht => absurd ht (hno t)⟩⟩
  rw [hinside]
  by_cases hic : i / 16 = (c : Nat)
  · exact iff_of_true (fun hne => absurd hic hne) (Or.inl hic)
  have hdir : m4.word i = s.mm.word i := h.copied_dir h4 hi fun heq => hic (by omega)
  have hsole := hre.sole
  have hcopied := hre.copied
  rw [hdir] at hsole hcopied
  have hnewframe : frameOf (entry l 7) = l := frameOf_entry (by omega) (by decide)
  rcases h.rep.dir_cases hi with ⟨hlow, hword⟩ | ⟨u, g', hu, hg', hiu, hword⟩ | ⟨hlow, hword⟩
  · have hframe : frameOf (s.mm.word i) = i + 1 := by rw [hword, frameOf_entry (by omega) (by decide)]
    refine iff_of_false (fun hsame => ?_) ?_
    · have hf := congrArg frameOf (hsame hic)
      rw [hcopied (by omega), hnewframe, hframe] at hf
      omega
    · rintro (heq | ⟨u, g', hu, -, hiu⟩)
      · exact hic heq
      · have hupos : 0 < (u : Nat) := Fin.pos_iff_ne_zero.mpr hu
        omega
  · have hhigh := h.rep.tab_high hg'
    have huc : u ≠ c := by
      rintro rfl
      exact hic (by omega)
    have hframe : frameOf (s.mm.word i) = g' := by rw [hword, frameOf_entry (by omega) (by decide)]
    rw [hframe] at hsole
    have hone := h4.tab_map (t := u) (g := g') (by rw [Function.update_of_ne huc]; exact hg')
    refine iff_of_true (fun _ => ?_) (Or.inr ⟨u, g', hu, hg', hiu⟩)
    rw [hsole ⟨by omega, hone⟩, hword, entry_or_two hhigh.2 (Or.inr rfl)]
  · rw [hword, frameOf_zero] at hcopied
    refine iff_of_false (fun hsame => ?_) ?_
    · have hentry := hsame hic
      rw [hcopied (by omega), hword] at hentry
      exact absurd hentry (entry_ne_zero (by omega) (by decide) (by decide))
    · rintro (heq | ⟨u, g', hu, hg', hiu⟩)
      · exact hic heq
      · have hhigh := h.rep.tab_high hg'
        rw [hiu, h.rep.dirTask u hu, hg'] at hword
        exact absurd hword (entry_ne_zero (by omega) (by decide) (by decide))

/-- An entry of the child. -/
theorem ForkRep.inside_child {m' : Memory} {i : Nat} (h : ForkRep vis w0 s loc tab a) (hg : g ∈ freeFrames a)
    (hi : i < 1024) : EntryInside s.mm m' t c (1024 * g + i) := by
  rcases mem_freeFrames.mp hg with ⟨hg', hg1, hg0⟩
  have hdiv : (1024 * g + i) / 1024 = g := by omega
  have hno : ∀ u : Fin 64, ¬ TaskTable s.mm u (1024 * g + i) := by
    intro u hu
    rcases (taskTable_iff h.rep).mp hu with ⟨-, -, hhigh⟩ | ⟨-, htab⟩
    · omega
    · rw [hdiv] at htab
      exact (h.rep.free hg1 hg0).1 u htab
  exact ⟨fun hlow => by omega, fun u _ hu => absurd hu (hno u), fun ht => absurd ht (hno t)⟩

/-- The walk in a page table of the kernel. -/
theorem ForkRep.walk_kernel {m' : Memory} (h : ForkRep vis w0 s loc tab a) (ht : loc t = some y) (hc : c ≠ 0)
    (hcn : loc c = none) (hgk : g ≠ k) (hl : l < 4096) (hpages : nextPages 3 s.mm = [k, g, l])
    (h4 : Rep vis m4 (Function.update tab c (some g)) (copiedSpaces t c k g a)) {addr : BitVec 32}
    (hlow : dirIndex addr < 4) (hre : Rewritten m4 m' (entryWord addr m4) l) :
    EntryInside s.mm m' t c (entryWord addr m4) ↔ StackWalk s t c addr := by
  have hi := tableIndex_lt addr
  have hcpos : 0 < (c : Nat) := Fin.pos_iff_ne_zero.mpr hc
  have hew : entryWord addr m4 = 1024 + (1024 * dirIndex addr + tableIndex addr) := by
    rw [entryWord, h4.dirKernel _ hlow, frameOf_entry (by omega) (by decide)]
    omega
  have hpres : Present (s.mm.word (dirIndex addr)) := by
    rw [h.rep.dirKernel _ hlow]
    exact present_entry (by omega) (Or.inr rfl)
  rw [hew] at hre ⊢
  rw [h.inside_kernel ht hc hcn hgk hl hpages h4 (by omega) hre]
  constructor
  · exact fun hkept => .kernel hlow hkept
  · intro hwalk
    cases hwalk with
    | child heq => omega
    | directory _ habs _ => exact absurd hpres habs
    | kernel _ hkept => exact hkept
    | other u hu _ _ heq _ => omega

/-- The walk in the page table of a task that was there before. -/
theorem ForkRep.walk_task {m' : Memory} {gu : Nat} (h : ForkRep vis w0 s loc tab a) (ht : loc t = some y) (hc : c ≠ 0)
    (hcn : loc c = none) (hgk : g ≠ k) (hlfree : ∀ t' p, a.pte t' p ≠ some l) (hl : 1 ≤ l ∧ l < 4096)
    (h4 : Rep vis m4 (Function.update tab c (some g)) (copiedSpaces t c k g a)) {addr : BitVec 32} (hu0 : u ≠ 0)
    (huc : u ≠ c) (hgu : tab u = some gu) (hdu : dirIndex addr = 16 * (u : Nat))
    (hre : Rewritten m4 m' (entryWord addr m4) l) :
    EntryInside s.mm m' t c (entryWord addr m4) ↔ StackWalk s t c addr := by
  have hd := dirIndex_lt addr
  have hupos : 0 < (u : Nat) := Fin.pos_iff_ne_zero.mpr hu0
  have hval : (u : Nat) ≠ c := fun heq => huc (Fin.ext heq)
  have hhigh := h.rep.tab_high hgu
  have hdir := h.copied_dir h4 hd (by omega)
  have hword : s.mm.word (dirIndex addr) = entry gu 7 := by
    rw [hdu, h.rep.dirTask u hu0, hgu]
    rfl
  have hpres : Present (s.mm.word (dirIndex addr)) := by
    rw [hword]
    exact present_entry (by omega) (Or.inr rfl)
  have hews : entryWord addr s.mm = entryWord addr m4 := by rw [entryWord, ← hdir, entryWord]
  have hew : entryWord addr m4 = 1024 * gu + tableIndex addr := by
    rw [← hews, entryWord, hword, frameOf_entry (by omega) (by decide)]
  rw [hew] at hre ⊢
  rw [h.inside_task ht hc hcn hgk hlfree hl h4 hu0 hgu (tableIndex_lt addr) hre, ← hew, ← hews]
  constructor
  · rintro ⟨hut, hwr⟩
    refine .other u hupos ?_ (fun heq => hut (Fin.ext heq)) hdu hwr
    refine h.live_iff.mpr fun hno => ?_
    rw [(h.locTab u hu0).mp hno] at hgu
    cases hgu
  · intro hwalk
    cases hwalk with
    | child heq => omega
    | directory _ habs _ => exact absurd hpres habs
    | kernel hlow _ => omega
    | other u' hu' _ hut heq hwr =>
      refine ⟨fun heqt => hut ?_, hwr⟩
      rw [← heqt]
      omega

/-- Without a directory entry, the walk is in the page directory. -/
theorem ForkRep.walk_directory {m' : Memory} (h : ForkRep vis w0 s loc tab a) (hc : c ≠ 0) (hg : g < 4096)
    (hl : 1024 ≤ l ∧ l < 4096) (h4 : Rep vis m4 (Function.update tab c (some g)) (copiedSpaces t c k g a))
    {addr : BitVec 32} (hlow : 4 ≤ dirIndex addr) (hword : m4.word (dirIndex addr) = 0)
    (hre : Rewritten m4 m' (entryWord addr m4) l) :
    EntryInside s.mm m' t c (entryWord addr m4) ↔ StackWalk s t c addr := by
  have hd := dirIndex_lt addr
  have hdc : dirIndex addr ≠ 16 * (c : Nat) := by
    intro heq
    rw [heq, h4.dirTask c hc, Function.update_self] at hword
    exact absurd hword (entry_ne_zero (by omega) (by decide) (by decide))
  have habs : ¬ Present (s.mm.word (dirIndex addr)) := by
    rw [← h.copied_dir h4 hd hdc, hword]
    exact not_present_zero
  have hew : entryWord addr m4 = tableIndex addr := by
    rw [entryWord, hword, frameOf_zero, Nat.mul_zero, Nat.zero_add]
  rw [hew] at hre ⊢
  rw [h.inside_directory hc hl h4 (tableIndex_lt addr) hre, h.tab_live]
  constructor
  · exact fun hor => .directory hdc habs hor
  · intro hwalk
    cases hwalk with
    | child heq => exact absurd heq hdc
    | directory _ _ hor => exact hor
    | kernel hlow' _ => omega
    | other u' hu' hlive' _ heq hwr =>
      exfalso
      rcases (h.tab_live (i := dirIndex addr)).mpr ⟨u', hu', hlive', heq⟩ with ⟨u, g', hu, hg', heq'⟩
      have hhigh := h.rep.tab_high hg'
      apply habs
      rw [heq', h.rep.dirTask u hu, hg']
      exact present_entry (by omega) (Or.inr rfl)

/-- The walk from any linear address. -/
theorem ForkRep.inside_walk {m' : Memory} (h : ForkRep vis w0 s loc tab a) (ht : loc t = some y) (hc : c ≠ 0)
    (hcn : loc c = none) (hg : g ∈ (freeFrames a).erase k) (hl : l ∈ ((freeFrames a).erase k).erase g)
    (hpages : nextPages 3 s.mm = [k, g, l])
    (h4 : Rep vis m4 (Function.update tab c (some g)) (copiedSpaces t c k g a)) (addr : BitVec 32)
    (hre : Rewritten m4 m' (entryWord addr m4) l) :
    EntryInside s.mm m' t c (entryWord addr m4) ↔ StackWalk s t c addr := by
  have hi := tableIndex_lt addr
  rcases Finset.mem_erase.mp hg with ⟨hgk, hga⟩
  rcases mem_freeFrames.mp (Finset.mem_of_mem_erase (Finset.mem_of_mem_erase hl)) with ⟨hl', hl1, hl0⟩
  rcases h4.dir_cases (dirIndex_lt addr) with ⟨hlow, -⟩ | ⟨u, gu, hu0, hgu, hdu, hword⟩ | ⟨hlow, hword⟩
  · exact h.walk_kernel ht hc hcn hgk hl' hpages h4 hlow hre
  · by_cases huc : u = c
    · have hhigh := h4.tab_high hgu
      rw [entryWord, hword, frameOf_entry (by omega) (by decide)]
      rw [huc, Function.update_self] at hgu
      rw [← Option.some.inj hgu]
      exact iff_of_true (h.inside_child hga hi) (.child (by rw [hdu, huc]))
    · rw [Function.update_of_ne huc] at hgu
      exact h.walk_task ht hc hcn hgk (h.rep.free hl1 hl0).2 ⟨by omega, hl'⟩ h4 hu0 huc hgu hdu hre
  · exact h.walk_directory hc (mem_freeFrames.mp hga).1 ⟨hl1, hl'⟩ h4 hlow hword hre

end Copied

/-! ## All of `copy_process` -/

theorem ForkRep.copyProcess_inside {vis : Nat → Prop} {w0 : Nat} {s : ForkSys} {loc tab : Fin 64 → Option Nat}
    {a : Spaces} {t c : Fin 64} {y : Nat} (h : ForkRep vis w0 s loc tab a) (ht : loc t = some y) (hc : c ≠ 0)
    (hcn : loc c = none) (r : Regs) (hfree : 3 ≤ s.mm.freePages.card) :
    ∃ s', ({ s with current := s.task t } : ForkSys).copyProcess c r = .ok (s', s.lastPid) ∧
      (ForkInside s.mm s'.mm t c ↔ StackWalk s t c (ForkSys.stackAddress r.esp (taskBase c))) := by
  have hs := h.switch (s.task t) h.pid
  rcases hs.copyProcess_walk ht (h.task_eq ht) hc hcn r hfree with
    ⟨k, g, l, m4, i, s', hk, hg, hl, hpages, h4, hpage, hcall, -, -, hword⟩
  refine ⟨s', hcall, ?_⟩
  have hl2 := mem_freeFrames.mp (Finset.mem_of_mem_erase (Finset.mem_of_mem_erase hl))
  have hlfree := (h.rep.free hl2.2.1 hl2.2.2).1
  have hentry := h4.entryWord_cases (ForkSys.stackAddress r.esp (taskBase c))
  have hlt := entryWord_lt (ForkSys.stackAddress r.esp (taskBase c)) m4
  have hre : Rewritten m4 s'.mm (entryWord (ForkSys.stackAddress r.esp (taskBase c)) m4) l := by
    refine ⟨fun hsole => ?_, fun hno => ?_⟩
    · rw [hword _ hentry, unWpPage_once hlt rfl hsole.1 hsole.2, Memory.setWord_word_self]
    · rw [hword _ hentry]
      exact (unWpPage_new hlt rfl hno hl2.1 hpage).1
  refine (h.inside_iff ht hc hcn h4 fun z hz hze => ?_).trans (h.inside_walk ht hc hcn hg hl hpages h4 _ hre)
  have hz4 : z < 5120 ∨ ∃ u, Function.update tab c (some g) u = some (z / 1024) := by
    rcases hz with hlow | ⟨u, hu⟩
    · exact Or.inl hlow
    · refine Or.inr ⟨u, ?_⟩
      rw [Function.update_of_ne]
      · exact hu
      · rintro rfl
        rw [(h.locTab _ hc).mp hcn] at hu
        cases hu
  rw [hword z hz4]
  refine unWpPage_apart hlt hl2.1 hpage hze fun hzl => ?_
  rcases hz with hlow | ⟨u, hu⟩
  · omega
  · rw [hzl] at hu
    exact hlfree u hu

/-- In every state of every run, for every slot that is empty and all registers, `copy_process`
stays inside exactly if the walk from the address of the stack does. -/
theorem fork_stays_inside (b : Boot) (acts : List Act) (s : ForkSys) (hrun : Run.Trace ForkStep b.start acts s)
    (t nr : Nat) (r : Regs) (hlive : s.Live t) (hnr : 1 ≤ nr) (hnr' : nr < nrTasks) (hslot : s.task nr = 0)
    (hfree : 3 ≤ s.mm.freePages.card) :
    ∃ s', ({ s with current := s.task t } : ForkSys).copyProcess nr r = .ok (s', s.lastPid) ∧
      (ForkInside s.mm s'.mm t nr ↔
        StackWalk s t nr (ForkSys.stackAddress r.esp (BitVec.ofNat 32 nr * taskSize))) := by
  rcases b.forkRep hrun with ⟨loc, tab, a, h⟩
  rcases h.of_live hlive with ⟨t, y, rfl, ht⟩
  exact h.copyProcess_inside (c := ⟨nr, hnr'⟩) ht (Fin.pos_iff_ne_zero.mp hnr)
    ((h.slot_eq_zero (t := ⟨nr, hnr'⟩)).mp hslot) r hfree

/-- There is room for a fork at boot. -/
theorem Boot.start_freePages (b : Boot) : 3 ≤ b.start.mm.freePages.card := by
  rw [b.start_forkRep.rep.card_freePages, card_bootSpaces]
  decide

/-- Task 0 forks with its stack pointer at 640 KB. -/
theorem fork_stays_inside_top : ∃ s',
    ({ Boot.blank.start with current := Boot.blank.start.task 0 } : ForkSys).copyProcess 1 stackTop =
      .ok (s', Boot.blank.start.lastPid) ∧ ForkInside Boot.blank.start.mm s'.mm 0 1 := by
  have hrep := Boot.blank.start_forkRep
  have hlive : Boot.blank.start.Live 0 := (hrep.live_iff (t := 0)).mpr (Option.some_ne_none _)
  have hslot : Boot.blank.start.task 1 = 0 := (hrep.slot_eq_zero (t := 1)).mpr rfl
  rcases fork_stays_inside Boot.blank [] _ .nil 0 1 stackTop hlive (by decide) (by decide) hslot
    Boot.blank.start_freePages with ⟨s', hcall, hiff⟩
  exact ⟨s', hcall, hiff.mpr (.child (by decide))⟩

/-- Task 0 forks with a stack pointer of 0: the walk comes upon the last directory entry. -/
theorem fork_outside_null_stack : Run.Trace ForkStep Boot.blank.start [] Boot.blank.start ∧ ∃ s',
    ({ Boot.blank.start with current := Boot.blank.start.task 0 } : ForkSys).copyProcess 1
      { stackTop with esp := 0 } = .ok (s', Boot.blank.start.lastPid) ∧
      ¬ ForkInside Boot.blank.start.mm s'.mm 0 1 := by
  have hdir : dirIndex (ForkSys.stackAddress 0 (taskBase 1)) = 15 := by decide
  have hidx : tableIndex (ForkSys.stackAddress 0 (taskBase 1)) = 1023 := by decide
  rcases Boot.blank.start_forkRep.copyProcess_inside (t := 0) (c := 1) rfl (by decide) rfl { stackTop with esp := 0 }
    Boot.blank.start_freePages with ⟨s', hcall, hiff⟩
  refine ⟨.nil, s', hcall, fun hin => ?_⟩
  cases hiff.mp hin with
  | child heq =>
    have heq' : (15 : Nat) = 16 := hdir.symm.trans heq
    omega
  | directory _ _ hor =>
    have hor' : (1023 : Nat) / 16 = 1 ∨ ∃ u, 1 ≤ u ∧ Boot.blank.start.Live u ∧ 1023 = 16 * u := hidx ▸ hor
    rcases hor' with heq | ⟨u, -, -, heq⟩ <;> omega
  | kernel hlow _ =>
    have hlow' : (15 : Nat) < 4 := hdir ▸ hlow
    omega
  | other u _ _ _ heq _ =>
    have heq' : 15 = 16 * u := hdir.symm.trans heq
    omega

end MockOs.Kernel
