import MockOs.Mm.Proofs.Frames

/-!
# Page tables after any call of `un_wp_page`

`copy_process` calls `un_wp_page` for an address that the user chooses, so that any entry of
any table can get a page of its own, and the page directory too. `Sane` is what is left of the
page tables then: the frames that are in use are never free again, and the frames of the
structures are in no table of a task.
-/

namespace MockOs.Mm

/-- The frame that a directory entry names. -/
def dirFrame (m : Memory) (d : Nat) : Nat := frameOf (m.word d)

/-- The frame of page `p` of task `t`. -/
def pageFrame (m : Memory) (t : Fin 64) (p : Nat) : Nat :=
  frameOf (m.word (1024 * dirFrame m (16 * t) + p))

/-- A directory entry is empty, names a page table of the kernel, or a frame in use. -/
inductive DirOk (m : Memory) (held : Nat → Prop) (d : Nat) : Prop
  | none : m.word d = 0 → DirOk m held d
  | kernel : 1 ≤ dirFrame m d → dirFrame m d < 5 → DirOk m held d
  | table : 256 ≤ dirFrame m d → dirFrame m d < 4096 → m.memMap ((dirFrame m d : Int) - 256) ≠ 0 →
      ¬ held (dirFrame m d) → DirOk m held d

/-- A frame that a page of a task can have: it is not counted, or at most `n` times, and is
neither held nor a page table. -/
structure PageOk (m : Memory) (held : Nat → Prop) (n f : Nat) : Prop where
  high : f < 4096
  pos : m.memMap ((f : Int) - 256) ≠ 0
  count : (m.memMap ((f : Int) - 256)).toNat ≤ n
  free : ¬ held f
  dir : ∀ d < 1024, dirFrame m d ≠ f

/-- The page tables of the tasks that are `live`, beside the frames that are `held` for other
things. -/
structure Sane (m : Memory) (held : Nat → Prop) (live : Fin 64 → Prop) (n : Nat) : Prop where
  heldUsed : ∀ f, held f → 256 ≤ f ∧ f < 4096 ∧ m.memMap ((f : Int) - 256) ≠ 0
  dir : ∀ d < 1024, DirOk m held d
  present : ∀ t, live t → 1#32 &&& m.word (16 * t) ≠ 0
  page : ∀ t, live t → ∀ p < copiedPages t, 256 ≤ pageFrame m t p → PageOk m held n (pageFrame m t p)
  inj : ∀ t, live t → ∀ p < copiedPages t, ∀ q < copiedPages t, pageFrame m t p = pageFrame m t q →
    256 ≤ pageFrame m t p → p = q

/-- A directory entry that has not changed. -/
theorem DirOk.congr {m m' : Memory} {held held' : Nat → Prop} {d : Nat} (h : DirOk m held d)
    (hword : m'.word d = m.word d)
    (hmap : 256 ≤ dirFrame m d → m.memMap ((dirFrame m d : Int) - 256) ≠ 0 →
      m'.memMap ((dirFrame m d : Int) - 256) ≠ 0 ∧ (held' (dirFrame m d) → held (dirFrame m d))) :
    DirOk m' held' d := by
  have hdf : dirFrame m' d = dirFrame m d := by rw [dirFrame, hword, dirFrame]
  cases h with
  | none hz => exact .none (by rw [hword, hz])
  | kernel h1 h5 => exact .kernel (by rwa [hdf]) (by rwa [hdf])
  | table h1 h2 h3 h4 =>
    rcases hmap h1 h3 with ⟨hpos, hheld⟩
    exact .table (by rwa [hdf]) (by rwa [hdf]) (by rwa [hdf]) (by rw [hdf]; exact fun hin => h4 (hheld hin))

theorem copiedPages_le (t : Fin 64) : copiedPages t ≤ 1024 := by
  unfold copiedPages
  split <;> omega

namespace Sane

variable {m m' : Memory} {held held' : Nat → Prop} {live : Fin 64 → Prop} {n k : Nat} {t c : Fin 64}

/-- Where the page table of a task is. -/
theorem table (h : Sane m held live n) (ht : live t) :
    (1 ≤ dirFrame m (16 * t) ∧ dirFrame m (16 * t) < 5) ∨
      (256 ≤ dirFrame m (16 * t) ∧ dirFrame m (16 * t) < 4096 ∧
        m.memMap ((dirFrame m (16 * t) : Int) - 256) ≠ 0 ∧ ¬ held (dirFrame m (16 * t))) := by
  have ht64 := t.isLt
  cases h.dir (16 * t) (by omega) with
  | none hz =>
    refine absurd ?_ (h.present t ht)
    rw [hz]
    rfl
  | kernel h1 h5 => exact Or.inl ⟨h1, h5⟩
  | table h1 h2 h3 h4 => exact Or.inr ⟨h1, h2, h3, h4⟩

theorem dirFrame_free (h : Sane m held live n) (hk : 256 ≤ k) (h0 : m.memMap ((k : Int) - 256) = 0)
    {d : Nat} (hd : d < 1024) : dirFrame m d ≠ k := by
  rintro rfl
  cases h.dir d hd with
  | none hz =>
    rw [dirFrame, hz, frameOf_zero] at hk
    omega
  | kernel h1 h5 => omega
  | table h1 h2 h3 h4 => exact h3 h0

theorem pageFrame_free (h : Sane m held live n) (hk : 256 ≤ k) (h0 : m.memMap ((k : Int) - 256) = 0)
    (ht : live t) {p : Nat} (hp : p < copiedPages t) : pageFrame m t p ≠ k := by
  rintro rfl
  exact (h.page t ht p hp hk).pos h0

theorem held_free (h : Sane m held live n) (h0 : m.memMap ((k : Int) - 256) = 0) : ¬ held k :=
  fun hk => (h.heldUsed k hk).2.2 h0

/-- A change that leaves the directory, the page tables and the counts of the frames in use
alone. -/
theorem congr_tables (h : Sane m held live n)
    (hheld : ∀ f, held' f → 256 ≤ f ∧ f < 4096 ∧ m'.memMap ((f : Int) - 256) ≠ 0)
    (hsame : ∀ f : Nat, 256 ≤ f → m.memMap ((f : Int) - 256) ≠ 0 →
      m'.memMap ((f : Int) - 256) = m.memMap ((f : Int) - 256) ∧ (held' f → held f))
    (hword : ∀ z, z < 5120 ∨ (∃ d < 1024, z / 1024 = dirFrame m d) → m'.word z = m.word z) :
    Sane m' held' live n := by
  have hdir : ∀ d < 1024, m'.word d = m.word d := fun d hd => hword d (Or.inl (by omega))
  have hdf : ∀ d < 1024, dirFrame m' d = dirFrame m d := fun d hd => by rw [dirFrame, hdir d hd, dirFrame]
  have hpf : ∀ t, live t → ∀ p < copiedPages t, pageFrame m' t p = pageFrame m t p := by
    intro t ht p hp
    have ht64 := t.isLt
    have hp' := copiedPages_le t
    rw [pageFrame, hdf _ (by omega), hword _ (Or.inr ⟨16 * t, by omega, by omega⟩), pageFrame]
  refine ⟨hheld, fun d hd => ?_, fun t ht => ?_, fun t ht p hp hlow => ?_, fun t ht p hp q hq heq hlow => ?_⟩
  · refine (h.dir d hd).congr (hdir d hd) fun hlow hpos => ?_
    rcases hsame _ hlow hpos with ⟨heq, hin⟩
    exact ⟨by rwa [heq], hin⟩
  · have ht64 := t.isLt
    rw [hdir _ (by omega)]
    exact h.present t ht
  · rw [hpf t ht p hp] at hlow ⊢
    have hok := h.page t ht p hp hlow
    rcases hsame _ hlow hok.pos with ⟨heq, hin⟩
    exact ⟨hok.high, by rw [heq]; exact hok.pos, by rw [heq]; exact hok.count, fun hf => hok.free (hin hf),
      fun d hd => by rw [hdf d hd]; exact hok.dir d hd⟩
  · rw [hpf t ht p hp] at heq hlow
    rw [hpf t ht q hq] at heq
    exact h.inj t ht p hp q hq heq hlow

/-- The words of page tables are in low memory or in frames that are in use. -/
theorem dir_word (h : Sane m held live n) {d z : Nat} (hd : d < 1024) (hz : z / 1024 = dirFrame m d) :
    z < 5120 ∨ (256 ≤ z / 1024 ∧ ¬ held (z / 1024) ∧ m.memMap (((z / 1024 : Nat) : Int) - 256) ≠ 0) := by
  cases h.dir d hd with
  | none hzero =>
    rw [dirFrame, hzero, frameOf_zero] at hz
    exact Or.inl (by omega)
  | kernel h1 h5 => exact Or.inl (by omega)
  | table h1 h2 h3 h4 =>
    rw [hz]
    exact Or.inr ⟨h1, h4, h3⟩

/-- A change that leaves low memory and the frames in use alone. -/
theorem congr (h : Sane m held live n)
    (hheld : ∀ f, held' f → 256 ≤ f ∧ f < 4096 ∧ m'.memMap ((f : Int) - 256) ≠ 0)
    (hsame : ∀ f : Nat, 256 ≤ f → m.memMap ((f : Int) - 256) ≠ 0 →
      m'.memMap ((f : Int) - 256) = m.memMap ((f : Int) - 256) ∧ (held' f → held f))
    (hword : ∀ z, z < 5120 ∨ (256 ≤ z / 1024 ∧ ¬ held (z / 1024) ∧
      m.memMap (((z / 1024 : Nat) : Int) - 256) ≠ 0) → m'.word z = m.word z) :
    Sane m' held' live n := by
  refine h.congr_tables hheld hsame fun z hz => hword z ?_
  rcases hz with hlow | ⟨d, hd, hz⟩
  · exact Or.inl hlow
  · exact h.dir_word hd hz

/-- Words that are in no page table do not matter. -/
theorem retain (h : Sane m held live n) (hmap : m'.memMap = m.memMap)
    (hword : ∀ z, z < 5120 ∨ (∃ d < 1024, z / 1024 = dirFrame m d) → m'.word z = m.word z) :
    Sane m' held live n := by
  refine h.congr_tables (fun f hf => ?_) (fun f _ _ => ⟨by rw [hmap], id⟩) hword
  rw [hmap]
  exact h.heldUsed f hf

/-- The words of the structures do not matter. -/
theorem rewrite (h : Sane m held live n) (hmap : m'.memMap = m.memMap)
    (hword : ∀ z, z < 5120 ∨ (256 ≤ z / 1024 ∧ ¬ held (z / 1024)) → m'.word z = m.word z) :
    Sane m' held live n := by
  refine h.congr (fun f hf => ?_) (fun f _ _ => ⟨by rw [hmap], id⟩) fun z hz => ?_
  · rw [hmap]
    exact h.heldUsed f hf
  · exact hword z (hz.imp_right fun hin => ⟨hin.1, hin.2.1⟩)

/-- A free frame is taken for a structure. -/
theorem hold (h : Sane m held live n) (hk : 256 ≤ k) (hk' : k < 4096) (h0 : m.memMap ((k : Int) - 256) = 0) :
    Sane ((m.setMap ((k : Int) - 256) 1).fill k fun _ => 0) (fun f => f = k ∨ held f) live n := by
  have hmap : ∀ f : Nat, f ≠ k → ((m.setMap ((k : Int) - 256) 1).fill k fun _ => 0).memMap ((f : Int) - 256) =
      m.memMap ((f : Int) - 256) := fun f hf => Function.update_of_ne (by omega) _ _
  have hne : ∀ f : Nat, m.memMap ((f : Int) - 256) ≠ 0 → f ≠ k := by
    rintro f hf rfl
    exact hf h0
  refine h.congr ?_ (fun f _ hpos => ⟨hmap f (hne f hpos), fun hin => hin.resolve_left (hne f hpos)⟩)
    fun z hz => ?_
  · rintro f (rfl | hf)
    · refine ⟨hk, hk', ?_⟩
      show Function.update m.memMap ((f : Int) - 256) 1 _ ≠ 0
      rw [Function.update_self]
      decide
    · have hused := h.heldUsed f hf
      exact ⟨hused.1, hused.2.1, by rw [hmap f (hne f hused.2.2)]; exact hused.2.2⟩
  · refine Memory.fill_word_ne _ ?_
    rcases hz with hlow | ⟨-, -, hpos⟩
    · omega
    · exact hne _ hpos

/-! ## `copy_page_tables` -/

/-- The words of the structures, which nothing here may write. -/
def Apart (held : Nat → Prop) (z : Nat) : Prop := 5 ≤ z / 1024 ∧ (z / 1024 < 256 ∨ held (z / 1024))

/-- What `copy_page_tables` does for a child `c` of task `t`, whose table it puts in frame `g`. -/
structure ChildTable (m m' : Memory) (t c : Fin 64) (g : Nat) : Prop where
  dir : ∀ d < 1024, d ≠ 16 * (c : Nat) → m'.word d = m.word d
  dirChild : m'.word (16 * c) = entry g 7
  frame : ∀ z, 1024 ≤ z → z / 1024 ≠ g → frameOf (m'.word z) = frameOf (m.word z)
  word : ∀ z, 1024 ≤ z → z / 1024 ≠ g → z / 1024 ≠ dirFrame m (16 * t) → m'.word z = m.word z
  copy : ∀ p < copiedPages t, frameOf (m'.word (1024 * g + p)) = pageFrame m t p
  rest : ∀ p < 1024, copiedPages t ≤ p → m'.word (1024 * g + p) = 0
  mapTable : m'.memMap ((g : Int) - 256) = 1
  map : ∀ j : Nat, j ≠ g → m'.memMap ((j : Int) - 256) = m.memMap ((j : Int) - 256) ∨
    (m'.memMap ((j : Int) - 256) = m.memMap ((j : Int) - 256) + 1 ∧ 256 ≤ j ∧
      ∃ p < copiedPages t, pageFrame m t p = j)

theorem dirFrame_bounds (h : Sane m held live n) (ht : live t) :
    1 ≤ dirFrame m (16 * t) ∧ dirFrame m (16 * t) < 4096 := by
  rcases h.table ht with h1 | h1 <;> omega

/-- The call makes the table of the child. -/
theorem copyPageTables_childTable {src dst : BitVec 32} {g : Nat} (h : Sane m held live n) (ht : live t)
    (hsrc : src.toNat = 67108864 * (t : Nat)) (hdst : dst.toNat = 67108864 * (c : Nat))
    (hto : 1#32 &&& m.word (16 * c) = 0) (hg : 256 ≤ g) (hg' : g < 4096) (h0 : m.memMap ((g : Int) - 256) = 0)
    (heq : getFreePage m = ((m.setMap ((g : Int) - 256) 1).fill g fun _ => 0, wordAddr (1024 * g))) :
    ∃ m', copyPageTables src dst 0xa0000 m = .ok (m', 0) ∧ ChildTable m m' t c g := by
  have hcall := copyPageTables_copy hsrc hdst hto (h.present t ht) hg hg' heq
  have ht64 := t.isLt
  have hc64 := c.isLt
  obtain ⟨m3, hm3⟩ : ∃ m3, ((m.setMap ((g : Int) - 256) 1).fill g fun _ => 0).setWord (16 * c) (entry g 7) = m3 :=
    ⟨_, rfl⟩
  have hnew : NewTable m m3 (16 * c) g := newTable (by omega) hg hm3
  rw [hm3] at hcall
  obtain ⟨F, hF⟩ : ∃ F, frameOf (m.word (16 * t)) = F := ⟨_, rfl⟩
  have hF' : dirFrame m (16 * t) = F := hF
  have hFb := h.dirFrame_bounds ht
  have hFg := h.dirFrame_free hg h0 (by omega : 16 * (t : Nat) < 1024)
  rw [hF'] at hFb hFg
  have hN := copiedPages_le t
  have hsrc3 : ∀ i < copiedPages t, frameOf (m3.word (1024 * F + i)) = pageFrame m t i := by
    intro i hi
    rw [hnew.word _ (by omega) (by omega), pageFrame, hF']
  have hcopied : TableCopied m3 (copyEntries (copiedPages t) (wordAddr (1024 * F)) (wordAddr (1024 * g)) m3)
      (1024 * F) (1024 * g) (copiedPages t) := by
    refine copyEntries_copied (by omega) (by omega) (by omega) (fun i hi => hnew.zero i (by omega))
      fun i hi j hj hframe hlow => ?_
    rw [hsrc3 i hi] at hframe hlow
    rw [hsrc3 j hj] at hframe
    exact h.inj t ht i hi j hj hframe hlow
  rw [hF] at hcall
  generalize copyEntries (copiedPages t) (wordAddr (1024 * F)) (wordAddr (1024 * g)) m3 = m4 at hcall hcopied
  refine ⟨m4, hcall, ⟨fun d hd hdc => ?_, ?_, fun z hz hzg => ?_, fun z hz hzg hzF => ?_, fun p hp => ?_,
    fun p hp hpN => ?_, ?_, fun j hj => ?_⟩⟩
  · rw [hcopied.word d (by omega) (by omega), hnew.word d hdc (by omega)]
  · rw [hcopied.word _ (by omega) (by omega), hnew.dir]
  · rw [hcopied.frame z (by omega), hnew.word z (by omega) hzg]
  · rw [hF'] at hzF
    rw [hcopied.word z (by omega) (by omega), hnew.word z (by omega) hzg]
  · rw [hcopied.copy p hp, hsrc3 p hp]
  · rw [hcopied.word _ (by omega) (by omega), hnew.zero p hp]
  · rcases hcopied.map g with hsame | ⟨-, -, i, hi, hframe⟩
    · rw [hsame, hnew.map, if_pos rfl]
    · rw [hsrc3 i hi] at hframe
      exact absurd hframe (h.pageFrame_free hg h0 ht hi)
  · have h3 := hnew.map ((j : Int) - 256)
    rw [if_neg (by omega)] at h3
    rcases hcopied.map j with hsame | ⟨hmore, hlow, i, hi, hframe⟩
    · exact Or.inl (hsame.trans h3)
    · rw [hsrc3 i hi] at hframe
      exact Or.inr ⟨by rw [hmore, h3], hlow, i, hi, hframe⟩

namespace ChildTable

variable {g : Nat}

theorem dirFrame_eq (h : ChildTable m m' t c g) {d : Nat} (hd : d < 1024) (hdc : d ≠ 16 * (c : Nat)) :
    dirFrame m' d = dirFrame m d := by
  rw [dirFrame, h.dir d hd hdc, dirFrame]

theorem dirFrame_child (h : ChildTable m m' t c g) (hg : g < 4096) : dirFrame m' (16 * c) = g := by
  rw [dirFrame, h.dirChild, frameOf_entry (by omega) (by decide)]

/-- The other tasks keep their pages. -/
theorem pageFrame_eq (h : ChildTable m m' t c g) (hs : Sane m held live n) (hg : 256 ≤ g)
    (h0 : m.memMap ((g : Int) - 256) = 0) {t' : Fin 64} (ht' : live t') (htc : t' ≠ c) {p : Nat}
    (hp : p < copiedPages t') : pageFrame m' t' p = pageFrame m t' p := by
  have ht64 := t'.isLt
  have hp' := copiedPages_le t'
  have hval : (t' : Nat) ≠ c := fun heq => htc (Fin.ext heq)
  have hb := hs.dirFrame_bounds ht'
  have hbg := hs.dirFrame_free hg h0 (by omega : 16 * (t' : Nat) < 1024)
  rw [pageFrame, h.dirFrame_eq (by omega) (by omega), h.frame _ (by omega) (by omega), pageFrame]

/-- The child has the pages of its parent. -/
theorem pageFrame_child (h : ChildTable m m' t c g) (hg : g < 4096) {p : Nat} (hp : p < 1024) :
    pageFrame m' c p = if p < copiedPages t then pageFrame m t p else 0 := by
  rw [pageFrame, h.dirFrame_child hg]
  by_cases hpN : p < copiedPages t
  · rw [if_pos hpN, h.copy p hpN]
  · rw [if_neg hpN, h.rest p hp (by omega), frameOf_zero]

/-- The frames that are in use are counted at most once more, and only if they are pages. -/
theorem map_page (h : ChildTable m m' t c g) (hs : Sane m held live n) (ht : live t) {j : Nat} (hj : j ≠ g) :
    m'.memMap ((j : Int) - 256) = m.memMap ((j : Int) - 256) ∨
      (m'.memMap ((j : Int) - 256) = m.memMap ((j : Int) - 256) + 1 ∧ PageOk m held n j) := by
  rcases h.map j hj with hsame | ⟨hmore, hlow, p, hp, hframe⟩
  · exact Or.inl hsame
  · refine Or.inr ⟨hmore, ?_⟩
    rw [← hframe] at hlow ⊢
    exact hs.page t ht p hp hlow

theorem map_used (h : ChildTable m m' t c g) (hs : Sane m held live n) (ht : live t)
    (h0 : m.memMap ((g : Int) - 256) = 0) {j : Nat} (hno : ¬ PageOk m held n j)
    (hpos : m.memMap ((j : Int) - 256) ≠ 0) : m'.memMap ((j : Int) - 256) ≠ 0 := by
  have hjg : j ≠ g := by
    rintro rfl
    exact hpos h0
  rcases h.map_page hs ht hjg with hsame | ⟨-, hok⟩
  · rwa [hsame]
  · exact absurd hok hno

/-- A page may be counted once more. -/
theorem pageOk (h : ChildTable m m' t c g) (hs : Sane m held live n) (ht : live t) (hn : n < 255)
    (hg : g < 4096) (h0 : m.memMap ((g : Int) - 256) = 0) {f : Nat} (hok : PageOk m held n f) :
    PageOk m' held (n + 1) f := by
  have hcount := hok.count
  have hpos := hok.pos
  have hfg : f ≠ g := by
    rintro rfl
    exact hpos h0
  have hup : m'.memMap ((f : Int) - 256) ≠ 0 ∧ (m'.memMap ((f : Int) - 256)).toNat ≤ n + 1 := by
    rcases h.map_page hs ht hfg with hsame | ⟨hmore, -⟩
    · rw [hsame]
      exact ⟨hpos, by omega⟩
    · have hsum : (m.memMap ((f : Int) - 256) + 1).toNat = (m.memMap ((f : Int) - 256)).toNat + 1 := by
        rw [BitVec.toNat_add, show (1 : BitVec 8).toNat = 1 from rfl]
        omega
      rw [hmore]
      refine ⟨fun hz => ?_, by omega⟩
      have htoNat := congrArg BitVec.toNat hz
      rw [hsum] at htoNat
      exact absurd htoNat (Nat.succ_ne_zero _)
  refine ⟨hok.high, hup.1, hup.2, hok.free, fun d hd => ?_⟩
  by_cases hdc : d = 16 * (c : Nat)
  · rw [hdc, h.dirFrame_child hg]
    exact Ne.symm hfg
  · rw [h.dirFrame_eq hd hdc]
    exact hok.dir d hd

/-- The page tables are sane with the child's. -/
theorem sane (h : ChildTable m m' t c g) (hs : Sane m held live n) (ht : live t) (hn : n < 255) (hg : 256 ≤ g)
    (hg' : g < 4096) (h0 : m.memMap ((g : Int) - 256) = 0) : Sane m' held (fun t' => t' = c ∨ live t') (n + 1) where
  heldUsed f hf := by
    have hused := hs.heldUsed f hf
    exact ⟨hused.1, hused.2.1, h.map_used hs ht h0 (fun hok => hok.free hf) hused.2.2⟩
  dir d hd := by
    by_cases hdc : d = 16 * (c : Nat)
    · have hdfc := h.dirFrame_child hg'
      rw [hdc]
      refine .table (by rwa [hdfc]) (by rwa [hdfc]) ?_ (by rw [hdfc]; exact hs.held_free h0)
      rw [hdfc, h.mapTable]
      decide
    · exact (hs.dir d hd).congr (h.dir d hd hdc) fun _ hpos =>
        ⟨h.map_used hs ht h0 (fun hok => hok.dir d hd rfl) hpos, id⟩
  present t' ht' := by
    by_cases htc : t' = c
    · rw [htc, h.dirChild]
      exact present_entry hg' (Or.inr rfl)
    · have ht64 := t'.isLt
      have hval : (t' : Nat) ≠ c := fun heq => htc (Fin.ext heq)
      rw [h.dir _ (by omega) (by omega)]
      exact hs.present t' (ht'.resolve_left htc)
  page t' ht' p hp hlow := by
    by_cases htc : t' = c
    · subst htc
      have hp' := copiedPages_le t'
      rw [h.pageFrame_child hg' (by omega)] at hlow ⊢
      by_cases hpN : p < copiedPages t
      · rw [if_pos hpN] at hlow ⊢
        exact h.pageOk hs ht hn hg' h0 (hs.page t ht p hpN hlow)
      · rw [if_neg hpN] at hlow
        omega
    · have ht'' := ht'.resolve_left htc
      rw [h.pageFrame_eq hs hg h0 ht'' htc hp] at hlow ⊢
      exact h.pageOk hs ht hn hg' h0 (hs.page t' ht'' p hp hlow)
  inj t' ht' p hp q hq heq hlow := by
    by_cases htc : t' = c
    · subst htc
      have hp' := copiedPages_le t'
      rw [h.pageFrame_child hg' (by omega)] at heq hlow
      rw [h.pageFrame_child hg' (by omega)] at heq
      by_cases hpN : p < copiedPages t
      · rw [if_pos hpN] at heq hlow
        by_cases hqN : q < copiedPages t
        · rw [if_pos hqN] at heq
          exact hs.inj t ht p hpN q hqN heq hlow
        · rw [if_neg hqN] at heq
          omega
      · rw [if_neg hpN] at hlow
        omega
    · have ht'' := ht'.resolve_left htc
      rw [h.pageFrame_eq hs hg h0 ht'' htc hp] at heq hlow
      rw [h.pageFrame_eq hs hg h0 ht'' htc hq] at heq
      exact hs.inj t' ht'' p hp q hq heq hlow

/-- The structures are left alone. -/
theorem word_apart (h : ChildTable m m' t c g) (hs : Sane m held live n) (ht : live t) (hg : 256 ≤ g)
    (h0 : m.memMap ((g : Int) - 256) = 0) {z : Nat} (hz : Apart held z) : m'.word z = m.word z := by
  have hz5 := hz.1
  refine h.word z (by omega) ?_ ?_
  · rcases hz.2 with hlow | hheld
    · omega
    · rintro rfl
      exact hs.held_free h0 hheld
  · rcases hs.table ht with h1 | ⟨h1, -, -, h4⟩
    · omega
    · rcases hz.2 with hlow | hheld
      · omega
      · intro hzF
        rw [← hzF] at h4
        exact h4 hheld

/-- The table is the only page that is taken. -/
theorem freePages (h : ChildTable m m' t c g) (hs : Sane m held live n) (ht : live t) (hg : 256 ≤ g) :
    m.freePages.erase (g - 256) ⊆ m'.freePages := by
  intro i hi
  rw [Finset.mem_erase, mem_freePages] at hi
  rcases hi with ⟨hig, hi, hi0⟩
  have hidx : ((i + 256 : Nat) : Int) - 256 = i := by omega
  refine mem_freePages.mpr ⟨hi, ?_⟩
  rcases h.map_page hs ht (by omega : i + 256 ≠ g) with hsame | ⟨-, hok⟩
  · rw [hidx] at hsame
    rw [hsame, hi0]
  · exact absurd (by rw [hidx]; exact hi0) hok.pos

end ChildTable

/-- The child gets a page table that names the frames of its parent's. -/
theorem copyTables {src dst : BitVec 32} (h : Sane m held live n) (ht : live t) (hn : n < 255)
    (hsrc : src.toNat = 67108864 * (t : Nat)) (hdst : dst.toNat = 67108864 * (c : Nat))
    (hto : 1#32 &&& m.word (16 * c) = 0) (hfree : m.freePages.Nonempty) :
    ∃ g m', copyPageTables src dst 0xa0000 m = .ok (m', 0) ∧
      Sane m' held (fun t' => t' = c ∨ live t') (n + 1) ∧ (∀ z, Apart held z → m'.word z = m.word z) ∧
      m.freePages.erase g ⊆ m'.freePages := by
  rcases getFreePage_eq hfree with ⟨g, hg, hg', h0, heq⟩
  rcases h.copyPageTables_childTable ht hsrc hdst hto hg hg' h0 heq with ⟨m', hcall, hchild⟩
  exact ⟨g - 256, m', hcall, hchild.sane h ht hn hg hg' h0, fun z hz => hchild.word_apart h ht hg h0 hz,
    hchild.freePages h ht hg⟩

/-! ## `un_wp_page` -/

variable {d i : Nat}

/-- The entry that is looked up is not in a structure. -/
theorem entry_apart (h : Sane m held live n) (hd : d < 1024) (hi : i < 1024) {z : Nat} (hz : Apart held z) :
    z ≠ 1024 * dirFrame m d + i := by
  have hz5 := hz.1
  intro heq
  have hframe : z / 1024 = dirFrame m d := by omega
  cases h.dir d hd with
  | none h0 =>
    rw [dirFrame, h0, frameOf_zero] at hframe
    omega
  | kernel h1 h5 => omega
  | table h1 h2 h3 h4 =>
    rcases hz.2 with hlow | hheld
    · omega
    · exact h4 (hframe ▸ hheld)

/-- An entry that has its write bit set again. -/
theorem unWp_once (h : Sane m held live n) {e : Nat} (hne : m.word e ≠ 0) :
    Sane (m.setWord e (m.word e ||| 2)) held live n := by
  have hframe : ∀ z, frameOf ((m.setWord e (m.word e ||| 2)).word z) = frameOf (m.word z) := by
    intro z
    by_cases hz : z = e
    · rw [hz, Memory.setWord_word_self, frameOf_or_two]
    · rw [Memory.setWord_word_ne hz]
  have hdf : ∀ d, dirFrame (m.setWord e (m.word e ||| 2)) d = dirFrame m d := fun d => hframe d
  have hpf : ∀ t p, pageFrame (m.setWord e (m.word e ||| 2)) t p = pageFrame m t p := by
    intro t p
    rw [pageFrame, hdf, hframe, pageFrame]
  refine ⟨h.heldUsed, fun d hd => ?_, fun t ht => ?_, fun t ht p hp hlow => ?_, fun t ht p hp q hq heq hlow => ?_⟩
  · cases h.dir d hd with
    | none hz =>
      refine .none ?_
      rw [Memory.setWord_word_ne, hz]
      rintro rfl
      exact hne hz
    | kernel h1 h5 => exact .kernel (by rwa [hdf]) (by rwa [hdf])
    | table h1 h2 h3 h4 => exact .table (by rwa [hdf]) (by rwa [hdf]) (by rwa [hdf]) (by rwa [hdf])
  · by_cases hz : 16 * (t : Nat) = e
    · have hpres := h.present t ht
      rw [hz] at hpres ⊢
      rwa [Memory.setWord_word_self, present_or_two]
    · rw [Memory.setWord_word_ne hz]
      exact h.present t ht
  · rw [hpf] at hlow ⊢
    have hok := h.page t ht p hp hlow
    exact ⟨hok.high, hok.pos, hok.count, hok.free, fun d hd => by rw [hdf]; exact hok.dir d hd⟩
  · rw [hpf] at heq hlow
    rw [hpf] at heq
    exact h.inj t ht p hp q hq heq hlow

/-- A frame in use stays in use, and is not counted more often. -/
theorem recopied_map {e f : Nat} (hno : ¬ (256 ≤ f ∧ m.memMap ((f : Int) - 256) = 1))
    (hcopied : Recopied m m' e f k) {j : Nat} (hj : m.memMap ((j : Int) - 256) ≠ 0) :
    m'.memMap ((j : Int) - 256) ≠ 0 ∧
      (m'.memMap ((j : Int) - 256)).toNat ≤ (m.memMap ((j : Int) - 256)).toNat := by
  have hjk : j ≠ k := by
    rintro rfl
    exact hj hcopied.free
  rw [hcopied.map j, if_neg hjk]
  by_cases hjf : Counted f ∧ j = f
  · rw [if_pos hjf]
    have hone : m.memMap ((j : Int) - 256) ≠ 1 := by
      rw [hjf.2]
      exact fun heq => hno ⟨hjf.1, heq⟩
    generalize m.memMap ((j : Int) - 256) = w at hj hone
    have hlt := w.isLt
    have hw : w.toNat ≠ 0 := fun hz => hj (BitVec.eq_of_toNat_eq hz)
    have hw1 : w.toNat ≠ 1 := fun hz => hone (BitVec.eq_of_toNat_eq hz)
    have hsub : (w - 1).toNat = w.toNat - 1 := by
      rw [BitVec.toNat_sub, show (1 : BitVec 8).toNat = 1 from rfl]
      omega
    refine ⟨fun hz => ?_, by omega⟩
    have htoNat := congrArg BitVec.toNat hz
    rw [hsub] at htoNat
    have hzero : w.toNat - 1 = 0 := htoNat
    omega
  · rw [if_neg hjf, BitVec.sub_zero]
    exact ⟨hj, Nat.le_refl _⟩

section Recopied

variable {e f : Nat}

theorem recopied_entry (hcopied : Recopied m m' e f k) : frameOf (m'.word e) = k := by
  have hk' := hcopied.high
  rw [hcopied.entry, frameOf_entry (by omega) (by decide)]

theorem recopied_dir (hcopied : Recopied m m' e f k) {d : Nat} (hd : d < 1024) (hde : d ≠ e) :
    m'.word d = m.word d := by
  have hk := hcopied.low
  exact hcopied.word d hde (by omega)

theorem recopied_dirFrame (hcopied : Recopied m m' e f k) {d : Nat} (hd : d < 1024) :
    dirFrame m' d = if d = e then k else dirFrame m d := by
  by_cases hde : d = e
  · rw [if_pos hde, dirFrame, hde, recopied_entry hcopied]
  · rw [if_neg hde, dirFrame, recopied_dir hcopied hd hde, dirFrame]

/-- The new frame is counted once. -/
theorem recopied_new (hcopied : Recopied m m' e f k) (hfk : f ≠ k) : m'.memMap ((k : Int) - 256) = 1 := by
  rw [hcopied.map k, if_pos rfl, if_neg fun hin => hfk hin.2.symm, BitVec.sub_zero]

/-- The page that a task had is there still, or is the new one. -/
theorem recopied_pageFrame (h : Sane m held live n) (hf : frameOf (m.word e) = f)
    (hcopied : Recopied m m' e f k) (ht : live t) {p : Nat} (hp : p < copiedPages t) :
    pageFrame m' t p = pageFrame m t p ∨
      (pageFrame m' t p = k ∧ f ≠ k ∧ 1024 ≤ e ∧ 1024 * dirFrame m (16 * t) + p = e) := by
  have hk := hcopied.low
  have ht64 := t.isLt
  have hp' := copiedPages_le t
  have hb := h.dirFrame_bounds ht
  have hbk := h.dirFrame_free hk hcopied.free (by omega : 16 * (t : Nat) < 1024)
  rw [pageFrame, recopied_dirFrame hcopied (by omega)]
  by_cases hte : 16 * (t : Nat) = e
  · left
    have hfF : f = dirFrame m (16 * t) := by rw [← hf, ← hte, dirFrame]
    rw [if_pos hte, hcopied.copy (by omega) (by omega) p (by omega) (by omega), pageFrame, hfF]
  · rw [if_neg hte]
    by_cases hpe : 1024 * dirFrame m (16 * t) + p = e
    · right
      rw [hpe, recopied_entry hcopied]
      refine ⟨rfl, ?_, by omega, rfl⟩
      have hpage := h.pageFrame_free hk hcopied.free ht hp
      rwa [pageFrame, hpe, hf] at hpage
    · left
      rw [hcopied.word _ hpe (by omega), pageFrame]

/-- An entry that names a page of its own from then on. -/
theorem unWp_recopied (h : Sane m held live n) (hn : 1 ≤ n) (hf : frameOf (m.word e) = f)
    (hno : ¬ (256 ≤ f ∧ m.memMap ((f : Int) - 256) = 1)) (hcopied : Recopied m m' e f k) :
    Sane m' held live n where
  heldUsed f' hf' := by
    have hused := h.heldUsed f' hf'
    exact ⟨hused.1, hused.2.1, (recopied_map hno hcopied hused.2.2).1⟩
  dir d hd := by
    by_cases hde : d = e
    · have hfk : f ≠ k := by
        rw [← hf, ← hde]
        exact h.dirFrame_free hcopied.low hcopied.free hd
      have hdf : dirFrame m' d = k := (recopied_dirFrame hcopied hd).trans (if_pos hde)
      refine .table (by rw [hdf]; exact hcopied.low) (by rw [hdf]; exact hcopied.high) ?_
        (by rw [hdf]; exact h.held_free hcopied.free)
      rw [hdf, recopied_new hcopied hfk]
      decide
    · exact (h.dir d hd).congr (recopied_dir hcopied hd hde) fun _ hpos =>
        ⟨(recopied_map hno hcopied hpos).1, id⟩
  present t ht := by
    by_cases hte : 16 * (t : Nat) = e
    · rw [hte, hcopied.entry]
      exact present_entry hcopied.high (Or.inr rfl)
    · have ht64 := t.isLt
      rw [recopied_dir hcopied (by omega) hte]
      exact h.present t ht
  page t ht p hp hlow := by
    rcases recopied_pageFrame h hf hcopied ht hp with hsame | ⟨hnew, hfk, he, -⟩
    · rw [hsame] at hlow ⊢
      have hok := h.page t ht p hp hlow
      rcases recopied_map hno hcopied hok.pos with ⟨hpos, hle⟩
      refine ⟨hok.high, hpos, hle.trans hok.count, hok.free, fun d hd => ?_⟩
      rw [recopied_dirFrame hcopied hd]
      by_cases hde : d = e
      · rw [if_pos hde]
        exact (h.pageFrame_free hcopied.low hcopied.free ht hp).symm
      · rw [if_neg hde]
        exact hok.dir d hd
    · rw [hnew]
      refine ⟨hcopied.high, ?_, ?_, h.held_free hcopied.free, fun d hd => ?_⟩
      · rw [recopied_new hcopied hfk]
        decide
      · rw [recopied_new hcopied hfk]
        exact hn
      · rw [recopied_dirFrame hcopied hd, if_neg (by omega)]
        exact h.dirFrame_free hcopied.low hcopied.free hd
  inj t ht p hp q hq heq hlow := by
    have hkp : ∀ p < copiedPages t, pageFrame m t p ≠ k :=
      fun p hp => h.pageFrame_free hcopied.low hcopied.free ht hp
    rcases recopied_pageFrame h hf hcopied ht hp with hsame | ⟨hnew, -, -, hpe⟩
    · rcases recopied_pageFrame h hf hcopied ht hq with hsame' | ⟨hnew', -, -, -⟩
      · rw [hsame] at heq hlow
        rw [hsame'] at heq
        exact h.inj t ht p hp q hq heq hlow
      · rw [hsame, hnew'] at heq
        exact absurd heq (hkp p hp)
    · rcases recopied_pageFrame h hf hcopied ht hq with hsame' | ⟨-, -, -, hqe⟩
      · rw [hnew, hsame'] at heq
        exact absurd heq.symm (hkp q hq)
      · omega

end Recopied

/-- `un_wp_page` for the entry of any linear address. -/
theorem unWpPage (h : Sane m held live n) (hn : 1 ≤ n) (hd : d < 1024) (hi : i < 1024)
    (hfree : m.freePages.Nonempty ∨ (256 ≤ frameOf (m.word (1024 * dirFrame m d + i)) ∧
      m.memMap ((frameOf (m.word (1024 * dirFrame m d + i)) : Int) - 256) = 1)) :
    ∃ x y, Sane (Mm.unWpPage (wordAddr (1024 * dirFrame m d + i)) m) held live n ∧
      (∀ z, Apart held z → (Mm.unWpPage (wordAddr (1024 * dirFrame m d + i)) m).word z = m.word z) ∧
      (m.freePages.erase x).erase y ⊆ (Mm.unWpPage (wordAddr (1024 * dirFrame m d + i)) m).freePages := by
  have hdlt := frameOf_lt (m.word d)
  have he : 1024 * dirFrame m d + i < 2 ^ 30 := by
    unfold dirFrame
    omega
  have hap : ∀ z, Apart held z → z ≠ 1024 * dirFrame m d + i := fun z hz => h.entry_apart hd hi hz
  generalize 1024 * dirFrame m d + i = e at he hap hfree
  obtain ⟨f, hf⟩ : ∃ f, frameOf (m.word e) = f := ⟨_, rfl⟩
  by_cases honce : 256 ≤ f ∧ m.memMap ((f : Int) - 256) = 1
  · have hne : m.word e ≠ 0 := by
      intro hz
      rw [hz, frameOf_zero] at hf
      omega
    rw [unWpPage_once he hf honce.1 honce.2]
    refine ⟨0, 0, h.unWp_once hne, fun z hz => Memory.setWord_word_ne (hap z hz), fun j hj => ?_⟩
    rw [Finset.mem_erase, Finset.mem_erase, mem_freePages] at hj
    exact mem_freePages.mpr hj.2.2
  · rw [hf] at hfree
    rcases unWpPage_recopied he hf honce (hfree.resolve_right honce) with ⟨k, hcopied⟩
    refine ⟨k - 256, f - 256, h.unWp_recopied hn hf honce hcopied, fun z hz => ?_, fun j hj => ?_⟩
    · refine hcopied.word z (hap z hz) ?_
      rcases hz.2 with hlow | hheld
      · have := hcopied.low
        omega
      · rintro rfl
        exact h.held_free hcopied.free hheld
    · rw [Finset.mem_erase, Finset.mem_erase, mem_freePages] at hj
      rcases hj with ⟨hjf, hjk, hlt, h0⟩
      have hmap := hcopied.map (j + 256)
      have hidx : ((j + 256 : Nat) : Int) - 256 = j := by omega
      rw [if_neg (by omega), if_neg fun hin => hjf (by omega), BitVec.sub_zero, hidx] at hmap
      exact mem_freePages.mpr ⟨hlt, hmap.trans h0⟩

end Sane

end MockOs.Mm
