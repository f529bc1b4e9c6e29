import Mathlib.Data.Fintype.Card
import MockOs.Misc.Cow
import MockOs.Mm.Proofs.Memory
import MockOs.Misc.Bits

/-!
# Page tables as a copy-on-write state

`Rep` relates the memory to the state of `Misc/Cow.lean`: the address spaces are the 64
slots of `task[]`, the pages those of the first 640 KB of a task, and the frames from 1 MB on
are counted. Task 0 runs on the identity mapping.
-/

namespace MockOs.Mm

/-! ## Entries -/

/-- A directory or table entry: a frame with its flags. -/
def entry (f c : Nat) : BitVec 32 := BitVec.ofNat 32 (4096 * f + c)

section Entry

variable {f c m : Nat}

theorem toNat_entry (hf : f < 2 ^ 20) (hc : c < 4096) : (entry f c).toNat = 4096 * f + c := by
  rw [entry, BitVec.toNat_ofNat, Nat.mod_eq_of_lt (by omega)]

theorem entry_ne_zero (hf : f < 2 ^ 20) (hc : c < 4096) (h0 : 0 < c) : entry f c ≠ 0 := by
  intro h
  have htoNat := congrArg BitVec.toNat h
  rw [toNat_entry hf hc] at htoNat
  have hzero : 4096 * f + c = 0 := htoNat
  omega

theorem wordAddr_frame (f : Nat) : wordAddr (1024 * f) = entry f 0 := by
  rw [wordAddr, entry, show 4 * (1024 * f) = 4096 * f + 0 by omega]

/-- A mask that keeps the frame works on the flags. -/
theorem entry_and {M : BitVec 32} (hM : M.toNat = 4096 * 0xfffff + m) (hf : f < 2 ^ 20) (hc : c < 4096)
    (hm : m < 4096) : entry f c &&& M = entry f (c &&& m) := by
  have hcm : c &&& m < 2 ^ 12 := Nat.and_lt_two_pow c hm
  have hframe : f &&& 0xfffff = f := by
    rw [show (0xfffff : Nat) = 2 ^ 20 - 1 from rfl, Nat.and_two_pow_sub_one_eq_mod,
      Nat.mod_eq_of_lt hf]
  apply BitVec.eq_of_toNat_eq
  rw [BitVec.toNat_and, toNat_entry hf hc, hM, toNat_entry hf hcm]
  rw [show (4096 : Nat) = 2 ^ 12 from rfl, Bits.and_split 12 _ _ hc hm, hframe]

/-- A mask that drops the frame keeps flags. -/
theorem entry_and_low {M : BitVec 32} (hM : M.toNat = m) (hf : f < 2 ^ 20) (hc : c < 4096)
    (hm : m < 4096) : (entry f c &&& M).toNat = c &&& m := by
  have hsplit := Bits.and_split 12 f 0 hc hm
  rw [BitVec.toNat_and, toNat_entry hf hc, hM]
  simpa using hsplit

/-- An entry that is present has its first bit set. -/
theorem present_entry {f k : Nat} (hf : f < 4096) (hk : k = 5 ∨ k = 7) : 1#32 &&& entry f k ≠ 0 := by
  intro hz
  have htoNat := congrArg BitVec.toNat hz
  rw [BitVec.and_comm, entry_and_low (m := 1) (by decide) (by omega) (by omega) (by decide)] at htoNat
  rcases hk with rfl | rfl <;> exact absurd htoNat (by decide)

theorem entry_or {M : BitVec 32} (hM : M.toNat = m) (hf : f < 2 ^ 20) (hc : c < 4096)
    (hm : m < 4096) : entry f c ||| M = entry f (c ||| m) := by
  have hcm : c ||| m < 2 ^ 12 := Nat.or_lt_two_pow hc hm
  have hsplit := Bits.or_split 12 f 0 hc hm
  apply BitVec.eq_of_toNat_eq
  rw [BitVec.toNat_or, toNat_entry hf hc, hM, toNat_entry hf hcm]
  simpa using hsplit

theorem page_entry (hf : f < 2 ^ 20) (hc : c < 4096) :
    0xfffff000#32 &&& entry f c = wordAddr (1024 * f) := by
  rw [BitVec.and_comm, entry_and (m := 0) (by decide) hf hc (by decide), Nat.and_zero, wordAddr_frame]

theorem mapNr_entry (hf : f < 2 ^ 20) (hlow : 256 ≤ f) (hc : c < 4096) :
    mapNr (entry f c) = (f : Int) - 256 := by
  have hsub : (entry f c - lowMem).toNat = 4096 * (f - 256) + c := by
    rw [BitVec.toNat_sub, toNat_entry hf hc]
    have hl : lowMem.toNat = 1048576 := rfl
    rw [hl]
    omega
  rw [mapNr, BitVec.toNat_ushiftRight, hsub, Nat.shiftRight_eq_div_pow]
  omega

theorem entry_gt_lowMem (hf : f < 2 ^ 20) (hc : c < 4096) (h0 : 0 < c) :
    entry f c > lowMem ↔ 256 ≤ f := by
  have hl : lowMem.toNat = 1048576 := rfl
  rw [gt_iff_lt, BitVec.lt_def, toNat_entry hf hc, hl]
  omega

theorem entry_ge_lowMem (hf : f < 2 ^ 20) (hc : c < 4096) :
    entry f c ≥ lowMem ↔ 256 ≤ f := by
  have hl : lowMem.toNat = 1048576 := rfl
  rw [ge_iff_le, BitVec.le_def, toNat_entry hf hc, hl]
  omega

end Entry

/-! ## The representation -/

/-- The frames that `mem_map` counts. -/
def Counted (f : Nat) : Prop := 256 ≤ f

instance : DecidablePred Counted := fun f => inferInstanceAs (Decidable (256 ≤ f))

/-- The entry of a page table: a page that is mapped is present for the user, and writable or
not. -/
def pteWord : Option Nat → Bool → BitVec 32
  | none, _ => 0
  | some f, wr => entry f (if wr then 7 else 5)

/-- The directory entry of a task. -/
def tabWord : Option Nat → BitVec 32
  | none => 0
  | some g => entry g 7

/-- Copy-on-write states of the tasks; the contents of a frame are its words. -/
abbrev Spaces := Cow.State (Fin 64) Nat Nat (Nat → BitVec 32)

/-- Memory `s` holds the address spaces `a`, with the page table of task `t` in frame `tab t`.
`vis` are the words of an address space whose contents are kept track of. -/
structure Rep (vis : Nat → Prop) (s : Memory) (tab : Fin 64 → Option Nat) (a : Spaces) : Prop where
  inv : Cow.Inv Counted a
  dirKernel : ∀ d < 4, s.word d = entry (d + 1) 7
  dirTask : ∀ t : Fin 64, t ≠ 0 → s.word (16 * t) = tabWord (tab t)
  dirRest : ∀ d < 1024, 4 ≤ d → d % 16 ≠ 0 → s.word d = 0
  kernel : ∀ i < 4096, s.word (1024 + i) = entry i 7
  table : ∀ t g, tab t = some g → ∀ i < 1024, s.word (1024 * g + i) = pteWord (a.pte t i) (a.wr t i)
  tabZero : tab 0 = none
  tabOwn : ∀ t g, tab t = some g → a.own g = true
  tabInj : ∀ t t' g, tab t = some g → tab t' = some g → t = t'
  ownHigh : ∀ g, a.own g = true → 1024 ≤ g ∧ g < 4096
  unmapped : ∀ t, t ≠ 0 → tab t = none → ∀ p, a.pte t p = none
  zero : ∀ p, a.pte 0 p = if p < 160 then some p else none
  frame : ∀ t p f, a.pte t p = some f → p < 160 ∧ (f = p ∨ 1024 ≤ f ∧ f < 4096)
  map : ∀ f : Nat, 1024 ≤ f → f < 4096 → s.memMap ((f : Int) - 256) = BitVec.ofNat 8 (a.rc f)
  mapUsed : ∀ f : Nat, 256 ≤ f → f < 1024 → s.memMap ((f : Int) - 256) = used
  visHigh : ∀ x, vis x → 5120 ≤ x
  mem : ∀ t p f i, a.pte t p = some f → i < 1024 → vis (1024 * p + i) → s.word (1024 * f + i) = a.mem f i

namespace Rep

variable {vis : Nat → Prop} {s : Memory} {tab : Fin 64 → Option Nat} {a : Spaces} {t c : Fin 64}
  {f g p : Nat}

/-- Task 0 is no user of a counted frame. -/
theorem users_ne_zero (h : Rep vis s tab a) (hf : 256 ≤ f) : (0 : Fin 64) ∉ Cow.users a f := by
  intro hmem
  rcases Cow.mem_users.mp hmem with ⟨p, hp⟩
  rw [h.zero] at hp
  split at hp
  · have hpf : p = f := Option.some.inj hp
    omega
  · cases hp

/-- The reference counts stay below 64. -/
theorem rc_le (h : Rep vis s tab a) (hf : 256 ≤ f) : a.rc f ≤ 63 := by
  have hcount := h.inv.count f hf
  cases hown : a.own f with
  | true =>
    have hempty : Cow.users a f = ∅ := by
      apply Finset.eq_empty_of_forall_notMem
      intro t hmem
      rcases Cow.mem_users.mp hmem with ⟨p, hp⟩
      exact (h.inv.owned f hown).2 t p hp
    rw [hown, hempty] at hcount
    simp at hcount
    omega
  | false =>
    have hsub : Cow.users a f ⊆ Finset.univ.erase 0 := by
      intro t hmem
      rw [Finset.mem_erase]
      refine ⟨?_, Finset.mem_univ t⟩
      rintro rfl
      exact h.users_ne_zero hf hmem
    have hcard := Finset.card_le_card hsub
    rw [Finset.card_erase_of_mem (Finset.mem_univ _), Finset.card_univ, Fintype.card_fin] at hcard
    rw [hown] at hcount
    simp at hcount
    omega

/-- A frame is free in `mem_map` when its count is 0. -/
theorem map_eq_zero (h : Rep vis s tab a) {i : Nat} (hi : i < 3840) :
    s.memMap i = 0 ↔ 768 ≤ i ∧ a.rc (i + 256) = 0 := by
  by_cases hlow : 768 ≤ i
  · have hmap := h.map (i + 256) (by omega) (by omega)
    have hle := h.rc_le (f := i + 256) (by omega)
    rw [show ((i + 256 : Nat) : Int) - 256 = i by omega] at hmap
    rw [hmap]
    refine ⟨fun h0 => ⟨hlow, ?_⟩, fun h0 => by rw [h0.2]; rfl⟩
    have htoNat := congrArg BitVec.toNat h0
    rw [BitVec.toNat_ofNat, Nat.mod_eq_of_lt (by omega)] at htoNat
    exact htoNat
  · have hmap := h.mapUsed (i + 256) (by omega) (by omega)
    rw [show ((i + 256 : Nat) : Int) - 256 = i by omega] at hmap
    rw [hmap]
    exact ⟨fun h0 => absurd h0 (by decide), fun h0 => absurd h0.1 hlow⟩

theorem tab_high (h : Rep vis s tab a) (ht : tab t = some g) : 1024 ≤ g ∧ g < 4096 :=
  h.ownHigh g (h.tabOwn t g ht)

theorem frame_lt (h : Rep vis s tab a) (hf : a.pte t p = some f) : f < 4096 := by
  rcases h.frame t p f hf with ⟨hp, hlow | hhigh⟩ <;> omega

/-- A page with a place that is kept track of is not in the frames of the page directory and the
kernel's page tables. -/
theorem frame_high (h : Rep vis s tab a) (hf : a.pte t p = some f) {i : Nat} (hi : i < 1024)
    (hvis : vis (1024 * p + i)) : 5 ≤ f := by
  have hge := h.visHigh _ hvis
  rcases h.frame t p f hf with ⟨hp, hlow | hhigh⟩ <;> omega

/-- A page that may be written is in a frame above 4 MB. -/
theorem wr_high (h : Rep vis s tab a) (hwr : a.wr t p = true) :
    ∃ f, a.pte t p = some f ∧ 1024 ≤ f ∧ f < 4096 := by
  rcases h.inv.excl t p hwr with ⟨f, hf, hcounted, -⟩
  have hlow : 256 ≤ f := hcounted
  rcases h.frame t p f hf with ⟨hp, hfp | hhigh⟩
  · omega
  · exact ⟨f, hf, hhigh⟩

/-- A free frame is no page table and is mapped by nobody. -/
theorem free (h : Rep vis s tab a) (hg : 1024 ≤ g) (h0 : a.rc g = 0) :
    (∀ t, tab t ≠ some g) ∧ ∀ t p, a.pte t p ≠ some g := by
  rcases h.inv.free (show Counted g from by unfold Counted; omega) h0 with ⟨hpte, hown⟩
  refine ⟨fun t ht => ?_, hpte⟩
  rw [h.tabOwn t g ht] at hown
  cases hown

/-! ### Words that do not matter -/

/-- Words that are in no directory and no table, and in no page at a place that is kept track
of. -/
def Hidden (vis : Nat → Prop) (tab : Fin 64 → Option Nat) (a : Spaces) (x : Nat) : Prop :=
  5120 ≤ x ∧ (∀ t, tab t ≠ some (x / 1024)) ∧
    ∀ t p, a.pte t p = some (x / 1024) → ¬ vis (1024 * p + x % 1024)

theorem congr {s' : Memory} (h : Rep vis s tab a) (hmap : s'.memMap = s.memMap)
    (hword : ∀ x, s'.word x = s.word x ∨ Hidden vis tab a x) : Rep vis s' tab a := by
  have hlow : ∀ x, x < 5120 → s'.word x = s.word x := by
    intro x hx
    rcases hword x with heq | ⟨hge, -, -⟩
    · exact heq
    · omega
  refine { h with
    dirKernel := fun d hd => ?_, dirTask := fun t ht => ?_, dirRest := fun d hd h4 h16 => ?_,
    kernel := fun i hi => ?_, table := fun t g ht i hi => ?_, map := fun f hf hf' => ?_,
    mapUsed := fun f hf hf' => ?_, mem := fun t p f i hp hi hvis => ?_ }
  · rw [hlow d (by omega)]
    exact h.dirKernel d hd
  · rw [hlow (16 * t) (by omega)]
    exact h.dirTask t ht
  · rw [hlow d (by omega)]
    exact h.dirRest d hd h4 h16
  · rw [hlow (1024 + i) (by omega)]
    exact h.kernel i hi
  · rw [← h.table t g ht i hi]
    rcases hword (1024 * g + i) with heq | ⟨-, hno, -⟩
    · exact heq
    · rw [show (1024 * g + i) / 1024 = g by omega] at hno
      exact absurd ht (hno t)
  · rw [hmap]
    exact h.map f hf hf'
  · rw [hmap]
    exact h.mapUsed f hf hf'
  · rw [← h.mem t p f i hp hi hvis]
    rcases hword (1024 * f + i) with heq | ⟨-, -, hno⟩
    · exact heq
    · rw [show (1024 * f + i) / 1024 = f by omega, show (1024 * f + i) % 1024 = i by omega] at hno
      exact absurd hvis (hno t p hp)

/-- A free frame can be filled. -/
theorem fill_free (h : Rep vis s tab a) (hg : 1024 ≤ g) (h0 : a.rc g = 0) (v : Nat → BitVec 32) :
    Rep vis (s.fill g v) tab a := by
  rcases h.free hg h0 with ⟨htab, hpte⟩
  refine h.congr rfl fun x => ?_
  by_cases hx : x / 1024 = g
  · refine Or.inr ⟨by omega, ?_, ?_⟩
    · rw [hx]
      exact htab
    · rw [hx]
      exact fun t p hp => absurd hp (hpte t p)
  · exact Or.inl (Memory.fill_word_ne v hx)

/-! ### Taking a frame -/

theorem alloc (h : Rep vis s tab a) (hg : 1024 ≤ g) (hg' : g < 4096) (h0 : a.rc g = 0)
    (v : Nat → BitVec 32) : Rep vis (s.setMap ((g : Int) - 256) 1) tab (Cow.alloc a g v) := by
  have hcounted : Counted g := by unfold Counted; omega
  rcases h.free hg h0 with ⟨htab, hpte⟩
  refine { h with
    inv := h.inv.alloc hcounted h0 v, tabOwn := fun t g' ht => ?_, ownHigh := fun g' hown => ?_,
    map := fun f hf hf' => ?_, mapUsed := fun f hf hf' => ?_,
    mem := fun t p f i hp hi hvis => ?_ }
  · show Function.update a.own g true g' = true
    by_cases hgg : g' = g
    · rw [hgg, Function.update_self]
    · rw [Function.update_of_ne hgg]
      exact h.tabOwn t g' ht
  · by_cases hgg : g' = g
    · rw [hgg]
      exact ⟨hg, hg'⟩
    · have hown' : Function.update a.own g true g' = true := hown
      rw [Function.update_of_ne hgg] at hown'
      exact h.ownHigh g' hown'
  · show Function.update s.memMap _ 1 _ = BitVec.ofNat 8 (Function.update a.rc g 1 f)
    by_cases hfg : f = g
    · rw [hfg, Function.update_self, Function.update_self]
      rfl
    · rw [Function.update_of_ne (by omega), Function.update_of_ne hfg]
      exact h.map f hf hf'
  · show Function.update s.memMap _ 1 _ = used
    rw [Function.update_of_ne (by omega)]
    exact h.mapUsed f hf hf'
  · have hfg : f ≠ g := by
      rintro rfl
      exact hpte t p hp
    show s.word (1024 * f + i) = Function.update a.mem g v f i
    rw [Function.update_of_ne hfg]
    exact h.mem t p f i hp hi hvis

/-- A frame that is free in `mem_map` is above 4 MB. -/
theorem frame_free (h : Rep vis s tab a) (hlow : 256 ≤ g) (hhigh : g < 4096)
    (h0 : s.memMap ((g : Int) - 256) = 0) : 1024 ≤ g ∧ a.rc g = 0 := by
  have hidx : (g : Int) - 256 = ((g - 256 : Nat) : Int) := by omega
  rw [hidx, h.map_eq_zero (by omega), show g - 256 + 256 = g by omega] at h0
  exact ⟨by omega, h0.2⟩

/-- With a free page, `get_free_page` finds a frame above 4 MB. -/
theorem getFreePage_eq (h : Rep vis s tab a) (hfree : s.freePages.Nonempty) :
    ∃ g : Nat, 1024 ≤ g ∧ g < 4096 ∧ a.rc g = 0 ∧
      getFreePage s = ((s.setMap ((g : Int) - 256) 1).fill g fun _ => 0, wordAddr (1024 * g)) := by
  rcases Mm.getFreePage_eq hfree with ⟨g, hlow, hhigh, h0, heq⟩
  rcases h.frame_free hlow hhigh h0 with ⟨hg, hrc⟩
  exact ⟨g, hg, hhigh, hrc, heq⟩

/-! ### A new page table -/

theorem addTable (h : Rep vis s tab a) (hc : c ≠ 0) (hnone : tab c = none) (hown : a.own g = true)
    (hnew : ∀ t, tab t ≠ some g) (hzero : ∀ i < 1024, s.word (1024 * g + i) = 0) :
    Rep vis (s.setWord (16 * c) (entry g 7)) (Function.update tab c (some g)) a := by
  have hg := h.ownHigh g hown
  have hother : ∀ x : Nat, x ≠ 16 * c → (s.setWord (16 * c) (entry g 7)).word x = s.word x :=
    fun x hx => Memory.setWord_word_ne hx
  have hc64 := c.isLt
  have hcpos : 0 < (c : Nat) := Fin.pos_iff_ne_zero.mpr hc
  refine { h with
    dirKernel := fun d hd => ?_, dirTask := fun t ht => ?_, dirRest := fun d hd h4 h16 => ?_,
    kernel := fun i hi => ?_, table := fun t g' ht i hi => ?_, tabZero := ?_,
    tabOwn := fun t g' ht => ?_, tabInj := fun t t' g' ht ht' => ?_,
    unmapped := fun t ht hno p => ?_, mem := fun t p f i hp hi hvis => ?_ }
  · rw [hother d (by omega)]
    exact h.dirKernel d hd
  · by_cases htc : t = c
    · rw [htc, Memory.setWord_word_self, Function.update_self]
      rfl
    · have hne : (16 * t : Nat) ≠ 16 * c := by
        intro heq
        exact htc (Fin.ext (by omega))
      rw [hother _ hne, Function.update_of_ne htc]
      exact h.dirTask t ht
  · rw [hother d (by omega)]
    exact h.dirRest d hd h4 h16
  · rw [hother _ (by omega)]
    exact h.kernel i hi
  · by_cases htc : t = c
    · subst htc
      rw [Function.update_self] at ht
      obtain rfl : g = g' := Option.some.inj ht
      rw [hother _ (by omega), hzero i hi, h.unmapped t hc hnone]
      rfl
    · rw [Function.update_of_ne htc] at ht
      have hg' := h.tab_high ht
      rw [hother _ (by omega)]
      exact h.table t g' ht i hi
  · rw [Function.update_of_ne (Ne.symm hc)]
    exact h.tabZero
  · by_cases htc : t = c
    · subst htc
      rw [Function.update_self] at ht
      obtain rfl : g = g' := Option.some.inj ht
      exact hown
    · rw [Function.update_of_ne htc] at ht
      exact h.tabOwn t g' ht
  · by_cases htc : t = c
    · by_cases htc' : t' = c
      · rw [htc, htc']
      · rw [htc, Function.update_self] at ht
        rw [Function.update_of_ne htc', ← ht] at ht'
        exact absurd ht' (hnew t')
    · by_cases htc' : t' = c
      · rw [htc', Function.update_self] at ht'
        rw [Function.update_of_ne htc, ← ht'] at ht
        exact absurd ht (hnew t)
      · rw [Function.update_of_ne htc] at ht
        rw [Function.update_of_ne htc'] at ht'
        exact h.tabInj t t' g' ht ht'
  · by_cases htc : t = c
    · subst htc
      exact h.unmapped t hc hnone p
    · rw [Function.update_of_ne htc] at hno
      exact h.unmapped t ht hno p
  · have hhigh := h.frame_high hp hi hvis
    rw [hother _ (by omega)]
    exact h.mem t p f i hp hi hvis

/-! ### Changing table entries -/

/-- Changes to the tables of the tasks and to the counts leave the directory, the kernel's
tables and task 0 alone. -/
theorem retable {s' : Memory} {a' : Spaces} (h : Rep vis s tab a) (hinv : Cow.Inv Counted a')
    (hown : a'.own = a.own) (hlow : ∀ x, x < 5120 → s'.word x = s.word x)
    (htable : ∀ t g, tab t = some g → ∀ i < 1024,
      s'.word (1024 * g + i) = pteWord (a'.pte t i) (a'.wr t i))
    (hsame : ∀ t p, t = 0 ∨ tab t = none → a'.pte t p = a.pte t p)
    (hframe : ∀ t p f, a'.pte t p = some f → p < 160 ∧ (f = p ∨ 1024 ≤ f ∧ f < 4096))
    (hmap : ∀ f : Nat, 1024 ≤ f → f < 4096 → s'.memMap ((f : Int) - 256) = BitVec.ofNat 8 (a'.rc f))
    (hused : ∀ f : Nat, 256 ≤ f → f < 1024 → s'.memMap ((f : Int) - 256) = s.memMap ((f : Int) - 256))
    (hmem : ∀ t p f i, a'.pte t p = some f → i < 1024 → vis (1024 * p + i) →
      s'.word (1024 * f + i) = a'.mem f i) : Rep vis s' tab a' where
  inv := hinv
  dirKernel d hd := by
    rw [hlow d (by omega)]
    exact h.dirKernel d hd
  dirTask t ht := by
    rw [hlow (16 * t) (by omega)]
    exact h.dirTask t ht
  dirRest d hd h4 h16 := by
    rw [hlow d (by omega)]
    exact h.dirRest d hd h4 h16
  kernel i hi := by
    rw [hlow (1024 + i) (by omega)]
    exact h.kernel i hi
  table := htable
  tabZero := h.tabZero
  tabOwn t g ht := by
    rw [hown]
    exact h.tabOwn t g ht
  tabInj := h.tabInj
  ownHigh g hg := h.ownHigh g (by rwa [hown] at hg)
  unmapped t ht hno p := by
    rw [hsame t p (Or.inr hno)]
    exact h.unmapped t ht hno p
  zero p := by
    rw [hsame 0 p (Or.inl rfl)]
    exact h.zero p
  frame := hframe
  map := hmap
  mapUsed f hf hf' := by
    rw [hused f hf hf']
    exact h.mapUsed f hf hf'
  visHigh := h.visHigh
  mem := hmem

/-- A page that is not mapped is not writable. -/
theorem wr_of_none (h : Rep vis s tab a) (hnone : a.pte t p = none) : a.wr t p = false := by
  by_contra hw
  rcases h.wr_high (by simpa using hw) with ⟨f, hf, -⟩
  rw [hnone] at hf
  cases hf

/-- Two entries of page tables at the same place are entries of the same task. -/
theorem table_inj (h : Rep vis s tab a) {t' : Fin 64} {g' i j : Nat} (ht : tab t = some g)
    (ht' : tab t' = some g') (hi : i < 1024) (hj : j < 1024) (heq : 1024 * g' + j = 1024 * g + i) :
    t' = t ∧ j = i := by
  have hgg : g' = g := by omega
  rw [hgg] at ht'
  exact ⟨h.tabInj t' t g ht' ht, by omega⟩

/-- One page is shared: the child's entry is new, and for a counted frame the parent's entry
loses the write bit and the count goes up. -/
theorem share {s' : Memory} (h : Rep vis s tab a) (hct : c ≠ t) (hc : tab c = some g) {i : Nat}
    (hi : i < 1024) (hf : a.pte t i = some f) (hcnone : a.pte c i = none)
    (hchild : s'.word (1024 * g + i) = entry f 5)
    (hparent : Counted f → ∀ gt, tab t = some gt → s'.word (1024 * gt + i) = entry f 5)
    (hword : ∀ x, x ≠ 1024 * g + i → (∀ gt, Counted f → tab t = some gt → x ≠ 1024 * gt + i) →
      s'.word x = s.word x)
    (hmap : ∀ j : Nat, s'.memMap ((j : Int) - 256) =
      if Counted f ∧ j = f then s.memMap ((j : Int) - 256) + 1 else s.memMap ((j : Int) - 256)) :
    Rep vis s' tab (Cow.share Counted a t c i f) := by
  have hg := h.tab_high hc
  have hfi := h.frame t i f hf
  have hc0 : c ≠ 0 := by
    rintro rfl
    rw [h.tabZero] at hc
    cases hc
  have hpte : ∀ {t' p' f'}, (Cow.share Counted a t c i f).pte t' p' = some f' ↔
      (t' = c ∧ p' = i ∧ f' = f) ∨ a.pte t' p' = some f' := Cow.set2_some hcnone
  refine h.retable (h.inv.share hf hcnone) rfl (fun x hx => ?_) (fun t' g' ht' j hj => ?_)
    (fun t' p hsame => ?_) (fun t' p f' hp => ?_) (fun f' h1 h2 => ?_) (fun f' h1 h2 => ?_)
    (fun t' p f' j hp hj hvis => ?_)
  · refine hword x (by omega) fun gt _ ht => ?_
    have hgt := h.tab_high ht
    omega
  · rw [Cow.share_wr]
    show s'.word (1024 * g' + j) = pteWord (Cow.set2 a.pte c i (some f) t' j) _
    by_cases htc : t' = c ∧ j = i
    · rcases htc with ⟨rfl, rfl⟩
      obtain rfl : g = g' := Option.some.inj (hc.symm.trans ht')
      rw [hchild, Cow.set2_self, if_neg fun h' => hct h'.2.1, h.wr_of_none hcnone]
      rfl
    · rw [Cow.set2_ne htc]
      by_cases htt : Counted f ∧ t' = t ∧ j = i
      · rcases htt with ⟨hcf, rfl, rfl⟩
        rw [hparent hcf g' ht', if_pos ⟨hcf, rfl, rfl⟩, hf]
        rfl
      · rw [if_neg htt, ← h.table t' g' ht' j hj]
        refine hword _ (fun heq => htc (h.table_inj hc ht' hi hj heq)) fun gt hcf ht heq => ?_
        exact htt ⟨hcf, h.table_inj ht ht' hi hj heq⟩
  · show Cow.set2 a.pte c i (some f) t' p = _
    apply Cow.set2_ne
    rintro ⟨rfl, -⟩
    rcases hsame with h0 | hno
    · exact hc0 h0
    · rw [hc] at hno
      cases hno
  · rcases hpte.mp hp with ⟨-, rfl, rfl⟩ | hp'
    · exact hfi
    · exact h.frame t' p f' hp'
  · rw [Cow.share_rc, hmap, h.map f' h1 h2]
    split
    · rw [BitVec.ofNat_add]
      rfl
    · rfl
  · rw [hmap, if_neg]
    rintro ⟨hcf, rfl⟩
    have hcf' : 256 ≤ f' := hcf
    omega
  · have hp' : ∃ t'', a.pte t'' p = some f' := by
      rcases hpte.mp hp with ⟨-, rfl, rfl⟩ | hp'
      · exact ⟨t, hf⟩
      · exact ⟨t', hp'⟩
    rcases hp' with ⟨t'', hp''⟩
    have hnotab : ∀ t1 g1, tab t1 = some g1 → f' ≠ g1 := by
      rintro t1 g1 h1 rfl
      exact (h.inv.owned f' (h.tabOwn t1 f' h1)).2 t'' p hp''
    have hfg := hnotab c g hc
    have heq : s'.word (1024 * f' + j) = s.word (1024 * f' + j) := by
      refine hword _ (by omega) fun gt _ ht => ?_
      have hgt := hnotab t gt ht
      omega
    rw [heq]
    exact h.mem t'' p f' j hp'' hj hvis

/-- The entries `copy_page_tables` reads: those of the parent's table, or the first 160 of the
kernel's first table. -/
structure Source (tab : Fin 64 → Option Nat) (t : Fin 64) (gs n : Nat) : Prop where
  kernel : t = 0 → gs = 1 ∧ n ≤ 160
  task : t ≠ 0 → tab t = some gs ∧ n ≤ 1024

theorem Source.frame_lt {gs n : Nat} (hsrc : Source tab t gs n) (h : Rep vis s tab a) : gs < 4096 := by
  by_cases ht : t = 0
  · have hgs := (hsrc.kernel ht).1
    omega
  · exact (h.tab_high (hsrc.task ht).1).2

/-- What is read there. -/
theorem source_word (h : Rep vis s tab a) {gs n i : Nat} (hsrc : Source tab t gs n) (hi : i < n) :
    (a.pte t i = none ∧ s.word (1024 * gs + i) = 0) ∨
      ∃ f k, a.pte t i = some f ∧ (k = 5 ∨ k = 7) ∧ s.word (1024 * gs + i) = entry f k := by
  by_cases ht : t = 0
  · rcases hsrc.kernel ht with ⟨rfl, hn⟩
    refine Or.inr ⟨i, 7, ?_, Or.inr rfl, h.kernel i (by omega)⟩
    rw [ht, h.zero, if_pos (by omega)]
  · rcases hsrc.task ht with ⟨htab, hn⟩
    have hword := h.table t gs htab i (by omega)
    cases hf : a.pte t i with
    | none =>
      rw [hf] at hword
      exact Or.inl ⟨rfl, hword⟩
    | some f =>
      rw [hf] at hword
      refine Or.inr ⟨f, if a.wr t i then 7 else 5, rfl, ?_, hword⟩
      cases a.wr t i with
      | true => exact Or.inr rfl
      | false => exact Or.inl rfl

theorem entry_not_two {k : Nat} (hf : f < 4096) (hk : k = 5 ∨ k = 7) : entry f k &&& ~~~2#32 = entry f 5 := by
  rw [entry_and (m := 0xffd) (by decide) (by omega) (by omega) (by decide)]
  rcases hk with rfl | rfl <;> rfl

/-- One round of the inner loop of `copy_page_tables`. -/
theorem copyEntries_succ (h : Rep vis s tab a) (hct : c ≠ t) (hc : tab c = some g) {gs n i m : Nat}
    (hsrc : Source tab t gs n) (hi : i < n) (hcnone : a.pte c i = none) :
    ∃ s', copyEntries (m + 1) (wordAddr (1024 * gs + i)) (wordAddr (1024 * g + i)) s =
        copyEntries m (wordAddr (1024 * gs + i + 1)) (wordAddr (1024 * g + i + 1)) s' ∧
      Rep vis s' tab (Cow.sharePage Counted t c i a) ∧
      ∀ x, x / 1024 ≠ gs → x / 1024 ≠ g → s'.word x = s.word x := by
  have hg := h.tab_high hc
  have hgs := hsrc.frame_lt h
  have hn : n ≤ 1024 := by
    by_cases ht : t = 0
    · have := (hsrc.kernel ht).2
      omega
    · exact (hsrc.task ht).2
  rw [copyEntries, Memory.read_wordAddr (by omega), wordAddr_add_four, wordAddr_add_four]
  rcases h.source_word hsrc hi with ⟨hnone, hw⟩ | ⟨f, k, hf, hk, hw⟩
  · refine ⟨s, ?_, ?_, fun _ _ _ => rfl⟩
    · rw [if_pos hw]
    · simp only [Cow.sharePage, hnone]
      exact h
  · have hflt := h.frame_lt hf
    have hne : s.word (1024 * gs + i) ≠ 0 := by
      rw [hw]
      exact entry_ne_zero (by omega) (by omega) (by omega)
    rw [if_neg hne]
    simp only [Cow.sharePage, hf, hw, entry_not_two hflt hk,
      entry_gt_lowMem (f := f) (c := 5) (by omega) (by decide) (by decide)]
    by_cases hcf : 256 ≤ f
    · -- the parent is not task 0, whose pages are not counted
      have ht : t ≠ 0 := by
        rintro rfl
        have hfi := h.zero i
        rw [hf, if_pos (by have := (hsrc.kernel rfl).2; omega)] at hfi
        have := Option.some.inj hfi
        have := (hsrc.kernel rfl).2
        omega
      have htab := (hsrc.task ht).1
      have hgg : gs ≠ g := by
        rintro rfl
        exact hct (h.tabInj c t gs hc htab)
      rw [if_pos hcf, Memory.write_wordAddr (by omega), Memory.write_wordAddr (by omega), mapNr_entry (by omega) hcf (by decide)]
      refine ⟨_, rfl, h.share hct hc (by omega) hf hcnone ?_ ?_ ?_ ?_, ?_⟩
      · rw [Memory.setMap_word, Memory.setWord_word_ne (by omega), Memory.setWord_word_self]
      · intro _ gt hgt
        obtain rfl : gs = gt := Option.some.inj (htab.symm.trans hgt)
        rw [Memory.setMap_word, Memory.setWord_word_self]
      · intro x hx hx'
        rw [Memory.setMap_word, Memory.setWord_word_ne (hx' gs hcf htab), Memory.setWord_word_ne hx]
      · intro j
        show Function.update s.memMap ((f : Int) - 256) _ _ = _
        by_cases hjf : j = f
        · rw [hjf, if_pos ⟨hcf, rfl⟩, Function.update_self]
          rfl
        · rw [if_neg fun h' => hjf h'.2, Function.update_of_ne (by omega)]
      · intro x hxs hxg
        rw [Memory.setMap_word, Memory.setWord_word_ne (by omega), Memory.setWord_word_ne (by omega)]
    · rw [if_neg hcf, Memory.write_wordAddr (by omega)]
      refine ⟨_, rfl, h.share hct hc (by omega) hf hcnone ?_ ?_ ?_ ?_, ?_⟩
      · exact Memory.setWord_word_self
      · exact fun hcf' => absurd hcf' hcf
      · exact fun x hx _ => Memory.setWord_word_ne hx
      · intro j
        rw [if_neg fun h' => hcf h'.1]
        rfl
      · intro x hxs hxg
        exact Memory.setWord_word_ne (by omega)

/-- The inner loop of `copy_page_tables`. -/
theorem copyEntries (hct : c ≠ t) (hc : tab c = some g) {gs n : Nat} (hsrc : Source tab t gs n) :
    ∀ (m i : Nat) {s : Memory} {a : Spaces}, Rep vis s tab a → i + m ≤ n →
      (∀ p, i ≤ p → a.pte c p = none) →
      Rep vis (Mm.copyEntries m (wordAddr (1024 * gs + i)) (wordAddr (1024 * g + i)) s) tab
          (Cow.shareRange Counted t c m i a) ∧
        ∀ x, x / 1024 ≠ gs → x / 1024 ≠ g →
          (Mm.copyEntries m (wordAddr (1024 * gs + i)) (wordAddr (1024 * g + i)) s).word x = s.word x := by
  intro m
  induction m with
  | zero =>
    intro i s a h _ _
    exact ⟨h, fun _ _ _ => rfl⟩
  | succ m ih =>
    intro i s a h hle hnone
    rcases h.copyEntries_succ hct hc (m := m) hsrc (by omega) (hnone i (Nat.le_refl i)) with
      ⟨s', heq, hrep, hword⟩
    rcases ih (i + 1) hrep (by omega) (Cow.sharePage_pte_later hnone) with ⟨hrep', hword'⟩
    rw [heq]
    refine ⟨hrep', fun x hxs hxg => ?_⟩
    exact (hword' x hxs hxg).trans (hword x hxs hxg)

/-! ### Ending the sharing of a page -/

/-- A task has a page of its own, in the frame `k` that was free. -/
theorem split {s' : Memory} {k : Nat} (h : Rep vis s tab a) (hc : tab c = some g) (hp : p < 1024)
    (hf : a.pte c p = some f) (hk : 1024 ≤ k) (hk' : k < 4096) (h0 : a.rc k = 0)
    (hentry : s'.word (1024 * g + p) = entry k 7)
    (hcopy : ∀ i < 1024, s'.word (1024 * k + i) = s.word (1024 * f + i))
    (hword : ∀ x, x ≠ 1024 * g + p → x / 1024 ≠ k → s'.word x = s.word x)
    (hmap : ∀ j : Nat, s'.memMap ((j : Int) - 256) = if j = k then 1
      else if Counted f ∧ j = f then s.memMap ((j : Int) - 256) - 1 else s.memMap ((j : Int) - 256)) :
    Rep vis s' tab (Cow.split Counted a c p f k) := by
  have hg := h.tab_high hc
  have hck : Counted k := by unfold Counted; omega
  rcases h.free hk h0 with ⟨htabk, hptek⟩
  have hgk : g ≠ k := by
    rintro rfl
    exact htabk c hc
  have hc0 : c ≠ 0 := by
    rintro rfl
    rw [h.tabZero] at hc
    cases hc
  have hfp := h.frame c p f hf
  refine h.retable (h.inv.split hf hck h0) rfl (fun x hx => ?_) (fun t g' ht j hj => ?_)
    (fun t p' hsame => ?_) (fun t p' f' hpte => ?_) (fun f' h1 h2 => ?_) (fun f' h1 h2 => ?_)
    (fun t p' f' j hpte hj hvis => ?_)
  · exact hword x (by omega) (by omega)
  · show s'.word (1024 * g' + j) = pteWord (Cow.set2 a.pte c p (some k) t j) (Cow.set2 a.wr c p true t j)
    by_cases htc : t = c ∧ j = p
    · rcases htc with ⟨rfl, rfl⟩
      obtain rfl : g = g' := Option.some.inj (hc.symm.trans ht)
      rw [hentry, Cow.set2_self, Cow.set2_self]
      rfl
    · have hg'k : g' ≠ k := by
        rintro rfl
        exact htabk t ht
      rw [Cow.set2_ne htc, Cow.set2_ne htc, ← h.table t g' ht j hj]
      exact hword _ (fun heq => htc (h.table_inj hc ht hp hj heq)) (by omega)
  · show Cow.set2 a.pte c p (some k) t p' = _
    apply Cow.set2_ne
    rintro ⟨rfl, -⟩
    rcases hsame with hz | hno
    · exact hc0 hz
    · rw [hc] at hno
      cases hno
  · by_cases htc : t = c ∧ p' = p
    · rcases htc with ⟨rfl, rfl⟩
      have hk2 : some k = some f' := by simpa only [Cow.split, Cow.set2_self] using hpte
      obtain rfl : k = f' := Option.some.inj hk2
      exact ⟨hfp.1, Or.inr ⟨hk, hk'⟩⟩
    · exact h.frame t p' f' (by simpa only [Cow.split, Cow.set2_ne htc] using hpte)
  · rw [hmap, Cow.split_rc]
    by_cases hfk : f' = k
    · rw [if_pos hfk, if_pos hfk]
      rfl
    · rw [if_neg hfk, if_neg hfk, h.map f' h1 h2]
      by_cases hff : Counted f ∧ f' = f
      · rcases hff with ⟨hcf, rfl⟩
        have hpos : a.rc f' ≠ 0 := fun hz => (h.inv.free hcf hz).1 c p hf
        rw [if_pos ⟨hcf, rfl⟩, if_pos ⟨hcf, rfl⟩]
        obtain ⟨n, hn⟩ : ∃ n, a.rc f' = n + 1 := ⟨a.rc f' - 1, by omega⟩
        rw [hn, BitVec.ofNat_add]
        exact BitVec.add_sub_cancel _ 1
      · rw [if_neg hff, if_neg hff]
  · rw [hmap, if_neg (by omega), if_neg]
    rintro ⟨hcf, rfl⟩
    have hcf' : 256 ≤ f' := hcf
    omega
  · show _ = Function.update a.mem k (a.mem f) f' j
    by_cases htc : t = c ∧ p' = p
    · rcases htc with ⟨rfl, rfl⟩
      have hk2 : some k = some f' := by simpa only [Cow.split, Cow.set2_self] using hpte
      obtain rfl : k = f' := Option.some.inj hk2
      rw [hcopy j hj, Function.update_self]
      exact h.mem t p' f j hf hj hvis
    · have hpte' : a.pte t p' = some f' := by simpa only [Cow.split, Cow.set2_ne htc] using hpte
      have hfk : f' ≠ k := by
        rintro rfl
        exact hptek t p' hpte'
      have hfg : f' ≠ g := by
        rintro rfl
        exact (h.inv.owned f' (h.tabOwn c f' hc)).2 t p' hpte'
      rw [Function.update_of_ne hfk, hword _ (by omega) (by omega)]
      exact h.mem t p' f' j hpte' hj hvis

/-- A task may write a page that it alone uses. -/
theorem unprotect (h : Rep vis s tab a) (hc : tab c = some g) (hp : p < 1024)
    (hf : a.pte c p = some f) (hcf : 256 ≤ f) (h1 : a.rc f = 1) :
    Rep vis (s.setWord (1024 * g + p) (entry f 7)) tab (Cow.unprotect a c p) := by
  have hg := h.tab_high hc
  refine h.retable (h.inv.unprotect hf hcf h1) rfl (fun x hx => ?_) (fun t g' ht j hj => ?_)
    (fun _ _ _ => rfl) h.frame h.map (fun _ _ _ => rfl) (fun t p' f' j hpte hj hvis => ?_)
  · exact Memory.setWord_word_ne (by omega)
  · show _ = pteWord (a.pte t j) (Cow.set2 a.wr c p true t j)
    by_cases htc : t = c ∧ j = p
    · rcases htc with ⟨rfl, rfl⟩
      obtain rfl : g = g' := Option.some.inj (hc.symm.trans ht)
      rw [Memory.setWord_word_self, Cow.set2_self, hf]
      rfl
    · rw [Cow.set2_ne htc, ← h.table t g' ht j hj]
      exact Memory.setWord_word_ne fun heq => htc (h.table_inj hc ht hp hj heq)
  · have hfg : f' ≠ g := by
      rintro rfl
      exact (h.inv.owned f' (h.tabOwn c f' hc)).2 t p' hpte
    rw [Memory.setWord_word_ne (by omega)]
    exact h.mem t p' f' j hpte hj hvis

/-- A write to a frame that the system does not own, above the kernel's page tables. -/
theorem setWord (h : Rep vis s tab a) {i : Nat} (hi : i < 1024) (hlow : 5120 ≤ 1024 * f + i)
    (hown : a.own f = false) (w : BitVec 32) :
    Rep vis (s.setWord (1024 * f + i) w) tab (Cow.write a f (Function.update (a.mem f) i w)) := by
  have hinv : Cow.Inv Counted (Cow.write a f (Function.update (a.mem f) i w)) :=
    ⟨h.inv.count, h.inv.home, h.inv.excl, h.inv.owned⟩
  refine h.retable hinv rfl (fun x hx => ?_) (fun t' g' ht' j hj => ?_) (fun _ _ _ => rfl) h.frame
    h.map (fun _ _ _ => rfl) (fun t' p' f' j hpte hj hvis => ?_)
  · exact Memory.setWord_word_ne (by omega)
  · have hfg : g' ≠ f := by
      rintro rfl
      rw [h.tabOwn t' g' ht'] at hown
      cases hown
    rw [Memory.setWord_word_ne (by omega)]
    exact h.table t' g' ht' j hj
  · have hold := h.mem t' p' f' j hpte hj hvis
    show _ = Function.update a.mem f (Function.update (a.mem f) i w) f' j
    by_cases hff : f' = f
    · subst hff
      rw [Function.update_self]
      by_cases hji : j = i
      · rw [hji, Memory.setWord_word_self, Function.update_self]
      · rw [Memory.setWord_word_ne (by omega), Function.update_of_ne hji]
        exact hold
    · rw [Memory.setWord_word_ne (by omega), Function.update_of_ne hff]
      exact hold

/-- A store to a page that may be written. -/
theorem store (h : Rep vis s tab a) (hwr : a.wr t p = true) (hf : a.pte t p = some f) {i : Nat}
    (hi : i < 1024) (w : BitVec 32) :
    Rep vis (s.setWord (1024 * f + i) w) tab (Cow.write a f (Function.update (a.mem f) i w)) := by
  rcases h.wr_high hwr with ⟨f', hf', hhigh, -⟩
  obtain rfl : f = f' := Option.some.inj (hf.symm.trans hf')
  exact h.setWord hi (by omega) (h.inv.own_eq_false hf) w

end Rep

end MockOs.Mm
