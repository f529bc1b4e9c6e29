import MockOs.Kernel.Proofs.CopyProcess
import MockOs.Mm.Proofs.CopyOnWrite

/-!
# `copy_process` on a represented system

`ForkRep` relates a system to its address spaces: the tables of the tasks, as `Mm.Rep` has
them, and the `task_struct` of each task, at word `loc t`. `copy_process` keeps it, and takes
three frames: for the `task_struct`, the page table and the page of the stack.
-/

namespace MockOs.Kernel

open Mm

/-- The page of the stack that `copy_process` copies. -/
def stackPage (esp : BitVec 32) : Nat := (esp.toNat - 1) / 4096

theorem toNat_stackAddress (c : Fin 64) {esp : BitVec 32} (h0 : 0 < esp.toNat) (h1 : esp.toNat ≤ 655360) :
    (ForkSys.stackAddress esp (taskBase c)).toNat = 67108864 * (c : Nat) + 4096 * stackPage esp := by
  have hc := c.isLt
  have hsum : (esp + 4095).toNat = esp.toNat + 4095 := by
    rw [BitVec.toNat_add, show (4095 : BitVec 32).toNat = 4095 from rfl]
    omega
  have hmsb : (esp + 4095).msb = false := by
    rw [BitVec.msb_eq_decide, hsum]
    exact decide_eq_false (by omega)
  have hdiv : ((esp + 4095).sdiv 4096).toNat = (esp.toNat + 4095) / 4096 := by
    rw [BitVec.sdiv_eq, hmsb, show (4096 : BitVec 32).msb = false from rfl]
    show (BitVec.udiv (esp + 4095) 4096).toNat = _
    rw [BitVec.udiv_eq, BitVec.toNat_udiv, hsum]
    rfl
  rw [ForkSys.stackAddress, BitVec.toNat_sub, BitVec.toNat_add, BitVec.toNat_mul, hdiv, toNat_taskBase,
    show (4096 : BitVec 32).toNat = 4096 from rfl, stackPage]
  omega

/-- The system `s` has the tasks of `loc`, with the address spaces `a`. `init_task` and its
kernel stack are at word `w0` of the first 640 KB, where `vis` does not look. -/
structure ForkRep (vis : Nat → Prop) (w0 : Nat) (s : ForkSys) (loc tab : Fin 64 → Option Nat)
    (a : Spaces) : Prop where
  rep : Rep vis s.mm tab a
  initLow : 5120 ≤ w0 ∧ w0 + 1024 ≤ 163840
  initHidden : ∀ x, w0 ≤ x → x < w0 + 1024 → ¬ vis x
  task : ∀ t : Fin 64, s.task t = (loc t).elim 0 wordAddr
  locZero : loc 0 = some w0
  locTab : ∀ t, t ≠ 0 → (loc t = none ↔ tab t = none)
  locFrame : ∀ t x, t ≠ 0 → loc t = some x →
    ∃ f, x = 1024 * f ∧ a.own f = true ∧ ∀ t', tab t' ≠ some f
  locInj : ∀ t t' x, loc t = some x → loc t' = some x → t = t'
  owned : ∀ f, a.own f = true → ∃ t, t ≠ 0 ∧ (tab t = some f ∨ loc t = some (1024 * f))
  full : ∀ t p, loc t ≠ none → p < 160 → a.pte t p ≠ none
  ok : ∀ t x, loc t = some x → TaskOk s.mm loc t x
  math : s.lastTaskUsedMath = 0
  pid : s.lastPid.toNat < 2147483648

namespace ForkRep

variable {vis : Nat → Prop} {w0 : Nat} {s : ForkSys} {loc tab : Fin 64 → Option Nat} {a : Spaces}
  {t c : Fin 64} {x y k g l : Nat} {r : Regs}

/-- Where the structures are, apart from the address spaces. -/
theorem structs (h : ForkRep vis w0 s loc tab a) : Structs w0 s loc where
  task := h.task
  initLow := h.initLow
  locZero := h.locZero
  locHigh t x ht hx := by
    rcases h.locFrame t x ht hx with ⟨f, hxf, hown, -⟩
    have hhigh := h.rep.ownHigh f hown
    exact ⟨f, hxf, by omega, by omega⟩
  locInj := h.locInj
  ok := h.ok
  math := h.math

theorem loc_bounds (h : ForkRep vis w0 s loc tab a) (ht : loc t = some x) :
    5120 ≤ x ∧ x + 1024 ≤ 4194304 := h.structs.loc_bounds ht

/-- The words of a structure are in no table and in no page that is kept track of. -/
theorem hidden (h : ForkRep vis w0 s loc tab a) (ht : loc t = some x) {z : Nat} (hz : x ≤ z)
    (hz' : z < x + 1024) : Rep.Hidden vis tab a z := by
  by_cases ht0 : t = 0
  · have hlow := h.initLow
    rw [ht0, h.locZero] at ht
    have hx := Option.some.inj ht
    refine ⟨by omega, fun t' htab => ?_, fun t' p hp hvis => ?_⟩
    · have hhigh := h.rep.tab_high htab
      omega
    · rcases h.rep.frame t' p _ hp with ⟨hp160, hlow' | hhigh⟩
      · exact h.initHidden z (by omega) (by omega)
          (by rwa [show 1024 * p + z % 1024 = z by omega] at hvis)
      · omega
  · rcases h.locFrame t x ht0 ht with ⟨f, hxf, hown, htab⟩
    have hhigh := h.rep.ownHigh f hown
    have hzf : z / 1024 = f := by omega
    refine ⟨by omega, ?_, ?_⟩
    · rw [hzf]
      exact htab
    · rw [hzf]
      exact fun t' p hp => absurd hp ((h.rep.inv.owned f hown).2 t' p)

/-- A live task has a page table, or is task 0. -/
theorem live_tab (h : ForkRep vis w0 s loc tab a) (ht : loc t = some x) : t = 0 ∨ tab t ≠ none := by
  by_cases ht0 : t = 0
  · exact Or.inl ht0
  · refine Or.inr fun hno => ?_
    rw [(h.locTab t ht0).mpr hno] at ht
    cases ht

/-- A free frame is not the page of a `task_struct`. -/
theorem free_apart (h : ForkRep vis w0 s loc tab a) (hk : k ∈ freeFrames a) (ht : loc t = some x)
    {z : Nat} (hz : x ≤ z) (hz' : z < x + 1024) : z / 1024 ≠ k := by
  have hkf := mem_freeFrames.mp hk
  by_cases ht0 : t = 0
  · have hlow := h.initLow
    rw [ht0, h.locZero] at ht
    have hx := Option.some.inj ht
    omega
  · rcases h.locFrame t x ht0 ht with ⟨f, hxf, hown, -⟩
    have hfree := (h.rep.inv.free (show Counted k from by unfold Counted; omega) hkf.2.2).2
    have hfk : f ≠ k := by
      rintro rfl
      rw [hown] at hfree
      cases hfree
    omega

/-! ## The address spaces of parent and child -/

/-- The address spaces when `copy_mem` returns, with the frames `k` and `g` taken. -/
theorem copied_pte (h : ForkRep vis w0 s loc tab a) (ht : loc t = some y) (hc : c ≠ 0) (hcn : loc c = none)
    (v : Nat → BitVec 32) (t' : Fin 64) (p : Nat) :
    (Rep.forkSpaces t c (Cow.alloc (Cow.alloc a k v) g v)).pte t' p =
      if t' = c then a.pte t p else a.pte t' p := by
  have hct : c ≠ t := slot_ne ht hcn
  refine Rep.forkSpaces_pte (a := Cow.alloc (Cow.alloc a k v) g v) hct (h.rep.unmapped c hc ((h.locTab c hc).mp hcn)) (fun p hp => ?_) t' p
  by_contra hne
  rcases Option.ne_none_iff_exists'.mp hne with ⟨f, hf⟩
  have hlt := (h.rep.frame t p f hf).1
  omega

/-- Two frames are taken, for the structure and for the page table. -/
theorem inv_alloc_two (h : ForkRep vis w0 s loc tab a) (v : Nat → BitVec 32) (hk : k ∈ freeFrames a)
    (hg : g ∈ freeFrames a) (hkg : k ≠ g) : Cow.Inv Counted (Cow.alloc (Cow.alloc a k v) g v) := by
  rcases mem_freeFrames.mp hk with ⟨-, hk1, hk0⟩
  rcases mem_freeFrames.mp hg with ⟨-, hg1, hg0⟩
  have hck : Counted k := by unfold Counted; omega
  have hcg : Counted g := by unfold Counted; omega
  have hg0' : (Cow.alloc a k v).rc g = 0 := by
    show Function.update a.rc k 1 g = 0
    rw [Function.update_of_ne (Ne.symm hkg)]
    exact hg0
  exact (h.rep.inv.alloc hck hk0 v).alloc hcg hg0' v

theorem copied_free (h : ForkRep vis w0 s loc tab a) (hc : c ≠ 0) (hcn : loc c = none)
    (v : Nat → BitVec 32) (hk : k ∈ freeFrames a) (hg : g ∈ freeFrames a) (hkg : k ≠ g) :
    freeFrames (Rep.forkSpaces t c (Cow.alloc (Cow.alloc a k v) g v)) = ((freeFrames a).erase k).erase g := by
  rw [Rep.freeFrames_forkSpaces (h.inv_alloc_two v hk hg hkg) (h.rep.unmapped c hc ((h.locTab c hc).mp hcn)),
    freeFrames_alloc, freeFrames_alloc]

/-- A page of the parent has two users when the tables have been copied. -/
theorem copied_shared (h : ForkRep vis w0 s loc tab a) (ht : loc t = some y) (hc : c ≠ 0) (hcn : loc c = none)
    (v : Nat → BitVec 32) {p f : Nat} (hinv : Cow.Inv Counted (Rep.forkSpaces t c (Cow.alloc (Cow.alloc a k v) g v)))
    (hf : a.pte t p = some f) (hcounted : Counted f) :
    2 ≤ (Rep.forkSpaces t c (Cow.alloc (Cow.alloc a k v) g v)).rc f := by
  have hct : c ≠ t := slot_ne ht hcn
  have hpte := h.copied_pte ht hc hcn (k := k) (g := g) v
  have hchild : (Rep.forkSpaces t c (Cow.alloc (Cow.alloc a k v) g v)).pte c p = some f := by
    rw [hpte, if_pos rfl]
    exact hf
  have hparent : (Rep.forkSpaces t c (Cow.alloc (Cow.alloc a k v) g v)).pte t p = some f := by
    rw [hpte, if_neg (Ne.symm hct)]
    exact hf
  exact hinv.two_le_rc hcounted hct hchild hparent

/-- A word that did not matter before the fork does not matter after it. -/
theorem hidden_split (h : ForkRep vis w0 s loc tab a) (ht : loc t = some y) (hc : c ≠ 0)
    (hcn : loc c = none) (v : Nat → BitVec 32) {z p f : Nat} (hz : Rep.Hidden vis tab a z)
    (hzg : z / 1024 ≠ g) (hzl : z / 1024 ≠ l) :
    Rep.Hidden vis (Function.update tab c (some g))
      (Cow.split Counted (Rep.forkSpaces t c (Cow.alloc (Cow.alloc a k v) g v)) c p f l) z := by
  refine ⟨hz.1, fun t' htab => ?_, fun t' p' hp => ?_⟩
  · by_cases htc : t' = c
    · rw [htc, Function.update_self] at htab
      exact hzg (Option.some.inj htab).symm
    · rw [Function.update_of_ne htc] at htab
      exact hz.2.1 t' htab
  · by_cases htp : t' = c ∧ p' = p
    · rcases htp with ⟨rfl, rfl⟩
      have hl : some l = some (z / 1024) := by simpa only [Cow.split, Cow.set2_self] using hp
      exact absurd (Option.some.inj hl).symm hzl
    · have hp' := hp
      simp only [Cow.split, Cow.set2_ne htp, h.copied_pte ht hc hcn] at hp'
      split at hp'
      · exact hz.2.2 t p' hp'
      · exact hz.2.2 t' p' hp'

/-- The words of a free frame do not matter. -/
theorem hidden_free (h : ForkRep vis w0 s loc tab a) (hk : k ∈ freeFrames a) {z : Nat}
    (hz : z / 1024 = k) : Rep.Hidden vis tab a z := by
  rcases mem_freeFrames.mp hk with ⟨hk', hk1, h0⟩
  rcases h.rep.free hk1 h0 with ⟨htab, hpte⟩
  refine ⟨by omega, ?_, ?_⟩
  · rw [hz]
    exact htab
  · rw [hz]
    exact fun t' p hp => absurd hp (hpte t' p)

/-- A free frame can take the child's structure. -/
theorem freshPage (h : ForkRep vis w0 s loc tab a) (hk : k ∈ freeFrames a) :
    FreshPage s loc k ((s.mm.setMap ((k : Int) - 256) 1).fill k fun _ => 0) := by
  rcases mem_freeFrames.mp hk with ⟨hk', hk1, -⟩
  refine ⟨by omega, by omega, fun z ⟨t, x, hx, hz, hz'⟩ => h.free_apart hk hx hz hz', fun z hz => ?_⟩
  rw [Memory.fill_word_ne _ hz]
  rfl

/-! ## The copies that `copy_process` makes -/

variable {s3 : ForkSys} {m4 : Memory}

/-- The page table of the child is a copy of the parent's, in a free frame. -/
theorem copyTables (h : ForkRep vis w0 s loc tab a) (ht : loc t = some y) (hc : c ≠ 0) (hcn : loc c = none)
    (hfree : 2 ≤ s.mm.freePages.card) (v : Nat → BitVec 32) (hk : k ∈ freeFrames a)
    (hprep : Prepared s s3 ((s.mm.setMap ((k : Int) - 256) 1).fill k fun _ => 0) c y k) :
    ∃ g m4, g ∈ freeFrames a ∧ k ≠ g ∧ (getFreePage s3.mm).2 = wordAddr (1024 * g) ∧
      copyPageTables (taskBase t) (taskBase c) 0xa0000 s3.mm = .ok (m4, 0) ∧
      Rep vis m4 (Function.update tab c (some g)) (Rep.forkSpaces t c (Cow.alloc (Cow.alloc a k v) g v)) ∧
      ∀ z, 5120 ≤ z → (∀ t, tab t ≠ some (z / 1024)) → z / 1024 ≠ g → m4.word z = s3.mm.word z := by
  have hct : c ≠ t := slot_ne ht hcn
  rcases mem_freeFrames.mp hk with ⟨hk', hk1, h0⟩
  have hrep3 : Rep vis s3.mm tab (Cow.alloc a k v) := by
    refine ((h.rep.fill_free hk1 h0 fun _ => 0).alloc hk1 hk' h0 v).congr hprep.map fun z => ?_
    by_cases hz : z / 1024 = k
    · exact Or.inr (h.hidden_free hk hz)
    · exact Or.inl (hprep.word z hz)
  have hfree3 : s3.mm.freePages.Nonempty := by
    apply Finset.card_pos.mp
    rw [h.rep.card_freePages] at hfree
    rw [hrep3.card_freePages, freeFrames_alloc, Finset.card_erase_of_mem hk]
    omega
  rcases hrep3.copyPageTables hct hc ((h.locTab c hc).mp hcn) (h.live_tab ht) (toNat_taskBase t)
    (toNat_taskBase c) hfree3 v with ⟨g, m4, hg, hpage, hcopy, hrep4, hword4⟩
  rw [freeFrames_alloc, Finset.mem_erase] at hg
  exact ⟨g, m4, hg.2, Ne.symm hg.1, hpage, hcopy, hrep4, hword4⟩

/-- The page of the stack is shared with the parent then, so it is copied. -/
theorem copyStack (h : ForkRep vis w0 s loc tab a) (ht : loc t = some y) (hc : c ≠ 0) (hcn : loc c = none)
    {esp : BitVec 32} (h0 : 0 < esp.toNat) (h1 : esp.toNat ≤ 655360) (v : Nat → BitVec 32)
    (hrep4 : Rep vis m4 (Function.update tab c (some g))
      (Rep.forkSpaces t c (Cow.alloc (Cow.alloc a k v) g v))) (hfree4 : m4.freePages.Nonempty) :
    ∃ l f, l ∈ freeFrames (Rep.forkSpaces t c (Cow.alloc (Cow.alloc a k v) g v)) ∧
      a.pte t (stackPage esp) = some f ∧
      Rep vis (unWpPage (lin2phy (ForkSys.stackAddress esp (taskBase c)) m4) m4)
        (Function.update tab c (some g))
        (Cow.split Counted (Rep.forkSpaces t c (Cow.alloc (Cow.alloc a k v) g v)) c (stackPage esp) f l) ∧
      ∀ z, z / 1024 ≠ g → z / 1024 ≠ l →
        (unWpPage (lin2phy (ForkSys.stackAddress esp (taskBase c)) m4) m4).word z = m4.word z := by
  have hct : c ≠ t := slot_ne ht hcn
  have hp160 : stackPage esp < 160 := by unfold stackPage; omega
  obtain ⟨f, hf⟩ := Option.ne_none_iff_exists'.mp
    (h.full t (stackPage esp) (by rw [ht]; exact Option.some_ne_none y) hp160)
  have hpte4 : ∀ t' p, (Rep.forkSpaces t c (Cow.alloc (Cow.alloc a k v) g v)).pte t' p =
      if t' = c then a.pte t p else a.pte t' p := h.copied_pte ht hc hcn v
  have hcf : (Rep.forkSpaces t c (Cow.alloc (Cow.alloc a k v) g v)).pte c (stackPage esp) = some f := by
    rw [hpte4, if_pos rfl]
    exact hf
  have hshared : ¬ (256 ≤ f ∧ (Rep.forkSpaces t c (Cow.alloc (Cow.alloc a k v) g v)).rc f = 1) := by
    rintro ⟨hf256, hrc⟩
    have htwo := hrep4.inv.two_le_rc hf256 hct hcf
      (by rw [hpte4, if_neg (Ne.symm hct)]; exact hf : _ = some f)
    omega
  have htabc : Function.update tab c (some g) c = some g := Function.update_self c (some g) tab
  have hlin : lin2phy (ForkSys.stackAddress esp (taskBase c)) m4 = wordAddr (1024 * g + stackPage esp) := by
    rw [hrep4.lin2phy_eq htabc (toNat_stackAddress c h0 h1) (by omega), Nat.mul_div_cancel_left _ (by decide)]
  rcases hrep4.unWpPage_shared htabc (by omega) hcf hshared hfree4 with ⟨l, hl, hrep5, hword5, -⟩
  rw [hlin]
  exact ⟨l, f, hl, hf, hrep5, hword5⟩

/-- The words of the structures, and of the frame `k` of the new one, do not matter for the
address spaces and are in neither of two more frames that were free. -/
theorem struct_hidden (h : ForkRep vis w0 s loc tab a) {g l : Nat} (hk : k ∈ freeFrames a) (hg : g ∈ freeFrames a)
    (hl : l ∈ freeFrames a) (hkg : k ≠ g) (hkl : k ≠ l) {z : Nat} (hz : InStruct loc z ∨ z / 1024 = k) :
    Rep.Hidden vis tab a z ∧ z / 1024 ≠ g ∧ z / 1024 ≠ l := by
  rcases hz with ⟨t', x, hx, hz, hz'⟩ | rfl
  · exact ⟨h.hidden hx hz hz', h.free_apart hg hx hz hz', h.free_apart hl hx hz hz'⟩
  · exact ⟨h.hidden_free hk rfl, hkg, hkl⟩

/-! ## The whole call -/

/-- The address spaces after a fork of task `t` into slot `c`, with the frames `k` for the
structure, `g` for the page table and `l` for page `p` of the stack, which is in frame `f`. -/
def forkedSpaces (t c : Fin 64) (k g l p f : Nat) (a : Spaces) : Spaces :=
  Cow.split Counted (Rep.forkSpaces t c (Cow.alloc (Cow.alloc a k fun _ => 0) g fun _ => 0)) c p f l

theorem copyProcess_forked (h : ForkRep vis w0 s loc tab a) (ht : loc t = some y)
    (hcur : s.current = wordAddr y) (hc : c ≠ 0) (hcn : loc c = none) (h0 : 0 < r.esp.toNat)
    (h1 : r.esp.toNat ≤ 655360) (hfree : 3 ≤ s.mm.freePages.card) :
    ∃ k g l f old s', k ∈ freeFrames a ∧ g ∈ (freeFrames a).erase k ∧
      l ∈ ((freeFrames a).erase k).erase g ∧ a.pte t (stackPage r.esp) = some f ∧
      s.copyProcess c r = .ok (s', s.lastPid) ∧
      Rep vis s'.mm (Function.update tab c (some g)) (forkedSpaces t c k g l (stackPage r.esp) f a) ∧
      Forked s s' loc c y k old ∧ ForkSys.ChildSet s'.mm s.lastPid c (1024 * k) := by
  rcases h.rep.getFreePage_eq (Finset.card_pos.mp (by omega)) with ⟨k, hk1, hk', hk0, heq⟩
  have hk : k ∈ freeFrames a := mem_freeFrames.mpr ⟨hk', hk1, hk0⟩
  have hfresh := h.freshPage hk
  have hprep := h.structs.prepared ht hcur c r hfresh
  rcases h.copyTables ht hc hcn (by omega) (fun _ => 0) hk hprep with ⟨g, m4, hg, hkg, -, hcopy, hrep4, hword4⟩
  have hfree4 : m4.freePages.Nonempty := by
    apply Finset.card_pos.mp
    rw [h.rep.card_freePages] at hfree
    rw [hrep4.card_freePages, h.copied_free hc hcn _ hk hg hkg,
      Finset.card_erase_of_mem (Finset.mem_erase.mpr ⟨Ne.symm hkg, hg⟩), Finset.card_erase_of_mem hk]
    omega
  rcases h.copyStack ht hc hcn h0 h1 (fun _ => 0) hrep4 hfree4 with ⟨l, f, hl, hf, hrep5, hword5⟩
  rw [h.copied_free hc hcn _ hk hg hkg] at hl
  have hl' := hl
  rw [Finset.mem_erase, Finset.mem_erase] at hl'
  rcases hl' with ⟨hlg, hlk, hla⟩
  -- the words of the structures do not matter for the address spaces, before and after
  have hhidden : ∀ z, InStruct loc z ∨ z / 1024 = k → Rep.Hidden vis tab a z ∧ z / 1024 ≠ g ∧ z / 1024 ≠ l :=
    fun _ => h.struct_hidden hk hg hla hkg (Ne.symm hlk)
  have hkeep4 : ∀ z, InStruct loc z ∨ z / 1024 = k → m4.word z = _ := fun z hz =>
    hword4 z (hhidden z hz).1.1 (hhidden z hz).1.2.1 (hhidden z hz).2.1
  have hkeep5 := fun z hz => (hword5 z (hhidden z hz).2.1 (hhidden z hz).2.2).trans (hkeep4 z hz)
  rcases h.structs.copyProcess_forked ht hcur hfresh heq hcopy rfl hkeep4 hkeep5 with
    ⟨old, s', hcall, hforked, hset, hmap, hword, -⟩
  refine ⟨k, g, l, f, old, s', hk, Finset.mem_erase.mpr ⟨Ne.symm hkg, hg⟩, hl, hf, hcall, ?_, hforked, hset⟩
  refine hrep5.congr hmap fun z => ?_
  by_cases hz : InStruct loc z ∨ z / 1024 = k
  · rcases hhidden z hz with ⟨hin, hzg, hzl⟩
    exact Or.inr (h.hidden_split ht hc hcn _ hin hzg hzl)
  · exact Or.inl (hword z (fun hin => hz (Or.inl hin)) fun hzk => hz (Or.inr hzk))

end ForkRep

/-- The new system is represented again. -/
theorem Forked.forkRep {vis : Nat → Prop} {w0 : Nat} {s s' : ForkSys} {loc tab : Fin 64 → Option Nat}
    {a : Spaces} {t c : Fin 64} {y k g l p f : Nat} {old : Option Nat} (hfork : Forked s s' loc c y k old)
    (h : ForkRep vis w0 s loc tab a) (ht : loc t = some y) (hc : c ≠ 0) (hcn : loc c = none)
    (hk : k ∈ freeFrames a) (hg : g ∈ (freeFrames a).erase k)
    (hrep : Rep vis s'.mm (Function.update tab c (some g)) (ForkRep.forkedSpaces t c k g l p f a)) :
    ForkRep vis w0 s' (Function.update loc c (some (1024 * k))) (Function.update tab c (some g))
      (ForkRep.forkedSpaces t c k g l p f a) := by
  have hown : (ForkRep.forkedSpaces t c k g l p f a).own =
      Function.update (Function.update a.own k true) g true := by
    show (Rep.forkSpaces t c _).own = _
    rw [Rep.forkSpaces_own]
    rfl
  rcases Finset.mem_erase.mp hg with ⟨hgk, hg'⟩
  rcases mem_freeFrames.mp hk with ⟨hk1, hk2, hk0⟩
  rcases mem_freeFrames.mp hg' with ⟨hg1, hg2, hg0⟩
  have hfreek := h.rep.free hk2 hk0
  have hownFree : ∀ f', a.own f' = true → f' ≠ k ∧ f' ≠ g := by
    intro f' hf'
    have hk3 := (h.rep.inv.free (show Counted k from by unfold Counted; omega) hk0).2
    have hg3 := (h.rep.inv.free (show Counted g from by unfold Counted; omega) hg0).2
    constructor
    · rintro rfl
      rw [hf'] at hk3
      cases hk3
    · rintro rfl
      rw [hf'] at hg3
      cases hg3
  have hown' : ∀ f', (ForkRep.forkedSpaces t c k g l p f a).own f' = true ↔
      f' = g ∨ f' = k ∨ a.own f' = true := by
    intro f'
    rw [hown]
    by_cases hfg : f' = g
    · simp [hfg]
    · by_cases hfk : f' = k
      · simp [hfk, Ne.symm hgk]
      · simp [hfg, hfk]
  have htabc : tab c = none := (h.locTab c hc).mp hcn
  have hstructs := hfork.structs h.structs ht hc hcn (h.freshPage hk)
  refine {
    rep := hrep, initLow := h.initLow, initHidden := h.initHidden, task := hstructs.task,
    locZero := hstructs.locZero, locTab := fun t' ht' => ?_, locFrame := fun t' x ht' hx => ?_,
    locInj := hstructs.locInj, owned := fun f' hf' => ?_, full := fun t' p' hlive hp' => ?_,
    ok := hstructs.ok, math := hstructs.math, pid := ?_ }
  · by_cases htc : t' = c
    · rw [htc, Function.update_self, Function.update_self]
      simp
    · rw [Function.update_of_ne htc, Function.update_of_ne htc]
      exact h.locTab t' ht'
  · by_cases htc : t' = c
    · rw [htc, Function.update_self] at hx
      refine ⟨k, (Option.some.inj hx).symm, (hown' k).mpr (Or.inr (Or.inl rfl)), fun t2 => ?_⟩
      by_cases ht2 : t2 = c
      · rw [ht2, Function.update_self]
        exact fun heq => hgk (Option.some.inj heq)
      · rw [Function.update_of_ne ht2]
        exact hfreek.1 t2
    · rw [Function.update_of_ne htc] at hx
      rcases h.locFrame t' x ht' hx with ⟨f', hxf, hf', htab⟩
      refine ⟨f', hxf, (hown' f').mpr (Or.inr (Or.inr hf')), fun t2 => ?_⟩
      by_cases ht2 : t2 = c
      · rw [ht2, Function.update_self]
        exact fun heq => (hownFree f' hf').2 (Option.some.inj heq).symm
      · rw [Function.update_of_ne ht2]
        exact htab t2
  · rcases (hown' f').mp hf' with rfl | rfl | hold
    · exact ⟨c, hc, Or.inl (Function.update_self ..)⟩
    · exact ⟨c, hc, Or.inr (Function.update_self ..)⟩
    · rcases h.owned f' hold with ⟨t2, ht2, hor⟩
      have h2c : t2 ≠ c := by
        rintro rfl
        rw [hcn, htabc] at hor
        simp at hor
      exact ⟨t2, ht2, by rwa [Function.update_of_ne h2c, Function.update_of_ne h2c]⟩
  · show Cow.set2 _ c p (some l) t' p' ≠ none
    by_cases htp : t' = c ∧ p' = p
    · rw [htp.1, htp.2, Cow.set2_self]
      exact Option.some_ne_none l
    · rw [Cow.set2_ne htp, h.copied_pte ht hc hcn]
      by_cases htc : t' = c
      · rw [if_pos htc]
        exact h.full t p' (by rw [ht]; exact Option.some_ne_none y) hp'
      · rw [Function.update_of_ne htc] at hlive
        rw [if_neg htc]
        exact h.full t' p' hlive hp'
  · rw [hfork.rest]
    exact h.pid

end MockOs.Kernel
