import MockOs.Kernel.Proofs.ParentStore
import MockOs.Kernel.Proofs.StackPage

/-!
# A stack pointer that names a page of the parent

`copy_process` copies the page that `esp` points to without a look at where it is. The kernel's
mapping has every frame at its own address: if `esp` leads there to a page that the parent may
write, `un_wp_page` takes back the count that `copy_page_tables` has just given it. Parent and
child have the page then and it is counted once, so the next store of the parent finds nothing
to copy and the child sees it.
-/

namespace MockOs.Kernel

open Mm

/-- Tasks `t` and `c`, with page tables in the frames `gt` and `gc`, both have frame `f` as
their page `p`, read-only, and it is counted once. -/
structure CountedOnce (m : Memory) (t c : Fin 64) (gt gc p f : Nat) : Prop where
  dir : m.word (16 * t) = entry gt 7
  dirChild : m.word (16 * c) = entry gc 7
  page : m.word (1024 * gt + p) = entry f 5
  pageChild : m.word (1024 * gc + p) = entry f 5
  count : m.memMap ((f : Int) - 256) = 1
  table : 1 ≤ gt ∧ gt < 4096
  tableChild : 1 ≤ gc ∧ gc < 4096
  frame : 256 ≤ f ∧ f < 4096
  apart : gt ≠ gc ∧ gt ≠ f ∧ gc ≠ f

section CountedOnce

variable {w0 : Nat} {s : ForkSys} {m : Memory} {loc : Fin 64 → Option Nat} {t c : Fin 64} {y k gt gc p f : Nat}
  {off : BitVec 32}

/-- A store of `t` makes its entry writable and leaves the frame as it is. -/
theorem CountedOnce.store (h : CountedOnce s.mm t c gt gc p f) (hs : Structs w0 s loc) (ht : loc t = some y)
    (hoff : off.toNat < 655360) (hp : off.toNat / 4096 = p) (v : BitVec 8) :
    s.userStore t off v = some { s with
      mm := (s.mm.setWord (1024 * gt + p) (entry f 7)).setWord (1024 * f + off.toNat / 4 % 1024)
        (setByteOf (s.mm.word (1024 * f + off.toNat / 4 % 1024)) (off.toNat % 4) v) } := by
  subst hp
  have ht64 := t.isLt
  rcases h.table with ⟨hg1, hg2⟩
  rcases h.frame with ⟨hf1, hf2⟩
  rcases h.apart with ⟨-, hgf, -⟩
  have hlin := ForkRep.toNat_linear t hoff
  have hread : s.mm.read (wordAddr (16 * t)) = entry gt 7 := by
    rw [Memory.read_wordAddr (by omega)]
    exact h.dir
  have hbefore := userEntry_of_table hread hg2 h.page hf2 (Or.inl rfl) hlin (by omega)
  have hno : canWrite (taskBase t + off) (entry f 5) s.mm = false := hbefore.2
  have hwp : doWpPage (taskBase t + off) s.mm = s.mm.setWord (1024 * gt + off.toNat / 4096) (entry f 7) := by
    have hframe : frameOf (s.mm.word (1024 * gt + off.toNat / 4096)) = f := by
      rw [h.page, frameOf_entry (by omega) (by decide)]
    rw [doWpPage_walk, hlin, show (67108864 * (t : Nat) + off.toNat) / 4194304 = 16 * t by omega,
      show (67108864 * (t : Nat) + off.toNat) / 4096 % 1024 = off.toNat / 4096 by omega, h.dir,
      frameOf_entry (by omega) (by decide), unWpPage_once (by omega) hframe hf1 h.count, h.page,
      entry_or_two hf2 (Or.inl rfl)]
  have hread' : (s.mm.setWord (1024 * gt + off.toNat / 4096) (entry f 7)).read (wordAddr (16 * t)) =
      entry gt 7 := by
    rw [Memory.read_wordAddr (by omega), Memory.setWord_word_ne (by omega)]
    exact h.dir
  have hafter := userEntry_of_table hread' hg2 Memory.setWord_word_self hf2 (Or.inr rfl) hlin (by omega)
  rw [ForkSys.userStore_of_entry (hs.linear_eq ht hoff) hbefore.1 (by rw [hno, hwp]; rfl) hafter.1 hafter.2 v,
    storeByte_entry hf2 (by decide) hlin v, Memory.setWord_word_ne (by omega)]

/-- What `c` finds there. -/
theorem CountedOnce.load (hs : Structs w0 s loc) (hc : loc c = some y) (hoff : off.toNat < 655360)
    (hdir : m.word (16 * c) = entry gc 7) (hgc : gc < 4096)
    (hword : m.word (1024 * gc + off.toNat / 4096) = entry f 5) (hf : f < 4096)
    (hstruct : ∀ j < 1024, m.word (y + j) = s.mm.word (y + j)) :
    ({ s with mm := m } : ForkSys).userLoad c off =
      some (byteOf (m.word (1024 * f + off.toNat / 4 % 1024)) (off.toNat % 4)) := by
  have hc64 := c.isLt
  have hy := hs.loc_bounds hc
  have hlin := ForkRep.toNat_linear c hoff
  have hread : m.read (wordAddr (16 * c)) = entry gc 7 := by
    rw [Memory.read_wordAddr (by omega)]
    exact hdir
  have hentry := userEntry_of_table hread hgc hword hf (Or.inl rfl) hlin (by omega)
  have htask : s.task c = wordAddr y := by
    rw [hs.task c, hc]
    rfl
  have hdesc : ({ s with mm := m } : ForkSys).dataSegment c = s.dataSegment c := by
    rw [ForkSys.dataSegment, ForkSys.dataSegment, htask, ForkSys.ldtEntry_eq]
    exact ForkSys.getDesc_congr (by omega) (hstruct _ (by omega)) (hstruct 235 (by omega))
  have hlinear : ({ s with mm := m } : ForkSys).linear c off = some (taskBase c + off) := by
    rw [← hs.linear_eq hc hoff, ForkSys.linear, hdesc]
    rfl
  rw [ForkSys.userLoad_of_entry hlinear hentry.1, loadByte, Memory.read, toNat_physical hf (by decide) hlin,
    show (4096 * f + off.toNat % 4096) / 4 = 1024 * f + off.toNat / 4 % 1024 by omega,
    show (4096 * f + off.toNat % 4096) % 4 = off.toNat % 4 by omega]

/-- It is only about the directory, the two tables and one count. -/
theorem CountedOnce.congr {m' : Memory} (h : CountedOnce m t c gt gc p f)
    (hword : ∀ z, z < 5120 ∨ z / 1024 = gt ∨ z / 1024 = gc → m'.word z = m.word z)
    (hmap : m'.memMap = m.memMap) (hp : p < 1024) : CountedOnce m' t c gt gc p f := by
  have ht64 := t.isLt
  have hc64 := c.isLt
  refine ⟨?_, ?_, ?_, ?_, ?_, h.table, h.tableChild, h.frame, h.apart⟩
  · rw [hword _ (by omega)]
    exact h.dir
  · rw [hword _ (by omega)]
    exact h.dirChild
  · rw [hword _ (by omega)]
    exact h.page
  · rw [hword _ (by omega)]
    exact h.pageChild
  · rw [hmap]
    exact h.count

end CountedOnce

/-! ## The fork -/

section Fork

variable {vis : Nat → Prop} {w0 : Nat} {s : ForkSys} {loc tab : Fin 64 → Option Nat} {a : Spaces} {m4 : Memory}
  {t c : Fin 64} {y k g gt p f : Nat}

/-- A page that the parent alone had has two users when the tables have been copied, and none of
them may write it. -/
theorem ForkRep.copied_twice (h : ForkRep vis w0 s loc tab a) (ht : loc t = some y) (hc : c ≠ 0) (hcn : loc c = none)
    (h4 : Rep vis m4 (Function.update tab c (some g)) (copiedSpaces t c k g a)) (hwr : a.wr t p = true)
    (hf : a.pte t p = some f) :
    (copiedSpaces t c k g a).rc f = 2 ∧ ∀ t', (copiedSpaces t c k g a).pte t' p = some f →
      (copiedSpaces t c k g a).wr t' p = false := by
  have hct : c ≠ t := slot_ne ht hcn
  have hpte : ∀ t' p', (copiedSpaces t c k g a).pte t' p' = if t' = c then a.pte t p' else a.pte t' p' :=
    h.copied_pte ht hc hcn fun _ => 0
  rcases h.rep.inv.excl t p hwr with ⟨f', hf', hcounted, hexcl⟩
  obtain rfl : f = f' := Option.some.inj (hf.symm.trans hf')
  have hparent : (copiedSpaces t c k g a).pte t p = some f := by
    rw [hpte, if_neg (Ne.symm hct)]
    exact hf
  have husers : Cow.users (copiedSpaces t c k g a) f = {t, c} := by
    ext t'
    rw [Cow.mem_users, Finset.mem_insert, Finset.mem_singleton]
    constructor
    · rintro ⟨p', hp'⟩
      rw [hpte] at hp'
      by_cases htc : t' = c
      · exact Or.inr htc
      · rw [if_neg htc] at hp'
        exact Or.inl (hexcl t' p' hp')
    · rintro (rfl | rfl)
      · exact ⟨p, hparent⟩
      · exact ⟨p, by rw [hpte, if_pos rfl]; exact hf⟩
  have hrc : (copiedSpaces t c k g a).rc f = 2 := by
    rw [h4.inv.count f hcounted, husers, Finset.card_pair (Ne.symm hct), h4.inv.own_eq_false hparent]
    rfl
  refine ⟨hrc, fun t' ht' => ?_⟩
  cases hwr' : (copiedSpaces t c k g a).wr t' p with
  | false => rfl
  | true =>
    have hone := (h4.inv.rc_writable hwr' ht').2
    omega

/-- The kernel's entry for a frame, from its address. -/
theorem entryWord_identity (h4 : Rep vis m4 tab a) {addr : BitVec 32} (hf : f < 4096)
    (haddr : addr.toNat = 4096 * f) : entryWord addr m4 = 1024 + f := by
  have hdir : dirIndex addr = f / 1024 := by
    rw [dirIndex, haddr]
    omega
  have hidx : tableIndex addr = f % 1024 := by
    rw [tableIndex, haddr]
    omega
  rw [entryWord, hdir, hidx, h4.dirKernel _ (by omega), frameOf_entry (by omega) (by decide)]
  omega

/-- `un_wp_page` at the kernel's entry for a frame that two tasks have takes back one count and
leaves both in place. -/
theorem countedOnce_unWpPage (h : Rep vis m4 tab a) {gc : Nat} (ht : t ≠ 0) (hc : c ≠ 0) (hct : c ≠ t)
    (hgt : tab t = some gt) (hgc : tab c = some gc) (hparent : a.pte t p = some f) (hchild : a.pte c p = some f)
    (hrc : a.rc f = 2) (hro : ∀ t', a.pte t' p = some f → a.wr t' p = false) (hhigh : 1024 ≤ f)
    (hfree : m4.freePages.Nonempty) : CountedOnce (unWpPage (wordAddr (1024 + f)) m4) t c gt gc p f := by
  have ht64 := t.isLt
  have hc64 := c.isLt
  have hlt := h.frame_lt hparent
  have hp160 := (h.frame t p f hparent).1
  have hgthigh := h.tab_high hgt
  have hgchigh := h.tab_high hgc
  have hframe : frameOf (m4.word (1024 + f)) = f := by
    rw [h.kernel f hlt, frameOf_entry (by omega) (by decide)]
  have hno : ¬ (256 ≤ f ∧ m4.memMap ((f : Int) - 256) = 1) := by
    rintro ⟨-, hone⟩
    rw [h.map_eq_one hhigh hlt] at hone
    omega
  -- two users: the entry gets a new frame
  rcases unWpPage_recopied (by omega) hframe hno hfree with ⟨k, hre⟩
  have hk : k ∈ freeFrames a := by
    have hlow := hre.low
    have hklt := hre.high
    rw [show k = k - 256 + 256 by omega]
    refine h.mem_freePages.mp (mem_freePages.mpr ⟨show k - 256 < 3840 by omega, ?_⟩)
    rw [show ((k - 256 : Nat) : Int) = (k : Int) - 256 by omega]
    exact hre.free
  rcases mem_freeFrames.mp hk with ⟨-, hk1, hk0⟩
  rcases h.free hk1 hk0 with ⟨hktab, hkpte⟩
  have hgtk : gt ≠ k := fun heq => hktab t (heq ▸ hgt)
  have hgck : gc ≠ k := fun heq => hktab c (heq ▸ hgc)
  have hfk : f ≠ k := fun heq => hkpte t p (heq ▸ hparent)
  exact {
    dir := by
      rw [hre.word _ (by omega) (by omega), h.dirTask t ht, hgt]
      rfl
    dirChild := by
      rw [hre.word _ (by omega) (by omega), h.dirTask c hc, hgc]
      rfl
    page := by
      rw [hre.word _ (by omega) (by omega), h.table t gt hgt p (by omega), hparent, hro t hparent]
      rfl
    pageChild := by
      rw [hre.word _ (by omega) (by omega), h.table c gc hgc p (by omega), hchild, hro c hchild]
      rfl
    count := by
      rw [hre.map f, if_neg hfk, if_pos ⟨show Counted f by unfold Counted; omega, rfl⟩, h.map f hhigh hlt, hrc]
      rfl
    table := ⟨by omega, hgthigh.2⟩
    tableChild := ⟨by omega, hgchigh.2⟩
    frame := ⟨by omega, hlt⟩
    apart := ⟨fun heq => hct (h.tabInj c t gc hgc (heq ▸ hgt)),
      fun heq => (h.inv.owned gt (h.tabOwn t gt hgt)).2 t p (heq ▸ hparent),
      fun heq => (h.inv.owned gc (h.tabOwn c gc hgc)).2 t p (heq ▸ hparent)⟩ }

/-- The fork leaves the page of the parent counted once. -/
theorem ForkRep.stray_copyProcess (h : ForkRep vis w0 s loc tab a) (ht : loc t = some y)
    (hcur : s.current = wordAddr y) (ht0 : t ≠ 0) (hc : c ≠ 0) (hcn : loc c = none) (hwr : a.wr t p = true)
    (hf : a.pte t p = some f) {r : Regs} (haddr : (ForkSys.stackAddress r.esp (taskBase c)).toNat = 4096 * f)
    (hfree : 3 ≤ s.mm.freePages.card) :
    ∃ s' k gt gc, s.copyProcess c r = .ok (s', s.lastPid) ∧
      Structs w0 s' (Function.update loc c (some (1024 * k))) ∧ CountedOnce s'.mm t c gt gc p f ∧
      k ≠ gt ∧ k ≠ f := by
  rcases h.copyProcess_walk ht hcur hc hcn r hfree with
    ⟨k, g, l, m4, i, s', hk, hg, hl, -, h4, -, hcall, ⟨old, hforked⟩, hmap, hword⟩
  have hct : c ≠ t := slot_ne ht hcn
  rcases h.table_eq ht ht0 with ⟨gt, hgt⟩
  rcases Finset.mem_erase.mp hg with ⟨hgk, hga⟩
  rcases mem_freeFrames.mp hk with ⟨-, hk1, hk0⟩
  have hlt := h.rep.frame_lt hf
  have hp160 := (h.rep.frame t p f hf).1
  have hhigh : 1024 ≤ f := OwnCopy.of_wr h.rep hwr f hf
  have hpte : ∀ t' p', (copiedSpaces t c k g a).pte t' p' = if t' = c then a.pte t p' else a.pte t' p' :=
    h.copied_pte ht hc hcn fun _ => 0
  have hparent : (copiedSpaces t c k g a).pte t p = some f := by
    rw [hpte, if_neg (Ne.symm hct)]
    exact hf
  have hchild : (copiedSpaces t c k g a).pte c p = some f := by
    rw [hpte, if_pos rfl]
    exact hf
  rcases h.copied_twice ht hc hcn h4 hwr hf with ⟨hrc, hro⟩
  have hgt4 : Function.update tab c (some g) t = some gt := by
    rw [Function.update_of_ne (Ne.symm hct)]
    exact hgt
  have hgc4 : Function.update tab c (some g) c = some g := Function.update_self ..
  have hl4 : l ∈ freeFrames (copiedSpaces t c k g a) := by
    rw [copiedSpaces, h.copied_free hc hcn _ hk hga (Ne.symm hgk)]
    exact hl
  have hl1 := (mem_freeFrames.mp hl4).2.1
  have hfree4 : m4.freePages.Nonempty :=
    ⟨l - 256, h4.mem_freePages.mpr (by rw [show l - 256 + 256 = l by omega]; exact hl4)⟩
  have honce := countedOnce_unWpPage h4 ht0 hc hct hgt4 hgc4 hparent hchild hrc hro hhigh hfree4
  -- the walk ends at the kernel's entry for the frame
  rw [entryWord_identity h4 hlt haddr] at hmap hword
  have hfreek := h.rep.free hk1 hk0
  refine ⟨s', k, gt, g, hcall, hforked.structs h.structs ht hc hcn (h.freshPage hk),
    honce.congr (fun z hz => hword z ?_) hmap (by omega), fun heq => hfreek.1 t (heq ▸ hgt),
    fun heq => hfreek.2 t p (heq ▸ hf)⟩
  rcases hz with hlow | rfl | rfl
  · exact Or.inl hlow
  · exact Or.inr ⟨t, hgt4⟩
  · exact Or.inr ⟨c, hgc4⟩

end Fork

/-! ## The stack pointer -/

/-- Multiples of the page size come through the rounding of `copy_process`, negative ones too. -/
theorem sdiv_mul_page {x : BitVec 32} {n : Nat} (hx : x.toNat = 4096 * n) : x.sdiv 4096 * 4096 = x := by
  have hlt := x.isLt
  have h4096 : (4096 : BitVec 32).toNat = 4096 := rfl
  apply BitVec.eq_of_toNat_eq
  rw [BitVec.sdiv_eq, show (4096 : BitVec 32).msb = false from rfl]
  cases hmsb : x.msb with
  | false =>
    show (BitVec.udiv x 4096 * 4096).toNat = _
    rw [BitVec.toNat_mul, BitVec.udiv_eq, BitVec.toNat_udiv, h4096, hx]
    omega
  | true =>
    have hpos : 0 < x.toNat := by
      rw [BitVec.msb_eq_decide] at hmsb
      have hge := of_decide_eq_true hmsb
      omega
    show (-BitVec.udiv (-x) 4096 * 4096).toNat = _
    rw [BitVec.toNat_mul, BitVec.toNat_neg, BitVec.udiv_eq, BitVec.toNat_udiv, BitVec.toNat_neg, h4096, hx]
    omega

/-- The stack pointer with which a fork into slot `c` comes upon frame `f`. -/
def strayEsp (c : Fin 64) (f : Nat) : BitVec 32 := BitVec.ofNat 32 (4294967296 + 4096 * f + 1 - 67108864 * c)

theorem toNat_strayEsp {c : Fin 64} (hc : c ≠ 0) {f : Nat} (hf : f < 4096) :
    (ForkSys.stackAddress (strayEsp c f) (taskBase c)).toNat = 4096 * f := by
  have hc64 := c.isLt
  have hcpos : 0 < (c : Nat) := Fin.pos_iff_ne_zero.mpr hc
  have hsum : (strayEsp c f + 4095).toNat = 4096 * (1048576 + f + 1 - 16384 * (c : Nat)) := by
    rw [strayEsp, BitVec.toNat_add, BitVec.toNat_ofNat, show (4095 : BitVec 32).toNat = 4095 from rfl]
    omega
  rw [ForkSys.stackAddress, sdiv_mul_page hsum, BitVec.toNat_sub, BitVec.toNat_add, hsum, toNat_taskBase,
    show (4096 : BitVec 32).toNat = 4096 from rfl]
  omega

/-! ## The next store -/

/-- The slot that `find_empty_process` finds does not depend on the registers. -/
theorem sysFork_slot {s : ForkSys} (hpid : s.lastPid.toNat < 2147483648) (hslot : s.FreeSlot) :
    ∃ c : Fin 64, c ≠ 0 ∧ s.task c = 0 ∧ ∀ r, ∃ pid : BitVec 32, pid.toNat < 2147483648 ∧
      s.sysFork r = ({ s with lastPid := pid } : ForkSys).copyProcess c r := by
  rcases hslot with ⟨i, hi1, hi2, hizero⟩
  rcases ForkSys.sysFork_free (r := stackTop) hpid hi1 hi2 hizero with
    ⟨nr, -, hnr1, hnr2, hzero, hfirst, -, -, -, -⟩
  refine ⟨⟨nr, hnr2⟩, fun hz => ?_, hzero, fun r => ?_⟩
  · have hval : nr = 0 := congrArg Fin.val hz
    omega
  · rcases ForkSys.sysFork_free (r := r) hpid hi1 hi2 hizero with
      ⟨nr', pid, hnr1', -, hzero', hfirst', -, hlt, -, heq⟩
    obtain rfl : nr' = nr := by
      rcases Nat.lt_trichotomy nr' nr with hbelow | hsame | habove
      · exact absurd hzero' (hfirst nr' hnr1' hbelow)
      · exact hsame
      · exact absurd hzero (hfirst' nr hnr1 habove)
    exact ⟨pid, hlt, heq⟩

/-- A task that has stored to a page can fork with a stack pointer that names its frame; then the
child reads whatever the parent stores there next. -/
theorem stray_stack_shares (b : Boot) (acts : List Act) (s s₀ : ForkSys) (t : Nat) (off : BitVec 32) (w : BitVec 8)
    (hrun : Run.Trace (StoreStep b) b.start acts s) (hstore : ForkStep (.store t off w) s s₀) (hslot : s₀.FreeSlot)
    (hfree : 3 ≤ s₀.mm.freePages.card) :
    ∃ r c s₁, s₀.exec (.fork t r) = some s₁ ∧ ¬ s₀.Live c ∧ s₁.Live c ∧
      ∀ v, ∃ s₂, s₁.exec (.store t off v) = some s₂ ∧ s₂.userLoad c off = some v := by
  rcases b.anyRep hrun with ⟨loc, tab, a, h⟩
  rcases hstore with ⟨⟨hlive, hn, hoff, hpages⟩, hexec⟩
  rcases h.of_live hlive with ⟨t, y, rfl, ht⟩
  have ht0 : t ≠ 0 := Fin.pos_iff_ne_zero.mp hn
  rcases h.page_eq ht hoff with ⟨_, hf⟩
  rcases h.userStore_eq ht ht0 hoff hf w hpages with
    ⟨s₀', a', f, w', heq, -, hwr, hf', -, -, -, hrep, -⟩
  obtain rfl : s₀' = s₀ := Option.some.inj (heq.symm.trans hexec)
  have hlt := hrep.rep.frame_lt hf'
  rcases sysFork_slot (s := { s₀' with current := s₀'.task t }) hrep.pid hslot with ⟨c, hc, hzero, hcall⟩
  have hcn : loc c = none := hrep.slot_eq_zero.mp hzero
  rcases hcall { stackTop with esp := strayEsp c f } with ⟨pid, hpid, hcall⟩
  have hs := hrep.switch (s₀'.task t) hpid
  rcases hs.stray_copyProcess (r := { stackTop with esp := strayEsp c f }) ht (hrep.task_eq ht) ht0 hc hcn hwr hf'
    (toNat_strayEsp hc hlt) hfree with
    ⟨s₁, k, gt, gc, hcopy, hstructs, honce, hkgt, hkf⟩
  rw [hcopy] at hcall
  have ht' : Function.update loc c (some (1024 * k)) t = some y := by
    rw [Function.update_of_ne (Ne.symm (slot_ne ht hcn))]
    exact ht
  have hc' : Function.update loc c (some (1024 * k)) c = some (1024 * k) := Function.update_self ..
  have hbounds := hstructs.loc_bounds hc'
  refine ⟨{ stackTop with esp := strayEsp c f }, c, s₁, ?_, fun hno => hno.2 hzero, ⟨c.isLt, ?_⟩, fun v => ?_⟩
  · simp only [ForkSys.exec, hcall]
  · rw [hstructs.task c, hc']
    exact wordAddr_ne_zero (by omega) (by omega)
  · refine ⟨_, honce.store hstructs ht' hoff rfl v, ?_⟩
    rcases honce.apart with ⟨hgg, hgtf, hgcf⟩
    have hgt := honce.table
    have hgc := honce.tableChild
    have hf := honce.frame
    have hc64 := c.isLt
    obtain ⟨m, hm⟩ : ∃ m, (s₁.mm.setWord (1024 * gt + off.toNat / 4096) (entry f 7)).setWord
        (1024 * f + off.toNat / 4 % 1024)
        (setByteOf (s₁.mm.word (1024 * f + off.toNat / 4 % 1024)) (off.toNat % 4) v) = m := ⟨_, rfl⟩
    have hother : ∀ z, z ≠ 1024 * gt + off.toNat / 4096 → z / 1024 ≠ f → m.word z = s₁.mm.word z := by
      intro z hz hzf
      rw [← hm, Memory.setWord_word_ne (by omega), Memory.setWord_word_ne hz]
    have hdir : m.word (16 * c) = entry gc 7 := by
      rw [hother _ (by omega) (by omega)]
      exact honce.dirChild
    have hpage : m.word (1024 * gc + off.toNat / 4096) = entry f 5 := by
      rw [hother _ (by omega) (by omega)]
      exact honce.pageChild
    have hstruct : ∀ j < 1024, m.word (1024 * k + j) = s₁.mm.word (1024 * k + j) :=
      fun j hj => hother _ (by omega) (by omega)
    rw [hm, CountedOnce.load hstructs hc' hoff hdir hgc.2 hpage hlt hstruct, ← hm, Memory.setWord_word_self,
      byteOf_setByteOf _ _ (by omega), if_pos rfl]

end MockOs.Kernel
