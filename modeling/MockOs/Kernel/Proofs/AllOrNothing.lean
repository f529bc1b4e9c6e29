import MockOs.Kernel.Proofs.Isolation

/-!
# `fork` is all or nothing with three free pages

`get_free_page` never returns 0: when no page is free, its search ends at -1 and it hands out
the page below `LOW_MEM`. So `copy_process` never gives up, and a fork that finds a slot but
fewer than three free pages goes wrong without an error.
-/

namespace MockOs.Kernel

open Mm

/-- The address of a page of `mem_map`. -/
def pageAddr (i : Nat) : BitVec 32 := lowMem + BitVec.ofNat 32 (4096 * i)

/-- Task `t` has got the child `pid` in slot `nr`. The pages `k` of its structure, `g` of its page
table and `l` of its stack are different from each other and were free before. -/
structure ChildMade (s s' : ForkSys) (t : Nat) (r : Regs) (pid : BitVec 32) (nr k g l : Nat) : Prop where
  pid : 0 < pid.toInt
  slot : 1 ≤ nr ∧ nr < nrTasks ∧ s.task nr = 0
  free : k ∈ s.mm.freePages ∧ g ∈ s.mm.freePages.erase k ∧ l ∈ (s.mm.freePages.erase k).erase g
  task : s'.task = Function.update s.task nr (pageAddr k)
  gdt : s'.gdt = Function.update (Function.update s.gdt (2 * nr + 4)
    (setTssldtDesc (pageAddr k + Off.tss) 0x89)) (2 * nr + 5) (setTssldtDesc (pageAddr k + Off.ldt) 0x82)
  dir : s'.mm.read (BitVec.ofNat 32 (64 * nr)) = pageAddr g ||| 7
  stack : s'.mm.read (lin2phy (ForkSys.stackAddress r.esp (BitVec.ofNat 32 nr * taskSize)) s'.mm) = pageAddr l ||| 7
  parent : s'.get (pageAddr k) Off.pPptr = s.task t ∧ s'.get (s.task t) Off.pCptr = pageAddr k
  youngest : s'.get (pageAddr k) Off.pCptr = 0 ∧ s'.get (pageAddr k) Off.pYsptr = 0
  older : s'.get (pageAddr k) Off.pOsptr = s.get (s.task t) Off.pCptr ∧
    (s.get (s.task t) Off.pCptr ≠ 0 → s'.get (s.get (s.task t) Off.pCptr) Off.pYsptr = pageAddr k)

/-- A call of `fork` makes a child, or returns `-EAGAIN` and changes nothing but `last_pid`. -/
def AllOrNothing (s : ForkSys) (t : Nat) (r : Regs) : Prop :=
  ∃ s' ret, ForkSys.sysFork r { s with current := s.task t } = .ok (s', ret) ∧
    ((∃ nr k g l, ChildMade s s' t r ret nr k g l) ∨
      (ret = -eagain ∧ s' = { s with current := s.task t, lastPid := s'.lastPid }))

/-! ## A fork with three free pages -/

theorem pageAddr_eq {f : Nat} (hf : 256 ≤ f) : pageAddr (f - 256) = wordAddr (1024 * f) := by
  have hlow : lowMem = BitVec.ofNat 32 (4096 * 256) := by decide
  rw [pageAddr, hlow, ← BitVec.ofNat_add, wordAddr,
    show 4096 * 256 + 4096 * (f - 256) = 4 * (1024 * f) by omega]

namespace ForkRep

variable {vis : Nat → Prop} {w0 : Nat} {s s' : ForkSys} {loc tab : Fin 64 → Option Nat} {a : Spaces}
  {t c : Fin 64} {y k g l f : Nat} {r : Regs} {old : Option Nat} {pid : BitVec 32}

/-- The free frames are the free pages of `mem_map`. -/
theorem free_pages (h : Rep vis s.mm tab a) (hk : k ∈ freeFrames a) (hg : g ∈ (freeFrames a).erase k)
    (hl : l ∈ ((freeFrames a).erase k).erase g) :
    k - 256 ∈ s.mm.freePages ∧ g - 256 ∈ s.mm.freePages.erase (k - 256) ∧
      l - 256 ∈ (s.mm.freePages.erase (k - 256)).erase (g - 256) := by
  have hpage : ∀ f, f ∈ freeFrames a → 256 ≤ f ∧ f - 256 ∈ s.mm.freePages := by
    intro f hf
    have hge := (mem_freeFrames.mp hf).2.1
    refine ⟨by omega, h.mem_freePages.mpr ?_⟩
    rwa [show f - 256 + 256 = f by omega]
  rcases Finset.mem_erase.mp hg with ⟨hgk, hg'⟩
  rcases Finset.mem_erase.mp hl with ⟨hlg, hl'⟩
  rcases Finset.mem_erase.mp hl' with ⟨hlk, hl''⟩
  rcases hpage k hk with ⟨hk1, hk2⟩
  rcases hpage g hg' with ⟨hg1, hg2⟩
  rcases hpage l hl'' with ⟨hl1, hl2⟩
  exact ⟨hk2, Finset.mem_erase.mpr ⟨by omega, hg2⟩,
    Finset.mem_erase.mpr ⟨by omega, Finset.mem_erase.mpr ⟨by omega, hl2⟩⟩⟩

/-- What `copy_process` leaves is a child that is complete. -/
theorem childMade (h : ForkRep vis w0 s loc tab a) (ht : loc t = some y) (hc : c ≠ 0) (hcn : loc c = none)
    (hpos : 0 < pid.toNat) (hlt : pid.toNat < 2147483648) (h0 : 0 < r.esp.toNat) (h1 : r.esp.toNat ≤ 655360)
    (hk : k ∈ freeFrames a) (hg : g ∈ (freeFrames a).erase k) (hl : l ∈ ((freeFrames a).erase k).erase g)
    (hforked : Forked { s with current := s.task t, lastPid := pid } s' loc c y k old)
    (hrep : Rep vis s'.mm (Function.update tab c (some g)) (forkedSpaces t c k g l (stackPage r.esp) f a)) :
    ChildMade s s' t r pid c (k - 256) (g - 256) (l - 256) := by
  have hy := h.loc_bounds ht
  have hkb := mem_freeFrames.mp hk
  have hgb := mem_freeFrames.mp (Finset.mem_of_mem_erase hg)
  have hlb := mem_freeFrames.mp (Finset.mem_of_mem_erase (Finset.mem_of_mem_erase hl))
  have hp160 : stackPage r.esp < 160 := by unfold stackPage; omega
  have htabc : Function.update tab c (some g) c = some g := Function.update_self c (some g) tab
  have hchild : ∀ o j, Field o → o.toNat / 4 = j →
      s'.get (wordAddr (1024 * k)) o = s'.mm.word (1024 * k + j) :=
    fun o j ho hj => ForkSys.get_word j ho hj (by omega)
  have hparent : ∀ o j, Field o → o.toNat / 4 = j → s'.get (s.task t) o = s'.mm.word (y + j) := by
    intro o j ho hj
    rw [h.task_eq ht]
    exact ForkSys.get_word j ho hj (by omega)
  have hcptr : s.get (s.task t) Off.pCptr = old.elim 0 wordAddr := by
    rw [h.task_eq ht, ForkSys.get_word 176 (by decide) (by decide) (by omega)]
    exact hforked.before
  have hentry : ∀ f' < 4096, wordAddr (1024 * f') ||| 7 = entry f' 7 :=
    fun f' hf' => page_or_seven (by omega)
  have hclt := c.isLt
  refine ⟨?_, ⟨Fin.pos_iff_ne_zero.mpr hc, hclt, h.slot_eq_zero.mpr hcn⟩, free_pages h.rep hk hg hl, ?_, ?_,
    ?_, ?_, ⟨?_, ?_⟩, ⟨?_, ?_⟩, ⟨?_, fun hne => ?_⟩⟩
  · rw [BitVec.toInt_eq_toNat_of_lt (by omega)]
    omega
  · rw [pageAddr_eq (by omega), hforked.rest]
  · rw [pageAddr_eq (by omega), hforked.rest]
  · rw [pageAddr_eq (by omega), hentry g (by omega), show 64 * (c : Nat) = 4 * (16 * c) by omega]
    exact hrep.read_dir htabc
  · have hlin := hrep.lin2phy_eq htabc (toNat_stackAddress c h0 h1) (by omega)
    rw [Nat.mul_div_cancel_left _ (by decide)] at hlin
    rw [show BitVec.ofNat 32 (c : Nat) * taskSize = taskBase c from rfl, hlin, pageAddr_eq (by omega),
      hentry l (by omega), Memory.read_wordAddr (by omega), hrep.table c g htabc _ (by omega)]
    show pteWord (Cow.set2 _ c (stackPage r.esp) (some l) c (stackPage r.esp))
      (Cow.set2 _ c (stackPage r.esp) true c (stackPage r.esp)) = _
    rw [Cow.set2_self, Cow.set2_self]
    rfl
  · rw [pageAddr_eq (by omega), hchild _ 175 (by decide) (by decide), hforked.pptr, h.task_eq ht]
  · rw [pageAddr_eq (by omega), hparent _ 176 (by decide) (by decide), hforked.parent]
  · rw [pageAddr_eq (by omega), hchild _ 176 (by decide) (by decide), hforked.cptr]
  · rw [pageAddr_eq (by omega), hchild _ 177 (by decide) (by decide), hforked.ysptr]
  · rw [pageAddr_eq (by omega), hchild _ 178 (by decide) (by decide), hforked.osptr, hcptr]
  · rw [hcptr] at hne
    rw [hcptr, pageAddr_eq (by omega)]
    cases hold : old with
    | none =>
      rw [hold] at hne
      exact absurd rfl hne
    | some y' =>
      rcases hforked.oldLoc y' hold with ⟨t', -, ht'⟩
      have hy' := h.loc_bounds ht'
      show s'.get (wordAddr y') Off.pYsptr = _
      rw [ForkSys.get_word 177 (by decide) (by decide) (by omega)]
      exact hforked.older y' hold

/-- `fork` is all or nothing exactly when there is no slot, or a slot and three free pages. -/
theorem allOrNothing_iff (h : ForkRep vis w0 s loc tab a) (ht : loc t = some y) (h0 : 0 < r.esp.toNat)
    (h1 : r.esp.toNat ≤ 655360) : AllOrNothing s t r ↔ (¬ s.FreeSlot ∨ 3 ≤ s.mm.freePages.card) := by
  constructor
  · rintro ⟨s', ret, hcall, ⟨nr, k, g, l, hmade⟩ | ⟨hret, -⟩⟩
    · -- three pages that are different from each other
      rcases hmade.free with ⟨hk, hg, hl⟩
      have hcard := Finset.card_pos.mpr ⟨l, hl⟩
      rw [Finset.card_erase_of_mem hg, Finset.card_erase_of_mem hk] at hcard
      exact Or.inr (by omega)
    · -- with a slot, `copy_process` returns a process number and not an error
      refine Or.inl fun hslot => ?_
      rcases hslot with ⟨i, hi1, hi2, hizero⟩
      rcases ForkSys.sysFork_free (s := { s with current := s.task t }) (r := r) h.pid hi1 hi2 hizero with
        ⟨nr, pid, -, -, -, -, -, hlt, -, heq⟩
      have hpid : ret = pid := (ForkSys.copyProcess_ret (heq.symm.trans hcall)).1
      have hbig : (-eagain : BitVec 32).toNat = 4294967285 := by decide
      rw [← hpid, hret, hbig] at hlt
      omega
  · intro hcond
    by_cases hslot : s.FreeSlot
    · have hfree := hcond.resolve_left (not_not_intro hslot)
      rcases h.sysFork_forked ht hslot hfree h0 h1 with
        ⟨c, pid, k, g, l, f, old, s', hc, hcn, -, hpos, hlt, -, hk, hg, hl, -, hcall, hforked, -, hrep⟩
      exact ⟨s', pid, hcall, Or.inl ⟨c, _, _, _,
        h.childMade ht hc hcn hpos hlt h0 h1 hk hg hl hforked hrep.rep⟩⟩
    · rcases h.sysFork_full r (s.task t) hslot with ⟨pid, -, hcall⟩
      exact ⟨_, _, hcall, Or.inr ⟨rfl, rfl⟩⟩

end ForkRep

/-- In every state of every run that finds the pages it asks for, a `fork` of a live task is all
or nothing exactly when no slot is empty or three pages are free. -/
theorem fork_all_or_nothing_iff (b : Boot) (acts : List Act) (s : ForkSys)
    (hrun : Run.Trace ForkStep b.start acts s) (t : Nat) (hlive : s.Live t) (r : Regs)
    (h0 : 0 < r.esp.toNat) (h1 : r.esp.toNat ≤ 0xa0000) :
    AllOrNothing s t r ↔ (¬ s.FreeSlot ∨ 3 ≤ s.mm.freePages.card) := by
  rcases b.simulated hrun with ⟨loc, tab, a, arr, h⟩
  rcases h.rep.of_live hlive with ⟨t, y, rfl, ht⟩
  exact h.rep.allOrNothing_iff ht h0 h1

/-- The first fork of task 0 is all or nothing. -/
theorem fork_all_or_nothing_iff_first :
    Boot.blank.start.Live 0 ∧ 3 ≤ Boot.blank.start.mm.freePages.card ∧
      AllOrNothing Boot.blank.start 0 stackTop := by
  have hlive : Boot.blank.start.Live 0 :=
    (Boot.blank.start_forkRep.live_iff (t := 0)).mpr (Option.some_ne_none _)
  have hcard : 3 ≤ Boot.blank.start.mm.freePages.card := by
    rw [Boot.blank.start_forkRep.rep.card_freePages, card_bootSpaces]
    decide
  exact ⟨hlive, hcard, (fork_all_or_nothing_iff Boot.blank [] _ .nil 0 hlive stackTop (by decide)
    (by decide)).mpr (Or.inr hcard)⟩

/-- Nineteen children of task 0 have all but two pages of memory, 44 slots are empty, and the
next fork is neither all nor nothing. -/
theorem fork_with_two_pages_left : ∃ s,
    Run.Trace ForkStep Boot.blank.start (spend 18 ++ [.fork 0 stackTop] ++ faults 19 151) s ∧
      s.Live 0 ∧ s.FreeSlot ∧ s.mm.freePages.card = 2 ∧ ¬ AllOrNothing s 0 stackTop := by
  rcases Boot.blank.spend (n := 18) (by decide) with ⟨s, hspend, hs⟩
  rcases hs.fork (by decide) with ⟨s1, hfork, hs1⟩
  rcases hs1.faults (k := 151) (by decide) (by decide) (by decide) (by decide) with ⟨s2, hfaults, hs2⟩
  rcases hs2 with ⟨loc, tab, a, hrep, hspent⟩
  have hcard : s2.mm.freePages.card = 2 := by
    have hsum := hspent.card
    omega
  have hslot : s2.FreeSlot :=
    ⟨20, by decide, by decide, (hrep.slot_eq_zero (t := 20)).mpr ((hspent.tasks 20).mpr (by decide))⟩
  have hlive : s2.Live 0 := (hrep.live_iff (t := 0)).mpr (by rw [hrep.locZero]; exact Option.some_ne_none _)
  refine ⟨s2, (hspend.snoc hfork).append hfaults, hlive, hslot, hcard, fun hall => ?_⟩
  rcases (hrep.allOrNothing_iff (t := 0) hrep.locZero (by decide) (by decide)).mp hall with hno | hthree
  · exact hno hslot
  · omega

end MockOs.Kernel
