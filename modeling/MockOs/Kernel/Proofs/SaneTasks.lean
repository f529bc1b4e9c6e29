import MockOs.Kernel.Proofs.CopyProcess
import MockOs.Kernel.Proofs.Pid
import MockOs.Kernel.User
import MockOs.Mm.Proofs.Sane

/-!
# `copy_process` on page tables that are only sane

A stack pointer of the user's can lead `copy_process` to any page, and then the address spaces
of the tasks are not what they were meant to be. Their structures are in frames of their own
all the same, and a fork with three free pages makes a task.
-/

namespace MockOs.Kernel

open Mm

/-- The frames of the structures. -/
def HeldBy (loc : Fin 64 → Option Nat) (f : Nat) : Prop := ∃ t, t ≠ 0 ∧ loc t = some (1024 * f)

/-- The number of tasks. -/
def taskCount (loc : Fin 64 → Option Nat) : Nat := (Finset.univ.filter fun t => loc t ≠ none).card

section Count

variable {loc : Fin 64 → Option Nat} {c : Fin 64} {x : Nat}

theorem taskCount_le (loc : Fin 64 → Option Nat) : taskCount loc ≤ 64 :=
  (Finset.card_le_univ _).trans_eq (Fintype.card_fin 64)

theorem live_update (c : Fin 64) (x : Nat) :
    (fun t => Function.update loc c (some x) t ≠ none) = fun t => t = c ∨ loc t ≠ none := by
  funext t
  by_cases htc : t = c
  · simp [htc]
  · simp [htc]

theorem taskCount_update (hc : loc c = none) : taskCount (Function.update loc c (some x)) = taskCount loc + 1 := by
  have hset : (Finset.univ.filter fun t => Function.update loc c (some x) t ≠ none) =
      insert c (Finset.univ.filter fun t => loc t ≠ none) := by
    ext t
    have hlive : (Function.update loc c (some x) t ≠ none) = (t = c ∨ loc t ≠ none) := congrFun (live_update c x) t
    rw [Finset.mem_filter, Finset.mem_insert, Finset.mem_filter, hlive]
    exact ⟨fun h => h.2.imp_right fun hne => ⟨Finset.mem_univ t, hne⟩,
      fun h => ⟨Finset.mem_univ t, h.imp_right fun hne => hne.2⟩⟩
  rw [taskCount, hset, Finset.card_insert_of_notMem, taskCount]
  rw [Finset.mem_filter]
  exact fun h => h.2 hc

theorem heldBy_update (hc : c ≠ 0) (hcn : loc c = none) (k : Nat) :
    HeldBy (Function.update loc c (some (1024 * k))) = fun f => f = k ∨ HeldBy loc f := by
  funext f
  refine propext ⟨?_, ?_⟩
  · rintro ⟨t, ht, hx⟩
    by_cases htc : t = c
    · rw [htc, Function.update_self] at hx
      have heq := Option.some.inj hx
      exact Or.inl (by omega)
    · rw [Function.update_of_ne htc] at hx
      exact Or.inr ⟨t, ht, hx⟩
  · rintro (rfl | ⟨t, ht, hx⟩)
    · exact ⟨c, hc, Function.update_self ..⟩
    · refine ⟨t, ht, ?_⟩
      rw [Function.update_of_ne]
      · exact hx
      · rintro rfl
        rw [hcn] at hx
        cases hx

end Count

/-- The structures of the tasks, and the page tables beside them. -/
structure SaneTasks (w0 : Nat) (s : ForkSys) (loc : Fin 64 → Option Nat) : Prop where
  structs : Structs w0 s loc
  sane : Sane s.mm (HeldBy loc) (fun t => loc t ≠ none) (taskCount loc)
  pid : s.lastPid.toNat < 2147483648

namespace SaneTasks

variable {w0 : Nat} {s s' : ForkSys} {loc : Fin 64 → Option Nat} {t c : Fin 64} {y k : Nat} {r : Regs}

theorem of_live (h : SaneTasks w0 s loc) {n : Nat} (hlive : s.Live n) :
    ∃ (t : Fin 64) (x : Nat), (t : Nat) = n ∧ loc t = some x := by
  have hlt : n < 64 := hlive.1
  cases hx : loc ⟨n, hlt⟩ with
  | none =>
    refine absurd ?_ hlive.2
    have htask := h.structs.task ⟨n, hlt⟩
    rw [hx] at htask
    exact htask
  | some x => exact ⟨⟨n, hlt⟩, x, rfl, hx⟩

theorem slot_eq_zero (h : SaneTasks w0 s loc) : s.task t = 0 ↔ loc t = none := by
  cases hx : loc t with
  | none =>
    rw [h.structs.task t, hx]
    exact ⟨fun _ => rfl, fun _ => rfl⟩
  | some x =>
    have hb := h.structs.loc_bounds hx
    rw [h.structs.task_eq hx]
    exact ⟨fun hz => absurd hz (wordAddr_ne_zero (by omega) (by omega)), fun hno => by cases hno⟩

/-- The words of the structures are those that the paging code leaves alone. -/
theorem apart (h : Structs w0 s loc) (hk : 256 ≤ k) {z : Nat} (hz : InStruct loc z ∨ z / 1024 = k) :
    Sane.Apart (fun f => f = k ∨ HeldBy loc f) z := by
  rcases hz with ⟨t, x, hx, hz, hz'⟩ | hz
  · by_cases ht : t = 0
    · rw [ht, h.locZero] at hx
      have heq := Option.some.inj hx
      have hlow := h.initLow
      exact ⟨by omega, Or.inl (by omega)⟩
    · rcases h.locHigh t x ht hx with ⟨f, rfl, hf, -⟩
      have hzf : z / 1024 = f := by omega
      exact ⟨by omega, Or.inr (Or.inr ⟨t, ht, by rw [hzf]; exact hx⟩)⟩
  · exact ⟨by omega, Or.inr (Or.inl hz)⟩

/-- The words of the tables are in no structure. -/
theorem not_inStruct (h : Structs w0 s loc) (hk : 256 ≤ k) {z : Nat}
    (hz : z < 5120 ∨ (256 ≤ z / 1024 ∧ ¬ (z / 1024 = k ∨ HeldBy loc (z / 1024)))) :
    ¬ InStruct loc z ∧ z / 1024 ≠ k := by
  refine ⟨?_, ?_⟩
  · rintro ⟨t, x, hx, hxz, hzx⟩
    by_cases ht : t = 0
    · rw [ht, h.locZero] at hx
      have heq := Option.some.inj hx
      have hlow := h.initLow
      omega
    · rcases h.locHigh t x ht hx with ⟨f, rfl, hf, -⟩
      have hzf : z / 1024 = f := by omega
      rcases hz with hlow | ⟨-, hno⟩
      · omega
      · exact hno (Or.inr ⟨t, ht, by rw [hzf]; exact hx⟩)
  · rcases hz with hlow | ⟨-, hno⟩
    · omega
    · exact fun heq => hno (Or.inl heq)

/-- `get_free_page` gives the child's structure a frame that nothing else is in. -/
theorem fresh (h : SaneTasks w0 s loc) (hfree : s.mm.freePages.Nonempty) :
    ∃ k m, FreshPage s loc k m ∧ getFreePage s.mm = (m, wordAddr (1024 * k)) ∧
      Sane m (fun f => f = k ∨ HeldBy loc f) (fun t => loc t ≠ none) (taskCount loc) ∧
      m.freePages = s.mm.freePages.erase (k - 256) := by
  rcases getFreePage_eq (s := s.mm) hfree with ⟨k, hk, hk', hk0, heq⟩
  refine ⟨k, _, ⟨hk, hk', fun z hz => ?_, fun z hz => by rw [Memory.fill_word_ne _ hz]; rfl⟩, heq,
    h.sane.hold hk hk' hk0, freePages_take s.mm hk _⟩
  · rcases hz with ⟨t', x, hx, hxz, hzx⟩
    by_cases ht' : t' = 0
    · rw [ht', h.structs.locZero] at hx
      have heqx := Option.some.inj hx
      have hlow := h.structs.initLow
      omega
    · rcases h.structs.locHigh t' x ht' hx with ⟨f, rfl, hf, -⟩
      intro hzk
      refine h.sane.held_free hk0 ⟨t', ht', ?_⟩
      rw [← hzk, show z / 1024 = f by omega]
      exact hx

/-- The copies of the page tables and of the page of the stack, whatever page that is. -/
theorem copies {m : Memory} {n : Nat} {held : Nat → Prop} (a : BitVec 32)
    (h : Sane m held (fun t => loc t ≠ none) n) (ht : loc t = some y) (hn : n < 255)
    (hto : 1#32 &&& m.word (16 * c) = 0) (hcard : 2 ≤ m.freePages.card) :
    ∃ m4 m5, copyPageTables (taskBase t) (taskBase c) 0xa0000 m = .ok (m4, 0) ∧
      unWpPage (lin2phy a m4) m4 = m5 ∧ Sane m5 held (fun t' => t' = c ∨ loc t' ≠ none) (n + 1) ∧
      (∀ z, Sane.Apart held z → m4.word z = m.word z) ∧ (∀ z, Sane.Apart held z → m5.word z = m.word z) ∧
      m.freePages.card ≤ m5.freePages.card + 3 := by
  have hlt := a.isLt
  rcases h.copyTables (by rw [ht]; exact Option.some_ne_none y) hn
    (toNat_taskBase t) (toNat_taskBase c) hto (Finset.card_pos.mp (by omega)) with ⟨g, m4, hcopy, hsane4, hkeep4, hfree4⟩
  have hcard4 : m.freePages.card ≤ m4.freePages.card + 1 :=
    (Nat.sub_le_iff_le_add).mp ((Finset.pred_card_le_card_erase).trans (Finset.card_le_card hfree4))
  rcases hsane4.unWpPage (Nat.succ_pos n) (d := a.toNat / 4194304) (i := a.toNat / 4096 % 1024) (by omega)
    (Nat.mod_lt _ (by decide)) (Or.inl (Finset.card_pos.mp (by omega))) with ⟨x1, x2, hsane5, hkeep5, hfree5⟩
  have hcard5 := Finset.card_le_card hfree5
  have herase1 := Finset.pred_card_le_card_erase (s := m4.freePages) (a := x1)
  have herase2 := Finset.pred_card_le_card_erase (s := m4.freePages.erase x1) (a := x2)
  rw [dirFrame, ← lin2phy_walk a m4] at hsane5 hkeep5 hcard5
  exact ⟨m4, _, hcopy, rfl, hsane5, hkeep4, fun z hz => (hkeep5 z hz).trans (hkeep4 z hz), by omega⟩

/-- `copy_process` panics if the directory has an entry for the slot. -/
theorem copyProcess_exists (h : SaneTasks w0 s loc) (ht : loc t = some y) (hcur : s.current = wordAddr y)
    (r : Regs) (hfree : s.mm.freePages.Nonempty) (hto : 1#32 &&& s.mm.word (16 * c) ≠ 0) :
    ∃ e, s.copyProcess c r = .error e := by
  rcases h.fresh hfree with ⟨k, m1, hfresh, heq, -, -⟩
  have hc64 := c.isLt
  have hk := hfresh.low
  have hdir : (s.prepared c r k m1).mm.word (16 * c) = s.mm.word (16 * c) := by
    rw [(h.structs.prepared ht hcur c r hfresh).word _ (by omega), hfresh.word _ (by omega)]
  exact ⟨_, h.structs.copyProcess_panic ht hcur hfresh heq
    (copyPageTables_exists (toNat_taskBase t) (toNat_taskBase c) (by rw [hdir]; exact hto))⟩

/-- With an empty slot and three free pages, `copy_process` makes a task; it takes at most four
pages out of `mem_map`. -/
theorem copyProcess (h : SaneTasks w0 s loc) (ht : loc t = some y) (hcur : s.current = wordAddr y) (hc : c ≠ 0)
    (hcn : loc c = none) (r : Regs) (hto : 1#32 &&& s.mm.word (16 * c) = 0) (hfree : 3 ≤ s.mm.freePages.card) :
    ∃ k m old s', FreshPage s loc k m ∧ s.copyProcess c r = .ok (s', s.lastPid) ∧
      Forked s s' loc c y k old ∧ ForkSys.ChildSet s'.mm s.lastPid c (1024 * k) ∧
      SaneTasks w0 s' (Function.update loc c (some (1024 * k))) ∧
      s.mm.freePages.card ≤ s'.mm.freePages.card + 4 ∧
      ∀ j, 178 < j → j < 1024 → s'.mm.word (1024 * k + j) = (s.prepared c r k m).mm.word (1024 * k + j) := by
  have hle := taskCount_le loc
  have hc64 := c.isLt
  rcases h.fresh (Finset.card_pos.mp (by omega)) with ⟨k, m1, hfresh, heq, hsane1, hfree1⟩
  have hk := hfresh.low
  have hprep := h.structs.prepared ht hcur c r hfresh
  have hsane3 := hsane1.rewrite hprep.map fun z hz => hprep.word z (not_inStruct h.structs hk hz).2
  have hfree3 := Memory.freePages_congr hprep.map
  have hcard1 : s.mm.freePages.card - 1 ≤ m1.freePages.card := by
    rw [hfree1]
    exact Finset.pred_card_le_card_erase
  have hto' : 1#32 &&& (s.prepared c r k m1).mm.word (16 * c) = 0 := by
    rw [hprep.word _ (by omega), hfresh.word _ (by omega)]
    exact hto
  rcases copies (ForkSys.stackAddress r.esp (taskBase c)) hsane3 ht (by omega) hto'
    (by rw [hfree3]; omega) with ⟨m4, m5, hcopy, hm5, hsane5, hkeep4, hkeep5, hcard5⟩
  rcases h.structs.copyProcess_forked ht hcur hfresh heq hcopy hm5
    (fun z hz => hkeep4 z (apart h.structs hk hz)) (fun z hz => hkeep5 z (apart h.structs hk hz)) with
    ⟨old, s', hcall, hforked, hset, hmap, hword, hchild⟩
  refine ⟨k, m1, old, s', hfresh, hcall, hforked, hset, ⟨hforked.structs h.structs ht hc hcn hfresh, ?_, ?_⟩,
    ?_, hchild⟩
  · rw [heldBy_update hc hcn, live_update, taskCount_update hcn]
    refine hsane5.rewrite hmap fun z hz => ?_
    have hno := not_inStruct h.structs hk hz
    exact hword z hno.1 hno.2
  · rw [hforked.rest]
    exact h.pid
  · rw [Memory.freePages_congr hmap]
    rw [hfree3] at hcard5
    omega

/-- Which task runs, and the last process number, do not matter. -/
theorem switch (h : SaneTasks w0 s loc) (cur : BitVec 32) {pid : BitVec 32} (hpid : pid.toNat < 2147483648) :
    SaneTasks w0 { s with current := cur, lastPid := pid } loc :=
  ⟨{ h.structs with }, h.sane, hpid⟩

/-- A call of `fork` that returns has made a task if there was an empty slot. -/
theorem forkCall {call : Nat × Regs} (h : SaneTasks w0 s loc) (hstep : ForkCall call s s') (hslot : s.FreeSlot)
    (hcard : 3 ≤ s.mm.freePages.card) :
    ∃ (t c : Fin 64) (y k : Nat) (pid : BitVec 32) (old : Option Nat) (m : Memory), (t : Nat) = call.1 ∧
      loc t = some y ∧ c ≠ 0 ∧ loc c = none ∧ (∀ j : Fin 64, j ≠ 0 → j < c → loc j ≠ none) ∧ 0 < pid.toNat ∧
      pid.toNat < 2147483648 ∧ s.pidTaken pid = false ∧ FreshPage s loc k m ∧
      Forked { s with current := s.task t, lastPid := pid } s' loc c y k old ∧
      ForkSys.ChildSet s'.mm pid c (1024 * k) ∧ SaneTasks w0 s' (Function.update loc c (some (1024 * k))) ∧
      s.mm.freePages.card ≤ s'.mm.freePages.card + 4 ∧
      ∀ j, 178 < j → j < 1024 → s'.mm.word (1024 * k + j) =
        (({ s with current := s.task t, lastPid := pid } : ForkSys).prepared c call.2 k m).mm.word (1024 * k + j) := by
  rcases hstep with ⟨hlive, hexec⟩
  rcases h.of_live hlive with ⟨t, y, hty, ht⟩
  rw [← hty] at hexec
  rcases hslot with ⟨i, hi1, hi2, hizero⟩
  rcases ForkSys.sysFork_free (s := { s with current := s.task t }) (r := call.2) h.pid hi1 hi2 hizero with
    ⟨nr, pid, hnr1, hnr2, hzero, hfirst, hpos, hlt, htaken, heq⟩
  have hcn : loc ⟨nr, hnr2⟩ = none := (h.slot_eq_zero (t := ⟨nr, hnr2⟩)).mp hzero
  have hc0 : (⟨nr, hnr2⟩ : Fin 64) ≠ 0 := Fin.pos_iff_ne_zero.mp hnr1
  have hs := h.switch (s.task t) hlt
  by_cases hto : 1#32 &&& s.mm.word (16 * nr) = 0
  · rcases hs.copyProcess (c := ⟨nr, hnr2⟩) ht (h.structs.task_eq ht) hc0 hcn call.2 hto hcard with
      ⟨k, m, old, s1, hfresh, hcall, hforked, hset, hsane, hless, hchild⟩
    simp only [ForkSys.exec, heq.trans hcall] at hexec
    obtain rfl : s1 = s' := Option.some.inj hexec
    refine ⟨t, ⟨nr, hnr2⟩, y, k, pid, old, m, hty, ht, hc0, hcn, fun j hj hjc hnone => ?_, hpos, hlt, htaken,
      ⟨hfresh.low, hfresh.high, hfresh.apart, hfresh.word⟩, hforked, hset, hsane, hless, hchild⟩
    exact hfirst j (Fin.pos_iff_ne_zero.mpr hj) hjc (h.slot_eq_zero.mpr hnone)
  · rcases hs.copyProcess_exists (c := ⟨nr, hnr2⟩) ht (h.structs.task_eq ht) call.2
      (Finset.card_pos.mp (Nat.lt_of_lt_of_le (by decide) hcard)) hto with ⟨e, hcall⟩
    simp only [ForkSys.exec, heq.trans hcall] at hexec
    cases hexec

/-- Without an empty slot a call of `fork` only takes a process number. -/
theorem forkCall_full {call : Nat × Regs} (h : SaneTasks w0 s loc) (hstep : ForkCall call s s')
    (hfull : ¬ s.FreeSlot) :
    ∃ pid : BitVec 32, pid.toNat < 2147483648 ∧ s' = { s with current := s.task call.1, lastPid := pid } := by
  rcases hstep with ⟨-, hexec⟩
  rcases ForkSys.sysFork_full (s := { s with current := s.task call.1 }) (r := call.2) h.pid
    (fun i h1 h2 hz => hfull ⟨i, h1, h2, hz⟩) with ⟨pid, hlt, hcall⟩
  simp only [ForkSys.exec, hcall] at hexec
  exact ⟨pid, hlt, (Option.some.inj hexec).symm⟩

/-- A call of `fork` that returns has made a task, or has found no slot. -/
theorem step {call : Nat × Regs} (h : SaneTasks w0 s loc) (hstep : ForkCall call s s')
    (hpages : s.FreeSlot → 3 ≤ s.mm.freePages.card) :
    ∃ loc', StructStep loc s s' loc' ∧ SaneTasks w0 s' loc' ∧ s'.current = s.task call.1 ∧
      s.mm.freePages.card + 4 * taskCount loc ≤ s'.mm.freePages.card + 4 * taskCount loc' := by
  by_cases hslot : s.FreeSlot
  · rcases h.forkCall hstep hslot (hpages hslot) with
      ⟨t, c, y, k, pid, old, m, hty, ht, hc0, hcn, hfirst, hpos, hlt, htaken, hfresh, hforked, hset, hsane, hless, -⟩
    refine ⟨_, .forked t c y k pid old m ht hc0 hcn hfirst hpos hlt htaken hfresh hforked hset, hsane, ?_, ?_⟩
    · rw [hforked.rest, ← hty]
    · rw [taskCount_update hcn]
      omega
  · rcases h.forkCall_full hstep hslot with ⟨pid, hlt, heq⟩
    rw [heq]
    exact ⟨loc, .failed _ _ hlt rfl, h.switch _ hlt, rfl, Nat.le_refl _⟩

end SaneTasks

end MockOs.Kernel
