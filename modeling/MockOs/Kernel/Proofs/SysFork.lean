import MockOs.Kernel.Proofs.Init
import MockOs.Kernel.Proofs.User
import MockOs.Misc.Run

/-!
# `sys_fork` on a represented system

With a slot and three free pages a fork succeeds and takes those pages; without a slot it
changes nothing but `last_pid`. Forks and faults in turn use up the memory. What `copy_process`
returns, and that the child could run, does not depend on what is in memory.
-/

namespace MockOs.Kernel

open Mm

/-! ## Whatever memory is like -/

namespace ForkSys

/-- The slots and the last process number are the same. -/
structure SameTable (s s' : ForkSys) : Prop where
  task : s'.task = s.task
  lastPid : s'.lastPid = s.lastPid

theorem SameTable.refl (s : ForkSys) : s.SameTable s := ⟨rfl, rfl⟩

theorem SameTable.trans {s s' s'' : ForkSys} (h : s.SameTable s') (h' : s'.SameTable s'') : s.SameTable s'' :=
  ⟨h'.task.trans h.task, h'.lastPid.trans h.lastPid⟩

theorem get_set (s : ForkSys) (p o v : BitVec 32) : (s.set p o v).get p o = v := by
  simp only [get, set, Memory.read, Memory.write, Memory.setWord_word_self]

theorem set_table (s : ForkSys) (p o v : BitVec 32) : s.SameTable (s.set p o v) := ⟨rfl, rfl⟩

theorem setFields_table (p : BitVec 32) (fs : List (BitVec 32 × BitVec 32)) (s : ForkSys) :
    s.SameTable (s.setFields p fs) := by
  induction fs generalizing s with
  | nil => exact .refl s
  | cons f fs ih => exact (s.set_table p f.1 f.2).trans (ih _)

theorem countFiles_table (p : BitVec 32) (n i : Nat) (s : ForkSys) : s.SameTable (s.countFiles p n i) := by
  induction n generalizing i s with
  | zero => exact .refl s
  | succ n ih =>
    rw [countFiles]
    refine SameTable.trans ?_ (ih (i + 1) _)
    split
    · exact ⟨rfl, rfl⟩
    · exact .refl s

theorem countInode_table (off : BitVec 32) (s : ForkSys) : s.SameTable (s.countInode off) := by
  rw [countInode]
  split
  · exact ⟨rfl, rfl⟩
  · exact .refl s

theorem linkProcess_table (p : BitVec 32) (s : ForkSys) : s.SameTable (s.linkProcess p) := by
  simp only [linkProcess]
  split
  · exact ⟨rfl, rfl⟩
  · exact ⟨rfl, rfl⟩

theorem initChild_table (nr : Nat) (r : Regs) (p : BitVec 32) (s : ForkSys) : s.SameTable (s.initChild nr r p) := by
  simp only [initChild]
  generalize movsl taskWords s.current p s.mm = m
  generalize hs' : setFields p _ _ = s'
  have hfields : s.SameTable s' := by
    constructor
    · rw [← hs', (setFields_table p _ _).task]
    · rw [← hs', (setFields_table p _ _).lastPid]
  split
  · exact ⟨hfields.task, hfields.lastPid⟩
  · exact hfields

theorem finishChild_table (nr : Nat) (esp p : BitVec 32) (s : ForkSys) : s.SameTable (s.finishChild nr esp p) := by
  constructor
  · simp only [finishChild, set, (linkProcess_table _ _).task, (countInode_table _ _).task,
      (countFiles_table _ _ _ _).task]
  · simp only [finishChild, set, (linkProcess_table _ _).lastPid, (countInode_table _ _).lastPid,
      (countFiles_table _ _ _ _).lastPid]

/-- `copy_mem` panics or returns 0. -/
theorem copyMem_ret {nr : Nat} {p ret : BitVec 32} {s s' : ForkSys} (h : s.copyMem nr p = .ok (s', ret)) :
    ret = 0 ∧ s.SameTable s' := by
  simp only [copyMem] at h
  split at h
  · cases h
  · split at h
    · cases h
    · cases hcopy : copyPageTables (getBase (s.getDesc (ldtEntry s.current 2))) (BitVec.ofNat 32 nr * taskSize)
        (s.getLimit 0x17) (s.setBases (BitVec.ofNat 32 nr * taskSize) p).mm with
      | error e =>
        rw [hcopy] at h
        cases h
      | ok v =>
        rw [hcopy] at h
        cases h
        exact ⟨rfl, rfl, rfl⟩

/-- If `copy_process` returns, it returns the process number, and the child could run. -/
theorem copyProcess_ret {nr : Nat} {r : Regs} {s s' : ForkSys} {ret : BitVec 32}
    (h : s.copyProcess nr r = .ok (s', ret)) :
    ret = s.lastPid ∧ s'.get (s'.task nr) Off.state = taskRunning := by
  have hne := getFreePage_ne_zero s.mm
  simp only [copyProcess] at h
  generalize getFreePage s.mm = page at h hne
  rw [if_neg hne] at h
  have hinit := initChild_table nr r page.2 { s with mm := page.1, task := Function.update s.task nr page.2 }
  generalize initChild nr r page.2 _ = s1 at h hinit
  cases hmem : s1.copyMem nr page.2 with
  | error e =>
    rw [hmem] at h
    cases h
  | ok v =>
    rcases v with ⟨s2, err⟩
    rcases copyMem_ret hmem with ⟨rfl, hcopied⟩
    rw [hmem] at h
    have hret : Except.ok (s2.finishChild nr r.esp page.2, (s2.finishChild nr r.esp page.2).lastPid) =
        (Except.ok (s', ret) : Except Halt (ForkSys × BitVec 32)) := h
    obtain ⟨rfl, rfl⟩ := Prod.mk.inj (Except.ok.inj hret)
    have hall := (hinit.trans hcopied).trans (finishChild_table nr r.esp page.2 s2)
    refine ⟨hall.lastPid, ?_⟩
    have hslot : (s2.finishChild nr r.esp page.2).task nr = page.2 :=
      (congrFun hall.task nr).trans (Function.update_self ..)
    rw [hslot]
    exact get_set _ _ _ _

end ForkSys

namespace ForkRep

variable {vis : Nat → Prop} {w0 : Nat} {s : ForkSys} {loc tab : Fin 64 → Option Nat} {a : Spaces}
  {t c : Fin 64} {x y k g l p f : Nat} {r : Regs} {pid : BitVec 32}

/-- Which task runs, and the last process number, do not matter. -/
theorem switch (h : ForkRep vis w0 s loc tab a) (cur : BitVec 32) (hpid : pid.toNat < 2147483648) :
    ForkRep vis w0 { s with current := cur, lastPid := pid } loc tab a :=
  { h with pid := hpid }

theorem slot_eq_zero (h : ForkRep vis w0 s loc tab a) : s.task t = 0 ↔ loc t = none := by
  have hlive := h.live_iff (t := t)
  constructor
  · intro hz
    by_contra hne
    exact (hlive.mpr hne).2 hz
  · intro hnone
    rw [h.task t, hnone]
    rfl

/-- Without an empty slot, `sys_fork` only moves `last_pid`. -/
theorem sysFork_full (h : ForkRep vis w0 s loc tab a) (r : Regs) (cur : BitVec 32) (hfull : ¬ s.FreeSlot) :
    ∃ pid : BitVec 32, pid.toNat < 2147483648 ∧
      ForkSys.sysFork r { s with current := cur } =
        .ok ({ s with current := cur, lastPid := pid }, -eagain) := by
  have hno : ∀ i, 1 ≤ i → i < 64 → ({ s with current := cur } : ForkSys).task i ≠ 0 :=
    fun i h1 h2 hz => hfull ⟨i, h1, h2, hz⟩
  exact ForkSys.sysFork_full h.pid hno

/-- With an empty slot and three free pages, `sys_fork` makes a task in the first such slot. -/
theorem sysFork_forked (h : ForkRep vis w0 s loc tab a) (ht : loc t = some y) (hslot : s.FreeSlot)
    (hfree : 3 ≤ s.mm.freePages.card) (h0 : 0 < r.esp.toNat) (h1 : r.esp.toNat ≤ 655360) :
    ∃ (c : Fin 64) (pid : BitVec 32) (k g l f : Nat) (old : Option Nat) (s' : ForkSys), c ≠ 0 ∧ loc c = none ∧
      (∀ j : Fin 64, j ≠ 0 → j < c → loc j ≠ none) ∧ 0 < pid.toNat ∧ pid.toNat < 2147483648 ∧
      s.pidTaken pid = false ∧ k ∈ freeFrames a ∧ g ∈ (freeFrames a).erase k ∧ l ∈ ((freeFrames a).erase k).erase g ∧
      a.pte t (stackPage r.esp) = some f ∧
      ForkSys.sysFork r { s with current := s.task t } = .ok (s', pid) ∧
      Forked { s with current := s.task t, lastPid := pid } s' loc c y k old ∧
      ForkSys.ChildSet s'.mm pid c (1024 * k) ∧
      ForkRep vis w0 s' (Function.update loc c (some (1024 * k))) (Function.update tab c (some g))
        (forkedSpaces t c k g l (stackPage r.esp) f a) := by
  rcases hslot with ⟨i, hi1, hi2, hizero⟩
  rcases ForkSys.sysFork_free (s := { s with current := s.task t }) (r := r) h.pid hi1 hi2 hizero with
    ⟨nr, pid, hnr1, hnr2, hzero, hfirst, hpos, hlt, htaken, heq⟩
  have hcn : loc ⟨nr, hnr2⟩ = none := (h.slot_eq_zero (t := ⟨nr, hnr2⟩)).mp hzero
  have hc0 : (⟨nr, hnr2⟩ : Fin 64) ≠ 0 := by
    intro hz
    have hval := congrArg Fin.val hz
    have hnr0 : nr = 0 := hval
    omega
  have hs := h.switch (s.task t) hlt
  rcases hs.copyProcess_forked (c := ⟨nr, hnr2⟩) ht (h.task_eq ht) hc0 hcn h0 h1 hfree with
    ⟨k, g, l, f, old, s', hk, hg, hl, hf, hcall, hrep, hforked, hset⟩
  refine ⟨⟨nr, hnr2⟩, pid, k, g, l, f, old, s', hc0, hcn, fun j hj hjc hnone => ?_, hpos, hlt, htaken, hk, hg, hl, hf,
    heq.trans hcall, hforked, hset, hforked.forkRep hs ht hc0 hcn hk hg hrep⟩
  exact hfirst j (Fin.pos_iff_ne_zero.mpr hj) hjc ((h.slot_eq_zero).mpr hnone)

/-- What a step does to the structures of the tasks, in a represented system. -/
theorem step (h : ForkRep vis w0 s loc tab a) {act : Act} {s' : ForkSys} (hstep : ForkStep act s s') :
    ∃ loc' tab' a', StructStep loc s s' loc' ∧ ForkRep vis w0 s' loc' tab' a' := by
  rcases hstep with ⟨hallow, hexec⟩
  cases act with
  | fork n r =>
    rcases hallow with ⟨hlive, h0, h1, hpages⟩
    rcases h.of_live hlive with ⟨t, y, rfl, ht⟩
    by_cases hslot : s.FreeSlot
    · rcases h.sysFork_forked ht hslot (hpages hslot) h0 h1 with
        ⟨c, pid, k, g, l, f, old, s1, hc, hcn, hfirst, hpos, hlt, htaken, hk, -, -, -, hcall, hforked, hset, hrep⟩
      simp only [ForkSys.exec, hcall] at hexec
      obtain rfl : s1 = s' := Option.some.inj hexec
      exact ⟨_, _, _, .forked t c y k pid old _ ht hc hcn hfirst hpos hlt htaken (h.freshPage hk) hforked hset,
        hrep⟩
    · rcases h.sysFork_full r (s.task t) hslot with ⟨pid, hlt, hcall⟩
      simp only [ForkSys.exec, hcall] at hexec
      rw [← Option.some.inj hexec]
      exact ⟨loc, tab, a, .failed _ _ hlt rfl, h.switch _ hlt⟩
  | fault n off =>
    rcases hallow with ⟨hlive, hn, hoff, hpages⟩
    rcases h.of_live hlive with ⟨t, x, rfl, ht⟩
    rcases h.page_eq ht hoff with ⟨f, hf⟩
    have hfault : s.userFault t off = some s' := hexec
    rcases h.userFault_unshared ht (Fin.pos_iff_ne_zero.mp hn) hoff hf hpages with
      ⟨-, hno⟩ | ⟨-, s1, a', heq, -, hkept, hrep⟩
    · rw [hno] at hfault
      cases hfault
    · obtain rfl : s1 = s' := Option.some.inj (heq.symm.trans hfault)
      exact ⟨loc, tab, a', .kept hkept, hrep⟩
  | store n off v =>
    rcases hallow with ⟨hlive, hn, hoff, hpages⟩
    rcases h.of_live hlive with ⟨t, x, rfl, ht⟩
    rcases h.page_eq ht hoff with ⟨f, hf⟩
    have hstore : s.userStore t off v = some s' := hexec
    rcases h.userStore_eq ht (Fin.pos_iff_ne_zero.mp hn) hoff hf v hpages with
      ⟨s1, a', f', w, heq, -, -, -, -, -, hkept, hrep, -⟩
    obtain rfl : s1 = s' := Option.some.inj (heq.symm.trans hstore)
    exact ⟨loc, tab, _, .kept hkept, hrep⟩

/-- The child sees the memory of its parent. -/
theorem forkedSpaces_agrees (h : ForkRep vis w0 s loc tab a) (ht : loc t = some y) (hc : c ≠ 0)
    (hcn : loc c = none) (hk : k ∈ freeFrames a) (hg : g ∈ (freeFrames a).erase k)
    (hl : l ∈ ((freeFrames a).erase k).erase g) (hf : a.pte t p = some f)
    {arr : Fin 64 → Nat → Nat → BitVec 32} (hagree : Cow.Agrees a arr) :
    Cow.Agrees (forkedSpaces t c k g l p f a) (Function.update arr c (arr t)) := by
  have hct : c ≠ t := slot_ne ht hcn
  have hfree : ∀ k', k' ∈ freeFrames a → ∀ t' p', a.pte t' p' ≠ some k' := by
    intro k' hk'
    rcases mem_freeFrames.mp hk' with ⟨-, h1, h0⟩
    exact (h.rep.free h1 h0).2
  have hgfree := hfree g (Finset.mem_of_mem_erase hg)
  have hlfree := hfree l (Finset.mem_of_mem_erase (Finset.mem_of_mem_erase hl))
  have hunmapped := h.rep.unmapped c hc ((h.locTab c hc).mp hcn)
  have hpte := h.copied_pte ht hc hcn (k := k) (g := g) fun _ => 0
  have hshare : Cow.Agrees (Rep.forkSpaces t c (Cow.alloc (Cow.alloc a k fun _ => 0) g fun _ => 0))
      (Function.update arr c (arr t)) :=
    ((hagree.alloc (hfree k hk) _).alloc hgfree _).shareRange hct hunmapped
  refine hshare.split ?_ fun t' p' => ?_
  · rw [hpte, if_pos rfl]
    exact hf
  · rw [hpte]
    split
    · exact hlfree t p'
    · exact hlfree t' p'

/-- A fork takes three frames. -/
theorem card_forkedSpaces (h : ForkRep vis w0 s loc tab a) (ht : loc t = some y) (hc : c ≠ 0)
    (hcn : loc c = none) (hk : k ∈ freeFrames a) (hg : g ∈ (freeFrames a).erase k)
    (hl : l ∈ ((freeFrames a).erase k).erase g) (hf : a.pte t p = some f) :
    (freeFrames (forkedSpaces t c k g l p f a)).card + 3 = (freeFrames a).card := by
  rcases Finset.mem_erase.mp hg with ⟨hgk, hg'⟩
  have hinv : Cow.Inv Counted (Rep.forkSpaces t c (Cow.alloc (Cow.alloc a k fun _ => 0) g fun _ => 0)) :=
    (h.inv_alloc_two _ hk hg' (Ne.symm hgk)).shareRange fun p _ => h.rep.unmapped c hc ((h.locTab c hc).mp hcn) p
  have htwo : Counted f → 2 ≤ (Rep.forkSpaces t c (Cow.alloc (Cow.alloc a k fun _ => 0) g fun _ => 0)).rc f :=
    h.copied_shared ht hc hcn _ hinv hf
  have hcard := Finset.card_pos.mpr ⟨k, hk⟩
  have hcard1 := Finset.card_pos.mpr ⟨g, hg⟩
  have hcard2 := Finset.card_pos.mpr ⟨l, hl⟩
  have hfree : freeFrames (forkedSpaces t c k g l p f a) = (((freeFrames a).erase k).erase g).erase l := by
    rw [forkedSpaces, freeFrames_split, h.copied_free hc hcn _ hk hg' (Ne.symm hgk)]
    · rintro ⟨hcf, h1⟩
      have := htwo hcf
      omega
    · intro hcf h0
      have := htwo hcf
      omega
  rw [hfree, Finset.card_erase_of_mem hl, Finset.card_erase_of_mem hg, Finset.card_erase_of_mem hk]
  rw [Finset.card_erase_of_mem hg, Finset.card_erase_of_mem hk] at hcard2
  omega

end ForkRep

/-! ## Using up the memory -/

/-- Registers with the stack pointer at 640 KB. -/
def stackTop : Regs where
  ebx := 0
  ecx := 0
  edx := 0
  esi := 0
  edi := 0
  ebp := 0
  esp := 0xa0000
  eip := 0
  eflags := 0
  cs := 0
  ss := 0
  ds := 0
  es := 0
  fs := 0
  gs := 0

/-- Task `n` faults on its first `k` pages. -/
def faults (n k : Nat) : List Act := (List.range k).map fun p => .fault n (BitVec.ofNat 32 (4096 * p))

/-- Task 0 forks `n` times, and each child faults on all its pages but the one of the stack. -/
def spend : Nat → List Act
  | 0 => []
  | n + 1 => spend n ++ [.fork 0 stackTop] ++ faults (n + 1) 159

/-- The tasks are 0 to `n`; task `n` has `k` pages of its own and the one of its stack, those
before it all 160. -/
structure Spent (s : ForkSys) (loc : Fin 64 → Option Nat) (a : Spaces) (n k : Nat) : Prop where
  tasks : ∀ t : Fin 64, loc t = none ↔ n < t
  low : ∀ (t : Fin 64) p, (t : Nat) = n → k ≤ p → p < 159 → a.pte t p = some p
  card : s.mm.freePages.card + 162 * n + k = 3231

/-- A state of the run. -/
def SpentRep (b : Boot) (n k : Nat) (s : ForkSys) : Prop :=
  ∃ loc tab a, ForkRep b.Modelled b.init s loc tab a ∧ Spent s loc a n k

/-- A machine whose memory is empty but for `init_task`. -/
def Boot.blank : Boot where
  init := 16384
  low := by decide
  high := by decide
  mm := ⟨fun _ => 0, fun _ => 0⟩
  gdt _ := ⟨0, 0⟩
  fpu _ := 0

theorem Boot.start_spent (b : Boot) : SpentRep b 0 159 b.start := by
  refine ⟨b.loc, _, _, b.start_forkRep, fun t => ?_, fun t p _ hp hp' => by omega, ?_⟩
  · rw [Boot.loc]
    by_cases ht : t = 0
    · subst ht
      simp
    · have hpos : 0 < (t : Nat) := Fin.pos_iff_ne_zero.mpr ht
      simp [ht, hpos]
  · rw [b.start_forkRep.rep.card_freePages, card_bootSpaces]

namespace SpentRep

variable {b : Boot} {n k : Nat} {s : ForkSys}

/-- Task 0 forks. -/
theorem fork (h : SpentRep b n 159 s) (hn : n ≤ 18) :
    ∃ s', ForkStep (.fork 0 stackTop) s s' ∧ SpentRep b (n + 1) 0 s' := by
  rcases h with ⟨loc, tab, a, h, hspent⟩
  have hlt : n + 1 < 64 := by omega
  have hcard := hspent.card
  have hslot : s.FreeSlot := by
    refine ⟨n + 1, by omega, hlt, (h.slot_eq_zero (t := ⟨n + 1, hlt⟩)).mpr ?_⟩
    exact (hspent.tasks ⟨n + 1, hlt⟩).mpr (Nat.lt_succ_self n)
  have h0 : 0 < stackTop.esp.toNat := by decide
  have h1 : stackTop.esp.toNat ≤ 655360 := by decide
  have hlive : s.Live 0 := (h.live_iff (t := 0)).mpr (by rw [h.locZero]; exact Option.some_ne_none _)
  rcases h.sysFork_forked (t := 0) h.locZero hslot (by omega) h0 h1 with
    ⟨c, pid, i, g, l, f, old, s', hc, hcn, hfirst, -, -, -, hi, hg, hl, hf, hcall, -, -, hrep⟩
  have hcn' : (c : Nat) = n + 1 := by
    have hgt := (hspent.tasks c).mp hcn
    by_contra hne
    have hbetween : (⟨n + 1, hlt⟩ : Fin 64) < c := Fin.lt_def.mpr (by show n + 1 < (c : Nat); omega)
    exact hfirst ⟨n + 1, hlt⟩ (Fin.pos_iff_ne_zero.mp (Nat.succ_pos n)) hbetween
      ((hspent.tasks _).mpr (Nat.lt_succ_self n))
  refine ⟨s', ⟨⟨hlive, h0, h1, fun _ => by omega⟩, ?_⟩, _, _, _, hrep, fun t => ?_, fun t p ht _ hp => ?_, ?_⟩
  · have hcall' : ForkSys.sysFork stackTop { s with current := s.task 0 } = .ok (s', pid) := hcall
    simp only [ForkSys.exec, hcall']
  · by_cases htc : t = c
    · rw [htc, Function.update_self, hcn']
      simp
    · have hne : (t : Nat) ≠ n + 1 := fun heq => htc (Fin.ext (heq.trans hcn'.symm))
      rw [Function.update_of_ne htc, hspent.tasks t]
      omega
  · obtain rfl : t = c := Fin.ext (ht.trans hcn'.symm)
    have hne : ¬ (t = t ∧ p = stackPage stackTop.esp) := by
      have h159 : stackPage stackTop.esp = 159 := by decide
      omega
    show Cow.set2 _ t (stackPage stackTop.esp) (some l) t p = some p
    rw [Cow.set2_ne hne, h.copied_pte h.locZero hc hcn, if_pos rfl, h.rep.zero, if_pos (by omega)]
  · have hfork := h.card_forkedSpaces h.locZero hc hcn hi hg hl hf
    rw [hrep.rep.card_freePages]
    rw [h.rep.card_freePages] at hcard
    omega

/-- The task that was made last faults on its next page. -/
theorem fault (h : SpentRep b n k s) (hn : 1 ≤ n) (hn' : n < 64) (hk : k < 159)
    (hfree : s.mm.freePages.Nonempty) :
    ∃ s', ForkStep (.fault n (BitVec.ofNat 32 (4096 * k))) s s' ∧ SpentRep b n (k + 1) s' := by
  rcases h with ⟨loc, tab, a, h, hspent⟩
  have hcard := hspent.card
  have hoff : (BitVec.ofNat 32 (4096 * k)).toNat = 4096 * k := by
    rw [BitVec.toNat_ofNat, Nat.mod_eq_of_lt (by omega)]
  have hpage : (BitVec.ofNat 32 (4096 * k)).toNat / 4096 = k := by omega
  have ht0 : (⟨n, hn'⟩ : Fin 64) ≠ 0 := Fin.pos_iff_ne_zero.mp hn
  have hlocne : loc ⟨n, hn'⟩ ≠ none := fun hno => Nat.lt_irrefl n ((hspent.tasks ⟨n, hn'⟩).mp hno)
  rcases Option.ne_none_iff_exists'.mp hlocne with ⟨x, hx⟩
  have hf : a.pte ⟨n, hn'⟩ ((BitVec.ofNat 32 (4096 * k)).toNat / 4096) = some k := by
    rw [hpage]
    exact hspent.low ⟨n, hn'⟩ k rfl (Nat.le_refl k) hk
  rcases h.userFault_unshared hx ht0 (by omega) hf (Or.inl hfree) with
    ⟨hwr, -⟩ | ⟨-, s', a', heq, hun, -, hrep⟩
  · rcases h.rep.wr_high hwr with ⟨f, hf', hhigh, -⟩
    have := Option.some.inj (hf.symm.trans hf')
    omega
  · refine ⟨s', ⟨⟨h.live_iff.mpr hlocne, hn, by omega, Or.inl hfree⟩, heq⟩, loc, tab, a', hrep, hspent.tasks,
      fun t p ht hp hp' => ?_, ?_⟩
    · have hold := hspent.low t p ht (by omega) hp'
      cases hun with
      | sole h256 _ => omega
      | copy i _ _ =>
        show Cow.set2 a.pte _ _ (some i) t p = some p
        rw [Cow.set2_ne fun hin => by omega]
        exact hold
    · rw [hrep.rep.card_freePages]
      rw [h.rep.card_freePages] at hcard
      cases hun with
      | sole h256 _ => omega
      | copy i _ hi =>
        have hpos := Finset.card_pos.mpr ⟨i, hi⟩
        rw [freeFrames_split (fun hin => by have := hin.1; unfold Counted at this; omega)
          (fun hin => by unfold Counted at hin; omega), Finset.card_erase_of_mem hi]
        omega

/-- The faults of one task, one page after the other. -/
theorem faults (h : SpentRep b n 0 s) (hn : 1 ≤ n) (hn' : n < 64) (hk : k ≤ 159) (hfree : 162 * n + k < 3232) :
    ∃ s', Run.Trace ForkStep s (Kernel.faults n k) s' ∧ SpentRep b n k s' := by
  induction k with
  | zero => exact ⟨s, .nil, h⟩
  | succ k ih =>
    rcases ih (by omega) (by omega) with ⟨s1, htrace, hspent⟩
    have hpos : s1.mm.freePages.Nonempty := by
      rcases hspent with ⟨loc, tab, a, -, hs⟩
      have := hs.card
      exact Finset.card_pos.mp (by omega)
    rcases hspent.fault hn hn' (by omega) hpos with ⟨s2, hstep, hspent2⟩
    refine ⟨s2, ?_, hspent2⟩
    rw [Kernel.faults, List.range_succ, List.map_append]
    exact htrace.snoc hstep

end SpentRep

/-- The whole run, for as long as memory lasts. -/
theorem Boot.spend (b : Boot) {n : Nat} (hn : n ≤ 18) :
    ∃ s, Run.Trace ForkStep b.start (Kernel.spend n) s ∧ SpentRep b n 159 s := by
  induction n with
  | zero => exact ⟨b.start, .nil, b.start_spent⟩
  | succ n ih =>
    rcases ih (by omega) with ⟨s, htrace, hspent⟩
    rcases hspent.fork (by omega) with ⟨s1, hfork, hspent1⟩
    rcases hspent1.faults (k := 159) (by omega) (by omega) (Nat.le_refl 159) (by omega) with ⟨s2, hfaults, hspent2⟩
    exact ⟨s2, (htrace.snoc hfork).append hfaults, hspent2⟩

end MockOs.Kernel
