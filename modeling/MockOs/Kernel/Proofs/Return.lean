import MockOs.Kernel.Proofs.StackPage
import MockOs.Kernel.Proofs.Switch

/-!
# A task in the kernel

What is known of the system while a task is in the kernel: the processor can come to it from the
start, and the task has it. That stays so while the task changes its own words, over its page
faults and forks, and over `schedule`, from which it comes back by a `switch_to` of another task.
So a `fork` through `system_call` returns twice, exactly if the directory entry of the child is free.
-/

namespace MockOs.Kernel

open Mm Relation

/-- The processor can come to the system from `p0`, with the task at word `x` running. -/
def Here (up : Machine → BitVec 16) (p0 : Core) (x : Nat) (s : ForkSys) : Prop :=
  ∃ p, ReflTransGen (CoreStep up) p0 p ∧ p.cpu.sys = s ∧ s.current.toNat = 4 * x

section Here

variable {b : Boot} {r : Context} {up : Machine → BitVec 16} {p0 p : Core} {x t : Nat} {s s' : ForkSys} {c : Machine}
  {k : Linkage}

theorem Here.current (h : Here up p0 x s) : s.current = wordAddr x := by
  rcases h with ⟨p, -, -, hcur⟩
  have hlt := s.current.isLt
  apply BitVec.eq_of_toNat_eq
  rw [toNat_wordAddr (by omega), hcur]

/-- The registers may be any. -/
theorem Here.core (h : Here up p0 x c.sys) : ∃ p, ReflTransGen (CoreStep up) p0 p ∧ p.cpu = c := by
  rcases h with ⟨p, hrun, hsys, -⟩
  refine ⟨{ p with cpu := c }, hrun.tail ?_, rfl⟩
  exact .work c (by rw [hsys]) (by rw [hsys]) (by rw [hsys]) (by rw [hsys]) (by rw [hsys]) (by rw [hsys])
    fun z _ => by rw [hsys]

/-- The task that runs is the one at word `x`. -/
theorem Here.switched (h : Here up (b.loaded r) x s) :
    ∃ p loc run, ReflTransGen (CoreStep up) (b.loaded r) p ∧ p.cpu.sys = s ∧ Switched b.init p loc run x := by
  rcases h with ⟨p, hrun, rfl, hcur⟩
  rcases b.switched hrun with ⟨loc, run, y, hsw⟩
  have hb := hsw.resident.tasks.structs.loc_bounds hsw.here
  rw [hsw.current, toNat_wordAddr (by omega)] at hcur
  obtain rfl : y = x := by omega
  exact ⟨p, loc, run, hrun, rfl, hsw⟩

theorem Here.of_switched {loc : Fin 64 → Option Nat} {run : Fin 64} (hrun : ReflTransGen (CoreStep up) p0 p)
    (h : Switched b.init p loc run x) : Here up p0 x p.cpu.sys := by
  have hb := h.resident.tasks.structs.loc_bounds h.here
  refine ⟨p, hrun, rfl, ?_⟩
  rw [h.current, toNat_wordAddr (by omega)]

/-- The task, or the kernel, writes to words that are neither fixed nor saved. -/
theorem Here.work (h : Here up p0 x s) (hrest : s' = { s with mm := s'.mm, jiffies := s'.jiffies })
    (hmap : s'.mm.memMap = s.mm.memMap) (hword : ∀ z, s.Fixed z ∨ s.Saved z → s'.mm.word z = s.mm.word z) :
    Here up p0 x s' := by
  rcases h with ⟨p, hrun, rfl, hcur⟩
  have hcur' : s'.current = p.cpu.sys.current := by rw [hrest]
  refine ⟨{ p with cpu := { p.cpu with sys := s' } }, hrun.tail ?_, rfl, by rw [hcur']; exact hcur⟩
  exact .work _ hcur' (by rw [hrest]) (by rw [hrest]) (by rw [hrest]) (by rw [hrest]) hmap hword

/-- The words that a task has for itself are neither fixed nor saved. -/
theorem Switched.own_free {loc : Fin 64 → Option Nat} {run : Fin 64} {w0 z : Nat} (h : Switched w0 p loc run x)
    (hz : p.cpu.sys.Fixed z ∨ p.cpu.sys.Saved z) : z ≠ x ∧ z ≠ x + 3 ∧ ¬ (x + 289 ≤ z ∧ z < x + 1024) := by
  have hb := h.resident.tasks.structs.loc_bounds h.here
  rcases hz with hz | ⟨n, j, hlive, hj, rfl⟩
  · have hnot : ∀ j, j < 1024 → j < 175 ∨ 239 ≤ j → z ≠ x + j := by
      rintro j hj hout rfl
      exact h.resident.not_fixed h.here hj hout hz
    refine ⟨hnot 0 (by decide) (by decide), hnot 3 (by decide) (by decide), fun hin => ?_⟩
    exact hnot (z - x) (by omega) (by omega) (by omega)
  · rcases h.resident.tasks.of_live hlive with ⟨t, y, rfl, ht⟩
    have hby := h.resident.tasks.structs.loc_bounds ht
    have hne : t = run → ¬ (p.cpu.sys.task t ≠ p.cpu.sys.current) := fun heq hne =>
      hne ((h.current_iff ht).mpr heq).symm
    rw [h.resident.tasks.structs.task_eq ht, toNat_wordAddr (by omega), Nat.mul_div_cancel_left y (by decide)]
    rcases h.resident.tasks.structs.loc_apart ht h.here with ⟨heq, rfl⟩ | ⟨-, happ⟩
    · rcases hj with hj | ⟨hother, -⟩
      · omega
      · exact absurd hother (hne heq)
    · omega

theorem here_owned (b : Boot) (r : Context) (up : Machine → BitVec 16) (x : Nat) :
    Owned (Here up (b.loaded r) x) x where
  current := Here.current
  own h hown := by
    rcases h.switched with ⟨p, loc, run, -, rfl, hsw⟩
    refine h.work hown.rest hown.map fun z hz => ?_
    rcases hsw.own_free hz with ⟨h0, h3, hstack⟩
    exact hown.word z h0 h3 hstack

theorem Here.fault (h : Here up (b.loaded r) x s) (hfree : s.mm.freePages.Nonempty) (a : BitVec 32) :
    Here up (b.loaded r) x { s with mm := doWpPage a s.mm } ∧
      ∀ j < 1024, (doWpPage a s.mm).word (x + j) = s.mm.word (x + j) := by
  rcases h.switched with ⟨p, loc, run, hrun, rfl, hsw⟩
  rcases h with ⟨-, -, -, hcur⟩
  exact ⟨⟨_, hrun.tail (.fault a (Or.inl hfree)), rfl, hcur⟩,
    fun j hj => (hsw.resident.fault_sane a (Or.inl hfree)).2 run x j hsw.here hj⟩

theorem Here.fork {regs : Regs} (h : Here up (b.loaded r) x s) (ht : s.current = s.task t)
    (hcall : ForkCall (t, regs) s s') (hpages : s.FreeSlot → 3 ≤ s.mm.freePages.card) : Here up (b.loaded r) x s' := by
  rcases h.switched with ⟨p, loc, run, hrun, rfl, hsw⟩
  rcases hsw.fork (c := { p.cpu with sys := s' }) ht hcall hpages with ⟨loc', hsw', -⟩
  exact Here.of_switched (hrun.tail (.fork t regs _ ht hcall hpages)) hsw'

/-- `sys_fork`. -/
theorem Here.forksWithin (h : Here up (b.loaded r) x s) (ht : s.current = s.task t) (hforks : ForksWithin x t s s')
    (hpages : 3 ≤ s.mm.freePages.card) : Here up (b.loaded r) x s' := by
  have hown := here_owned b r up x
  rcases hforks with ⟨regs, s₁, s₂, hbefore, hcall, hafter⟩
  have h₁ := hown.own h hbefore.own
  have hpages₁ : 3 ≤ s₁.mm.freePages.card := by
    rw [Memory.freePages_congr hbefore.map]
    exact hpages
  exact hown.own (h₁.fork (by rw [hbefore.rest]; exact ht) hcall fun _ => hpages₁) hafter.own

/-- What is below the stack pointer is the task's own. -/
theorem Machine.Below.own {c' : Machine} (h : c.Below c') (hcur : c.sys.current.toNat = 4 * x) :
    Own x c.sys c'.sys where
  rest := by
    rw [h.rest]
  map := h.map
  word z _ _ hz := by
    refine h.word z fun hin => hz ?_
    rw [hcur, Nat.mul_div_cancel_left x (by decide)] at hin
    exact ⟨hin.1, hin.2.1⟩

/-- A task that has left the processor in a state that it can come to gets it back with its stack. -/
theorem Here.returns {p' : Core} {loc : Fin 64 → Option Nat} {run : Fin 64}
    (hrun : ReflTransGen (CoreStep up) (b.loaded r) p) (hsw : Switched b.init p loc run x)
    (hreturns : Core.Returns up run p p') :
    Here up (b.loaded r) x p'.cpu.sys ∧ ∀ j, 289 ≤ j → j < 1024 → p.cpu.esp.toNat ≤ 4 * (x + j) →
      p'.cpu.sys.mm.word (x + j) = p.cpu.sys.mm.word (x + j) := by
  have hb := hsw.resident.tasks.structs.loc_bounds hsw.here
  have hbase : p.cpu.sys.current.toNat = 4 * x := by rw [hsw.current, toNat_wordAddr (by omega)]
  rcases hreturns with ⟨c, after, after', n, p1, q, hbelow, hlive, hne, hleave, haway, hback⟩
  rcases hsw.resident.tasks.of_live hlive with ⟨n, y, rfl, hn⟩
  -- what is written below the stack pointer is the task's own
  have hown := hbelow.own hbase
  have hfixed : ∀ z, p.cpu.sys.Fixed z ∨ p.cpu.sys.Saved z → c.sys.mm.word z = p.cpu.sys.mm.word z := by
    intro z hz
    rcases hsw.own_free hz with ⟨h0, h3, hstack⟩
    exact hown.word z h0 h3 hstack
  have hcur : c.sys.current = p.cpu.sys.current := by rw [hbelow.rest]
  have htask : c.sys.task = p.cpu.sys.task := by rw [hbelow.rest]
  have hpid : c.sys.lastPid = p.cpu.sys.lastPid := by rw [hbelow.rest]
  have hmath : c.sys.lastTaskUsedMath = p.cpu.sys.lastTaskUsedMath := by rw [hbelow.rest]
  have hgdt : c.sys.gdt = p.cpu.sys.gdt := by rw [hbelow.rest]
  have hswc := (hsw.work hcur htask hpid hmath hgdt hown.map hfixed).1
  have hleft : ReflTransGen (CoreStep up) (b.loaded r) p1 :=
    (hrun.tail (.work c hcur htask hpid hmath hgdt hown.map hfixed)).tail (.switch after n p1 (hswc.live hn) hleave)
  rcases hswc.parks hn (fun heq => hne (congrArg Fin.val heq)) hleave with ⟨hparked, -, hstack⟩
  have hparked := hparked.run haway
  rcases hparked.resume up after' with ⟨p2, hback', -, hcur2, -, hword⟩
  obtain rfl : p2 = p' := Option.some.inj (hback'.symm.trans hback)
  rcases hparked with ⟨loc', run', x', hswq, hthere, -, -⟩
  refine ⟨⟨p2, (hleft.trans haway.run).tail (.switch after' run p2 (hswq.live hthere) hback), rfl, ?_⟩,
    fun j hj hj' hin => ?_⟩
  · rw [hcur2, toNat_wordAddr (by omega)]
  · rw [hword j hj hj', hstack j hj hj']
    refine hbelow.word _ fun hlt => ?_
    omega

/-- A task comes back from `schedule` as from its `switch_to`. -/
theorem Linkage.Switches.resumes (hk : k.Switches up (b.loaded r)) (x : Nat) : k.Resumes (Here up (b.loaded r) x) x := by
  intro c h hother
  rcases h.core with ⟨p, hrun, rfl⟩
  rcases b.switched hrun with ⟨loc, run, y, hsw⟩
  have hb := hsw.resident.tasks.structs.loc_bounds hsw.here
  rcases h with ⟨-, -, -, hcur⟩
  rw [hsw.current, toNat_wordAddr (by omega)] at hcur
  obtain rfl : y = x := by omega
  rcases hk p run hrun hsw.runs hother with ⟨p', hreturns, hsys⟩
  rw [hsys]
  exact Here.returns hrun hsw hreturns

end Here

/-! ## The processor comes back -/

/-- A task gives the processor to the first other one that can run, which gives it back at once. -/
def Machine.turn (c : Machine) : Option ForkSys := do
  let t ← (List.range nrTasks).find? fun i => c.sys.task i ≠ 0 && c.sys.task i = c.sys.current
  let n ← (List.range nrTasks).find? fun i =>
    c.sys.task i ≠ 0 && c.sys.task i ≠ c.sys.current && c.sys.get (c.sys.task i) Off.state = taskRunning
  let p ← Core.switchTo (fun _ => 0) 0x6d11 n ⟨c, tssSelectorOf t, ldtSelectorOf t, 0⟩
  let p ← p.switchTo (fun _ => 0) 0x6d11 t
  return p.cpu.sys

/-- Code at some addresses. -/
def plainLinkage : Linkage where
  systemCall := 0x6c00
  afterCall := 0x6c23
  afterFind := 0x6ca6
  afterCopy := 0x6cb4
  retFromSysCall := 0x6c35
  upper _ := 0
  eax _ := 0
  ecx _ := 1
  edx _ := 2
  scratch _ _ := 3
  others _ c := .ok c
  away c := c.turn.getD c.sys

theorem Machine.Below.refl (c : Machine) : c.Below c := ⟨rfl, rfl, fun _ _ => rfl⟩

/-- The search for a task finds one if there is one. -/
theorem find_slot {f : Nat → Bool} {i : Nat} (hi : i < nrTasks) (hf : f i = true) :
    ∃ n, (List.range nrTasks).find? f = some n ∧ n < nrTasks ∧ f n = true := by
  have hsome : ((List.range nrTasks).find? f).isSome := List.find?_isSome.mpr ⟨i, List.mem_range.mpr hi, hf⟩
  rcases Option.isSome_iff_exists.mp hsome with ⟨n, hn⟩
  exact ⟨n, hn, List.mem_range.mp (List.mem_of_find?_eq_some hn), List.find?_some hn⟩

theorem plainLinkage_switches (b : Boot) (r : Context) : plainLinkage.Switches (fun _ => 0) (b.loaded r) := by
  intro p t hrun hruns hother
  rcases b.switched hrun with ⟨loc, run, x, hsw⟩
  obtain rfl : (run : Nat) = t := hsw.runs_eq hruns.live hruns.current
  rcases find_slot (f := fun i => p.cpu.sys.task i ≠ 0 && p.cpu.sys.task i = p.cpu.sys.current) run.isLt (by
    simp only [Bool.and_eq_true, decide_eq_true_eq]
    exact ⟨hruns.live.2, hruns.current.symm⟩) with ⟨i, hself, hi, hcur⟩
  simp only [Bool.and_eq_true, decide_eq_true_eq] at hcur
  obtain rfl : (run : Nat) = i := hsw.runs_eq ⟨hi, hcur.1⟩ hcur.2.symm
  rcases List.any_eq_true.mp hother with ⟨j, hj, hfj⟩
  rcases find_slot (f := fun i => p.cpu.sys.task i ≠ 0 && p.cpu.sys.task i ≠ p.cpu.sys.current &&
    p.cpu.sys.get (p.cpu.sys.task i) Off.state = taskRunning) (List.mem_range.mp hj) hfj with ⟨n, hother, hn, hfn⟩
  simp only [Bool.and_eq_true, decide_eq_true_eq] at hfn
  have hlive : p.cpu.sys.Live n := ⟨hn, hfn.1.1⟩
  have hne : n ≠ run := by
    rintro rfl
    exact hfn.1.2 hruns.current.symm
  rcases hsw.resident.tasks.of_live hlive with ⟨n, y, rfl, hy⟩
  have hne' : n ≠ run := fun heq => hne (congrArg Fin.val heq)
  have hself' : (⟨p.cpu, tssSelectorOf run, ldtSelectorOf run, 0⟩ : Core) = p := by
    rw [← hruns.tr, ← hruns.ldtr, ← hruns.cr3]
  rcases hsw.switchTo hy hne' (fun _ => 0) 0x6d11 with ⟨p1, -, hleave, -⟩
  rcases (hsw.parks hy hne' hleave).1.resume (fun _ => 0) 0x6d11 with ⟨p2, hback, -⟩
  have hturn : p.cpu.turn = some p2.cpu.sys := by
    rw [Machine.turn, hself, hother]
    show (Core.switchTo _ _ _ ⟨p.cpu, tssSelectorOf run, ldtSelectorOf run, 0⟩).bind _ = _
    rw [hself', hleave]
    show (p1.switchTo _ _ _).bind _ = _
    rw [hback]
    rfl
  refine ⟨p2, ⟨p.cpu, 0x6d11, 0x6d11, n, p1, p1, .refl p.cpu, hlive, hne, hleave, ReflTransGen.refl, hback⟩, ?_⟩
  show p.cpu.turn.getD p.cpu.sys = _
  rw [hturn]
  rfl

/-! ## The whole call -/

section Fork

variable {b : Boot} {r : Context} {up : Machine → BitVec 16} {p : Core} {k : Linkage} {nr : Nat}

theorem user_ne_zero {cs : BitVec 16} (huser : cs &&& 3 = 3) : cs &&& 3 ≠ 0 := by
  rw [huser]
  decide

/-- With the directory entry of the child free, the call comes back twice. -/
theorem forksInto_of_absent (hrun : ReflTransGen (CoreStep up) (b.loaded r) p) (huser : p.cpu.cs &&& 3 = 3)
    (heax : p.cpu.eax = 2) (hslot : p.cpu.sys.Available nr) (hk : k.Switches up (b.loaded r))
    (hto : 1#32 &&& p.cpu.sys.mm.word (16 * nr) = 0) : p.cpu.ForksInto k nr := by
  rcases b.switched hrun with ⟨loc, t, x, hsw⟩
  have hres := hsw.resident
  have ht := hsw.here
  have hcur := hsw.current
  have hne := user_ne_zero huser
  have hhere : Here up (b.loaded r) x p.cpu.sys := Here.of_switched hrun hsw
  have hself : p.cpu.sys.current = p.cpu.sys.task t := (hsw.current_iff ht).mpr rfl
  generalize p.cpu = u at *
  have hb := hres.tasks.structs.loc_bounds ht
  rcases int80_sysFork hres ht hcur hne heax k with ⟨fsHigh, esHigh, dsHigh, csHigh, ssHigh, d, hcall, hd, hregs⟩
  rcases (hd.push k.afterCall (by simp)).sysFork hres ht hcur hslot hto k with
    ⟨gsHigh, c₁, hfork, hforks, hst, heip, hsame1, htask⟩
  have hcall' : (u.int80 k).systemCall k = .ok c₁ := hcall.trans (Stack.call_eq hfork heip)
  have hhere1 := hhere.forksWithin hself hforks hslot.pages
  have htask' : ForkedTask c₁.sys nr
      { ebx := u.ebx, ecx := u.ecx, edx := u.edx, esi := d.esi, edi := d.edi, ebp := d.ebp, esp := u.esp,
        eip := u.eip, eflags := u.eflags, cs := csHigh ++ u.cs, ss := ssHigh ++ u.ss, ds := dsHigh ++ u.ds,
        es := esHigh ++ u.es, fs := fsHigh ++ u.fs, gs := gsHigh ++ d.gs } c₁.eax := htask
  rw [hregs.esi, hregs.edi, hregs.ebp, hregs.gs] at htask'
  rcases hst.sysCallExit (here_owned b r up x) (hk.resumes x) hhere1 (by simp) with
    ⟨c₂, hexit, h2, hsame2, heax2, hebx, hecx, hedx, hfs, hes, hds⟩
  have hsame : SameRegs u c₂ := by
    refine SameRegs.trans ?_ hsame2
    exact ⟨hsame1.esi.trans hregs.esi, hsame1.edi.trans hregs.edi, hsame1.ebp.trans hregs.ebp,
      hsame1.gs.trans hregs.gs⟩
  refine ⟨c₁, c₂, hcall', htask'.childTss, hexit, ?_, ?_⟩
  · rw [h2.esp, hcur, ForkSys.get_word 237 (by decide) (by decide) (by omega), hres.esp0 t x ht, BitVec.add_comm 4096]
    exact (wordAddr_add (x + 1019) 5).trans (wordAddr_add x 1024).symm
  · rw [h2.iret (by rw [slot_selector]; exact hne), slot_selector, slot_selector, heax2, hebx, hecx, hedx, hfs, hes,
      hds, hsame.esi, hsame.edi, hsame.ebp, hsame.gs, slot_selector, slot_selector, slot_selector, htask.pid]

/-- With the directory entry of the child taken, the kernel panics. -/
theorem not_forksInto_of_present (hrun : ReflTransGen (CoreStep up) (b.loaded r) p) (huser : p.cpu.cs &&& 3 = 3)
    (heax : p.cpu.eax = 2) (hslot : p.cpu.sys.Available nr) (k : Linkage)
    (hto : 1#32 &&& p.cpu.sys.mm.word (16 * nr) ≠ 0) : ¬ p.cpu.ForksInto k nr := by
  rcases b.switched hrun with ⟨loc, t, x, hsw⟩
  rcases int80_sysFork hsw.resident hsw.here hsw.current (user_ne_zero huser) heax k with
    ⟨fsHigh, esHigh, dsHigh, csHigh, ssHigh, d, hcall, hd, -⟩
  rcases (hd.push k.afterCall (by simp)).sysFork_exists hsw.resident hsw.here hsw.current hslot hto k with ⟨e, hfork⟩
  rintro ⟨c₁, c₂, hreturn, -⟩
  rw [hcall, Stack.call_error hfork] at hreturn
  cases hreturn

end Fork

/-- A fork returns twice with the same registers exactly if the directory entry of the child is
free: in every state that the processor can come to, with a slot and pages for a child, and with
`schedule` coming back as `switch_to` does. -/
theorem fork_returns_twice (b : Boot) (r : Context) (up : Machine → BitVec 16) (p : Core) (k : Linkage) (nr : Nat)
    (hrun : ReflTransGen (CoreStep up) (b.loaded r) p) (huser : p.cpu.cs &&& 3 = 3) (heax : p.cpu.eax = 2)
    (hslot : p.cpu.sys.Available nr) (hk : k.Switches up (b.loaded r)) :
    p.cpu.ForksInto k nr ↔ 1#32 &&& p.cpu.sys.mm.word (16 * nr) = 0 := by
  refine ⟨fun hforks => ?_, forksInto_of_absent hrun huser heax hslot hk⟩
  by_contra hto
  exact not_forksInto_of_present hrun huser heax hslot k hto hforks

theorem fork_returns_twice_init : (Boot.blank.loaded firstFork.context).cpu.ForksInto plainLinkage 1 :=
  (fork_returns_twice Boot.blank firstFork.context (fun _ => 0) _ plainLinkage 1 ReflTransGen.refl rfl rfl
    (Boot.blank.loaded_available _) (plainLinkage_switches _ _)).mpr (Boot.blank.loaded_unmapped _)

/-- A fork by task 0 with a stack pointer for which `un_wp_page` comes upon entry 32 of the page
directory (`pg_dir[17]` is absent), the entry of slot 2, and makes it present. -/
theorem Boot.stray_fork (b : Boot) (r : Context) :
    ∃ s', ForkCall (0, { stackTop with esp := 0x421000 }) (b.loaded r).cpu.sys s' ∧ s'.Available 2 ∧
      1#32 &&& s'.mm.word (16 * 2) ≠ 0 := by
  have havail := b.loaded_available r
  have hsane := (b.loaded_switched r).resident.tasks
  have hcount := b.start_forkSane.pages
  have hle := taskCount_le b.loc
  have hrep := b.start_forkRep
  unfold Boot.loaded at havail hsane ⊢
  generalize b.start = s at havail hsane hcount hrep
  obtain ⟨s1, hs1⟩ : ∃ s1 : ForkSys, { s with gdt := Function.update s.gdt 4 (s.gdt 4).setBusy } = s1 := ⟨_, rfl⟩
  have hrep1 : ForkRep b.Modelled b.init s1 b.loc (fun _ => none) (bootSpaces s1.mm) := by
    rw [← hs1]
    exact { hrep with }
  have hcount1 : 3076 ≤ s1.mm.freePages.card + 4 * taskCount b.loc := by
    rw [← hs1]
    exact hcount
  show ∃ s', ForkCall _ { s with gdt := Function.update s.gdt 4 (s.gdt 4).setBusy } s' ∧ _
  rw [hs1] at havail hsane ⊢
  rcases ForkSys.sysFork_free (s := { s1 with current := s1.task 0 }) (r := { stackTop with esp := 0x421000 }) hsane.pid
    (Nat.le_refl 1) (by decide) havail.free with ⟨nr, pid, hpos, hnr, hzero, hfirst, -, hlt, -, heq⟩
  obtain rfl : nr = 1 := by
    by_contra hne
    exact hfirst 1 (Nat.le_refl 1) (by omega) havail.free
  have hcard : 3 ≤ s1.mm.freePages.card := havail.pages
  rcases (hrep1.switch (s1.task 0) hlt).copyProcess_walk (t := 0) (c := 1) (if_pos rfl) (hrep1.task_eq (if_pos rfl))
    (by decide) rfl { stackTop with esp := 0x421000 } hcard with
    ⟨k, g, l, m4, i, s', hk, hg, hl, -, h4, hpage, hcall, ⟨old, hforked⟩, -, hword⟩
  have hl' := mem_freeFrames.mp (Finset.mem_of_mem_erase (Finset.mem_of_mem_erase hl))
  -- the walk
  have hdir : dirIndex (ForkSys.stackAddress 0x421000 (taskBase 1)) = 17 := by decide
  have hidx : tableIndex (ForkSys.stackAddress 0x421000 (taskBase 1)) = 32 := by decide
  have h17 : m4.word 17 = 0 := h4.dirRest 17 (by decide) (by decide) (by decide)
  have h32 : m4.word 32 = 0 := h4.dirTask 2 (by decide)
  have hentry : entryWord (ForkSys.stackAddress 0x421000 (taskBase 1)) m4 = 32 := by
    rw [entryWord, hdir, hidx, h17, frameOf_zero]
  have hmapped : s'.mm.word (16 * 2) = entry l 7 := by
    rw [hword (16 * 2) (Or.inl (by decide)), hentry]
    exact (unWpPage_new (e := 32) (f := 0) (by decide) (by rw [h32, frameOf_zero]) (by omega) hl'.1 hpage).1
  have hforkCall : ForkCall (0, { stackTop with esp := 0x421000 }) s1 s' := by
    refine ⟨(hrep1.live_iff (t := 0)).mpr (Option.some_ne_none _), ?_⟩
    simp only [ForkSys.exec, heq.trans hcall]
  have hcard' : s1.mm.freePages.card ≤ s'.mm.freePages.card + 4 := by
    rcases hsane.forkCall hforkCall ⟨1, Nat.le_refl 1, by decide, havail.free⟩ hcard with
      ⟨-, -, -, -, -, -, -, -, -, -, -, -, -, -, -, -, -, -, -, hcard', -⟩
    exact hcard'
  have htask : s'.task = Function.update s1.task 1 (wordAddr (1024 * k)) := by rw [hforked.rest]; rfl
  have hk' := mem_freeFrames.mp hk
  refine ⟨s', hforkCall, ⟨by decide, by decide, ?_, fun j hj hj' => ?_, by omega⟩, ?_⟩
  · rw [htask, Function.update_of_ne (by decide)]
    exact (hrep1.slot_eq_zero (t := 2)).mpr rfl
  · obtain rfl : j = 1 := by omega
    rw [htask, Function.update_self]
    exact wordAddr_ne_zero (by omega) (by omega)
  · rw [hmapped]
    exact present_entry hl'.1 (Or.inr rfl)

/-- After that fork the next one, into slot 2, does not return. -/
theorem fork_panics_mapped : ∃ p, ReflTransGen (CoreStep fun _ => 0) (Boot.blank.loaded firstFork.context) p ∧
    p.cpu.cs &&& 3 = 3 ∧ p.cpu.eax = 2 ∧ p.cpu.sys.Available 2 ∧
    plainLinkage.Switches (fun _ => 0) (Boot.blank.loaded firstFork.context) ∧ ¬ p.cpu.ForksInto plainLinkage 2 := by
  have hpages := (Boot.blank.loaded_available firstFork.context).pages
  have hcur := (Boot.blank.loaded_switched firstFork.context).runs.current
  rcases Boot.blank.stray_fork firstFork.context with ⟨s', hcall, havail, hmapped⟩
  have hrun := ReflTransGen.single (@CoreStep.fork (fun _ => 0) (Boot.blank.loaded firstFork.context) 0 _
    (firstFork.context.machine s') hcur hcall fun _ => hpages)
  have huser : firstFork.context.cs &&& 3 = 3 := by decide
  exact ⟨_, hrun, huser, rfl, havail, plainLinkage_switches _ _,
    not_forksInto_of_present hrun huser rfl havail plainLinkage hmapped⟩

end MockOs.Kernel
