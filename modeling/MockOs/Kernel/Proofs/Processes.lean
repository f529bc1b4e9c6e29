import MockOs.Kernel.Proofs.Family
import MockOs.Kernel.Proofs.TimeSharing

/-!
# The tasks share one processor

`Shares` relates the processor and its memory to `World`, where each task has a processor and a
memory of its own. It puts together what `Switched` says of the registers and the stacks and what
`Simulates` says of the memory; every step keeps it.
-/

namespace MockOs.Kernel

open Mm Relation RoundRobin TaskArray

/-! ## The memories of the tasks -/

def World.procs (w : World) : Procs where
  mem n := if h : n < 64 then (w.proc ⟨n, h⟩).map Proc.mem else none

section Procs

variable {w : World} {q q' : Proc}

theorem procs_mem (w : World) (t : Slot) : w.procs.mem t = (w.proc t).map Proc.mem := dif_pos t.isLt

theorem put_running (w : World) (q : Proc) : (w.put q).proc w.running = some q := Function.update_self ..

theorem put_other {t : Slot} (ht : t ≠ w.running) : (w.put q).proc t = w.proc t := Function.update_of_ne ht ..

theorem put_eq_none (hq : w.proc w.running = some q) (t : Slot) : (w.put q').proc t = none ↔ w.proc t = none := by
  by_cases ht : t = w.running
  · rw [ht, put_running, hq]
    simp
  · rw [put_other ht]

end Procs

namespace Simulates

variable {b : Boot} {s s' : ForkSys} {ps ps' : Procs} {loc tab : Fin 64 → Option Nat} {a : Spaces}
  {arr : Fin 64 → Nat → Nat → BitVec 32} {w : World} {q q' : Proc}

theorem congr (h : Simulates b s ps loc tab a arr) (hmem : ∀ t : Fin 64, ps'.mem t = ps.mem t) :
    Simulates b s ps' loc tab a arr :=
  ⟨h.rep, h.agrees, fun t => by rw [hmem]; exact h.slots t, fun t m off hm => h.bytes t m off ((hmem t).symm.trans hm)⟩

/-- Steps that do not write to the memory of a task. -/
theorem put (h : Simulates b s w.procs loc tab a arr) (hq : w.proc w.running = some q) (hmem : q'.mem = q.mem) :
    Simulates b s (w.put q').procs loc tab a arr := by
  refine h.congr fun t => ?_
  rw [procs_mem, procs_mem]
  by_cases ht : t = w.running
  · rw [ht, put_running, hq, Option.map_some, Option.map_some, hmem]
  · rw [put_other ht]

/-- The kernel writes to the TSS and the stack of a task, and to the variables that say who runs. -/
theorem rewrite (h : Simulates b s ps loc tab a arr) {m : Memory} {gdt : Nat → Desc} {cur : BitVec 32}
    (hmap : m.memMap = s.mm.memMap)
    (hword : ∀ z, m.word z = s.mm.word z ∨ ∃ t y j, loc t = some y ∧ 236 ≤ j ∧ j < 1024 ∧ z = y + j) :
    Simulates b { s with mm := m, gdt, current := cur } ps loc tab a arr := by
  have hok : ∀ t x, loc t = some x → TaskOk m loc t x := by
    refine fun t x hx => (h.rep.ok t x hx).congr fun i hi => ?_
    rcases hword (x + i) with heq | ⟨t', y, j, hy, hj, hj', hz⟩
    · exact heq
    · rcases h.rep.structs.loc_apart hx hy with ⟨-, rfl⟩ | ⟨-, happ⟩ <;> omega
  refine ⟨{ h.rep with rep := h.rep.rep.congr hmap fun z => (hword z).imp_right ?_, ok := hok },
    h.agrees, h.slots, h.bytes⟩
  rintro ⟨t, y, j, hy, -, hj, rfl⟩
  exact h.rep.hidden hy (Nat.le_add_right y j) (by omega)

end Simulates

/-! ## Stores -/

/-- A frame that a task maps is no page table. -/
theorem mapped_not_dir {vis : Nat → Prop} {m : Memory} {tab : Fin 64 → Option Nat} {a : Spaces} {t : Fin 64}
    {p f d : Nat} (h : Rep vis m tab a) (hf : a.pte t p = some f) (hhigh : 1024 ≤ f) (hd : d < 1024) :
    (m.word d).toNat / 4096 ≠ f := by
  rintro rfl
  by_cases h4 : d < 4
  · rw [h.dirKernel d h4, toNat_entry (by omega) (by decide)] at hhigh
    omega
  by_cases h16 : d % 16 = 0
  · obtain ⟨u, hu⟩ : ∃ u : Fin 64, d = 16 * u := ⟨⟨d / 16, by omega⟩, by simp only; omega⟩
    have hu0 : u ≠ 0 := by
      rintro rfl
      simp at hu
      omega
    rw [hu, h.dirTask u hu0] at hf hhigh
    cases htab : tab u with
    | none =>
      rw [htab] at hhigh
      simp [tabWord] at hhigh
    | some g =>
      have hown := h.tabOwn u g htab
      have hlt := h.ownHigh g hown
      rw [htab, tabWord, toNat_entry (by omega) (by decide)] at hf
      refine (h.inv.owned g hown).2 t p ?_
      rw [hf]
      exact congrArg some (by omega)
  · rw [h.dirRest d hd (by omega) h16] at hhigh
    simp at hhigh

namespace ForkRep

variable {vis : Nat → Prop} {w0 : Nat} {s s' : ForkSys} {loc tab : Fin 64 → Option Nat} {a : Spaces} {t : Fin 64}
  {x f p z : Nat} {off : BitVec 32}

/-- A task cannot write to what only the kernel writes. -/
theorem mapped_not_fixed (h : ForkRep vis w0 s loc tab a) (hf : a.pte t p = some f) (hhigh : 1024 ≤ f)
    (hz : z / 1024 = f) : ¬ s.Fixed z := by
  rintro (hlow | ⟨d, hd, htab⟩ | ⟨n, j, hlive, hj, heq⟩)
  · omega
  · exact mapped_not_dir h.rep hf hhigh hd (htab.symm.trans hz)
  · rcases h.of_live hlive with ⟨t', y, rfl, hy⟩
    have hb := h.loc_bounds hy
    rw [h.task_eq hy, toNat_wordAddr (by omega)] at heq
    exact h.mapped_apart hf hhigh hy (z := z) (by omega) (by omega) hz

/-- A store to a page that may be written leaves the structures of the kernel as they are. -/
theorem writable_resident (h : ForkRep vis w0 s loc tab a) (hres : Resident w0 s loc) (ht : loc t = some x)
    (ht0 : t ≠ 0) (hoff : off.toNat < 655360) (hwr : a.wr t (off.toNat / 4096) = true) (v : BitVec 8) :
    ∃ e, userEntry (taskBase t + off) s.mm = some e ∧ canWrite (taskBase t + off) e s.mm = true ∧
      Resident w0 { s with mm := storeByte (physical (taskBase t + off) e) v s.mm } loc := by
  rcases h.page_eq ht hoff with ⟨f, hf⟩
  rcases h.store_writable ht ht0 hoff hf hwr v with ⟨e, hentry, hcan, hstore, -, -⟩
  have hhigh : 1024 ≤ f := by
    rcases h.rep.wr_high hwr with ⟨f', hf', hhigh, -⟩
    rwa [Option.some.inj (hf.symm.trans hf')]
  refine ⟨e, hentry, hcan, ?_⟩
  rw [hstore]
  rcases hres.running with ⟨t', y, hy, hcur⟩
  have hlive : s.Live t' := h.live_iff.mpr (by rw [hy]; exact Option.some_ne_none y)
  refine hres.rewrite ⟨t', hlive, hcur.trans (h.task_eq hy).symm⟩ rfl rfl rfl rfl fun z hz => ?_
  refine Memory.setWord_word_ne fun heq => ?_
  exact h.mapped_not_fixed hf hhigh (z := z) (by omega) hz

/-- So does a store that faults first. -/
theorem store_resident (h : ForkRep vis w0 s loc tab a) (hres : Resident w0 s loc) (ht : loc t = some x)
    (ht0 : t ≠ 0) (hoff : off.toNat < 655360) {v : BitVec 8}
    (hfree : s.mm.freePages.Nonempty ∨ ∃ lin, s.linear t off = some lin ∧
      (SolePage lin s.mm ∨ ∃ e, userEntry lin s.mm = some e ∧ canWrite lin e s.mm))
    (hstore : s.userStore t off v = some s') : Resident w0 s' loc := by
  rcases h.page_eq ht hoff with ⟨f, hf⟩
  rcases h.table_eq ht ht0 with ⟨g, hg⟩
  rcases userEntry_task h.rep hg hoff hf with ⟨k, hk, hentry, hcan⟩
  rw [h.linear_eq ht hoff] at hfree
  cases hwr : a.wr t (off.toNat / 4096) with
  | true =>
    rcases h.writable_resident hres ht ht0 hoff hwr v with ⟨e, he, hcan', hres'⟩
    have hm : s.mm = if canWrite (taskBase t + off) (entry f k) s.mm then s.mm
        else doWpPage (taskBase t + off) s.mm := by
      rw [hcan, hwr]
      rfl
    have heq := ForkSys.userStore_of_entry (h.linear_eq ht hoff) hentry hm he hcan' v
    rwa [← Option.some.inj (heq.symm.trans hstore)]
  | false =>
    have hfree' : s.mm.freePages.Nonempty ∨ SolePage (taskBase t + off) s.mm := by
      rcases hfree with hne | ⟨lin, heq, hsole | ⟨e, he, hcan'⟩⟩
      · exact Or.inl hne
      · rw [Option.some.inj heq]
        exact Or.inr hsole
      · rw [← Option.some.inj heq, hentry] at he
        rw [← Option.some.inj heq, ← Option.some.inj he, hcan, hwr] at hcan'
        cases hcan'
    rcases h.doWpPage_unshared ht ht0 hoff hf hfree' with ⟨a', hun, -, -, h'⟩
    rcases h'.writable_resident (hres.fault _ hfree') ht ht0 hoff hun.wr_eq v with ⟨e, he, hcan', hres'⟩
    have hm : doWpPage (taskBase t + off) s.mm = if canWrite (taskBase t + off) (entry f k) s.mm then s.mm
        else doWpPage (taskBase t + off) s.mm := by
      rw [hcan, hwr]
      rfl
    have heq := ForkSys.userStore_of_entry (h.linear_eq ht hoff) hentry hm he hcan' v
    rwa [← Option.some.inj (heq.symm.trans hstore)]

end ForkRep

/-- Where the structures are can be read off `task[]`. -/
theorem Structs.loc_eq {w0 : Nat} {s : ForkSys} {loc loc' : Fin 64 → Option Nat} (h : Structs w0 s loc)
    (h' : Structs w0 s loc') : loc' = loc := by
  funext t
  have htask := (h.task t).symm.trans (h'.task t)
  cases ht : loc t with
  | none =>
    cases ht' : loc' t with
    | none => rfl
    | some y =>
      have hb := h'.loc_bounds ht'
      rw [ht, ht'] at htask
      exact absurd htask.symm (wordAddr_ne_zero (by omega) (by omega))
  | some x =>
    have hb := h.loc_bounds ht
    cases ht' : loc' t with
    | none =>
      rw [ht, ht'] at htask
      exact absurd htask (wordAddr_ne_zero (by omega) (by omega))
    | some y =>
      have hb' := h'.loc_bounds ht'
      rw [ht, ht'] at htask
      rw [wordAddr_inj (by omega) (by omega) htask]

/-! ## The relation -/

/-- The structures of the tasks of `w` are at `loc`, that of the task which runs at word `x`. -/
structure Shares (b : Boot) (p : Core) (w : World) (loc tab : Fin 64 → Option Nat) (a : Spaces)
    (arr : Fin 64 → Nat → Nat → BitVec 32) (x : Nat) : Prop where
  switched : Switched b.init p loc w.running x
  sim : Simulates b p.cpu.sys w.procs loc tab a arr
  regs : ∀ q, w.proc w.running = some q → p.cpu.context = q.regs
  saved : ∀ t y q, t ≠ w.running → loc t = some y → w.proc t = some q →
    Context.ofTss p.cpu.sys.mm (wordAddr (y + 236)) = q.regs
  stack : ∀ t y q, loc t = some y → w.proc t = some q →
    ∀ j, 289 ≤ j → j < 1024 → p.cpu.sys.mm.word (y + j) = q.stack j
  ready : ∀ t y, loc t = some y → p.cpu.sys.mm.word y = taskRunning

def Shared (b : Boot) (p : Core) (w : World) : Prop := ∃ loc tab a arr x, Shares b p w loc tab a arr x

theorem Boot.procs_slot (b : Boot) (t : Slot) : b.procs.mem t =
    if t = 0 then some fun off => byteOf (b.start.mm.word (off / 4)) (off % 4) else none := by
  have ht : (t : Nat) = 0 ↔ t = 0 := Fin.val_eq_zero_iff
  unfold Boot.procs
  simp only [ht]

theorem Boot.start_shared (b : Boot) (r : Context) : Shared b (b.loaded r) (b.world r) := by
  rcases b.start_simulated with ⟨loc, tab, a, arr, hsim⟩
  have hs := b.loaded_switched r
  obtain rfl : loc = b.loc := Structs.loc_eq b.start_resident.tasks.structs hsim.rep.structs
  have hprocs := b.procs_slot
  have hstate : b.start.mm.word (b.init + 0) = taskRunning := b.start_init (by decide)
  unfold Boot.loaded Boot.world at *
  generalize b.start = s at hsim hs hprocs hstate
  refine ⟨b.loc, tab, a, arr, b.init, hs, ?_, fun q hq => ?_, fun t y q ht hy => ?_, fun t y q hy hq j _ _ => ?_,
    fun t y hy => ?_⟩
  · refine Simulates.congr (hsim.rewrite (m := s.mm) rfl fun z => Or.inl rfl) fun t => ?_
    rw [procs_mem, hprocs]
    by_cases ht : t = 0
    · simp only [if_pos ht, Option.map_some]
    · simp only [if_neg ht, Option.map_none]
  · simp only [if_pos, Option.some.injEq] at hq
    rw [← hq]
    rfl
  · exact absurd (b.loc_eq hy).1 ht
  · rcases b.loc_eq hy with ⟨rfl, rfl⟩
    simp only [if_pos, Option.some.injEq] at hq
    rw [← hq]
    rfl
  · rcases b.loc_eq hy with ⟨-, rfl⟩
    exact hstate

namespace Shares

variable {b : Boot} {p : Core} {w : World} {loc tab tab' : Fin 64 → Option Nat} {a a' : Spaces}
  {arr arr' : Fin 64 → Nat → Nat → BitVec 32} {x y : Nat} {q q' : Proc} {c : Machine} {t : Fin 64}

/-- There is a task whose turn it is. -/
theorem has_proc (h : Shares b p w loc tab a arr x) : ∃ q, w.proc w.running = some q := by
  refine Option.ne_none_iff_exists'.mp fun hnone => ?_
  have hslot := (h.sim.slots w.running).mp (by rw [procs_mem, hnone, Option.map_none])
  rw [h.switched.here] at hslot
  cases hslot

/-- The task that runs goes on by itself: its structure stays as it is but for the stack, and
those of the others stay as they are. -/
theorem goes (h : Shares b p w loc tab a arr x) (hres : Resident b.init c.sys loc)
    (hcur : c.sys.current = p.cpu.sys.current) (hgdt : c.sys.gdt = p.cpu.sys.gdt)
    (hsim : Simulates b c.sys (w.put q').procs loc tab' a' arr') (hregs : c.context = q'.regs)
    (hword : ∀ t y j, loc t = some y → j < 289 ∨ t ≠ w.running ∧ j < 1024 →
      c.sys.mm.word (y + j) = p.cpu.sys.mm.word (y + j))
    (hstack : ∀ j, 289 ≤ j → j < 1024 → c.sys.mm.word (x + j) = q'.stack j) :
    Shares b { p with cpu := c } (w.put q') loc tab' a' arr' x := by
  have hswitched : Switched b.init { p with cpu := c } loc w.running x :=
    (h.switched.goes hres hcur hgdt fun t y j ht hj => hword t y j ht (by omega)).1
  refine ⟨hswitched, hsim, fun q1 hq1 => ?_, fun t y q1 ht hy hq1 => ?_, fun t y q1 hy hq1 j hj hj' => ?_,
    fun t y hy => ?_⟩
  · have heq : some q' = some q1 := (put_running w q').symm.trans hq1
    rw [← Option.some.inj heq]
    exact hregs
  · have hb := h.switched.resident.tasks.structs.loc_bounds hy
    have hne : t ≠ w.running := ht
    rw [put_other hne] at hq1
    rw [← h.saved t y q1 hne hy hq1]
    refine ofTss_congr (by omega) fun i _ hi => ?_
    rw [Nat.add_assoc]
    exact hword t y _ hy (Or.inl (by omega))
  · by_cases ht : t = w.running
    · subst ht
      have heq : some q' = some q1 := (put_running w q').symm.trans hq1
      obtain rfl : y = x := Option.some.inj (hy.symm.trans h.switched.here)
      rw [← Option.some.inj heq]
      exact hstack j hj hj'
    · rw [put_other ht] at hq1
      rw [← h.stack t y q1 hy hq1 j hj hj']
      exact hword t y j hy (Or.inr ⟨ht, hj'⟩)
  · rw [← h.ready t y hy]
    exact hword t y 0 hy (Or.inl (by decide))

/-- Steps in the registers. -/
theorem computes (h : Shares b p w loc tab a arr x) (hq : w.proc w.running = some q) (hsys : c.sys = p.cpu.sys)
    (hregs : c.context = q'.regs) (hmem : q'.mem = q.mem) (hstack : q'.stack = q.stack) :
    Shared b { p with cpu := c } (w.put q') := by
  refine ⟨loc, tab, a, arr, x, h.goes ?_ ?_ ?_ ?_ hregs (fun t y j _ _ => ?_) fun j hj hj' => ?_⟩
  · rw [hsys]
    exact h.switched.resident
  · rw [hsys]
  · rw [hsys]
  · rw [hsys]
    exact h.sim.put hq hmem
  · rw [hsys]
  · rw [hsys, hstack]
    exact h.stack _ x q h.switched.here hq j hj hj'

theorem push (h : Shares b p w loc tab a arr x) (hq : w.proc w.running = some q) {j : Nat} (hj : 289 ≤ j)
    (hj' : j < 1024) (v : BitVec 32) :
    Shared b { p with cpu := { p.cpu with sys := { p.cpu.sys with mm := p.cpu.sys.mm.setWord (x + j) v } } }
      (w.put { q with stack := Function.update q.stack j v }) := by
  have hlive := h.switched.live h.switched.here
  have hcur := (h.switched.current_iff h.switched.here).mpr rfl
  have hother : ∀ z, z ≠ x + j → (p.cpu.sys.mm.setWord (x + j) v).word z = p.cpu.sys.mm.word z :=
    fun z hz => Memory.setWord_word_ne hz
  refine ⟨loc, tab, a, arr, x, h.goes ?_ rfl rfl ?_ (h.regs q hq) (fun t y i hy hi => hother _ ?_) fun i hi hi' => ?_⟩
  · refine h.switched.resident.rewrite ⟨_, hlive, hcur⟩ rfl rfl rfl rfl fun z hz => hother z ?_
    rintro rfl
    exact h.switched.resident.not_fixed h.switched.here (by omega) (by omega) hz
  · refine Simulates.put (q := q) (h.sim.rewrite rfl fun z => ?_) hq rfl
    by_cases hz : z = x + j
    · exact Or.inr ⟨_, x, j, h.switched.here, by omega, hj', hz⟩
    · exact Or.inl (hother z hz)
  · rcases h.switched.resident.tasks.structs.loc_apart hy h.switched.here with ⟨ht, rfl⟩ | ⟨-, happ⟩
    · rcases hi with hi | ⟨hne, -⟩
      · omega
      · exact absurd ht hne
    · omega
  · show (p.cpu.sys.mm.setWord (x + j) v).word (x + i) = Function.update q.stack j v i
    by_cases hij : i = j
    · rw [hij, Memory.setWord_word_self, Function.update_self]
    · rw [hother _ (by omega), Function.update_of_ne hij]
      exact h.stack _ x q h.switched.here hq i hi hi'

/-- A load gives the byte of the task's own memory. -/
theorem load (h : Shares b p w loc tab a arr x) (hy : w.proc t = some q) {off : BitVec 32}
    (hoff : off.toNat < 655360) (hvis : b.Modelled (off.toNat / 4)) :
    p.cpu.sys.userLoad t off = some (q.mem off.toNat) :=
  h.sim.load (by rw [procs_mem, hy]; rfl) hoff hvis

theorem store (h : Shares b p w loc tab a arr x) (hq : w.proc w.running = some q) {off : BitVec 32} {v : BitVec 8}
    (hallow : p.cpu.sys.Allowed (.store w.running off v)) :
    ∃ s, p.cpu.sys.userStore w.running off v = some s ∧
      Shared b { p with cpu := { p.cpu with sys := s } }
        (w.put { q with mem := Function.update q.mem off.toNat v }) := by
  have hrun := h.switched.here
  rcases h.sim.store hallow with ⟨s, hexec, loc', tab', a', arr', hsim⟩
  rcases hallow with ⟨-, hpos, hoff, hfree⟩
  have hne : w.running ≠ 0 := Fin.pos_iff_ne_zero.mp hpos
  have hres := h.sim.rep.store_resident h.switched.resident hrun hne hoff hfree hexec
  rcases h.sim.rep.page_eq hrun hoff with ⟨f, hf⟩
  rcases h.sim.rep.userStore_eq hrun hne hoff hf v hfree with
    ⟨s1, -, -, -, heq, -, -, -, -, -, hkept, -, -⟩
  obtain rfl : s1 = s := Option.some.inj (heq.symm.trans hexec)
  obtain rfl : loc' = loc := Structs.loc_eq hres.tasks.structs hsim.rep.structs
  have hrest := hkept.rest
  refine ⟨s1, hexec, loc', tab', a', arr', x, h.goes hres ?_ ?_ ?_ (h.regs q hq) (fun t y j hy hj => ?_)
    fun j hj hj' => ?_⟩
  · show s1.current = _
    rw [hrest]
  · show s1.gdt = _
    rw [hrest]
  · refine hsim.congr fun t => ?_
    rw [procs_mem, Procs.store]
    by_cases ht : t = w.running
    · subst ht
      simp only [put_running, Function.update_self, procs_mem, hq, Option.map_some]
    · have hval : (t : Nat) ≠ w.running := fun heq => ht (Fin.ext heq)
      simp only [put_other ht, Function.update_of_ne hval, procs_mem]
  · exact hkept.word t y j hy (by omega)
  · rw [← h.stack _ x q hrun hq j hj hj']
    exact hkept.word _ x j hrun hj'

/-! ### `schedule()` -/

theorem runnable_iff (h : Shares b p w loc tab a arr x) (t : Fin 64) :
    p.cpu.sys.table.runnable t ↔ w.proc t ≠ none := by
  have hslot := h.sim.slots t
  rw [procs_mem, Option.map_eq_none_iff] at hslot
  rw [ForkSys.runnable_iff, Ne, hslot]
  constructor
  · rintro ⟨hlive, -⟩ hnone
    exact hlive.2 (h.switched.resident.tasks.slot_eq_zero.mpr hnone)
  · intro hne
    rcases Option.ne_none_iff_exists'.mp hne with ⟨y, hy⟩
    have hb := h.switched.resident.tasks.structs.loc_bounds hy
    refine ⟨h.switched.live hy, ?_⟩
    rw [h.switched.resident.tasks.structs.task_eq hy, ForkSys.get_word 0 (by decide) (by decide) (by omega)]
    exact h.ready t y hy

/-- What the memory holds of a task after a far jump. -/
theorem outside_jump (h : Shares b p w loc tab a arr x) {p' : Core} (hy : loc t = some y)
    (hother : ∀ i, i < x + 244 ∨ x + 260 ≤ i → p'.cpu.sys.mm.word i = p.cpu.sys.mm.word i) {j : Nat} (hj : j < 1024)
    (hout : t = w.running → j < 244 ∨ 260 ≤ j) : p'.cpu.sys.mm.word (y + j) = p.cpu.sys.mm.word (y + j) :=
  hother _ (h.switched.outside hy hj hout)

/-- The far jump to the task `k`, in both systems. -/
theorem jump (h : Shares b p w loc tab a arr x) (hq : w.proc w.running = some q) {k : Fin 64} (hk : loc k = some y)
    (hne : k ≠ w.running) (up : Machine → BitVec 16) (after : BitVec 32) :
    ∃ p', p.switchTo up after k = some p' ∧
      Shared b p' { w.put { q with regs := { q.regs with
        eip := after, ecx := p.cpu.sys.current, edx := BitVec.ofNat 32 (16 * k + 32) } } with running := k } := by
  have hb := h.switched.resident.tasks.structs.loc_bounds h.switched.here
  have hby := h.switched.resident.tasks.structs.loc_bounds hk
  rcases h.switched.switchTo hk hne up after with
    ⟨p', u, hswitch, h', hholds, hother, hcontext, ⟨gdt, hsys⟩, hmap⟩
  refine ⟨p', hswitch, loc, tab, a, arr, y, h', ?_, fun q1 hq1 => ?_, fun t z q1 ht hz hq1 => ?_,
    fun t z q1 hz hq1 j hj hj' => ?_, fun t z hz => ?_⟩
  · rw [hsys]
    refine Simulates.put (q := q) (h.sim.rewrite hmap fun z => ?_) hq rfl
    by_cases hz : x + 244 ≤ z ∧ z < x + 260
    · exact Or.inr ⟨_, x, z - x, h.switched.here, by omega, by omega, by omega⟩
    · exact Or.inl (hother z (by omega))
  · have hq1' : w.proc k = some q1 := (put_other hne).symm.trans hq1
    rw [hcontext, ← h.saved k y q1 hne hk hq1']
    refine ofTss_congr (by omega) fun i _ hi => ?_
    rw [Nat.add_assoc]
    exact h.outside_jump hk hother (by omega) fun heq => absurd heq hne
  · by_cases hrun : t = w.running
    · subst hrun
      obtain rfl : z = x := Option.some.inj (hz.symm.trans h.switched.here)
      have heq := Option.some.inj ((put_running w _).symm.trans hq1)
      rw [ofTss_of_holds (by omega) hholds, Core.leaving, h.regs q hq, ← heq]
    · have hb' := h.switched.resident.tasks.structs.loc_bounds hz
      have hq1' : w.proc t = some q1 := (put_other hrun).symm.trans hq1
      rw [← h.saved t z q1 hrun hz hq1']
      refine ofTss_congr (by omega) fun i _ hi => ?_
      rw [Nat.add_assoc]
      exact h.outside_jump hz hother (by omega) fun heq => absurd heq hrun
  · rw [h.outside_jump hz hother hj' fun _ => Or.inr (by omega)]
    by_cases hrun : t = w.running
    · subst hrun
      have heq := Option.some.inj ((put_running w _).symm.trans hq1)
      rw [← heq]
      exact h.stack _ z q hz hq j hj hj'
    · exact h.stack t z q1 hz ((put_other hrun).symm.trans hq1) j hj hj'
  · rw [← h.ready t z hz]
    exact h.outside_jump (j := 0) hz hother (by decide) fun _ => Or.inl (by decide)

theorem slice (h : Shares b p w loc tab a arr x) (up : Machine → BitVec 16) (after : BitVec 32) :
    ∃ p' w', p.schedule up after = some p' ∧ w.Does (.slice after) w' ∧ Shared b p' w' := by
  rcases h.has_proc with ⟨q, hq⟩
  rw [h.switched.schedule_eq]
  cases hfind : (scanOrder w.running).find? p.cpu.sys.table.runnable with
  | none =>
    refine ⟨p, w, rfl, .alone fun n hn => ?_, loc, tab, a, arr, x, h⟩
    by_contra hproc
    have hstopped := List.find?_eq_none.mp hfind n (mem_scanOrder.mpr hn)
    exact hstopped ((h.runnable_iff n).mpr hproc)
  | some k =>
    have hpick := picks_of_find hfind
    have hproc := (h.runnable_iff k).mp hpick.holds
    rcases h.switched.resident.tasks.of_live ((p.cpu.sys.runnable_iff k).mp hpick.holds).1 with ⟨k', y, hkk, hk⟩
    obtain rfl : k' = k := Fin.ext hkk
    rcases h.jump hq hk hpick.ne up after with ⟨p', hswitch, hshared⟩
    exact ⟨p', _, hswitch, .slice k' _ hq ⟨hpick.ne, hproc, fun j hj hj' =>
      hpick.first j hj ((h.runnable_iff j).mpr hj')⟩, hshared⟩

/-! ### `fork` -/

/-- The first empty slot is the one that `sys_fork` takes, and the task in it could run. -/
theorem forked_ready {vis : Nat → Prop} {w0 : Nat} {s s' : ForkSys} {n : Fin 64} {r : Regs} {ret : BitVec 32}
    (h : ForkRep vis w0 s loc tab a) (hn0 : n ≠ 0) (hn : loc n = none) (hfirst : ∀ j : Fin 64, j ≠ 0 → j < n → loc j ≠ none)
    (hfork : ForkSys.sysFork r s = .ok (s', ret)) : s'.get (s'.task n) Off.state = taskRunning := by
  have hpos : 1 ≤ (n : Nat) := Fin.pos_iff_ne_zero.mpr hn0
  rcases ForkSys.sysFork_free (r := r) h.pid hpos n.isLt (h.slot_eq_zero.mpr hn) with
    ⟨nr, pid, hnr1, hnr2, hzero, hlow, -, -, -, heq⟩
  obtain rfl : nr = n := by
    by_contra hne
    rcases Nat.lt_or_gt_of_ne hne with hlt | hgt
    · exact hfirst ⟨nr, hnr2⟩ (Fin.pos_iff_ne_zero.mp hnr1) hlt (h.slot_eq_zero.mp hzero)
    · exact hlow n hpos hgt (h.slot_eq_zero.mpr hn)
  exact (ForkSys.copyProcess_ret (heq.symm.trans hfork)).2

theorem fork_full (h : Shares b p w loc tab a arr x) (hq : w.proc w.running = some q) (r : Regs)
    (hfull : ¬ p.cpu.sys.FreeSlot) :
    ∃ s v w', ForkSys.sysFork r p.cpu.sys = .ok (s, v) ∧ w.Does (.fork r) w' ∧
      Shared b { p with cpu := { p.cpu with eax := v, sys := s } } w' := by
  have hcur := (h.switched.current_iff h.switched.here).mpr rfl
  rcases h.sim.rep.sysFork_full r p.cpu.sys.current hfull with ⟨pid, hlt, hcall⟩
  have hres : Resident b.init { p.cpu.sys with lastPid := pid } loc :=
    ⟨h.switched.resident.tasks.switch _ hlt, h.switched.resident.esp0, h.switched.resident.running⟩
  have hsim : Simulates b { p.cpu.sys with lastPid := pid } w.procs loc tab a arr :=
    ⟨h.sim.rep.switch p.cpu.sys.current hlt, h.sim.agrees, h.sim.slots, h.sim.bytes⟩
  refine ⟨_, _, _, hcall, .full hq fun i hi hnone => hfull ?_, loc, tab, a, arr, x,
    h.goes hres rfl rfl (hsim.put (q := q) hq rfl) ?_ (fun _ _ _ _ _ => rfl) fun j hj hj' => ?_⟩
  · have hslot := (h.sim.slots i).mp (by rw [procs_mem, hnone, Option.map_none])
    exact ⟨i, Fin.pos_iff_ne_zero.mpr hi, i.isLt, h.switched.resident.tasks.slot_eq_zero.mpr hslot⟩
  · rw [← h.regs q hq]
    rfl
  · exact h.stack _ x q h.switched.here hq j hj hj'

/-- A new task in slot `n`, with its structure at word `z`. -/
theorem born (h : Shares b p w loc tab a arr x) (hq : w.proc w.running = some q) {n : Fin 64} {z : Nat} {r : Regs}
    {pid : BitVec 32} (hn : loc n = none)
    (hswitched : Switched b.init { p with cpu := c } (Function.update loc n (some z)) w.running x)
    (hsim : Simulates b c.sys (w.procs.fork w.running) (Function.update loc n (some z)) tab' a' arr')
    (hmem : ∀ t : Fin 64, (w.procs.fork w.running).mem t = if t = n then w.procs.mem w.running else w.procs.mem t)
    (hregs : c.context = { q.regs with eax := pid })
    (hchild : Context.ofTss c.sys.mm (wordAddr (z + 236)) = r.child) (hready : c.sys.mm.word z = taskRunning)
    (hkept : ∀ t y j, loc t = some y → j < 1024 → j < 176 ∨ 177 < j →
      c.sys.mm.word (y + j) = p.cpu.sys.mm.word (y + j)) :
    Shared b { p with cpu := c } { w.put { q with regs := { q.regs with eax := pid } } with
      proc := Function.update (w.put { q with regs := { q.regs with eax := pid } }).proc n
        (some { regs := r.child, mem := q.mem, stack := fun j => c.sys.mm.word (z + j) }) } := by
  obtain ⟨w', hw'⟩ : ∃ w' : World, { w.put { q with regs := { q.regs with eax := pid } } with
      proc := Function.update (w.put { q with regs := { q.regs with eax := pid } }).proc n
        (some { regs := r.child, mem := q.mem, stack := fun j => c.sys.mm.word (z + j) }) } = w' := ⟨_, rfl⟩
  have hrunning : w'.running = w.running := by rw [← hw', World.put]
  have hnew : w'.proc n = some { regs := r.child, mem := q.mem, stack := fun j => c.sys.mm.word (z + j) } := by
    rw [← hw']
    exact Function.update_self ..
  have hold : ∀ t, t ≠ n → w'.proc t = (w.put { q with regs := { q.regs with eax := pid } }).proc t := by
    intro t ht
    rw [← hw']
    exact Function.update_of_ne ht ..
  have hrun : w.running ≠ n := by
    rintro hrn
    rw [← hrn, h.switched.here] at hn
    cases hn
  have hself : w'.proc w.running = some { q with regs := { q.regs with eax := pid } } :=
    (hold _ hrun).trans (put_running w _)
  -- a slot is the new one, that of the task which runs, or another one
  have hslot : ∀ t y q1, Function.update loc n (some z) t = some y → w'.proc t = some q1 →
      (t = n ∧ y = z ∧ q1 = { regs := r.child, mem := q.mem, stack := fun j => c.sys.mm.word (z + j) }) ∨
      (t = w.running ∧ loc t = some y ∧ q1 = { q with regs := { q.regs with eax := pid } }) ∨
      (t ≠ w.running ∧ loc t = some y ∧ w.proc t = some q1) := by
    intro t y q1 hy hq1
    by_cases htn : t = n
    · subst htn
      rw [Function.update_self] at hy
      exact Or.inl ⟨rfl, (Option.some.inj hy).symm, (Option.some.inj (hnew.symm.trans hq1)).symm⟩
    · rw [Function.update_of_ne htn] at hy
      by_cases htr : t = w.running
      · subst htr
        exact Or.inr (Or.inl ⟨rfl, hy, (Option.some.inj (hself.symm.trans hq1)).symm⟩)
      · exact Or.inr (Or.inr ⟨htr, hy, (put_other htr).symm.trans ((hold t htn).symm.trans hq1)⟩)
  rw [hw']
  refine ⟨_, tab', a', arr', x, by rw [hrunning]; exact hswitched, hsim.congr fun t => ?_, fun q1 hq1 => ?_,
    fun t y q1 ht hy hq1 => ?_, fun t y q1 hy hq1 j hj hj' => ?_, fun t y hy => ?_⟩
  · rw [procs_mem, hmem, procs_mem, procs_mem, hq]
    by_cases htn : t = n
    · rw [if_pos htn, htn, hnew]
      rfl
    · rw [if_neg htn, hold t htn]
      by_cases htr : t = w.running
      · rw [htr, put_running, hq]
        rfl
      · rw [put_other htr]
  · rw [hrunning, hself] at hq1
    rw [← Option.some.inj hq1]
    exact hregs
  · rw [hrunning] at ht
    rcases hslot t y q1 hy hq1 with ⟨rfl, rfl, rfl⟩ | ⟨htr, -⟩ | ⟨htr, hy', hq1'⟩
    · exact hchild
    · exact absurd htr ht
    · have hb := h.switched.resident.tasks.structs.loc_bounds hy'
      rw [← h.saved t y q1 htr hy' hq1']
      refine ofTss_congr (by omega) fun i _ hi => ?_
      rw [Nat.add_assoc]
      exact hkept t y _ hy' (by omega) (by omega)
  · rcases hslot t y q1 hy hq1 with ⟨rfl, rfl, rfl⟩ | ⟨rfl, hy', rfl⟩ | ⟨-, hy', hq1'⟩
    · rfl
    · exact (hkept _ y j hy' hj' (by omega)).trans (h.stack _ y q hy' hq j hj hj')
    · exact (hkept t y j hy' hj' (by omega)).trans (h.stack t y q1 hy' hq1' j hj hj')
  · by_cases htn : t = n
    · subst htn
      rw [Function.update_self] at hy
      rw [← Option.some.inj hy]
      exact hready
    · rw [Function.update_of_ne htn] at hy
      exact (hkept t y 0 hy (by decide) (by decide)).trans (h.ready t y hy)

theorem fork_free (h : Shares b p w loc tab a arr x) (hq : w.proc w.running = some q) {r : Regs}
    (hslot : p.cpu.sys.FreeSlot) (hallow : p.cpu.sys.Allowed (.fork w.running r)) :
    ∃ s v w', ForkSys.sysFork r p.cpu.sys = .ok (s, v) ∧ w.Does (.fork r) w' ∧
      Shared b { p with cpu := { p.cpu with eax := v, sys := s } } w' := by
  have hrun := h.switched.here
  have hcur := (h.switched.current_iff hrun).mpr rfl
  have hsame : ({ p.cpu.sys with current := p.cpu.sys.task w.running } : ForkSys) = p.cpu.sys := by rw [← hcur]
  rcases h.sim.fork hallow with ⟨s1, hexec, loc', tab', a', arr', hsim⟩
  rcases id hallow with ⟨hlive, h0, h1, hpages⟩
  rcases h.sim.rep.sysFork_forked hrun hslot (hpages hslot) h0 h1 with
    ⟨n, pid, k, g, l, f, old, s, hn0, hn, hfirst, -, -, -, -, -, -, -, hcall, hforked, -, hrep⟩
  obtain rfl : s = s1 := by
    simp only [ForkSys.exec, hcall] at hexec
    exact Option.some.inj hexec
  have hfork : ForkSys.sysFork r p.cpu.sys = .ok (s, pid) := by
    rw [← hsame]
    exact hcall
  obtain ⟨c, hc⟩ : ∃ c : Machine, { p.cpu with eax := pid, sys := s } = c := ⟨_, rfl⟩
  have hsys : c.sys = s := by rw [← hc]
  rcases h.switched.fork (c := c) hcur (by rw [hsys]; exact ⟨hlive, hexec⟩) hpages with
    ⟨loc₂, hswitched, -, hchild⟩
  obtain rfl : loc' = Function.update loc n (some (1024 * k)) := Structs.loc_eq hrep.structs hsim.rep.structs
  have hstructs : Structs b.init c.sys (Function.update loc n (some (1024 * k))) := by
    rw [hsys]
    exact hrep.structs
  obtain rfl : loc₂ = Function.update loc n (some (1024 * k)) :=
    Structs.loc_eq hstructs hswitched.resident.tasks.structs
  have hnew : Function.update loc n (some (1024 * k)) n = some (1024 * k) := Function.update_self ..
  have hbase : Structs b.init { p.cpu.sys with current := p.cpu.sys.task w.running, lastPid := pid } loc :=
    { h.switched.resident.tasks.structs with }
  have hstate := forked_ready h.sim.rep hn0 hn hfirst hfork
  have hk := hstructs.loc_bounds hnew
  rw [hrep.structs.task_eq hnew, ForkSys.get_word 0 (by decide) (by decide) (by omega)] at hstate
  refine ⟨s, pid, _, hfork, .fork n pid (fun j => c.sys.mm.word (1024 * k + j)) hq hn0 ?_ fun i hi hlt => ?_, ?_⟩
  · rw [← Option.map_eq_none_iff (f := Proc.mem), ← procs_mem]
    exact (h.sim.slots n).mpr hn
  · intro hnone
    exact hfirst i hi hlt ((h.sim.slots i).mp (by rw [procs_mem, hnone, Option.map_none]))
  · rw [hc]
    refine h.born hq hn hswitched (by rw [hsys]; exact hsim) (h.sim.fork_slot hn0 hn hfirst w.running) ?_
      (hchild n _ hn hnew) (by rw [hsys]; exact hstate) fun t y j hy hj hj' => ?_
    · rw [← hc, ← h.regs q hq]
      rfl
    · rw [hsys]
      exact hforked.kept hbase hrun hy hj hj'

end Shares

/-! ## Steps and runs -/

theorem running_eq {p : Core} {t : Slot} (h : p.tr = tssSelectorOf t) : p.running = t := by
  have ht := t.isLt
  rw [Core.running, h, tssSelectorOf, BitVec.toNat_ofNat]
  omega

namespace Shared

variable {b : Boot} {p p' : Core} {w : World} {a : Deed} {up : Machine → BitVec 16}

/-- A step that is looked at is possible, and the task makes it by itself too. -/
theorem does (h : Shared b p w) (up : Machine → BitVec 16) (hallow : p.Allowed b a) :
    ∃ p' w', p.does up a = some p' ∧ w.Does a w' ∧ Shared b p' w' := by
  rcases h with ⟨loc, tab, spaces, arr, x, h⟩
  rcases h.has_proc with ⟨q, hq⟩
  have hrunning := running_eq h.switched.tr
  have hregs := h.regs q hq
  have hb := h.switched.resident.tasks.structs.loc_bounds h.switched.here
  have hword : ∀ j, p.stackWord j = x + j := by
    intro j
    rw [Core.stackWord, h.switched.current, toNat_wordAddr (by omega), Nat.mul_div_cancel_left x (by decide)]
  have hebx : p.cpu.ebx = q.regs.ebx := congrArg Context.ebx hregs
  have heax : p.cpu.eax = q.regs.eax := congrArg Context.eax hregs
  cases a with
  | compute f =>
    refine ⟨_, _, rfl, .compute hq, h.computes hq rfl ?_ rfl rfl⟩
    rw [machine_context, hregs]
  | load =>
    have hload := h.load hq hallow.1 hallow.2
    rw [hebx] at hload
    refine ⟨_, _, ?_, .load hq, h.computes (c := { p.cpu with eax := (q.mem q.regs.ebx.toNat).setWidth 32 })
      hq rfl ?_ rfl rfl⟩
    · rw [Core.does, hrunning, hebx, hload]
      rfl
    · rw [← hregs]
      rfl
  | store =>
    have hallow' : p.cpu.sys.Allowed (.store p.running p.cpu.ebx (p.cpu.eax.setWidth 8)) := hallow
    rw [hrunning, hebx, heax] at hallow'
    rcases h.store hq hallow' with ⟨s, hstore, hshared⟩
    refine ⟨_, _, ?_, .store hq, hshared⟩
    rw [Core.does, hrunning, hebx, heax, hstore]
    rfl
  | push j =>
    have hpush := h.push hq hallow.1 hallow.2 p.cpu.eax
    rw [heax] at hpush
    refine ⟨_, _, ?_, .push hq, hpush⟩
    simp only [Core.does, hword, heax]
  | peek j =>
    refine ⟨_, _, rfl, .peek hq, h.computes hq rfl ?_ rfl rfl⟩
    rw [hword, h.stack _ x q h.switched.here hq j hallow.1 hallow.2, ← hregs]
    rfl
  | fork r =>
    have hallow' : p.cpu.sys.Allowed (.fork p.running r) := hallow
    rw [hrunning] at hallow'
    have hfork : ∃ s v w', ForkSys.sysFork r p.cpu.sys = .ok (s, v) ∧ w.Does (.fork r) w' ∧
        Shared b { p with cpu := { p.cpu with eax := v, sys := s } } w' := by
      by_cases hslot : p.cpu.sys.FreeSlot
      · exact h.fork_free hq hslot hallow'
      · exact h.fork_full hq r hslot
    rcases hfork with ⟨s, v, w', hcall, hdoes, hshared⟩
    refine ⟨_, w', ?_, hdoes, hshared⟩
    rw [Core.does, hcall]
  | slice after => exact h.slice up after

theorem step (h : Shared b p w) (hstep : DeedStep b up a p p') : ∃ w', w.Does a w' ∧ Shared b p' w' := by
  rcases h.does up hstep.1 with ⟨p1, w', heq, hdoes, hshared⟩
  obtain rfl : p1 = p' := Option.some.inj (heq.symm.trans hstep.2)
  exact ⟨w', hdoes, hshared⟩

theorem ready (h : Shared b p w) {t : Slot} (ht : w.proc t ≠ none) : p.cpu.sys.Ready t := by
  rcases h with ⟨loc, tab, spaces, arr, x, h⟩
  exact (p.cpu.sys.runnable_iff t).mp ((h.runnable_iff t).mpr ht)

theorem shows (h : Shared b p w) : p.Shows b w := by
  rcases h with ⟨loc, tab, spaces, arr, x, h⟩
  have hproc : ∀ t q, w.proc t = some q → ∃ y, loc t = some y := by
    intro t q hq
    refine Option.ne_none_iff_exists'.mp fun hnone => ?_
    have hslot := (h.sim.slots t).mpr hnone
    rw [procs_mem, hq] at hslot
    cases hslot
  refine ⟨h.switched.runs, fun t => ?_, h.regs, fun t q ht hq up after => ?_,
    fun t q off hq hoff hvis => h.load hq hoff hvis, fun t q j hq hj hj' => ?_⟩
  · have hslot := h.sim.slots t
    rw [procs_mem, Option.map_eq_none_iff] at hslot
    exact h.sim.rep.live_iff.trans (not_congr hslot.symm)
  · rcases hproc t q hq with ⟨y, hy⟩
    rcases h.switched.switchTo hy ht up after with ⟨p', u, hswitch, -, -, hother, hcontext, -⟩
    have hb := h.switched.resident.tasks.structs.loc_bounds hy
    refine ⟨p', hswitch, ?_⟩
    rw [hcontext, ← h.saved t y q ht hy hq]
    refine ofTss_congr (by omega) fun i _ hi => ?_
    rw [Nat.add_assoc]
    exact h.outside_jump hy hother (by omega) fun heq => absurd heq ht
  · rcases hproc t q hq with ⟨y, hy⟩
    have hb := h.switched.resident.tasks.structs.loc_bounds hy
    rw [h.switched.resident.tasks.structs.task_eq hy, toNat_wordAddr (by omega), Nat.mul_div_cancel_left y (by decide)]
    exact h.stack t y q hy hq j hj hj'

end Shared

/-- The fork of a task, as a step of the processor. -/
theorem DeedStep.core {b : Boot} {up : Machine → BitVec 16} {r : Regs} {p p' : Core} {w : World}
    (h : DeedStep b up (.fork r) p p') (hp : Shared b p w) : CoreStep up p p' := by
  have hruns := hp.shows.runs
  have hallow : p.cpu.sys.Allowed (.fork p.running r) := h.1
  have hdoes := h.2
  have hsame : ({ p.cpu.sys with current := p.cpu.sys.task w.running } : ForkSys) = p.cpu.sys := by
    rw [← hruns.current]
  rw [running_eq hruns.tr] at hallow
  cases hfork : ForkSys.sysFork r p.cpu.sys with
  | error e =>
    rw [Core.does, hfork] at hdoes
    cases hdoes
  | ok res =>
    rcases res with ⟨s, v⟩
    rw [Core.does, hfork] at hdoes
    cases hdoes
    refine .fork w.running r _ hruns.current ⟨hruns.live, ?_⟩ hallow.2.2.2
    simp only [ForkSys.exec, hsame, hfork]

/-- Task 0 forks, and the timer switches to the child and back. -/
theorem Boot.first_slices (b : Boot) (r : Context) (up : Machine → BitVec 16) (after : BitVec 32) :
    ∃ p p1 q w w1 w2, DeedStep b up (.fork stackTop) (b.loaded r) p ∧ DeedStep b up (.slice after) p p1 ∧
      DeedStep b up (.slice after) p1 q ∧ Shared b p w ∧ Shared b p1 w1 ∧ Shared b q w2 ∧ w.running = 0 ∧
      w1.running = 1 ∧ w1.proc 0 ≠ none ∧ w2.running = 0 := by
  have h := b.start_shared r
  have hruns : (b.loaded r).Runs 0 := h.shows.runs
  have hallow : (b.loaded r).Allowed b (.fork stackTop) := by
    show (b.loaded r).cpu.sys.Allowed (.fork (b.loaded r).running stackTop)
    rw [running_eq (t := 0) hruns.tr]
    exact ⟨hruns.live, by decide, by decide, fun _ => (b.loaded_available r).pages⟩
  rcases h.does up hallow with ⟨p, w, hfork, hdoes, hp⟩
  have hworld : ∀ t : Slot, (b.world r).proc t ≠ none ↔ t = 0 := by
    intro t
    unfold Boot.world
    by_cases ht : t = 0 <;> simp [ht]
  -- the child is in slot 1
  have hw : w.running = 0 ∧ ∀ t : Slot, w.proc t ≠ none ↔ t = 0 ∨ t = 1 := by
    cases hdoes with
    | fork n pid stack hq hn0 hnone hfirst =>
      have hn : n = 1 := by
        by_contra hne
        have h0 : (n : Nat) ≠ 0 := Fin.val_ne_of_ne hn0
        have h1 : (n : Nat) ≠ 1 := Fin.val_ne_of_ne hne
        have hlt : (1 : Slot) < n := by
          rw [Fin.lt_def]
          exact Nat.lt_of_le_of_ne (Nat.pos_of_ne_zero h0) (Ne.symm h1)
        exact absurd ((hworld 1).mp (hfirst 1 (by decide) hlt)) (by decide)
      subst hn
      refine ⟨rfl, fun t => ?_⟩
      by_cases ht : t = 1
      · subst ht
        simp
      · simp only [Function.update_of_ne ht, ht, or_false, Ne, put_eq_none hq]
        exact hworld t
    | full hq hfull => exact absurd ((hworld 1).mp (hfull 1 (by decide))) (by decide)
  -- the turn goes to the other one of the two
  have hturn : ∀ (v v' : World) (i j : Slot), (∀ t : Slot, v.proc t ≠ none ↔ t = 0 ∨ t = 1) → v.running = i →
      (∀ t : Slot, t = 0 ∨ t = 1 ↔ t = i ∨ t = j) → i ≠ j → v.Does (.slice after) v' →
      v'.running = j ∧ ∀ t : Slot, v'.proc t ≠ none ↔ t = 0 ∨ t = 1 := by
    intro v v' i j hv hi hij hne hdoes
    cases hdoes with
    | slice n ecx hq hpick =>
      have hn : n = j := ((hij n).mp ((hv n).mp hpick.holds)).resolve_left fun heq => hpick.ne (heq.trans hi.symm)
      exact ⟨hn, fun t => (not_congr (put_eq_none hq t)).trans (hv t)⟩
    | alone hno =>
      have hj : v.proc j ≠ none := (hv j).mpr ((hij j).mpr (Or.inr rfl))
      exact absurd (hno j fun heq => hne (hi.symm.trans heq.symm)) hj
  rcases hp.does (a := .slice after) up trivial with ⟨p1, w1, hcall, hdoes1, hp1⟩
  have hw1 := hturn w w1 0 1 hw.2 hw.1 (fun t => Iff.rfl) (by decide) hdoes1
  rcases hp1.does (a := .slice after) up trivial with ⟨q, w2, hcall', hdoes2, hq⟩
  have hw2 := hturn w1 w2 1 0 hw1.2 hw1.1 (fun t => or_comm) (by decide) hdoes2
  exact ⟨p, p1, q, w, w1, w2, ⟨hallow, hfork⟩, ⟨trivial, hcall⟩, ⟨trivial, hcall'⟩, hp, hp1, hq, hw.1, hw1.1,
    (hw1.2 0).mpr (Or.inl rfl), hw2.1⟩

/-- Tasks that share the processor, the memory and the kernel go through every run as tasks do
that have a processor, a memory and a kernel stack of their own and take turns by their slots;
and every step that is looked at is possible. -/
theorem time_sharing (b : Boot) (r : Context) (up : Machine → BitVec 16) (deeds : List Deed) (p : Core)
    (hrun : Run.Trace (DeedStep b up) (b.loaded r) deeds p) :
    (∃ w, Run.Trace World.Does (b.world r) deeds w ∧ p.Shows b w) ∧
      ∀ a, p.Allowed b a → ∃ p', p.does up a = some p' := by
  rcases hrun.refines (fun _ _ _ _ h hstep => h.step hstep) (b.start_shared r) with ⟨w, htrace, hshared⟩
  refine ⟨⟨w, htrace, hshared.shows⟩, fun a hallow => ?_⟩
  rcases hshared.does up hallow with ⟨p', -, heq, -⟩
  exact ⟨p', heq⟩

/-- Task 0 forks and is interrupted, and the child has the processor. -/
theorem time_sharing_child : ∃ (p : Core) (w : World), p.Shows Boot.blank w ∧ p.Runs 1 ∧
    Run.Trace World.Does (Boot.blank.world firstFork.context) [.fork stackTop, .slice 0x6d11] w := by
  rcases Boot.blank.first_slices firstFork.context (fun _ => 0) 0x6d11 with
    ⟨p, p1, q, w, w1, w2, hfork, hslice, -, -, hp1, -, -, hrunning, -, -⟩
  have hrun : Run.Trace (DeedStep Boot.blank fun _ => 0) (Boot.blank.loaded firstFork.context)
      [.fork stackTop, .slice 0x6d11] p1 := (Run.Trace.nil.snoc hfork).snoc hslice
  rcases (time_sharing Boot.blank firstFork.context (fun _ => 0) _ p1 hrun).1 with ⟨w', htrace, hshows⟩
  have hruns := hp1.shows.runs
  rw [hrunning] at hruns
  exact ⟨p1, w', hshows, hruns, htrace⟩

end MockOs.Kernel
