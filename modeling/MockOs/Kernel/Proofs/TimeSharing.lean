import MockOs.Kernel.Proofs.AllOrNothing
import MockOs.Kernel.Proofs.Switch
import MockOs.Kernel.Sched.Proofs.RoundRobin
import MockOs.Kernel.TimeSharing

/-!
# The processor goes round

`schedule()` on the processor picks the slot that it picks on `task[]`, and `switch_to` comes off.
So a task that waits for the processor is as far away as it is on the round, and gets it with the
registers and the kernel stack it left.
-/

namespace MockOs.Kernel

open Mm Relation RoundRobin TaskArray

/-! ## The choice -/

theorem ofWord_running (w : BitVec 32) : TaskState.ofWord w = .running ↔ w = taskRunning := by
  rw [TaskState.ofWord]
  constructor
  · intro h
    by_contra hne
    have hzero : w ≠ 0 := hne
    rw [if_neg hzero] at h
    split_ifs at h
  · rintro rfl
    rfl

theorem ForkSys.runnable_iff (s : ForkSys) (k : Fin 64) : s.table.runnable k ↔ s.Ready k := by
  by_cases hzero : s.task k = 0
  · simp [TaskArray.runnable, ForkSys.table, ForkSys.Ready, ForkSys.Live, hzero]
  · have hlive : s.Live k := ⟨k.isLt, hzero⟩
    have htask : s.table.task k = some (s.task k) := if_neg hzero
    rw [TaskArray.runnable, htask, ForkSys.Ready, and_iff_right hlive, decide_eq_true_eq]
    exact ofWord_running _

namespace Switched

variable {w0 x y d : Nat} {p p' : Core} {loc : Fin 64 → Option Nat} {run t n : Fin 64} {up : Machine → BitVec 16}
  {after : BitVec 32}

/-- `current` is in one slot of `task[]`. -/
theorem table_at (h : Switched w0 p loc run x) : p.cpu.sys.table.At run := by
  intro k
  have hbx := h.resident.tasks.structs.loc_bounds h.here
  cases hk : loc k with
  | none =>
    have hzero : p.cpu.sys.task k = 0 := h.resident.tasks.slot_eq_zero.mpr hk
    have hne : k ≠ run := by
      rintro rfl
      rw [h.here] at hk
      cases hk
    simp only [ForkSys.table, hzero, hne, iff_false]
    simp
  | some y =>
    have hlive := (h.live hk).2
    rw [← h.current_iff hk]
    simp only [ForkSys.table, if_neg hlive, Option.some.injEq]
    exact eq_comm

/-- `schedule()` goes to the first slot behind that of `current` whose task could run. -/
theorem schedule_eq (h : Switched w0 p loc run x) (up : Machine → BitVec 16) (after : BitVec 32) :
    p.schedule up after =
      ((scanOrder run).find? p.cpu.sys.table.runnable).elim (some p) fun k => p.switchTo up after k := by
  have hat := h.table_at
  have hlt := run.isLt
  have hfind : p.cpu.sys.table.findLoop nrTasks 0 = some run.val :=
    findLoop_eq hat (Nat.zero_le _) (by rw [nrTasks]; omega)
  have hscan : p.cpu.sys.table.scanLoop nrTasks (run + 1) = some ((scanOrder run).find? p.cpu.sys.table.runnable) :=
    scanLoop_eq hat le_rfl rfl (by decide)
  rw [Core.schedule, hfind, Option.bind_eq_bind, Option.bind_some, hscan, Option.bind_eq_bind, Option.bind_some]
  cases (scanOrder run).find? p.cpu.sys.table.runnable <;> rfl

/-- With a task that could run `schedule()` switches to one, the next on the round. -/
theorem schedule (h : Switched w0 p loc run x) (hne : t ≠ run) (hready : p.cpu.sys.Ready t)
    (up : Machine → BitVec 16) (after : BitVec 32) :
    ∃ k y p', Picks (p.cpu.sys.table.runnable ·) run k ∧ loc k = some y ∧ p.schedule up after = some p' ∧
      p.switchTo up after k = some p' ∧ Switched w0 p' loc k y := by
  obtain ⟨k, hk⟩ : ∃ k, (scanOrder run).find? p.cpu.sys.table.runnable = some k := by
    rw [← Option.isSome_iff_exists, List.find?_isSome]
    exact ⟨t, mem_scanOrder.mpr hne, (p.cpu.sys.runnable_iff t).mpr hready⟩
  have hpick := picks_of_find hk
  rcases h.resident.tasks.of_live ((p.cpu.sys.runnable_iff k).mp hpick.holds).1 with ⟨k', y, hkk, hy⟩
  obtain rfl : k' = k := Fin.ext hkk
  rcases h.switchTo hy hpick.ne up after with ⟨p', u, heq, h', -⟩
  exact ⟨k', y, p', hpick, hy, by rw [h.schedule_eq, hk]; exact heq, heq, h'⟩

end Switched

/-! ## A task that waits -/

/-- Task `t` waits as `Parked` says, `d` places away at most on the round. -/
def Waiting (w0 : Nat) (t : Fin 64) (y : Nat) (m : Memory) (d : Nat) (p : Core) : Prop :=
  ∃ loc run x, Switched w0 p loc run x ∧ loc t = some y ∧ t ≠ run ∧ dist run t ≤ d ∧
    ∀ j, 244 ≤ j ∧ j < 260 ∨ 289 ≤ j ∧ j < 1024 → p.cpu.sys.mm.word (y + j) = m.word (y + j)

namespace Waiting

variable {w0 y d : Nat} {p p' : Core} {t : Fin 64} {m : Memory} {up : Machine → BitVec 16} {after : BitVec 32}

theorem parked (h : Waiting w0 t y m d p) : Parked w0 t y m p := by
  rcases h with ⟨loc, run, x, h, ht, hne, -, hword⟩
  exact ⟨loc, run, x, h, ht, hne, hword⟩

/-- The task that runs goes on. -/
theorem step (h : Waiting w0 t y m d p) (hstep : CoreStep up p p')
    (hcur : p'.cpu.sys.current = p.cpu.sys.current) : Waiting w0 t y m d p' := by
  rcases h with ⟨loc, run, x, h, ht, hne, hdist, hword⟩
  rcases h.step hstep with ⟨loc', run', x', h', hsusp⟩
  have ht' := hsusp.tasks t y ht
  have hrun := hsusp.tasks run x h.here
  have htask : p'.cpu.sys.current = p'.cpu.sys.task run := by
    rw [hcur, h.current, h'.resident.tasks.structs.task_eq hrun]
  obtain rfl : run = run' := (h'.current_iff hrun).mp htask
  exact ⟨loc', run, x', h', ht', hne, hdist, fun j hj => (hsusp.word t y j ht hne hj).trans (hword j hj)⟩

theorem pos (h : Waiting w0 t y m d p) : 1 ≤ d := by
  rcases h with ⟨loc, run, x, h, ht, hne, hdist, -⟩
  have hpos := dist_pos hne
  omega

/-- A call of `schedule()` brings the task closer, or gives it the processor. -/
theorem call (h : Waiting w0 t y m (d + 1) p) (hready : p.cpu.sys.Ready t) (up : Machine → BitVec 16)
    (after : BitVec 32) :
    ∃ (k : Fin 64) (p' : Core), p.schedule up after = some p' ∧ p.switchTo up after k = some p' ∧ p'.Runs k ∧
      (k ≠ t → Waiting w0 t y m d p') := by
  rcases h with ⟨loc, run, x, h, ht, hne, hdist, hword⟩
  rcases h.schedule hne hready up after with ⟨k, z, p', hpick, hk, hcall, hswitch, h'⟩
  refine ⟨k, p', hcall, hswitch, h'.runs, fun hkt => ?_⟩
  have hcloser := hpick.closer ((p.cpu.sys.runnable_iff t).mpr hready) hne
  rcases h.step (CoreStep.switch after k p' ((p.cpu.sys.runnable_iff k).mp hpick.holds).1 hswitch) with
    ⟨loc', run', x', hs, hsusp⟩
  have ht' := hsusp.tasks t y ht
  obtain rfl : run' = k := Fin.ext (hs.runs_eq h'.runs.live h'.runs.current)
  exact ⟨loc', run', x', hs, ht', Ne.symm hkt, by omega, fun j hj => (hsusp.word t y j ht hne hj).trans (hword j hj)⟩

end Waiting

/-- A task that has just been left is not farther away than the round is long. -/
theorem Parked.waiting {w0 y : Nat} {p : Core} {t : Fin 64} {m : Memory} (h : Parked w0 t y m p) :
    Waiting w0 t y m 63 p := by
  rcases h with ⟨loc, run, x, h, ht, hne, hword⟩
  have hlt := dist_lt run t
  exact ⟨loc, run, x, h, ht, hne, by omega, hword⟩

end MockOs.Kernel
