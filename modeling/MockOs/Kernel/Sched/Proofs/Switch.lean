import MockOs.Kernel.Sched.Cpu
import MockOs.Misc.Run

/-!
# `current` and the task register

`switch_to` exchanges `current` first and jumps afterwards. Between the test that picks a
task and the far jump a timer interrupt would enter `schedule()` once more: with a choice
that goes stale, or with `current` ahead of TR. `sys_pause` and the other system calls run
with interrupts on and keep them on in there. Without a tick in that window `current` and TR
agree wherever `schedule()` is entered, and every far jump goes to a runnable task.
-/

namespace MockOs.Kernel

open Relation

variable {s s' : Cpu} {p : Pt} {rest : List Pt} {a : CpuAct}

/-- The task a point inside `switch_to` is about to switch to. -/
def Pt.chosen : Pt → Option Slot
  | .sched (.cmp k) | .sched (.xchg k) | .sched (.ljmp k) => some k
  | _ => none

/-- No timer interrupt between the choice of a task and the far jump. -/
def Calm (s : Cpu) (a : CpuAct) : Prop :=
  a = .tick → ∀ p ∈ (s.code s.tr).head?, p.chosen = none

instance : Decidable (Calm s a) := inferInstanceAs (Decidable (_ → _))

/-- What `schedule()` relies on where it is entered, and what the far jump promises. -/
def Cpu.Coherent (s : Cpu) : Prop :=
  (∀ rest, s.code s.tr = .sched (.find 0) :: rest → s.current = s.tr) ∧
  ∀ k rest, s.code s.tr = .sched (.ljmp k) :: rest → s.current = k ∧ s.state k = .running

/-- The task that `current` ought to name. -/
def Cpu.named (s : Cpu) : Slot :=
  match s.code s.tr with
  | .sched (.ljmp k) :: _ => k
  | _ => s.tr

/-- Only the task in TR can be inside `switch_to`, at the top of its stack, and the task it
has chosen is runnable. -/
structure SwitchInv (s : Cpu) : Prop where
  others : ∀ t, t ≠ s.tr → ∀ p ∈ s.code t, p.chosen = none
  below : ∀ p ∈ (s.code s.tr).tail, p.chosen = none
  current : s.current = s.named
  chosen : ∀ p ∈ (s.code s.tr).head?, ∀ k, p.chosen = some k → k ≠ s.tr ∧ s.state k = .running

theorem Cpu.named_of_chosen (h : ∀ p ∈ (s.code s.tr).head?, p.chosen = none) :
    s.named = s.tr := by
  unfold Cpu.named
  split
  · rename_i hcode
    have hnone := h _ (by rw [hcode]; rfl)
    cases hnone
  · rfl

theorem SwitchInv.current_eq (h : SwitchInv s) (hcode : s.code s.tr = p :: rest)
    (hp : p.chosen = none) : s.current = s.tr := by
  rw [h.current]
  apply Cpu.named_of_chosen
  rw [hcode]
  rintro _ ⟨⟩
  exact hp

theorem SwitchInv.coherent (h : SwitchInv s) : s.Coherent := by
  refine ⟨fun rest hcode => h.current_eq hcode rfl, fun k rest hcode => ⟨?_, ?_⟩⟩
  · rw [h.current, Cpu.named, hcode]
  · exact (h.chosen _ (by rw [hcode]; rfl) k rfl).2

/-! ## Statements outside `switch_to` -/

/-- What a statement with `rest` behind it does outside `switch_to`: the running task stays
the running task, its stack gets no point inside `switch_to`, and the only other stack it
may write is that of a new task. -/
structure Plain (s : Cpu) (rest : List Pt) (s' : Cpu) : Prop where
  tr : s'.tr = s.tr
  current : s'.current = s.current
  code : ∀ q ∈ s'.code s.tr, q ∈ rest ∨ q.chosen = none
  others : ∀ t, t ≠ s.tr → s'.code t = s.code t ∨ s'.code t = [.user]

/-- A write to the other variables, and a jump. -/
theorem Plain.goto {u : Cpu} {q : List Pt} (htr : u.tr = s.tr) (hcur : u.current = s.current)
    (hcode : u.code = s.code) (hq : ∀ x ∈ q, x ∈ rest ∨ x.chosen = none) :
    Plain s rest (u.goto q) := by
  refine ⟨htr, hcur, ?_, fun t ht => Or.inl ?_⟩
  · simpa [Cpu.goto, htr] using hq
  · simp [Cpu.goto, htr, ht, hcode]

theorem Plain.copyProcess (nr : Slot) : Plain s rest ((s.copyProcess nr).goto rest) := by
  refine ⟨rfl, rfl, fun q hq => Or.inl ?_, fun t ht => ?_⟩
  · simpa [Cpu.goto, Cpu.copyProcess] using hq
  · by_cases htn : t = nr
    · right
      simp [Cpu.goto, Cpu.copyProcess, htn ▸ ht, htn]
    · left
      simp [Cpu.goto, Cpu.copyProcess, ht, htn]

theorem exec_plain (hp : ∀ q, p ≠ .sched q) (h : s.exec rest p = some s') : Plain s rest s' := by
  cases p with
  | sched q => exact absurd rfl (hp q)
  | user | panic => cases h
  | fork =>
    simp only [Cpu.exec] at h
    split at h
    · cases h
      exact .copyProcess _
    · cases h
      exact .goto rfl rfl rfl fun x hx => Or.inl hx
  | klockTest n | kunlockWake n | sysTest | sleepEnter q | sleepBack q tmp =>
    simp only [Cpu.exec] at h
    split at h <;> cases h <;> exact .goto rfl rfl rfl (by simp +contextual [Pt.chosen])
  | wakeHead q =>
    simp only [Cpu.exec] at h
    split at h
    · cases h
      exact .goto rfl rfl rfl (by simp +contextual [Pt.chosen])
    · cases h
  | sleepPop q tmp =>
    cases tmp <;> cases h <;> exact .goto rfl rfl rfl (by simp +contextual [Pt.chosen])
  | _ =>
    cases h
    exact .goto rfl rfl rfl (by simp +contextual [Pt.chosen])

/-! ## Every step -/

/-- With nobody inside `switch_to`, `current` has to name the task in TR. -/
theorem SwitchInv.of_quiet (hcur : s.current = s.tr) (h : ∀ t, ∀ p ∈ s.code t, p.chosen = none) :
    SwitchInv s := by
  have hhead : ∀ p ∈ (s.code s.tr).head?, p.chosen = none := fun p hp =>
    h _ p (List.mem_of_mem_head? hp)
  refine ⟨fun t _ => h t, fun p hp => h _ p (List.mem_of_mem_tail hp), ?_, fun p hp k hk => ?_⟩
  · rw [hcur, Cpu.named_of_chosen hhead]
  · rw [hhead p hp] at hk
    cases hk

theorem SwitchInv.plain (h : SwitchInv s) (hcode : s.code s.tr = p :: rest) (hp : p.chosen = none)
    (hpl : Plain s rest s') : SwitchInv s' := by
  have hrest : ∀ q ∈ rest, q.chosen = none := fun q hq => h.below q (by rwa [hcode])
  refine .of_quiet ?_ fun t q hq => ?_
  · rw [hpl.current, hpl.tr]
    exact h.current_eq hcode hp
  · by_cases ht : t = s.tr
    · subst ht
      rcases hpl.code q hq with hq | hq
      · exact hrest q hq
      · exact hq
    · rcases hpl.others t ht with heq | heq
      · rw [heq] at hq
        exact h.others t ht q hq
      · rw [heq] at hq
        rw [List.mem_singleton.mp hq]
        rfl

/-- The running task stays inside `switch_to` on the way to `k`. -/
theorem SwitchInv.switching (h : SwitchInv s) {u : Cpu} {k : Slot} {q : SchedPc}
    (hcode : s.code s.tr = p :: rest) (htr : u.tr = s.tr) (hold : u.code = s.code)
    (hcur : u.current = (u.goto (.sched q :: rest)).named)
    (hk : k ≠ s.tr ∧ u.state k = .running)
    (hq : ∀ j, (Pt.sched q).chosen = some j → j = k) :
    SwitchInv (u.goto (.sched q :: rest)) := by
  have hself : (u.goto (.sched q :: rest)).code (u.goto (.sched q :: rest)).tr =
      .sched q :: rest := by simp [Cpu.goto]
  refine ⟨fun t ht x hx => ?_, fun x hx => ?_, hcur, fun x hx j hj => ?_⟩
  · have ht' : t ≠ s.tr := htr ▸ ht
    refine h.others t ht' x ?_
    simpa [Cpu.goto, htr, ht', hold] using hx
  · rw [hself] at hx
    exact h.below x (by rwa [hcode])
  · rw [hself] at hx
    cases hx
    rw [hq j hj]
    exact ⟨htr ▸ hk.1, hk.2⟩

/-- The far jump: the task that was in TR is behind it, the task it goes to was outside
`switch_to`. -/
theorem SwitchInv.ljmp (h : SwitchInv s) {k : Slot} (hcode : s.code s.tr = .sched (.ljmp k) :: rest) :
    SwitchInv { s.goto (.sched .back :: rest) with tr := k } := by
  refine .of_quiet ?_ fun t q hq => ?_
  · rw [show ({ s.goto (.sched .back :: rest) with tr := k } : Cpu).current = s.named from h.current,
      Cpu.named, hcode]
  · by_cases ht : t = s.tr
    · subst ht
      simp only [Cpu.goto, Function.update_self, List.mem_cons] at hq
      rcases hq with rfl | hq
      · rfl
      · exact h.below q (by rwa [hcode])
    · refine h.others t ht q ?_
      simpa [Cpu.goto, ht] using hq

theorem SwitchInv.schedule (h : SwitchInv s) {q : SchedPc} (hcode : s.code s.tr = .sched q :: rest)
    (hok : s.schedule rest q = some s') : SwitchInv s' := by
  cases q with
  | find i =>
    simp only [Cpu.schedule] at hok
    split at hok <;> cases hok <;>
      exact h.plain hcode rfl (.goto rfl rfl rfl (by simp +contextual [Pt.chosen]))
  | scan i =>
    have hcur : s.current = s.tr := h.current_eq hcode rfl
    simp only [Cpu.schedule] at hok
    split at hok
    · cases hok
      exact h.plain hcode rfl (.goto rfl rfl rfl fun x hx => Or.inl hx)
    · rename_i hk
      split at hok
      · rename_i hrun
        cases hok
        refine h.switching hcode rfl rfl ?_ ⟨hcur ▸ hk, hrun.2⟩ ?_
        · simpa [Cpu.named, Cpu.goto] using hcur
        · simp [Pt.chosen]
      · cases hok
        exact h.plain hcode rfl (.goto rfl rfl rfl (by simp +contextual [Pt.chosen]))
  | cmp k =>
    have hk := h.chosen _ (by rw [hcode]; rfl) k rfl
    have hcur : s.current = s.tr := by rw [h.current, Cpu.named, hcode]
    rw [Cpu.schedule, if_neg (hcur ▸ hk.1)] at hok
    cases hok
    refine h.switching hcode rfl rfl ?_ hk ?_
    · simpa [Cpu.named, Cpu.goto] using hcur
    · simp [Pt.chosen]
  | xchg k =>
    have hk := h.chosen _ (by rw [hcode]; rfl) k rfl
    cases hok
    refine h.switching (k := k) hcode rfl rfl ?_ hk ?_
    · simp [Cpu.named, Cpu.goto]
    · simp [Pt.chosen]
  | ljmp k =>
    simp only [Cpu.schedule] at hok
    split at hok
    · cases hok
    · cases hok
      exact h.ljmp hcode
  | back =>
    cases hok
    exact h.plain hcode rfl (.goto rfl rfl rfl fun x hx => Or.inl hx)

/-- A timer interrupt outside `switch_to`. -/
theorem SwitchInv.tick (h : SwitchInv s) (hcalm : ∀ p ∈ (s.code s.tr).head?, p.chosen = none) :
    SwitchInv ((s.setIf false).goto (.tick :: s.code s.tr)) := by
  refine .of_quiet ?_ fun t q hq => ?_
  · exact h.current.trans (Cpu.named_of_chosen hcalm)
  · by_cases ht : t = s.tr
    · subst ht
      simp only [Cpu.goto, Cpu.setIf, Function.update_self, List.mem_cons] at hq
      rcases hq with rfl | hq
      · rfl
      · cases hcode : s.code s.tr with
        | nil => simp [hcode] at hq
        | cons p rest =>
          rw [hcode] at hq
          rcases List.mem_cons.mp hq with rfl | hq
          · exact hcalm _ (by rw [hcode]; rfl)
          · exact h.below q (by rwa [hcode])
    · refine h.others t ht q ?_
      simpa [Cpu.goto, Cpu.setIf, ht] using hq

theorem SwitchInv.step (h : SwitchInv s) (hcalm : Calm s a) (hstep : s.step a = some s') :
    SwitchInv s' := by
  cases a with
  | go =>
    simp only [Cpu.step] at hstep
    split at hstep
    · rename_i p rest hcode
      cases p with
      | sched q => exact h.schedule hcode hstep
      | _ => exact h.plain hcode rfl (exec_plain (by simp) hstep)
    · cases hstep
  | full =>
    simp only [Cpu.step] at hstep
    split at hstep
    · rename_i rest hcode
      cases hstep
      exact h.plain hcode rfl (.goto rfl rfl rfl fun x hx => Or.inl hx)
    · rename_i rest hcode
      cases hstep
      exact h.plain hcode rfl (.goto rfl rfl rfl (by simp +contextual [Pt.chosen]))
    · cases hstep
  | call c =>
    simp only [Cpu.step] at hstep
    split at hstep
    · rename_i rest hcode
      cases hstep
      refine h.plain hcode rfl (.goto rfl rfl rfl ?_)
      cases c <;> simp +contextual [Pt.chosen, Sys.entry]
    · cases hstep
  | tick =>
    simp only [Cpu.step] at hstep
    split at hstep
    · cases hstep
      exact h.tick (hcalm rfl)
    · cases hstep

theorem SwitchInv.start : SwitchInv Cpu.start := by
  refine .of_quiet rfl fun t p hp => ?_
  rw [List.mem_singleton.mp hp]
  rfl

/-- In every run without a timer interrupt between the choice of a task and the far jump,
`current` is the task in TR wherever `schedule()` is entered, and every far jump goes to the
task that `current` names, which is runnable. -/
theorem schedule_coherent (hrun : ReflTransGen (CpuStep Calm) Cpu.start s) : s.Coherent := by
  have hinv : SwitchInv s := Run.invariant
    (fun _ _ h hstep => by
      rcases hstep with ⟨a, hcalm, hok⟩
      exact h.step hcalm hok) hrun SwitchInv.start
  exact hinv.coherent

theorem steps_run {R : Cpu → CpuAct → Prop} [∀ s a, Decidable (R s a)] {as : List CpuAct}
    (h : s.steps R as = some s') : ReflTransGen (CpuStep R) s s' := by
  induction as generalizing s with
  | nil =>
    cases h
    exact ReflTransGen.refl
  | cons a as ih =>
    rw [Cpu.steps, List.foldlM_cons, Option.bind_eq_bind, Option.bind_eq_some_iff] at h
    rcases h with ⟨u, hstep, hrest⟩
    split at hstep
    · rename_i hR
      exact (ReflTransGen.single ⟨a, hR, hstep⟩).trans (ih hrest)
    · cases hstep

/-- Task 0 calls `fork`, which makes task 1, and is back in user mode. -/
def forkActs : List CpuAct := [.call .fork, .go, .go, .go, .go]

/-- Task 0 then calls `pause` and is about to make the far jump to task 1. -/
def switchActs : List CpuAct := forkActs ++ [.call .pause, .go, .go, .go, .go, .go, .go]

theorem switchActs_steps : ∃ s, Cpu.start.steps Calm switchActs = some s ∧ s.tr = 0 ∧
    s.current = 1 ∧ s.iflag 0 = true ∧
    s.code 0 = [.sched (.ljmp 1), .pauseRet, .sysTest, .user] := by
  have h : (Cpu.start.steps Calm switchActs).map (fun s => (s.tr, s.current, s.iflag 0, s.code 0)) =
      some (0, 1, true, [.sched (.ljmp 1), .pauseRet, .sysTest, .user]) := by decide +kernel
  rcases Option.map_eq_some_iff.mp h with ⟨s, hs, heq⟩
  simp only [Prod.mk.injEq] at heq
  exact ⟨s, hs, heq⟩

/-- The far jump of `pause` to task 1. -/
theorem schedule_coherent_pause : ∃ s, ReflTransGen (CpuStep Calm) Cpu.start s ∧
    s.code s.tr = [.sched (.ljmp 1), .pauseRet, .sysTest, .user] ∧ s.current = 1 ∧
    s.state 1 = .running := by
  rcases switchActs_steps with ⟨s, hs, htr, -, -, hcode⟩
  have hrun := steps_run hs
  rw [← htr] at hcode
  exact ⟨s, hrun, hcode, (schedule_coherent hrun).2 1 _ hcode⟩

/-- Task 0 is in `pause`, `current` is task 1 already and TR still task 0: a tick enters
`schedule()` there. -/
theorem schedule_incoherent_tick : ∃ s, ReflTransGen (CpuStep fun _ _ => True) Cpu.start s ∧
    s.code s.tr = [.sched (.find 0), .tickRet, .sched (.ljmp 1), .pauseRet, .sysTest, .user] ∧
    s.current = 1 ∧ s.tr = 0 ∧ ¬ s.Coherent := by
  rcases switchActs_steps with ⟨s, hs, htr, hcur, hif, hcode⟩
  have hrun : ReflTransGen (CpuStep fun _ _ => True) Cpu.start s := by
    refine ReflTransGen.mono (fun u v huv => ?_) _ _ (steps_run hs)
    rcases huv with ⟨a, -, hok⟩
    exact ⟨a, trivial, hok⟩
  rw [← htr] at hif hcode
  have htick : s.step .tick = some ((s.setIf false).goto (.tick :: s.code s.tr)) := by
    rw [Cpu.step, if_pos hif]
  have hcall : ((s.setIf false).goto (.tick :: s.code s.tr)).step .go =
      some (((s.setIf false).goto (.tick :: s.code s.tr)).goto
        (.sched (.find 0) :: .tickRet :: s.code s.tr)) := by
    simp [Cpu.step, Cpu.goto, Cpu.setIf, Cpu.exec]
  refine ⟨_, (hrun.tail ⟨.tick, trivial, htick⟩).tail ⟨.go, trivial, hcall⟩, ?_, hcur, htr, ?_⟩
  · simp [Cpu.goto, Cpu.setIf, hcode]
  · intro hcoh
    have hbad : s.current = s.tr := hcoh.1 (.tickRet :: s.code s.tr) (by simp [Cpu.goto, Cpu.setIf])
    rw [hcur, htr] at hbad
    cases hbad

end MockOs.Kernel
