import MockOs.Kernel.Sched.Proofs.Switch

/-!
# Sleeping until woken

A task that has put itself to sleep calls `schedule()` and counts on being away until
somebody makes it runnable. `schedule()` looks for another runnable task and, when there is
none, returns to its caller, asleep or not. So a sleeper blocks as long as every call of
`schedule()` that it makes finds another task to run.
-/

namespace MockOs.Kernel

open Relation

variable {s s' : Cpu} {p : Pt} {rest : List Pt} {a : CpuAct}

/-- The points that call `schedule()`, or may do so. -/
def Pt.calls : Pt → Bool
  | .pauseCall | .sleepCall _ _ | .sysTest | .tick => true
  | _ => false

/-- A task other than `t` that can run. -/
def Cpu.Runnable (s : Cpu) (t k : Slot) : Prop :=
  k ≠ t ∧ s.live k = true ∧ s.state k = .running

/-- Whoever calls `schedule()` can go on running, or there is another task that can. -/
def Attended (s : Cpu) (a : CpuAct) : Prop :=
  a = .go → ∀ p ∈ (s.code s.tr).head?, p.calls = true →
    s.state s.current = .running ∨ ∃ k, s.Runnable s.current k

instance (t k : Slot) : Decidable (s.Runnable t k) := inferInstanceAs (Decidable (_ ∧ _))
instance : Decidable (Attended s a) := inferInstanceAs (Decidable (_ → _))

/-- A task behind the `schedule()` of `__sleep_on` is no longer asleep, and no task goes
back to user mode from a system call with its state still `TASK_INTERRUPTIBLE`. -/
def Cpu.Blocks (s : Cpu) : Prop :=
  (∀ p tmp rest, s.code s.tr = .sleepBack p tmp :: rest → s.state s.tr ≠ .uninterruptible) ∧
  ∀ rest, s.code s.tr = .sysRet :: rest → s.state s.current ≠ .interruptible

/-! ## A sleeper that still runs -/

/-- The search of `schedule()` has a runnable task ahead of it, before it comes round to the
task `t` that it started from. -/
def Ahead (t : Slot) (runnable : Slot → Prop) : SchedPc → Prop
  | .find i => i ≤ t ∧ ∃ k, runnable k
  | .scan i => ∃ d, runnable (Fin.ofNat 64 (i + d)) ∧ ∀ e < d, Fin.ofNat 64 (i + e) ≠ t
  | .cmp _ | .xchg _ | .ljmp _ => True
  | .back => False

/-- Where the task in TR can be while it is asleep: at a call of `schedule()`, inside a search
that will not come back, or in a timer interrupt on top of these. -/
def Dozing (t : Slot) (runnable : Slot → Prop) : List Pt → Prop
  | .pauseCall :: _ | .sleepCall _ _ :: _ => True
  | .tick :: rest | .tickRet :: rest => Dozing t runnable rest
  | .sched q :: _ => Ahead t runnable q
  | _ => False

/-- From the slot after `t` the scan meets every other slot before it meets `t`. -/
theorem exists_ahead {t k : Slot} (hk : k ≠ t) :
    ∃ d, Fin.ofNat 64 (t.val + 1 + d) = k ∧ ∀ e < d, Fin.ofNat 64 (t.val + 1 + e) ≠ t := by
  have hne : k.val ≠ t.val := fun h => hk (Fin.ext h)
  refine ⟨(k.val + 63 - t.val) % 64, Fin.ext ?_, fun e he heq => ?_⟩
  · simp only [Fin.ofNat]
    omega
  · have hval := congrArg Fin.val heq
    simp only [Fin.ofNat] at hval
    omega

/-- The invariant: a task that runs on although it is not runnable is on its way out. -/
structure BlockInv (s : Cpu) : Prop where
  switch : SwitchInv s
  dozing : s.state s.tr ≠ .running → Dozing s.tr (s.Runnable s.tr) (s.code s.tr)

theorem BlockInv.of_running (h : SwitchInv s) (hrun : s.state s.tr = .running) : BlockInv s :=
  ⟨h, fun hne => absurd hrun hne⟩

/-- At any other point the task in TR is awake. -/
theorem BlockInv.awake (h : BlockInv s) (hcode : s.code s.tr = p :: rest)
    (hno : ¬ Dozing s.tr (s.Runnable s.tr) (p :: rest)) : s.state s.tr = .running := by
  by_contra hne
  exact hno (hcode ▸ h.dozing hne)

theorem BlockInv.blocks (h : BlockInv s) : s.Blocks := by
  refine ⟨fun p tmp rest hcode => ?_, fun rest hcode => ?_⟩
  · rw [h.awake hcode (by simp [Dozing])]
    simp
  · rw [h.switch.current_eq hcode rfl, h.awake hcode (by simp [Dozing])]
    simp

/-! ## Every step -/

/-- The statements by which a task puts itself to sleep. -/
def Pt.sleeps : Pt → Bool
  | .pauseSet | .sleepState _ _ | .sleepAgain _ _ => true
  | _ => false

/-- No other statement puts a task to sleep. -/
theorem exec_state (hp : p.sleeps = false) (h : s.exec rest p = some s') (k : Slot)
    (hk : s.state k = .running) : s'.state k = .running := by
  -- the three ways a statement can leave the states
  have hset : ∀ (u : Cpu) (j : Slot) (q : List Pt), u.state = s.state →
      ((u.setState j .running).goto q).state k = .running := by
    intro u j q hu
    simp only [Cpu.goto, Cpu.setState, Function.update_apply, hu]
    split
    · rfl
    · exact hk
  cases p with
  | pauseSet | sleepState | sleepAgain => cases hp
  | user | panic => cases h
  | wake j =>
    cases h
    exact hset s j rest rfl
  | fork =>
    simp only [Cpu.exec] at h
    split at h
    · rename_i nr _
      cases h
      exact hset s nr rest rfl
    · cases h
      exact hk
  | sched q =>
    cases q with
    | find | scan | cmp | ljmp =>
      simp only [Cpu.exec, Cpu.schedule] at h
      (repeat' split at h) <;> cases h <;> exact hk
    | xchg | back =>
      cases h
      exact hk
  | klockTest | kunlockWake | sysTest | sleepEnter | sleepBack | wakeHead =>
    simp only [Cpu.exec] at h
    split at h <;> cases h <;> exact hk
  | sleepPop q tmp =>
    cases tmp <;> cases h <;> exact hk
  | _ =>
    cases h
    exact hk

/-- A search that has a runnable task ahead goes on or switches to one. -/
theorem Ahead.schedule (hinv : SwitchInv s) {q : SchedPc} (hcode : s.code s.tr = .sched q :: rest)
    (h : Ahead s.tr (s.Runnable s.tr) q) (hok : s.schedule rest q = some s') :
    s'.state s'.tr ≠ .running → Dozing s'.tr (s'.Runnable s'.tr) (s'.code s'.tr) := by
  -- the search goes on with `q'`
  have hgoto : ∀ q', Ahead s.tr (s.Runnable s.tr) q' →
      Dozing s.tr (s.Runnable s.tr) ((s.goto (.sched q' :: rest)).code s.tr) := by
    intro q' hq'
    simpa [Cpu.goto, Dozing] using hq'
  cases q with
  | find i =>
    have hcur : s.current = s.tr := hinv.current_eq hcode rfl
    rcases h with ⟨hi, k, hk⟩
    rw [Cpu.schedule, hcur] at hok
    split at hok
    · rename_i heq
      cases hok
      rcases exists_ahead hk.1 with ⟨d, hd, hno⟩
      refine fun _ => hgoto (.scan (i + 1)) ⟨d, ?_, ?_⟩
      · rw [heq, hd]
        exact hk
      · rw [heq]
        exact hno
    · rename_i hne
      cases hok
      exact fun _ => hgoto (.find (i + 1)) ⟨by omega, k, hk⟩
  | scan i =>
    have hcur : s.current = s.tr := hinv.current_eq hcode rfl
    rcases h with ⟨d, hd, hno⟩
    rw [Cpu.schedule, hcur] at hok
    split at hok
    · -- the runnable task comes before the task itself
      rename_i heq
      cases d with
      | zero => exact absurd heq hd.1
      | succ d => exact absurd heq (hno 0 (by omega))
    · split at hok
      · cases hok
        exact fun _ => hgoto (.cmp (Fin.ofNat 64 i)) trivial
      · rename_i hrun
        cases hok
        refine fun _ => hgoto (.scan (i + 1)) ?_
        cases d with
        | zero => exact absurd hd.2 hrun
        | succ d =>
          refine ⟨d, ?_, fun e he => ?_⟩
          · rw [show i + 1 + d = i + (d + 1) by omega]
            exact hd
          · rw [show i + 1 + e = i + (e + 1) by omega]
            exact hno (e + 1) (by omega)
  | cmp k =>
    have hk := hinv.chosen _ (by rw [hcode]; rfl) k rfl
    have hcur : s.current = s.tr := by rw [hinv.current, Cpu.named, hcode]
    rw [Cpu.schedule, if_neg (hcur ▸ hk.1)] at hok
    cases hok
    exact fun _ => hgoto (.xchg k) trivial
  | xchg k =>
    cases hok
    exact fun _ => hgoto (.ljmp k) trivial
  | ljmp k =>
    have hk := hinv.chosen _ (by rw [hcode]; rfl) k rfl
    rw [Cpu.schedule, if_neg hk.1] at hok
    cases hok
    exact fun hne => absurd hk.2 hne
  | back => cases h

/-- A sleeper calls `schedule()`. -/
theorem Attended.call (hinv : SwitchInv s) (hcode : s.code s.tr = p :: rest) (hp : p.calls = true)
    (hchosen : p.chosen = none) (hatt : Attended s .go) (hne : s.state s.tr ≠ .running)
    (q : List Pt) : Dozing s.tr (s.Runnable s.tr) ((s.goto (.sched (.find 0) :: q)).code s.tr) := by
  have hcur : s.current = s.tr := hinv.current_eq hcode hchosen
  rcases hatt rfl p (by rw [hcode]; rfl) hp with hrun | ⟨k, hk⟩
  · exact absurd (hcur ▸ hrun) hne
  · rw [hcur] at hk
    simp only [Cpu.goto, Function.update_self, Dozing, Ahead]
    exact ⟨Nat.zero_le _, k, hk⟩

/-- A statement of a sleeper. -/
theorem BlockInv.exec_dozing (h : BlockInv s) (hcode : s.code s.tr = p :: rest)
    (hatt : Attended s .go) (hne : s.state s.tr ≠ .running) (hok : s.exec rest p = some s') :
    s'.state s'.tr ≠ .running → Dozing s'.tr (s'.Runnable s'.tr) (s'.code s'.tr) := by
  have hdoz : Dozing s.tr (s.Runnable s.tr) (p :: rest) := hcode ▸ h.dozing hne
  cases p with
  | pauseCall =>
    cases hok
    exact fun _ => hatt.call h.switch hcode rfl rfl hne _
  | sleepCall q tmp =>
    cases hok
    exact fun _ => hatt.call h.switch hcode rfl rfl hne _
  | tick =>
    cases hok
    exact fun _ => hatt.call h.switch hcode rfl rfl hne _
  | tickRet =>
    cases hok
    intro _
    show Dozing s.tr (s.Runnable s.tr) (Function.update s.code s.tr rest s.tr)
    rw [Function.update_self]
    exact hdoz
  | sched q => exact Ahead.schedule h.switch hcode hdoz hok
  | _ => cases hdoz

/-- Only the far jump writes TR. -/
theorem exec_tr (hp : ∀ k, p ≠ .sched (.ljmp k)) (h : s.exec rest p = some s') : s'.tr = s.tr := by
  cases p with
  | sched q =>
    cases q with
    | ljmp k => exact absurd rfl (hp k)
    | find | scan | cmp =>
      simp only [Cpu.exec, Cpu.schedule] at h
      (repeat' split at h) <;> cases h <;> rfl
    | xchg | back =>
      cases h
      rfl
  | _ => exact (exec_plain (by simp) h).tr

/-- A statement of a task that is awake. -/
theorem BlockInv.exec_awake (h : BlockInv s) (hcode : s.code s.tr = p :: rest)
    (hrun : s.state s.tr = .running) (hok : s.exec rest p = some s') :
    s'.state s'.tr ≠ .running → Dozing s'.tr (s'.Runnable s'.tr) (s'.code s'.tr) := by
  by_cases hp : p.sleeps = true
  · cases p with
    | pauseSet | sleepState | sleepAgain =>
      cases hok
      intro _
      simp [Cpu.goto, Cpu.setState, Dozing]
    | _ => cases hp
  · have hkeep := exec_state (by simpa using hp) hok
    intro hne
    exfalso
    apply hne
    by_cases hljmp : ∃ k, p = .sched (.ljmp k)
    · -- the task that is jumped to is runnable
      rcases hljmp with ⟨k, rfl⟩
      have hk := h.switch.chosen _ (by rw [hcode]; rfl) k rfl
      rw [Cpu.exec, Cpu.schedule, if_neg hk.1] at hok
      cases hok
      exact hk.2
    · rw [exec_tr (fun k hk => hljmp ⟨k, hk⟩) hok]
      exact hkeep _ hrun

theorem BlockInv.step (h : BlockInv s) (hcalm : Calm s a) (hatt : Attended s a)
    (hstep : s.step a = some s') : BlockInv s' := by
  refine ⟨h.switch.step hcalm hstep, ?_⟩
  cases a with
  | go =>
    simp only [Cpu.step] at hstep
    split at hstep
    · rename_i p rest hcode
      by_cases hrun : s.state s.tr = .running
      · exact h.exec_awake hcode hrun hstep
      · exact h.exec_dozing hcode hatt hrun hstep
    · cases hstep
  | full =>
    simp only [Cpu.step] at hstep
    split at hstep
    · rename_i rest hcode
      cases hstep
      exact fun hne => absurd (h.awake hcode (by simp [Dozing])) hne
    · rename_i rest hcode
      cases hstep
      exact fun hne => absurd (h.awake hcode (by simp [Dozing])) hne
    · cases hstep
  | call c =>
    simp only [Cpu.step] at hstep
    split at hstep
    · rename_i rest hcode
      cases hstep
      exact fun hne => absurd (h.awake hcode (by simp [Dozing])) hne
    · cases hstep
  | tick =>
    simp only [Cpu.step] at hstep
    split at hstep
    · cases hstep
      intro hne
      show Dozing s.tr (s.Runnable s.tr) (Function.update s.code s.tr (.tick :: s.code s.tr) s.tr)
      rw [Function.update_self]
      exact h.dozing hne
    · cases hstep

/-- In every run in which no timer interrupt comes between the choice of a task and the far
jump, and in which each call of `schedule()` by a task that is not runnable finds another one
that is, `sleep_on` blocks until the sleeper is made runnable and `sys_pause` does not come
back to user mode asleep. -/
theorem sleep_blocks (hrun : ReflTransGen (CpuStep fun s a => Calm s a ∧ Attended s a) Cpu.start s) :
    s.Blocks := by
  have hinv : BlockInv s := Run.invariant
    (fun _ _ h hstep => by
      rcases hstep with ⟨a, ⟨hcalm, hatt⟩, hok⟩
      exact h.step hcalm hatt hok) hrun (BlockInv.of_running SwitchInv.start rfl)
  exact hinv.blocks

/-- Task 0 has paused while task 1 can run, and task 1 returns from a `fork` of its own. -/
theorem sleep_blocks_pause : ∃ s,
    ReflTransGen (CpuStep fun s a => Calm s a ∧ Attended s a) Cpu.start s ∧
    s.code s.tr = [.sysRet, .user] ∧ s.state 0 = .interruptible ∧
    s.state s.current ≠ .interruptible := by
  have h : (Cpu.start.steps (fun s a => Calm s a ∧ Attended s a)
      (switchActs ++ [.go, .call .fork, .go, .go, .go])).map (fun s => (s.code s.tr, s.state 0)) =
      some ([.sysRet, .user], .interruptible) := by decide +kernel
  rcases Option.map_eq_some_iff.mp h with ⟨s, hs, heq⟩
  simp only [Prod.mk.injEq] at heq
  have hrun := steps_run hs
  exact ⟨s, hrun, heq.1, heq.2, (sleep_blocks hrun).2 _ heq.1⟩

/-! ## Nobody else to run -/

theorem goto_goto (q q' : List Pt) : (s.goto q).goto q' = s.goto q' := by
  simp [Cpu.goto]

theorem goto_code (q : List Pt) : (s.goto q).code (s.goto q).tr = q := by
  simp [Cpu.goto]

/-- The scan finds nobody and returns. -/
theorem scan_alone (hno : ∀ k, ¬ s.Runnable s.current k) {i d : Nat}
    (hcode : s.code s.tr = .sched (.scan i) :: rest) (hd : Fin.ofNat 64 (i + d) = s.current) :
    ReflTransGen (CpuStep fun _ _ => True) s (s.goto rest) := by
  induction d generalizing s i with
  | zero =>
    refine ReflTransGen.single ⟨.go, trivial, ?_⟩
    simp only [Cpu.step, hcode, Cpu.exec, Cpu.schedule, if_pos (show Fin.ofNat 64 i = _ from hd)]
  | succ d ih =>
    by_cases hi : Fin.ofNat 64 i = s.current
    · refine ReflTransGen.single ⟨.go, trivial, ?_⟩
      simp only [Cpu.step, hcode, Cpu.exec, Cpu.schedule, if_pos hi]
    · have hnext : s.step .go = some (s.goto (.sched (.scan (i + 1)) :: rest)) := by
        simp only [Cpu.step, hcode, Cpu.exec, Cpu.schedule, if_neg hi]
        exact if_neg fun hrun => hno _ ⟨hi, hrun⟩
      have hrest := ih (s := s.goto (.sched (.scan (i + 1)) :: rest)) hno (goto_code _)
        (by rw [show i + 1 + d = i + (d + 1) by omega]; exact hd)
      rw [goto_goto] at hrest
      exact (ReflTransGen.single ⟨.go, trivial, hnext⟩).trans hrest

theorem find_alone (hno : ∀ k, ¬ s.Runnable s.current k) {i d : Nat}
    (hcode : s.code s.tr = .sched (.find i) :: rest) (hd : i + d = s.current) :
    ReflTransGen (CpuStep fun _ _ => True) s (s.goto rest) := by
  induction d generalizing s i with
  | zero =>
    have hnext : s.step .go = some (s.goto (.sched (.scan (i + 1)) :: rest)) := by
      simp only [Cpu.step, hcode, Cpu.exec, Cpu.schedule, if_pos (show i = _ from hd)]
    have hrest := scan_alone (s := s.goto (.sched (.scan (i + 1)) :: rest)) (d := 63) hno
      (goto_code _) (Fin.ext (by simp only [Fin.ofNat, Cpu.goto]; omega))
    rw [goto_goto] at hrest
    exact (ReflTransGen.single ⟨.go, trivial, hnext⟩).trans hrest
  | succ d ih =>
    have hnext : s.step .go = some (s.goto (.sched (.find (i + 1)) :: rest)) := by
      simp only [Cpu.step, hcode, Cpu.exec, Cpu.schedule]
      exact if_neg (by omega)
    have hrest := ih (s := s.goto (.sched (.find (i + 1)) :: rest)) hno (goto_code _)
      (show i + 1 + d = s.current by omega)
    rw [goto_goto] at hrest
    exact (ReflTransGen.single ⟨.go, trivial, hnext⟩).trans hrest

/-- With nobody else to run `schedule()` returns to its caller, whatever the caller's state. -/
theorem schedule_alone (hno : ∀ k, ¬ s.Runnable s.current k)
    (hcode : s.code s.tr = .sched (.find 0) :: rest) :
    ReflTransGen (CpuStep fun _ _ => True) s (s.goto rest) :=
  find_alone hno hcode (Nat.zero_add _)

/-- Task 0 takes mutex 0 and pauses; task 1 asks for the mutex, goes to sleep and is back at
once. -/
theorem sleep_on_returns_asleep : ∃ s, ReflTransGen (CpuStep fun _ _ => True) Cpu.start s ∧
    s.code s.tr = [.sleepBack (.mutex 0) none, .klockTest 0, .sysTest, .user] ∧
    s.state s.tr = .uninterruptible := by
  have h : (Cpu.start.steps (fun _ _ => True) (forkActs ++
      [.call (.klock 0), .go, .go, .go, .go, .go, .go, .call .pause, .go, .go, .go, .go, .go, .go,
        .go, .call (.klock 0), .go, .go, .go, .go, .go, .go])).map
      (fun s => (s.code s.tr, s.state s.tr, decide (∀ k, ¬ s.Runnable s.current k))) =
      some ([.sched (.find 0), .sleepBack (.mutex 0) none, .klockTest 0, .sysTest, .user],
        .uninterruptible, true) := by decide +kernel
  rcases Option.map_eq_some_iff.mp h with ⟨s, hs, heq⟩
  simp only [Prod.mk.injEq, decide_eq_true_eq] at heq
  rcases heq with ⟨hcode, hstate, hno⟩
  exact ⟨_, (steps_run hs).trans (schedule_alone hno hcode), goto_code _, hstate⟩

/-- `jne reschedule`. -/
theorem reschedule_step (hcode : s.code s.tr = .sysTest :: rest)
    (hstate : s.state s.current ≠ .running) :
    s.step .go = some (s.goto (.sched (.find 0) :: .sysRet :: rest)) := by
  simp only [Cpu.step, hcode, Cpu.exec]
  exact if_pos (Or.inl hstate)

/-- Task 0 pauses with no other task there: `schedule()` returns at once, the `reschedule` of
`system_call` calls it in vain, and the task is about to go back to user mode asleep. -/
theorem pause_returns_asleep : ∃ s, ReflTransGen (CpuStep fun _ _ => True) Cpu.start s ∧
    s.code s.tr = [.sysRet, .user] ∧ s.state s.current = .interruptible := by
  have h : (Cpu.start.steps (fun _ _ => True) [.call .pause, .go, .go]).map
      (fun s => (s.code s.tr, s.state s.current, decide (∀ k, ¬ s.Runnable s.current k))) =
      some ([.sched (.find 0), .pauseRet, .sysTest, .user], .interruptible, true) := by
    decide +kernel
  rcases Option.map_eq_some_iff.mp h with ⟨s, hs, heq⟩
  simp only [Prod.mk.injEq, decide_eq_true_eq] at heq
  rcases heq with ⟨hcode, hstate, hno⟩
  have hback := (steps_run hs).trans (schedule_alone hno hcode)
  -- the return, and the test of `system_call`
  have hret : (s.goto [.pauseRet, .sysTest, .user]).step .go = some (s.goto [.sysTest, .user]) := by
    simp only [Cpu.step, goto_code, Cpu.exec, goto_goto]
  have htest : (s.goto [.sysTest, .user]).step .go =
      some (s.goto [.sched (.find 0), .sysRet, .user]) := by
    have hcalls := reschedule_step (s := s.goto [.sysTest, .user]) (goto_code _)
      (by simp [Cpu.goto, hstate])
    rwa [goto_goto] at hcalls
  have hagain := schedule_alone (s := s.goto [.sched (.find 0), .sysRet, .user]) hno (goto_code _)
  rw [goto_goto] at hagain
  have hrun := ((hback.tail ⟨.go, trivial, hret⟩).tail ⟨.go, trivial, htest⟩).trans hagain
  exact ⟨_, hrun, goto_code _, hstate⟩

/-- Neither half of `Blocks` holds in every run. -/
theorem sleep_does_not_block :
    (∃ s, ReflTransGen (CpuStep fun _ _ => True) Cpu.start s ∧ ¬ s.Blocks ∧
      ∃ p tmp rest, s.code s.tr = .sleepBack p tmp :: rest ∧ s.state s.tr = .uninterruptible) ∧
    ∃ s, ReflTransGen (CpuStep fun _ _ => True) Cpu.start s ∧ ¬ s.Blocks ∧
      ∃ rest, s.code s.tr = .sysRet :: rest ∧ s.state s.current = .interruptible := by
  constructor
  · rcases sleep_on_returns_asleep with ⟨s, hrun, hcode, hstate⟩
    exact ⟨s, hrun, fun hb => hb.1 _ _ _ hcode hstate, _, _, _, hcode, hstate⟩
  · rcases pause_returns_asleep with ⟨s, hrun, hcode, hstate⟩
    exact ⟨s, hrun, fun hb => hb.2 _ hcode hstate, _, hcode, hstate⟩

end MockOs.Kernel
