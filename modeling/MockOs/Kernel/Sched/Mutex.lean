import Mathlib.Data.Fintype.Basic
import MockOs.Kernel.Sched.SleepOn
import MockOs.Misc.Run
import MockOs.Misc.Bits

/-!
# Kernel mutexes (`sys_klock`, `sys_kunlock`)

The 64 mutexes of `kernel_mutxt_a`, used by any number of tasks at once. `sys_klock` runs
with interrupts off and gives control away only in the `schedule()` of `sleep_on`;
`sys_kunlock` runs with interrupts on and can be interrupted between its two statements.
-/

namespace MockOs.Kernel

open Relation Run

variable {T : Type}

/-- `kernel_mutxt_a` with the tasks that use it. `unlocking t` is the mutex whose
`sys_kunlock` task `t` has begun and not finished; `holds` records who is between the
return of `sys_klock` and the next `sys_kunlock`. -/
structure MutexSys (T : Type) where
  waits : Waits T (Fin 64)
  lock : Fin 64 → Int
  unlocking : T → Option (Fin 64)
  holds : T → Fin 64 → Bool

/-- No mutex is taken and nobody waits (`kernel_mutxt_a` is zeroed). -/
def MutexSys.Initial (s : MutexSys T) : Prop :=
  (∀ n, s.waits.wait n = none ∧ s.lock n = 0) ∧
    ∀ t, s.waits.inside t = none ∧ s.unlocking t = none ∧ ∀ n, s.holds t n = false

section Code

variable [DecidableEq T]

/-- `sys_klock(n)` from its `while` test on (`sched.c:16-20`): sleep while the mutex is
taken, else take it and return. -/
def sysKlock (init : T) (s : MutexSys T) (t : T) (n : Fin 64) : Except String (MutexSys T) :=
  if s.lock n ≠ 0 then
    match sleepOn init s.waits t n with
    | .ok w => .ok { s with waits := w }
    | .error e => .error e
  else
    .ok { s with
      lock := Function.update s.lock n 1
      holds := Function.update s.holds t (Function.update (s.holds t) n true) }

/-- A task asleep in `sys_klock(n)` returns from `schedule()`; once out of `sleep_on` it
goes back to the `while` test, still with interrupts off. -/
def sysKlockResume (init : T) (s : MutexSys T) (t : T) (n : Fin 64) (tmp : Option T) :
    Except String (MutexSys T) :=
  let s' := { s with waits := (sleepResume s.waits t n tmp).1 }
  if s'.waits.inside t = none then sysKlock init s' t n else .ok s'

/-- First statement of `sys_kunlock(n)` (`sched.c:24`). -/
def sysKunlockClear (s : MutexSys T) (t : T) (n : Fin 64) : MutexSys T :=
  { s with
    lock := Function.update s.lock n 0
    unlocking := Function.update s.unlocking t (some n)
    holds := Function.update s.holds t (Function.update (s.holds t) n false) }

/-- Second statement of `sys_kunlock(n)` (`sched.c:25`). -/
def sysKunlockWake (s : MutexSys T) (t : T) (n : Fin 64) : MutexSys T :=
  { s with
    waits := wakeUp s.waits n
    unlocking := Function.update s.unlocking t none }

end Code

/-- One step of some task other than task 0. A sleeper may be resumed at any time. -/
inductive MutexStep [DecidableEq T] (init : T) : MutexSys T → MutexSys T → Prop
  | klock {s s' : MutexSys T} (t : T) (n : Fin 64) (hinit : t ≠ init)
      (hout : s.waits.inside t = none) (hun : s.unlocking t = none)
      (h : sysKlock init s t n = .ok s') : MutexStep init s s'
  | resume {s s' : MutexSys T} (t : T) (n : Fin 64) (tmp : Option T)
      (hin : s.waits.inside t = some (n, tmp))
      (h : sysKlockResume init s t n tmp = .ok s') : MutexStep init s s'
  | clear {s : MutexSys T} (t : T) (n : Fin 64) (hinit : t ≠ init)
      (hout : s.waits.inside t = none) (hun : s.unlocking t = none)
      (hheld : s.holds t n = true) : MutexStep init s (sysKunlockClear s t n)
  | wake {s : MutexSys T} (t : T) (n : Fin 64) (hun : s.unlocking t = some n) :
      MutexStep init s (sysKunlockWake s t n)

/-- The invariant of the mutexes. `alert` is what carries the wake-ups: an open mutex that
nobody is about to wake has a runnable sleeper, unless it has none at all. -/
structure MutexInv (s : MutexSys T) : Prop where
  queue : ∀ n, ∃ l, IsQueue s.waits n l
  excl : ∀ n t u, s.holds t n = true → s.holds u n = true → t = u
  locked : ∀ n, s.lock n = 0 → ∀ t, s.holds t n = false
  alert : ∀ n, s.lock n = 0 → (∀ t, s.unlocking t ≠ some n) → s.waits.wait n ≠ none →
    Awake s.waits n

theorem MutexSys.Initial.inv {s : MutexSys T} (h : s.Initial) : MutexInv s := by
  constructor
  · intro n
    refine ⟨[], (h.1 n).1, List.nodup_nil, fun t => ?_⟩
    simp [Waits.Inside, (h.2 t).1]
  · intro n t u ht
    simp [(h.2 t).2.2 n] at ht
  · exact fun n _ t => (h.2 t).2.2 n
  · exact fun n _ _ hne => absurd (h.1 n).1 hne

section Steps

variable [DecidableEq T] {init : T} {s s' : MutexSys T} {t : T} {n : Fin 64}

/-- What one pass of the `while` test of `sys_klock` can do. -/
theorem sysKlock_cases (h : sysKlock init s t n = .ok s') :
    (s.lock n ≠ 0 ∧ ∃ w, sleepOnWith init s.waits t n .uninterruptible = .ok w ∧
      s' = { s with waits := w }) ∨
    (s.lock n = 0 ∧ s' = { s with
      lock := Function.update s.lock n 1
      holds := Function.update s.holds t (Function.update (s.holds t) n true) }) := by
  unfold sysKlock at h
  split at h
  · rename_i hlock
    cases hw : sleepOn init s.waits t n with
    | error e => simp [hw] at h
    | ok w =>
      simp only [hw, Except.ok.injEq] at h
      exact Or.inl ⟨hlock, w, hw, h.symm⟩
  · rename_i hlock
    refine Or.inr ⟨by simpa using hlock, ?_⟩
    simpa using h.symm

/-- The `while` test keeps the invariant, whether the task comes from user mode or has just
left `sleep_on`; `alert` need not hold for the mutex itself, which ends up taken. -/
theorem MutexInv.sysKlock (hq : ∀ m, ∃ l, IsQueue s.waits m l)
    (hexcl : ∀ m t u, s.holds t m = true → s.holds u m = true → t = u)
    (hlocked : ∀ m, s.lock m = 0 → ∀ t, s.holds t m = false)
    (halert : ∀ m, m ≠ n → s.lock m = 0 → (∀ t, s.unlocking t ≠ some m) →
      s.waits.wait m ≠ none → Awake s.waits m)
    (hout : s.waits.inside t = none) (h : Kernel.sysKlock init s t n = .ok s') :
    MutexInv s' := by
  rcases sysKlock_cases h with ⟨hlock, w, hw, rfl⟩ | ⟨hlock, rfl⟩
  · refine ⟨fun m => ?_, hexcl, hlocked, fun m hm hun hne => ?_⟩
    · obtain ⟨l, hl⟩ := hq m
      by_cases hmn : m = n
      · subst hmn
        exact ⟨t :: l, hl.sleepOnWith_push hout hw⟩
      · exact ⟨l, hl.sleepOnWith_other hmn hout hw⟩
    · have hmn : m ≠ n := fun hmn => hlock (hmn ▸ hm)
      have hwait : w.wait m = s.waits.wait m := by
        rw [(sleepOnWith_ok hw).2]
        simp [hmn]
      exact (halert m hmn hm hun (by rwa [hwait] at hne)).sleepOnWith hout hw
  · -- the mutex was open, so nobody held it before `t`
    have hold : ∀ u m, Function.update s.holds t (Function.update (s.holds t) n true) u m = true →
        (m = n ∧ u = t) ∨ (m ≠ n ∧ s.holds u m = true) := by
      intro u m hu
      by_cases hmn : m = n
      · subst hmn
        by_cases hut : u = t
        · exact Or.inl ⟨rfl, hut⟩
        · simp [hut, hlocked m hlock u] at hu
      · refine Or.inr ⟨hmn, ?_⟩
        by_cases hut : u = t
        · subst hut; simpa [hmn] using hu
        · simpa [hut] using hu
    refine ⟨hq, fun m u v hu hv => ?_, fun m hm u => ?_, fun m hm hun hne => ?_⟩
    · rcases hold u m hu with ⟨hm, rfl⟩ | ⟨hm, hu'⟩
      · rcases hold v m hv with ⟨-, rfl⟩ | ⟨hm', -⟩
        · rfl
        · exact absurd hm hm'
      · rcases hold v m hv with ⟨hm', -⟩ | ⟨-, hv'⟩
        · exact absurd hm' hm
        · exact hexcl m u v hu' hv'
    · have hmn : m ≠ n := by
        rintro rfl
        simp at hm
      have hm' : s.lock m = 0 := by simpa [hmn] using hm
      by_cases hut : u = t
      · subst hut; simpa [hmn] using hlocked m hm' u
      · simpa [hut] using hlocked m hm' u
    · have hmn : m ≠ n := by
        rintro rfl
        simp at hm
      exact halert m hmn (by simpa [hmn] using hm) hun hne

theorem MutexInv.resume {tmp : Option T} (hinv : MutexInv s)
    (hin : s.waits.inside t = some (n, tmp))
    (h : sysKlockResume init s t n tmp = .ok s') : MutexInv s' := by
  obtain ⟨l, hl⟩ := hinv.queue n
  have hother : ∀ m, m ≠ n → s.waits.wait m ≠ none → Awake s.waits m →
      Awake (sleepResume s.waits t n tmp).1 m := fun m hm _ ha =>
    hl.awake_sleepResume_other ha hm hin
  rcases hl.sleepResume_cases hin with ⟨hhead, heq⟩ | ⟨u, hu, hut, heq⟩
  · have hleft : (sleepResume s.waits t n tmp).1.inside t = none := by simp [heq, sleepLeave]
    simp only [sysKlockResume, hleft, if_true] at h
    refine MutexInv.sysKlock (s := { s with waits := (sleepResume s.waits t n tmp).1 })
      ?_ hinv.excl hinv.locked ?_ hleft h
    · intro m
      simp only [heq]
      by_cases hmn : m = n
      · subst hmn
        obtain ⟨l', -, -, hl'⟩ := hl.sleepLeave_pop hin hhead
        exact ⟨l', hl'⟩
      · obtain ⟨l', hl'⟩ := hinv.queue m
        exact ⟨l', hl'.sleepLeave_other hmn hin⟩
    · intro m hmn hm hun hne
      have hwait : s.waits.wait m ≠ none := by simpa [heq, sleepLeave, hmn] using hne
      exact hother m hmn hwait (hinv.alert m hm hun hwait)
  · have hstay : (sleepResume s.waits t n tmp).1.inside t = some (n, tmp) := by simp [heq, hin]
    simp only [sysKlockResume, hstay, reduceCtorEq, if_false, Except.ok.injEq] at h
    subst h
    refine ⟨fun m => ?_, hinv.excl, hinv.locked, fun m hm hun hne => ?_⟩
    · obtain ⟨l', hl'⟩ := hinv.queue m
      simp only [heq]
      exact ⟨l', hl'.setState _⟩
    · by_cases hmn : m = n
      · subst hmn
        exact hl.awake_sleepResume hin hne
      · have hwait : s.waits.wait m ≠ none := by simpa [heq] using hne
        exact hother m hmn hwait (hinv.alert m hm hun hwait)

theorem MutexInv.clear (hinv : MutexInv s) (hun₀ : s.unlocking t = none) (hheld : s.holds t n = true) :
    MutexInv (sysKunlockClear s t n) := by
  have hsub : ∀ u m, (sysKunlockClear s t n).holds u m = true → s.holds u m = true := by
    intro u m hu
    by_cases hut : u = t
    · subst hut
      by_cases hmn : m = n
      · subst hmn; simp [sysKunlockClear] at hu
      · simpa [sysKunlockClear, hmn] using hu
    · simpa [sysKunlockClear, hut] using hu
  refine ⟨hinv.queue, fun m u v hu hv => hinv.excl m u v (hsub u m hu) (hsub v m hv),
    fun m hm u => ?_, fun m hm hun hne => ?_⟩
  · by_contra hu
    have hu' : (sysKunlockClear s t n).holds u m = true := by simpa using hu
    by_cases hmn : m = n
    · subst hmn
      obtain rfl := hinv.excl m u t (hsub u m hu') hheld
      simp [sysKunlockClear] at hu'
    · have hm' : s.lock m = 0 := by simpa [sysKunlockClear, hmn] using hm
      exact absurd (hsub u m hu') (by simp [hinv.locked m hm' u])
  · have hmn : m ≠ n := by
      rintro rfl
      exact hun t (by simp [sysKunlockClear])
    refine hinv.alert m (by simpa [sysKunlockClear, hmn] using hm) (fun u hu => ?_) hne
    by_cases hut : u = t
    · subst hut
      exact absurd (hun₀.symm.trans hu) (by simp)
    · exact hun u (by simpa [sysKunlockClear, hut] using hu)

theorem MutexInv.wake (hinv : MutexInv s) (hun₀ : s.unlocking t = some n) :
    MutexInv (sysKunlockWake s t n) := by
  refine ⟨fun m => ?_, hinv.excl, hinv.locked, fun m hm hun hne => ?_⟩
  · obtain ⟨l, hl⟩ := hinv.queue m
    exact ⟨l, hl.wakeUp n⟩
  · have hwait : s.waits.wait m ≠ none := by simpa [sysKunlockWake] using hne
    by_cases hmn : m = n
    · subst hmn
      obtain ⟨l, hl⟩ := hinv.queue m
      exact hl.awake_wakeUp hwait
    · refine (hinv.alert m hm (fun u hu => ?_) hwait).wakeUp n
      by_cases hut : u = t
      · subst hut
        exact hmn (Option.some.inj (hu.symm.trans hun₀))
      · exact hun u (by simpa [sysKunlockWake, hut] using hu)

theorem MutexInv.step (hinv : MutexInv s) (hstep : MutexStep init s s') : MutexInv s' := by
  cases hstep with
  | klock t n _ hout _ h =>
    exact MutexInv.sysKlock hinv.queue hinv.excl hinv.locked (fun m _ => hinv.alert m) hout h
  | resume t n tmp hin h => exact hinv.resume hin h
  | clear t n _ _ hun hheld => exact hinv.clear hun hheld
  | wake t n hun => exact hinv.wake hun

end Steps

/-- Safety of the kernel mutexes, in every state of every run: at most one task is between
the return of `sys_klock(n)` and its `sys_kunlock(n)`, and no wake-up is lost: while the
mutex is open and nobody is between the two statements of `sys_kunlock(n)`, some task
asleep on it is runnable, if there is any. -/
theorem kernel_mutex_safe [DecidableEq T] (init : T) (s₀ s : MutexSys T) (h₀ : s₀.Initial)
    (hrun : ReflTransGen (MutexStep init) s₀ s) (n : Fin 64) :
    (∀ t u, s.holds t n = true → s.holds u n = true → t = u) ∧
    (s.lock n = 0 → (∀ t, s.unlocking t ≠ some n) →
      (∀ t, ¬ s.waits.Inside n t) ∨ ∃ t, s.waits.Inside n t ∧ s.waits.state t = .running) := by
  have hinv : MutexInv s := Run.invariant (fun _ _ h hstep => h.step hstep) hrun h₀.inv
  refine ⟨hinv.excl n, fun hlock hun => ?_⟩
  by_cases hin : ∃ t, s.waits.Inside n t
  · rcases hin with ⟨t, ht⟩
    obtain ⟨l, hl⟩ := hinv.queue n
    obtain ⟨u, hu⟩ := hl.exists_head ht
    exact Or.inr (hinv.alert n hlock hun (by simp [hu]))
  · exact Or.inl fun t ht => hin ⟨t, ht⟩

/-- Task 1 takes a mutex, task 2 falls asleep on it, task 1 releases it. -/
theorem kernel_mutex_safe_handover : ∃ s₀ s : MutexSys (Fin 3), s₀.Initial ∧
    ReflTransGen (MutexStep 0) s₀ s ∧ s.lock 5 = 0 ∧ s.waits.Inside 5 2 ∧
    ∃ t, s.waits.Inside 5 t ∧ s.waits.state t = .running := by
  let s₀ : MutexSys (Fin 3) :=
    ⟨⟨fun _ => .running, fun _ => none, fun _ => none⟩, fun _ => 0, fun _ => none,
      fun _ _ => false⟩
  have h₀ : s₀.Initial := ⟨fun _ => ⟨rfl, rfl⟩, fun _ => ⟨rfl, rfl, fun _ => rfl⟩⟩
  have hrun := (((ReflTransGen.refl (r := MutexStep (0 : Fin 3)) (a := s₀)).tail
    (MutexStep.klock 1 5 (by decide) rfl rfl rfl)).tail
    (MutexStep.klock 2 5 (by decide) rfl rfl rfl)).tail
    (MutexStep.clear 1 5 (by decide) rfl rfl rfl) |>.tail (MutexStep.wake 1 5 rfl)
  refine ⟨s₀, _, h₀, hrun, rfl, ⟨none, rfl⟩, ?_⟩
  rcases (kernel_mutex_safe 0 s₀ _ h₀ hrun 5).2 rfl (by decide) with h | h
  · exact absurd ⟨none, rfl⟩ (h 2)
  · exact h

end MockOs.Kernel
