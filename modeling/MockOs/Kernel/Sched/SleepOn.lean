import Mathlib.Logic.Function.Basic
import MockOs.Misc.Links

/-!
# `sleep_on` and `wake_up` (`kernel/sched.c`)

The wait queue of `__sleep_on` is a single pointer `*p`; the rest of it lies in the
local variable `tmp` of each sleeper, on that task's kernel stack. A task inside
`__sleep_on` is therefore described by the pointer it waits on and its saved `tmp`.
`__sleep_on` gives control away only inside `schedule()`, so it is modelled by the two
pieces of straight-line code before and after that call: `sleepOnWith` and `sleepResume`.
Which task runs next is left open; a sleeper may be resumed at any time.
-/

namespace MockOs.Kernel

/-- The values of `task_struct.state` (`include/linux/sched.h:47-51`). -/
inductive TaskState where
  | running
  | interruptible
  | uninterruptible
  | zombie
  | stopped
  deriving DecidableEq, Repr

/-- What the sleep functions read and write: the task states, the wait pointers (`Q`
names them: the mutexes, `buffer_wait`, the `b_wait` of each buffer) and, for each task
inside `__sleep_on`, its argument `p` and its local `tmp`. -/
structure Waits (T Q : Type) where
  state : T → TaskState
  wait : Q → Option T
  inside : T → Option (Q × Option T)

variable {T Q : Type}

namespace Waits

/-- `t` is inside `__sleep_on(q)`. -/
def Inside (s : Waits T Q) (q : Q) (t : T) : Prop := ∃ tmp, s.inside t = some (q, tmp)

/-- The pointer a sleeper keeps in its local `tmp`. -/
def saved (s : Waits T Q) (t : T) : Option T := (s.inside t).bind Prod.snd

end Waits

section Code

variable [DecidableEq T] [DecidableEq Q]

/-- `__sleep_on(p, state)` up to its first `schedule()` (`sched.c:158-167`), run by `t`.
`init` is task 0, which must not sleep. -/
def sleepOnWith (init : T) (s : Waits T Q) (t : T) (q : Q) (state : TaskState) :
    Except String (Waits T Q) :=
  if t = init then
    .error "task[0] trying to sleep"
  else
    let tmp := s.wait q
    .ok { state := Function.update s.state t state
          wait := Function.update s.wait q (some t)
          inside := Function.update s.inside t (some (q, tmp)) }

/-- `sleep_on(p)` (`sched.c:187`). -/
def sleepOn (init : T) (s : Waits T Q) (t : T) (q : Q) : Except String (Waits T Q) :=
  sleepOnWith init s t q .uninterruptible

/-- `interruptible_sleep_on(p)` (`sched.c:183-185`). -/
def interruptibleSleepOn (init : T) (s : Waits T Q) (t : T) (q : Q) :
    Except String (Waits T Q) :=
  sleepOnWith init s t q .interruptible

/-- The end of `__sleep_on` (`sched.c:178-180`): `if ((*p = tmp)) tmp->state = 0;`. -/
def sleepLeave (s : Waits T Q) (t : T) (q : Q) (tmp : Option T) : Waits T Q :=
  { state := match tmp with
      | some u => Function.update s.state u .running
      | none => s.state
    wait := Function.update s.wait q tmp
    inside := Function.update s.inside t none }

/-- `__sleep_on` from the return of `schedule()` on (`sched.c:170-181`): either the sleeper
wakes the head of the queue and goes back to `schedule()`, or it leaves. The second
component is what it prints. -/
def sleepResume (s : Waits T Q) (t : T) (q : Q) (tmp : Option T) : Waits T Q × Option String :=
  match s.wait q with
  | some h =>
    if h = t then
      (sleepLeave s t q tmp, none)
    else
      ({ s with
          state := Function.update (Function.update s.state h .running) t .uninterruptible },
        none)
  | none => (sleepLeave s t q tmp, some "Warning: *P = NULL\n\r")

/-- `wake_up(p)` (`sched.c:194-204`): the head of the queue becomes runnable. Its two
messages about stopped and zombie tasks do not change the state. -/
def wakeUp (s : Waits T Q) (q : Q) : Waits T Q :=
  match s.wait q with
  | some h => { s with state := Function.update s.state h .running }
  | none => s

end Code

/-- The queue of `q` is the stack `l`: following the saved pointers from `*q` meets the
tasks of `l` in turn, and `l` holds exactly the tasks inside `__sleep_on(q)`. -/
structure IsQueue (s : Waits T Q) (q : Q) (l : List T) : Prop where
  chain : Links.Chain s.saved (s.wait q) l
  nodup : l.Nodup
  mem : ∀ t, t ∈ l ↔ s.Inside q t

/-- Some task inside `__sleep_on(q)` is runnable. -/
def Awake (s : Waits T Q) (q : Q) : Prop := ∃ t, s.Inside q t ∧ s.state t = .running

theorem inside_unique {s : Waits T Q} {q q' : Q} {t : T} (h : s.Inside q t)
    (h' : s.Inside q' t) : q = q' := by
  obtain ⟨tmp, h⟩ := h
  obtain ⟨tmp', h'⟩ := h'
  rw [h] at h'
  simpa using congrArg (Option.map Prod.fst) h'

theorem IsQueue.head {s : Waits T Q} {q : Q} {l : List T} (h : IsQueue s q l) :
    s.wait q = l.head? :=
  h.chain.head_eq

theorem IsQueue.inside_head {s : Waits T Q} {q : Q} {l : List T} {t : T} (h : IsQueue s q l)
    (ht : s.wait q = some t) : s.Inside q t :=
  (h.mem t).mp (List.mem_of_head? (h.head.symm.trans ht))

/-- A queue with a sleeper in it has a head. -/
theorem IsQueue.exists_head {s : Waits T Q} {q : Q} {l : List T} {t : T} (h : IsQueue s q l)
    (ht : s.Inside q t) : ∃ u, s.wait q = some u := by
  have hmem := (h.mem t).mpr ht
  rw [h.head]
  cases l with
  | nil => simp at hmem
  | cons u l => exact ⟨u, rfl⟩

/-- Writing task states does not touch the queues. -/
theorem IsQueue.setState {s : Waits T Q} {q : Q} {l : List T} (h : IsQueue s q l)
    (state : T → TaskState) : IsQueue { s with state := state } q l :=
  ⟨h.chain, h.nodup, h.mem⟩

section Enter

variable [DecidableEq T] [DecidableEq Q] {init : T} {s s' : Waits T Q} {t : T} {q : Q} {st : TaskState}

theorem sleepOnWith_ok (h : sleepOnWith init s t q st = .ok s') : t ≠ init ∧
    s' = { state := Function.update s.state t st
           wait := Function.update s.wait q (some t)
           inside := Function.update s.inside t (some (q, s.wait q)) } := by
  unfold sleepOnWith at h
  split at h
  · exact absurd h (by simp)
  · rename_i hne
    exact ⟨hne, by simpa using h.symm⟩

theorem sleepOnWith_inside_other (h : sleepOnWith init s t q st = .ok s') {u : T} (hu : u ≠ t) :
    s'.inside u = s.inside u := by
  obtain ⟨-, rfl⟩ := sleepOnWith_ok h
  simp [hu]

theorem sleepOnWith_state_other (h : sleepOnWith init s t q st = .ok s') {u : T} (hu : u ≠ t) :
    s'.state u = s.state u := by
  obtain ⟨-, rfl⟩ := sleepOnWith_ok h
  simp [hu]

theorem sleepOnWith_saved_other (h : sleepOnWith init s t q st = .ok s') {u : T} (hu : u ≠ t) :
    s'.saved u = s.saved u := by
  simp only [Waits.saved, sleepOnWith_inside_other h hu]

/-- A task that goes to sleep is pushed on its queue. -/
theorem IsQueue.sleepOnWith_push {l : List T} (hq : IsQueue s q l) (hout : s.inside t = none)
    (h : sleepOnWith init s t q st = .ok s') : IsQueue s' q (t :: l) := by
  have hnew : t ∉ l := by
    intro ht
    obtain ⟨tmp, htmp⟩ := (hq.mem t).mp ht
    rw [hout] at htmp
    cases htmp
  have hother : ∀ u ∈ l, u ≠ t := fun u hu hut => hnew (hut ▸ hu)
  have hself : s'.inside t = some (q, s.wait q) := by
    obtain ⟨-, rfl⟩ := sleepOnWith_ok h
    simp
  constructor
  · refine ⟨?_, ?_⟩
    · obtain ⟨-, rfl⟩ := sleepOnWith_ok h
      simp
    · simp only [Waits.saved, hself, Option.bind_some]
      exact hq.chain.congr (fun u hu => sleepOnWith_saved_other h (hother u hu))
  · exact List.nodup_cons.mpr ⟨hnew, hq.nodup⟩
  · intro u
    by_cases hut : u = t
    · subst hut
      simp [Waits.Inside, hself]
    · simp only [List.mem_cons, hut, false_or, hq.mem u, Waits.Inside,
        sleepOnWith_inside_other h hut]

/-- The other queues do not see a task go to sleep. -/
theorem IsQueue.sleepOnWith_other {q' : Q} {l : List T} (hq : IsQueue s q' l) (hne : q' ≠ q)
    (hout : s.inside t = none) (h : sleepOnWith init s t q st = .ok s') : IsQueue s' q' l := by
  have hother : ∀ u ∈ l, u ≠ t := by
    intro u hu hut
    obtain ⟨tmp, htmp⟩ := (hq.mem u).mp hu
    rw [hut, hout] at htmp
    cases htmp
  have hwait : s'.wait q' = s.wait q' := by
    obtain ⟨-, rfl⟩ := sleepOnWith_ok h
    simp [hne]
  have hself : s'.inside t = some (q, s.wait q) := by
    obtain ⟨-, rfl⟩ := sleepOnWith_ok h
    simp
  constructor
  · rw [hwait]
    exact hq.chain.congr (fun u hu => sleepOnWith_saved_other h (hother u hu))
  · exact hq.nodup
  · intro u
    by_cases hut : u = t
    · subst hut
      have hnin : ¬ s'.Inside q' u := by
        rintro ⟨tmp, htmp⟩
        rw [hself] at htmp
        exact hne (by simpa using (congrArg (Option.map Prod.fst) htmp).symm)
      simp only [hnin, iff_false]
      exact fun hu => hother u hu rfl
    · rw [hq.mem u]
      simp only [Waits.Inside, sleepOnWith_inside_other h hut]

/-- A task that goes to sleep does not put a sleeper back to sleep. -/
theorem Awake.sleepOnWith {q' : Q} (ha : Awake s q') (hout : s.inside t = none)
    (h : sleepOnWith init s t q st = .ok s') : Awake s' q' := by
  obtain ⟨u, ⟨tmp, hu⟩, hrun⟩ := ha
  have hut : u ≠ t := by
    rintro rfl
    rw [hout] at hu
    cases hu
  refine ⟨u, ⟨tmp, ?_⟩, ?_⟩
  · rw [sleepOnWith_inside_other h hut, hu]
  · rw [sleepOnWith_state_other h hut, hrun]

end Enter

section Resume

variable [DecidableEq T] [DecidableEq Q] {s : Waits T Q} {t : T} {q : Q} {tmp : Option T}

/-- The three outcomes of resuming a sleeper, with what each of them requires. -/
theorem sleepResume_cases (s : Waits T Q) (t : T) (q : Q) (tmp : Option T) :
    (s.wait q = some t ∧ sleepResume s t q tmp = (sleepLeave s t q tmp, none)) ∨
    (∃ h, s.wait q = some h ∧ h ≠ t ∧ sleepResume s t q tmp =
      ({ s with
          state := Function.update (Function.update s.state h .running) t .uninterruptible },
        none)) ∨
    (s.wait q = none ∧
      sleepResume s t q tmp = (sleepLeave s t q tmp, some "Warning: *P = NULL\n\r")) := by
  unfold sleepResume
  cases hw : s.wait q with
  | none => simp
  | some h =>
    by_cases ht : h = t
    · simp [ht]
    · simp [ht]

/-- A resumed sleeper finds its queue non-empty: it is in it. -/
theorem IsQueue.sleepResume_cases {l : List T} (hq : IsQueue s q l)
    (hin : s.inside t = some (q, tmp)) :
    (s.wait q = some t ∧ sleepResume s t q tmp = (sleepLeave s t q tmp, none)) ∨
    (∃ h, s.wait q = some h ∧ h ≠ t ∧ sleepResume s t q tmp =
      ({ s with
          state := Function.update (Function.update s.state h .running) t .uninterruptible },
        none)) := by
  obtain ⟨u, hu⟩ := hq.exists_head ⟨tmp, hin⟩
  rcases Kernel.sleepResume_cases s t q tmp with h | h | h
  · exact Or.inl h
  · exact Or.inr h
  · exact absurd (hu.symm.trans h.1) (by simp)

/-- The head of the queue is popped when it leaves. -/
theorem IsQueue.sleepLeave_pop {l : List T} (hq : IsQueue s q l)
    (hin : s.inside t = some (q, tmp)) (hhead : s.wait q = some t) :
    ∃ m, l = t :: m ∧ tmp = m.head? ∧ IsQueue (sleepLeave s t q tmp) q m := by
  cases l with
  | nil => exact absurd (hhead.symm.trans hq.head) (by simp)
  | cons a m =>
    obtain rfl : t = a := Option.some.inj (hhead.symm.trans hq.head)
    have hsaved : s.saved t = tmp := by simp [Waits.saved, hin]
    have hm : Links.Chain s.saved tmp m := hsaved ▸ hq.chain.2
    have hnd := List.nodup_cons.mp hq.nodup
    have hother : ∀ u ∈ m, u ≠ t := fun u hu hut => hnd.1 (hut ▸ hu)
    refine ⟨m, rfl, hm.head_eq, ?_, hnd.2, ?_⟩
    · simp only [sleepLeave, Function.update_self]
      apply hm.congr
      intro u hu
      simp [Waits.saved, hother u hu]
    · intro u
      by_cases hut : u = t
      · subst hut
        simp [Waits.Inside, sleepLeave, hnd.1]
      · have hmem := hq.mem u
        simp only [List.mem_cons, hut, false_or] at hmem
        rw [hmem]
        simp [Waits.Inside, sleepLeave, hut]

/-- The other queues do not see a sleeper leave. -/
theorem IsQueue.sleepLeave_other {q' : Q} {l : List T} (hq : IsQueue s q' l) (hne : q' ≠ q)
    (hin : s.inside t = some (q, tmp)) : IsQueue (sleepLeave s t q tmp) q' l := by
  have hother : ∀ u ∈ l, u ≠ t := fun u hu hut =>
    hne (inside_unique ((hq.mem u).mp hu) (hut ▸ ⟨tmp, hin⟩))
  constructor
  · simp only [sleepLeave, Function.update_of_ne hne]
    apply hq.chain.congr
    intro u hu
    simp [Waits.saved, hother u hu]
  · exact hq.nodup
  · intro u
    by_cases hut : u = t
    · subst hut
      simp only [Waits.Inside, sleepLeave, Function.update_self, reduceCtorEq, exists_false,
        iff_false]
      exact fun hu => hother u hu rfl
    · rw [hq.mem u]
      simp [Waits.Inside, sleepLeave, hut]

/-- A resumed sleeper leaves its own queue awake or empty: a leaving head wakes the next
sleeper, and a sleeper behind the head passes its wake-up on to the head. -/
theorem IsQueue.awake_sleepResume {l : List T} (hq : IsQueue s q l)
    (hin : s.inside t = some (q, tmp)) (hne : (sleepResume s t q tmp).1.wait q ≠ none) :
    Awake (sleepResume s t q tmp).1 q := by
  rcases hq.sleepResume_cases hin with ⟨hhead, heq⟩ | ⟨h, hh, hht, heq⟩
  · rw [heq] at hne ⊢
    obtain ⟨m, -, -, hm⟩ := hq.sleepLeave_pop hin hhead
    obtain ⟨u, hu⟩ := Option.ne_none_iff_exists'.mp hne
    have htmp : tmp = some u := by simpa [sleepLeave] using hu
    exact ⟨u, hm.inside_head hu, by simp [sleepLeave, htmp]⟩
  · rw [heq]
    exact ⟨h, hq.inside_head hh, by simp [hht]⟩

/-- The sleepers of another queue stay runnable. -/
theorem IsQueue.awake_sleepResume_other {l : List T} {q' : Q} (hq : IsQueue s q l)
    (ha : Awake s q') (hne : q' ≠ q) (hin : s.inside t = some (q, tmp)) :
    Awake (sleepResume s t q tmp).1 q' := by
  obtain ⟨u, hu, hrun⟩ := ha
  have hut : u ≠ t := fun hut => hne (inside_unique hu (hut ▸ ⟨tmp, hin⟩))
  rcases hq.sleepResume_cases hin with ⟨-, heq⟩ | ⟨h, -, -, heq⟩
  · rw [heq]
    refine ⟨u, by simpa [Waits.Inside, sleepLeave, hut] using hu, ?_⟩
    simp only [sleepLeave]
    split
    · simp only [Function.update_apply]
      split <;> simp [hrun]
    · exact hrun
  · rw [heq]
    refine ⟨u, hu, ?_⟩
    simp only [Function.update_of_ne hut, Function.update_apply]
    split <;> simp [hrun]

end Resume

section Wake

variable [DecidableEq T] {s : Waits T Q} {q : Q}

/-- `wake_up` on a non-empty queue makes its head runnable. -/
theorem IsQueue.awake_wakeUp {l : List T} (hq : IsQueue s q l) (hne : s.wait q ≠ none) :
    Awake (wakeUp s q) q := by
  obtain ⟨u, hu⟩ := Option.ne_none_iff_exists'.mp hne
  refine ⟨u, ?_, ?_⟩
  · simpa [wakeUp, hu, Waits.Inside] using hq.inside_head hu
  · simp [wakeUp, hu]

theorem Awake.wakeUp (ha : Awake s q) (q' : Q) : Awake (wakeUp s q') q := by
  obtain ⟨t, hin, hrun⟩ := ha
  unfold Kernel.wakeUp
  split
  · refine ⟨t, hin, ?_⟩
    simp only [Function.update_apply]
    split <;> simp [hrun]
  · exact ⟨t, hin, hrun⟩

@[simp] theorem wakeUp_wait (s : Waits T Q) (q : Q) : (wakeUp s q).wait = s.wait := by
  unfold wakeUp
  split <;> rfl

@[simp] theorem wakeUp_inside (s : Waits T Q) (q : Q) : (wakeUp s q).inside = s.inside := by
  unfold wakeUp
  split <;> rfl

theorem IsQueue.wakeUp {l : List T} (hq : IsQueue s q l) (q' : Q) :
    IsQueue (wakeUp s q') q l := by
  unfold Kernel.wakeUp
  split
  · exact hq.setState _
  · exact hq

end Wake

end MockOs.Kernel
