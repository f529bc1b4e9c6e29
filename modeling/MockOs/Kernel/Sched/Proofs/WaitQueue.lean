import Mathlib.Data.Nat.Basic
import MockOs.Kernel.Sched.SleepOn
import MockOs.Misc.Run

/-!
# The implicit wait queue is a stack

Any number of tasks enter `sleep_on`/`interruptible_sleep_on`, any of the wait pointers
is woken, and the sleepers are resumed in any order, also without having been woken. The
chain of saved pointers is then always the stack of the sleepers, latest entry first,
and a wake-up is never lost between them.
-/

namespace MockOs.Kernel

open Relation Run

variable {T Q : Type}

/-- The sleep functions with a ghost clock: `entered t` numbers the latest entry of `t` to
`__sleep_on` among all entries. -/
structure WaitSys (T Q : Type) where
  waits : Waits T Q
  clock : Nat
  entered : T → Nat

/-- Nobody waits. The task states are arbitrary. -/
def WaitSys.Initial (s : WaitSys T Q) : Prop :=
  (∀ q, s.waits.wait q = none) ∧ ∀ t, s.waits.inside t = none

/-- One step: a task outside `__sleep_on` enters it, a wait pointer is woken, or a sleeper
returns from `schedule()`, runnable or not. -/
inductive WaitStep [DecidableEq T] [DecidableEq Q] (init : T) : WaitSys T Q → WaitSys T Q → Prop
  | sleep {s : WaitSys T Q} {w : Waits T Q} (t : T) (q : Q) (hout : s.waits.inside t = none)
      (hok : sleepOn init s.waits t q = .ok w ∨ interruptibleSleepOn init s.waits t q = .ok w) :
      WaitStep init s ⟨w, s.clock + 1, Function.update s.entered t s.clock⟩
  | wake (s : WaitSys T Q) (q : Q) : WaitStep init s { s with waits := wakeUp s.waits q }
  | resume {s : WaitSys T Q} (t : T) (q : Q) (tmp : Option T)
      (hin : s.waits.inside t = some (q, tmp)) :
      WaitStep init s { s with waits := (sleepResume s.waits t q tmp).1 }

/-- A runnable sleeper of `q` returns from `schedule()`. -/
inductive ReleaseStep [DecidableEq T] [DecidableEq Q] (q : Q) : WaitSys T Q → WaitSys T Q → Prop
  | resume {s : WaitSys T Q} (t : T) (tmp : Option T)
      (hin : s.waits.inside t = some (q, tmp)) (hrun : s.waits.state t = .running) :
      ReleaseStep q s { s with waits := (sleepResume s.waits t q tmp).1 }

/-- Each queue is a stack ordered by entry, and all entries are in the past. -/
structure WaitInv (s : WaitSys T Q) : Prop where
  queue : ∀ q, ∃ l, IsQueue s.waits q l ∧ l.Pairwise fun a b => s.entered b < s.entered a
  past : ∀ q t, s.waits.Inside q t → s.entered t < s.clock

theorem WaitSys.Initial.inv {s : WaitSys T Q} (h : s.Initial) : WaitInv s := by
  have hout : ∀ q t, ¬ s.waits.Inside q t := by
    rintro q t ⟨tmp, htmp⟩
    rw [h.2 t] at htmp
    cases htmp
  constructor
  · intro q
    refine ⟨[], ⟨h.1 q, List.nodup_nil, ?_⟩, List.Pairwise.nil⟩
    intro t
    simp [hout q t]
  · exact fun q t ht => absurd ht (hout q t)

theorem WaitInv.setState {s : WaitSys T Q} (h : WaitInv s) (state : T → TaskState) :
    WaitInv { s with waits := { s.waits with state := state } } := by
  constructor
  · intro q
    obtain ⟨l, hl, hsorted⟩ := h.queue q
    exact ⟨l, hl.setState state, hsorted⟩
  · exact h.past

theorem WaitInv.wake [DecidableEq T] {s : WaitSys T Q} (h : WaitInv s) (q : Q) :
    WaitInv { s with waits := wakeUp s.waits q } := by
  constructor
  · intro q'
    obtain ⟨l, hl, hsorted⟩ := h.queue q'
    exact ⟨l, hl.wakeUp q, hsorted⟩
  · simpa [Waits.Inside] using h.past

section Steps

variable [DecidableEq T] [DecidableEq Q] {init : T} {s : WaitSys T Q}

theorem WaitInv.sleep {w : Waits T Q} {t : T} {q : Q} {st : TaskState} (h : WaitInv s)
    (hout : s.waits.inside t = none) (hok : sleepOnWith init s.waits t q st = .ok w) :
    WaitInv ⟨w, s.clock + 1, Function.update s.entered t s.clock⟩ := by
  have hnot : ∀ q' u, s.waits.Inside q' u → u ≠ t := by
    rintro q' u ⟨tmp, htmp⟩ rfl
    rw [hout] at htmp
    cases htmp
  -- entry numbers of the tasks already asleep do not change
  have hold : ∀ q' l, IsQueue s.waits q' l →
      l.Pairwise (fun a b => s.entered b < s.entered a) → l.Pairwise fun a b =>
        Function.update s.entered t s.clock b < Function.update s.entered t s.clock a := by
    intro q' l hl hsorted
    refine List.Pairwise.imp_of_mem ?_ hsorted
    intro a b ha hb hab
    simpa [hnot q' a ((hl.mem a).mp ha), hnot q' b ((hl.mem b).mp hb)] using hab
  constructor
  · intro q'
    obtain ⟨l, hl, hsorted⟩ := h.queue q'
    by_cases hq : q' = q
    · subst hq
      refine ⟨t :: l, hl.sleepOnWith_push hout hok, ?_⟩
      refine List.pairwise_cons.mpr ⟨?_, hold q' l hl hsorted⟩
      intro b hb
      have hin := (hl.mem b).mp hb
      simpa [hnot q' b hin] using h.past q' b hin
    · exact ⟨l, hl.sleepOnWith_other hq hout hok, hold q' l hl hsorted⟩
  · rintro q' u ⟨tmp, htmp⟩
    by_cases hu : u = t
    · simp [hu]
    · have hpast := h.past q' u ⟨tmp, by rwa [← sleepOnWith_inside_other hok hu]⟩
      simp only [Function.update_of_ne hu]
      omega

theorem WaitInv.resume {t : T} {q : Q} {tmp : Option T} (h : WaitInv s)
    (hin : s.waits.inside t = some (q, tmp)) :
    WaitInv { s with waits := (sleepResume s.waits t q tmp).1 } := by
  obtain ⟨l, hl, hsorted⟩ := h.queue q
  rcases hl.sleepResume_cases hin with ⟨hhead, heq⟩ | ⟨u, -, -, heq⟩
  · rw [heq]
    obtain ⟨m, rfl, -, hm⟩ := hl.sleepLeave_pop hin hhead
    constructor
    · intro q'
      by_cases hq : q' = q
      · subst hq
        exact ⟨m, hm, (List.pairwise_cons.mp hsorted).2⟩
      · obtain ⟨l', hl', hsorted'⟩ := h.queue q'
        exact ⟨l', hl'.sleepLeave_other hq hin, hsorted'⟩
    · rintro q' u ⟨tmp', htmp'⟩
      have hu : u ≠ t := by
        rintro rfl
        simp [sleepLeave] at htmp'
      exact h.past q' u ⟨tmp', by simpa [sleepLeave, hu] using htmp'⟩
  · rw [heq]
    exact h.setState _

theorem WaitInv.step {s' : WaitSys T Q} (h : WaitInv s) (hstep : WaitStep init s s') :
    WaitInv s' := by
  cases hstep with
  | sleep t q hout hok =>
    rcases hok with hok | hok
    · exact h.sleep hout hok
    · exact h.sleep hout hok
  | wake q => exact h.wake q
  | resume t q tmp hin => exact h.resume hin

theorem WaitInv.run {s₀ : WaitSys T Q} (h₀ : s₀.Initial)
    (hrun : ReflTransGen (WaitStep init) s₀ s) : WaitInv s :=
  Run.invariant (fun _ _ h hstep => h.step hstep) hrun h₀.inv

/-- Once a queue is awake it stays so until it is empty, whatever tasks arrive. -/
theorem WaitInv.awake_step {s' : WaitSys T Q} {q : Q} (h : WaitInv s) (ha : Awake s.waits q)
    (hstep : WaitStep init s s') (hne : s'.waits.wait q ≠ none) : Awake s'.waits q := by
  cases hstep with
  | sleep t q' hout hok =>
    rcases hok with hok | hok
    · exact ha.sleepOnWith hout hok
    · exact ha.sleepOnWith hout hok
  | wake q' => exact ha.wakeUp q'
  | resume t q' tmp hin =>
    obtain ⟨l, hl, -⟩ := h.queue q'
    by_cases hq : q = q'
    · subst hq
      exact hl.awake_sleepResume hin hne
    · exact hl.awake_sleepResume_other ha hq hin

end Steps

section Release

variable [DecidableEq T] [DecidableEq Q] {s : WaitSys T Q} {q : Q}

/-- With a runnable head the whole queue is released: each sleeper wakes the next. -/
theorem release_of_head {a : T} {l : List T} (hl : IsQueue s.waits q (a :: l))
    (hrun : s.waits.state a = .running) :
    ∃ s', ReflTransGen (ReleaseStep q) s s' ∧ IsQueue s'.waits q [] := by
  induction l generalizing s a with
  | nil =>
    obtain ⟨tmp, hin⟩ := (hl.mem a).mp (by simp)
    have hhead : s.waits.wait q = some a := hl.head
    obtain ⟨m, hm, -, hq⟩ := hl.sleepLeave_pop hin hhead
    obtain rfl : m = [] := by simpa using hm
    refine ⟨_, ReflTransGen.single (ReleaseStep.resume a tmp hin hrun), ?_⟩
    simpa [sleepResume, hhead] using hq
  | cons b l ih =>
    obtain ⟨tmp, hin⟩ := (hl.mem a).mp (by simp)
    have hhead : s.waits.wait q = some a := hl.head
    obtain ⟨m, hm, htmp, hq⟩ := hl.sleepLeave_pop hin hhead
    obtain rfl : m = b :: l := by simpa using hm.symm
    have hres : (sleepResume s.waits a q tmp).1 = sleepLeave s.waits a q tmp := by
      simp [sleepResume, hhead]
    obtain ⟨s', hrest, hempty⟩ :=
      ih (s := { s with waits := (sleepResume s.waits a q tmp).1 }) (a := b)
        (by rw [hres]; exact hq) (by rw [hres]; simp [sleepLeave, htmp])
    exact ⟨s', ReflTransGen.head (ReleaseStep.resume a tmp hin hrun) hrest, hempty⟩

/-- An awake queue can be emptied by its own runnable sleepers. -/
theorem release_of_awake {l : List T} (hl : IsQueue s.waits q l) (ha : Awake s.waits q) :
    ∃ s', ReflTransGen (ReleaseStep q) s s' ∧ IsQueue s'.waits q [] := by
  obtain ⟨t, ⟨tmp, hin⟩, hrun⟩ := ha
  cases l with
  | nil => exact absurd ((hl.mem t).mpr ⟨tmp, hin⟩) (by simp)
  | cons a l =>
    by_cases hta : a = t
    · subst hta
      exact release_of_head hl hrun
    · -- a sleeper behind the head wakes the head first
      have hhead : s.waits.wait q = some a := hl.head
      obtain ⟨s', hrest, hempty⟩ :=
        release_of_head (s := { s with waits := (sleepResume s.waits t q tmp).1 }) (a := a)
          (by simpa [sleepResume, hhead, hta] using hl.setState _)
          (by simp [sleepResume, hhead, hta])
      exact ⟨s', ReflTransGen.head (ReleaseStep.resume t tmp hin hrun) hrest, hempty⟩

end Release

/-- The implicit wait queue of `__sleep_on` is an exact stack, in every state of every run
and for every wait pointer `q`: the saved pointers read from `*q` list the tasks inside
`__sleep_on(q)` once each, latest entry first, and end in NULL; only the head leaves; the
`*P = NULL` warning is not printed; and after a `wake_up` of a non-empty queue some sleeper
is runnable until the queue is empty, so that from there on the runnable sleepers alone
can release everybody. -/
theorem sleepOn_queue_exact_stack [DecidableEq T] [DecidableEq Q] (init : T) (s₀ s : WaitSys T Q) (h₀ : s₀.Initial)
    (hrun : ReflTransGen (WaitStep init) s₀ s) (q : Q) :
    (∃ l, Links.Chain s.waits.saved (s.waits.wait q) l ∧ l.Nodup ∧
      (∀ t, t ∈ l ↔ s.waits.Inside q t) ∧
      l.Pairwise fun a b => s.entered b < s.entered a) ∧
    (∀ t tmp, s.waits.inside t = some (q, tmp) →
      ((sleepResume s.waits t q tmp).1.inside t = none → s.waits.wait q = some t) ∧
      (sleepResume s.waits t q tmp).2 = none) ∧
    (s.waits.wait q ≠ none → ∀ s',
      RunWhile (WaitStep init) (fun r => r.waits.wait q ≠ none)
        { s with waits := wakeUp s.waits q } s' →
      Awake s'.waits q ∧
      ∃ s'', ReflTransGen (ReleaseStep q) s' s'' ∧ s''.waits.wait q = none ∧
        ∀ t, ¬ s''.waits.Inside q t) := by
  have hinv := WaitInv.run h₀ hrun
  obtain ⟨l, hl, hsorted⟩ := hinv.queue q
  refine ⟨⟨l, hl.chain, hl.nodup, hl.mem, hsorted⟩, ?_, ?_⟩
  · intro t tmp hin
    rcases hl.sleepResume_cases hin with ⟨hhead, heq⟩ | ⟨u, -, -, heq⟩
    · exact ⟨fun _ => hhead, by rw [heq]⟩
    · refine ⟨fun hleft => ?_, by rw [heq]⟩
      rw [heq] at hleft
      exact absurd (hin.symm.trans hleft) (by simp)
  · intro hne s' hrun'
    have hwait : (wakeUp s.waits q).wait q ≠ none := by simpa using hne
    obtain ⟨-, hinv', ha⟩ := hrun'.invariant
      (Q := fun r => WaitInv r ∧ Awake r.waits q)
      (fun a b _ hq hstep hb => ⟨hq.1.step hstep, hq.1.awake_step hq.2 hstep hb⟩)
      hwait ⟨hinv.wake q, hl.awake_wakeUp hne⟩
    obtain ⟨l', hl', -⟩ := hinv'.queue q
    obtain ⟨s'', hrel, hempty⟩ := release_of_awake hl' ha
    refine ⟨ha, s'', hrel, hempty.head, fun t ht => ?_⟩
    exact absurd ((hempty.mem t).mpr ht) (by simp)

/-- Tasks 1 and 2 fall asleep in turn; after a `wake_up` nobody is left behind. -/
theorem sleepOn_queue_exact_stack_two : ∃ s₀ s : WaitSys (Fin 3) Unit, s₀.Initial ∧
    ReflTransGen (WaitStep 0) s₀ s ∧ s.waits.wait () = some 2 ∧
    (∃ l, Links.Chain s.waits.saved (some 2) l ∧ 1 ∈ l ∧ 2 ∈ l) ∧
    ∃ s', ReflTransGen (ReleaseStep ()) { s with waits := wakeUp s.waits () } s' ∧
      ∀ t, ¬ s'.waits.Inside () t := by
  let s₀ : WaitSys (Fin 3) Unit :=
    ⟨⟨fun _ => .running, fun _ => none, fun _ => none⟩, 0, fun _ => 0⟩
  have h₀ : s₀.Initial := ⟨fun _ => rfl, fun _ => rfl⟩
  have hrun := ((ReflTransGen.refl (r := WaitStep (0 : Fin 3)) (a := s₀)).tail
    (WaitStep.sleep 1 () rfl (Or.inl rfl))).tail (WaitStep.sleep 2 () rfl (Or.inr rfl))
  have hmain := sleepOn_queue_exact_stack 0 s₀ _ h₀ hrun ()
  refine ⟨s₀, _, h₀, hrun, rfl, ?_, ?_⟩
  · rcases hmain.1 with ⟨l, hl, -, hmem, -⟩
    exact ⟨l, hl, (hmem 1).mpr ⟨_, rfl⟩, (hmem 2).mpr ⟨_, rfl⟩⟩
  · rcases hmain.2.2 (by decide) _ ReflTransGen.refl with ⟨-, s', hrel, -, hout⟩
    exact ⟨s', hrel, hout⟩

end MockOs.Kernel
