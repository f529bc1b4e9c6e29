import MockOs.Kernel.Sched.Schedule
import MockOs.Kernel.Sched.Proofs.Blocks
import MockOs.Misc.RoundRobin

/-!
# `schedule()` is a round robin

With `current` in exactly one slot both loops of `schedule()` end: the first at that slot, the
second one round later at most. What it picks is the first runnable slot behind `current`, so
the results on round robins apply to the calls of `schedule()` one after the other, whatever
happens to the other tasks in between.
-/

namespace MockOs.Kernel

open RoundRobin

namespace TaskArray

variable {T : Type} {s s' : TaskArray T} {c k t : Slot}

/-- `current` occupies the slot `c` and no other. -/
def At (s : TaskArray T) (c : Slot) : Prop := ∀ k, s.task k = s.current ↔ k = c

/-- The slots `c + 1, …, c + 63`, going round. -/
def scanOrder (c : Slot) : List Slot := (List.range' 1 63).map fun j => c + Fin.ofNat 64 j

theorem mem_scanOrder : k ∈ scanOrder c ↔ k ≠ c := by
  simp only [scanOrder, List.mem_map, List.mem_range'_1]
  constructor
  · rintro ⟨j, hj, rfl⟩ h
    have hdist := dist_add (a := c) (j := j) (n := 64) (by omega)
    rw [h, RoundRobin.dist_self] at hdist
    omega
  · intro h
    have hpos := dist_pos h
    have hlt := dist_lt c k
    exact ⟨dist c k, by omega, add_dist c k⟩

theorem scanOrder_sorted (c : Slot) :
    (scanOrder c).Pairwise fun a b => dist c a < dist c b := by
  rw [scanOrder, List.pairwise_map]
  refine List.Pairwise.imp_of_mem ?_ List.pairwise_lt_range'
  intro i j hi hj hlt
  rw [List.mem_range'_1] at hi hj
  rwa [dist_add (by omega), dist_add (by omega)]

/-- What is found first in that order is what a round robin picks. -/
theorem picks_of_find (h : (scanOrder c).find? s.runnable = some k) :
    Picks (s.runnable ·) c k := by
  obtain ⟨hrun, before, after, hsplit, hbefore⟩ := List.find?_eq_some_iff_append.mp h
  have hmem : k ∈ scanOrder c := by
    rw [hsplit]
    simp
  refine ⟨mem_scanOrder.mp hmem, hrun, fun j hj hjrun => ?_⟩
  have hsorted := scanOrder_sorted c
  have hjmem := mem_scanOrder.mpr hj
  rw [hsplit] at hsorted hjmem
  rcases List.mem_append.mp hjmem with hin | hin
  · have hstopped := hbefore j hin
    simp [hjrun] at hstopped
  · rcases List.mem_cons.mp hin with rfl | hin
    · exact le_rfl
    · exact (List.rel_of_pairwise_cons (List.pairwise_append.mp hsorted).2.1 hin).le

variable [DecidableEq T]

/-! ## The two loops -/

theorem findLoop_eq (h : s.At c) {fuel i : ℕ} (hi : i ≤ c) (hfuel : c < i + fuel) :
    s.findLoop fuel i = some c.val := by
  induction fuel generalizing i with
  | zero => omega
  | succ fuel ih =>
    have hlt : i < 64 := by omega
    rw [findLoop, dif_pos hlt]
    by_cases heq : i = c
    · rw [if_pos ((h _).mpr (Fin.ext heq)), heq]
    · have hne : s.task ⟨i, hlt⟩ ≠ s.current := fun ht => heq (Fin.val_eq_of_eq ((h _).mp ht))
      rw [if_neg hne]
      exact ih (by omega) (by omega)

theorem ofNat_add (c : Slot) (j : ℕ) : (Fin.ofNat 64 (c + j) : Slot) = c + Fin.ofNat 64 j := by
  apply Fin.ext
  simp [Fin.val_add]

/-- With `m` slots left before `current` comes round again. -/
theorem scanLoop_eq (h : s.At c) {fuel m j : ℕ} (hj : 1 ≤ j) (hm : j + m = 64)
    (hfuel : m < fuel) :
    s.scanLoop fuel (c + j) =
      some (((List.range' j m).map fun j => c + Fin.ofNat 64 j).find? s.runnable) := by
  induction m generalizing fuel j with
  | zero =>
    obtain ⟨fuel, rfl⟩ : ∃ n, fuel = n + 1 := Nat.exists_eq_add_one.mpr hfuel
    obtain rfl : j = 64 := hm
    have hround : s.task (Fin.ofNat 64 (c + 64)) = s.current := by
      rw [h, ofNat_add]
      simp
    rw [scanLoop, if_pos hround]
    rfl
  | succ m ih =>
    obtain ⟨fuel, rfl⟩ : ∃ n, fuel = n + 1 := Nat.exists_eq_add_one.mpr (by omega)
    have hother : s.task (c + Fin.ofNat 64 j) ≠ s.current := by
      rw [Ne, h]
      refine mem_scanOrder.mp ?_
      exact List.mem_map.mpr ⟨j, List.mem_range'_1.mpr (by omega), rfl⟩
    rw [scanLoop, ofNat_add, if_neg hother, List.range'_succ, List.map_cons, List.find?_cons]
    cases hrun : s.runnable (c + Fin.ofNat 64 j) with
    | true => rfl
    | false =>
      rw [if_neg Bool.false_ne_true, add_assoc]
      exact ih (by omega) (by omega) (by omega)

/-- `schedule()` with `current` in the slot `c` only. -/
theorem schedule_eq (h : s.At c) {fuel : ℕ} (hfuel : 64 ≤ fuel) :
    s.schedule fuel =
      some (match (scanOrder c).find? s.runnable with
        | some k => ({ s with current := s.task k }, some k)
        | none => (s, none)) := by
  have hfind : s.findLoop fuel 0 = some c.val := findLoop_eq h (Nat.zero_le _) (by omega)
  have hscan : s.scanLoop fuel (c + 1) = some ((scanOrder c).find? s.runnable) :=
    scanLoop_eq h le_rfl rfl (by omega)
  rw [schedule, hfind, Option.bind_eq_bind, Option.bind_some, hscan, Option.bind_eq_bind,
    Option.bind_some]
  cases hk : (scanOrder c).find? s.runnable with
  | none => rfl
  | some k =>
    have hother : s.task k ≠ s.current := by
      rw [Ne, h]
      exact (picks_of_find hk).ne
    simp [switchTo, hother]

/-! ## Calls one after the other -/

/-- Between two calls of `schedule()` nobody else writes `current`, and no task structure
leaves its slot. States change as they like, and `fork` fills empty slots. -/
structure Meanwhile (s s' : TaskArray T) : Prop where
  current : s'.current = s.current
  task : ∀ k, s.task k ≠ none → s'.task k = s.task k

/-- Calls of `schedule()` with the far jumps they take, `t` being runnable at each of them. -/
inductive Calls (t : Slot) : TaskArray T → List (Option Slot) → Prop
  | nil (s : TaskArray T) : Calls t s []
  | cons {fuel : ℕ} {s s' s'' : TaskArray T} {o : Option Slot} {os : List (Option Slot)} :
      (∃ c, s.At c) → s.runnable t → s.schedule fuel = some (s', o) → Meanwhile s' s'' →
      Calls t s'' os → Calls t s (o :: os)

/-- More fuel does not change what `schedule()` does. -/
theorem findLoop_mono {fuel i j : ℕ} (h : s.findLoop fuel i = some j) (m : ℕ) :
    s.findLoop (fuel + m) i = some j := by
  induction fuel generalizing i with
  | zero => cases h
  | succ fuel ih =>
    rw [Nat.succ_add, findLoop]
    rw [findLoop] at h
    split at h
    · rename_i hi
      rw [dif_pos hi]
      split at h
      · rename_i heq
        rw [if_pos heq]
        exact h
      · rename_i hne
        rw [if_neg hne]
        exact ih h
    · cases h

theorem scanLoop_mono {fuel i : ℕ} {o : Option Slot} (h : s.scanLoop fuel i = some o) (m : ℕ) :
    s.scanLoop (fuel + m) i = some o := by
  induction fuel generalizing i with
  | zero => cases h
  | succ fuel ih =>
    rw [Nat.succ_add, scanLoop]
    rw [scanLoop] at h
    split at h
    · rename_i heq
      rw [if_pos heq]
      exact h
    · rename_i hne
      rw [if_neg hne]
      split at h
      · rename_i hrun
        rw [if_pos hrun]
        exact h
      · rename_i hrun
        rw [if_neg hrun]
        exact ih h

theorem schedule_mono {fuel : ℕ} {r : TaskArray T × Option Slot} (h : s.schedule fuel = some r)
    (m : ℕ) : s.schedule (fuel + m) = some r := by
  simp only [schedule, Option.bind_eq_bind, Option.bind_eq_some_iff] at h ⊢
  obtain ⟨i, hi, o, ho, hr⟩ := h
  exact ⟨i, findLoop_mono hi m, o, scanLoop_mono ho m, hr⟩

/-- What a call of `schedule()` did, when it came to an end. -/
theorem schedule_result (h : s.At c) {fuel : ℕ} {r : TaskArray T × Option Slot}
    (hr : s.schedule fuel = some r) :
    r = match (scanOrder c).find? s.runnable with
      | some k => ({ s with current := s.task k }, some k)
      | none => (s, none) := by
  have hmore := schedule_mono hr 64
  rw [schedule_eq h (by omega)] at hmore
  exact (Option.some.inj hmore).symm

/-- With a runnable slot besides that of `current` a call of `schedule()` picks one. -/
theorem schedule_picks (h : s.At c) {fuel : ℕ} {o : Option Slot}
    (hr : s.schedule fuel = some (s', o)) (ht : s.runnable t) (hne : t ≠ c) :
    ∃ k, o = some k ∧ s' = { s with current := s.task k } ∧ Picks (s.runnable ·) c k := by
  have hresult := schedule_result h hr
  cases hk : (scanOrder c).find? s.runnable with
  | none =>
    have hstopped := List.find?_eq_none.mp hk t (mem_scanOrder.mpr hne)
    exact absurd ht hstopped
  | some k =>
    rw [hk] at hresult
    obtain ⟨rfl, rfl⟩ := Prod.mk.inj hresult
    exact ⟨k, rfl, rfl, picks_of_find hk⟩

omit [DecidableEq T] in
/-- The slot of `current` at the next call is the one that was picked. -/
theorem At.after_switch (hk : s.task k ≠ none) (h : Meanwhile { s with current := s.task k } s')
    (hc : s'.At c) : c = k := by
  have hsame : s'.task k = s'.current := by
    rw [h.current, h.task k hk]
  exact ((hc k).mp hsame).symm

omit [DecidableEq T] in
theorem task_ne_none (h : s.runnable k) : s.task k ≠ none := by
  intro hnone
  simp [runnable, hnone] at h

/-- Until `t` is picked the calls of `schedule()` are the turns of a round robin. -/
theorem Calls.turns {os : List (Option Slot)} (h : Calls t s os) (hc : s.At c) (hne : t ≠ c) :
    ∃ l os', os = l.map some ++ os' ∧ Turns t c l ∧ (t ∈ l ∨ os' = []) := by
  induction h generalizing c with
  | nil s => exact ⟨[], [], rfl, .nil c, Or.inr rfl⟩
  | @cons fuel s s' s'' o os _ ht hr hmean hrest ih =>
    obtain ⟨k, rfl, rfl, hpick⟩ := schedule_picks hc hr ht hne
    by_cases hk : t = k
    · exact ⟨[k], os, rfl, .cons hpick ht (.nil k), Or.inl (hk ▸ List.mem_cons_self)⟩
    · rcases hrest with _ | ⟨⟨c', hc'⟩, _, _, _, _⟩
      · exact ⟨[k], [], rfl, .cons hpick ht (.nil k), Or.inr rfl⟩
      · obtain rfl := At.after_switch (task_ne_none hpick.holds) hmean hc'
        obtain ⟨l, os', hos, hturns, hend⟩ := ih hc' hk
        refine ⟨c' :: l, os', ?_, .cons hpick ht hturns, ?_⟩
        · rw [hos, List.map_cons, List.cons_append]
        · exact hend.imp_left (List.mem_cons_of_mem _)

/-- `t` is picked by the 63rd call. -/
theorem Calls.mem_take {os : List (Option Slot)} (h : Calls t s os) (hc : s.At c) (hne : t ≠ c)
    (hlen : 63 ≤ os.length) : some t ∈ os.take 63 := by
  obtain ⟨l, os', rfl, hturns, hend⟩ := h.turns hc hne
  have hdist := dist_lt c t
  have hmem : t ∈ l.take 63 := by
    by_cases hl : dist c t ≤ l.length
    · exact (List.take_sublist_take_left (by omega)).mem (hturns.mem_take hne hl)
    · rcases hend with hin | rfl
      · rwa [List.take_of_length_le (by omega)]
      · simp only [List.append_nil, List.length_map] at hlen
        omega
  rw [List.take_append, ← List.map_take]
  exact List.mem_append_left _ (List.mem_map_of_mem hmem)

omit [DecidableEq T] in
theorem takeWhile_map_some (l : List Slot) (os : List (Option Slot)) (h : t ∈ l ∨ os = []) :
    (l.map some ++ os).takeWhile (· ≠ some t) = (l.takeWhile (· ≠ t)).map some := by
  induction l with
  | nil =>
    obtain rfl := h.resolve_left List.not_mem_nil
    rfl
  | cons k l ih =>
    by_cases hk : k = t
    · simp [hk]
    · have hrest : t ∈ l ∨ os = [] := h.imp_left fun hin => by simpa [Ne.symm hk] using hin
      simpa [hk] using ih hrest

/-- No slot is picked twice before `t` is, and the one that was current is not picked. -/
theorem Calls.nodup {os : List (Option Slot)} (h : Calls t s os) (hc : s.At c) (hne : t ≠ c) :
    (some c :: os.takeWhile (· ≠ some t)).Nodup := by
  obtain ⟨l, os', rfl, hturns, hend⟩ := h.turns hc hne
  rw [takeWhile_map_some l os' hend, ← List.map_cons]
  exact (hturns.nodup hne).map (Option.some_injective _)

/-- `schedule()` ends and switches to the first runnable slot behind that of `current`, or
stays when there is none. Whoever waits runnable in another slot comes closer with each call
and is picked by the 63rd; before that nobody else is picked twice. -/
theorem schedule_fair (s : TaskArray T) (c : Slot) (hc : s.At c) :
    (∀ fuel ≥ 64, s.schedule fuel =
      some (match (scanOrder c).find? s.runnable with
        | some k => ({ s with current := s.task k }, some k)
        | none => (s, none))) ∧
    ∀ t ≠ c, s.runnable t →
      (∃ k, (scanOrder c).find? s.runnable = some k ∧ dist k t < dist c t) ∧
      ∀ os, Calls t s os →
        (63 ≤ os.length → some t ∈ os.take 63) ∧ (some c :: os.takeWhile (· ≠ some t)).Nodup := by
  refine ⟨fun fuel => schedule_eq hc, fun t hne ht => ⟨?_, fun os hos => ?_⟩⟩
  · obtain ⟨k, hk⟩ : ∃ k, (scanOrder c).find? s.runnable = some k := by
      rw [← Option.isSome_iff_exists, List.find?_isSome]
      exact ⟨t, mem_scanOrder.mpr hne, ht⟩
    exact ⟨k, hk, (picks_of_find hk).closer ht hne⟩
  · exact ⟨hos.mem_take hc hne, hos.nodup hc hne⟩

/-- Two tasks that take turns, seen from the one in slot `c`. -/
def pair (c : Slot) : TaskArray Slot where
  task k := if k.val < 2 then some k else none
  state _ := .running
  current := some c

theorem pair_at (c : Slot) (hc : c.val < 2) : (pair c).At c := by
  intro k
  simp only [pair]
  split
  · exact Option.some_inj
  · rename_i hk
    simp only [reduceCtorEq, false_iff]
    rintro rfl
    exact hk hc

theorem pair_calls (n : ℕ) : ∃ os, os.length = n ∧ Calls 1 (pair 0) os := by
  suffices h : ∀ c : Slot, c.val < 2 → ∃ os, os.length = n ∧ Calls 1 (pair c) os from
    h 0 (by decide)
  induction n with
  | zero => exact fun c _ => ⟨[], rfl, .nil _⟩
  | succ n ih =>
    intro c hc
    have hnext : ∃ k : Slot, k.val < 2 ∧ (scanOrder c).find? (pair c).runnable = some k := by
      obtain rfl | rfl : c = 0 ∨ c = 1 := by
        simp only [Fin.ext_iff]
        exact Nat.le_one_iff_eq_zero_or_eq_one.mp (Nat.lt_succ_iff.mp hc)
      · exact ⟨1, by decide, by decide⟩
      · exact ⟨0, by decide, by decide⟩
    obtain ⟨k, hk, hfind⟩ := hnext
    obtain ⟨os, hlen, hos⟩ := ih k hk
    have hcall := schedule_eq (pair_at c hc) (le_refl 64)
    rw [hfind] at hcall
    refine ⟨some k :: os, by simp [hlen], .cons ⟨c, pair_at c hc⟩ rfl hcall ?_ hos⟩
    exact ⟨(if_pos hk).symm, fun _ _ => rfl⟩

/-- Task 0 calls with task 1 waiting. -/
theorem schedule_fair_pair :
    (pair 0).schedule 64 = some (pair 1, some 1) ∧
    ∃ os, 63 ≤ os.length ∧ Calls 1 (pair 0) os ∧ some 1 ∈ os.take 63 := by
  have hfair := schedule_fair (pair 0) 0 (pair_at 0 (by decide))
  obtain ⟨os, hlen, hos⟩ := pair_calls 63
  have hturn := (hfair.2 1 (by decide) (by decide)).2 os hos
  refine ⟨?_, os, hlen.ge, hos, hturn.1 hlen.ge⟩
  rw [hfair.1 64 le_rfl, show (scanOrder 0).find? (pair 0).runnable = some 1 by decide]
  rfl

end TaskArray

/-! ## On the processor -/

section Processor

open Relation

variable {s : Cpu} {rest : List Pt}

/-- A statement of the running task. -/
def Go : Cpu → Cpu → Prop := CpuStep fun _ a => a = .go

theorem table_task (hlive : s.live s.current) (k : Slot) :
    s.table.task k = s.table.current ↔ k = s.current := by
  simp only [Cpu.table]
  split
  · exact Option.some_inj
  · rename_i hk
    simp only [reduceCtorEq, false_iff]
    rintro rfl
    exact hk hlive

theorem table_runnable (k : Slot) :
    s.table.runnable k = true ↔ s.live k ∧ s.state k = .running := by
  simp only [TaskArray.runnable, Cpu.table]
  cases hk : s.live k
  · simp
  · simp only [reduceIte, true_and]
    exact decide_eq_true_iff

theorem find_run (hlive : s.live s.current) {fuel i j : ℕ}
    (h : s.table.findLoop fuel i = some j) (hcode : s.code s.tr = .sched (.find i) :: rest) :
    ReflTransGen Go s (s.goto (.sched (.scan (j + 1)) :: rest)) := by
  induction fuel generalizing s i with
  | zero => cases h
  | succ fuel ih =>
    rw [TaskArray.findLoop] at h
    split at h
    · rename_i hi
      simp only [table_task hlive, Fin.ext_iff] at h
      split at h
      · rename_i heq
        obtain rfl := Option.some.inj h
        refine ReflTransGen.single ⟨.go, rfl, ?_⟩
        simp only [Cpu.step, hcode, Cpu.exec, Cpu.schedule]
        exact if_pos heq
      · rename_i hne
        have hnext : s.step .go = some (s.goto (.sched (.find (i + 1)) :: rest)) := by
          simp only [Cpu.step, hcode, Cpu.exec, Cpu.schedule]
          exact if_neg hne
        have hrest := ih (s := s.goto (.sched (.find (i + 1)) :: rest)) hlive h (goto_code _)
        rw [goto_goto] at hrest
        exact (ReflTransGen.single ⟨.go, rfl, hnext⟩).trans hrest
    · cases h

/-- Where `schedule()` goes on after its second loop. -/
def afterScan (rest : List Pt) : Option Slot → List Pt
  | none => rest
  | some k => .sched (.cmp k) :: rest

theorem scan_run (hlive : s.live s.current) {fuel i : ℕ} {o : Option Slot}
    (h : s.table.scanLoop fuel i = some o) (hcode : s.code s.tr = .sched (.scan i) :: rest) :
    ReflTransGen Go s (s.goto (afterScan rest o)) := by
  induction fuel generalizing s i with
  | zero => cases h
  | succ fuel ih =>
    simp only [TaskArray.scanLoop, table_task hlive, table_runnable] at h
    have hstep : s.step .go = some (s.goto
        (if Fin.ofNat 64 i = s.current then rest
        else if s.live (Fin.ofNat 64 i) ∧ s.state (Fin.ofNat 64 i) = .running then
          .sched (.cmp (Fin.ofNat 64 i)) :: rest
        else .sched (.scan (i + 1)) :: rest)) := by
      simp only [Cpu.step, hcode, Cpu.exec, Cpu.schedule]
      split_ifs <;> rfl
    split at h
    · rename_i heq
      obtain rfl := Option.some.inj h
      rw [if_pos heq] at hstep
      exact ReflTransGen.single ⟨.go, rfl, hstep⟩
    · rename_i hne
      rw [if_neg hne] at hstep
      split at h
      · rename_i hrun
        obtain rfl := Option.some.inj h
        rw [if_pos hrun] at hstep
        exact ReflTransGen.single ⟨.go, rfl, hstep⟩
      · rename_i hrun
        rw [if_neg hrun] at hstep
        have hrest := ih (s := s.goto (.sched (.scan (i + 1)) :: rest)) hlive h (goto_code _)
        rw [goto_goto] at hrest
        exact (ReflTransGen.single ⟨.go, rfl, hstep⟩).trans hrest

/-- The three instructions of `switch_to` to a task other than `current` and that in TR. -/
theorem switch_run {k : Slot} (hcode : s.code s.tr = .sched (.cmp k) :: rest)
    (hk : k ≠ s.current) (htr : k ≠ s.tr) :
    ReflTransGen Go s { ({ s with current := k }).goto (.sched .back :: rest) with tr := k } := by
  have hcmp : Go s (s.goto (.sched (.xchg k) :: rest)) := by
    refine ⟨.go, rfl, ?_⟩
    simp only [Cpu.step, hcode, Cpu.exec, Cpu.schedule, if_neg hk]
  have hxchg : Go (s.goto (.sched (.xchg k) :: rest))
      (({ s with current := k }).goto (.sched (.ljmp k) :: rest)) := by
    refine ⟨.go, rfl, ?_⟩
    simp only [Cpu.step, goto_code, Cpu.exec, Cpu.schedule]
    simp [Cpu.goto]
  have hljmp : Go (({ s with current := k }).goto (.sched (.ljmp k) :: rest))
      { ({ s with current := k }).goto (.sched .back :: rest) with tr := k } := by
    refine ⟨.go, rfl, ?_⟩
    simp only [Cpu.step, goto_code, Cpu.exec, Cpu.schedule]
    rw [goto_goto]
    exact if_neg htr
  exact ((ReflTransGen.single hcmp).tail hxchg).tail hljmp

/-- The statements of `schedule()` on the processor, run without an interrupt, do what the
call does to the table: it returns, or `current` and TR both name the task that was picked. -/
theorem schedule_run (hlive : s.live s.current) {fuel : ℕ} {t : TaskArray Slot} {o : Option Slot}
    (h : s.table.schedule fuel = some (t, o))
    (hcode : s.code s.tr = .sched (.find 0) :: rest) :
    (o = none → ReflTransGen Go s (s.goto rest)) ∧
    ∀ k, o = some k → k ≠ s.tr →
      ReflTransGen Go s { ({ s with current := k }).goto (.sched .back :: rest) with tr := k } := by
  simp only [TaskArray.schedule, Option.bind_eq_bind, Option.bind_eq_some_iff] at h
  obtain ⟨i, hi, scanned, hscanned, hr⟩ := h
  have hfound := find_run hlive hi hcode
  have hscan := scan_run (s := s.goto (.sched (.scan (i + 1)) :: rest)) hlive hscanned (goto_code _)
  rw [goto_goto] at hscan
  have hrun := hfound.trans hscan
  cases scanned with
  | none =>
    obtain ⟨rfl, rfl⟩ := Prod.mk.inj (Option.some.inj hr)
    exact ⟨fun _ => hrun, fun k hk => by cases hk⟩
  | some k =>
    have hswitch := Option.some.inj hr
    simp only [TaskArray.switchTo, table_task hlive] at hswitch
    split at hswitch
    · rename_i hk
      obtain ⟨rfl, rfl⟩ := Prod.mk.inj hswitch
      refine ⟨fun _ => hrun.tail ⟨.go, rfl, ?_⟩, fun k hk => by cases hk⟩
      simp only [Cpu.step, goto_code, afterScan, Cpu.exec, Cpu.schedule, goto_goto]
      exact if_pos hk
    · rename_i hk
      obtain ⟨rfl, rfl⟩ := Prod.mk.inj hswitch
      refine ⟨fun hnone => (Option.some_ne_none k hnone).elim, fun j hj htr => ?_⟩
      obtain rfl := Option.some.inj hj
      have hjump := switch_run (s := s.goto (afterScan rest (some k))) (goto_code _) hk htr
      have hsame : ({ s.goto (afterScan rest (some k)) with current := k } : Cpu).goto
          (.sched .back :: rest) = ({ s with current := k }).goto (.sched .back :: rest) := by
        simp [Cpu.goto]
      rw [hsame] at hjump
      exact hrun.trans hjump

end Processor

end MockOs.Kernel
