import Mathlib.Algebra.BigOperators.Group.List.Basic
import Mathlib.Data.List.TakeWhile
import Mathlib.Algebra.GroupWithZero.Nat
import MockOs.Kernel.Proofs.Log

/-!
# The drain over several timer interrupts

A call of `sync_log_buf_2` from `timer_interrupt` stops at the first poll that finds the port
not ready, at a NUL, or when everything is sent. The next call goes on where it stopped, so
over any number of calls the bytes up to the first NUL go out in order, as many of them as
there were polls that found the port ready.
-/

namespace MockOs.Kernel

variable {T : Type} {s : LogSys T}

/-- The bytes at `offset .. limit - 1`. -/
def LogSys.unsent (s : LogSys T) : List (BitVec 8) :=
  (List.range' s.offset (s.limit - s.offset)).map s.buf

/-- Those of them before the first NUL. -/
def LogSys.sendable (s : LogSys T) : List (BitVec 8) := s.unsent.takeWhile (· ≠ 0)

/-- How many polls from the `k`-th on find the port ready, of `n` at most. -/
def readyFrom (ready : ℕ → Bool) (k n : ℕ) : ℕ := ((List.range' k n).takeWhile ready).length

theorem readyFrom_min (ready : ℕ → Bool) (k : ℕ) {m n : ℕ} (h : m ≤ n) :
    readyFrom ready k m = min (readyFrom ready k n) m := by
  induction m generalizing k n with
  | zero => simp [readyFrom]
  | succ m ih =>
    obtain ⟨n, rfl⟩ : ∃ j, n = j + 1 := Nat.exists_eq_add_one.mpr (by omega)
    have hrec := ih (k + 1) (n := n) (by omega)
    unfold readyFrom at hrec ⊢
    rw [List.range'_succ, List.range'_succ]
    cases hk : ready k with
    | false => simp [hk]
    | true =>
      rw [List.takeWhile_cons_of_pos hk, List.takeWhile_cons_of_pos hk, List.length_cons,
        List.length_cons, hrec]
      omega

/-- The loop in closed form, for `AH = 0`. -/
theorem drainLoop_eq (ready : ℕ → Bool) (buf : ℕ → BitVec 8) (ecx esi k : ℕ) :
    ∃ out, out = (((List.range' esi ecx).map buf).takeWhile (· ≠ 0)).take (readyFrom ready k ecx) ∧
      drainLoop 0 ready buf ecx esi k = (out, ecx - out.length) := by
  induction ecx generalizing esi k with
  | zero => exact ⟨[], rfl, rfl⟩
  | succ ecx ih =>
    obtain ⟨out, hout, hloop⟩ := ih (esi + 1) (k + 1)
    rw [drainLoop, readyFrom, List.range'_succ, List.range'_succ, List.map_cons]
    cases hk : ready k with
    | false => exact ⟨[], by simp [hk], by simp⟩
    | true =>
      by_cases hnul : buf esi = 0
      · exact ⟨[], by simp [hnul], by simp [hnul]⟩
      · refine ⟨buf esi :: out, ?_, ?_⟩
        · rw [List.takeWhile_cons_of_pos hk, List.takeWhile_cons_of_pos (by simpa using hnul),
            List.length_cons, List.take_succ_cons, hout, readyFrom]
        · rw [if_neg Bool.noConfusion, if_neg fun h => hnul h.2, hloop]
          simp

/-- What one call from `timer_interrupt` sends. -/
def LogSys.drained (s : LogSys T) (ready : ℕ → Bool) : List (BitVec 8) :=
  s.sendable.take (readyFrom ready 0 (s.limit - s.offset))

theorem length_unsent (s : LogSys T) : s.unsent.length = s.limit - s.offset := by
  simp [LogSys.unsent]

theorem drained_isPrefix (s : LogSys T) (ready : ℕ → Bool) : s.drained ready <+: s.unsent :=
  (List.take_prefix _ _).trans (List.takeWhile_prefix _)

theorem length_drained_le (s : LogSys T) (ready : ℕ → Bool) :
    (s.drained ready).length ≤ s.limit - s.offset := by
  rw [← length_unsent]
  exact (drained_isPrefix s ready).length_le

/-- One call: the words after it, and what it sent. -/
theorem syncLogBuf2_eq (s : LogSys T) (ready : ℕ → Bool) :
    syncLogBuf2 0 ready s =
      if s.limit - s.offset ≠ 0 ∧ (s.drained ready).length = s.limit - s.offset then
        { s with limit := 0, offset := 0, sent := s.sent ++ s.drained ready }
      else { s with
        offset := s.offset + (s.drained ready).length, sent := s.sent ++ s.drained ready } := by
  obtain ⟨out, hout, hloop⟩ := drainLoop_eq ready s.buf (s.limit - s.offset) s.offset 0
  have hdrained : s.drained ready = out := hout.symm
  have hle := length_drained_le s ready
  rw [syncLogBuf2, hloop, hdrained] at *
  by_cases hzero : s.limit - s.offset = 0
  · have hempty : out = [] := List.length_eq_zero_iff.mp (by omega)
    simp [hzero, hempty]
  · by_cases hall : out.length = s.limit - s.offset
    · simp [hzero, hall]
    · have hleft : s.limit - s.offset - out.length ≠ 0 := by omega
      have hcount : s.limit - s.offset - (s.limit - s.offset - out.length) = out.length := by omega
      simp [hzero, hall, hleft, hcount]

/-! ## Calls one after the other -/

/-- Calls of `sync_log_buf_2` from `timer_interrupt` with no logging in between, each with what
its polls read. -/
def timerDrains (calls : List (ℕ → Bool)) (s : LogSys T) : LogSys T :=
  calls.foldl (fun s ready => syncLogBuf2 0 ready s) s

theorem takeWhile_drop {α : Type} (p : α → Bool) {l : List α} {m : ℕ}
    (h : m ≤ (l.takeWhile p).length) : (l.drop m).takeWhile p = (l.takeWhile p).drop m := by
  induction l generalizing m with
  | nil => simp
  | cons a l ih =>
    cases m with
    | zero => rfl
    | succ m =>
      cases ha : p a with
      | false => simp [ha] at h
      | true =>
        rw [List.takeWhile_cons_of_pos ha] at h ⊢
        exact ih (Nat.le_of_succ_le_succ h)

theorem syncLogBuf2_sent (s : LogSys T) (ready : ℕ → Bool) :
    (syncLogBuf2 0 ready s).sent = s.sent ++ s.drained ready := by
  rw [syncLogBuf2_eq]
  split <;> rfl

theorem syncLogBuf2_buf (s : LogSys T) (ready : ℕ → Bool) :
    (syncLogBuf2 0 ready s).buf = s.buf := by
  rw [syncLogBuf2_eq]
  split <;> rfl

/-- The words after a call. -/
theorem syncLogBuf2_words (s : LogSys T) (ready : ℕ → Bool) :
    ((syncLogBuf2 0 ready s).offset = s.offset + (s.drained ready).length ∧
      (syncLogBuf2 0 ready s).limit = s.limit) ∨
    ((s.drained ready).length = s.limit - s.offset ∧
      (syncLogBuf2 0 ready s).offset = 0 ∧ (syncLogBuf2 0 ready s).limit = 0) := by
  rw [syncLogBuf2_eq]
  split
  · rename_i hall
    exact Or.inr ⟨hall.2, rfl, rfl⟩
  · exact Or.inl ⟨rfl, rfl⟩

/-- What is left to send after a call. -/
theorem syncLogBuf2_sendable (s : LogSys T) (ready : ℕ → Bool) :
    (syncLogBuf2 0 ready s).sendable = s.sendable.drop (s.drained ready).length := by
  have hle : (s.drained ready).length ≤ s.sendable.length := (List.take_prefix _ _).length_le
  rcases syncLogBuf2_words s ready with ⟨hoff, hlim⟩ | ⟨hall, hoff, hlim⟩
  · have hunsent : (syncLogBuf2 0 ready s).unsent = s.unsent.drop (s.drained ready).length := by
      rw [LogSys.unsent, hoff, hlim, syncLogBuf2_buf, LogSys.unsent, ← List.map_drop,
        List.drop_range', Nat.sub_add_eq]
      simp
    rw [LogSys.sendable, hunsent, takeWhile_drop _ hle, LogSys.sendable]
  · have hfew : s.sendable.length ≤ s.limit - s.offset := by
      rw [← length_unsent]
      exact (List.takeWhile_prefix _).length_le
    have hempty : (syncLogBuf2 0 ready s).unsent = [] := by
      rw [LogSys.unsent, hlim, Nat.zero_sub]
      rfl
    rw [List.drop_eq_nil_of_le (by omega), LogSys.sendable, hempty]
    rfl

/-- A call never makes the range longer. -/
theorem syncLogBuf2_shrinks (s : LogSys T) (ready : ℕ → Bool) :
    (syncLogBuf2 0 ready s).limit - (syncLogBuf2 0 ready s).offset ≤ s.limit - s.offset := by
  rcases syncLogBuf2_words s ready with ⟨hoff, hlim⟩ | ⟨-, hoff, hlim⟩
  · omega
  · omega

/-- Any bound on the polls will do that the bytes do not exceed. -/
theorem drained_eq (s : LogSys T) (ready : ℕ → Bool) {n : ℕ} (h : s.limit - s.offset ≤ n) :
    s.drained ready = s.sendable.take (readyFrom ready 0 n) := by
  have hfew : s.sendable.length ≤ s.limit - s.offset := by
    rw [← length_unsent]
    exact (List.takeWhile_prefix _).length_le
  rw [LogSys.drained, readyFrom_min ready 0 h]
  rcases Nat.le_total (readyFrom ready 0 n) (s.limit - s.offset) with hle | hle
  · rw [Nat.min_eq_left hle]
  · rw [Nat.min_eq_right hle, List.take_of_length_le hfew, List.take_of_length_le (by omega)]

/-- What all calls together send: as many bytes as there were polls that found the port ready,
up to the first NUL. -/
theorem timerDrains_sent (calls : List (ℕ → Bool)) {n : ℕ} (h : s.limit - s.offset ≤ n) :
    (timerDrains calls s).sent =
      s.sent ++ s.sendable.take (calls.map (readyFrom · 0 n)).sum := by
  induction calls generalizing s with
  | nil => simp [timerDrains]
  | cons ready calls ih =>
    have hrest := ih (s := syncLogBuf2 0 ready s) (Nat.le_trans (syncLogBuf2_shrinks s ready) h)
    have hdrop : s.sendable.drop (s.drained ready).length =
        s.sendable.drop (readyFrom ready 0 n) := by
      rw [drained_eq s ready h, List.length_take]
      rcases Nat.le_total (readyFrom ready 0 n) s.sendable.length with hle | hle
      · rw [Nat.min_eq_left hle]
      · rw [Nat.min_eq_right hle, List.drop_length, List.drop_eq_nil_of_le hle]
    calc (timerDrains (ready :: calls) s).sent
        = (timerDrains calls (syncLogBuf2 0 ready s)).sent := rfl
      _ = s.sent ++ s.drained ready ++ (s.sendable.drop (s.drained ready).length).take
            (calls.map (readyFrom · 0 n)).sum := by
          rw [hrest, syncLogBuf2_sent, syncLogBuf2_sendable]
      _ = s.sent ++ s.sendable.take ((ready :: calls).map (readyFrom · 0 n)).sum := by
          rw [hdrop, drained_eq s ready h, List.append_assoc, List.map_cons, List.sum_cons,
            List.take_add]

/-- The words after any calls, in terms of what they sent together. -/
theorem timerDrains_words (calls : List (ℕ → Bool)) (s : LogSys T) : ∃ out,
    (timerDrains calls s).sent = s.sent ++ out ∧ out.length ≤ s.limit - s.offset ∧
    (((timerDrains calls s).offset = s.offset + out.length ∧
      (timerDrains calls s).limit = s.limit) ∨
    (out.length = s.limit - s.offset ∧ (timerDrains calls s).offset = 0 ∧
      (timerDrains calls s).limit = 0)) := by
  induction calls generalizing s with
  | nil => exact ⟨[], by simp [timerDrains], Nat.zero_le _, Or.inl ⟨rfl, rfl⟩⟩
  | cons ready calls ih =>
    obtain ⟨out, hsent, hle, hwords⟩ := ih (syncLogBuf2 0 ready s)
    have hfirst := length_drained_le s ready
    rw [syncLogBuf2_sent, List.append_assoc] at hsent
    refine ⟨s.drained ready ++ out, hsent, ?_⟩
    rw [List.length_append]
    change _ ∧ (((timerDrains calls (syncLogBuf2 0 ready s)).offset = _ ∧
      (timerDrains calls (syncLogBuf2 0 ready s)).limit = _) ∨ (_ ∧
      (timerDrains calls (syncLogBuf2 0 ready s)).offset = _ ∧
      (timerDrains calls (syncLogBuf2 0 ready s)).limit = _))
    rcases syncLogBuf2_words s ready with ⟨hoff, hlim⟩ | ⟨hall, hoff, hlim⟩
    · rw [hoff, hlim] at hle hwords
      rcases hwords with ⟨hoff', hlim'⟩ | ⟨hall', hoff', hlim'⟩
      · exact ⟨by omega, Or.inl ⟨by omega, hlim'⟩⟩
      · exact ⟨by omega, Or.inr ⟨by omega, hoff', hlim'⟩⟩
    · -- both words are 0, and later calls do nothing
      rw [hoff, hlim] at hle hwords
      refine ⟨by omega, Or.inr ⟨by omega, ?_⟩⟩
      rcases hwords with ⟨hoff', hlim'⟩ | ⟨-, hoff', hlim'⟩
      · exact ⟨by omega, hlim'⟩
      · exact ⟨hoff', hlim'⟩

/-- The bytes up to the first NUL, by their places in the buffer. -/
theorem take_sendable (s : LogSys T) (m : ℕ) :
    s.sendable.take m = (List.range' s.offset (min m s.sendable.length)).map s.buf ∧
      ∀ i, s.offset ≤ i → i < s.offset + min m s.sendable.length → i < s.limit ∧ s.buf i ≠ 0 := by
  have hprefix : s.sendable <+: s.unsent := List.takeWhile_prefix _
  have hfew := hprefix.length_le
  rw [length_unsent] at hfew
  have htake : s.sendable.take m = (List.range' s.offset (min m s.sendable.length)).map s.buf := by
    have hunsent : s.sendable.take m = s.unsent.take (min m s.sendable.length) := by
      rw [← List.take_take, ← List.prefix_iff_eq_take.mp hprefix]
    rw [hunsent, LogSys.unsent, ← List.map_take, List.take_range'_of_length_ge (by omega)]
  refine ⟨htake, fun i hi hlt => ⟨by omega, ?_⟩⟩
  have hmem : s.buf i ∈ s.sendable.take m := by
    rw [htake]
    exact List.mem_map_of_mem (List.mem_range'_1.mpr ⟨hi, hlt⟩)
  simpa using List.mem_takeWhile_imp (List.mem_of_mem_take hmem)

/-- The drain goes on where it stopped. Over any calls from `timer_interrupt` the bytes sent
are those from `offset` on, up to the first NUL or `limit`, as many as there were polls that
found the port ready; how these are spread over the calls makes no difference. `offset` moves
on by what is sent, until everything is sent and both words are reset. -/
theorem drain_resumes (s : LogSys T) (calls : List (ℕ → Bool)) :
    (∃ n ≤ s.limit - s.offset,
      n = min (calls.map (readyFrom · 0 (s.limit - s.offset))).sum s.sendable.length ∧
      (timerDrains calls s).sent = s.sent ++ (List.range' s.offset n).map s.buf ∧
      (∀ i, s.offset ≤ i → i < s.offset + n → i < s.limit ∧ s.buf i ≠ 0) ∧
      (((timerDrains calls s).offset = s.offset + n ∧ (timerDrains calls s).limit = s.limit) ∨
      (n = s.limit - s.offset ∧ (timerDrains calls s).offset = 0 ∧
        (timerDrains calls s).limit = 0))) ∧
    (∀ ready, ∃ out,
      (timerDrains (calls ++ [ready]) s).sent = (timerDrains calls s).sent ++ out ∧
      (((timerDrains (calls ++ [ready]) s).offset = (timerDrains calls s).offset + out.length ∧
        (timerDrains (calls ++ [ready]) s).limit = (timerDrains calls s).limit) ∨
      (out.length = (timerDrains calls s).limit - (timerDrains calls s).offset ∧
        (timerDrains (calls ++ [ready]) s).offset = 0 ∧
        (timerDrains (calls ++ [ready]) s).limit = 0))) ∧
    ∀ calls', (calls'.map (readyFrom · 0 (s.limit - s.offset))).sum =
        (calls.map (readyFrom · 0 (s.limit - s.offset))).sum →
      (timerDrains calls' s).sent = (timerDrains calls s).sent := by
  have hsum := fun calls => timerDrains_sent (s := s) calls (Nat.le_refl (s.limit - s.offset))
  refine ⟨?_, fun ready => ?_, fun calls' heq => ?_⟩
  · obtain ⟨hbytes, hrange⟩ :=
      take_sendable s (calls.map (readyFrom · 0 (s.limit - s.offset))).sum
    obtain ⟨out, hout, hle, hwords⟩ := timerDrains_words calls s
    have hsent := hsum calls
    rw [hbytes] at hsent
    have hlen := congrArg List.length (List.append_cancel_left (hout.symm.trans hsent))
    rw [List.length_map, List.length_range'] at hlen
    rw [hlen] at hle hwords
    exact ⟨_, hle, rfl, hsent, hrange, hwords⟩
  · rw [show timerDrains (calls ++ [ready]) s = syncLogBuf2 0 ready (timerDrains calls s) by
      simp [timerDrains]]
    exact ⟨_, syncLogBuf2_sent _ ready, syncLogBuf2_words _ ready⟩
  · rw [hsum, hsum, heq]

end MockOs.Kernel
