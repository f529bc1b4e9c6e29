import MockOs.Kernel.Log
import MockOs.Misc.Run

/-!
# What goes out to the serial port

`sync_log_buf_2` takes a NUL byte for "not copied yet" and never writes NUL behind itself,
unlike `sync_log_buf`. In the space of an earlier round a byte that is reserved and not
yet copied reads as the old byte, and is sent. As long as each run of `sync_log_buf_2`
stops before the first byte that its writer still has to store, the bytes sent are a
prefix of the messages in reservation order.
-/

namespace MockOs.Kernel

open Relation

variable {T : Type} {s s' : LogSys T}

/-- Buffer index `i` is reserved by a writer that has not stored it yet. -/
def LogSys.Pending (s : LogSys T) (i : Nat) : Prop :=
  ∃ t w, s.writer t = some w ∧ w.dest + w.copied ≤ i ∧ i < w.dest + w.msg.length

/-- The run of `sync_log_buf_2` stops before any byte that is not stored yet: at a poll that
finds the port not ready, or at a NUL. -/
def StopsInTime (s : LogSys T) (ah : BitVec 8) (ready : Nat → Bool) : Prop :=
  ∀ i, s.offset ≤ i → i < s.limit → s.Pending i →
    (∃ k ≤ i - s.offset, ready k = false) ∨
    (∃ j, s.offset ≤ j ∧ j ≤ i ∧ ah = 0 ∧ s.buf j = 0)

/-- The bytes sent are a prefix of the messages in reservation order, what is missing is
what the buffer still holds, and no byte is out that its writer has not stored. -/
structure Delivered (s : LogSys T) : Prop where
  inOrder : s.sent <+: s.stream
  rest : s.sent.length + (s.limit - s.offset) = s.stream.length
  stored : ∀ t w, s.writer t = some w → w.copied < w.msg.length → s.sent.length ≤ w.pos + w.copied

/-! ## `sync_log_buf_2` -/

/-- The loop sends the next `n` bytes, all of which it found ready to go. -/
theorem drainLoop_spec (ah : BitVec 8) (ready : Nat → Bool) (buf : Nat → BitVec 8)
    (ecx esi k : Nat) : ∃ n ≤ ecx,
      drainLoop ah ready buf ecx esi k = ((List.range n).map fun j => buf (esi + j), ecx - n) ∧
      ∀ j < n, ready (k + j) = true ∧ ¬ (ah = 0 ∧ buf (esi + j) = 0) := by
  induction ecx generalizing esi k with
  | zero => exact ⟨0, Nat.le_refl 0, rfl, by simp⟩
  | succ ecx ih =>
    rw [drainLoop]
    split
    · exact ⟨0, Nat.zero_le _, rfl, by simp⟩
    · rename_i hready
      split
      · exact ⟨0, Nat.zero_le _, rfl, by simp⟩
      · rename_i hnul
        rcases ih (esi + 1) (k + 1) with ⟨n, hn, hloop, hsent⟩
        refine ⟨n + 1, by omega, ?_, fun j hj => ?_⟩
        · rw [hloop, List.range_succ_eq_map]
          simp [Function.comp_def, Nat.add_assoc, Nat.add_comm 1]
        · cases j with
          | zero => exact ⟨by simpa using hready, by simpa using hnul⟩
          | succ j =>
            have := hsent j (by omega)
            rwa [show k + 1 + j = k + (j + 1) by omega,
              show esi + 1 + j = esi + (j + 1) by omega] at this

/-! ## The invariant -/

/-- Where buffer index 0 of the current round stands in the stream. -/
def LogSys.base (s : LogSys T) : Nat := s.stream.length - s.limit

/-- The invariant of the runs that stop in time. -/
structure LogInv (s : LogSys T) : Prop where
  offset_le : s.offset ≤ s.limit
  limit_le : s.limit ≤ s.stream.length
  sent_eq : s.sent = s.stream.take (s.base + s.offset)
  place : ∀ t w, s.writer t = some w → w.copied < w.msg.length →
    w.pos = s.base + w.dest ∧ w.dest + w.msg.length ≤ s.limit ∧
      ∀ i < w.msg.length, s.stream[w.pos + i]? = w.msg[i]?
  disjoint : ∀ t t' w w', s.writer t = some w → s.writer t' = some w' → t ≠ t' →
    w.copied < w.msg.length → w'.copied < w'.msg.length →
    w.dest + w.msg.length ≤ w'.dest ∨ w'.dest + w'.msg.length ≤ w.dest
  content : ∀ i < s.limit, ¬ s.Pending i → s.stream[s.base + i]? = some (s.buf i)
  unsent : ∀ i, s.Pending i → s.offset ≤ i

theorem LogInv.delivered (h : LogInv s) : Delivered s := by
  have hb : s.base + s.limit = s.stream.length := by
    have := h.limit_le
    simp only [LogSys.base]
    omega
  have hlen : s.sent.length = s.base + s.offset := by
    have := h.offset_le
    rw [h.sent_eq, List.length_take]
    omega
  refine ⟨h.sent_eq ▸ List.take_prefix _ _, ?_, fun t w hw hlt => ?_⟩
  · have := h.offset_le
    omega
  · have hpend : s.Pending (w.dest + w.copied) := ⟨t, w, hw, Nat.le_refl _, by omega⟩
    have := h.unsent _ hpend
    rw [hlen, (h.place t w hw hlt).1]
    omega

theorem LogInv.init : LogInv (LogSys.init : LogSys T) := by
  refine ⟨Nat.le_refl 0, Nat.le_refl 0, rfl, ?_, ?_, ?_, ?_⟩
  · simp [LogSys.init]
  · simp [LogSys.init]
  · simp [LogSys.init]
  · rintro i ⟨t, w, hw, -⟩
    cases hw

/-- A further byte of the stream. -/
theorem take_append_range {l : List (BitVec 8)} {m n : Nat} {f : Nat → BitVec 8}
    (h : ∀ j < n, l[m + j]? = some (f j)) :
    l.take m ++ (List.range n).map f = l.take (m + n) := by
  induction n with
  | zero => simp
  | succ n ih =>
    rw [List.range_succ, List.map_append, ← List.append_assoc, ih fun j hj => h j (by omega),
      ← Nat.add_assoc, List.take_add_one, h n (by omega)]
    rfl

section Steps

/-- A run of `sync_log_buf_2` that stops in time keeps the invariant. -/
theorem LogInv.drain (h : LogInv s) {ah : BitVec 8} {ready : Nat → Bool}
    (hstop : StopsInTime s ah ready) : LogInv (syncLogBuf2 ah ready s) := by
  rw [syncLogBuf2]
  simp only
  split
  · exact h
  · rename_i hne
    rcases drainLoop_spec ah ready s.buf (s.limit - s.offset) s.offset 0 with ⟨n, hn, hloop, hgo⟩
    have hoff := h.offset_le
    -- nothing that was sent was still to be stored
    have hpend : ∀ i, s.Pending i → i < s.limit → s.offset + n ≤ i := by
      intro i hi hlim
      by_contra hlt
      have hle := h.unsent i hi
      rcases hstop i hle hlim hi with ⟨k, hk, hnr⟩ | ⟨j, hj, hji, hah, hnul⟩
      · have := (hgo k (by omega)).1
        rw [Nat.zero_add, hnr] at this
        cases this
      · refine (hgo (j - s.offset) (by omega)).2 ⟨hah, ?_⟩
        rwa [Nat.add_sub_cancel' hj]
    have hsent : s.sent ++ (List.range n).map (fun j => s.buf (s.offset + j)) =
        s.stream.take (s.base + s.offset + n) := by
      rw [h.sent_eq]
      refine take_append_range fun j hj => ?_
      rw [Nat.add_assoc]
      refine h.content _ (by omega) fun hp => ?_
      have := hpend _ hp (by omega)
      omega
    have hbase : s.base + s.limit = s.stream.length := by
      have := h.limit_le
      simp only [LogSys.base]
      omega
    have hwithin : ∀ i, s.Pending i → i < s.limit := by
      rintro i ⟨t, w, hw, hlo, hhi⟩
      have := (h.place t w hw (by omega)).2.1
      omega
    rw [hloop]
    simp only [hsent]
    split
    · -- all is sent, so nobody is still copying
      rename_i hall
      have hnone : ∀ t w, s.writer t = some w → ¬ w.copied < w.msg.length := by
        intro t w hw hlt
        have hp : s.Pending (w.dest + w.copied) := ⟨t, w, hw, Nat.le_refl _, by omega⟩
        have h1 := hwithin _ hp
        have h2 := hpend _ hp h1
        omega
      refine ⟨Nat.le_refl 0, Nat.zero_le _, ?_, fun t w hw hlt =>
        absurd hlt (hnone t w hw), fun t t' w w' hw hw' _ hlt => absurd hlt (hnone t w hw),
        fun i hi => absurd hi (Nat.not_lt_zero i), ?_⟩
      · show s.stream.take _ = s.stream.take (s.stream.length - 0 + 0)
        congr 1
        omega
      · rintro i ⟨t, w, hw, hlo, hhi⟩
        exact absurd (by omega : w.copied < w.msg.length) (hnone t w hw)
    · refine ⟨?_, h.limit_le, ?_, h.place, h.disjoint, h.content, fun i hi => ?_⟩
      · show s.offset + (s.limit - s.offset - (s.limit - s.offset - n)) ≤ s.limit
        omega
      · show s.stream.take _ = s.stream.take (s.base +
          (s.offset + (s.limit - s.offset - (s.limit - s.offset - n))))
        congr 1
        omega
      · show s.offset + (s.limit - s.offset - (s.limit - s.offset - n)) ≤ i
        have := hpend i hi (hwithin i hi)
        omega

variable [DecidableEq T] {t : T} {w : Writer}

/-- What a reservation does. -/
theorem logBufReserve_eq {msg : List (BitVec 8)} (h : logBufReserve s t msg = some s') :
    s.limit + msg.length ≤ bufferSize ∧ s' = { s with
      limit := s.limit + msg.length
      writer := Function.update s.writer t (some ⟨msg, s.limit, 0, s.stream.length⟩)
      msgs := s.msgs ++ [msg] } := by
  simp only [logBufReserve, atomicAdd] at h
  split at h
  · cases h
  · rename_i hroom
    rw [Option.map_some, Option.some.injEq, Nat.add_sub_cancel] at h
    exact ⟨by omega, h.symm⟩

theorem LogInv.reserve (h : LogInv s) {msg : List (BitVec 8)}
    (hs : s' = { s with
      limit := s.limit + msg.length
      writer := Function.update s.writer t (some ⟨msg, s.limit, 0, s.stream.length⟩)
      msgs := s.msgs ++ [msg] }) (hout : s.writer t = none) : LogInv s' := by
  have hbase : s.base + s.limit = s.stream.length := by
    have := h.limit_le
    simp only [LogSys.base]
    omega
  have hstream : s'.stream = s.stream ++ msg := by
    rw [hs]
    simp [LogSys.stream]
  have hlimit : s'.limit = s.limit + msg.length := by rw [hs]
  have hbase' : s'.base = s.base := by
    simp only [LogSys.base, hstream, hlimit, List.length_append]
    omega
  have hwriter : ∀ t' w', s'.writer t' = some w' →
      (t' = t ∧ w' = ⟨msg, s.limit, 0, s.stream.length⟩) ∨ (t' ≠ t ∧ s.writer t' = some w') := by
    intro t' w' hw'
    rw [hs] at hw'
    by_cases htt : t' = t
    · subst htt
      exact Or.inl ⟨rfl, by simpa [eq_comm] using hw'⟩
    · exact Or.inr ⟨htt, by simpa [htt] using hw'⟩
  have hpend : ∀ i, s.Pending i → s'.Pending i := by
    rintro i ⟨t', w', hw', hlo, hhi⟩
    have htt : t' ≠ t := by
      rintro rfl
      rw [hout] at hw'
      cases hw'
    exact ⟨t', w', by rw [hs]; simpa [htt] using hw', hlo, hhi⟩
  refine ⟨?_, ?_, ?_, ?_, ?_, ?_, ?_⟩
  · have := h.offset_le
    rw [hs]
    simp only
    omega
  · have := h.limit_le
    rw [hlimit, hstream, List.length_append]
    omega
  · have := h.offset_le
    rw [hbase', hstream, List.take_append_of_le_length (by rw [hs]; simp only; omega)]
    rw [hs]
    exact h.sent_eq
  · intro t' w' hw' hlt
    rcases hwriter t' w' hw' with ⟨-, rfl⟩ | ⟨-, hw'⟩
    · refine ⟨by rw [hbase']; exact hbase.symm, Nat.le_of_eq hlimit.symm, fun i hi => ?_⟩
      rw [hstream, List.getElem?_append_right (Nat.le_add_right _ _), Nat.add_sub_cancel_left]
    · rcases h.place t' w' hw' hlt with ⟨hpos, hend, hmsg⟩
      refine ⟨by rw [hbase', hpos], by rw [hlimit]; omega, fun i hi => ?_⟩
      rw [hstream, List.getElem?_append_left (by omega)]
      exact hmsg i hi
  · intro t1 t2 w1 w2 hw1 hw2 hne hlt1 hlt2
    rcases hwriter t1 w1 hw1 with ⟨rfl, rfl⟩ | ⟨hne1, hw1⟩
    · rcases hwriter t2 w2 hw2 with ⟨rfl, -⟩ | ⟨-, hw2⟩
      · exact absurd rfl hne
      · exact Or.inr (h.place t2 w2 hw2 hlt2).2.1
    · rcases hwriter t2 w2 hw2 with ⟨rfl, rfl⟩ | ⟨-, hw2⟩
      · exact Or.inl (h.place t1 w1 hw1 hlt1).2.1
      · exact h.disjoint t1 t2 w1 w2 hw1 hw2 hne hlt1 hlt2
  · intro i hi hnp
    rw [hlimit] at hi
    by_cases hlt : i < s.limit
    · rw [hbase', hstream, List.getElem?_append_left (by omega)]
      rw [hs]
      exact h.content i hlt fun hp => hnp (hpend i hp)
    · -- the new space is all still to be stored
      refine absurd ⟨t, ⟨msg, s.limit, 0, s.stream.length⟩, ?_, ?_, hi⟩ hnp
      · rw [hs]
        simp
      · show s.limit + 0 ≤ i
        omega
  · rintro i ⟨t', w', hw', hlo, hhi⟩
    have hoff : s'.offset = s.offset := by rw [hs]
    rw [hoff]
    rcases hwriter t' w' hw' with ⟨-, rfl⟩ | ⟨-, hw'⟩
    · have := h.offset_le
      simp only at hlo
      omega
    · exact h.unsent i ⟨t', w', hw', hlo, hhi⟩

/-- Storing a byte of the message. -/
theorem LogInv.copy (h : LogInv s) {b : BitVec 8} (hw : s.writer t = some w)
    (hb : w.msg[w.copied]? = some b) : LogInv (logBufCopy s t w b) := by
  have hlt : w.copied < w.msg.length := (List.getElem?_eq_some_iff.mp hb).1
  rcases h.place t w hw hlt with ⟨hpos, hend, hmsg⟩
  have hwriter : ∀ t' w', (logBufCopy s t w b).writer t' = some w' →
      (t' = t ∧ w' = { w with copied := w.copied + 1 }) ∨ (t' ≠ t ∧ s.writer t' = some w') := by
    intro t' w' hw'
    by_cases htt : t' = t
    · subst htt
      exact Or.inl ⟨rfl, by simpa [logBufCopy, eq_comm] using hw'⟩
    · exact Or.inr ⟨htt, by simpa [logBufCopy, htt] using hw'⟩
  -- what is still to be stored afterwards was so before, and it is not the byte just stored
  have hpend : ∀ i, (logBufCopy s t w b).Pending i → s.Pending i ∧ i ≠ w.dest + w.copied := by
    rintro i ⟨t', w', hw', hlo, hhi⟩
    rcases hwriter t' w' hw' with ⟨rfl, rfl⟩ | ⟨hne, hw'⟩
    · simp only at hlo hhi
      exact ⟨⟨t', w, hw, by omega, hhi⟩, by omega⟩
    · have hlt' : w'.copied < w'.msg.length := by omega
      have := h.disjoint t' t w' w hw' hw hne hlt' hlt
      exact ⟨⟨t', w', hw', hlo, hhi⟩, by omega⟩
  have hback : ∀ i, s.Pending i → i ≠ w.dest + w.copied → (logBufCopy s t w b).Pending i := by
    rintro i ⟨t', w', hw', hlo, hhi⟩ hi
    by_cases htt : t' = t
    · subst htt
      rw [hw] at hw'
      cases hw'
      refine ⟨t', { w with copied := w.copied + 1 }, by simp [logBufCopy], ?_, hhi⟩
      simp only
      omega
    · exact ⟨t', w', by simpa [logBufCopy, htt] using hw', hlo, hhi⟩
  refine ⟨h.offset_le, h.limit_le, h.sent_eq, ?_, ?_, ?_, ?_⟩
  · intro t' w' hw' hlt'
    rcases hwriter t' w' hw' with ⟨-, rfl⟩ | ⟨-, hw'⟩
    · exact ⟨hpos, hend, hmsg⟩
    · exact h.place t' w' hw' hlt'
  · intro t1 t2 w1 w2 hw1 hw2 hne hlt1 hlt2
    rcases hwriter t1 w1 hw1 with ⟨rfl, rfl⟩ | ⟨-, hw1'⟩
    · rcases hwriter t2 w2 hw2 with ⟨rfl, -⟩ | ⟨-, hw2'⟩
      · exact absurd rfl hne
      · exact h.disjoint t1 t2 w w2 hw hw2' hne hlt hlt2
    · rcases hwriter t2 w2 hw2 with ⟨rfl, rfl⟩ | ⟨-, hw2'⟩
      · exact h.disjoint t1 t2 w1 w hw1' hw hne hlt1 hlt
      · exact h.disjoint t1 t2 w1 w2 hw1' hw2' hne hlt1 hlt2
  · intro i hi hnp
    show s.stream[s.base + i]? = some (Function.update s.buf (w.dest + w.copied) b i)
    by_cases hidx : i = w.dest + w.copied
    · rw [hidx, Function.update_self, ← hb, ← hmsg w.copied hlt, hpos, Nat.add_assoc]
    · rw [Function.update_of_ne hidx]
      exact h.content i hi fun hp => hnp (hback i hp hidx)
  · exact fun i hi => h.unsent i (hpend i hi).1

theorem LogInv.leave (h : LogInv s) (hw : s.writer t = some w) (hdone : w.copied = w.msg.length) :
    LogInv { s with writer := Function.update s.writer t none } := by
  have hwriter : ∀ t' w', Function.update s.writer t none t' = some w' → s.writer t' = some w' := by
    intro t' w' hw'
    by_cases htt : t' = t
    · subst htt
      simp at hw'
    · simpa [htt] using hw'
  have hpend : ∀ i, LogSys.Pending { s with writer := Function.update s.writer t none } i ↔
      s.Pending i := by
    refine fun i => ⟨?_, ?_⟩
    · rintro ⟨t', w', hw', hi⟩
      exact ⟨t', w', hwriter t' w' hw', hi⟩
    · rintro ⟨t', w', hw', hlo, hhi⟩
      have htt : t' ≠ t := by
        rintro rfl
        rw [hw] at hw'
        cases hw'
        omega
      exact ⟨t', w', by simpa [htt] using hw', hlo, hhi⟩
  exact ⟨h.offset_le, h.limit_le, h.sent_eq,
    fun t' w' hw' hlt => h.place t' w' (hwriter t' w' hw') hlt,
    fun t1 t2 w1 w2 hw1 hw2 => h.disjoint t1 t2 w1 w2 (hwriter t1 w1 hw1) (hwriter t2 w2 hw2),
    fun i hi hnp => h.content i hi fun hp => hnp ((hpend i).mpr hp),
    fun i hi => h.unsent i ((hpend i).mp hi)⟩

theorem LogInv.step (h : LogInv s) (hstep : LogStep StopsInTime s s') : LogInv s' := by
  cases hstep with
  | reserve t msg hnul hout hres => exact h.reserve (logBufReserve_eq hres).2 hout
  | copy t b hw hb => exact h.copy hw hb
  | leave t hw hdone => exact h.leave hw hdone
  | tick ready hR => exact h.drain hR

end Steps

/-- In every run from a zeroed `log_buffer` whose runs of `sync_log_buf_2` all stop in time,
the serial port has got a prefix of the messages in reservation order, the rest is in the
buffer, and no byte is out before its writer stored it, in every state. -/
theorem log_delivered [DecidableEq T] (hrun : ReflTransGen (LogStep StopsInTime) LogSys.init s) :
    Delivered s :=
  (Run.invariant (fun _ _ h hs => h.step hs) hrun LogInv.init).delivered

section Example

variable {R : LogSys Unit → BitVec 8 → (Nat → Bool) → Prop}

/-- The buffer after "AB" has been stored at its start. -/
def abBuf : Nat → BitVec 8 := Function.update (Function.update (fun _ => 0) 0 65) 1 66

/-- "AB" is reserved and copied by the only task. -/
theorem log_ab_copied : ReflTransGen (LogStep R) LogSys.init
    ⟨abBuf, 2, 0, Function.update (fun _ => none) () none, [[65, 66]], []⟩ := by
  have h1 : LogStep R LogSys.init
      ⟨fun _ => 0, 2, 0, fun _ => some ⟨[65, 66], 0, 0, 0⟩, [[65, 66]], []⟩ :=
    .reserve () [65, 66] (by decide) rfl rfl
  have h2 : LogStep R _ _ := .copy (s := ⟨fun _ => 0, 2, 0, fun _ => some ⟨[65, 66], 0, 0, 0⟩,
    [[65, 66]], []⟩) () 65 rfl rfl
  have h3 : LogStep R _ _ := .copy (s := logBufCopy ⟨fun _ => 0, 2, 0,
    fun _ => some ⟨[65, 66], 0, 0, 0⟩, [[65, 66]], []⟩ () ⟨[65, 66], 0, 0, 0⟩ 65) () 66 rfl rfl
  have h4 : LogStep R ⟨abBuf, 2, 0, fun _ => some ⟨[65, 66], 0, 2, 0⟩, [[65, 66]], []⟩ _ :=
    .leave () rfl rfl
  exact (((ReflTransGen.single h1).tail h2).tail h3).tail h4

/-- One task has stored "A" of its "AB" and another one all of its "C": the drain sends "A" and
stops at the byte that is missing. After the copy of "B" the timer sends the rest. -/
theorem log_delivered_in_turn : ∃ s : LogSys Bool,
    ReflTransGen (LogStep StopsInTime) LogSys.init s ∧ s.sent = [65, 66, 67] ∧ Delivered s := by
  have hreserve : ReflTransGen (LogStep (T := Bool) StopsInTime) LogSys.init _ :=
    (ReflTransGen.single (.reserve false [65, 66] (by decide) rfl rfl)).tail
      (.reserve true [67] (by decide) rfl rfl)
  have hcopied := (hreserve.tail (.copy false 65 rfl rfl)).tail (.copy true 67 rfl rfl)
  have hmissing := hcopied.tail (.tick (fun _ => true) (by
    rintro i - - ⟨t, w, hw, hlo, hhi⟩
    refine Or.inr ⟨1, by decide, ?_, rfl, rfl⟩
    cases t with
    | false =>
      obtain rfl : ⟨[65, 66], 0, 1, 0⟩ = w := Option.some.inj hw
      exact hlo
    | true =>
      obtain rfl : ⟨[67], 2, 1, 2⟩ = w := Option.some.inj hw
      exact absurd hlo (Nat.not_le_of_lt hhi)))
  have hall := (hmissing.tail (.copy false 66 rfl rfl)).tail (.tick (fun _ => true) (by
    rintro i - - ⟨t, w, hw, hlo, hhi⟩
    cases t with
    | false =>
      obtain rfl : ⟨[65, 66], 0, 2, 0⟩ = w := Option.some.inj hw
      exact absurd hlo (Nat.not_le_of_lt hhi)
    | true =>
      obtain rfl : ⟨[67], 2, 1, 2⟩ = w := Option.some.inj hw
      exact absurd hlo (Nat.not_le_of_lt hhi)))
  exact ⟨_, hall, rfl, log_delivered hall⟩

/-- A second message "CD" is reserved in the space of the first, and the timer comes before
its first byte is copied: "AB" goes out again. -/
theorem log_resends_old_bytes : ∃ s : LogSys Unit,
    ReflTransGen (LogStep fun _ _ _ => True) LogSys.init s ∧
      s.sent = [65, 66, 65, 66] ∧ s.stream = [65, 66, 67, 68] ∧ ¬ s.sent <+: s.stream := by
  have h1 : LogStep (fun _ _ _ => True) _ _ := .tick (s := ⟨abBuf, 2, 0,
    Function.update (fun _ => none) () none, [[65, 66]], []⟩) (fun _ => true) trivial
  have h2 : LogStep (fun _ _ _ => True)
      ⟨abBuf, 0, 0, Function.update (fun _ => none) () none, [[65, 66]], [65, 66]⟩ _ :=
    .reserve () [67, 68] (by decide) rfl rfl
  have h3 : LogStep (fun _ _ _ => True) _ _ := .tick (s := ⟨abBuf, 2, 0,
    Function.update (Function.update (fun _ => none) () none) () (some ⟨[67, 68], 0, 0, 2⟩),
    [[65, 66], [67, 68]], [65, 66]⟩) (fun _ => true) trivial
  exact ⟨_, ((log_ab_copied.tail h1).tail h2).tail h3, rfl, rfl, by decide⟩

end Example

end MockOs.Kernel
