import MockOs.Kernel.LogMem
import MockOs.Kernel.Proofs.Log
import MockOs.Misc.Run

/-!
# The bounds of the log buffer

A call of `log_buf` may hold an old value of the limit word, or a reserved range of the buffer,
while others reserve and the timer resets the words. What keeps its stores inside the buffer is
said of the values in its own registers: an old limit is at most 2048, and a reserved range was
inside the buffer when it was reserved.
-/

namespace MockOs.Kernel

open Bytes Relation

/-- What the registers of a call hold, whatever the words are by now. -/
def LogCall.Safe : LogCall → Prop
  | .addLoop edx => edx.toNat < 2 ^ 30
  | .loaded eax edx => eax.toNat ≤ bufferSize ∧ edx.toNat < 2 ^ 30
  | .cas eax ecx edx => ecx.toNat = eax.toNat + edx.toNat ∧ ecx.toNat ≤ bufferSize
  | .reserved eax len => len.toNat ≤ eax.toNat ∧ eax.toNat ≤ bufferSize
  | .movsb edi ecx => 16 ≤ edi.toNat ∧ edi.toNat + ecx.toNat ≤ 16 + bufferSize

/-- The words of the buffer. -/
def WordsOk (m : Nat → BitVec 8) : Prop :=
  (load32 m 8).toNat ≤ (load32 m 0).toNat ∧ (load32 m 0).toNat ≤ bufferSize

instance : DecidablePred WordsOk := fun _ => inferInstanceAs (Decidable (_ ∧ _))

/-- A byte of the data does not touch the words. -/
theorem WordsOk.store_data {m : Nat → BitVec 8} (h : WordsOk m) (b : BitVec 8) {a : Nat}
    (ha : 16 ≤ a) : WordsOk (store m a b) := by
  unfold WordsOk
  rw [load32_store_other b (by omega), load32_store_other b (by omega)]
  exact h

/-! ## A call goes on -/

/-- The comparison with `buffer_size` is signed. -/
theorem slt_of_lt {x : BitVec 32} (h : x.toNat < 2 ^ 31) :
    (2048#32).slt x = decide (bufferSize < x.toNat) := by
  have hx : x.toInt = x.toNat := BitVec.toInt_eq_toNat_of_lt (by omega)
  have hsize : (2048#32).toInt = (bufferSize : Int) := rfl
  rw [BitVec.slt_eq_decide, hx, hsize]
  exact decide_eq_decide.mpr Int.ofNat_lt

theorem toNat_pos {x : BitVec 32} (h : x ≠ 0) : 0 < x.toNat :=
  Nat.pos_of_ne_zero fun hzero => h (BitVec.eq_of_toNat_eq hzero)

variable {m : Nat → BitVec 8} {c : LogCall}

/-- Where a safe call stores. -/
theorem LogCall.Safe.dest (h : c.Safe) : ∀ a ∈ c.dest, 16 ≤ a ∧ a < 16 + bufferSize := by
  intro a ha
  cases c with
  | movsb edi ecx =>
    have hmore : ecx ≠ 0 ∧ edi.toNat = a := by simpa [LogCall.dest] using ha
    have hpos := toNat_pos hmore.1
    rcases h with ⟨hlow, hhigh⟩
    omega
  | _ => simp [LogCall.dest] at ha

theorem LogCall.Safe.step (hc : c.Safe) (hm : WordsOk m) (b : BitVec 8) :
    WordsOk (logBufStep m b c).1 ∧ ∀ c' ∈ (logBufStep m b c).2, c'.Safe := by
  cases c with
  | addLoop edx =>
    refine ⟨hm, ?_⟩
    rintro c' ⟨rfl⟩
    exact ⟨hm.2, hc⟩
  | loaded eax edx =>
    rcases hc with ⟨heax, hedx⟩
    have hsum : (eax + edx).toNat = eax.toNat + edx.toNat := by
      unfold bufferSize at heax
      bv_omega
    have hsmall : (eax + edx).toNat < 2 ^ 31 := by
      unfold bufferSize at heax
      omega
    rw [logBufStep, slt_of_lt hsmall]
    split
    · refine ⟨hm, ?_⟩
      rintro c' ⟨rfl⟩
      exact hedx
    · rename_i hroom
      refine ⟨hm, ?_⟩
      rintro c' ⟨rfl⟩
      have hle : (eax + edx).toNat ≤ bufferSize := by simpa using hroom
      exact ⟨hsum, hle⟩
  | cas eax ecx edx =>
    rcases hc with ⟨hsum, hle⟩
    rw [logBufStep]
    split
    · -- the limit was still what the call had loaded, so it only grows
      rename_i hsame
      refine ⟨?_, ?_⟩
      · unfold WordsOk
        rw [load32_store_other ecx (by decide), load32_store32]
        have hoffset := hm.1
        rw [hsame] at hoffset
        omega
      · rintro c' ⟨rfl⟩
        have hlen : edx.toNat ≤ ecx.toNat := by omega
        exact ⟨hlen, hle⟩
    · refine ⟨hm, ?_⟩
      rintro c' ⟨rfl⟩
      unfold bufferSize at hle
      have hlen : edx.toNat < 2 ^ 30 := by omega
      exact hlen
  | reserved eax len =>
    rcases hc with ⟨hlen, hle⟩
    unfold bufferSize at hle
    refine ⟨hm, ?_⟩
    rintro c' ⟨rfl⟩
    have hedi : (eax + 16 - len).toNat = eax.toNat + 16 - len.toNat := by bv_omega
    refine ⟨?_, ?_⟩
    · omega
    · unfold bufferSize
      omega
  | movsb edi ecx =>
    rcases hc with ⟨hlow, hhigh⟩
    rw [logBufStep]
    split
    · exact ⟨hm, by simp⟩
    · rename_i hmore
      have hpos := toNat_pos hmore
      refine ⟨hm.store_data b hlow, ?_⟩
      rintro c' ⟨rfl⟩
      unfold bufferSize at hhigh
      have hedi : (edi + 1).toNat = edi.toNat + 1 := by bv_omega
      have hecx : (ecx - 1).toNat = ecx.toNat - 1 := by bv_omega
      refine ⟨?_, ?_⟩
      · omega
      · unfold bufferSize
        omega

/-! ## `sync_log_buf_2` -/

namespace LogMem

/-- The words and the data as the log of `LogSys`, with no calls and nothing sent. -/
def view (T : Type) (m : Nat → BitVec 8) : LogSys T where
  buf := fun i => m (16 + i)
  limit := (load32 m 0).toNat
  offset := (load32 m 8).toNat
  writer := fun _ => none
  msgs := []
  sent := []

/-- The loop reads the data at 16 further on. -/
theorem drainLoop_view (ah : BitVec 8) (ready : Nat → Bool) (m : Nat → BitVec 8) (ecx esi k : Nat)
    (hsmall : 16 + esi + ecx ≤ 2 ^ 32) :
    drainLoop ah ready (fun a => m (a % 2 ^ 32)) ecx (16 + esi) k =
      drainLoop ah ready (fun i => m (16 + i)) ecx esi k := by
  induction ecx generalizing esi k with
  | zero => rfl
  | succ ecx ih =>
    have hbyte : (16 + esi) % 2 ^ 32 = 16 + esi := Nat.mod_eq_of_lt (by omega)
    have hrest := ih (esi + 1) (k + 1) (by omega)
    rw [← Nat.add_assoc] at hrest
    rw [drainLoop, drainLoop, hrest]
    simp only [hbyte]

/-- On words in bounds, the bytes are drained as in `LogSys`. -/
theorem view_syncLogBuf2 (T : Type) (ah : BitVec 8) (ready : Nat → Bool) (h : WordsOk m) :
    (view T (syncLogBuf2 ah ready m)).limit = (Kernel.syncLogBuf2 ah ready (view T m)).limit ∧
    (view T (syncLogBuf2 ah ready m)).offset = (Kernel.syncLogBuf2 ah ready (view T m)).offset := by
  rcases h with ⟨hoffset, hlimit⟩
  unfold bufferSize at hlimit
  have hecx : (load32 m 0 - load32 m 8).toNat = (load32 m 0).toNat - (load32 m 8).toNat := by
    bv_omega
  have hesi : (16 + load32 m 8).toNat = 16 + (load32 m 8).toNat := by bv_omega
  have hzero : load32 m 0 - load32 m 8 = 0 ↔ (load32 m 0).toNat - (load32 m 8).toNat = 0 := by
    rw [← hecx]
    exact BitVec.toNat_eq
  have hloop := drainLoop_view ah ready m ((load32 m 0).toNat - (load32 m 8).toNat)
    (load32 m 8).toNat 0 (by omega)
  obtain ⟨n, hn, hleft, -⟩ := drainLoop_spec ah ready (fun i => m (16 + i))
    ((load32 m 0).toNat - (load32 m 8).toNat) (load32 m 8).toNat 0
  rw [syncLogBuf2, Kernel.syncLogBuf2]
  simp only [view, hesi, hecx, hloop, hleft]
  by_cases hempty : load32 m 0 - load32 m 8 = 0
  · rw [if_pos hempty, if_pos (hzero.mp hempty)]
    exact ⟨rfl, rfl⟩
  · rw [if_neg hempty, if_neg (mt hzero.mpr hempty)]
    split
    · rw [load32_store_other _ (by decide), load32_store32, load32_store32]
      exact ⟨rfl, rfl⟩
    · rw [load32_store_other _ (by decide), load32_store32]
      refine ⟨rfl, ?_⟩
      show (load32 m 8 + (load32 m 0 - load32 m 8 - BitVec.ofNat 32 _)).toNat = _
      bv_omega

/-- The drain moves the offset up to the limit at most, or resets both. -/
theorem syncLogBuf2_wordsOk (h : WordsOk m) (ah : BitVec 8) (ready : Nat → Bool) :
    WordsOk (syncLogBuf2 ah ready m) := by
  obtain ⟨hlimit, hoffset⟩ := view_syncLogBuf2 Unit ah ready h
  obtain ⟨n, hn, hloop, -⟩ := drainLoop_spec ah ready (view Unit m).buf
    ((view Unit m).limit - (view Unit m).offset) (view Unit m).offset 0
  have hle : (view Unit m).offset ≤ (view Unit m).limit ∧ (view Unit m).limit ≤ bufferSize := h
  suffices hwords : (Kernel.syncLogBuf2 ah ready (view Unit m)).offset ≤
      (Kernel.syncLogBuf2 ah ready (view Unit m)).limit ∧
      (Kernel.syncLogBuf2 ah ready (view Unit m)).limit ≤ bufferSize by
    rw [← hlimit, ← hoffset] at hwords
    exact hwords
  rw [Kernel.syncLogBuf2, hloop]
  dsimp only
  split
  · exact hle
  · split
    · exact ⟨Nat.le_refl 0, Nat.zero_le _⟩
    · refine ⟨?_, hle.2⟩
      show (view Unit m).offset + _ ≤ (view Unit m).limit
      omega

/-! ## Every run -/

variable {T : Type} {s s' : LogMem T}

/-- The words, the registers of every call, and every store so far. -/
structure InBounds (s : LogMem T) : Prop where
  words : WordsOk s.mem
  call : ∀ t c, s.call t = some c → c.Safe
  stored : ∀ a ∈ s.stored, 16 ≤ a ∧ a < 16 + bufferSize

theorem InBounds.init : InBounds (init : LogMem T) where
  words := by
    show WordsOk fun _ => 0
    decide
  call := by
    intro t c hc
    cases hc
  stored := by
    intro a ha
    cases ha

variable [DecidableEq T]

/-- One call goes on, the others stay where they are. -/
theorem safe_update {call : T → Option LogCall} (h : ∀ t c, call t = some c → c.Safe) (t : T)
    {next : Option LogCall} (hnext : ∀ c ∈ next, c.Safe) :
    ∀ u c, Function.update call t next u = some c → c.Safe := by
  intro u c hc
  rcases eq_or_ne u t with rfl | hne
  · rw [Function.update_self] at hc
    exact hnext c hc
  · rw [Function.update_of_ne hne] at hc
    exact h u c hc

theorem InBounds.step (h : InBounds s) (hstep : Step s s') : InBounds s' := by
  cases hstep with
  | enter t len hlen hout =>
    refine { h with call := safe_update h.call t ?_ }
    rintro c ⟨rfl⟩
    exact hlen
  | next t b hc =>
    rename_i c
    have hsafe := h.call t c hc
    obtain ⟨hwords, hnext⟩ := hsafe.step h.words b
    refine ⟨hwords, safe_update h.call t hnext, ?_⟩
    intro a ha
    rcases List.mem_append.mp ha with hold | hnew
    · exact h.stored a hold
    · exact hsafe.dest a (Option.mem_toList.mp hnew)
  | tick ah ready => exact { h with words := syncLogBuf2_wordsOk h.words ah ready }

/-- In every reachable state the offset is at most the limit and the limit at most 2048, and
every byte that a call has stored is in `log_buffer[16 .. 2063]`. -/
theorem log_buffer_bounds (hrun : ReflTransGen Step (init : LogMem T) s) :
    s.offset.toNat ≤ s.limit.toNat ∧ s.limit.toNat ≤ 2048 ∧ ∀ a ∈ s.stored, 16 ≤ a ∧ a ≤ 2063 := by
  have hbounds := Run.invariant (P := InBounds) (fun _ _ h hstep => h.step hstep) hrun InBounds.init
  refine ⟨hbounds.words.1, hbounds.words.2, ?_⟩
  intro a ha
  have hrange := hbounds.stored a ha
  unfold bufferSize at hrange
  omega

/-- Two calls have read the limit 0. The first `cmpxchg` stores 1; the other one fails on the
stale limit and its call takes the next byte. -/
theorem log_buffer_bounds_stale : ∃ s : LogMem Bool, ReflTransGen Step init s ∧
    s.stored = [17, 16] ∧ s.limit = 2 ∧ s.offset.toNat ≤ s.limit.toNat ∧ s.limit.toNat ≤ 2048 ∧
    ∀ a ∈ s.stored, 16 ≤ a ∧ a ≤ 2063 := by
  have henter := (ReflTransGen.single (Step.enter (s := init) false 1 (by decide) rfl)).tail
    (.enter true 1 (by decide) rfl)
  have hread := (henter.tail (.next false 65 rfl)).tail (.next true 66 rfl)
  have hsum := (hread.tail (.next false 65 rfl)).tail (.next true 66 rfl)
  have hstale := (hsum.tail (.next false 65 rfl)).tail (.next true 66 rfl)
  -- the second call again, up to its return
  have hagain := ((hstale.tail (.next true 66 rfl)).tail (.next true 66 rfl)).tail
    (.next true 66 rfl)
  have hcopy := ((hagain.tail (.next true 66 rfl)).tail (.next true 66 rfl)).tail
    (.next true 66 rfl)
  have hend := ((hcopy.tail (.next false 65 rfl)).tail (.next false 65 rfl)).tail
    (.next false 65 rfl)
  exact ⟨_, hend, rfl, rfl, log_buffer_bounds hend⟩

end LogMem

end MockOs.Kernel
