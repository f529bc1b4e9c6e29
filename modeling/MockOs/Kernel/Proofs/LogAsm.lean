import MockOs.Kernel.Proofs.Drain
import MockOs.Kernel.Proofs.SyncAsm

/-!
# `log_buf` with interrupts off

The overflow path of `atomic_add` means to drain the buffer when interrupts are off and to
wait for the timer when they are on. Between the test of the interrupt flag and the jump that
is to look at its result, `add esp, 4` sets the flags anew: ZF is that of the stack pointer, so
the jump is taken and the drain is never called. With interrupts off `log_buf` returns exactly
if the message fits.
-/

namespace MockOs.Kernel

open X86

variable {lb : BitVec 32} {port : Nat → BitVec 8} {s : State}

/-- The stack of `log_buf` at `add_loop`, with the return address of `atomic_add` on top. -/
def logBufFrame (s : State) : BitVec 32 → BitVec 32 :=
  let f := Function.update s.stack (s.esp - 4) s.ebp
  let f := Function.update f (s.esp - 8) s.esi
  let f := Function.update f (s.esp - 12) s.edi
  let f := Function.update f (s.esp - 16) s.ds
  let f := Function.update f (s.esp - 20) s.es
  Function.update f (s.esp - 24) 27

/-- The way from the entry of `log_buf` to `add_loop`. -/
theorem logBuf_enter (h : s.eip = logBufEntry) : logRun lb port 10 s =
    { s with
      eax := State.low16 s.eax 0x1b
      edx := s.stack (s.esp + 8)
      ebp := s.esp - 4
      esp := s.esp - 24
      ds := State.low16 s.ds (State.low16 s.eax 0x1b)
      stack := logBufFrame s
      eip := addLoop } := by
  have hblock : logRun lb port 9 s = _ := run_stretch 9 h rfl rfl
  simp only [logCode, logBufEntry, List.drop, List.take, List.foldl, State.exec, State.next, State.jump,
    State.push, State.read, State.get, State.write, State.set] at hblock
  rw [h] at hblock
  rw [logRun_add 1 9, hblock, logRun_succ 0, step_at (i := .call addLoop) rfl]
  simp only [logRun, Function.iterate_zero, id, State.exec, State.push, State.jump, logBufFrame, logBufEntry]
  simp [BitVec.sub_eq_add_neg, BitVec.add_assoc]

/-- The condition of `jg` behind `cmp ecx, buffer_size`. -/
theorem jg_iff {c : BitVec 32} (h : c.toNat ≤ 4096) :
    (!(c - 2048 == 0) && (c - 2048).msb == c.ssubOverflow 2048) = decide (2048 < c.toNat) := by
  have hsmall : c.msb = false := by
    rw [BitVec.msb_eq_decide, decide_eq_false_iff_not]
    omega
  have hint : c.toInt = c.toNat := BitVec.toInt_eq_toNat_of_msb hsmall
  have hover : c.ssubOverflow 2048 = false := by
    simp only [BitVec.ssubOverflow, hint]
    simp
    omega
  have hzero : c - 2048 = 0 ↔ c.toNat = 2048 := by bv_omega
  have hmsb : (c - 2048).msb = decide (c.toNat < 2048) := by
    rw [BitVec.msb_eq_decide, decide_eq_decide]
    bv_omega
  have heq : (c - 2048 == 0) = decide (c.toNat = 2048) := by
    rw [Bool.eq_iff_iff, beq_iff_eq, decide_eq_true_iff, hzero]
  rw [hover, hmsb, heq]
  rcases Nat.lt_trichotomy c.toNat 2048 with hlt | heq | hgt
  · simp [hlt, Nat.le_of_lt hlt]
  · simp [heq]
  · simp [hgt, Nat.le_of_lt hgt, Nat.ne_of_gt hgt]

/-- The state at the `jg` of `add_loop`. -/
def afterCmp (lb : BitVec 32) (s : State) : State :=
  { s with
    eax := s.word lb
    ecx := s.word lb + s.edx
    zf := s.word lb + s.edx - 2048 == 0
    sf := (s.word lb + s.edx - 2048).msb
    of := (s.word lb + s.edx).ssubOverflow 2048
    eip := 4 }

theorem add_loop_cmp (h : s.eip = addLoop) : logRun lb port 4 s = afterCmp lb s := by
  have hblock : logRun lb port 4 s = _ := run_stretch 4 h rfl rfl
  simp only [logCode, addLoop, List.drop, List.take, List.foldl, State.exec, State.next, State.jump,
    State.read, State.get, State.write, State.set, State.flags] at hblock
  rw [hblock]
  simp [afterCmp, h, addLoop]

/-- The message fits: `cmpxchg` stores the new limit and `atomic_add` returns it. -/
theorem add_fits (h : s.eip = addLoop) (hfits : (s.word lb + s.edx).toNat ≤ 2048) :
    logRun lb port 9 s =
      { s with
        eax := s.word lb + s.edx
        ecx := s.word lb + s.edx
        esp := s.esp + 4
        zf := true
        sf := false
        of := (s.word lb).ssubOverflow (s.word lb)
        word := Function.update s.word lb (s.word lb + s.edx)
        eip := (s.stack s.esp).toNat } := by
  have hg := jg_iff (c := s.word lb + s.edx) (by omega)
  rw [decide_eq_false (by omega)] at hg
  have hjg : (afterCmp lb s).step port (logCode lb) = (afterCmp lb s).next :=
    step_jcc_not (c := .g) rfl hg
  rw [logRun_add 5 4, add_loop_cmp h, logRun_succ 4, hjg, logRun_succ 3,
    step_at (i := .cmpxchg (.mem lb) .ecx) rfl]
  simp only [afterCmp, State.exec, State.read, State.flags, State.next, State.jump, State.write, State.get,
    BitVec.sub_self, if_true]
  rw [logRun_succ 2, step_jcc_not (c := .nz) rfl rfl, logRun_succ 1,
    step_at (i := .mov (.reg .eax) (.reg .ecx)) rfl, logRun_succ 0, step_at (i := .ret) rfl]
  rfl

/-! ## The overflow path -/

/-- `pushf`, `test` and `add esp, 4`: ZF is that of the stack pointer. -/
theorem try_block (h : s.eip = atomicAddTry) : logRun lb port 3 s =
    { s with
      zf := s.esp == 0
      sf := s.esp.msb
      of := (s.esp - 4).saddOverflow 4
      stack := Function.update s.stack (s.esp - 4) s.eflags
      eip := 12 } := by
  have hblock : logRun lb port 3 s = _ := run_stretch 3 h rfl rfl
  simp only [logCode, atomicAddTry, List.drop, List.take, List.foldl, State.exec, State.next,
    State.jump, State.push, State.read, State.get, State.write, State.set, State.flags] at hblock
  rw [hblock, BitVec.sub_add_cancel, h]
  rfl

/-- The state at the `jnz` of `atomic_add_try`. -/
def afterTry (lb : BitVec 32) (s : State) : State :=
  { s with
    eax := s.word lb
    ecx := s.word lb + s.edx
    zf := s.esp == 0
    sf := s.esp.msb
    of := (s.esp - 4).saddOverflow 4
    stack := Function.update s.stack (s.esp - 4) (afterCmp lb s).eflags
    eip := 12 }

theorem add_overflow (h : s.eip = addLoop) (hbig : 2048 < (s.word lb + s.edx).toNat)
    (hsum : (s.word lb + s.edx).toNat ≤ 4096) :
    logRun lb port 5 s = (afterCmp lb s).jump atomicAddTry ∧
      logRun lb port 8 s = afterTry lb s := by
  have hg := jg_iff hsum
  rw [decide_eq_true hbig] at hg
  have hjg : (afterCmp lb s).step port (logCode lb) = (afterCmp lb s).jump atomicAddTry :=
    step_jcc (c := .g) rfl hg
  have hjump : logRun lb port 5 s = (afterCmp lb s).jump atomicAddTry := by
    rw [logRun_add 1 4, add_loop_cmp h, logRun_succ 0, hjg]
    rfl
  refine ⟨hjump, ?_⟩
  rw [logRun_add 3 5, hjump, try_block rfl]
  rfl

theorem add_overflow_eip (h : s.eip = addLoop) (hbig : 2048 < (s.word lb + s.edx).toNat)
    (hsum : (s.word lb + s.edx).toNat ≤ 4096) {j : Nat} (hj : j < 9) :
    (logRun lb port j s).eip < logBufRet := by
  rcases Nat.lt_or_ge j 5 with hlt | hge
  · have heip : (logRun lb port j s).eip = s.eip + j :=
      run_block_eip (l := ((logCode lb).drop 0).take 4) (by rw [h]; exact List.take_prefix _ _) rfl
        (by simp [logCode]; omega)
    rw [heip, h, addLoop, logBufRet]
    omega
  · obtain ⟨i, rfl⟩ : ∃ i, j = i + 5 := ⟨j - 5, by omega⟩
    have heip : (logRun lb port i ((afterCmp lb s).jump atomicAddTry)).eip = 9 + i :=
      run_block_eip (l := ((logCode lb).drop 9).take 3) (List.take_prefix _ _) rfl
        (by simp [logCode]; omega)
    rw [logRun_add i 5, (add_overflow h hbig hsum).1, heip, logBufRet]
    omega

/-- With a stack pointer other than 0 the jump goes back to `add_loop`. -/
theorem add_retries (h : s.eip = addLoop) (hbig : 2048 < (s.word lb + s.edx).toNat)
    (hsum : (s.word lb + s.edx).toNat ≤ 4096) (hesp : s.esp ≠ 0) :
    logRun lb port 9 s = (afterTry lb s).jump addLoop := by
  have hjnz : (afterTry lb s).step port (logCode lb) = (afterTry lb s).jump addLoop :=
    step_jcc (c := .nz) rfl (by simpa [State.holds, afterTry] using hesp)
  rw [logRun_add 1 8, (add_overflow h hbig hsum).2, logRun_succ 0, hjnz]
  rfl

/-- The stack pointer is 0: `sync_log_buf_2` is called, with EDX and the return address on the
stack. -/
theorem add_calls (h : s.eip = addLoop) (hbig : 2048 < (s.word lb + s.edx).toNat)
    (hsum : (s.word lb + s.edx).toNat ≤ 4096) (hesp : s.esp = 0) :
    (logRun lb port 9 s).eip = 13 ∧ (logRun lb port 10 s).eip = 14 ∧
    ∃ z f o, logRun lb port 11 s =
      { s with
        eax := s.word lb
        ecx := s.word lb + s.edx
        esp := s.esp - 8
        zf := z
        sf := f
        of := o
        stack := Function.update (Function.update s.stack (s.esp - 4) s.edx) (s.esp - 8) 15
        eip := syncEntry } := by
  have hjnz : (afterTry lb s).step port (logCode lb) = (afterTry lb s).next :=
    step_jcc_not (c := .nz) rfl (by simp [State.holds, afterTry, hesp])
  have hnine : logRun lb port 9 s = (afterTry lb s).next := by
    rw [logRun_add 1 8, (add_overflow h hbig hsum).2, logRun_succ 0, hjnz]
    rfl
  have hten : logRun lb port 10 s = _ := logRun_add 1 9 s
  rw [hnine, logRun_succ 0, step_at (i := .push (.reg .edx)) rfl] at hten
  have heleven : logRun lb port 11 s = _ := logRun_add 1 10 s
  rw [hten, logRun_succ 0, step_at (i := .call syncEntry) rfl] at heleven
  refine ⟨by rw [hnine]; rfl, by rw [hten]; rfl, s.esp == 0, s.esp.msb, (s.esp - 4).saddOverflow 4, ?_⟩
  rw [heleven]
  simp [logRun_zero, State.exec, State.push, State.jump, State.next, State.read, State.get, afterTry,
    BitVec.sub_sub]

/-! ## The drain -/

/-- A port that is always ready and bytes other than NUL: all of them go out. -/
theorem drainLoop_all {ah : BitVec 8} {ready : Nat → Bool} {buf : Nat → BitVec 8}
    (hready : ∀ k, ready k = true) {ecx esi : Nat} (k : Nat)
    (hbuf : ∀ i, esi ≤ i → i < esi + ecx → buf i ≠ 0) :
    drainLoop ah ready buf ecx esi k = ((List.range' esi ecx).map buf, 0) := by
  induction ecx generalizing esi k with
  | zero => rfl
  | succ ecx ih =>
    have hnul : ¬ (ah = 0 ∧ buf esi = 0) := fun h => hbuf esi (Nat.le_refl _) (by omega) h.2
    rw [drainLoop, if_neg (by simp [hready k]), if_neg hnul,
      ih (k + 1) fun i hi hlt => hbuf i (by omega) (by omega), List.range'_succ, List.map_cons]

theorem syncLogBuf2_all {T : Type} {ah : BitVec 8} {ready : Nat → Bool} {log : LogSys T}
    (hready : ∀ k, ready k = true) (hmore : log.offset < log.limit)
    (hbuf : ∀ i < log.limit, log.buf i ≠ 0) :
    syncLogBuf2 ah ready log =
      { log with limit := 0, offset := 0, sent := log.sent ++ log.unsent } := by
  rw [syncLogBuf2, if_neg (by omega), drainLoop_all hready 0 fun i _ hi => hbuf i (by omega)]
  rfl

/-- `pop edx` and `jmp add_loop`. -/
theorem add_again (h : s.eip = 15) : logRun lb port 2 s =
    { s with edx := s.stack s.esp, esp := s.esp + 4, eip := addLoop } := by
  have hblock : logRun lb port 1 s = _ := run_stretch 1 h rfl rfl
  simp only [logCode, List.drop, List.take, List.foldl, State.exec, State.next, State.set,
    State.jump] at hblock
  rw [logRun_add 1 1, hblock, logRun_succ 0, step_at (i := .jmp addLoop) (by rw [h]; rfl)]
  rfl

theorem add_pop_eip (h : s.eip = 15) : (logRun lb port 1 s).eip = 16 := by
  rw [logRun_succ 0, step_at (i := .pop .edx) (by rw [h]; rfl)]
  exact congrArg (· + 1) h

/-- What the drain leaves at `add_loop`: of the stack only five words below the stack pointer
may have changed. -/
structure Retried (lb : BitVec 32) (log : LogSys Unit) (s t : State) : Prop where
  eip : t.eip = addLoop
  esp : t.esp = s.esp
  ebp : t.ebp = s.ebp
  edx : t.edx = s.edx
  stack : ∀ a, (∀ i : Fin 5, a ≠ s.esp - 4 * BitVec.ofNat 32 (i + 1)) → t.stack a = s.stack a
  log : logOf lb t = log

/-- The way back from `sync_log_buf_2`. -/
theorem add_returns (h : s.eip = addLoop) (hbig : 2048 < (s.word lb + s.edx).toNat)
    (hsum : (s.word lb + s.edx).toNat ≤ 4096) (hesp : s.esp = 0) {n : Nat} {log : LogSys Unit}
    (hsync : Synced lb log (logRun lb port 11 s) (logRun lb port n (logRun lb port 11 s))) :
    (logRun lb port (n + 11) s).eip = 15 ∧ Retried lb log s (logRun lb port (2 + (n + 11)) s) := by
  have hcall : _ ∧ _ ∧ ∃ z f o, logRun lb port 11 s = _ := add_calls h hbig hsum hesp
  obtain ⟨-, -, z, f, o, hcall⟩ := hcall
  generalize hu : logRun lb port n (logRun lb port 11 s) = u at hsync
  rw [hcall] at hsync
  obtain ⟨heip, husp, hebp, hstack, hlog⟩ := hsync
  simp only at heip husp hebp hstack hlog
  rw [Function.update_self] at heip
  have hbelow : ∀ a, a ≠ s.esp - 8 → a ≠ s.esp - 12 → a ≠ s.esp - 16 → a ≠ s.esp - 20 →
      u.stack a = Function.update s.stack (s.esp - 4) s.edx a := by
    intro a h8 h12 h16 h20
    rw [hstack a (by bv_omega) (by bv_omega) (by bv_omega), Function.update_of_ne h8]
  have htop : u.esp = s.esp - 4 := by
    rw [husp]
    bv_omega
  rw [logRun_add 2, logRun_add n, hu, add_again heip]
  refine ⟨heip, rfl, ?_, hebp, ?_, ?_, hlog⟩
  · change u.esp + 4 = s.esp
    rw [htop, BitVec.sub_add_cancel]
  · change u.stack u.esp = s.edx
    rw [htop, hbelow _ (by bv_omega) (by bv_omega) (by bv_omega) (by bv_omega),
      Function.update_self]
  · intro a ha
    have h4 : a ≠ s.esp - 4 := ha 0
    have h8 : a ≠ s.esp - 8 := ha 1
    have h12 : a ≠ s.esp - 12 := ha 2
    have h16 : a ≠ s.esp - 16 := ha 3
    have h20 : a ≠ s.esp - 20 := ha 4
    change u.stack a = s.stack a
    rw [hbelow a h8 h12 h16 h20, Function.update_of_ne h4]

/-- With the stack pointer 0 the overflow path does call `sync_log_buf_2` and tries again. -/
theorem add_drains (h : s.eip = addLoop) (hbig : 2048 < (s.word lb + s.edx).toNat)
    (hsum : (s.word lb + s.edx).toNat ≤ 4096) (hesp : s.esp = 0)
    (hwords : (s.word (lb + 8)).toNat ≤ (s.word lb).toNat) :
    ∃ n, Retried lb (syncLogBuf2 (ahOf (s.word lb)) (fun k => portReady port (s.polls + k))
      (logOf lb s)) s (logRun lb port n s) := by
  have hcall : _ ∧ _ ∧ ∃ z f o, logRun lb port 11 s = _ := add_calls h hbig hsum hesp
  obtain ⟨-, -, z, f, o, hcall⟩ := hcall
  have hsync : ∃ n, Synced lb _ _ (logRun lb port n (logRun lb port 11 s)) :=
    sync_run (by rw [hcall]) (by rw [hcall]; exact hwords)
  obtain ⟨n, hsync⟩ := hsync
  have hback := (add_returns h hbig hsum hesp hsync).2
  rw [hcall] at hback
  exact ⟨_, hback⟩

/-! ## No way out -/

/-- At `add_loop` with a message that does not fit, and either the jump to be taken or nothing
to drain. -/
structure Stuck (lb : BitVec 32) (s : State) : Prop where
  eip : s.eip = addLoop
  big : 2048 < (s.word lb + s.edx).toNat
  sum : (s.word lb + s.edx).toNat ≤ 4096
  nothing : s.esp = 0 → s.word lb = s.word (lb + 8)

theorem words_of_logOf {t : State} (h : logOf lb t = logOf lb s) :
    t.word lb = s.word lb ∧ t.word (lb + 8) = s.word (lb + 8) :=
  ⟨BitVec.eq_of_toNat_eq (congrArg LogSys.limit h),
    BitVec.eq_of_toNat_eq (congrArg LogSys.offset h)⟩

/-- The drain that finds nothing to do. -/
theorem add_idle (h : s.eip = addLoop) (hbig : 2048 < (s.word lb + s.edx).toNat)
    (hsum : (s.word lb + s.edx).toNat ≤ 4096) (hesp : s.esp = 0)
    (hzero : s.word lb = s.word (lb + 8)) :
    Retried lb (logOf lb s) s (logRun lb port 20 s) ∧
      ∀ j < 20, (logRun lb port j s).eip ≠ logBufRet := by
  have hcall : (logRun lb port 9 s).eip = _ ∧ (logRun lb port 10 s).eip = _ ∧
      ∃ z f o, logRun lb port 11 s = _ := add_calls h hbig hsum hesp
  obtain ⟨hnine, hten, z, f, o, hcall⟩ := hcall
  have hentry : (logRun lb port 11 s).eip = syncEntry := by rw [hcall]
  have hequal : (logRun lb port 11 s).word lb = (logRun lb port 11 s).word (lb + 8) := by
    rw [hcall]
    exact hzero
  have hreturn : (logRun lb port (7 + 11) s).eip = 15 ∧
      Retried lb _ s (logRun lb port (2 + (7 + 11)) s) :=
    add_returns h hbig hsum hesp (sync_nothing hentry hequal)
  obtain ⟨hback, hretry⟩ := hreturn
  have hlast : (logRun lb port 19 s).eip = 16 := by
    rw [logRun_add 1 18]
    exact add_pop_eip hback
  refine ⟨by rwa [hcall] at hretry, fun j hj => ?_⟩
  rcases Nat.lt_or_ge j 11 with hlt | hge
  · rcases Nat.lt_or_ge j 9 with hlt' | hge'
    · exact Nat.ne_of_lt (add_overflow_eip h hbig hsum hlt')
    · obtain rfl | rfl : j = 9 ∨ j = 10 := by omega
      · rw [hnine, logBufRet]
        omega
      · rw [hten, logBufRet]
        omega
  · rcases Nat.lt_or_ge j 18 with hlt' | hge'
    · have hsync : (logRun lb port (j - 11) (logRun lb port 11 s)).eip ≠ logBufRet :=
        sync_nothing_eip hentry hequal (by omega)
      rwa [← logRun_add, Nat.sub_add_cancel hge] at hsync
    · obtain rfl | rfl : j = 18 ∨ j = 19 := by omega
      · rw [hback, logBufRet]
        omega
      · rw [hlast, logBufRet]
        omega

/-- It comes back to `add_loop` as it left, without a look at the end of `log_buf`. -/
theorem Stuck.cycle (h : Stuck lb s) : ∃ m > 0, Stuck lb (logRun lb port m s) ∧
    ∀ j < m, (logRun lb port j s).eip ≠ logBufRet := by
  obtain ⟨heip, hbig, hsum, hnothing⟩ := h
  by_cases hesp : s.esp = 0
  · have hidle : Retried lb _ s (logRun lb port 20 s) ∧ ∀ j < 20, _ :=
      add_idle heip hbig hsum hesp (hnothing hesp)
    obtain ⟨hretry, hway⟩ := hidle
    obtain ⟨hlimit, hoffset⟩ := words_of_logOf hretry.log
    refine ⟨20, by omega, ⟨hretry.eip, ?_, ?_, fun _ => ?_⟩, hway⟩
    · rw [hlimit, hretry.edx]
      exact hbig
    · rw [hlimit, hretry.edx]
      exact hsum
    · rw [hlimit, hoffset]
      exact hnothing hesp
  · refine ⟨9, by omega, ?_, fun j hj => Nat.ne_of_lt (add_overflow_eip heip hbig hsum hj)⟩
    rw [add_retries heip hbig hsum hesp]
    exact ⟨rfl, hbig, hsum, fun hzero => absurd hzero hesp⟩

theorem Stuck.never (h : Stuck lb s) (n : Nat) : (logRun lb port n s).eip ≠ logBufRet :=
  run_cycle (P := Stuck lb) (Q := fun s => s.eip ≠ logBufRet) (fun _ => Stuck.cycle) h n

/-! ## `log_buf` -/

/-- `log_buf` behind `atomic_add`. -/
theorem logBuf_leave (h : s.eip = 27) :
    ∃ t, logRun lb port 17 s = t ∧ t.eip = logBufRet ∧ t.esp = s.esp + 20 ∧ t.word = s.word ∧
      t.sent = s.sent ∧ t.stack = Function.update s.stack (s.esp - 4) s.eax := by
  have hblock : logRun lb port 17 s = _ := run_stretch 17 h rfl rfl
  simp only [logCode, List.drop, List.take, List.foldl, State.exec, State.next, State.push,
    State.read, State.get, State.write, State.set, State.jump, State.flags] at hblock
  refine ⟨_, hblock, ?_, ?_, rfl, rfl, rfl⟩
  · rw [h]
    rfl
  · change s.esp - 4 + 4 + 4 + 4 + 4 + 4 + 4 = s.esp + 20
    bv_omega

/-- From `add_loop` to the end of `log_buf`, with a message that fits. -/
theorem logBuf_finish (h : s.eip = addLoop) (hfits : (s.word lb + s.edx).toNat ≤ 2048)
    (hret : s.stack s.esp = 27) :
    ∃ t, logRun lb port 26 s = t ∧ t.eip = logBufRet ∧ t.esp = s.esp + 24 ∧
      t.word = Function.update s.word lb (s.word lb + s.edx) ∧ t.sent = s.sent ∧
      t.stack = Function.update s.stack s.esp (s.word lb + s.edx) := by
  have hfit : logRun lb port 9 s = _ := add_fits h hfits
  have hleave : ∃ t, logRun lb port 17 (logRun lb port 9 s) = t ∧ _ :=
    logBuf_leave (by rw [hfit, hret]; rfl)
  obtain ⟨t, hrun, heip, hesp, hword, hsent, hstack⟩ := hleave
  rw [hfit] at hesp hword hsent hstack
  refine ⟨t, (logRun_add 17 9 s).trans hrun, heip, ?_, hword, hsent, ?_⟩
  · rw [hesp]
    change s.esp + 4 + 20 = s.esp + 24
    bv_omega
  · rw [hstack]
    change Function.update s.stack (s.esp + 4 - 4) _ = _
    rw [BitVec.add_sub_cancel]

/-- The state `log_buf(msg, len)` is called in: interrupts off, the port ready at every poll,
every reserved byte stored and none of them NUL. -/
structure LogBufCall (lb : BitVec 32) (port : Nat → BitVec 8) (s : State) : Prop where
  entry : s.eip = logBufEntry
  off : s.intr = false
  ready : ∀ k, portReady port k = true
  offset_le : (logOf lb s).offset ≤ (logOf lb s).limit
  limit_le : (logOf lb s).limit ≤ bufferSize
  stored : ∀ i < (logOf lb s).limit, (logOf lb s).buf i ≠ 0
  len_le : (s.stack (s.esp + 8)).toNat ≤ bufferSize

/-- The message fits. -/
def LogBufFits (lb : BitVec 32) (s : State) : Prop :=
  (logOf lb s).limit + (s.stack (s.esp + 8)).toNat ≤ bufferSize

/-- `t` is `log_buf` at its `ret`, with the return address on top of the stack. The message is
reserved; if it did not fit, the buffer was sent and reset before. -/
structure LogBufDone (lb : BitVec 32) (s t : State) : Prop where
  eip : t.eip = logBufRet
  esp : t.esp = s.esp
  ret : t.stack s.esp = s.stack s.esp
  fits : LogBufFits lb s → t.sent = s.sent ∧
    (logOf lb t).limit = (logOf lb s).limit + (s.stack (s.esp + 8)).toNat ∧
    (logOf lb t).offset = (logOf lb s).offset
  drained : ¬ LogBufFits lb s → t.sent = s.sent ++ (logOf lb s).unsent ∧
    (logOf lb t).limit = (s.stack (s.esp + 8)).toNat ∧ (logOf lb t).offset = 0

theorem logBufFrame_top (s : State) :
    logBufFrame s (s.esp - 24) = 27 ∧ logBufFrame s s.esp = s.stack s.esp := by
  refine ⟨Function.update_self _ _ _, ?_⟩
  rw [logBufFrame]
  repeat rw [Function.update_of_ne (by bv_omega)]

/-- The message fits: no drain is needed. -/
theorem logBuf_fits (h : LogBufCall lb port s) (hfits : LogBufFits lb s) :
    ∃ n, LogBufDone lb s (logRun lb port n s) := by
  have henter : logRun lb port 10 s = _ := logBuf_enter h.entry
  have hsum : (s.word lb + s.stack (s.esp + 8)).toNat =
      (s.word lb).toNat + (s.stack (s.esp + 8)).toNat := by
    have hle : (s.word lb).toNat + (s.stack (s.esp + 8)).toNat ≤ 2048 := hfits
    bv_omega
  have hfinish : ∃ t, logRun lb port 26 (logRun lb port 10 s) = t ∧ _ :=
    logBuf_finish (by rw [henter]) (by rw [henter]; exact hsum.trans_le hfits)
      (by rw [henter]; exact (logBufFrame_top s).1)
  obtain ⟨t, hrun, heip, hesp, hword, hsent, hstack⟩ := hfinish
  rw [henter] at hesp hword hsent hstack
  refine ⟨26 + 10, ?_⟩
  rw [logRun_add 26 10, hrun]
  refine ⟨heip, by rw [hesp]; bv_omega, ?_, fun _ => ⟨hsent, ?_, ?_⟩, fun hnot => absurd hfits hnot⟩
  · rw [hstack, Function.update_of_ne (by bv_omega)]
    exact (logBufFrame_top s).2
  · simp only [logOf, hword, Function.update_self]
    exact hsum
  · simp only [logOf, hword]
    rw [Function.update_of_ne (by bv_omega)]

/-- At `add_loop` with a message that does not fit. -/
theorem LogBufCall.full (h : LogBufCall lb port s) (hfull : ¬ LogBufFits lb s) :
    ∃ t, logRun lb port 10 s = t ∧ t.eip = addLoop ∧ t.esp = s.esp - 24 ∧
      t.edx = s.stack (s.esp + 8) ∧ t.stack = logBufFrame s ∧ logOf lb t = logOf lb s ∧
      2048 < (t.word lb + t.edx).toNat ∧ (t.word lb + t.edx).toNat ≤ 4096 := by
  have henter : logRun lb port 10 s = _ := logBuf_enter h.entry
  have hlim : (s.word lb).toNat ≤ 2048 := h.limit_le
  have hlen : (s.stack (s.esp + 8)).toNat ≤ 2048 := h.len_le
  have hover : ¬ (s.word lb).toNat + (s.stack (s.esp + 8)).toNat ≤ 2048 := hfull
  exact ⟨_, henter, rfl, rfl, rfl, rfl, rfl, by bv_omega, by bv_omega⟩

/-- The stack pointer is 0 in `atomic_add` and there is something to send: the buffer is sent
and the retry succeeds. -/
theorem logBuf_drains (h : LogBufCall lb port s) (hfull : ¬ LogBufFits lb s) (hesp : s.esp = 24)
    (hmore : (logOf lb s).offset < (logOf lb s).limit) :
    ∃ n, LogBufDone lb s (logRun lb port n s) := by
  obtain ⟨t, hrun, heip, htsp, hedx, hstack, hlog, hbig, hsum⟩ := h.full hfull
  have hwords := h.offset_le
  have hstored := h.stored
  rw [← hlog] at hwords hstored hmore
  have hdrain : ∃ n, Retried lb _ t (logRun lb port n t) :=
    add_drains heip hbig hsum (by rw [htsp, hesp]; rfl) hwords
  obtain ⟨n, hretry⟩ := hdrain
  rw [syncLogBuf2_all (fun k => h.ready _) hmore hstored, hlog] at hretry
  generalize hu : logRun lb port n t = u at hretry
  have hzero : u.word lb = 0 := BitVec.eq_of_toNat_eq (congrArg LogSys.limit hretry.log)
  have hedx' : u.edx = s.stack (s.esp + 8) := hretry.edx.trans hedx
  have husp : u.esp = s.esp - 24 := hretry.esp.trans htsp
  have hret : u.stack s.esp = s.stack s.esp := by
    rw [hretry.stack _ fun i => ?_, hstack, (logBufFrame_top s).2]
    rw [htsp, hesp]
    revert i
    decide
  have haddr : u.stack u.esp = 27 := by
    rw [husp, hretry.stack _ fun i => ?_, hstack, (logBufFrame_top s).1]
    rw [htsp, hesp]
    revert i
    decide
  have hnew : u.word lb + u.edx = s.stack (s.esp + 8) := by
    rw [hzero, hedx']
    exact BitVec.zero_add _
  have hfinish : ∃ v, logRun lb port 26 u = v ∧ _ :=
    logBuf_finish hretry.eip (by rw [hnew]; exact h.len_le) haddr
  obtain ⟨v, hrun', heip', hesp', hword', hsent', hstack'⟩ := hfinish
  refine ⟨26 + (n + 10), ?_⟩
  rw [logRun_add 26, logRun_add n, hrun, hu, hrun']
  refine ⟨heip', by rw [hesp', husp, BitVec.sub_add_cancel], ?_, fun hfits => absurd hfits hfull,
    fun _ => ⟨?_, ?_, ?_⟩⟩
  · rw [hstack', Function.update_of_ne (by rw [husp]; bv_omega), hret]
  · rw [hsent']
    exact congrArg LogSys.sent hretry.log
  · simp only [logOf, hword', Function.update_self, hnew]
  · simp only [logOf, hword']
    rw [Function.update_of_ne (by bv_omega)]
    exact congrArg LogSys.offset hretry.log

/-- In every other case it never returns. -/
theorem logBuf_hangs (h : LogBufCall lb port s) (hfull : ¬ LogBufFits lb s)
    (hstay : ¬ (s.esp = 24 ∧ (logOf lb s).offset < (logOf lb s).limit)) (n : Nat) :
    (logRun lb port n s).eip ≠ logBufRet := by
  obtain ⟨t, hrun, heip, htsp, -, -, hlog, hbig, hsum⟩ := h.full hfull
  have hstuck : Stuck lb t := by
    refine ⟨heip, hbig, hsum, fun hzero => ?_⟩
    have hesp : s.esp = 24 := by bv_omega
    obtain ⟨hlimit, hoffset⟩ := words_of_logOf hlog
    have hnot : ¬ (logOf lb s).offset < (logOf lb s).limit := fun hlt => hstay ⟨hesp, hlt⟩
    rw [hlimit, hoffset]
    exact BitVec.eq_of_toNat_eq (Nat.le_antisymm (Nat.not_lt.mp hnot) h.offset_le)
  rcases Nat.lt_or_ge n 10 with hlt | hge
  · have hcount : (logRun lb port n s).eip = s.eip + n :=
      run_block_eip (l := ((logCode lb).drop 17).take 9)
        (by rw [h.entry]; exact List.take_prefix _ _) rfl (by simp [logCode]; omega)
    rw [hcount, h.entry, logBufEntry, logBufRet]
    omega
  · obtain ⟨m, rfl⟩ := Nat.exists_eq_add_of_le' hge
    rw [logRun_add m 10, hrun]
    exact hstuck.never m

/-- It returns if the message fits, or if the stack pointer is 0 at the `jnz` of `atomic_add_try`
and there is something to send. -/
theorem logBuf_returns_cases (h : LogBufCall lb port s) :
    (∃ n, LogBufDone lb s (logRun lb port n s)) ↔
      LogBufFits lb s ∨ s.esp = 24 ∧ (logOf lb s).offset < (logOf lb s).limit := by
  constructor
  · rintro ⟨n, hdone⟩
    by_contra hcond
    obtain ⟨hfull, hstay⟩ := not_or.mp hcond
    exact logBuf_hangs h hfull hstay n hdone.eip
  · rintro (hfits | ⟨hesp, hmore⟩)
    · exact logBuf_fits h hfits
    · by_cases hfits : LogBufFits lb s
      · exact logBuf_fits h hfits
      · exact logBuf_drains h hfits hesp hmore

/-- With interrupts off, and the port ready at every poll, `log_buf` returns exactly if the message
fits. No stack is in page 0, where the page directory is. -/
theorem logBuf_returns_iff (h : LogBufCall lb port s) (hstack : 4096 ≤ s.esp.toNat) :
    (∃ n, LogBufDone lb s (logRun lb port n s)) ↔ LogBufFits lb s := by
  refine (logBuf_returns_cases h).trans (or_iff_left ?_)
  rintro ⟨hesp, -⟩
  rw [hesp] at hstack
  exact absurd hstack (by decide)

/-- A call of `log_buf` with one byte, on a kernel stack, with `limit` bytes in the buffer. -/
def logBufAt (limit : BitVec 32) : State where
  eax := 0
  ebx := 0
  ecx := 0
  edx := 0
  esi := 0
  edi := 0
  ebp := 0
  esp := 0x9fff0
  ds := 0x10
  es := 0x10
  ss := 0x10
  zf := false
  sf := false
  of := false
  intr := false
  word := Function.update (fun _ => 0) 0x800000 limit
  byte _ := 65
  stack := Function.update (fun _ => 0) 0x9fff8 1
  sbyte _ := 65
  polls := 0
  sent := []
  eip := logBufEntry

theorem logBufAt_call {limit : BitVec 32} (h : limit.toNat ≤ bufferSize) :
    LogBufCall 0x800000 (fun _ => 0x20) (logBufAt limit) := by
  refine ⟨rfl, rfl, fun k => by simp [portReady], Nat.zero_le _, ?_, fun i _ => ?_, ?_⟩
  · change (Function.update (fun _ => (0 : BitVec 32)) 0x800000 limit 0x800000).toNat ≤ _
    rwa [Function.update_self]
  · change (65 : BitVec 8) ≠ 0
    decide
  · change (Function.update (fun _ => (0 : BitVec 32)) 0x9fff8 1 0x9fff8).toNat ≤ _
    decide

/-- With 100 bytes in the log, one more is taken. -/
theorem logBuf_returns_hundred : ∃ n, LogBufDone 0x800000 (logBufAt 100)
    (logRun 0x800000 (fun _ => 0x20) n (logBufAt 100)) :=
  (logBuf_returns_iff (logBufAt_call (by decide)) (by decide)).mpr (by unfold LogBufFits; decide)

/-- The buffer is full: not even one byte can be logged. -/
theorem logBuf_full_hangs : LogBufCall 0x800000 (fun _ => 0x20) (logBufAt 2048) ∧
    ∀ n, (logRun 0x800000 (fun _ => 0x20) n (logBufAt 2048)).eip ≠ logBufRet := by
  have hcall : LogBufCall _ _ (logBufAt 2048) := logBufAt_call (by decide)
  refine ⟨hcall, logBuf_hangs hcall ?_ ?_⟩
  · unfold LogBufFits
    decide
  · decide

end MockOs.Kernel
