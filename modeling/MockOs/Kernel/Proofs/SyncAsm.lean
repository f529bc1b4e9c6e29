import MockOs.Kernel.LogAsm
import MockOs.Kernel.Proofs.Log

/-!
# `sync_log_buf_2`, instruction by instruction

The instructions do what `syncLogBuf2` says, whatever AH the caller leaves and whatever the
port answers, and give the caller its stack and EBP back.
-/

namespace MockOs.Kernel

open X86

variable {lb : BitVec 32} {port : Nat → BitVec 8} {s : State}

theorem logRun_add (m n : Nat) (s : State) :
    logRun lb port (m + n) s = logRun lb port m (logRun lb port n s) :=
  Function.iterate_add_apply _ m n s

theorem logRun_succ (n : Nat) (s : State) :
    logRun lb port (n + 1) s = logRun lb port n (s.step port (logCode lb)) := rfl

theorem logRun_zero (s : State) : logRun lb port 0 s = s := rfl

/-- AH. -/
def ahOf (eax : BitVec 32) : BitVec 8 := BitVec.ofNat 8 (eax.toNat / 2 ^ 8)

/-- Bit 5 of the line status register. -/
def portReady (port : Nat → BitVec 8) (k : Nat) : Bool := !(port k &&& 0x20 == 0)

/-- EAX with `v` in AL. -/
def withAl (eax : BitVec 32) (v : BitVec 8) : BitVec 32 :=
  BitVec.ofNat 32 (eax.toNat / 2 ^ 8 * 2 ^ 8 + v.toNat)

theorem al_withAl (eax : BitVec 32) (v : BitVec 8) : (withAl eax v).setWidth 8 = v := by
  unfold withAl
  bv_omega

theorem ah_withAl (eax : BitVec 32) (v : BitVec 8) : ahOf (withAl eax v) = ahOf eax := by
  unfold withAl ahOf
  bv_omega

theorem ax_withAl (eax : BitVec 32) (v : BitVec 8) :
    (withAl eax v).setWidth 16 = 0 ↔ ahOf eax = 0 ∧ v = 0 := by
  unfold withAl ahOf
  bv_omega

/-- The poll and the test of it. -/
theorem sync_poll (h : s.eip = syncReady) : logRun lb port 2 s =
    { s with
      eax := withAl s.eax (port s.polls)
      zf := !portReady port s.polls
      sf := (port s.polls &&& 0x20).msb
      of := false
      polls := s.polls + 1
      eip := 58 } := by
  have hblock : logRun lb port 2 s = _ := run_stretch 2 h rfl rfl
  simp only [logCode, syncReady, List.drop, List.take, List.foldl, State.exec, State.next,
    State.jump, State.flags, State.setAl] at hblock
  rw [← withAl, al_withAl] at hblock
  rw [hblock]
  simp [h, syncReady, portReady]

/-- The byte and the test for NUL. -/
theorem sync_load (h : s.eip = 59) : logRun lb port 3 s =
    { s with
      eax := withAl s.eax (s.byte s.esi)
      edx := State.low16 s.edx 0x3f8
      zf := decide (ahOf s.eax = 0 ∧ s.byte s.esi = 0)
      sf := ((withAl s.eax (s.byte s.esi)).setWidth 16 - 0).msb
      of := ((withAl s.eax (s.byte s.esi)).setWidth 16).ssubOverflow 0
      eip := 62 } := by
  have hblock : logRun lb port 3 s = _ := run_stretch 3 h rfl rfl
  simp only [logCode, List.drop, List.take, List.foldl, State.exec, State.next, State.read, State.get,
    State.set, State.jump, State.flags, State.setAl] at hblock
  rw [← withAl] at hblock
  have hzf : ((withAl s.eax (s.byte s.esi)).setWidth 16 - 0 == 0) =
      decide (ahOf s.eax = 0 ∧ s.byte s.esi = 0) := by
    rw [Bool.eq_iff_iff, beq_iff_eq, decide_eq_true_iff, BitVec.sub_eq_iff_eq_add]
    exact ax_withAl _ _
  rw [hblock]
  simp only [hzf, h]

/-- The byte goes out. -/
theorem sync_out (h : s.eip = 63) : logRun lb port 3 s =
    { s with
      edx := State.low16 s.edx 0x3fd
      esi := s.esi + 1
      zf := s.esi + 1 == 0
      sf := (s.esi + 1).msb
      of := s.esi.saddOverflow 1
      sent := s.sent ++ [s.eax.setWidth 8]
      eip := 66 } := by
  have hblock : logRun lb port 3 s = _ := run_stretch 3 h rfl rfl
  simp only [logCode, List.drop, List.take, List.foldl, State.exec, State.next, State.read, State.get,
    State.set, State.jump, State.flags] at hblock
  rw [hblock]
  simp only [h]

/-- Where a turn of the loop ends, and what it leaves: the registers it may change are EAX up
to AH, EDX, ESI and the flags. -/
def Turned (s t : State) (esi : BitVec 32) (sent : List (BitVec 8)) (eip : Nat) : Prop :=
  ∃ eax edx z f o, ahOf eax = ahOf s.eax ∧
    t = { s with
      eax := eax
      edx := edx
      esi := esi
      zf := z
      sf := f
      of := o
      polls := s.polls + 1
      sent := sent
      eip := eip }

theorem sync_notReady (h : s.eip = syncReady) (hr : portReady port s.polls = false) :
    Turned s (logRun lb port 3 s) s.esi s.sent syncWriteEnd := by
  have hrun : logRun lb port 3 s = _ := logRun_add 1 2 s
  rw [sync_poll h, logRun_succ 0, step_jcc (c := .z) rfl (by simp [State.holds, hr])] at hrun
  exact ⟨_, _, _, _, _, ah_withAl _ _, hrun⟩

theorem sync_nul (h : s.eip = syncReady) (hr : portReady port s.polls = true)
    (hnul : ahOf s.eax = 0 ∧ s.byte s.esi = 0) :
    Turned s (logRun lb port 7 s) s.esi s.sent syncWriteEnd := by
  have hrun : logRun lb port 7 s = _ := logRun_add 5 2 s
  rw [sync_poll h, logRun_succ 4, step_jcc_not (c := .z) rfl (by simp [State.holds, hr]),
    logRun_add 1 3, sync_load rfl, logRun_succ 0, step_jcc (c := .z) rfl
      (by simpa [State.holds, State.next, State.jump, ah_withAl] using hnul)] at hrun
  exact ⟨_, _, _, _, _, (ah_withAl _ _).trans (ah_withAl _ _), hrun⟩

theorem sync_send (h : s.eip = syncReady) (hr : portReady port s.polls = true)
    (hnul : ¬ (ahOf s.eax = 0 ∧ s.byte s.esi = 0)) :
    Turned s (logRun lb port 10 s) (s.esi + 1) (s.sent ++ [s.byte s.esi]) 66 := by
  have hrun : logRun lb port 10 s = _ := logRun_add 8 2 s
  rw [sync_poll h, logRun_succ 7, step_jcc_not (c := .z) rfl (by simp [State.holds, hr]),
    logRun_add 4 3, sync_load rfl, logRun_succ 3, step_jcc_not (c := .z) rfl
      (by simpa [State.holds, State.next, State.jump, ah_withAl] using hnul), sync_out rfl] at hrun
  simp only [State.next, State.jump, al_withAl] at hrun
  exact ⟨_, _, _, _, _, (ah_withAl _ _).trans (ah_withAl _ _), hrun⟩

/-- What the loop leaves at `.write_end`, having sent `out` with `left` bytes to go. -/
def Drained (s t : State) (out : List (BitVec 8)) (left : Nat) : Prop :=
  ∃ eax edx esi z f o polls, t = { s with
    eax := eax
    ecx := BitVec.ofNat 32 left
    edx := edx
    esi := esi
    zf := z
    sf := f
    of := o
    polls := polls
    sent := s.sent ++ out
    eip := syncWriteEnd }

/-- The loop is `drainLoop`, with the polls from the `p`-th on. -/
theorem sync_loop {c i k p : Nat} (h : s.eip = syncReady) (hc : c + 1 < 2 ^ 32)
    (hecx : s.ecx = BitVec.ofNat 32 (c + 1)) (hesi : s.esi = lb + 16 + BitVec.ofNat 32 i)
    (hpolls : s.polls = p + k) {out : List (BitVec 8)} {left : Nat}
    (hdrain : drainLoop (ahOf s.eax) (fun j => portReady port (p + j))
      (fun j => s.byte (lb + 16 + BitVec.ofNat 32 j)) (c + 1) i k = (out, left)) :
    ∃ n, Drained s (logRun lb port n s) out left := by
  induction c using Nat.strongRecOn generalizing s i k out with
  | _ c ih =>
    rw [drainLoop, ← hpolls, ← hesi] at hdrain
    cases hr : portReady port s.polls with
    | false =>
      rw [if_pos hr] at hdrain
      obtain ⟨rfl, rfl⟩ := Prod.mk.inj hdrain
      have hstop : Turned s (logRun lb port 3 s) _ _ _ := sync_notReady h hr
      obtain ⟨eax, edx, z, f, o, -, hrun⟩ := hstop
      refine ⟨3, eax, edx, s.esi, z, f, o, s.polls + 1, ?_⟩
      rw [hrun, ← hecx, List.append_nil]
    | true =>
      rw [if_neg (by simp [hr])] at hdrain
      by_cases hnul : ahOf s.eax = 0 ∧ s.byte s.esi = 0
      · rw [if_pos hnul] at hdrain
        obtain ⟨rfl, rfl⟩ := Prod.mk.inj hdrain
        have hstop : Turned s (logRun lb port 7 s) _ _ _ := sync_nul h hr hnul
        obtain ⟨eax, edx, z, f, o, -, hrun⟩ := hstop
        refine ⟨7, eax, edx, s.esi, z, f, o, s.polls + 1, ?_⟩
        rw [hrun, ← hecx, List.append_nil]
      · rw [if_neg hnul] at hdrain
        have hgo : Turned s (logRun lb port 10 s) _ _ _ := sync_send h hr hnul
        obtain ⟨eax, edx, z, f, o, hah, hsend⟩ := hgo
        have hturn : logRun lb port 11 s = logRun lb port 1 (logRun lb port 10 s) := logRun_add 1 10 s
        rw [hsend, logRun_succ 0, step_at (i := .loop syncReady) rfl] at hturn
        have hdec : s.ecx - 1 = BitVec.ofNat 32 c := by
          rw [hecx]
          bv_omega
        simp only [State.exec, hdec] at hturn
        cases c with
        | zero =>
          obtain ⟨rfl, rfl⟩ := Prod.mk.inj hdrain
          exact ⟨11, _, _, _, _, _, _, _, hturn⟩
        | succ c =>
          have hmore : ¬ BitVec.ofNat 32 (c + 1) = 0 := by bv_omega
          rw [if_neg hmore] at hturn
          generalize hrest : drainLoop _ _ _ (c + 1) (i + 1) (k + 1) = r at hdrain
          obtain ⟨out', left'⟩ := r
          obtain ⟨rfl, rfl⟩ := Prod.mk.inj hdrain
          rw [← hah] at hrest
          have hnext : s.esi + 1 = lb + 16 + BitVec.ofNat 32 (i + 1) := by
            rw [hesi]
            bv_omega
          obtain ⟨n, eax', edx', esi', z', f', o', polls', hdone⟩ := ih c (Nat.lt_succ_self c)
            (s := logRun lb port 11 s) (by rw [hturn]; rfl) (by omega) (by rw [hturn]; rfl)
            (by rw [hturn]; exact hnext) (k := k + 1) (by rw [hturn]; exact congrArg (· + 1) hpolls)
            (by rw [hturn]; exact hrest)
          refine ⟨n + 11, eax', edx', esi', z', f', o', polls', ?_⟩
          rw [logRun_add n 11, hdone, hturn]
          simp [logRun_zero, State.jump]

/-- The entry of `sync_log_buf_2`, up to its first jump. -/
theorem sync_enter (h : s.eip = syncEntry) : logRun lb port 4 s =
    { s with
      ecx := s.word lb - s.word (lb + 8)
      esp := s.esp - 4
      zf := s.word lb - s.word (lb + 8) == 0
      sf := (s.word lb - s.word (lb + 8)).msb
      of := false
      stack := Function.update s.stack (s.esp - 4) s.ecx
      eip := 49 } := by
  have hblock : logRun lb port 4 s = _ := run_stretch 4 h rfl rfl
  simp only [logCode, syncEntry, List.drop, List.take, List.foldl, State.exec, State.next,
    State.push, State.read, State.get, State.write, State.set, State.jump, State.flags] at hblock
  rw [hblock]
  simp [h, syncEntry]

/-- The way to the loop. -/
theorem sync_setup (h : s.eip = 50) : ∃ edx z f o, logRun lb port 6 s =
    { s with
      ebx := s.ecx
      edx := edx
      esi := lb + 16 + s.word (lb + 8)
      esp := s.esp - 8
      zf := z
      sf := f
      of := o
      stack := Function.update (Function.update s.stack (s.esp - 4) s.ebx) (s.esp - 8) s.esi
      eip := syncReady } := by
  have hblock : logRun lb port 6 s = _ := run_stretch 6 h rfl rfl
  simp only [logCode, List.drop, List.take, List.foldl, State.exec, State.next, State.push,
    State.read, State.get, State.write, State.set, State.jump, State.flags, BitVec.sub_sub] at hblock
  rw [h] at hblock
  exact ⟨_, _, _, _, hblock⟩

/-- `.rt`. -/
theorem sync_return (h : s.eip = syncRt) : logRun lb port 2 s =
    { s with
      ecx := s.stack s.esp
      esp := s.esp + 8
      eip := (s.stack (s.esp + 4)).toNat } := by
  have hblock : logRun lb port 1 s = _ := run_stretch 1 h rfl rfl
  simp only [logCode, syncRt, List.drop, List.take, List.foldl, State.exec, State.next,
    State.set, State.jump] at hblock
  rw [logRun_add 1 1, hblock, logRun_succ 0, step_at (i := .ret) (by rw [h]; rfl)]
  simp [State.exec, logRun_zero, BitVec.add_assoc]

/-- `.clean`. -/
theorem sync_clean (h : s.eip = syncClean) : logRun lb port 4 s =
    { s with
      ebx := s.stack (s.esp + 4)
      ecx := s.stack (s.esp + 8)
      esi := s.stack s.esp
      esp := s.esp + 16
      eip := (s.stack (s.esp + 12)).toNat } := by
  have hblock : logRun lb port 2 s = _ := run_stretch 2 h rfl rfl
  simp only [logCode, syncClean, List.drop, List.take, List.foldl, State.exec, State.next,
    State.set, State.jump] at hblock
  rw [logRun_add 2 2, hblock, sync_return (by rw [h]; rfl)]
  simp [BitVec.add_assoc]

/-- Both words are reset. -/
theorem sync_reset (h : s.eip = 69) : logRun lb port 3 s =
    { s with
      word := Function.update (Function.update s.word lb 0) (lb + 8) 0
      eip := syncClean } := by
  have hblock : logRun lb port 2 s = _ := run_stretch 2 h rfl rfl
  simp only [logCode, List.drop, List.take, List.foldl, State.exec, State.next, State.read,
    State.write, State.jump] at hblock
  rw [logRun_add 1 2, hblock, logRun_succ 0, step_at (i := .jmp syncClean) (by rw [h]; rfl)]
  rfl

/-- The offset moves on. -/
theorem sync_advance (h : s.eip = syncNotCompleted) : ∃ z f o, logRun lb port 2 s =
    { s with
      ebx := s.ebx - s.ecx
      zf := z
      sf := f
      of := o
      word := Function.update s.word (lb + 8) (s.word (lb + 8) + (s.ebx - s.ecx))
      eip := syncClean } := by
  have hblock : logRun lb port 2 s = _ := run_stretch 2 h rfl rfl
  simp only [logCode, syncNotCompleted, List.drop, List.take, List.foldl, State.exec, State.next,
    State.read, State.get, State.set, State.write, State.jump, State.flags] at hblock
  rw [h] at hblock
  exact ⟨_, _, _, hblock⟩

/-- The test at `.write_end`. -/
theorem sync_test (h : s.eip = syncWriteEnd) : logRun lb port 1 s =
    { s with zf := s.ecx == 0, sf := s.ecx.msb, of := false, eip := 68 } := by
  have hblock : logRun lb port 1 s = _ := run_stretch 1 h rfl rfl
  simp only [logCode, syncWriteEnd, List.drop, List.take, List.foldl, State.exec, State.next,
    State.read, State.get, State.jump, State.flags, BitVec.and_self] at hblock
  rw [hblock, h]
  rfl

/-- From `.write_end` to `.clean`, with `left` bytes to go of the `EBX` there were. -/
theorem sync_end {left : Nat} (h : s.eip = syncWriteEnd) (hecx : s.ecx = BitVec.ofNat 32 left)
    (hleft : left < 2 ^ 32) : ∃ n ebx z f o, logRun lb port n s =
      { s with
        ebx := ebx
        zf := z
        sf := f
        of := o
        word :=
          if left = 0 then Function.update (Function.update s.word lb 0) (lb + 8) 0
          else Function.update s.word (lb + 8) (s.word (lb + 8) + (s.ebx - s.ecx))
        eip := syncClean } := by
  by_cases hzero : left = 0
  · have hz : s.ecx = 0 := by rw [hecx, hzero]; rfl
    have hrun : logRun lb port 5 s = _ := logRun_add 4 1 s
    rw [sync_test h, logRun_succ 3, step_jcc_not (c := .nz) rfl (by simp [State.holds, hz]),
      sync_reset rfl] at hrun
    rw [if_pos hzero]
    exact ⟨5, _, _, _, _, hrun⟩
  · have hz : s.ecx ≠ 0 := by
      rw [hecx]
      bv_omega
    have hrun : logRun lb port 4 s = _ := logRun_add 3 1 s
    rw [sync_test h, logRun_succ 2, step_jcc (c := .nz) rfl (by simpa [State.holds] using hz)] at hrun
    have hadvance : ∃ z f o, logRun lb port 2
        { s with zf := s.ecx == 0, sf := s.ecx.msb, of := false, eip := syncNotCompleted } = _ :=
      sync_advance rfl
    obtain ⟨z, f, o, hadvance⟩ := hadvance
    rw [if_neg hzero]
    exact ⟨4, _, z, f, o, hrun.trans hadvance⟩

/-- What a caller of `sync_log_buf_2` sees: the log as `log` has it, and the stack and EBP as
they were, but for three words below the return address. -/
structure Synced (lb : BitVec 32) (log : LogSys Unit) (s t : State) : Prop where
  eip : t.eip = (s.stack s.esp).toNat
  esp : t.esp = s.esp + 4
  ebp : t.ebp = s.ebp
  stack : ∀ a, a ≠ s.esp - 4 → a ≠ s.esp - 8 → a ≠ s.esp - 12 → t.stack a = s.stack a
  log : logOf lb t = log

/-- Nothing to send: the function returns at once. -/
theorem sync_nothing (h : s.eip = syncEntry) (hzero : s.word lb = s.word (lb + 8)) :
    Synced lb (logOf lb s) s (logRun lb port 7 s) := by
  have hrun : logRun lb port 7 s = _ := logRun_add 3 4 s
  have hz : (s.word lb - s.word (lb + 8) == 0) = true := by
    rw [hzero, BitVec.sub_self]
    rfl
  rw [sync_enter h, logRun_succ 2, step_jcc (c := .z) rfl (by exact hz), sync_return rfl] at hrun
  rw [hrun]
  refine ⟨?_, ?_, rfl, fun a h4 _ _ => Function.update_of_ne h4 _ _, rfl⟩
  · change ((Function.update s.stack (s.esp - 4) s.ecx) (s.esp - 4 + 4)).toNat = _
    rw [Function.update_of_ne (by bv_omega), BitVec.sub_add_cancel]
  · change s.esp - 4 + 8 = _
    bv_omega

theorem sync_nothing_eip (h : s.eip = syncEntry) (hzero : s.word lb = s.word (lb + 8)) {j : Nat}
    (hj : j < 7) : (logRun lb port j s).eip ≠ logBufRet := by
  rcases Nat.lt_or_ge j 5 with hlt | hge
  · have heip : (logRun lb port j s).eip = s.eip + j :=
      run_block_eip (l := ((logCode lb).drop 45).take 4) (by rw [h]; exact List.take_prefix _ _) rfl
        (by simp [logCode]; omega)
    rw [heip, h, syncEntry, logBufRet]
    omega
  · obtain ⟨i, rfl⟩ : ∃ i, j = i + 5 := ⟨j - 5, by omega⟩
    have hz : (s.word lb - s.word (lb + 8) == 0) = true := by
      rw [hzero, BitVec.sub_self]
      rfl
    have hjump : (logRun lb port 5 s).eip = syncRt := by
      rw [logRun_add 1 4, sync_enter h, logRun_succ 0, step_jcc (c := .z) rfl (by exact hz)]
      rfl
    have heip : (logRun lb port i (logRun lb port 5 s)).eip = _ + i :=
      run_block_eip (l := ((logCode lb).drop 76).take 1) (by rw [hjump]; exact List.take_prefix _ _)
        rfl (by simp [logCode]; omega)
    rw [logRun_add i 5, heip, hjump, syncRt, logBufRet]
    omega

/-- The stack of `sync_log_buf_2` inside the loop. -/
def syncFrame (s : State) : BitVec 32 → BitVec 32 :=
  let f := Function.update s.stack (s.esp - 4) s.ecx
  let f := Function.update f (s.esp - 8) s.ebx
  Function.update f (s.esp - 12) s.esi

theorem syncFrame_frame (s : State) {a : BitVec 32} (h4 : a ≠ s.esp - 4) (h8 : a ≠ s.esp - 8)
    (h12 : a ≠ s.esp - 12) : syncFrame s a = s.stack a := by
  rw [syncFrame, Function.update_of_ne h12, Function.update_of_ne h8, Function.update_of_ne h4]

/-- The way to the loop, with something to send. -/
theorem sync_begin (h : s.eip = syncEntry) (hmore : s.word lb ≠ s.word (lb + 8)) :
    ∃ edx z f o, logRun lb port 11 s =
      { s with
        ebx := s.word lb - s.word (lb + 8)
        ecx := s.word lb - s.word (lb + 8)
        edx := edx
        esi := lb + 16 + s.word (lb + 8)
        esp := s.esp - 12
        zf := z
        sf := f
        of := o
        stack := syncFrame s
        eip := syncReady } := by
  have hz : (s.word lb - s.word (lb + 8) == 0) = false := by
    rw [beq_eq_false_iff_ne]
    intro heq
    exact hmore (by bv_omega)
  have hrun : logRun lb port 5 s = _ := logRun_add 1 4 s
  rw [sync_enter h, logRun_succ 0, step_jcc_not (c := .z) rfl (by exact hz)] at hrun
  have hsetup : ∃ edx z f o, logRun lb port 6 (logRun lb port 5 s) = _ :=
    sync_setup (by rw [hrun]; rfl)
  obtain ⟨edx, z, f, o, hsetup⟩ := hsetup
  refine ⟨edx, z, f, o, ?_⟩
  rw [logRun_add 6 5, hsetup, hrun]
  simp [logRun_zero, State.next, State.jump, syncFrame, BitVec.sub_sub]

/-- `sync_log_buf_2` is `syncLogBuf2`. -/
theorem sync_run (h : s.eip = syncEntry) (hwords : (s.word (lb + 8)).toNat ≤ (s.word lb).toNat) :
    ∃ n, Synced lb (syncLogBuf2 (ahOf s.eax) (fun k => portReady port (s.polls + k)) (logOf lb s))
      s (logRun lb port n s) := by
  have hsub : (s.word lb - s.word (lb + 8)).toNat = (s.word lb).toNat - (s.word (lb + 8)).toNat :=
    BitVec.toNat_sub_of_le hwords
  rw [syncLogBuf2]
  by_cases hzero : s.word lb = s.word (lb + 8)
  · rw [if_pos (show (logOf lb s).limit - (logOf lb s).offset = 0 by simp [logOf, hzero])]
    exact ⟨7, sync_nothing h hzero⟩
  · have hne : (s.word lb).toNat ≠ (s.word (lb + 8)).toNat := fun heq =>
      hzero (BitVec.eq_of_toNat_eq heq)
    have hmore : (logOf lb s).limit - (logOf lb s).offset ≠ 0 := by
      simp only [logOf]
      omega
    obtain ⟨c, hc⟩ := Nat.exists_eq_add_one.mpr (Nat.pos_of_ne_zero hmore)
    rw [if_neg hmore, hc]
    generalize hdrain : drainLoop _ _ _ (c + 1) _ 0 = r
    obtain ⟨out, left⟩ := r
    have hleft : left ≤ c + 1 := by
      obtain ⟨n, -, hspec, -⟩ := drainLoop_spec (ahOf s.eax)
        (fun k => portReady port (s.polls + k)) (logOf lb s).buf (c + 1) (logOf lb s).offset 0
      rw [hdrain] at hspec
      rw [(Prod.mk.inj hspec).2]
      omega
    have hself : ∀ x : BitVec 32, BitVec.ofNat 32 x.toNat = x := fun x => by simp
    have hbegin : ∃ edx z f o, logRun lb port 11 s = _ := sync_begin h hzero
    obtain ⟨edx, z, f, o, hbegin⟩ := hbegin
    have hlim := (s.word lb).isLt
    change (s.word lb).toNat - (s.word (lb + 8)).toNat = c + 1 at hc
    have hloop : ∃ n, Drained _ (logRun lb port n (logRun lb port 11 s)) out left :=
      sync_loop (c := c) (p := s.polls) (k := 0) (i := (s.word (lb + 8)).toNat) (by rw [hbegin]) (by omega)
        (by rw [hbegin, ← hc, ← hsub, hself]) (by rw [hbegin, hself]) (by rw [hbegin]; rfl)
        (by rw [hbegin]; exact hdrain)
    obtain ⟨n, eax', edx', esi', z', f', o', polls', hloop⟩ := hloop
    have hend : ∃ m ebx z f o, logRun lb port m (logRun lb port n (logRun lb port 11 s)) = _ :=
      sync_end (by rw [hloop]) (by rw [hloop]) (by omega)
    obtain ⟨m, ebx, z'', f'', o'', hend⟩ := hend
    refine ⟨4 + (m + (n + 11)), ?_⟩
    rw [logRun_add 4, logRun_add m, logRun_add n, sync_clean (by rw [hend]), hend, hloop, hbegin]
    refine ⟨?_, ?_, rfl, fun a h4 h8 h12 => syncFrame_frame s h4 h8 h12, ?_⟩
    · change (syncFrame s (s.esp - 12 + 12)).toNat = _
      rw [BitVec.sub_add_cancel, syncFrame_frame s (by bv_omega) (by bv_omega) (by bv_omega)]
    · change s.esp - 12 + 16 = _
      bv_omega
    · by_cases hdone : left = 0
      · simp only [logOf, hdone, if_true]
        simp
      · have hadd : (s.word (lb + 8) + (s.word lb - s.word (lb + 8) - BitVec.ofNat 32 left)).toNat =
            (s.word (lb + 8)).toNat + (c + 1 - left) := by
          bv_omega
        simp only [logOf, hdone, if_false, Function.update_self]
        rw [hadd]
        simp

end MockOs.Kernel
