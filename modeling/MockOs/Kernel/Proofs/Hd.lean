import Mathlib.Algebra.Group.Nat.Defs
import Mathlib.Data.List.Count
import Mathlib.Data.List.Induction
import MockOs.Kernel.Hd

/-!
# The read as a state machine

The handler is in `do_hd` only while every interrupt so far was good and fewer than `n` came.
So the calls of `read_intr` are bounded by `n`, and what they store and count follows the
number of good interrupts, as long as there is room in the log for what `read_intr` prints. An
interrupt without room is the last one: it stores a sector and does not count it.
-/

namespace MockOs.Kernel

/-! ## One sector -/

/-- Words `k` to `k + ecx - 1` at `edi`. Differences of addresses are modulo 2^32. -/
theorem insw_eq (irq : HdIrq) (ecx k : Nat) (edi : BitVec 32) (mem : BitVec 32 → BitVec 8)
    (hsmall : 2 * ecx < 2 ^ 32) (a : BitVec 32) :
    insw irq.data ecx k edi mem a =
      if (a - edi).toNat < 2 * ecx then irq.byte (2 * k + (a - edi).toNat) else mem a := by
  induction ecx generalizing k edi mem with
  | zero => rw [insw, if_neg (by omega)]
  | succ ecx ih =>
    rw [insw, ih (k + 1) (edi + 2) _ (by omega)]
    have hcases : a = edi ∨ a = edi + 1 ∨ 2 ≤ (a - edi).toNat := by bv_omega
    rcases hcases with rfl | rfl | hrest
    · have hpast : ¬ (a - (a + 2)).toNat < 2 * ecx := by bv_omega
      have hne : a ≠ a + 1 := by bv_omega
      have hzero : (a - a).toNat = 0 := by rw [BitVec.sub_self, BitVec.toNat_zero]
      rw [if_neg hpast, Function.update_of_ne hne, Function.update_self, hzero, if_pos (by omega),
        HdIrq.byte]
      simp
    · have hpast : ¬ (edi + 1 - (edi + 2)).toNat < 2 * ecx := by bv_omega
      have hone : (edi + 1 - edi).toNat = 1 := by bv_omega
      rw [if_neg hpast, Function.update_self, hone, if_pos (by omega), HdIrq.byte,
        show (2 * k + 1) / 2 = k by omega, show (2 * k + 1) % 2 = 1 by omega]
    · have hshift : (a - (edi + 2)).toNat = (a - edi).toNat - 2 := by bv_omega
      have hne : a ≠ edi := by bv_omega
      have hne' : a ≠ edi + 1 := by bv_omega
      rw [hshift, Function.update_of_ne hne', Function.update_of_ne hne]
      apply if_congr
      · omega
      · congr 1
        omega
      · rfl

/-- A sector at `buf`. -/
theorem portRead_eq (irq : HdIrq) (buf : BitVec 32) (mem : BitVec 32 → BitVec 8) (a : BitVec 32) :
    portRead irq buf 256 mem a =
      if (a - buf).toNat < 512 then irq.byte (a - buf).toNat else mem a := by
  rw [portRead, insw_eq irq 256 0 buf mem (by decide), Nat.mul_zero, Nat.zero_add]

/-! ## One interrupt -/

/-- A text that fits the log. -/
theorem printm_fits {text : String} {irq : HdIrq} (h : irq.limit + text.length ≤ bufferSize) (s : HdSys) :
    printm text irq s = { s with hung := false } := by
  rw [printm, atomicAdd, if_neg (Nat.not_lt.mpr h)]
  rfl

theorem printm_full {text : String} {irq : HdIrq} (h : ¬ irq.limit + text.length ≤ bufferSize) (s : HdSys) :
    printm text irq s = { s with hung := true } := by
  rw [printm, atomicAdd, if_pos (Nat.lt_of_not_le h)]
  rfl

theorem room_good {irq : HdIrq} (hgood : irq.Good) :
    irq.Room ↔ irq.limit + "read into buffer success\n".length ≤ bufferSize := by
  rw [HdIrq.Room, if_pos hgood]
  rfl

theorem room_bad {irq : HdIrq} (hbad : ¬ irq.Good) :
    irq.Room ↔ irq.limit + "bad rw intr\n".length ≤ bufferSize := by
  rw [HdIrq.Room, if_neg hbad]
  rfl

/-- An armed interrupt with a good status. -/
theorem hdInterrupt_good {s : HdSys} {irq : HdIrq} (harmed : s.doHd = some .readIntr)
    (hgood : irq.Good) (hroom : irq.Room) :
    hdInterrupt irq s =
      { s with
        mem := portRead irq s.current.buffer 256 s.mem
        current := ⟨0, s.current.sector + 1, s.current.nrSectors - 1, s.current.buffer + 512⟩
        doHd := if s.current.nrSectors - 1 ≠ 0 then some .readIntr else none
        hdTimeout := if s.current.nrSectors - 1 ≠ 0 then 200 else 0
        out := s.out ++ [(0xa0, 0x20)] ++ [(0x20, 0x20)]
        hung := false
        called := s.called ++ [.readIntr] } := by
  have hresult : ¬ winResult irq ≠ 0 := not_not.mpr hgood
  simp only [hdInterrupt, outb, harmed, Option.getD_some, readIntr, if_neg hresult,
    printm_fits ((room_good hgood).mp hroom), Bool.false_eq_true, if_false]
  by_cases hmore : s.current.nrSectors - 1 ≠ 0
  · rw [if_pos hmore, if_pos hmore, if_pos hmore, setIntr]
  · rw [if_neg hmore, if_neg hmore, if_neg hmore]

/-- It does not come back from `printm` if the log is full, with the sector stored. -/
theorem hdInterrupt_full {s : HdSys} {irq : HdIrq} (harmed : s.doHd = some .readIntr)
    (hgood : irq.Good) (hroom : ¬ irq.Room) :
    hdInterrupt irq s =
      { s with
        mem := portRead irq s.current.buffer 256 s.mem
        doHd := none
        hdTimeout := 0
        out := s.out ++ [(0xa0, 0x20)] ++ [(0x20, 0x20)]
        hung := true
        called := s.called ++ [.readIntr] } := by
  have hresult : ¬ winResult irq ≠ 0 := not_not.mpr hgood
  simp only [hdInterrupt, outb, harmed, Option.getD_some, readIntr, if_neg hresult,
    printm_full (mt (room_good hgood).mpr hroom), if_true]

theorem hdInterrupt_bad {s : HdSys} {irq : HdIrq} (harmed : s.doHd = some .readIntr)
    (hbad : ¬ irq.Good) :
    hdInterrupt irq s =
      { s with
        doHd := none
        hdTimeout := 0
        out := s.out ++ [(0xa0, 0x20)] ++ [(0x20, 0x20)]
        hung := !decide irq.Room
        called := s.called ++ [.readIntr] } := by
  have hresult : winResult irq ≠ 0 := hbad
  simp only [hdInterrupt, outb, harmed, Option.getD_some, readIntr, if_pos hresult]
  by_cases hroom : irq.Room
  · simp only [printm_fits ((room_bad hbad).mp hroom), hroom, decide_true, Bool.not_true]
  · simp only [printm_full (mt (room_bad hbad).mpr hroom), hroom, decide_false, Bool.not_false]

/-- An interrupt that finds no handler is the last one, whether its message fits or not. -/
theorem hdInterrupt_unexpected {s : HdSys} (irq : HdIrq) (hnull : s.doHd = none) :
    (hdInterrupt irq s).mem = s.mem ∧ (hdInterrupt irq s).current = s.current ∧
      (hdInterrupt irq s).doHd = none ∧ (hdInterrupt irq s).stopped ∧
      (hdInterrupt irq s).called = s.called ++ [.unexpectedHdInt] := by
  simp only [hdInterrupt, outb, hnull, Option.getD_none, unexpectedHdInt, HdSys.stopped]
  by_cases hroom : irq.limit + "unexpected int".length ≤ bufferSize
  · simp [printm_fits hroom]
  · simp [printm_full hroom]

theorem takeIrq_running {s : HdSys} (h : ¬ s.stopped) (irq : HdIrq) : takeIrq s irq = hdInterrupt irq s := if_neg h

theorem takeIrq_stopped {s : HdSys} (h : s.stopped) (irq : HdIrq) : takeIrq s irq = s := if_pos h

/-! ## Every run

A read of `n` sectors into `b` from `start` on. -/

/-- What every state of a read satisfies: `k` sectors are in. -/
structure Progress (start s : HdSys) (k : Nat) : Prop where
  le : k ≤ start.current.nrSectors.toNat
  nrSectors : s.current.nrSectors.toNat = start.current.nrSectors.toNat - k
  sector : s.current.sector = start.current.sector + BitVec.ofNat 32 k
  buffer : s.current.buffer = start.current.buffer + BitVec.ofNat 32 (512 * k)
  /-- Nothing behind those sectors is written. -/
  frame : ∀ a : BitVec 32, 512 * k ≤ (a - start.current.buffer).toNat → s.mem a = start.mem a

/-- The states of a read: waiting for the next sector, or over, by success or by an error. -/
inductive Reading (start : HdSys) (irqs : List HdIrq) (s : HdSys) : Prop
  | waiting (hprog : Progress start s irqs.length)
      (hmore : irqs.length < start.current.nrSectors.toNat) (hgood : ∀ irq ∈ irqs, irq.Good)
      (harmed : s.doHd = some .readIntr) (hruns : ¬ s.stopped)
      (hcalled : s.called = List.replicate irqs.length .readIntr)
  | ended (k reads : Nat) (hprog : Progress start s k) (hreads : reads ≤ start.current.nrSectors.toNat)
      (hgood : (∀ irq ∈ irqs, irq.Good) → irqs.length ≤ start.current.nrSectors.toNat →
        k = irqs.length ∧ k = start.current.nrSectors.toNat)
      (hnull : s.doHd = none)
      (hcalled : s.called = List.replicate reads .readIntr ++
        if s.stopped then [.unexpectedHdInt] else [])

variable {start s : HdSys} {irqs : List HdIrq} {irq : HdIrq} {k : Nat}

/-- It is only about the request and the memory. -/
theorem Progress.congr {s' : HdSys} (h : Progress start s k) (hcurrent : s'.current = s.current)
    (hmem : s'.mem = s.mem) : Progress start s' k := by
  refine ⟨h.le, ?_, ?_, ?_, ?_⟩
  · rw [hcurrent]
    exact h.nrSectors
  · rw [hcurrent]
    exact h.sector
  · rw [hcurrent]
    exact h.buffer
  · rw [hmem]
    exact h.frame

/-- A sector more. -/
theorem Progress.next (h : Progress start s k) (hmore : k < start.current.nrSectors.toNat)
    (harmed : s.doHd = some .readIntr) (hgood : irq.Good) (hroom : irq.Room) :
    Progress start (hdInterrupt irq s) (k + 1) := by
  rw [hdInterrupt_good harmed hgood hroom]
  refine ⟨hmore, ?_, ?_, ?_, ?_⟩
  · have hleft := h.nrSectors
    have hone : (s.current.nrSectors - 1).toNat = s.current.nrSectors.toNat - 1 := by bv_omega
    rw [hone, hleft]
    omega
  · rw [h.sector, BitVec.ofNat_add, BitVec.add_assoc]
    rfl
  · rw [h.buffer, Nat.mul_add, BitVec.ofNat_add, BitVec.add_assoc]
    rfl
  · intro a ha
    have hbeyond : ¬ (a - s.current.buffer).toNat < 512 := by
      rw [h.buffer]
      bv_omega
    dsimp only
    rw [portRead_eq, if_neg hbeyond]
    exact h.frame a (by omega)

theorem Reading.init (hpos : 1 ≤ start.current.nrSectors.toNat) (hruns : ¬ start.stopped)
    (hcalled : start.called = []) : Reading start [] (mockHdOut start) := by
  refine .waiting ⟨?_, ?_, ?_, ?_, ?_⟩ hpos ?_ rfl hruns hcalled
  · exact Nat.zero_le _
  · rfl
  · exact (BitVec.add_zero _).symm
  · exact (BitVec.add_zero _).symm
  · intro a ha
    rfl
  · intro irq hirq
    cases hirq

/-- The interrupt has room in the log if it finds the read waiting. -/
theorem Reading.step (h : Reading start irqs s) (irq : HdIrq)
    (hroom : (∀ i ∈ irqs, i.Good) → irqs.length < start.current.nrSectors.toNat → irq.Room) :
    Reading start (irqs ++ [irq]) (takeIrq s irq) := by
  have hlength : (irqs ++ [irq]).length = irqs.length + 1 := by
    rw [List.length_append, List.length_singleton]
  cases h with
  | waiting hprog hmore hgood harmed hruns hcalled =>
    replace hroom := hroom hgood hmore
    rw [takeIrq_running hruns]
    have hhalt : s.halted = false := Bool.eq_false_iff.mpr fun h => hruns (Or.inl h)
    by_cases hirq : irq.Good
    · have hall : ∀ i ∈ irqs ++ [irq], i.Good := by
        intro i hi
        rcases List.mem_append.mp hi with hold | hnew
        · exact hgood i hold
        · rwa [List.mem_singleton.mp hnew]
      have hnext := hprog.next hmore harmed hirq hroom
      have hstate := hdInterrupt_good harmed hirq hroom
      have hcalled' : (hdInterrupt irq s).called = List.replicate (irqs.length + 1) .readIntr := by
        rw [hstate, List.replicate_succ', ← hcalled]
      have hruns' : ¬ (hdInterrupt irq s).stopped := by
        rw [hstate]
        simp [HdSys.stopped, hhalt]
      have hleft := hprog.nrSectors
      by_cases hlast : s.current.nrSectors - 1 ≠ 0
      · -- the handler is armed again
        refine .waiting (hlength ▸ hnext) ?_ hall ?_ hruns' ?_
        · rw [hlength]
          bv_omega
        · rw [hstate, if_pos hlast]
        · rw [hlength, hcalled']
      · have hdone : irqs.length + 1 = start.current.nrSectors.toNat := by bv_omega
        refine .ended (irqs.length + 1) (irqs.length + 1) hnext hmore ?_ ?_ ?_
        · intro _ _
          exact ⟨hlength.symm, hdone⟩
        · rw [hstate, if_neg hlast]
        · rw [hcalled', if_neg hruns', List.append_nil]
    · have hstate := hdInterrupt_bad harmed hirq
      have hruns' : ¬ (hdInterrupt irq s).stopped := by
        rw [hstate]
        simp [HdSys.stopped, hhalt, hroom]
      refine .ended irqs.length (irqs.length + 1) ?_ hmore ?_ ?_ ?_
      · rw [hstate]
        exact hprog.congr rfl rfl
      · intro hall
        exact absurd (hall irq (by simp)) hirq
      · rw [hstate]
      · rw [if_neg hruns', hstate, hcalled, List.replicate_succ', List.append_nil]
  | ended k reads hprog hreads hgood hnull hcalled =>
    have hgood' : (∀ i ∈ irqs ++ [irq], i.Good) →
        (irqs ++ [irq]).length ≤ start.current.nrSectors.toNat →
        k = (irqs ++ [irq]).length ∧ k = start.current.nrSectors.toNat := by
      intro hall hle
      have hboth := hgood (fun i hi => hall i (List.mem_append_left _ hi)) (by omega)
      omega
    by_cases hstop : s.stopped
    · rw [takeIrq_stopped hstop]
      exact .ended k reads hprog hreads hgood' hnull hcalled
    · rw [takeIrq_running hstop]
      rcases hdInterrupt_unexpected irq hnull with ⟨hmem, hcurrent, hnull', hstop', hcalled'⟩
      refine .ended k reads (hprog.congr hcurrent hmem) hreads hgood' hnull' ?_
      rw [hcalled', hcalled, if_neg hstop, if_pos hstop', List.append_nil]

/-! ## Room in the log -/

variable {n : Nat}

theorem Roomy.shorter {p : List HdIrq} (h : Roomy n irqs) (hp : p <+: irqs) : Roomy n p :=
  fun before irq hbefore => h before irq (hbefore.trans hp)

theorem Roomy.of_forall (h : ∀ irq ∈ irqs, irq.Room) : Roomy n irqs :=
  fun _ irq hp _ _ => h irq (hp.subset (List.mem_append_right _ List.mem_cons_self))

theorem takeIrqs_append (s : HdSys) (irqs : List HdIrq) (irq : HdIrq) :
    takeIrqs s (irqs ++ [irq]) = takeIrq (takeIrqs s irqs) irq := by
  rw [takeIrqs, takeIrqs, List.foldl_append]
  rfl

/-- With room for what `read_intr` prints, every state is one of the read. -/
theorem Reading.run (h : Reading start [] s) (hroomy : Roomy start.current.nrSectors.toNat irqs) :
    Reading start irqs (takeIrqs s irqs) := by
  induction irqs using List.reverseRecOn with
  | nil => exact h
  | append_singleton irqs irq ih =>
    rw [takeIrqs_append]
    exact (ih (hroomy.shorter (List.prefix_append _ _))).step irq fun hgood hlt =>
      hroomy irqs irq (List.prefix_refl _) hlt hgood

theorem Reading.progress (h : Reading start irqs s) : ∃ k, Progress start s k := by
  cases h with
  | waiting hprog => exact ⟨_, hprog⟩
  | ended k _ hprog => exact ⟨k, hprog⟩

/-- While every status is good, all sectors so far are in. -/
theorem Reading.good (h : Reading start irqs s) (hgood : ∀ irq ∈ irqs, irq.Good)
    (hle : irqs.length ≤ start.current.nrSectors.toNat) : Progress start s irqs.length := by
  cases h with
  | waiting hprog => exact hprog
  | ended k reads hprog hreads hk =>
    rw [← (hk hgood hle).1]
    exact hprog

/-- The handler is gone after `n` interrupts, and after a bad one. The processor still runs until
there is an unexpected one. -/
theorem Reading.null (h : Reading start irqs s)
    (hover : start.current.nrSectors.toNat ≤ irqs.length ∨ ∃ irq ∈ irqs, ¬ irq.Good) :
    s.doHd = none ∧ (.unexpectedHdInt ∉ s.called → ¬ s.stopped) := by
  cases h with
  | waiting hprog hmore hgood =>
    rcases hover with hmany | ⟨irq, hirq, hbad⟩
    · omega
    · exact absurd (hgood irq hirq) hbad
  | ended k reads hprog hreads hk hnull hcalled =>
    refine ⟨hnull, fun hno hstop => hno ?_⟩
    rw [hcalled, if_pos hstop]
    exact List.mem_append_right _ List.mem_cons_self

theorem Reading.count (h : Reading start irqs s) :
    s.called.count .readIntr ≤ start.current.nrSectors.toNat := by
  cases h with
  | waiting hprog hmore hgood harmed hruns hcalled =>
    rw [hcalled, List.count_replicate_self]
    exact hprog.le
  | ended k reads hprog hreads hk hnull hcalled =>
    rw [hcalled, List.count_append, List.count_replicate_self]
    split <;> simpa using hreads

/-- A read is waiting while fewer than `n` sectors are in and every status was good. -/
theorem Reading.armed (h : Reading start irqs s) (hgood : ∀ irq ∈ irqs, irq.Good)
    (hlt : irqs.length < start.current.nrSectors.toNat) :
    s.doHd = some .readIntr ∧ ¬ s.stopped := by
  cases h with
  | waiting hprog hmore hgood harmed hruns => exact ⟨harmed, hruns⟩
  | ended k reads hprog hreads hk =>
    have hboth := hk hgood (by omega)
    omega

/-- The sector of the next good interrupt goes behind those that are in. -/
theorem Reading.stores (h : Reading start irqs s) (hgood : ∀ irq ∈ irqs, irq.Good)
    (hlt : irqs.length < start.current.nrSectors.toNat) (hirq : irq.Good) (hroom : irq.Room) {j : Nat}
    (hj : j < 512) :
    (takeIrq s irq).mem (start.current.buffer + BitVec.ofNat 32 (512 * irqs.length) +
      BitVec.ofNat 32 j) = irq.byte j := by
  obtain ⟨harmed, hruns⟩ := h.armed hgood hlt
  have hbuffer := (h.good hgood (by omega)).buffer
  rw [takeIrq_running hruns, hdInterrupt_good harmed hirq hroom, ← hbuffer]
  dsimp only
  have hdist : (s.current.buffer + BitVec.ofNat 32 j - s.current.buffer).toNat = j := by bv_omega
  rw [portRead_eq, hdist, if_pos hj]

/-- A read whose interrupts find room. -/
theorem Reading.diskRead (hinit : Reading start [] (mockHdOut start))
    (hroomy : Roomy start.current.nrSectors.toNat irqs) : DiskRead start irqs := by
  have hread := hinit.run hroomy
  refine ⟨fun hgood hle => (hread.good hgood hle).sector, fun hgood hle => (hread.good hgood hle).nrSectors, ?_,
    hread.count, ?_, ?_, ?_⟩
  · rintro hgood hle before irq rfl j hj
    rw [List.length_append, List.length_singleton] at hle
    have hbefore : ∀ i ∈ before, i.Good := fun i hi => hgood i (List.mem_append_left _ hi)
    rw [takeIrqs_append]
    exact (hinit.run (hroomy.shorter (List.prefix_append _ _))).stores hbefore hle (hgood irq (by simp))
      (hroomy before irq (List.prefix_refl _) hle hbefore) hj
  · intro hover
    rcases hread.null hover with ⟨hnull, hruns⟩
    refine ⟨hnull, fun irq hno => ?_⟩
    rw [takeIrqs_append, takeIrq_running (hruns hno)]
    exact (hdInterrupt_unexpected irq hnull).2.2.2.2
  · obtain ⟨k, hprog⟩ := hread.progress
    rw [hprog.nrSectors]
    omega
  · intro a ha
    obtain ⟨k, hprog⟩ := hread.progress
    have hle := hprog.le
    exact hprog.frame a (by omega)

/-- Without room the sector is not counted, or the next interrupt is not taken. -/
theorem Reading.room (h : Reading start irqs (takeIrqs (mockHdOut start) irqs)) (hgood : ∀ i ∈ irqs, i.Good)
    (hlt : irqs.length < start.current.nrSectors.toNat) (hread : DiskRead start (irqs ++ [irq])) : irq.Room := by
  obtain ⟨harmed, hruns⟩ := h.armed hgood hlt
  have hlength : (irqs ++ [irq]).length = irqs.length + 1 := by
    rw [List.length_append, List.length_singleton]
  by_contra hroom
  by_cases hirq : irq.Good
  · have hall : ∀ i ∈ irqs ++ [irq], i.Good := by
      intro i hi
      rcases List.mem_append.mp hi with hold | hnew
      · exact hgood i hold
      · rwa [List.mem_singleton.mp hnew]
    have hsector := hread.sector hall (by omega)
    rw [takeIrqs_append, takeIrq_running hruns, hdInterrupt_full harmed hirq hroom, hlength] at hsector
    have hold := (h.good hgood (Nat.le_of_lt hlt)).sector
    rw [show (takeIrqs (mockHdOut start) irqs).current.sector = _ from hsector] at hold
    bv_omega
  · have hstop : (takeIrqs (mockHdOut start) (irqs ++ [irq])).stopped := by
      rw [takeIrqs_append, takeIrq_running hruns, hdInterrupt_bad harmed hirq]
      exact Or.inr (by simp [hroom])
    have hcalled : (takeIrqs (mockHdOut start) (irqs ++ [irq])).called = List.replicate (irqs.length + 1) .readIntr := by
      rw [takeIrqs_append, takeIrq_running hruns, hdInterrupt_bad harmed hirq]
      cases h with
      | waiting hprog hmore hgood harmed hruns hcalled => rw [hcalled, List.replicate_succ']
      | ended k reads hprog hreads hk => exact absurd (hk hgood (by omega)) (by omega)
    have hno : HdHandler.unexpectedHdInt ∉ (takeIrqs (mockHdOut start) (irqs ++ [irq])).called := by
      rw [hcalled]
      simp
    have hnext := (hread.ended (Or.inr ⟨irq, by simp, hirq⟩)).2 irq hno
    rw [takeIrqs_append _ (irqs ++ [irq]), takeIrq_stopped hstop] at hnext
    simp at hnext

/-- The disk read as a state machine, from a request of `n ≥ 1` sectors that is armed on a running
processor: over a sequence of interrupts it does what it should exactly if each that `read_intr`
answers finds room in the log for the text that `read_intr` prints. -/
theorem disk_read_machine (hpos : 1 ≤ start.current.nrSectors.toNat) (hruns : ¬ start.stopped)
    (hcalled : start.called = []) (irqs : List HdIrq) :
    (∀ p, p <+: irqs → DiskRead start p) ↔ Roomy start.current.nrSectors.toNat irqs := by
  have hinit := Reading.init hpos hruns hcalled
  constructor
  · intro hall
    induction irqs using List.reverseRecOn with
    | nil => exact Roomy.of_forall fun irq hirq => by cases hirq
    | append_singleton irqs irq ih =>
      have hroomy := ih fun p hp => hall p (hp.trans (List.prefix_append _ _))
      intro before i hbefore hlt hgood
      rcases List.prefix_concat_iff.mp hbefore with heq | hprefix
      · obtain ⟨rfl, hi⟩ := List.append_inj' heq rfl
        rw [List.singleton_inj.mp hi]
        exact (hinit.run hroomy).room hgood hlt (hall _ (List.prefix_refl _))
      · exact hroomy before i hprefix hlt hgood
  · exact fun hroomy p hp => hinit.diskRead (hroomy.shorter hp)

/-- A processor with the request of `sys_kdebug` for block 0, not armed yet. -/
def kdebugHd : HdSys := ⟨fun _ => 0, ⟨0, 0, 2, 0x1000⟩, none, 0, [], false, false, []⟩

/-- The two sectors that `sys_kdebug` asks for with a log that is partly full, and an interrupt too
many. -/
theorem disk_read_kdebug :
    ∃ irq : HdIrq, irq.limit = 2000 ∧
      (takeIrqs (sysKdebug 0 0x1000 kdebugHd) [irq, irq]).current.nrSectors.toNat = 0 ∧
      (takeIrqs (sysKdebug 0 0x1000 kdebugHd) ([irq, irq] ++ [irq])).called =
        (takeIrqs (sysKdebug 0 0x1000 kdebugHd) [irq, irq]).called ++ [.unexpectedHdInt] := by
  have hgood : HdIrq.Good ⟨0x50, 0, fun _ => 0x4142, 2000⟩ := by decide
  have hroom : HdIrq.Room ⟨0x50, 0, fun _ => 0x4142, 2000⟩ := by decide
  have hread : DiskRead kdebugHd [⟨0x50, 0, fun _ => 0x4142, 2000⟩, ⟨0x50, 0, fun _ => 0x4142, 2000⟩] := by
    refine (@disk_read_machine kdebugHd (by decide) (by decide) rfl _).mpr (Roomy.of_forall ?_) _
      (List.prefix_refl _)
    simpa using hroom
  refine ⟨⟨0x50, 0, fun _ => 0x4142, 2000⟩, rfl, ?_, ?_⟩
  · exact hread.nrSectors (by simpa using hgood) (by decide)
  · exact (hread.ended (.inl (by decide))).2 _ (by decide +kernel)

/-- With a full log the first good interrupt of that read stores its sector, counts nothing and does
not come back. -/
theorem disk_read_full_log :
    HdIrq.Good ⟨0x50, 0, fun _ => 0x4142, 2048⟩ ∧
      (takeIrqs (sysKdebug 0 0x1000 kdebugHd) [⟨0x50, 0, fun _ => 0x4142, 2048⟩]).hung = true ∧
      ¬ DiskRead kdebugHd [⟨0x50, 0, fun _ => 0x4142, 2048⟩] := by
  have hgood : HdIrq.Good ⟨0x50, 0, fun _ => 0x4142, 2048⟩ := by decide
  have hroom : ¬ HdIrq.Room ⟨0x50, 0, fun _ => 0x4142, 2048⟩ := by decide
  have htaken := takeIrq_running (s := sysKdebug 0 0x1000 kdebugHd) (by decide) ⟨0x50, 0, fun _ => 0x4142, 2048⟩
  refine ⟨hgood, ?_, fun hread => hroom ?_⟩
  · rw [takeIrqs, List.foldl_cons, List.foldl_nil, htaken, hdInterrupt_full rfl hgood hroom]
  · exact (@Reading.init kdebugHd (by decide) (by decide) rfl).room (fun i hi => by cases hi) (by decide) hread

end MockOs.Kernel
