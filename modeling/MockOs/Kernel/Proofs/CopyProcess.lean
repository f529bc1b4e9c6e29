import MockOs.Kernel.Proofs.TaskStruct
import MockOs.Misc.Bits

/-!
# `copy_process` and the structures of the tasks

`Structs` says where the `task_struct` of each task is. What `copy_process` does to the
structures does not depend on what is in the page tables, as long as the copies of the tables
and of the page of the stack are made in other frames.
-/

namespace MockOs.Kernel

open Mm

/-- The linear address where task `t` starts. -/
def taskBase (t : Fin 64) : BitVec 32 := BitVec.ofNat 32 t * taskSize

theorem toNat_taskBase (t : Fin 64) : (taskBase t).toNat = 67108864 * (t : Nat) := by
  have ht := t.isLt
  have hsize : taskSize.toNat = 67108864 := rfl
  rw [taskBase, BitVec.toNat_mul, BitVec.toNat_ofNat, hsize]
  omega

/-- The `task_struct` at word `x`: the segments of task `t`, no files, and a youngest child
that is a task. -/
structure TaskOk (m : Memory) (loc : Fin 64 → Option Nat) (t : Fin 64) (x : Nat) : Prop where
  code : (⟨m.word (x + 232), m.word (x + 233)⟩ : Desc) = setBase ⟨0x9f, 0xc0fa00⟩ (taskBase t)
  data : (⟨m.word (x + 234), m.word (x + 235)⟩ : Desc) = setBase ⟨0x9f, 0xc0f200⟩ (taskBase t)
  null : ∀ j, 205 ≤ j → j < 230 → j ≠ 209 → m.word (x + j) = 0
  cptr : m.word (x + 176) = 0 ∨ ∃ t' y, t' ≠ 0 ∧ loc t' = some y ∧ m.word (x + 176) = wordAddr y

/-- Other words do not matter. -/
theorem TaskOk.congr {m m' : Memory} {loc : Fin 64 → Option Nat} {t : Fin 64} {x : Nat} (h : TaskOk m loc t x)
    (heq : ∀ j, j = 176 ∨ (205 ≤ j ∧ j < 236) → m'.word (x + j) = m.word (x + j)) : TaskOk m' loc t x where
  code := by
    rw [heq 232 (by decide), heq 233 (by decide)]
    exact h.code
  data := by
    rw [heq 234 (by decide), heq 235 (by decide)]
    exact h.data
  null j hj hj' hne := by
    rw [heq j (by omega)]
    exact h.null j hj hj' hne
  cptr := by
    rw [heq 176 (by decide)]
    exact h.cptr

/-- The tasks of `s` are those of `loc`. `init_task` and its kernel stack are at word `w0` of
the first 640 KB, and the other structures in frames of their own. -/
structure Structs (w0 : Nat) (s : ForkSys) (loc : Fin 64 → Option Nat) : Prop where
  task : ∀ t : Fin 64, s.task t = (loc t).elim 0 wordAddr
  initLow : 5120 ≤ w0 ∧ w0 + 1024 ≤ 163840
  locZero : loc 0 = some w0
  locHigh : ∀ t x, t ≠ 0 → loc t = some x → ∃ f, x = 1024 * f ∧ 256 ≤ f ∧ f < 4096
  locInj : ∀ t t' x, loc t = some x → loc t' = some x → t = t'
  ok : ∀ t x, loc t = some x → TaskOk s.mm loc t x
  math : s.lastTaskUsedMath = 0

/-- An empty slot is not that of a task. -/
theorem slot_ne {loc : Fin 64 → Option Nat} {t c : Fin 64} {y : Nat} (ht : loc t = some y) (hcn : loc c = none) :
    c ≠ t := by
  rintro rfl
  rw [hcn] at ht
  cases ht

/-- A word of the page of a structure. -/
def InStruct (loc : Fin 64 → Option Nat) (z : Nat) : Prop := ∃ t x, loc t = some x ∧ x ≤ z ∧ z < x + 1024

/-- What a successful `copy_process` leaves in the variables of the kernel and in the
structures: the child's, in frame `k`, is linked in front of `old`. -/
structure Forked (s s' : ForkSys) (loc : Fin 64 → Option Nat) (c : Fin 64) (y k : Nat)
    (old : Option Nat) : Prop where
  rest : s' = { s with
    mm := s'.mm
    task := Function.update s.task c (wordAddr (1024 * k))
    gdt := Function.update (Function.update s.gdt (2 * c + 4)
      (setTssldtDesc (wordAddr (1024 * k) + Off.tss) 0x89)) (2 * c + 5)
      (setTssldtDesc (wordAddr (1024 * k) + Off.ldt) 0x82) }
  before : s.mm.word (y + 176) = old.elim 0 wordAddr
  oldLoc : ∀ y', old = some y' → ∃ t, t ≠ 0 ∧ loc t = some y'
  pptr : s'.mm.word (1024 * k + 175) = wordAddr y
  cptr : s'.mm.word (1024 * k + 176) = 0
  ysptr : s'.mm.word (1024 * k + 177) = 0
  osptr : s'.mm.word (1024 * k + 178) = old.elim 0 wordAddr
  parent : s'.mm.word (y + 176) = wordAddr (1024 * k)
  older : ∀ y', old = some y' → s'.mm.word (y' + 177) = wordAddr (1024 * k)
  seg : ∀ i, i = 1 ∨ i = 2 → s'.getDesc (ForkSys.ldtEntry (wordAddr (1024 * k)) i) =
    setBase (s.getDesc (ForkSys.ldtEntry (wordAddr y) i)) (taskBase c)
  copy : ∀ j < 289, (∀ o ∈ ForkSys.childOffsets, j ≠ o.toNat / 4) → j ≠ 134 → (j < 175 ∨ 178 < j) →
    (j < 232 ∨ 236 ≤ j) → s'.mm.word (1024 * k + j) = s.mm.word (y + j)
  frame : ∀ t x j, loc t = some x → j < 1024 → x + j ≠ y + 176 →
    (∀ y', old = some y' → x + j ≠ y' + 177) → s'.mm.word (x + j) = s.mm.word (x + j)

namespace Structs

variable {w0 : Nat} {s s3 : ForkSys} {loc : Fin 64 → Option Nat} {t c : Fin 64} {x y k : Nat} {r : Regs}
  {m1 m4 m5 : Memory}

theorem task_eq (h : Structs w0 s loc) (ht : loc t = some x) : s.task t = wordAddr x := by
  rw [h.task t, ht]
  rfl

theorem loc_bounds (h : Structs w0 s loc) (ht : loc t = some x) : 5120 ≤ x ∧ x + 1024 ≤ 4194304 := by
  by_cases ht0 : t = 0
  · rw [ht0, h.locZero] at ht
    have hx := Option.some.inj ht
    have hlow := h.initLow
    omega
  · rcases h.locHigh t x ht0 ht with ⟨f, hxf, hlow, hhigh⟩
    omega

/-- The structures of two tasks are apart. -/
theorem loc_apart (h : Structs w0 s loc) (ht : loc t = some x) (hc : loc c = some y) :
    (t = c ∧ x = y) ∨ (t ≠ c ∧ (x + 1024 ≤ y ∨ y + 1024 ≤ x)) := by
  by_cases htc : t = c
  · rw [htc, hc] at ht
    exact Or.inl ⟨htc, (Option.some.inj ht).symm⟩
  · have hlow := h.initLow
    refine Or.inr ⟨htc, ?_⟩
    have hxy : x ≠ y := by
      rintro rfl
      exact htc (h.locInj t c x ht hc)
    by_cases ht0 : t = 0
    · rw [ht0, h.locZero] at ht
      have hx := Option.some.inj ht
      rcases h.locHigh c y (fun hc0 => htc (ht0.trans hc0.symm)) hc with ⟨f, hyf, hf, -⟩
      omega
    · rcases h.locHigh t x ht0 ht with ⟨f, hxf, hf, -⟩
      by_cases hc0 : c = 0
      · rw [hc0, h.locZero] at hc
        have hy := Option.some.inj hc
        omega
      · rcases h.locHigh c y hc0 hc with ⟨f', hyf', -, -⟩
        omega

theorem segment (h : Structs w0 s loc) (ht : loc t = some y) {i : Nat} (hi : i = 1 ∨ i = 2) :
    getBase (s.getDesc (ForkSys.ldtEntry (wordAddr y) i)) = taskBase t ∧
      limitOf (s.getDesc (ForkSys.ldtEntry (wordAddr y) i)) = 0xa0000 := by
  have hy := h.loc_bounds ht
  have hok := h.ok t y ht
  rw [ForkSys.ldtEntry_eq, ForkSys.getDesc_eq (by omega)]
  rcases hi with rfl | rfl
  · rw [show y + (230 + 2 * 1) = y + 232 from rfl, hok.code, getBase_setBase, limitOf_setBase]
    exact ⟨rfl, by decide⟩
  · rw [show y + (230 + 2 * 2) = y + 234 from rfl, hok.data, getBase_setBase, limitOf_setBase]
    exact ⟨rfl, by decide⟩

/-- The youngest child of a task, as a place. -/
theorem youngest (h : Structs w0 s loc) (ht : loc t = some y) :
    ∃ old : Option Nat, s.mm.word (y + 176) = old.elim 0 wordAddr ∧
      ∀ y', old = some y' → ∃ t', t' ≠ 0 ∧ loc t' = some y' := by
  rcases (h.ok t y ht).cptr with hz | ⟨t', y', ht', hy', hw⟩
  · exact ⟨none, hz, fun _ hno => by cases hno⟩
  · refine ⟨some y', hw, fun y'' heq => ⟨t', ht', ?_⟩⟩
    rw [← Option.some.inj heq]
    exact hy'

end Structs

/-! ## The structure of the child -/

/-- The state when the child's structure is filled in, in frame `k`, after `get_free_page` has
left the memory `m`; the page tables have not been copied yet. -/
def ForkSys.prepared (s : ForkSys) (c : Fin 64) (r : Regs) (k : Nat) (m : Memory) : ForkSys :=
  (({ s with mm := m, task := Function.update s.task c (wordAddr (1024 * k)) } : ForkSys).initChild c r
    (wordAddr (1024 * k))).setBases (taskBase c) (wordAddr (1024 * k))

/-- What has been done by then. -/
structure Prepared (s s' : ForkSys) (m : Memory) (c : Fin 64) (y k : Nat) : Prop where
  rest : s' = { s with mm := s'.mm, task := Function.update s.task c (wordAddr (1024 * k)) }
  map : s'.mm.memMap = m.memMap
  word : ∀ z, z / 1024 ≠ k → s'.mm.word z = m.word z
  seg : ∀ i, i = 1 ∨ i = 2 → s'.getDesc (ForkSys.ldtEntry (wordAddr (1024 * k)) i) =
    setBase (s.getDesc (ForkSys.ldtEntry (wordAddr y) i)) (taskBase c)
  copy : ∀ j < 289, (∀ o ∈ ForkSys.childOffsets, j ≠ o.toNat / 4) → j ≠ 134 → (j < 232 ∨ 236 ≤ j) →
    s'.mm.word (1024 * k + j) = s.mm.word (y + j)
  set : ForkSys.ChildSet s'.mm s.lastPid c (1024 * k)

/-- Frame `k` is free for the child's structure, and `get_free_page` has changed no other. -/
structure FreshPage (s : ForkSys) (loc : Fin 64 → Option Nat) (k : Nat) (m : Memory) : Prop where
  low : 256 ≤ k
  high : k < 4096
  apart : ∀ z, InStruct loc z → z / 1024 ≠ k
  word : ∀ z, z / 1024 ≠ k → m.word z = s.mm.word z

theorem FreshPage.apart_loc {s : ForkSys} {loc : Fin 64 → Option Nat} {k x : Nat} {m : Memory} {t : Fin 64}
    (hk : FreshPage s loc k m) (ht : loc t = some x) : 1024 * k + 1024 ≤ x ∨ x + 1024 ≤ 1024 * k := by
  have h1 := hk.apart x ⟨t, x, ht, Nat.le_refl x, by omega⟩
  have h2 := hk.apart (x + 1023) ⟨t, x, ht, by omega, by omega⟩
  omega

namespace Structs

variable {w0 : Nat} {s s3 : ForkSys} {loc : Fin 64 → Option Nat} {t c : Fin 64} {x y k : Nat} {r : Regs}
  {m1 m4 m5 : Memory}

theorem math_ne (h : Structs w0 s loc) (ht : loc t = some y) (hcur : s.current = wordAddr y) :
    s.lastTaskUsedMath ≠ s.current := by
  have hy := h.loc_bounds ht
  rw [hcur]
  exact h.math.trans_ne (wordAddr_ne_zero (by omega) (by omega)).symm

/-- The child's structure after `*p = *current` and the fields that are set. -/
theorem initChild (h : Structs w0 s loc) (ht : loc t = some y) (hcur : s.current = wordAddr y)
    (c : Fin 64) (r : Regs) (hk : FreshPage s loc k m1) {s1 : ForkSys}
    (hs1 : s1 = { s with mm := m1, task := Function.update s.task c (wordAddr (1024 * k)) }) :
    ForkSys.Within (1024 * k) s1 (s1.initChild c r (wordAddr (1024 * k))) ∧
      (∀ j < 289, (∀ o ∈ ForkSys.childOffsets, j ≠ o.toNat / 4) →
        (s1.initChild c r (wordAddr (1024 * k))).mm.word (1024 * k + j) = s.mm.word (y + j)) ∧
      ForkSys.ChildSet (s1.initChild c r (wordAddr (1024 * k))).mm s.lastPid c (1024 * k) := by
  have hy := h.loc_bounds ht
  have hhigh := hk.high
  have hap := hk.apart_loc ht
  have hcur1 : s1.current = wordAddr y := by
    rw [hs1]
    exact hcur
  have hmath1 : s1.lastTaskUsedMath ≠ s1.current := by
    rw [hs1]
    exact h.math_ne ht hcur
  have hpid1 : s1.lastPid = s.lastPid := by rw [hs1]
  rcases ForkSys.initChild_spec c r hcur1 hmath1 (x := 1024 * k) (by omega) (by omega) hap with
    ⟨hwithin, hcopy, hset⟩
  refine ⟨hwithin, fun j hj hno => ?_, hpid1 ▸ hset⟩
  rw [hcopy j hj hno, hs1]
  exact hk.word _ (by omega)

theorem prepared (h : Structs w0 s loc) (ht : loc t = some y) (hcur : s.current = wordAddr y)
    (c : Fin 64) (r : Regs) (hk : FreshPage s loc k m1) : Prepared s (s.prepared c r k m1) m1 c y k := by
  have hy := h.loc_bounds ht
  have hhigh := hk.high
  rw [ForkSys.prepared]
  obtain ⟨s1, hs1⟩ : ∃ s1 : ForkSys, s1 =
    { s with mm := m1, task := Function.update s.task c (wordAddr (1024 * k)) } := ⟨_, rfl⟩
  rw [← hs1]
  have hmm1 : s1.mm = m1 := by rw [hs1]
  rcases h.initChild ht hcur c r hk hs1 with ⟨hwithin2, hcopy2, hset2⟩
  generalize ForkSys.initChild c r (wordAddr (1024 * k)) s1 = s2 at hwithin2 hcopy2 hset2
  rcases ForkSys.setBases_spec s2 (taskBase c) (x := 1024 * k) (by omega) with ⟨hwithin3, hseg3, hword3⟩
  have hwithin := hwithin2.trans hwithin3
  refine ⟨?_, ?_, fun z hz => ?_, fun i hi => ?_, fun j hj hno h134 hseg => ?_, ?_⟩
  · rw [hwithin.rest, hs1]
  · rw [hwithin.map, hmm1]
  · rw [hwithin.word z (by omega), hmm1]
  · -- the segments are those of the parent, with the new base
    have hchild : ∀ j, 232 ≤ j → j < 236 → s2.mm.word (1024 * k + j) = s.mm.word (y + j) :=
      fun j hj hj' => hcopy2 j (by omega) (ForkSys.childOffsets_ne (by omega) hj')
    rw [hseg3 i hi, ForkSys.ldtEntry_eq, ForkSys.ldtEntry_eq, ForkSys.getDesc_eq (by omega),
      ForkSys.getDesc_eq (by omega), hchild _ (by omega) (by omega), Nat.add_assoc (1024 * k),
      hchild _ (by omega) (by omega), Nat.add_assoc y]
  · rw [hword3 j h134 hseg, hcopy2 j hj hno]
  · exact hset2.congr fun j hj => hword3 j (by omega) (by omega)

/-- The fields of the child's TSS. -/
theorem prepared_field (h : Structs w0 s loc) (ht : loc t = some y) (hcur : s.current = wordAddr y)
    (hk : k < 4096) {o v : BitVec 32} (ho : 236 ≤ o.toNat / 4)
    (hmem : ∀ s', (o, v) ∈ ForkSys.childFields c r (wordAddr (1024 * k)) s') :
    (s.prepared c r k m1).mm.word (1024 * k + o.toNat / 4) = v := by
  rw [ForkSys.prepared]
  obtain ⟨s1, hs1⟩ : ∃ s1 : ForkSys, s1 =
    { s with mm := m1, task := Function.update s.task c (wordAddr (1024 * k)) } := ⟨_, rfl⟩
  have hmath1 : s1.lastTaskUsedMath ≠ s1.current := by
    rw [hs1]
    exact h.math_ne ht hcur
  rw [← hs1]
  have hfield := ForkSys.initChild_field c r (x := 1024 * k) hmath1 (by omega) hmem
  generalize ForkSys.initChild c r (wordAddr (1024 * k)) s1 = s2 at hfield
  rcases ForkSys.setBases_spec s2 (taskBase c) (x := 1024 * k) (by omega) with ⟨-, -, hword⟩
  rw [hword _ (by omega) (Or.inr ho), hfield]

/-- `copy_mem` gets as far as the copy of the page tables. -/
theorem copyMem_prepared (h : Structs w0 s loc) (ht : loc t = some y) (hcur : s.current = wordAddr y)
    (c : Fin 64) (r : Regs) (hk : FreshPage s loc k m1) :
    (({ s with mm := m1, task := Function.update s.task c (wordAddr (1024 * k)) } : ForkSys).initChild c r
      (wordAddr (1024 * k))).copyMem c (wordAddr (1024 * k)) =
      (copyPageTables (taskBase t) (taskBase c) 0xa0000 (s.prepared c r k m1).mm).map fun res =>
        ({ s.prepared c r k m1 with mm := res.1 }, 0) := by
  have hy := h.loc_bounds ht
  have hap := hk.apart_loc ht
  rw [ForkSys.prepared]
  obtain ⟨s1, hs1⟩ : ∃ s1 : ForkSys, s1 =
    { s with mm := m1, task := Function.update s.task c (wordAddr (1024 * k)) } := ⟨_, rfl⟩
  rw [← hs1]
  have hwithin := (h.initChild ht hcur c r hk hs1).1
  generalize ForkSys.initChild c r (wordAddr (1024 * k)) s1 = s2 at hwithin
  have hdesc : ∀ i, i = 1 ∨ i = 2 → s2.getDesc (ForkSys.ldtEntry s2.current i) =
      s.getDesc (ForkSys.ldtEntry (wordAddr y) i) := by
    intro i hi
    have hcur2 : s2.current = wordAddr y := by
      rw [hwithin.rest, hs1]
      exact hcur
    have hword : ∀ j < 1024, s2.mm.word (y + j) = s.mm.word (y + j) := by
      intro j hj
      rw [hwithin.word _ (by omega), hs1]
      exact hk.word _ (by omega)
    rw [hcur2, ForkSys.ldtEntry_eq]
    exact ForkSys.getDesc_congr (by omega) (hword _ (by omega)) (hword (230 + 2 * i + 1) (by omega))
  have hcode := h.segment ht (Or.inl rfl)
  have hdata := h.segment ht (Or.inr rfl)
  rw [← hdesc 1 (Or.inl rfl)] at hcode
  rw [← hdesc 2 (Or.inr rfl)] at hdata
  exact ForkSys.copyMem_eq hcode.1 hdata.1 hcode.2 hdata.2

/-! ## The rest of `copy_process` -/

/-- The files and directories are not counted, as there are none; what is left to do after the
copy of the stack's page are the descriptors and the links. -/
theorem finishChild_eq (h : Structs w0 s loc) (ht : loc t = some y) (hcur : s.current = wordAddr y)
    (hk : FreshPage s loc k m1) (hprep : Prepared s s3 m1 c y k) {esp : BitVec 32}
    (hkeep4 : ∀ z, InStruct loc z ∨ z / 1024 = k → m4.word z = s3.mm.word z)
    (hm5 : unWpPage (lin2phy (ForkSys.stackAddress esp (taskBase c)) m4) m4 = m5)
    (hkeep5 : ∀ z, InStruct loc z ∨ z / 1024 = k → m5.word z = s3.mm.word z) :
    ForkSys.finishChild c esp (wordAddr (1024 * k)) { s3 with mm := m4 } =
      (ForkSys.linkProcess (wordAddr (1024 * k)) { s3 with
        mm := m5
        gdt := Function.update (Function.update s3.gdt (2 * c + 4)
          (setTssldtDesc (wordAddr (1024 * k) + Off.tss) 0x89)) (2 * c + 5)
          (setTssldtDesc (wordAddr (1024 * k) + Off.ldt) 0x82) }).set (wordAddr (1024 * k)) Off.state
        taskRunning := by
  have hy := h.loc_bounds ht
  have hhigh := hk.high
  have hap := hk.apart_loc ht
  have hnull := (h.ok t y ht).null
  have hbase : getBase (({ s3 with mm := m4 } : ForkSys).getDesc (ForkSys.ldtEntry (wordAddr (1024 * k)) 2)) =
      taskBase c := by
    have hdesc : ({ s3 with mm := m4 } : ForkSys).getDesc (ForkSys.ldtEntry (wordAddr (1024 * k)) 2) =
        s3.getDesc (ForkSys.ldtEntry (wordAddr (1024 * k)) 2) := by
      rw [ForkSys.ldtEntry_eq]
      exact ForkSys.getDesc_congr (by omega) (hkeep4 _ (Or.inr (by omega))) (hkeep4 _ (Or.inr (by omega)))
    rw [hdesc, hprep.seg 2 (Or.inr rfl), getBase_setBase]
  have hcur5 : ({ s3 with mm := m5 } : ForkSys).current = wordAddr y := by
    rw [hprep.rest]
    exact hcur
  have hfiles : ForkSys.countFiles (wordAddr (1024 * k)) nrOpen 0 { s3 with mm := m5 } =
      { s3 with mm := m5 } := by
    apply ForkSys.countFiles_null (by omega) nrOpen 0 (by decide)
    intro j hj hj'
    show m5.word (1024 * k + j) = 0
    rw [hkeep5 _ (Or.inr (by omega)), hprep.copy j (by omega)
      (ForkSys.childOffsets_ne (by omega) (by omega)) (by omega) (by omega)]
    exact hnull j (by omega) hj' (by omega)
  have hinode : ∀ o i, Field o → o.toNat / 4 = i → 205 ≤ i → i < 209 →
      ForkSys.countInode o { s3 with mm := m5 } = { s3 with mm := m5 } := by
    intro o i ho hi hlow hhigh
    apply ForkSys.countInode_null hcur5 (by omega) ho
    show m5.word (y + o.toNat / 4) = 0
    rw [hi, hkeep5 _ (Or.inl ⟨t, y, ht, by omega, by omega⟩), hprep.word _ (by omega), hk.word _ (by omega)]
    exact hnull i hlow (by omega) (by omega)
  rw [ForkSys.finishChild]
  simp only [hbase, hm5, hfiles, hinode Off.pwd 205 (by decide) (by decide) (by decide) (by decide),
    hinode Off.root 206 (by decide) (by decide) (by decide) (by decide),
    hinode Off.executable 207 (by decide) (by decide) (by decide) (by decide),
    hinode Off.library 208 (by decide) (by decide) (by decide) (by decide)]

/-- The links and the state of the child, written over a memory `m5` in which the structures
are as `Prepared` has them. -/
theorem linked_forked {s6 : ForkSys} (h : Structs w0 s loc) (ht : loc t = some y)
    (hcur : s.current = wordAddr y) (hk : FreshPage s loc k m1) (hprep : Prepared s s3 m1 c y k)
    (hkeep5 : ∀ z, InStruct loc z ∨ z / 1024 = k → m5.word z = s3.mm.word z)
    (hs6 : s6 = { s3 with
        mm := m5
        gdt := Function.update (Function.update s3.gdt (2 * c + 4)
          (setTssldtDesc (wordAddr (1024 * k) + Off.tss) 0x89)) (2 * c + 5)
          (setTssldtDesc (wordAddr (1024 * k) + Off.ldt) 0x82) }) :
    ∃ old s', (s6.linkProcess (wordAddr (1024 * k))).set (wordAddr (1024 * k)) Off.state taskRunning = s' ∧
      Forked s s' loc c y k old ∧ ForkSys.ChildSet s'.mm s.lastPid c (1024 * k) ∧
      s'.mm.memMap = m5.memMap ∧ (∀ z, ¬ InStruct loc z → z / 1024 ≠ k → s'.mm.word z = m5.word z) ∧
      ∀ j, 178 < j → j < 1024 → s'.mm.word (1024 * k + j) = s3.mm.word (1024 * k + j) := by
  have hy := h.loc_bounds ht
  have hhigh := hk.high
  have hmm6 : s6.mm = m5 := by rw [hs6]
  have hcur6 : s6.current = wordAddr y := by
    rw [hs6, hprep.rest]
    exact hcur
  -- the structures are where they were
  have hstruct : ∀ t' x j, loc t' = some x → j < 1024 → m5.word (x + j) = s.mm.word (x + j) := by
    intro t' x j hx hj
    have hin : InStruct loc (x + j) := ⟨t', x, hx, by omega, by omega⟩
    rw [hkeep5 _ (Or.inl hin), hprep.word _ (hk.apart _ hin), hk.word _ (hk.apart _ hin)]
  have hchild : ∀ j < 1024, m5.word (1024 * k + j) = s3.mm.word (1024 * k + j) :=
    fun j hj => hkeep5 _ (Or.inr (by omega))
  rcases h.youngest ht with ⟨old, hold, holdloc⟩
  have hkapart : ∀ t' x, loc t' = some x → 1024 * k + 1024 ≤ x ∨ x + 1024 ≤ 1024 * k :=
    fun t' x hx => hk.apart_loc hx
  have hky := hkapart t y ht
  have hlinked := ForkSys.linkProcess_linked (s := s6) (x := 1024 * k) hcur6 (by omega) (by omega)
    hky (by rw [hmm6, hstruct t y 176 ht (by omega)]; exact hold) fun y' hy' => by
      rcases holdloc y' hy' with ⟨t', -, ht'⟩
      have hb := h.loc_bounds ht'
      refine ⟨by omega, by omega, hkapart t' y' ht', ?_⟩
      rcases h.loc_apart ht' ht with ⟨-, heq⟩ | ⟨-, happ⟩
      · exact Or.inl heq
      · exact Or.inr happ.symm
  generalize s6.linkProcess (wordAddr (1024 * k)) = s7 at hlinked
  rcases ForkSys.setWord_set s7 Off.state taskRunning 0 (by decide) (by decide) (x := 1024 * k) (by omega) with
    ⟨s8, hs8, h8⟩
  have hword8 : ∀ z, z / 1024 ≠ k → z ≠ y + 176 → (∀ y', old = some y' → z ≠ y' + 177) →
      s8.mm.word z = m5.word z := by
    intro z hzk hzy hzo
    rw [h8.ne z (by omega), hlinked.word z (by omega) hzy hzo, hmm6]
  have hchild8 : ∀ j < 1024, j ≠ 0 → (j < 175 ∨ 178 < j) →
      s8.mm.word (1024 * k + j) = s3.mm.word (1024 * k + j) := by
    intro j hj hj0 hlink
    rw [h8.ne _ (by omega), hlinked.word _ (by omega) (by omega) fun y' hy' => ?_, hmm6, hchild j hj]
    rcases holdloc y' hy' with ⟨t', -, ht'⟩
    have hky' := hkapart t' y' ht'
    omega
  have hcurp : ∀ t' x i, loc t' = some x → i < 1024 → x + i ≠ 1024 * k + 0 := by
    intro t' x i hx hi
    have hkx := hkapart t' x hx
    omega
  refine ⟨old, s8, hs8, ?_, ?_, ?_, ?_, fun j hj hj' => hchild8 j hj' (by omega) (Or.inr hj)⟩
  · exact {
      rest := by
        rw [h8.rest, hlinked.rest, hs6, hprep.rest]
      before := hold
      oldLoc := holdloc
      pptr := by rw [h8.ne _ (by omega), hlinked.pptr]
      cptr := by rw [h8.ne _ (by omega), hlinked.cptr]
      ysptr := by rw [h8.ne _ (by omega), hlinked.ysptr]
      osptr := by rw [h8.ne _ (by omega), hlinked.osptr]
      parent := by rw [h8.ne _ (hcurp t y 176 ht (by omega)), hlinked.parent]
      older := fun y' hy' => by
        rcases holdloc y' hy' with ⟨t', -, ht'⟩
        rw [h8.ne _ (hcurp t' y' 177 ht' (by omega)), hlinked.older y' hy']
      seg := fun i hi => by
        rw [← hprep.seg i hi, ForkSys.ldtEntry_eq]
        refine ForkSys.getDesc_congr (by omega) (hchild8 _ (by omega) (by omega) (by omega)) ?_
        rw [Nat.add_assoc (1024 * k)]
        exact hchild8 _ (by omega) (by omega) (by omega)
      copy := fun j hj hno h134 hlink hseg => by
        have hj0 : j ≠ 0 := hno Off.state (List.mem_cons_self ..)
        rw [hchild8 j (by omega) hj0 hlink, hprep.copy j hj hno h134 hseg]
      frame := fun t' x j hx hj hy hold' => by
        rw [hword8 _ (hk.apart _ ⟨t', x, hx, by omega, by omega⟩) hy hold', hstruct t' x j hx hj] }
  · exact hprep.set.congr fun j hj => hchild8 j (by omega) (by omega) (by omega)
  · rw [h8.map, hlinked.map, hmm6]
  · intro z hz hzk
    refine hword8 z hzk (fun hzy => hz ⟨t, y, ht, by omega, by omega⟩) fun y' hy' hzo => ?_
    rcases holdloc y' hy' with ⟨t', -, ht'⟩
    exact hz ⟨t', y', ht', by omega, by omega⟩

/-- A panic in the copy of the page tables ends `copy_process`. -/
theorem copyProcess_panic (h : Structs w0 s loc) (ht : loc t = some y) (hcur : s.current = wordAddr y)
    (hk : FreshPage s loc k m1) (hpage : getFreePage s.mm = (m1, wordAddr (1024 * k))) {e : Halt}
    (hcopy : copyPageTables (taskBase t) (taskBase c) 0xa0000 (s.prepared c r k m1).mm = .error e) :
    s.copyProcess c r = .error e := by
  have hlow := hk.low
  have hhigh := hk.high
  have hmem := h.copyMem_prepared ht hcur c r hk
  rw [hcopy] at hmem
  have hne : wordAddr (1024 * k) ≠ 0 := wordAddr_ne_zero (by omega) (by omega)
  rw [ForkSys.copyProcess]
  simp only [hpage, hne, if_false, hmem]
  rfl

/-- `copy_process`, from what the copies of the page tables and of the page of the stack do. -/
theorem copyProcess_forked (h : Structs w0 s loc) (ht : loc t = some y) (hcur : s.current = wordAddr y)
    (hk : FreshPage s loc k m1) (hpage : getFreePage s.mm = (m1, wordAddr (1024 * k))) {n : Int}
    (hcopy : copyPageTables (taskBase t) (taskBase c) 0xa0000 (s.prepared c r k m1).mm = .ok (m4, n))
    (hm5 : unWpPage (lin2phy (ForkSys.stackAddress r.esp (taskBase c)) m4) m4 = m5)
    (hkeep4 : ∀ z, InStruct loc z ∨ z / 1024 = k → m4.word z = (s.prepared c r k m1).mm.word z)
    (hkeep5 : ∀ z, InStruct loc z ∨ z / 1024 = k → m5.word z = (s.prepared c r k m1).mm.word z) :
    ∃ old s', s.copyProcess c r = .ok (s', s.lastPid) ∧ Forked s s' loc c y k old ∧
      ForkSys.ChildSet s'.mm s.lastPid c (1024 * k) ∧ s'.mm.memMap = m5.memMap ∧
      (∀ z, ¬ InStruct loc z → z / 1024 ≠ k → s'.mm.word z = m5.word z) ∧
      ∀ j, 178 < j → j < 1024 → s'.mm.word (1024 * k + j) = (s.prepared c r k m1).mm.word (1024 * k + j) := by
  have hlow := hk.low
  have hhigh := hk.high
  have hprep := h.prepared ht hcur c r hk
  have hmem := h.copyMem_prepared ht hcur c r hk
  rw [hcopy] at hmem
  have hfinish := h.finishChild_eq ht hcur hk hprep hkeep4 hm5 hkeep5
  rcases h.linked_forked ht hcur hk hprep hkeep5 rfl with ⟨old, s', hs', hforked, hrest⟩
  refine ⟨old, s', ?_, hforked, hrest⟩
  have hne : wordAddr (1024 * k) ≠ 0 := wordAddr_ne_zero (by omega) (by omega)
  have hpid : s'.lastPid = s.lastPid := by rw [hforked.rest]
  rw [ForkSys.copyProcess]
  simp only [hpage, hne, if_false, hmem]
  show Except.ok (_, ForkSys.lastPid _) = _
  rw [hfinish, hs', hpid]

end Structs

/-! ## The structures afterwards -/

section Afterwards

variable {w0 : Nat} {s s' : ForkSys} {loc : Fin 64 → Option Nat} {t c : Fin 64} {x y k : Nat}
  {old : Option Nat} {m : Memory}

/-- Of a structure that was there before, only two links can change. -/
theorem Forked.kept (hfork : Forked s s' loc c y k old) (h : Structs w0 s loc)
    (ht : loc t = some y) {t' : Fin 64} (hx : loc t' = some x) {j : Nat} (hj : j < 1024)
    (hj' : j < 176 ∨ 177 < j) : s'.mm.word (x + j) = s.mm.word (x + j) := by
  have hneq : ∀ t2 y' i, loc t2 = some y' → i = 176 ∨ i = 177 → x + j ≠ y' + i := by
    intro t2 y' i hy' hi
    rcases h.loc_apart hx hy' with ⟨-, rfl⟩ | ⟨-, happ⟩ <;> omega
  refine hfork.frame t' x j hx hj (hneq t y 176 ht (Or.inl rfl)) fun y' hy' => ?_
  rcases hfork.oldLoc y' hy' with ⟨t2, -, ht2⟩
  exact hneq t2 y' 177 ht2 (Or.inr rfl)

theorem Forked.taskOk_child (hfork : Forked s s' loc c y k old) (h : Structs w0 s loc)
    (ht : loc t = some y) (hk : k < 4096) {loc' : Fin 64 → Option Nat} :
    TaskOk s'.mm loc' c (1024 * k) := by
  have hy := h.loc_bounds ht
  have hok := h.ok t y ht
  have hseg : ∀ i, i = 1 ∨ i = 2 → (⟨s'.mm.word (1024 * k + (230 + 2 * i)),
      s'.mm.word (1024 * k + (230 + 2 * i) + 1)⟩ : Desc) =
      setBase ⟨s.mm.word (y + (230 + 2 * i)), s.mm.word (y + (230 + 2 * i) + 1)⟩ (taskBase c) := by
    intro i hi
    have hseg := hfork.seg i hi
    rwa [ForkSys.ldtEntry_eq, ForkSys.ldtEntry_eq, ForkSys.getDesc_eq (by omega),
      ForkSys.getDesc_eq (by omega)] at hseg
  refine ⟨?_, ?_, fun j hj hj' hne => ?_, Or.inl hfork.cptr⟩
  · refine (hseg 1 (Or.inl rfl)).trans ?_
    rw [show (⟨s.mm.word (y + (230 + 2 * 1)), s.mm.word (y + (230 + 2 * 1) + 1)⟩ : Desc) = _ from hok.code,
      setBase_setBase]
  · refine (hseg 2 (Or.inr rfl)).trans ?_
    rw [show (⟨s.mm.word (y + (230 + 2 * 2)), s.mm.word (y + (230 + 2 * 2) + 1)⟩ : Desc) = _ from hok.data,
      setBase_setBase]
  · rw [hfork.copy j (by omega) (ForkSys.childOffsets_ne (by omega) (by omega)) (by omega) (by omega) (by omega)]
    exact hok.null j hj hj' hne

theorem Forked.taskOk_kept (hfork : Forked s s' loc c y k old) (h : Structs w0 s loc)
    (ht : loc t = some y) (hc : c ≠ 0) (hcn : loc c = none) {t' : Fin 64} (hx : loc t' = some x) :
    TaskOk s'.mm (Function.update loc c (some (1024 * k))) t' x := by
  have hok := h.ok t' x hx
  have hkept : ∀ j < 1024, j < 176 ∨ 177 < j → s'.mm.word (x + j) = s.mm.word (x + j) :=
    fun j hj hj' => hfork.kept h ht hx hj hj'
  refine ⟨?_, ?_, fun j hj hj' hne => ?_, ?_⟩
  · rw [hkept 232 (by omega) (by omega), hkept 233 (by omega) (by omega)]
    exact hok.code
  · rw [hkept 234 (by omega) (by omega), hkept 235 (by omega) (by omega)]
    exact hok.data
  · rw [hkept j (by omega) (by omega)]
    exact hok.null j hj hj' hne
  · rcases h.loc_apart hx ht with ⟨-, rfl⟩ | ⟨-, happ⟩
    · -- the parent's youngest child is the new task
      exact Or.inr ⟨c, 1024 * k, hc, Function.update_self .., hfork.parent⟩
    · have heq : s'.mm.word (x + 176) = s.mm.word (x + 176) := by
        refine hfork.frame t' x 176 hx (by omega) (by omega) fun y' hy' => ?_
        rcases hfork.oldLoc y' hy' with ⟨t2, -, ht2⟩
        rcases h.loc_apart hx ht2 with ⟨-, rfl⟩ | ⟨-, happ'⟩ <;> omega
      rw [heq]
      rcases hok.cptr with hz | ⟨t2, y2, h2, hy2, hw⟩
      · exact Or.inl hz
      · have h2c : t2 ≠ c := by
          rintro rfl
          rw [hcn] at hy2
          cases hy2
        exact Or.inr ⟨t2, y2, h2, by rwa [Function.update_of_ne h2c], hw⟩

/-- The tasks are those there were and the child. -/
theorem Forked.structs (hfork : Forked s s' loc c y k old) (h : Structs w0 s loc) (ht : loc t = some y)
    (hc : c ≠ 0) (hcn : loc c = none) (hk : FreshPage s loc k m) :
    Structs w0 s' (Function.update loc c (some (1024 * k))) := by
  have hlocne : ∀ t' x, loc t' = some x → x ≠ 1024 * k := by
    intro t' x hx hxk
    have hap := hk.apart_loc hx
    omega
  refine {
    task := fun t' => ?_, initLow := h.initLow, locZero := ?_, locHigh := fun t' x ht' hx => ?_,
    locInj := fun t1 t2 x h1 h2 => ?_, ok := fun t' x hx => ?_, math := ?_ }
  · rw [hfork.rest]
    show Function.update s.task (c : Nat) (wordAddr (1024 * k)) t' = _
    by_cases htc : t' = c
    · rw [htc, Function.update_self, Function.update_self]
      rfl
    · rw [Function.update_of_ne (fun heq => htc (Fin.ext heq)), Function.update_of_ne htc]
      exact h.task t'
  · rw [Function.update_of_ne (Ne.symm hc)]
    exact h.locZero
  · by_cases htc : t' = c
    · rw [htc, Function.update_self] at hx
      exact ⟨k, (Option.some.inj hx).symm, hk.low, hk.high⟩
    · rw [Function.update_of_ne htc] at hx
      exact h.locHigh t' x ht' hx
  · by_cases h1c : t1 = c
    · by_cases h2c : t2 = c
      · rw [h1c, h2c]
      · rw [h1c, Function.update_self] at h1
        rw [Function.update_of_ne h2c] at h2
        exact absurd (Option.some.inj h1).symm (hlocne t2 x h2)
    · rw [Function.update_of_ne h1c] at h1
      by_cases h2c : t2 = c
      · rw [h2c, Function.update_self] at h2
        exact absurd (Option.some.inj h2).symm (hlocne t1 x h1)
      · rw [Function.update_of_ne h2c] at h2
        exact h.locInj t1 t2 x h1 h2
  · by_cases htc : t' = c
    · rw [htc, Function.update_self] at hx
      rw [htc, ← Option.some.inj hx]
      exact hfork.taskOk_child h ht hk.high
    · rw [Function.update_of_ne htc] at hx
      exact hfork.taskOk_kept h ht hc hcn hx
  · rw [hfork.rest]
    exact h.math

end Afterwards

/-! ## Steps -/

/-- Only memory has changed, and none of it in the structures. -/
structure Kept (loc : Fin 64 → Option Nat) (s s' : ForkSys) : Prop where
  rest : s' = { s with mm := s'.mm }
  word : ∀ t x j, loc t = some x → j < 1024 → s'.mm.word (x + j) = s.mm.word (x + j)

theorem Kept.trans {loc : Fin 64 → Option Nat} {s s' s'' : ForkSys} (h : Kept loc s s') (h' : Kept loc s' s'') :
    Kept loc s s'' where
  rest := by
    have heq := h'.rest
    rw [h.rest] at heq
    exact heq
  word t x j ht hj := (h'.word t x j ht hj).trans (h.word t x j ht hj)

/-- What a step can do to the tasks: a fork makes a new one in the first empty slot, a fork
without an empty slot only takes a process number, and all else leaves the structures alone. -/
inductive StructStep (loc : Fin 64 → Option Nat) (s s' : ForkSys) : (Fin 64 → Option Nat) → Prop
  | forked (t c : Fin 64) (y k : Nat) (pid : BitVec 32) (old : Option Nat) (m : Memory) :
      loc t = some y → c ≠ 0 → loc c = none → (∀ j : Fin 64, j ≠ 0 → j < c → loc j ≠ none) →
      0 < pid.toNat → pid.toNat < 2147483648 → s.pidTaken pid = false → FreshPage s loc k m →
      Forked { s with current := s.task t, lastPid := pid } s' loc c y k old →
      ForkSys.ChildSet s'.mm pid c (1024 * k) →
      StructStep loc s s' (Function.update loc c (some (1024 * k)))
  | failed (cur pid : BitVec 32) : pid.toNat < 2147483648 →
      s' = { s with current := cur, lastPid := pid } → StructStep loc s s' loc
  | kept : Kept loc s s' → StructStep loc s s' loc

end MockOs.Kernel
