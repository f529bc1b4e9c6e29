import MockOs.Kernel.Proofs.Codec
import MockOs.Kernel.Proofs.Slots
import MockOs.Kernel.Proofs.SysCall
import MockOs.Kernel.Switch

/-!
# A task finds its registers again

Between two task switches nobody writes to the TSS and the kernel stack of a task that does not
run. So the far jump that comes back to it loads what the one that left it had stored, and the
first jump to a new task loads what `copy_process` has put there. The descriptor of a TSS is
busy exactly while its task runs, so no jump faults.
-/

namespace MockOs.Kernel

open Mm Relation

/-! ## The registers in the TSS -/

section Words

variable {m : Memory} {z : Nat}

theorem storeList_holds : ∀ (vs : List (BitVec 32)) (z : Nat) (m : Memory), z + vs.length ≤ 2 ^ 30 →
    Holds (storeList vs (wordAddr z) m) z vs ∧ (storeList vs (wordAddr z) m).memMap = m.memMap ∧
      ∀ i, i < z ∨ z + vs.length ≤ i → (storeList vs (wordAddr z) m).word i = m.word i := by
  intro vs
  induction vs with
  | nil => exact fun _ _ _ => ⟨trivial, rfl, fun _ _ => rfl⟩
  | cons v vs ih =>
    intro z m hz
    rw [List.length_cons] at hz
    rcases ih (z + 1) (m.setWord z v) (by omega) with ⟨hholds, hmap, hword⟩
    rw [storeList, Memory.write_wordAddr (by omega), wordAddr_add_four]
    refine ⟨⟨?_, hholds⟩, hmap, fun i hi => ?_⟩
    · rw [hword z (Or.inl (Nat.lt_succ_self z)), Memory.setWord_word_self]
    · rw [List.length_cons] at hi
      rw [hword i (by omega), Memory.setWord_word_ne (by omega)]

theorem read_add {o : BitVec 32} {i : Nat} (ho : o = BitVec.ofNat 32 (4 * i)) (hzi : z + i < 2 ^ 30) :
    m.read (wordAddr z + o) = m.word (z + i) := by
  rw [ho, wordAddr_add, Memory.read_wordAddr hzi]

/-- What is stored is loaded again. -/
theorem ofTss_of_holds {up : BitVec 16} {r : Context} (hz : z + 24 ≤ 2 ^ 30) (h : Holds m (z + 8) (r.words up)) :
    Context.ofTss m (wordAddr z) = r := by
  have hword : ∀ (o : BitVec 32) (i : Nat) (v : BitVec 32), o = BitVec.ofNat 32 (4 * (8 + i)) →
      (r.words up)[i]? = some v → m.read (wordAddr z + o) = v := by
    intro o i v ho hi
    have hlen : i < 16 := (List.getElem?_eq_some_iff.mp hi).1
    rw [read_add ho (by omega), ← Nat.add_assoc]
    exact h.word hi
  apply Context.ext
  · exact hword 32 0 _ rfl rfl
  · exact hword 36 1 _ rfl rfl
  · exact hword 40 2 _ rfl rfl
  · exact hword 44 3 _ rfl rfl
  · exact hword 48 4 _ rfl rfl
  · exact hword 52 5 _ rfl rfl
  · exact hword 56 6 _ rfl rfl
  · exact hword 60 7 _ rfl rfl
  · exact hword 64 8 _ rfl rfl
  · exact hword 68 9 _ rfl rfl
  · exact (congrArg _ (hword 72 10 _ rfl rfl)).trans (slot_selector up r.es)
  · exact (congrArg _ (hword 76 11 _ rfl rfl)).trans (slot_selector up r.cs)
  · exact (congrArg _ (hword 80 12 _ rfl rfl)).trans (slot_selector up r.ss)
  · exact (congrArg _ (hword 84 13 _ rfl rfl)).trans (slot_selector up r.ds)
  · exact (congrArg _ (hword 88 14 _ rfl rfl)).trans (slot_selector up r.fs)
  · exact (congrArg _ (hword 92 15 _ rfl rfl)).trans (slot_selector up r.gs)

theorem ofTss_congr {m' : Memory} (hz : z + 24 ≤ 2 ^ 30)
    (h : ∀ i, 8 ≤ i → i < 24 → m'.word (z + i) = m.word (z + i)) :
    Context.ofTss m' (wordAddr z) = Context.ofTss m (wordAddr z) := by
  have hread : ∀ (o : BitVec 32) (i : Nat), o = BitVec.ofNat 32 (4 * i) → 8 ≤ i → i < 24 →
      m'.read (wordAddr z + o) = m.read (wordAddr z + o) := by
    intro o i ho hi hi'
    rw [read_add ho (by omega), read_add ho (by omega), h i hi hi']
  have hseg : ∀ (o : BitVec 32) (i : Nat), o = BitVec.ofNat 32 (4 * i) → 8 ≤ i → i < 24 →
      (m'.read (wordAddr z + o)).setWidth 16 = (m.read (wordAddr z + o)).setWidth 16 :=
    fun o i ho hi hi' => congrArg _ (hread o i ho hi hi')
  apply Context.ext
  · exact hread 32 8 rfl (by decide) (by decide)
  · exact hread 36 9 rfl (by decide) (by decide)
  · exact hread 40 10 rfl (by decide) (by decide)
  · exact hread 44 11 rfl (by decide) (by decide)
  · exact hread 48 12 rfl (by decide) (by decide)
  · exact hread 52 13 rfl (by decide) (by decide)
  · exact hread 56 14 rfl (by decide) (by decide)
  · exact hread 60 15 rfl (by decide) (by decide)
  · exact hread 64 16 rfl (by decide) (by decide)
  · exact hread 68 17 rfl (by decide) (by decide)
  · exact hseg 72 18 rfl (by decide) (by decide)
  · exact hseg 76 19 rfl (by decide) (by decide)
  · exact hseg 80 20 rfl (by decide) (by decide)
  · exact hseg 84 21 rfl (by decide) (by decide)
  · exact hseg 88 22 rfl (by decide) (by decide)
  · exact hseg 92 23 rfl (by decide) (by decide)

/-- `copy_process` leaves `cr3` as it is in the TSS of the parent. -/
theorem childOffsets_dir : ∀ o ∈ ForkSys.childOffsets, 243 ≠ o.toNat / 4 := by
  have hall : ForkSys.childOffsets.all (fun o => decide (243 ≠ o.toNat / 4)) = true := by decide
  intro o ho
  exact of_decide_eq_true (List.all_eq_true.mp hall o ho)

/-- The TSS of a new task. -/
theorem ForkedTask.context {s : ForkSys} {nr : Nat} {r : Regs} {pid : BitVec 32} (h : ForkedTask s nr r pid)
    (hz : s.task nr = wordAddr z) : Context.ofTss s.mm (wordAddr (z + 236)) = r.child := by
  have hread : ∀ o v, s.get (s.task nr) (944 + o) = v → s.mm.read (wordAddr (z + 236) + o) = v := by
    intro o v hget
    rw [← hget, hz, ForkSys.get, ← wordAddr_add z 236, BitVec.add_assoc]
    rfl
  have hlow : ∀ v : BitVec 32, (v &&& 0xffff).setWidth 16 = v.setWidth 16 := by
    intro v
    apply BitVec.eq_of_toNat_eq
    rw [BitVec.toNat_setWidth, BitVec.toNat_setWidth, Bits.toNat_and_mask _ 0 16 rfl]
    omega
  apply Context.ext
  · exact hread 32 r.eip (h.field Tss.eip _ (by decide) (by decide) fun _ => by simp [ForkSys.childFields])
  · exact hread 36 r.eflags (h.field Tss.eflags _ (by decide) (by decide) fun _ => by simp [ForkSys.childFields])
  · exact hread 40 0 (h.field Tss.eax _ (by decide) (by decide) fun _ => by simp [ForkSys.childFields])
  · exact hread 44 r.ecx (h.field Tss.ecx _ (by decide) (by decide) fun _ => by simp [ForkSys.childFields])
  · exact hread 48 r.edx (h.field Tss.edx _ (by decide) (by decide) fun _ => by simp [ForkSys.childFields])
  · exact hread 52 r.ebx (h.field Tss.ebx _ (by decide) (by decide) fun _ => by simp [ForkSys.childFields])
  · exact hread 56 r.esp (h.field Tss.esp _ (by decide) (by decide) fun _ => by simp [ForkSys.childFields])
  · exact hread 60 r.ebp (h.field Tss.ebp _ (by decide) (by decide) fun _ => by simp [ForkSys.childFields])
  · exact hread 64 r.esi (h.field Tss.esi _ (by decide) (by decide) fun _ => by simp [ForkSys.childFields])
  · exact hread 68 r.edi (h.field Tss.edi _ (by decide) (by decide) fun _ => by simp [ForkSys.childFields])
  · exact (congrArg _ (hread 72 _ (h.field Tss.es (r.es &&& 0xffff) (by decide) (by decide) fun _ => by
      simp [ForkSys.childFields]))).trans (hlow r.es)
  · exact (congrArg _ (hread 76 _ (h.field Tss.cs (r.cs &&& 0xffff) (by decide) (by decide) fun _ => by
      simp [ForkSys.childFields]))).trans (hlow r.cs)
  · exact (congrArg _ (hread 80 _ (h.field Tss.ss (r.ss &&& 0xffff) (by decide) (by decide) fun _ => by
      simp [ForkSys.childFields]))).trans (hlow r.ss)
  · exact (congrArg _ (hread 84 _ (h.field Tss.ds (r.ds &&& 0xffff) (by decide) (by decide) fun _ => by
      simp [ForkSys.childFields]))).trans (hlow r.ds)
  · exact (congrArg _ (hread 88 _ (h.field Tss.fs (r.fs &&& 0xffff) (by decide) (by decide) fun _ => by
      simp [ForkSys.childFields]))).trans (hlow r.fs)
  · exact (congrArg _ (hread 92 _ (h.field Tss.gs (r.gs &&& 0xffff) (by decide) (by decide) fun _ => by
      simp [ForkSys.childFields]))).trans (hlow r.gs)

theorem machine_context (r : Context) (s : ForkSys) : (r.machine s).context = r := rfl

end Words

/-! ## The descriptors -/

theorem decode_setTssldtDesc (addr : BitVec 32) (type : BitVec 8) :
    (setTssldtDesc addr (type.setWidth 32)).decode = ⟨addr, 104, type, 0⟩ := by
  rw [← descAt_setTssldtDescAt (fun _ => 0) 0]
  exact decode_setTssldtDescAt (fun _ => 0) 0 addr type

theorem setBusy_tss (addr : BitVec 32) : (setTssldtDesc addr 0x89).setBusy = setTssldtDesc addr 0x8b := by
  refine Desc.ext rfl ?_
  apply BitVec.eq_of_getLsbD_eq
  intro i hi
  simp only [Desc.setBusy, setTssldtDesc, BitVec.getLsbD_or, BitVec.getLsbD_and, BitVec.getLsbD_shiftLeft,
    BitVec.getLsbD_ushiftRight]
  interval_cases i <;> simp

theorem clearBusy_tss (addr : BitVec 32) : (setTssldtDesc addr 0x8b).clearBusy = setTssldtDesc addr 0x89 := by
  refine Desc.ext rfl ?_
  apply BitVec.eq_of_getLsbD_eq
  intro i hi
  simp only [Desc.clearBusy, setTssldtDesc, BitVec.getLsbD_or, BitVec.getLsbD_and, BitVec.getLsbD_not,
    BitVec.getLsbD_shiftLeft, BitVec.getLsbD_ushiftRight]
  interval_cases i <;> simp

theorem toNat_tssSelectorOf (t : Fin 64) : (tssSelectorOf t).toNat / 8 = 2 * t + 4 := by
  have ht := t.isLt
  rw [tssSelectorOf, BitVec.toNat_ofNat]
  omega

theorem toNat_ldtSelectorOf (t : Fin 64) : (ldtSelectorOf t).toNat / 8 = 2 * t + 5 := by
  have ht := t.isLt
  rw [ldtSelectorOf, BitVec.toNat_ofNat]
  omega

theorem setWidth_ldtSelector (t : Fin 64) : (ldtSelector t).setWidth 16 = ldtSelectorOf t := by
  have ht := t.isLt
  apply BitVec.eq_of_toNat_eq
  rw [ldtSelectorOf, ldtSelector, BitVec.toNat_setWidth, BitVec.toNat_ofNat, BitVec.toNat_ofNat]
  omega

theorem setWidth_tss (t : Fin 64) : (BitVec.ofNat 32 (16 * (t : Nat) + 32)).setWidth 16 = tssSelectorOf t := by
  have ht := t.isLt
  apply BitVec.eq_of_toNat_eq
  rw [tssSelectorOf, BitVec.toNat_setWidth, BitVec.toNat_ofNat, BitVec.toNat_ofNat]
  omega

/-! ## The invariant -/

/-- Task `run`, with its structure at word `x`, has the processor: TR, LDTR and `current` name it,
and of all TSS descriptors its own is busy. -/
structure Switched (w0 : Nat) (p : Core) (loc : Fin 64 → Option Nat) (run : Fin 64) (x : Nat) : Prop where
  resident : Resident w0 p.cpu.sys loc
  here : loc run = some x
  current : p.cpu.sys.current = wordAddr x
  tr : p.tr = tssSelectorOf run
  ldtr : p.ldtr = ldtSelectorOf run
  cr3 : p.cr3 = 0
  tss : ∀ (t : Fin 64) y, loc t = some y →
    p.cpu.sys.gdt (2 * t + 4) = setTssldtDesc (wordAddr y + Off.tss) (if t = run then 0x8b else 0x89)
  ldt : ∀ (t : Fin 64) y, loc t = some y → p.cpu.sys.gdt (2 * t + 5) = setTssldtDesc (wordAddr y + Off.ldt) 0x82
  selector : ∀ t y, loc t = some y → p.cpu.sys.mm.word (y + 260) = ldtSelector t
  dir : ∀ t y, loc t = some y → p.cpu.sys.mm.word (y + 243) = 0

/-- The descriptors are no part of what `Resident` looks at. -/
theorem Resident.regdt {w0 : Nat} {s : ForkSys} {loc : Fin 64 → Option Nat} (h : Resident w0 s loc) (g : Nat → Desc) :
    Resident w0 { s with gdt := g } loc :=
  ⟨⟨{ h.tasks.structs with }, h.tasks.sane, h.tasks.pid⟩, h.esp0, h.running⟩

theorem Boot.loaded_switched (b : Boot) (r : Context) : Switched b.init (b.loaded r) b.loc 0 b.init := by
  have hcur : b.start.current = wordAddr b.init := rfl
  have hzero : b.start.mm.word (b.init + 243) = 0 := by
    rw [b.start_init (by decide)]
    rfl
  have hslots := b.start_slots
  have hres := b.start_resident
  unfold Boot.loaded
  generalize b.start = s at hcur hzero hslots hres
  refine ⟨hres.regdt _, if_pos rfl, hcur, rfl, rfl, rfl, fun t y hy => ?_, fun t y hy => ?_, hslots.selector,
    fun t y hy => ?_⟩
  · rcases b.loc_eq hy with ⟨rfl, rfl⟩
    show (s.gdt 4).setBusy = _
    rw [show s.gdt 4 = _ from hslots.tss 0 b.init hy, setBusy_tss, if_pos rfl]
  · rcases b.loc_eq hy with ⟨rfl, rfl⟩
    exact hslots.ldt 0 b.init hy
  · rcases b.loc_eq hy with ⟨rfl, rfl⟩
    exact hzero

namespace Switched

variable {w0 x y : Nat} {p p' : Core} {loc : Fin 64 → Option Nat} {run t n : Fin 64} {up : Machine → BitVec 16}
  {after : BitVec 32}

theorem live (h : Switched w0 p loc run x) (ht : loc t = some y) : p.cpu.sys.Live t := by
  have hb := h.resident.tasks.structs.loc_bounds ht
  refine ⟨t.isLt, ?_⟩
  rw [h.resident.tasks.structs.task_eq ht]
  exact wordAddr_ne_zero (by omega) (by omega)

/-- `current` is the task that runs and no other. -/
theorem current_iff (h : Switched w0 p loc run x) (ht : loc t = some y) :
    p.cpu.sys.current = p.cpu.sys.task t ↔ t = run := by
  have hb := h.resident.tasks.structs.loc_bounds ht
  have hbx := h.resident.tasks.structs.loc_bounds h.here
  rw [h.current, h.resident.tasks.structs.task_eq ht]
  constructor
  · intro heq
    have hval := congrArg BitVec.toNat heq
    rw [toNat_wordAddr (by omega), toNat_wordAddr (by omega)] at hval
    rcases h.resident.tasks.structs.loc_apart ht h.here with ⟨hsame, -⟩ | ⟨-, happ⟩
    · exact hsame
    · omega
  · rintro rfl
    rw [Option.some.inj (h.here.symm.trans ht)]

/-- The far jump to a task that does not run. -/
theorem farJump (h : Switched w0 p loc run x) (hn : loc n = some y) (hne : n ≠ run)
    (up : Machine → BitVec 16) {c : Machine}
    (hgdt : c.sys.gdt = p.cpu.sys.gdt) (hmm : c.sys.mm = p.cpu.sys.mm) :
    ∃ mm gdt, Core.farJump up (tssSelectorOf n) { p with cpu := c } = some
        ⟨(Context.ofTss mm (wordAddr (y + 236))).machine { c.sys with mm, gdt }, tssSelectorOf n, ldtSelectorOf n, 0⟩ ∧
      Holds mm (x + 244) (c.context.words (up c)) ∧ mm.memMap = p.cpu.sys.mm.memMap ∧
      (∀ i, i < x + 244 ∨ x + 260 ≤ i → mm.word i = p.cpu.sys.mm.word i) ∧
      gdt = Function.update (Function.update p.cpu.sys.gdt (2 * run + 4)
        (setTssldtDesc (wordAddr x + Off.tss) 0x89)) (2 * n + 4) (setTssldtDesc (wordAddr y + Off.tss) 0x8b) := by
  have hbx := h.resident.tasks.structs.loc_bounds h.here
  have hby := h.resident.tasks.structs.loc_bounds hn
  have hval : (n : Nat) ≠ run := fun heq => hne (Fin.ext heq)
  have hold : c.sys.gdt (p.tr.toNat / 8) = setTssldtDesc (wordAddr x + Off.tss) 0x8b := by
    rw [hgdt, h.tr, toNat_tssSelectorOf, h.tss run x h.here, if_pos rfl]
  have hnew : c.sys.gdt ((tssSelectorOf n).toNat / 8) = setTssldtDesc (wordAddr y + Off.tss) 0x89 := by
    rw [hgdt, toNat_tssSelectorOf, h.tss n y hn, if_neg hne]
  have hbase : getBase (setTssldtDesc (wordAddr x + Off.tss) 0x8b) + 32 = wordAddr (x + 244) := by
    rw [getBase_setTssldtDesc _ (by decide), show Off.tss = BitVec.ofNat 32 (4 * 236) from rfl, wordAddr_add,
      show (32 : BitVec 32) = BitVec.ofNat 32 (4 * 8) from rfl, wordAddr_add]
  have hbase' : getBase (setTssldtDesc (wordAddr y + Off.tss) 0x89) = wordAddr (y + 236) := by
    rw [getBase_setTssldtDesc _ (by decide), show Off.tss = BitVec.ofNat 32 (4 * 236) from rfl, wordAddr_add]
  have hlen : (c.context.words (up c)).length = 16 := rfl
  rcases storeList_holds (c.context.words (up c)) (x + 244) p.cpu.sys.mm (by omega) with ⟨hholds, hmap, hword⟩
  rw [hlen, Nat.add_assoc x] at hword
  obtain ⟨mm, hstore⟩ : ∃ mm, storeList (c.context.words (up c)) (wordAddr (x + 244)) p.cpu.sys.mm = mm := ⟨_, rfl⟩
  rw [hstore] at hholds hmap hword
  -- the words of the other task's TSS are still those from before
  have hother : ∀ (o : BitVec 32) (i : Nat), o = BitVec.ofNat 32 (4 * i) → i < 53 →
      mm.read (wordAddr (y + 236) + o) = p.cpu.sys.mm.word (y + (236 + i)) := by
    intro o i ho hi
    rw [read_add ho (by omega), Nat.add_assoc]
    refine hword _ ?_
    rcases h.resident.tasks.structs.loc_apart hn h.here with ⟨heq, -⟩ | ⟨-, happ⟩
    · exact absurd heq hne
    · omega
  have hldtr : (mm.read (wordAddr (y + 236) + 96)).setWidth 16 = ldtSelectorOf n := by
    rw [hother 96 24 rfl (by decide), h.selector n y hn, setWidth_ldtSelector]
  have hcr3 : mm.read (wordAddr (y + 236) + 28) = 0 := by
    rw [hother 28 7 rfl (by decide)]
    exact h.dir n y hn
  have hdecode : (setTssldtDesc (wordAddr y + Off.tss) 0x89).decode = ⟨wordAddr y + Off.tss, 104, 0x89, 0⟩ :=
    decode_setTssldtDesc _ 0x89
  have hldt : (Function.update (Function.update p.cpu.sys.gdt (2 * run + 4)
      (setTssldtDesc (wordAddr x + Off.tss) 0x89)) (2 * n + 4) (setTssldtDesc (wordAddr y + Off.tss) 0x8b)
      (2 * n + 5)).decode.type = 0x82 := by
    rw [Function.update_of_ne (by omega), Function.update_of_ne (by omega), h.ldt n y hn]
    exact congrArg Segment.type (decode_setTssldtDesc _ 0x82)
  refine ⟨mm, _, ?_, hholds, hmap, hword, rfl⟩
  simp only [Core.farJump, hold, hnew, hdecode, hmm, hbase, hstore, hbase', hldtr, hcr3, clearBusy_tss, setBusy_tss]
  rw [if_neg (by decide), hgdt, h.tr, toNat_tssSelectorOf, toNat_tssSelectorOf, toNat_ldtSelectorOf, hldt,
    if_neg (not_not.mpr rfl)]

/-- Words behind the registers of the running task's TSS, or in front of them, or of another
structure. -/
theorem outside (h : Switched w0 p loc run x) (ht : loc t = some y) {j : Nat} (hj : j < 1024)
    (hne : t = run → j < 244 ∨ 260 ≤ j) : y + j < x + 244 ∨ x + 260 ≤ y + j := by
  rcases h.resident.tasks.structs.loc_apart ht h.here with ⟨rfl, rfl⟩ | ⟨-, happ⟩
  · have hout := hne rfl
    omega
  · omega

/-- `switch_to` leaves a task with its registers in its TSS and enters the other one with what is
in the other TSS. -/
theorem switchTo (h : Switched w0 p loc run x) (hn : loc n = some y) (hne : n ≠ run) (up : Machine → BitVec 16)
    (after : BitVec 32) :
    ∃ p' u, p.switchTo up after n = some p' ∧ Switched w0 p' loc n y ∧
      Holds p'.cpu.sys.mm (x + 244) ((p.leaving after n).words u) ∧
      (∀ i, i < x + 244 ∨ x + 260 ≤ i → p'.cpu.sys.mm.word i = p.cpu.sys.mm.word i) ∧
      p'.cpu.context = Context.ofTss p'.cpu.sys.mm (wordAddr (y + 236)) ∧
      (∃ gdt, p'.cpu.sys = { p.cpu.sys with mm := p'.cpu.sys.mm, gdt, current := p.cpu.sys.task n }) ∧
      p'.cpu.sys.mm.memMap = p.cpu.sys.mm.memMap := by
  have hcur : p.cpu.sys.task n ≠ p.cpu.sys.current := fun heq => hne ((h.current_iff hn).mp heq.symm)
  have hrun : (run : Nat) ≠ n := fun heq => hne (Fin.ext heq.symm)
  obtain ⟨c, hc⟩ : ∃ c : Machine, { p.cpu with
    ecx := p.cpu.sys.current, edx := BitVec.ofNat 32 (16 * (n : Nat) + 32), eip := after
    sys := { p.cpu.sys with current := p.cpu.sys.task n } } = c := ⟨_, rfl⟩
  rcases h.farJump hn hne up (c := c) (by rw [← hc]) (by rw [← hc]) with
    ⟨mm, gdt, hjump, hholds, hmap, hword, hgdt⟩
  have hcontext : c.context = p.leaving after n := by
    rw [← hc]
    rfl
  rw [hcontext] at hholds
  refine ⟨⟨(Context.ofTss mm (wordAddr (y + 236))).machine { c.sys with mm, gdt }, tssSelectorOf n, ldtSelectorOf n, 0⟩,
    up c, ?_, ?_, hholds, hword, machine_context _ _, ⟨gdt, by rw [← hc]; rfl⟩, hmap⟩
  · rw [← hjump, ← hc, Core.switchTo]
    dsimp only
    rw [if_neg hcur, setWidth_tss]
  · have hsys : c.sys = { p.cpu.sys with current := p.cpu.sys.task n } := by rw [← hc]
    refine ⟨?_, hn, ?_, rfl, rfl, rfl, fun t y' ht => ?_, fun t y' ht => ?_, fun t y' ht => ?_, fun t y' ht => ?_⟩
    · refine h.resident.rewrite ⟨n, h.live hn, ?_⟩ ?_ ?_ ?_ hmap fun z hz => hword z ?_
      · show c.sys.current = _
        rw [hsys]
      · show c.sys.task = _
        rw [hsys]
      · show c.sys.lastPid = _
        rw [hsys]
      · show c.sys.lastTaskUsedMath = _
        rw [hsys]
      · by_contra hin
        exact h.resident.not_fixed h.here (j := z - x) (by omega) (by omega) (by rwa [Nat.add_sub_cancel' (by omega)])
    · show c.sys.current = _
      rw [hsys]
      exact h.resident.tasks.structs.task_eq hn
    · show gdt (2 * t + 4) = _
      rw [hgdt]
      by_cases htn : t = n
      · subst htn
        rw [Function.update_self, if_pos rfl, Option.some.inj (hn.symm.trans ht)]
      · have htn' : (t : Nat) ≠ n := fun heq => htn (Fin.ext heq)
        rw [Function.update_of_ne (by omega), if_neg htn]
        by_cases htr : t = run
        · subst htr
          rw [Function.update_self, Option.some.inj (h.here.symm.trans ht)]
        · have htr' : (t : Nat) ≠ run := fun heq => htr (Fin.ext heq)
          rw [Function.update_of_ne (by omega), h.tss t y' ht, if_neg htr]
    · show gdt (2 * t + 5) = _
      rw [hgdt, Function.update_of_ne (by omega), Function.update_of_ne (by omega)]
      exact h.ldt t y' ht
    · show mm.word (y' + 260) = _
      rw [hword _ (h.outside ht (by decide) fun _ => Or.inr (by decide))]
      exact h.selector t y' ht
    · show mm.word (y' + 243) = _
      rw [hword _ (h.outside ht (by decide) fun _ => Or.inl (by decide))]
      exact h.dir t y' ht

end Switched

/-! ## A step of the processor -/

/-- The tasks stay where they are, and those that did not run have their registers and their
stacks as before. -/
structure Suspends (loc loc' : Fin 64 → Option Nat) (run : Fin 64) (m m' : Memory) : Prop where
  tasks : ∀ t y, loc t = some y → loc' t = some y
  word : ∀ t y j, loc t = some y → t ≠ run → 244 ≤ j ∧ j < 260 ∨ 289 ≤ j ∧ j < 1024 →
    m'.word (y + j) = m.word (y + j)

namespace Switched

variable {w0 x y : Nat} {p p' : Core} {loc : Fin 64 → Option Nat} {run t n : Fin 64} {up : Machine → BitVec 16}
  {after : BitVec 32}

theorem saved (h : Switched w0 p loc run x) (ht : loc t = some y) {j : Nat}
    (hj : 243 ≤ j ∧ j < 261 ∨ t ≠ run ∧ 289 ≤ j ∧ j < 1024) : p.cpu.sys.Saved (y + j) := by
  have hb := h.resident.tasks.structs.loc_bounds ht
  refine ⟨t, j, h.live ht, hj.imp_right fun hj => ⟨fun heq => hj.1 ((h.current_iff ht).mp heq.symm), hj.2⟩, ?_⟩
  rw [h.resident.tasks.structs.task_eq ht, toNat_wordAddr (by omega)]
  omega

/-- The same task goes on. -/
theorem goes (h : Switched w0 p loc run x) {c : Machine} (hres : Resident w0 c.sys loc)
    (hcur : c.sys.current = p.cpu.sys.current) (hgdt : c.sys.gdt = p.cpu.sys.gdt)
    (hword : ∀ t y j, loc t = some y → 243 ≤ j ∧ j < 261 ∨ t ≠ run ∧ 289 ≤ j ∧ j < 1024 →
      c.sys.mm.word (y + j) = p.cpu.sys.mm.word (y + j)) :
    Switched w0 { p with cpu := c } loc run x ∧ Suspends loc loc run p.cpu.sys.mm c.sys.mm := by
  refine ⟨⟨hres, h.here, hcur.trans h.current, h.tr, h.ldtr, h.cr3, fun t y ht => ?_, fun t y ht => ?_,
    fun t y ht => ?_, fun t y ht => ?_⟩, fun _ _ ht => ht, fun t y j ht hne hj => hword t y j ht (by omega)⟩
  · show c.sys.gdt _ = _
    rw [hgdt]
    exact h.tss t y ht
  · show c.sys.gdt _ = _
    rw [hgdt]
    exact h.ldt t y ht
  · rw [← h.selector t y ht]
    exact hword t y 260 ht (by omega)
  · rw [← h.dir t y ht]
    exact hword t y 243 ht (by omega)

/-- The running task, or the kernel, writes to words that are neither fixed nor saved. -/
theorem work (h : Switched w0 p loc run x) {c : Machine} (hcur : c.sys.current = p.cpu.sys.current)
    (htask : c.sys.task = p.cpu.sys.task) (hpid : c.sys.lastPid = p.cpu.sys.lastPid)
    (hmath : c.sys.lastTaskUsedMath = p.cpu.sys.lastTaskUsedMath) (hgdt : c.sys.gdt = p.cpu.sys.gdt)
    (hmap : c.sys.mm.memMap = p.cpu.sys.mm.memMap)
    (hword : ∀ z, p.cpu.sys.Fixed z ∨ p.cpu.sys.Saved z → c.sys.mm.word z = p.cpu.sys.mm.word z) :
    Switched w0 { p with cpu := c } loc run x ∧ Suspends loc loc run p.cpu.sys.mm c.sys.mm := by
  have hlive := h.live h.here
  have hres := h.resident.rewrite ⟨run, hlive, hcur.trans ((h.current_iff h.here).mpr rfl)⟩ htask hpid hmath hmap
    fun z hz => hword z (Or.inl hz)
  exact h.goes hres hcur hgdt fun t y j ht hj => hword _ (Or.inr (h.saved ht hj))

/-- The descriptors of the tasks after a fork. -/
theorem forked_slot {s s' : ForkSys} {k : Nat} {old : Option Nat} (hforked : Forked s s' loc n x k old)
    (hy : Function.update loc n (some (1024 * k)) t = some y) :
    (t = n ∧ 1024 * k = y ∧ s'.gdt (2 * t + 4) = setTssldtDesc (wordAddr y + Off.tss) 0x89 ∧
        s'.gdt (2 * t + 5) = setTssldtDesc (wordAddr y + Off.ldt) 0x82) ∨
      (t ≠ n ∧ loc t = some y ∧ s'.gdt (2 * t + 4) = s.gdt (2 * t + 4) ∧ s'.gdt (2 * t + 5) = s.gdt (2 * t + 5)) := by
  rw [hforked.rest]
  by_cases htn : t = n
  · subst htn
    rw [Function.update_self] at hy
    refine Or.inl ⟨rfl, Option.some.inj hy, ?_, ?_⟩
    · show Function.update (Function.update s.gdt _ _) _ _ _ = _
      rw [Function.update_of_ne (by omega), Function.update_self, Option.some.inj hy]
    · show Function.update (Function.update s.gdt _ _) _ _ _ = _
      rw [Function.update_self, Option.some.inj hy]
  · have hval : (t : Nat) ≠ n := fun heq => htn (Fin.ext heq)
    rw [Function.update_of_ne htn] at hy
    refine Or.inr ⟨htn, hy, ?_, ?_⟩
    · show Function.update (Function.update s.gdt _ _) _ _ _ = _
      rw [Function.update_of_ne (by omega), Function.update_of_ne (by omega)]
    · show Function.update (Function.update s.gdt _ _) _ _ _ = _
      rw [Function.update_of_ne (by omega), Function.update_of_ne (by omega)]

/-- A fork by the running task. The TSS of a new task has the registers of the call. -/
theorem fork (h : Switched w0 p loc run x) {k : Nat} {r : Regs} {c : Machine}
    (hcur : p.cpu.sys.current = p.cpu.sys.task k) (hcall : ForkCall (k, r) p.cpu.sys c.sys)
    (hpages : p.cpu.sys.FreeSlot → 3 ≤ p.cpu.sys.mm.freePages.card) :
    ∃ loc', Switched w0 { p with cpu := c } loc' run x ∧ Suspends loc loc' run p.cpu.sys.mm c.sys.mm ∧
      ∀ n y, loc n = none → loc' n = some y → Context.ofTss c.sys.mm (wordAddr (y + 236)) = r.child := by
  by_cases hslot : p.cpu.sys.FreeSlot
  · rcases h.resident.tasks.forkCall hcall hslot (hpages hslot) with
      ⟨t, n, y, f, pid, old, m, htk, ht, -, hnn, -, -, -, -, hfresh, hforked, hset, hsane, -, hchild⟩
    obtain rfl : t = run := (h.current_iff ht).mp (by rw [hcur, htk])
    obtain rfl : y = x := Option.some.inj (ht.symm.trans h.here)
    have htask := h.resident.tasks.structs.task_eq ht
    have hstructs : Structs w0 { p.cpu.sys with current := p.cpu.sys.task t, lastPid := pid } loc :=
      { h.resident.tasks.structs with }
    have hne : ∀ t' y', loc t' = some y' → t' ≠ n := fun t' y' hy' => Ne.symm (slot_ne hy' hnn)
    have hkept : ∀ t' y' j, loc t' = some y' → j < 1024 → j < 176 ∨ 177 < j →
        c.sys.mm.word (y' + j) = p.cpu.sys.mm.word (y' + j) :=
      fun t' y' j hy' hj hj' => hforked.kept hstructs ht hy' hj hj'
    refine ⟨Function.update loc n (some (1024 * f)), ⟨?_, ?_, ?_, h.tr, h.ldtr, h.cr3, fun t' y' hy' => ?_,
      fun t' y' hy' => ?_, fun t' y' hy' => ?_, fun t' y' hy' => ?_⟩,
      ⟨fun t' y' hy' => ?_, fun t' y' j hy' _ hj => hkept t' y' j hy' (by omega) (by omega)⟩, fun n' y' hnone hy' => ?_⟩
    · exact h.resident.forked ht hnn hforked hset hsane htask
    · rw [Function.update_of_ne (hne t y ht)]
      exact ht
    · show c.sys.current = _
      rw [hforked.rest]
      exact htask
    · show c.sys.gdt (2 * t' + 4) = _
      rcases forked_slot hforked hy' with ⟨rfl, -, htss, -⟩ | ⟨-, hold, htss, -⟩
      · rw [htss, if_neg (Ne.symm (hne t y ht))]
      · rw [htss]
        exact h.tss t' y' hold
    · show c.sys.gdt (2 * t' + 5) = _
      rcases forked_slot hforked hy' with ⟨-, -, -, hldt⟩ | ⟨-, hold, -, hldt⟩
      · exact hldt
      · rw [hldt]
        exact h.ldt t' y' hold
    · show c.sys.mm.word _ = _
      rcases forked_slot hforked hy' with ⟨rfl, rfl, -, -⟩ | ⟨-, hold, -, -⟩
      · exact hset.ldt
      · rw [hkept t' y' 260 hold (by omega) (by omega)]
        exact h.selector t' y' hold
    · show c.sys.mm.word _ = _
      rcases forked_slot hforked hy' with ⟨rfl, rfl, -, -⟩ | ⟨-, hold, -, -⟩
      · rw [hforked.copy 243 (by omega) childOffsets_dir (by omega) (by omega) (by omega)]
        exact h.dir t y ht
      · rw [hkept t' y' 243 hold (by omega) (by omega)]
        exact h.dir t' y' hold
    · rw [Function.update_of_ne (hne t' y' hy')]
      exact hy'
    · rcases forked_slot hforked hy' with ⟨rfl, rfl, -, -⟩ | ⟨-, hold, -, -⟩
      · have hfresh' : FreshPage { p.cpu.sys with current := p.cpu.sys.task t, lastPid := pid } loc f m :=
          { hfresh with }
        have hnew := forkedTask hstructs ht htask hfresh' hforked hset hsane hchild (StackOnly.refl y c.sys)
        exact hnew.context (hsane.structs.task_eq (Function.update_self ..))
      · rw [hnone] at hold
        cases hold
  · rcases h.resident.tasks.forkCall_full hcall hslot with ⟨pid, hlt, heq⟩
    have hcur' : p.cpu.sys.task k = p.cpu.sys.current := hcur.symm
    rw [hcur'] at heq
    have hres : Resident w0 c.sys loc := by
      rw [heq]
      exact ⟨h.resident.tasks.switch _ hlt, h.resident.esp0, h.resident.running⟩
    have hgoes := h.goes hres (by rw [heq]) (by rw [heq]) fun _ _ _ _ _ => by rw [heq]
    refine ⟨loc, hgoes.1, hgoes.2, fun n y hnone hy => ?_⟩
    rw [hnone] at hy
    cases hy

/-- Every step leaves one task with the processor, and the others with what they have saved. -/
theorem step (h : Switched w0 p loc run x) (hstep : CoreStep up p p') :
    ∃ loc' run' x', Switched w0 p' loc' run' x' ∧ Suspends loc loc' run p.cpu.sys.mm p'.cpu.sys.mm := by
  cases hstep with
  | work c hcur htask hpid hmath hgdt hmap hword =>
    exact ⟨loc, run, x, h.work hcur htask hpid hmath hgdt hmap hword⟩
  | fault a hfree =>
    have hkeep := (h.resident.fault_sane a hfree).2
    exact ⟨loc, run, x, h.goes (h.resident.fault a hfree) rfl rfl fun t y j ht hj => hkeep t y j ht (by omega)⟩
  | fork k r c hcur hcall hpages =>
    rcases h.fork hcur hcall hpages with ⟨loc', h', hsusp, -⟩
    exact ⟨loc', run, x, h', hsusp⟩
  | switch after n p' hlive hswitch =>
    rcases h.resident.tasks.of_live hlive with ⟨n, y, rfl, hn⟩
    by_cases hne : n = run
    · -- `switch_to` finds that the task runs already
      subst hne
      have hcur : p.cpu.sys.task n = p.cpu.sys.current := ((h.current_iff hn).mpr rfl).symm
      rw [Core.switchTo] at hswitch
      dsimp only at hswitch
      rw [if_pos hcur] at hswitch
      cases hswitch
      exact ⟨loc, n, x, h.goes h.resident rfl rfl fun _ _ _ _ _ => rfl⟩
    · rcases h.switchTo hn hne up after with ⟨p1, u, heq, h1, -, hword, -⟩
      obtain rfl : p1 = p' := Option.some.inj (heq.symm.trans hswitch)
      exact ⟨loc, n, y, h1, fun _ _ ht => ht, fun t y' j ht htr hj =>
        hword _ (h.outside ht (by omega) fun heq => absurd heq htr)⟩

end Switched

theorem Boot.switched (b : Boot) {r : Context} {up : Machine → BitVec 16} {p : Core}
    (hrun : ReflTransGen (CoreStep up) (b.loaded r) p) : ∃ loc run x, Switched b.init p loc run x := by
  refine Run.invariant (P := fun p => ∃ loc run x, Switched b.init p loc run x) ?_ hrun
    ⟨b.loc, 0, b.init, b.loaded_switched r⟩
  rintro p p' ⟨loc, run, x, h⟩ hstep
  rcases h.step hstep with ⟨loc', run', x', h', -⟩
  exact ⟨loc', run', x', h'⟩

/-! ## A task that does not run -/

/-- Task `t`, at word `y`, does not run; `m` is the memory from when it was left. -/
def Parked (w0 : Nat) (t : Fin 64) (y : Nat) (m : Memory) (p : Core) : Prop :=
  ∃ loc run x, Switched w0 p loc run x ∧ loc t = some y ∧ t ≠ run ∧
    ∀ j, 244 ≤ j ∧ j < 260 ∨ 289 ≤ j ∧ j < 1024 → p.cpu.sys.mm.word (y + j) = m.word (y + j)

namespace Parked

variable {w0 y : Nat} {p p' : Core} {t : Fin 64} {m : Memory} {up : Machine → BitVec 16} {after : BitVec 32}

theorem step (h : Parked w0 t y m p) (hstep : CoreStep up p p') (haway : p'.Away t) : Parked w0 t y m p' := by
  rcases h with ⟨loc, run, x, h, ht, hne, hword⟩
  rcases h.step hstep with ⟨loc', run', x', h', hsusp⟩
  have ht' := hsusp.tasks t y ht
  exact ⟨loc', run', x', h', ht', fun heq => haway ((h'.current_iff ht').mpr heq),
    fun j hj => (hsusp.word t y j ht hne hj).trans (hword j hj)⟩

theorem run (h : Parked w0 t y m p) (hrun : Run.RunWhile (CoreStep up) (Core.Away t) p p') : Parked w0 t y m p' := by
  induction hrun with
  | refl => exact h
  | tail _ hstep ih => exact ih.step hstep.1 hstep.2

/-- The switch to the task loads what was in its TSS. -/
theorem resume (h : Parked w0 t y m p) (up : Machine → BitVec 16) (after : BitVec 32) :
    ∃ p', p.switchTo up after t = some p' ∧ p'.cpu.context = Context.ofTss m (wordAddr (y + 236)) ∧
      p'.cpu.sys.current = wordAddr y ∧ p'.cpu.sys.task 0 = wordAddr w0 ∧
      ∀ j, 289 ≤ j → j < 1024 → p'.cpu.sys.mm.word (y + j) = m.word (y + j) := by
  rcases h with ⟨loc, run, x, h, ht, hne, hword⟩
  have hb := h.resident.tasks.structs.loc_bounds ht
  rcases h.switchTo ht hne up after with ⟨p', u, heq, h', -, hother, hcontext, -⟩
  have hkept : ∀ j, 244 ≤ j ∧ j < 260 ∨ 289 ≤ j ∧ j < 1024 → p'.cpu.sys.mm.word (y + j) = m.word (y + j) :=
    fun j hj => (hother _ (h.outside ht (by omega) fun heq => absurd heq hne)).trans (hword j hj)
  refine ⟨p', heq, ?_, h'.current, h'.resident.tasks.structs.task_eq h'.resident.tasks.structs.locZero,
    fun j hj hj' => hkept j (Or.inr ⟨hj, hj'⟩)⟩
  rw [hcontext]
  refine ofTss_congr (by omega) fun i hi hi' => ?_
  rw [Nat.add_assoc]
  exact hkept _ (by omega)

end Parked

section Runs

variable {w0 x y : Nat} {p p1 q : Core} {loc : Fin 64 → Option Nat} {run t n : Fin 64} {up : Machine → BitVec 16}
  {after : BitVec 32}

theorem Switched.runs (h : Switched w0 p loc run x) : p.Runs run where
  live := h.live h.here
  current := (h.current_iff h.here).mpr rfl
  tr := h.tr
  ldtr := h.ldtr
  cr3 := h.cr3
  busy i hlive := by
    rcases h.resident.tasks.of_live hlive with ⟨t, y, rfl, ht⟩
    rw [h.tss t y ht]
    by_cases htr : t = run
    · rw [if_pos htr, if_pos (congrArg Fin.val htr)]
      exact congrArg Segment.type (decode_setTssldtDesc _ 0x8b)
    · rw [if_neg htr, if_neg fun heq => htr (Fin.ext heq)]
      exact congrArg Segment.type (decode_setTssldtDesc _ 0x89)

theorem Switched.runs_eq (h : Switched w0 p loc run x) {k : Nat} (hlive : p.cpu.sys.Live k)
    (hcur : p.cpu.sys.current = p.cpu.sys.task k) : (run : Nat) = k := by
  rcases h.resident.tasks.of_live hlive with ⟨t, y, rfl, ht⟩
  exact congrArg Fin.val ((h.current_iff ht).mp hcur).symm

/-- The task that `switch_to` leaves is parked, with its registers in its TSS. -/
theorem Switched.parks (h : Switched w0 p loc run x) (hn : loc n = some y) (hne : n ≠ run)
    (hswitch : p.switchTo up after n = some p1) :
    Parked w0 run x p1.cpu.sys.mm p1 ∧ Context.ofTss p1.cpu.sys.mm (wordAddr (x + 236)) = p.leaving after n ∧
      ∀ j, 289 ≤ j → j < 1024 → p1.cpu.sys.mm.word (x + j) = p.cpu.sys.mm.word (x + j) := by
  have hb := h.resident.tasks.structs.loc_bounds h.here
  rcases h.switchTo hn hne up after with ⟨p', u, heq, h1, hholds, hword, -⟩
  obtain rfl : p' = p1 := Option.some.inj (heq.symm.trans hswitch)
  exact ⟨⟨loc, n, y, h1, h.here, Ne.symm hne, fun _ _ => rfl⟩, ofTss_of_holds (by omega) hholds,
    fun j hj _ => hword _ (Or.inr (by omega))⟩

end Runs

/-- A fork with a slot and pages for the child. -/
theorem Resident.forks {w0 x nr : Nat} {s : ForkSys} {loc : Fin 64 → Option Nat} {t : Fin 64} (h : Resident w0 s loc)
    (ht : loc t = some x) (hslot : s.Available nr) (hto : 1#32 &&& s.mm.word (16 * nr) = 0) (r : Regs) :
    ∃ s', ForkCall (t, r) s s' ∧ s'.Live t ∧ s'.Live nr ∧ s'.get (s'.task nr) Off.state = taskRunning := by
  have hb := h.tasks.structs.loc_bounds ht
  have hlive : s.Live t := by
    refine ⟨t.isLt, ?_⟩
    rw [h.tasks.structs.task_eq ht]
    exact wordAddr_ne_zero (by omega) (by omega)
  rcases ForkSys.sysFork_free (s := { s with current := s.task t }) (r := r) h.tasks.pid hslot.pos hslot.high
    hslot.free with ⟨n, pid, hn1, hn2, hzero, hfirst, -, hlt, -, heq⟩
  obtain rfl : n = nr := by
    by_contra hne
    rcases Nat.lt_or_gt_of_ne hne with hnn | hnn
    · exact hslot.first n hn1 hnn hzero
    · exact hfirst nr hslot.pos hnn hslot.free
  have hnone : loc ⟨n, hn2⟩ = none := (h.tasks.slot_eq_zero (t := ⟨n, hn2⟩)).mp hzero
  rcases (h.tasks.switch (s.task t) hlt).copyProcess (c := ⟨n, hn2⟩) ht (h.tasks.structs.task_eq ht)
    (Fin.pos_iff_ne_zero.mp hn1) hnone r hto hslot.pages with
    ⟨k, m, old, s', -, hcall, -, -, hsane, -⟩
  have hnew : ∀ t' y, Function.update loc ⟨n, hn2⟩ (some (1024 * k)) t' = some y → s'.Live t' := by
    intro t' y hy
    refine ⟨t'.isLt, fun hz => ?_⟩
    rw [hsane.slot_eq_zero.mp hz] at hy
    cases hy
  refine ⟨s', ⟨hlive, ?_⟩, hnew t x ?_, hnew ⟨n, hn2⟩ _ (Function.update_self ..), (ForkSys.copyProcess_ret hcall).2⟩
  · simp only [ForkSys.exec, heq.trans hcall]
  · rw [Function.update_of_ne (Ne.symm (slot_ne ht hnone))]
    exact ht

theorem Boot.loaded_available (b : Boot) (r : Context) : (b.loaded r).cpu.sys.Available 1 := by
  have h := b.start_available
  unfold Boot.loaded
  generalize b.start = s at h
  exact ⟨h.pos, h.high, h.free, h.first, h.pages⟩

/-- Slot 1 has no entry in the directory. -/
theorem Boot.loaded_unmapped (b : Boot) (r : Context) : 1#32 &&& (b.loaded r).cpu.sys.mm.word (16 * 1) = 0 := by
  have hzero := b.start_forkRep.rep.dirTask 1 (by decide)
  unfold Boot.loaded
  generalize b.start = s at hzero
  rw [show (16 * 1 : Nat) = 16 * ((1 : Fin 64) : Nat) from rfl]
  show 1#32 &&& s.mm.word (16 * ((1 : Fin 64) : Nat)) = 0
  rw [hzero]
  rfl

/-- The first fork, and a switch to its child. -/
theorem Boot.loaded_fork (b : Boot) (up : Machine → BitVec 16) (after : BitVec 32) (r : Context) :
    ∃ s : ForkSys, ForkCall (0, stackTop) (b.loaded r).cpu.sys s ∧
      CoreStep up (b.loaded r) { b.loaded r with cpu := r.machine s } ∧
      Core.Runs { b.loaded r with cpu := r.machine s } 0 ∧ s.Live 1 ∧ Machine.otherRuns s = true ∧
      ∃ p', Core.switchTo up after 1 { b.loaded r with cpu := r.machine s } = some p' := by
  have h := b.loaded_switched r
  rcases h.resident.forks h.here (b.loaded_available r) (b.loaded_unmapped r) stackTop with ⟨s, hcall, -, hlive, hstate⟩
  have hcur := h.runs.current
  have hpages := (b.loaded_available r).pages
  rcases h.fork (c := r.machine s) hcur hcall fun _ => hpages with ⟨loc', h', -⟩
  rcases h'.resident.tasks.of_live hlive with ⟨n, y, hn1, hn⟩
  have hne : n ≠ 0 := by
    rintro rfl
    cases hn1
  rcases h'.switchTo hn hne up after with ⟨p', u, hswitch, -⟩
  rw [hn1] at hswitch
  have hother : s.task 1 ≠ s.current := by
    rw [← hn1]
    exact fun heq => hne ((h'.current_iff hn).mp heq.symm)
  have hturn : Machine.otherRuns s = true := by
    refine List.any_eq_true.mpr ⟨1, by decide, ?_⟩
    simp only [Bool.and_eq_true, decide_eq_true_eq]
    exact ⟨⟨hlive.2, hother⟩, hstate⟩
  exact ⟨s, hcall, .fork 0 stackTop _ hcur hcall fun _ => hpages, h'.runs, hlive, hturn, p', hswitch⟩

/-! ## Runs of the processor -/

/-- In every state that the system can reach one task runs, and a switch to any task comes off. -/
theorem switch_comes_off (b : Boot) (r : Context) (up : Machine → BitVec 16) (after : BitVec 32) (p : Core)
    (hrun : ReflTransGen (CoreStep up) (b.loaded r) p) :
    (∃ n, p.Runs n) ∧ ∀ n, p.cpu.sys.Live n → ∃ p', p.switchTo up after n = some p' ∧ p'.Runs n := by
  rcases b.switched hrun with ⟨loc, run, x, h⟩
  refine ⟨⟨run, h.runs⟩, fun n hlive => ?_⟩
  rcases h.resident.tasks.of_live hlive with ⟨n, y, rfl, hn⟩
  by_cases hne : n = run
  · subst hne
    have hcur : p.cpu.sys.task n = p.cpu.sys.current := ((h.current_iff hn).mpr rfl).symm
    refine ⟨_, ?_, (h.goes (c := { p.cpu with
      ecx := p.cpu.sys.task n, edx := BitVec.ofNat 32 (16 * (n : Nat) + 32) }) h.resident rfl rfl
      fun _ _ _ _ _ => rfl).1.runs⟩
    rw [Core.switchTo]
    exact if_pos hcur
  · rcases h.switchTo hn hne up after with ⟨p', u, heq, h', -⟩
    exact ⟨p', heq, h'.runs⟩

theorem switch_comes_off_start : ∃ p : Core, p.cpu.sys.Live 1 ∧ (∃ n, p.Runs n) ∧
    ∀ n, p.cpu.sys.Live n → ∃ p', p.switchTo (fun _ => 0) 0x6d11 n = some p' ∧ p'.Runs n := by
  rcases Boot.blank.loaded_fork (fun _ => 0) 0x6d11 firstFork.context with ⟨s, -, hstep, -, hlive, -⟩
  exact ⟨_, hlive, switch_comes_off Boot.blank firstFork.context (fun _ => 0) 0x6d11 _ (ReflTransGen.single hstep)⟩

/-- A task that `switch_to` has left gets the processor back with the registers, the kernel stack
and `current` as they were. Other tasks may run, fork and fault in between as long as they like. -/
theorem switch_back (b : Boot) (r : Context) (up : Machine → BitVec 16) (after after' : BitVec 32) (t n : Nat)
    (p p1 q : Core)
    (hrun : ReflTransGen (CoreStep up) (b.loaded r) p) (ht : p.Runs t) (hn : p.cpu.sys.Live n) (hne : n ≠ t)
    (hswitch : p.switchTo up after n = some p1) (haway : Run.RunWhile (CoreStep up) (Core.Away t) p1 q) :
    ∃ p', q.switchTo up after' t = some p' ∧ p'.cpu.context = p.leaving after n ∧
      p'.cpu.sys.current = p.cpu.sys.current ∧ p'.cpu.sys.task 0 = p.cpu.sys.task 0 ∧
      ∀ j, taskWords ≤ j → j < 1024 →
        p'.cpu.sys.mm.word (p.cpu.sys.current.toNat / 4 + j) = p.cpu.sys.mm.word (p.cpu.sys.current.toNat / 4 + j) := by
  rcases b.switched hrun with ⟨loc, run, x, h⟩
  obtain rfl : (run : Nat) = t := h.runs_eq ht.live ht.current
  rcases h.resident.tasks.of_live hn with ⟨n, y, rfl, hloc⟩
  have hb := h.resident.tasks.structs.loc_bounds h.here
  rcases h.parks hloc (fun heq => hne (congrArg Fin.val heq)) hswitch with ⟨hparked, hregs, hstack⟩
  rcases (hparked.run haway).resume up after' with ⟨p', heq, hcontext, hcur, hzero, hword⟩
  refine ⟨p', heq, hcontext.trans hregs, hcur.trans h.current.symm, ?_, fun j hj hj' => ?_⟩
  · rw [hzero]
    exact (h.resident.tasks.structs.task_eq h.resident.tasks.structs.locZero).symm
  · rw [h.current, toNat_wordAddr (by omega), Nat.mul_div_cancel_left x (by decide), hword j hj hj']
    exact hstack j hj hj'

/-- Task 0 forks, switches to its child and gets the processor back. -/
theorem switch_back_init : ∃ p p1 p' : Core, p.Runs 0 ∧ p.switchTo (fun _ => 0) 0x6d11 1 = some p1 ∧
    p1.switchTo (fun _ => 0) 0x6d11 0 = some p' ∧ p'.cpu.context = p.leaving 0x6d11 1 := by
  rcases Boot.blank.loaded_fork (fun _ => 0) 0x6d11 firstFork.context with ⟨s, -, hstep, hruns, hlive, -, p1, hswitch⟩
  rcases switch_back Boot.blank firstFork.context (fun _ => 0) 0x6d11 0x6d11 0 1 _ p1 p1 (ReflTransGen.single hstep) hruns
    hlive (by decide) hswitch ReflTransGen.refl with ⟨p', hback, hcontext, -⟩
  exact ⟨_, p1, p', hruns, hswitch, hback, hcontext⟩

/-- A task that `fork` has made starts with the registers of the call and zero in EAX, whenever it
first gets the processor. -/
theorem child_starts (b : Boot) (r : Context) (up : Machine → BitVec 16) (after : BitVec 32) (t n : Nat) (regs : Regs)
    (p q : Core) (c : Machine) (hrun : ReflTransGen (CoreStep up) (b.loaded r) p) (ht : p.Runs t)
    (hcall : ForkCall (t, regs) p.cpu.sys c.sys) (hpages : p.cpu.sys.FreeSlot → 3 ≤ p.cpu.sys.mm.freePages.card)
    (hdead : p.cpu.sys.task n = 0) (hlive : c.sys.Live n)
    (haway : Run.RunWhile (CoreStep up) (Core.Away n) { p with cpu := c } q) :
    ∃ p', q.switchTo up after n = some p' ∧ p'.cpu.context = regs.child ∧
      p'.cpu.sys.current = c.sys.task n := by
  rcases b.switched hrun with ⟨loc, run, x, h⟩
  rcases h.fork ht.current hcall hpages with ⟨loc', h', -, hchild⟩
  rcases h'.resident.tasks.of_live hlive with ⟨n, y, rfl, hn⟩
  have hnone : loc n = none := h.resident.tasks.slot_eq_zero.mp hdead
  have hnr : n ≠ run := by
    rintro rfl
    rw [h.here] at hnone
    cases hnone
  have hparked : Parked b.init n y c.sys.mm { p with cpu := c } := ⟨loc', run, x, h', hn, hnr, fun _ _ => rfl⟩
  rcases (hparked.run haway).resume up after with ⟨p', heq, hcontext, hcur, -⟩
  exact ⟨p', heq, hcontext.trans (hchild n y hnone hn), hcur.trans (h'.resident.tasks.structs.task_eq hn).symm⟩

theorem child_starts_init : ∃ p p' : Core, p.Runs 0 ∧ p.switchTo (fun _ => 0) 0x6d11 1 = some p' ∧
    p'.cpu.context = stackTop.child := by
  rcases Boot.blank.loaded_fork (fun _ => 0) 0x6d11 firstFork.context with ⟨s, hcall, -, hruns, hlive, -⟩
  rcases child_starts Boot.blank firstFork.context (fun _ => 0) 0x6d11 0 1 stackTop _ _ (firstFork.context.machine s)
    ReflTransGen.refl (Boot.blank.loaded_switched _).runs hcall (fun _ => (Boot.blank.loaded_available _).pages)
    (Boot.blank.loaded_available _).free hlive ReflTransGen.refl with ⟨p', hswitch, hcontext, -⟩
  exact ⟨_, p', hruns, hswitch, hcontext⟩

end MockOs.Kernel
