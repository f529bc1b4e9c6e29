import MockOs.Kernel.Proofs.Codec
import MockOs.Mm.Proofs.Memory

/-!
# The fields of a `task_struct` in memory

A structure at word `x` has its fields in the words from `x` on. `Within x s s'` says that
only words of the page at `x` are different in `s'`.
-/

namespace MockOs.Kernel

open Mm

theorem wordAddr_off {o : BitVec 32} (x : Nat) (ho : o.toNat % 4 = 0) :
    wordAddr x + o = wordAddr (x + o.toNat / 4) := by
  have ho' : o = BitVec.ofNat 32 (4 * (o.toNat / 4)) := by
    rw [show 4 * (o.toNat / 4) = o.toNat by omega, BitVec.ofNat_toNat, BitVec.setWidth_eq]
  conv_lhs => rw [ho']
  exact wordAddr_add x _

/-- The offset of a field of a `task_struct`. -/
def Field (o : BitVec 32) : Prop := o.toNat % 4 = 0 ∧ o.toNat < 4096

instance (o : BitVec 32) : Decidable (Field o) :=
  inferInstanceAs (Decidable (o.toNat % 4 = 0 ∧ o.toNat < 4096))

namespace ForkSys

variable {s s' s'' : ForkSys} {x y z : Nat} {o v : BitVec 32} {d : Desc}

theorem get_eq (ho : Field o) (hx : x + 1024 < 2 ^ 30) :
    s.get (wordAddr x) o = s.mm.word (x + o.toNat / 4) := by
  have hlt := ho.2
  rw [get, wordAddr_off x ho.1, Memory.read_wordAddr (by omega)]

theorem get_word (i : Nat) (ho : Field o) (hi : o.toNat / 4 = i) (hx : x + 1024 < 2 ^ 30) :
    s.get (wordAddr x) o = s.mm.word (x + i) := by
  rw [get_eq ho hx, hi]

theorem set_eq (ho : Field o) (hx : x + 1024 < 2 ^ 30) :
    s.set (wordAddr x) o v = { s with mm := s.mm.setWord (x + o.toNat / 4) v } := by
  have hlt := ho.2
  rw [set, wordAddr_off x ho.1, Memory.write_wordAddr (by omega)]

/-- Setting one word of a structure. -/
structure SetWord (x : Nat) (v : BitVec 32) (s s' : ForkSys) : Prop where
  rest : s' = { s with mm := s'.mm }
  map : s'.mm.memMap = s.mm.memMap
  self : s'.mm.word x = v
  ne : ∀ z, z ≠ x → s'.mm.word z = s.mm.word z

theorem setWord_set (s : ForkSys) (o v : BitVec 32) (i : Nat) (ho : Field o) (hi : o.toNat / 4 = i)
    (hx : x + 1024 < 2 ^ 30) : ∃ s', s.set (wordAddr x) o v = s' ∧ SetWord (x + i) v s s' := by
  refine ⟨_, rfl, ?_⟩
  rw [set_eq ho hx, hi]
  exact ⟨rfl, rfl, Memory.setWord_word_self, fun z hz => Memory.setWord_word_ne hz⟩

theorem getDesc_eq (hx : x + 1 < 2 ^ 30) :
    s.getDesc (wordAddr x) = ⟨s.mm.word x, s.mm.word (x + 1)⟩ := by
  rw [getDesc, wordAddr_add_four, Memory.read_wordAddr (by omega), Memory.read_wordAddr hx]

theorem setDesc_eq (hx : x + 1024 < 2 ^ 30) : s.setDesc (wordAddr x) d =
    { s with mm := (s.mm.setWord x d.a).setWord (x + 1) d.b } := by
  rw [setDesc, set_eq (by decide) hx, set_eq (by decide) hx]
  rfl

theorem getDesc_setDesc (hx : x + 1024 < 2 ^ 30) : (s.setDesc (wordAddr x) d).getDesc (wordAddr x) = d := by
  rw [setDesc_eq hx, getDesc_eq (by omega)]
  apply Desc.ext
  · show ((s.mm.setWord x d.a).setWord (x + 1) d.b).word x = d.a
    rw [Memory.setWord_word_ne (by omega), Memory.setWord_word_self]
  · exact Memory.setWord_word_self

theorem setDesc_word_ne (hx : x + 1024 < 2 ^ 30) (h1 : z ≠ x) (h2 : z ≠ x + 1) :
    (s.setDesc (wordAddr x) d).mm.word z = s.mm.word z := by
  rw [setDesc_eq hx]
  show ((s.mm.setWord x d.a).setWord (x + 1) d.b).word z = s.mm.word z
  rw [Memory.setWord_word_ne h2, Memory.setWord_word_ne h1]

theorem getDesc_congr (hx : x + 1 < 2 ^ 30) (h1 : s'.mm.word x = s.mm.word x)
    (h2 : s'.mm.word (x + 1) = s.mm.word (x + 1)) : s'.getDesc (wordAddr x) = s.getDesc (wordAddr x) := by
  rw [getDesc_eq hx, getDesc_eq hx, h1, h2]

theorem ldtEntry_eq (x i : Nat) : ldtEntry (wordAddr x) i = wordAddr (x + (230 + 2 * i)) := by
  rw [ldtEntry, wordAddr_off x (by decide), show 8 * i = 4 * (2 * i) by omega, wordAddr_add, ← Nat.add_assoc]
  rfl

/-- Only words of the page at `x` differ. -/
structure Within (x : Nat) (s s' : ForkSys) : Prop where
  rest : s' = { s with mm := s'.mm }
  map : s'.mm.memMap = s.mm.memMap
  word : ∀ z, ¬ (x ≤ z ∧ z < x + 1024) → s'.mm.word z = s.mm.word z

theorem Within.refl (x : Nat) (s : ForkSys) : Within x s s := ⟨rfl, rfl, fun _ _ => rfl⟩

theorem Within.trans (h : Within x s s') (h' : Within x s' s'') : Within x s s'' where
  rest := by
    have heq := h'.rest
    rw [h.rest] at heq
    exact heq
  map := h'.map.trans h.map
  word z hz := (h'.word z hz).trans (h.word z hz)

theorem within_set (ho : Field o) (hx : x + 1024 < 2 ^ 30) : Within x s (s.set (wordAddr x) o v) := by
  have hlt := ho.2
  rw [set_eq ho hx]
  exact ⟨rfl, rfl, fun z hz => Memory.setWord_word_ne (by omega)⟩

theorem within_setDesc (hxy : x ≤ y) (hy : y + 2 ≤ x + 1024) (hx : y + 1024 < 2 ^ 30) :
    Within x s (s.setDesc (wordAddr y) d) := by
  refine ⟨?_, ?_, fun z hz => setDesc_word_ne hx (by omega) (by omega)⟩
  · rw [setDesc_eq hx]
  · rw [setDesc_eq hx]
    rfl

theorem within_setFields (hx : x + 1024 < 2 ^ 30) : ∀ (fs : List (BitVec 32 × BitVec 32)) (s : ForkSys),
    (∀ f ∈ fs, Field f.1) → Within x s (s.setFields (wordAddr x) fs) := by
  intro fs
  induction fs with
  | nil => exact fun s _ => Within.refl x s
  | cons f fs ih =>
    intro s hfs
    exact (within_set (hfs f (List.mem_cons_self ..)) hx).trans
      (ih _ fun f' hf' => hfs f' (List.mem_cons_of_mem f hf'))

/-- A word that no field of the list is at keeps its value. -/
theorem setFields_word_ne (hx : x + 1024 < 2 ^ 30) : ∀ (fs : List (BitVec 32 × BitVec 32)) (s : ForkSys),
    (∀ f ∈ fs, Field f.1) → (∀ f ∈ fs, z ≠ x + f.1.toNat / 4) →
    (s.setFields (wordAddr x) fs).mm.word z = s.mm.word z := by
  intro fs
  induction fs with
  | nil => exact fun _ _ _ => rfl
  | cons f fs ih =>
    intro s hfs hz
    have hrest := ih (s.set (wordAddr x) f.1 f.2) (fun f' hf' => hfs f' (List.mem_cons_of_mem f hf'))
      fun f' hf' => hz f' (List.mem_cons_of_mem f hf')
    show ((s.set (wordAddr x) f.1 f.2).setFields (wordAddr x) fs).mm.word z = _
    rw [hrest, set_eq (hfs f (List.mem_cons_self ..)) hx]
    exact Memory.setWord_word_ne (hz f (List.mem_cons_self ..))

/-- A field of the list has its value in the end, if no other one is at the same word. -/
theorem setFields_word (hx : x + 1024 < 2 ^ 30) : ∀ (fs : List (BitVec 32 × BitVec 32)) (s : ForkSys),
    (∀ f ∈ fs, Field f.1) → (fs.map fun f => f.1.toNat / 4).Nodup →
    ∀ f ∈ fs, (s.setFields (wordAddr x) fs).mm.word (x + f.1.toNat / 4) = f.2 := by
  intro fs
  induction fs with
  | nil => exact fun _ _ _ f hf => absurd hf List.not_mem_nil
  | cons g fs ih =>
    intro s hfs hnodup f hf
    rw [List.map_cons, List.nodup_cons] at hnodup
    have hrest : ∀ f' ∈ fs, Field f'.1 := fun f' hf' => hfs f' (List.mem_cons_of_mem g hf')
    show ((s.set (wordAddr x) g.1 g.2).setFields (wordAddr x) fs).mm.word _ = _
    rcases List.mem_cons.mp hf with rfl | hf
    · rw [setFields_word_ne hx fs _ hrest, set_eq (hfs f (List.mem_cons_self ..)) hx]
      · exact Memory.setWord_word_self
      · intro f' hf' heq
        exact hnodup.1 (List.mem_map.mpr ⟨f', hf', by omega⟩)
    · exact ih _ hrest hnodup.2 f hf

/-! ## The child's structure -/

/-- The offsets of the fields that `copy_process` sets. -/
def childOffsets : List (BitVec 32) :=
  [Off.state, Off.pid, Off.counter, Off.signal, Off.alarm, Off.leader, Off.stime, Off.utime,
    Off.cstime, Off.cutime, Off.startTime, Tss.backLink, Tss.esp0, Tss.ss0, Tss.eip, Tss.eflags,
    Tss.eax, Tss.ecx, Tss.edx, Tss.ebx, Tss.esp, Tss.ebp, Tss.esi, Tss.edi, Tss.es, Tss.cs, Tss.ss,
    Tss.ds, Tss.fs, Tss.gs, Tss.ldt, Tss.traceBitmap]

theorem childFields_fst {nr : Nat} {r : Regs} {p : BitVec 32} {f : BitVec 32 × BitVec 32}
    (hf : f ∈ childFields nr r p s) : f.1 ∈ childOffsets := by
  have hmem : f.1 ∈ (childFields nr r p s).map Prod.fst := List.mem_map_of_mem hf
  exact hmem

theorem childOffsets_field : ∀ o ∈ childOffsets, Field o := by
  have hall : childOffsets.all (fun o => decide (Field o)) = true := by decide
  intro o ho
  exact of_decide_eq_true (List.all_eq_true.mp hall o ho)

/-- The files, the directories and the segments are not among them. -/
theorem childOffsets_ne {j : Nat} (hj : 189 ≤ j) (hj' : j < 236) : ∀ o ∈ childOffsets, j ≠ o.toNat / 4 := by
  have hall : childOffsets.all (fun o => decide (o.toNat / 4 < 189 ∨ 236 ≤ o.toNat / 4)) = true := by decide
  intro o ho
  have hout := of_decide_eq_true (List.all_eq_true.mp hall o ho)
  omega

/-- What the structure at word `x` has of its own: its number, its stack in kernel mode and the
selector of its local descriptor table. -/
structure ChildSet (m : Memory) (pid : BitVec 32) (nr x : Nat) : Prop where
  pid : m.word (x + 139) = pid
  esp0 : m.word (x + 237) = 4096 + wordAddr x
  ldt : m.word (x + 260) = BitVec.ofNat 32 (16 * nr + 40)

theorem ChildSet.congr {m m' : Memory} {pid : BitVec 32} {nr : Nat} (h : ChildSet m pid nr x)
    (heq : ∀ j, j = 139 ∨ j = 237 ∨ j = 260 → m'.word (x + j) = m.word (x + j)) : ChildSet m' pid nr x where
  pid := by rw [heq 139 (by decide), h.pid]
  esp0 := by rw [heq 237 (by decide), h.esp0]
  ldt := by rw [heq 260 (by decide), h.ldt]

/-- The fields that are set have their values. -/
theorem setFields_childField (nr : Nat) (r : Regs) (hx : x + 1024 < 2 ^ 30) {o v : BitVec 32} {i : Nat}
    (hmem : (o, v) ∈ childFields nr r (wordAddr x) s) (hi : o.toNat / 4 = i) :
    (s.setFields (wordAddr x) (childFields nr r (wordAddr x) s)).mm.word (x + i) = v := by
  have hnodup : ((childFields nr r (wordAddr x) s).map fun f => f.1.toNat / 4).Nodup :=
    (by decide : (childOffsets.map fun o => o.toNat / 4).Nodup)
  rw [← hi]
  exact setFields_word hx _ s (fun f hf => childOffsets_field f.1 (childFields_fst hf)) hnodup (o, v) hmem

theorem setFields_childSet (nr : Nat) (r : Regs) (hx : x + 1024 < 2 ^ 30) :
    ChildSet (s.setFields (wordAddr x) (childFields nr r (wordAddr x) s)).mm s.lastPid nr x := by
  have hpid : (Off.pid, s.lastPid) ∈ childFields nr r (wordAddr x) s := by simp [childFields]
  have hesp0 : (Tss.esp0, 4096 + wordAddr x) ∈ childFields nr r (wordAddr x) s := by simp [childFields]
  have hldt : (Tss.ldt, BitVec.ofNat 32 (16 * nr + 40)) ∈ childFields nr r (wordAddr x) s := by
    simp [childFields]
  exact ⟨setFields_childField nr r hx hpid rfl, setFields_childField nr r hx hesp0 rfl,
    setFields_childField nr r hx hldt rfl⟩

/-- For a task that has not used the coprocessor, the structure is copied and its fields are set. -/
theorem initChild_eq (nr : Nat) (r : Regs) (hmath : s.lastTaskUsedMath ≠ s.current) (hx : x + 1024 < 2 ^ 30) :
    ∃ m, movsl 289 s.current (wordAddr x) s.mm = m ∧ s.initChild nr r (wordAddr x) =
      ({ s with mm := m } : ForkSys).setFields (wordAddr x) (childFields nr r (wordAddr x) { s with mm := m }) := by
  refine ⟨_, rfl, ?_⟩
  rw [initChild, show taskWords = 289 from rfl]
  generalize movsl 289 s.current (wordAddr x) s.mm = m
  have hset := within_setFields hx _ { s with mm := m }
    fun f (hf : f ∈ childFields nr r (wordAddr x) { s with mm := m }) => childOffsets_field f.1 (childFields_fst hf)
  have hnomath : ¬ ((({ s with mm := m } : ForkSys).setFields (wordAddr x)
      (childFields nr r (wordAddr x) { s with mm := m })).lastTaskUsedMath =
      (({ s with mm := m } : ForkSys).setFields (wordAddr x)
        (childFields nr r (wordAddr x) { s with mm := m })).current) := by
    rw [hset.rest]
    exact hmath
  simp only [if_neg hnomath]

/-- The child's structure is the parent's but for the fields that are set. -/
theorem initChild_spec (nr : Nat) (r : Regs) (hcur : s.current = wordAddr y)
    (hmath : s.lastTaskUsedMath ≠ s.current) (hx : x + 1024 < 2 ^ 30) (hy : y + 1024 < 2 ^ 30)
    (hdisj : x + 1024 ≤ y ∨ y + 1024 ≤ x) :
    Within x s (s.initChild nr r (wordAddr x)) ∧
      (∀ j < 289, (∀ o ∈ childOffsets, j ≠ o.toNat / 4) →
        (s.initChild nr r (wordAddr x)).mm.word (x + j) = s.mm.word (y + j)) ∧
      ChildSet (s.initChild nr r (wordAddr x)).mm s.lastPid nr x := by
  have hcopy : ∀ z, (movsl 289 s.current (wordAddr x) s.mm).word z =
      if x ≤ z ∧ z < x + 289 then s.mm.word (y + (z - x)) else s.mm.word z := by
    rw [hcur]
    exact movsl_word (by omega) (by omega) (by omega)
  have hmap := movsl_memMap 289 s.current (wordAddr x) s.mm
  rcases initChild_eq nr r hmath hx with ⟨m, hm, heq⟩
  rw [heq]
  rw [hm] at hcopy hmap
  have hfst : ∀ f ∈ childFields nr r (wordAddr x) { s with mm := m }, Field f.1 :=
    fun f hf => childOffsets_field f.1 (childFields_fst hf)
  have hmoved : Within x s { s with mm := m } := by
    refine ⟨rfl, hmap, fun z hz => ?_⟩
    show m.word z = _
    rw [hcopy, if_neg (by omega)]
  refine ⟨hmoved.trans (within_setFields hx _ _ hfst), fun j hj hno => ?_, setFields_childSet nr r hx⟩
  rw [setFields_word_ne hx _ _ hfst fun f hf => by have := hno f.1 (childFields_fst hf); omega]
  show m.word (x + j) = _
  rw [hcopy, if_pos (by omega)]
  congr 1
  omega

/-- A field whose value does not depend on the state, such as those of the registers. -/
theorem initChild_field (nr : Nat) (r : Regs) (hmath : s.lastTaskUsedMath ≠ s.current) (hx : x + 1024 < 2 ^ 30)
    {o v : BitVec 32} (hmem : ∀ s', (o, v) ∈ childFields nr r (wordAddr x) s') :
    (s.initChild nr r (wordAddr x)).mm.word (x + o.toNat / 4) = v := by
  rcases initChild_eq nr r hmath hx with ⟨m, -, heq⟩
  rw [heq]
  exact setFields_childField nr r hx (hmem _) rfl

/-! ## The segments of the child -/

theorem setBases_spec (s : ForkSys) (newBase : BitVec 32) (hx : x + 2048 < 2 ^ 30) :
    Within x s (s.setBases newBase (wordAddr x)) ∧
      (∀ i, i = 1 ∨ i = 2 → (s.setBases newBase (wordAddr x)).getDesc (ldtEntry (wordAddr x) i) =
        setBase (s.getDesc (ldtEntry (wordAddr x) i)) newBase) ∧
      ∀ j, j ≠ 134 → (j < 232 ∨ 236 ≤ j) →
        (s.setBases newBase (wordAddr x)).mm.word (x + j) = s.mm.word (x + j) := by
  rw [setBases]
  simp only [ldtEntry_eq]
  have hset : ∀ z, z ≠ x + 134 → (s.set (wordAddr x) Off.startCode newBase).mm.word z = s.mm.word z := by
    intro z hz
    rw [set_eq (by decide) (by omega)]
    exact Memory.setWord_word_ne hz
  have hw1 : Within x s (s.set (wordAddr x) Off.startCode newBase) := within_set (by decide) (by omega)
  generalize s.set (wordAddr x) Off.startCode newBase = s1 at hset hw1
  have hw2 : Within x s1 (s1.setDesc (wordAddr (x + (230 + 2 * 1)))
      (setBase (s1.getDesc (wordAddr (x + (230 + 2 * 1)))) newBase)) :=
    within_setDesc (by omega) (by omega) (by omega)
  have hw3 : ∀ s2 d, Within x s2 (s2.setDesc (wordAddr (x + (230 + 2 * 2))) d) :=
    fun s2 d => within_setDesc (by omega) (by omega) (by omega)
  refine ⟨(hw1.trans hw2).trans (hw3 _ _), fun i hi => ?_, fun j hj hj' => ?_⟩
  · rcases hi with rfl | rfl
    · rw [getDesc_congr (by omega) (setDesc_word_ne (by omega) (by omega) (by omega))
        (setDesc_word_ne (by omega) (by omega) (by omega)), getDesc_setDesc (by omega),
        getDesc_congr (by omega) (hset _ (by omega)) (hset _ (by omega))]
    · rw [getDesc_setDesc (by omega), getDesc_congr (by omega)
        (setDesc_word_ne (by omega) (by omega) (by omega)) (setDesc_word_ne (by omega) (by omega) (by omega)),
        getDesc_congr (by omega) (hset _ (by omega)) (hset _ (by omega))]
  · rw [setDesc_word_ne (by omega) (by omega) (by omega), setDesc_word_ne (by omega) (by omega) (by omega),
      hset _ (by omega)]

/-- For a task whose two segments start at the same place and are 640 KB long, `copy_mem` gets
as far as the copy of its page tables. -/
theorem copyMem_eq {nr : Nat} {p base : BitVec 32}
    (hcode : getBase (s.getDesc (ldtEntry s.current 1)) = base)
    (hdata : getBase (s.getDesc (ldtEntry s.current 2)) = base)
    (hclimit : limitOf (s.getDesc (ldtEntry s.current 1)) = 0xa0000)
    (hdlimit : limitOf (s.getDesc (ldtEntry s.current 2)) = 0xa0000) :
    s.copyMem nr p = (copyPageTables base (BitVec.ofNat 32 nr * taskSize) 0xa0000
      (s.setBases (BitVec.ofNat 32 nr * taskSize) p).mm).map fun res =>
        ({ s.setBases (BitVec.ofNat 32 nr * taskSize) p with mm := res.1 }, 0) := by
  have hclim : s.getLimit 0x0f = 0xa0000 := hclimit
  have hdlim : s.getLimit 0x17 = 0xa0000 := hdlimit
  simp only [copyMem, hclim, hdlim, hcode, hdata]
  rw [if_neg (not_not_intro rfl), if_neg (by decide)]
  show (copyPageTables _ _ _ _ >>= fun res => _) = _
  cases copyPageTables base (BitVec.ofNat 32 nr * taskSize) 0xa0000
    (s.setBases (BitVec.ofNat 32 nr * taskSize) p).mm with
  | ok res => rfl
  | error e => rfl

/-! ## Counting and linking -/

/-- A task without open files counts nothing. -/
theorem countFiles_null (hx : x + 1024 < 2 ^ 30) : ∀ (n i : Nat), i + n ≤ nrOpen →
    (∀ j, 210 ≤ j → j < 230 → s.mm.word (x + j) = 0) → s.countFiles (wordAddr x) n i = s := by
  intro n
  induction n with
  | zero => exact fun _ _ _ => rfl
  | succ n ih =>
    intro i hi hnull
    have hlt : i + (n + 1) ≤ 20 := hi
    have hoff : (Off.filp + BitVec.ofNat 32 (4 * i)).toNat = 840 + 4 * i := by
      rw [BitVec.toNat_add, BitVec.toNat_ofNat]
      show (840 + 4 * i % 2 ^ 32) % 2 ^ 32 = _
      omega
    have hread : s.get (wordAddr x) (Off.filp + BitVec.ofNat 32 (4 * i)) = 0 := by
      rw [get_eq ⟨by omega, by omega⟩ hx, hoff]
      exact hnull _ (by omega) (by omega)
    rw [countFiles, hread, if_neg (not_not_intro rfl)]
    exact ih (i + 1) (by omega) hnull

theorem countInode_null (hcur : s.current = wordAddr y) (hy : y + 1024 < 2 ^ 30) (ho : Field o)
    (hnull : s.mm.word (y + o.toNat / 4) = 0) : s.countInode o = s := by
  rw [countInode, hcur, get_eq ho hy, hnull, if_neg (not_not_intro rfl)]

/-- The structure at `x` is linked as the youngest child of the one at `y`, in front of the
child `old` that was the youngest before. -/
structure Linked (x y : Nat) (old : Option Nat) (s s' : ForkSys) : Prop where
  rest : s' = { s with mm := s'.mm }
  map : s'.mm.memMap = s.mm.memMap
  pptr : s'.mm.word (x + 175) = wordAddr y
  cptr : s'.mm.word (x + 176) = 0
  ysptr : s'.mm.word (x + 177) = 0
  osptr : s'.mm.word (x + 178) = old.elim 0 wordAddr
  parent : s'.mm.word (y + 176) = wordAddr x
  older : ∀ y', old = some y' → s'.mm.word (y' + 177) = wordAddr x
  word : ∀ z, ¬ (x + 175 ≤ z ∧ z ≤ x + 178) → z ≠ y + 176 →
    (∀ y', old = some y' → z ≠ y' + 177) → s'.mm.word z = s.mm.word z

theorem linkProcess_linked {old : Option Nat} (hcur : s.current = wordAddr y) (hx : x + 1024 < 2 ^ 30)
    (hy : y + 1024 < 2 ^ 30) (hdisj : x + 1024 ≤ y ∨ y + 1024 ≤ x)
    (hold : s.mm.word (y + 176) = old.elim 0 wordAddr)
    (hlt : ∀ y', old = some y' → 0 < y' ∧ y' + 1024 < 2 ^ 30 ∧ (x + 1024 ≤ y' ∨ y' + 1024 ≤ x) ∧
      (y' = y ∨ y + 1024 ≤ y' ∨ y' + 1024 ≤ y)) :
    Linked x y old s (s.linkProcess (wordAddr x)) := by
  rcases setWord_set s Off.pPptr s.current 175 (by decide) (by decide) hx with ⟨s1, hs1, h1⟩
  rcases setWord_set s1 Off.pCptr 0 176 (by decide) (by decide) hx with ⟨s2, hs2, h2⟩
  rcases setWord_set s2 Off.pYsptr 0 177 (by decide) (by decide) hx with ⟨s3, hs3, h3⟩
  have hcur3 : s3.current = wordAddr y := by
    rw [h3.rest, h2.rest, h1.rest]
    exact hcur
  have hread : s3.get s3.current Off.pCptr = old.elim 0 wordAddr := by
    rw [hcur3, get_word 176 (by decide) (by decide) hy, h3.ne _ (by omega), h2.ne _ (by omega),
      h1.ne _ (by omega)]
    exact hold
  rcases setWord_set s3 Off.pOsptr (old.elim 0 wordAddr) 178 (by decide) (by decide) hx with ⟨s4, hs4, h4⟩
  have hread4 : s4.get (wordAddr x) Off.pOsptr = old.elim 0 wordAddr := by
    rw [get_word 178 (by decide) (by decide) hx]
    exact h4.self
  have hrest4 : s4 = { s with mm := s4.mm } := by
    rw [h4.rest, h3.rest, h2.rest, h1.rest]
  have hmap4 : s4.mm.memMap = s.mm.memMap := by rw [h4.map, h3.map, h2.map, h1.map]
  have hword4 : ∀ z, ¬ (x + 175 ≤ z ∧ z ≤ x + 178) → s4.mm.word z = s.mm.word z := by
    intro z hz
    rw [h4.ne _ (by omega), h3.ne _ (by omega), h2.ne _ (by omega), h1.ne _ (by omega)]
  have h175 : s4.mm.word (x + 175) = wordAddr y := by
    rw [h4.ne _ (by omega), h3.ne _ (by omega), h2.ne _ (by omega), h1.self]
    exact hcur
  have h176 : s4.mm.word (x + 176) = 0 := by rw [h4.ne _ (by omega), h3.ne _ (by omega), h2.self]
  have h177 : s4.mm.word (x + 177) = 0 := by rw [h4.ne _ (by omega), h3.self]
  rw [linkProcess]
  simp only [hs1, hs2, hs3, hread, hs4, hread4]
  cases old with
  | none =>
    have hcur4 : s4.current = wordAddr y := by
      rw [hrest4]
      exact hcur
    have hnone : ¬ ((none : Option Nat).elim (0 : BitVec 32) wordAddr ≠ 0) := not_not_intro rfl
    rw [if_neg hnone, hcur4]
    rcases setWord_set s4 Off.pCptr (wordAddr x) 176 (by decide) (by decide) hy with ⟨s5, hs5, h5⟩
    rw [hs5]
    exact {
      rest := by rw [h5.rest, hrest4]
      map := by rw [h5.map, hmap4]
      pptr := by rw [h5.ne _ (by omega), h175]
      cptr := by rw [h5.ne _ (by omega), h176]
      ysptr := by rw [h5.ne _ (by omega), h177]
      osptr := by
        rw [h5.ne _ (by omega)]
        exact h4.self
      parent := h5.self
      older := fun y' hy' => by cases hy'
      word := fun z hz hzy _ => by rw [h5.ne z hzy, hword4 z hz] }
  | some y' =>
    rcases hlt y' rfl with ⟨hpos, hy'lt, hdisj', hsame⟩
    have hne : wordAddr y' ≠ 0 := wordAddr_ne_zero hpos (by omega)
    rcases setWord_set s4 Off.pYsptr (wordAddr x) 177 (by decide) (by decide) hy'lt with ⟨s5, hs5, h5⟩
    have hcur5 : s5.current = wordAddr y := by
      rw [h5.rest, hrest4]
      exact hcur
    rcases setWord_set s5 Off.pCptr (wordAddr x) 176 (by decide) (by decide) hy with ⟨s6, hs6, h6⟩
    have hsome : (some y').elim (0 : BitVec 32) wordAddr ≠ 0 := hne
    rw [if_pos hsome, Option.elim_some, hs5, hcur5, hs6]
    exact {
      rest := by rw [h6.rest, h5.rest, hrest4]
      map := by rw [h6.map, h5.map, hmap4]
      pptr := by rw [h6.ne _ (by omega), h5.ne _ (by omega), h175]
      cptr := by rw [h6.ne _ (by omega), h5.ne _ (by omega), h176]
      ysptr := by rw [h6.ne _ (by omega), h5.ne _ (by omega), h177]
      osptr := by
        rw [h6.ne _ (by omega), h5.ne _ (by omega)]
        exact h4.self
      parent := h6.self
      older := fun y'' hy'' => by
        obtain rfl : y' = y'' := Option.some.inj hy''
        rw [h6.ne _ (by omega), h5.self]
      word := fun z hz hzy hzo => by
        rw [h6.ne z hzy, h5.ne z (hzo y' rfl), hword4 z hz] }

end ForkSys

end MockOs.Kernel
