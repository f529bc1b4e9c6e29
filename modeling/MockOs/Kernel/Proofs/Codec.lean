import MockOs.Kernel.Descriptor

/-!
# Reading back a segment descriptor

The base of a descriptor is spread over its two words; `set_base` and `get_base` agree on where.
Every encoder changes its own field of the `Segment` and nothing else, and a descriptor is
determined by its `Segment`: that the encoders override each other and commute is a fact about
fields of a record.
-/

namespace MockOs.Kernel

open Bytes

theorem getBase_setBase (d : Desc) (base : BitVec 32) : getBase (setBase d base) = base := by
  apply BitVec.eq_of_getLsbD_eq
  intro i hi
  simp only [getBase, setBase, BitVec.getLsbD_or, BitVec.getLsbD_and, BitVec.getLsbD_shiftLeft,
    BitVec.getLsbD_ushiftRight]
  interval_cases i <;> simp

/-- A second `set_base` overrides the first. -/
theorem setBase_setBase (d : Desc) (base base' : BitVec 32) :
    setBase (setBase d base) base' = setBase d base' := by
  apply Desc.ext <;> apply BitVec.eq_of_getLsbD_eq
  · intro i hi
    simp only [setBase, BitVec.getLsbD_or, BitVec.getLsbD_and, BitVec.getLsbD_shiftLeft]
    interval_cases i <;> simp
  · intro i hi
    simp only [setBase, BitVec.getLsbD_or, BitVec.getLsbD_and, BitVec.getLsbD_ushiftRight]
    interval_cases i <;> simp

/-- `set_base` keeps the bits of the second word that are not in the base. -/
theorem setBase_b_and (d : Desc) (base : BitVec 32) {m : BitVec 32} (hm : m &&& 0x00ffff00 = m) :
    (setBase d base).b &&& m = d.b &&& m := by
  rw [← hm]
  apply BitVec.eq_of_getLsbD_eq
  intro i hi
  simp only [setBase, BitVec.getLsbD_or, BitVec.getLsbD_and, BitVec.getLsbD_ushiftRight]
  interval_cases i <;> simp

theorem limitOf_setBase (d : Desc) (base : BitVec 32) : limitOf (setBase d base) = limitOf d := by
  have ha : (setBase d base).a &&& 0xffff = d.a &&& 0xffff := by
    apply BitVec.eq_of_getLsbD_eq
    intro i hi
    simp only [setBase, BitVec.getLsbD_or, BitVec.getLsbD_and, BitVec.getLsbD_shiftLeft]
    interval_cases i <;> simp
  have hb : (setBase d base).b &&& 0xf0000 = d.b &&& 0xf0000 := setBase_b_and d base (by decide)
  have hg : (setBase d base).b &&& 0x800000 = d.b &&& 0x800000 := setBase_b_and d base (by decide)
  simp only [limitOf, ha, hb, hg]

/-- The code reads the base that the processor reads. -/
theorem getBase_eq_decode (d : Desc) : getBase d = d.decode.base := by
  apply BitVec.eq_of_getLsbD_eq
  intro i hi
  simp only [getBase, Desc.decode, BitVec.getLsbD_or, BitVec.getLsbD_and, BitVec.getLsbD_shiftLeft,
    BitVec.getLsbD_ushiftRight, BitVec.getLsbD_append, BitVec.getLsbD_extractLsb']
  interval_cases i <;> simp

theorem decode_setBase (d : Desc) (base : BitVec 32) :
    (setBase d base).decode = { d.decode with base := base } := by
  refine Segment.ext ?_ ?_ ?_ ?_
  · rw [← getBase_eq_decode, getBase_setBase]
  all_goals
    apply BitVec.eq_of_getLsbD_eq
    intro i hi
    simp only [setBase, Desc.decode, BitVec.getLsbD_or, BitVec.getLsbD_and,
      BitVec.getLsbD_shiftLeft, BitVec.getLsbD_ushiftRight, BitVec.getLsbD_append,
      BitVec.getLsbD_extractLsb']
    interval_cases i <;> simp

/-- A descriptor has no bits besides those of its segment. -/
theorem decode_inj {d d' : Desc} (h : d.decode = d'.decode) : d = d' := by
  have hbase := congrArg (fun s => BitVec.getLsbD s.base) h
  have hlimit := congrArg (fun s => BitVec.getLsbD s.limit) h
  have htype := congrArg (fun s => BitVec.getLsbD s.type) h
  have hflags := congrArg (fun s => BitVec.getLsbD s.flags) h
  simp only [Desc.decode, funext_iff, BitVec.getLsbD_append, BitVec.getLsbD_extractLsb'] at *
  refine Desc.ext ?_ ?_
  · apply BitVec.eq_of_getLsbD_eq
    intro i hi
    rcases Nat.lt_or_ge i 16 with hlt | hge
    · have hbit := hlimit i
      simpa [hlt] using hbit
    · have hbit := hbase (i - 16)
      have hpos : i - 16 < 16 := by omega
      simpa [hpos, Nat.add_sub_cancel' hge] using hbit
  · apply BitVec.eq_of_getLsbD_eq
    intro i hi
    have hfield : i < 8 ∨ (8 ≤ i ∧ i < 16) ∨ (16 ≤ i ∧ i < 20) ∨ (20 ≤ i ∧ i < 24) ∨ 24 ≤ i := by
      omega
    rcases hfield with hlow | ⟨hge, hlt⟩ | ⟨hge, hlt⟩ | ⟨hge, hlt⟩ | hhigh
    · have hbit := hbase (i + 16)
      simpa [hlow] using hbit
    · have hbit := htype (i - 8)
      simpa [show i - 8 < 8 by omega, Nat.add_sub_cancel' hge] using hbit
    · have hbit := hlimit i
      simpa [show ¬ i < 16 by omega, show i - 16 < 4 by omega, Nat.add_sub_cancel' hge] using hbit
    · have hbit := hflags (i - 20)
      simpa [show i - 20 < 4 by omega, Nat.add_sub_cancel' hge] using hbit
    · have hbit := hbase i
      simpa [show ¬ i < 16 by omega, show ¬ i - 16 < 8 by omega, show i - 16 - 8 < 8 by omega,
        show 24 + (i - 16 - 8) = i by omega] using hbit

section Bytes

variable (m : Nat → BitVec 8) (n : Nat)

/-- The fields, byte by byte. -/
theorem decode_descAt : (descAt m n).decode =
    ⟨m (n + 7) ++ m (n + 4) ++ (m (n + 3) ++ m (n + 2)),
      (m (n + 6)).extractLsb' 0 4 ++ (m (n + 1) ++ m n), m (n + 5), (m (n + 6)).extractLsb' 4 4⟩ := by
  refine Segment.ext ?_ ?_ ?_ ?_
  all_goals
    apply BitVec.eq_of_getLsbD_eq
    intro i hi
    simp only [descAt, Desc.decode, load32, BitVec.getLsbD_append, BitVec.getLsbD_extractLsb']
    interval_cases i <;> simp

/-- Eight bytes are determined by the segment they describe. -/
theorem ext_descAt {m' : Nat → BitVec 8} (hout : ∀ b, b < n ∨ n + 8 ≤ b → m' b = m b)
    (hdecode : (descAt m' n).decode = (descAt m n).decode) : m' = m := by
  have hdesc := decode_inj hdecode
  have ha : load32 m' n = load32 m n := congrArg Desc.a hdesc
  have hb : load32 m' (n + 4) = load32 m (n + 4) := congrArg Desc.b hdesc
  funext b
  rcases Nat.lt_or_ge b n with hlt | hge
  · exact hout b (.inl hlt)
  · rcases Nat.lt_or_ge b (n + 4) with h4 | h4
    · exact byte_of_load32 ha hge h4
    · rcases Nat.lt_or_ge b (n + 8) with h8 | h8
      · exact byte_of_load32 hb h4 h8
      · exact hout b (.inr h8)

/-! ## The encoders -/

theorem setBaseAt_other (base : BitVec 32) {b : Nat} (h : b < n ∨ n + 8 ≤ b) :
    setBaseAt m n base b = m b := by
  unfold setBaseAt
  rw [store_other _ (by omega), store_other _ (by omega)]

theorem descAt_setBaseAt (base : BitVec 32) :
    descAt (setBaseAt m n base) n = setBase (descAt m n) base := by
  unfold setBaseAt
  apply Desc.ext
  · rw [descAt, load32_store_other _ (by omega), load32_store32]
  · rw [descAt, load32_store32]

theorem setLimitAt_other (limit : BitVec 32) {b : Nat} (h : b < n ∨ n + 8 ≤ b) :
    setLimitAt m n limit b = m b := by
  unfold setLimitAt
  rw [store_other _ (by omega), store_other _ (by omega)]

/-- `_set_limit` writes the first two bytes and the low half of the seventh. -/
theorem setLimitAt_eq (limit : BitVec 32) (i : Nat) :
    setLimitAt m n limit (n + i) =
      if i = 0 then limit.extractLsb' 0 8 else if i = 1 then limit.extractLsb' 8 8
      else if i = 6 then limit.extractLsb' 16 8 ||| m (n + 6) &&& 0xf0 else m (n + i) := by
  unfold setLimitAt
  rcases Nat.lt_or_ge i 2 with h2 | h2
  · rw [store_other _ (by omega), store_inside _ (by omega)]
    interval_cases i <;> simp
  · rw [if_neg (by omega), if_neg (by omega)]
    split
    case isTrue h6 =>
      subst h6
      rw [store_byte, store_other _ (by omega)]
      apply BitVec.eq_of_getLsbD_eq
      intro j hj
      interval_cases j <;> simp [lowByte]
    case isFalse h6 =>
      rw [store_other _ (by omega), store_other _ (by omega)]

/-- A 20-bit limit leaves the high half of the seventh byte alone. -/
theorem decode_setLimitAt (limit : BitVec 20) :
    (descAt (setLimitAt m n (limit.setWidth 32)) n).decode =
      { (descAt m n).decode with limit := limit } := by
  have hzero := setLimitAt_eq m n (limit.setWidth 32) 0
  rw [decode_descAt, decode_descAt]
  simp only [Nat.add_zero] at hzero
  simp only [hzero, setLimitAt_eq]
  refine Segment.ext rfl ?_ rfl ?_
  · apply BitVec.eq_of_getLsbD_eq
    intro i hi
    simp only [BitVec.getLsbD_append, BitVec.getLsbD_extractLsb', BitVec.getLsbD_setWidth, if_true]
    interval_cases i <;> simp
  · apply BitVec.eq_of_getLsbD_eq
    intro i hi
    simp only [BitVec.getLsbD_extractLsb', if_true]
    interval_cases i <;> simp

/-- `_set_tssldt_desc` writes every byte of the descriptor. -/
theorem setTssldtDescAt_eq (addr : BitVec 32) (type : BitVec 8) {i : Nat} (hi : i < 8) :
    setTssldtDescAt m n addr type (n + i) =
      [104, 0, addr.extractLsb' 0 8, addr.extractLsb' 8 8, addr.extractLsb' 16 8, type, 0,
        addr.extractLsb' 24 8].getD i 0 := by
  unfold setTssldtDescAt store
  apply BitVec.eq_of_getLsbD_eq
  intro j hj
  interval_cases i
  case «4» | «7» => interval_cases j <;> simp [lowByte, highByte]
  all_goals simp

/-- Nothing is left of the eight bytes that were there. -/
theorem decode_setTssldtDescAt (addr : BitVec 32) (type : BitVec 8) :
    (descAt (setTssldtDescAt m n addr type) n).decode = ⟨addr, 104, type, 0⟩ := by
  have hzero := setTssldtDescAt_eq m n addr type (i := 0) (by decide)
  rw [decode_descAt]
  simp only [Nat.add_zero] at hzero
  simp only [hzero, setTssldtDescAt_eq, Nat.reduceLT]
  refine Segment.ext ?_ (by simp) rfl (by simp)
  apply BitVec.eq_of_getLsbD_eq
  intro i hi
  simp only [BitVec.getLsbD_append, List.getD_eq_getElem?_getD]
  interval_cases i <;> simp

/-- The macro writes the descriptor that `copy_process` and `sched_init` take it to write. -/
theorem descAt_setTssldtDescAt (addr : BitVec 32) (type : BitVec 8) :
    descAt (setTssldtDescAt m n addr type) n = setTssldtDesc addr (type.setWidth 32) := by
  apply decode_inj
  rw [decode_setTssldtDescAt]
  refine Segment.ext ?_ ?_ ?_ ?_
  all_goals
    apply BitVec.eq_of_getLsbD_eq
    intro i hi
    simp only [setTssldtDesc, Desc.decode, BitVec.getLsbD_or, BitVec.getLsbD_and,
      BitVec.getLsbD_shiftLeft, BitVec.getLsbD_ushiftRight, BitVec.getLsbD_append,
      BitVec.getLsbD_extractLsb', BitVec.getLsbD_setWidth]
    interval_cases i <;> simp

end Bytes

/-! ## The codec -/

/-- `get_base` undoes `set_base`, which keeps limit, type and flags and overrides itself;
`_set_limit` changes the limit only and commutes with `set_base`; `_set_tssldt_desc` writes a
descriptor with base `addr`, limit 104 and the access byte `type` over any eight bytes. -/
theorem descriptor_codec (m : Nat → BitVec 8) (n : Nat) :
    (∀ base, getBase (descAt (setBaseAt m n base) n) = base ∧
      (descAt (setBaseAt m n base) n).decode.limit = (descAt m n).decode.limit ∧
      (descAt (setBaseAt m n base) n).decode.type = (descAt m n).decode.type ∧
      (descAt (setBaseAt m n base) n).decode.flags = (descAt m n).decode.flags ∧
      ∀ base', setBaseAt (setBaseAt m n base) n base' = setBaseAt m n base') ∧
    (∀ limit : BitVec 20, (descAt (setLimitAt m n (limit.setWidth 32)) n).decode.limit = limit ∧
      getBase (descAt (setLimitAt m n (limit.setWidth 32)) n) = getBase (descAt m n) ∧
      (descAt (setLimitAt m n (limit.setWidth 32)) n).decode.type = (descAt m n).decode.type ∧
      (descAt (setLimitAt m n (limit.setWidth 32)) n).decode.flags = (descAt m n).decode.flags ∧
      ∀ base, setLimitAt (setBaseAt m n base) n (limit.setWidth 32) =
        setBaseAt (setLimitAt m n (limit.setWidth 32)) n base) ∧
    ∀ addr type, getBase (descAt (setTssldtDescAt m n addr type) n) = addr ∧
      (descAt (setTssldtDescAt m n addr type) n).decode.limit = 104 ∧
      (descAt (setTssldtDescAt m n addr type) n).decode.type = type := by
  refine ⟨?_, ?_, ?_⟩
  · intro base
    rw [descAt_setBaseAt, decode_setBase, getBase_setBase]
    refine ⟨rfl, rfl, rfl, rfl, ?_⟩
    intro base'
    apply ext_descAt _ n
    · intro b hb
      rw [setBaseAt_other _ _ _ hb, setBaseAt_other _ _ _ hb, setBaseAt_other _ _ _ hb]
    · rw [descAt_setBaseAt, descAt_setBaseAt, descAt_setBaseAt, setBase_setBase]
  · intro limit
    rw [getBase_eq_decode, getBase_eq_decode, decode_setLimitAt]
    refine ⟨rfl, rfl, rfl, rfl, ?_⟩
    intro base
    apply ext_descAt _ n
    · intro b hb
      rw [setLimitAt_other _ _ _ hb, setBaseAt_other _ _ _ hb, setBaseAt_other _ _ _ hb,
        setLimitAt_other _ _ _ hb]
    · rw [decode_setLimitAt, descAt_setBaseAt, descAt_setBaseAt, decode_setBase, decode_setBase,
        decode_setLimitAt]
  · intro addr type
    rw [getBase_eq_decode, decode_setTssldtDescAt]
    exact ⟨rfl, rfl, rfl⟩

end MockOs.Kernel
