import MockOs.Include.String

/-!
# Copying strings and memory
-/

namespace MockOs.StringH

open StringOps CString

variable {s : State} {l : List (BitVec 8)} {c : BitVec 8} {code : List Instr} {k n : Nat} {Q : State → Prop}

/-- A state with a string at `0x1000` and one at `0x2000`. -/
def sample (a b : List (BitVec 8)) : State where
  eax := 0
  ebx := 0
  ecx := 0
  edx := 0
  esi := 0
  edi := 0
  zf := false
  sf := false
  of := false
  df := false
  mem := put (put (fun _ => 0) 0x1000 (a ++ [0])) 0x2000 (b ++ [0])

/-! ## `strcpy` and `strcat` -/

/-- The lines from `k` on. -/
theorem line {ls : List Instr} (hcode : (code.drop k).take n = ls) {i : Nat} (hi : i < n) : code[k + i]? = ls[i]? := by
  rw [← hcode, List.getElem?_take_of_lt hi, List.getElem?_drop]

/-- Some of the lines. -/
theorem lines {ls : List Instr} {i m : Nat} (hcode : (code.drop k).take n = ls) (h : i + m ≤ n) :
    (code.drop (k + i)).take m = (ls.drop i).take m := by
  rw [← hcode, List.drop_take, List.take_take, List.drop_drop, Nat.min_eq_left (Nat.le_sub_of_add_le' h)]

/-- `lodsb`, `stosb` and `testb %al,%al`. -/
def copyChar (s : State) : State := Instr.exec (Instr.exec (Instr.exec s .lodsb) .stosb) .testAl

theorem copyChar_al (hc : s.mem s.esi = c) : s.lodsb.al = c := (State.al_setAl s (s.mem s.esi)).trans hc

theorem copyChar_mem (hc : s.mem s.esi = c) : (copyChar s).mem = Function.update s.mem s.edi c :=
  congrArg (Function.update s.mem s.edi) (copyChar_al hc)

theorem copyChar_zf (hc : s.mem s.esi = c) : (copyChar s).zf = decide (c = 0) := by
  have hal : s.lodsb.stosb.al = c := copyChar_al hc
  rw [← hal]
  exact State.testAl_zf s.lodsb.stosb

theorem copyChar_esi (hdf : s.df = false) : (copyChar s).esi = s.esi + 1 := by
  show s.esi + s.delta = _
  rw [State.delta, hdf]
  rfl

theorem copyChar_edi (hdf : s.df = false) : (copyChar s).edi = s.edi + 1 := by
  show s.edi + s.delta = _
  rw [State.delta, hdf]
  rfl

/-- The rest of the source is not overwritten. -/
theorem copyChar_str (hdf : s.df = false) (hstr : Str s.mem s.esi (c :: l)) (hapart : Apart s.esi s.edi (l.length + 1)) :
    Str (copyChar s).mem (copyChar s).esi l ∧ Apart (copyChar s).esi (copyChar s).edi l.length := by
  have hlen : l.length + 1 < 2 ^ 32 := hstr.length_lt
  rcases str_cons.mp hstr with ⟨hc, -, hrest⟩
  rw [copyChar_mem hc, copyChar_esi hdf, copyChar_edi hdf]
  refine ⟨hrest.update fun i hi => ?_, hapart.succ.mono (Nat.le_succ _)⟩
  rw [← add_ofNat_succ]
  exact hapart.ne (Nat.succ_pos i) (Nat.succ_le_succ hi) hlen

/-- The loop of `strcpy` and `strcat`, that has `lodsb` at `k`. -/
theorem copy_loop (hcode : (code.drop k).take 4 = [.lodsb, .stosb, .testAl, .jcc .ne k])
    (hdf : s.df = false) (hstr : Str s.mem s.esi l) (hapart : Apart s.esi s.edi l.length)
    (hend : ∀ s', s'.mem = put s.mem s.edi (l ++ [0]) → StringOps.Ends code (k + 4) s' Q) :
    StringOps.Ends code k s Q := by
  have hat : ∀ i < 4, code[k + i]? = [Instr.lodsb, .stosb, .testAl, .jcc .ne k][i]? := fun i hi => line hcode hi
  induction l generalizing s with
  | nil =>
    have hc := str_nil.mp hstr
    refine .op (hat 0 (by decide)) rfl (.op (hat 1 (by decide)) rfl (.op (hat 2 (by decide)) rfl ?_))
    refine .pass (hat 3 (by decide)) ?_ (hend _ (copyChar_mem hc))
    exact State.holds_ne_false (copyChar_zf hc) rfl
  | cons c l ih =>
    rcases str_cons.mp hstr with ⟨hc, hne, -⟩
    refine .op (hat 0 (by decide)) rfl (.op (hat 1 (by decide)) rfl (.op (hat 2 (by decide)) rfl ?_))
    refine .jump (hat 3 (by decide)) ?_ ?_
    · exact State.holds_ne_true (copyChar_zf hc) hne
    · rcases copyChar_str hdf hstr hapart with ⟨hstr', hapart'⟩
      refine ih (s := copyChar s) hdf hstr' hapart' fun s' hmem => hend s' ?_
      rw [hmem, copyChar_mem hc, copyChar_edi hdf]
      rfl

/-- The search for the end of a string, in `strcat` and `strncat`. -/
theorem find_end {d : List (BitVec 8)} (hcode : (code.drop k).take 2 = [.repneScasb, .dec .edi]) (hdf : s.df = false)
    (hal : s.al = 0) (hecx : s.ecx = 0xffffffff) (hstr : Str s.mem s.edi d) (hd : d.length + 1 < 2 ^ 32)
    (hnext : ∀ s', s'.df = false → s'.esi = s.esi → s'.mem = s.mem → s'.edi = s.edi + BitVec.ofNat 32 d.length →
      StringOps.Ends code (k + 2) s' Q) : StringOps.Ends code k s Q := by
  have hfound := State.scan_found (n := s.ecx.toNat) hdf (hal.symm ▸ hstr.1) (hal.symm ▸ hstr.2)
    (by rw [hecx]; exact Nat.lt_sub_of_add_lt hd)
  refine .op (line hcode (i := 0) (by decide)) rfl (.op (line hcode (i := 1) (by decide)) rfl (hnext _ ?_ ?_ ?_ ?_))
  · show (s.repWhile State.scasb false s.ecx.toNat).df = false
    rw [State.scan_df, hdf]
  · exact State.scan_esi
  · exact State.scan_mem
  · show (s.repWhile State.scasb false s.ecx.toNat).edi - 1 = _
    rw [hfound.2.1, BitVec.ofNat_add, ← BitVec.add_assoc]
    exact BitVec.add_sub_cancel _ _

/-- `strcpy` stores the characters and the zero behind them, if it does not overwrite what it has
not read yet. -/
theorem strcpy_copies (s : State) (dest src : BitVec 32) (l : List (BitVec 8)) (hstr : Str s.mem src l)
    (hapart : Apart src dest l.length) : (strcpy dest src).Ends s fun s' => s'.mem = put s.mem dest (l ++ [0]) :=
  .op rfl rfl (copy_loop rfl rfl hstr hapart fun _ hmem => .halt rfl hmem)

theorem strcat_appends (s : State) (dest src : BitVec 32) (d l : List (BitVec 8)) (hdest : Str s.mem dest d)
    (hstr : Str s.mem src l) (hd : d.length + 1 < 2 ^ 32) (hapart : Apart src (dest + BitVec.ofNat 32 d.length) l.length) :
    (strcat dest src).Ends s fun s' => s'.mem = put s.mem dest (d ++ l ++ [0]) := by
  refine .op rfl rfl (find_end rfl rfl rfl rfl hdest hd fun s₁ hdf hesi hmem hedi => ?_)
  have hesi : s₁.esi = src := hesi
  have hmem : s₁.mem = s.mem := hmem
  have hedi : s₁.edi = dest + BitVec.ofNat 32 d.length := hedi
  refine copy_loop rfl hdf (hmem ▸ hesi ▸ hstr) (hesi ▸ hedi ▸ hapart) fun s₂ hput => .halt rfl ?_
  rw [hput, hmem, hedi, hdest.put_behind, List.append_assoc]

/-! ## `strncpy` and `strncat` -/

/-- `js` behind the `dec` of a count. -/
theorem dec_sign {n : Nat} (hn : n + 1 ≤ 2 ^ 31) : (BitVec.ofNat 32 (n + 1) - 1).msb = false := by
  rw [BitVec.ofNat_add]
  show (BitVec.ofNat 32 n + 1 - 1).msb = false
  rw [BitVec.add_sub_cancel, BitVec.msb_eq_decide, BitVec.toNat_ofNat, decide_eq_false_iff_not]
  omega

theorem ofNat_dec (n : Nat) : BitVec.ofNat 32 (n + 1) - 1 = BitVec.ofNat 32 n := by
  rw [BitVec.ofNat_add]
  exact BitVec.add_sub_cancel _ _

/-- The loop of `strncpy` and `strncat`, that has `dec` at `k` and is left to `e` when the count is
used up. -/
theorem bounded_loop {e : Nat}
    (hcode : (code.drop k).take 6 = [.dec .ecx, .jcc .s e, .lodsb, .stosb, .testAl, .jcc .ne k])
    (hdf : s.df = false) (hstr : Str s.mem s.esi l) (hapart : Apart s.esi s.edi l.length) (hn : n ≤ 2 ^ 31)
    (hecx : s.ecx = BitVec.ofNat 32 n)
    (hcut : n ≤ l.length → ∀ s', s'.df = false → s'.mem = put s.mem s.edi (l.take n) →
      s'.edi = s.edi + BitVec.ofNat 32 n → StringOps.Ends code e s' Q)
    (hend : l.length < n → ∀ s', s'.df = false → s'.mem = put s.mem s.edi (l ++ [0]) →
      s'.edi = s.edi + BitVec.ofNat 32 (l.length + 1) → s'.al = 0 → s'.ecx = BitVec.ofNat 32 (n - (l.length + 1)) →
      StringOps.Ends code (k + 6) s' Q) : StringOps.Ends code k s Q := by
  have hat : ∀ i < 6, code[k + i]? = [Instr.dec .ecx, .jcc .s e, .lodsb, .stosb, .testAl, .jcc .ne k][i]? :=
    fun i hi => line hcode hi
  induction n generalizing s l with
  | zero =>
    refine .op (hat 0 (by decide)) rfl (.jump (hat 1 (by decide)) ?_ (hcut (Nat.zero_le _) _ hdf rfl ?_))
    · show (s.ecx - 1).msb = true
      rw [hecx]
      decide
    · exact (add_ofNat_zero s.edi).symm
  | succ n ih =>
    refine .op (hat 0 (by decide)) rfl (.pass (hat 1 (by decide)) ?_ (.op (hat 2 (by decide)) rfl ?_))
    · show (s.ecx - 1).msb = false
      rw [hecx, dec_sign hn]
    refine .op (hat 3 (by decide)) rfl (.op (hat 4 (by decide)) rfl ?_)
    obtain ⟨s₁, hs₁⟩ : ∃ s₁, Instr.exec s (.dec .ecx) = s₁ := ⟨_, rfl⟩
    have hsame : s₁.df = false ∧ s₁.mem = s.mem ∧ s₁.esi = s.esi ∧ s₁.edi = s.edi ∧ s₁.ecx = BitVec.ofNat 32 n := by
      rw [← hs₁, ← ofNat_dec, ← hecx]
      exact ⟨hdf, rfl, rfl, rfl, rfl⟩
    rw [hs₁]
    rcases hsame with ⟨hdf₁, hmem, hesi, hedi, hecx₁⟩
    rw [← hmem, ← hesi] at hstr
    rw [← hesi, ← hedi] at hapart
    rw [← hmem, ← hedi] at hcut hend
    cases l with
    | nil =>
      have hc := str_nil.mp hstr
      refine .pass (hat 5 (by decide)) ?_ (hend (Nat.succ_pos n) (copyChar s₁) hdf₁ (copyChar_mem hc)
        (copyChar_edi hdf₁) (copyChar_al hc) hecx₁)
      exact State.holds_ne_false (copyChar_zf hc) rfl
    | cons c l =>
      rcases str_cons.mp hstr with ⟨hc, hne, -⟩
      rcases copyChar_str hdf₁ hstr hapart with ⟨hstr', hapart'⟩
      refine .jump (hat 5 (by decide)) ?_ (ih (s := copyChar s₁) hdf₁ hstr' hapart' (Nat.le_of_succ_le hn) hecx₁ ?_ ?_)
      · exact State.holds_ne_true (copyChar_zf hc) hne
      · intro hle s' hdf' hput hedi'
        rw [copyChar_mem hc, copyChar_edi hdf₁] at hput
        rw [copyChar_edi hdf₁, ← add_ofNat_succ] at hedi'
        exact hcut (Nat.succ_le_succ hle) s' hdf' hput hedi'
      · intro hlt s' hdf' hput hedi' hal hecx'
        rw [copyChar_mem hc, copyChar_edi hdf₁] at hput
        rw [copyChar_edi hdf₁, ← add_ofNat_succ] at hedi'
        refine hend (Nat.succ_lt_succ hlt) s' hdf' hput hedi' hal (hecx'.trans ?_)
        rw [List.length_cons, Nat.add_sub_add_right]

/-- How many characters a count allows: none, if it is negative. For the loop the smallest `int`
is not negative, because its `dec` overflows. -/
def limit (count : BitVec 32) : Nat := if count.toNat ≤ 2 ^ 31 then count.toNat else 0

/-- A negative count ends the loop. -/
theorem dec_negative {count : BitVec 32} (h : ¬ count.toNat ≤ 2 ^ 31) : (count - 1).msb = true := by
  rw [BitVec.msb_eq_decide, decide_eq_true_iff]
  bv_omega

theorem pad_eq (h : l.length < n) :
    l ++ [0] ++ List.replicate (n - (l.length + 1)) 0 = l.take n ++ List.replicate (n - l.length) (0 : BitVec 8) := by
  obtain ⟨m, hm⟩ : ∃ m, n - l.length = m + 1 := Nat.exists_eq_add_one.mpr (Nat.sub_pos_of_lt h)
  rw [List.take_of_length_le (Nat.le_of_lt h), Nat.sub_add_eq, hm, Nat.add_sub_cancel, List.append_assoc,
    List.replicate_succ, List.singleton_append]

/-- `strncpy` stores exactly `count` bytes: the characters, and zeros behind them. -/
theorem strncpy_fills (s : State) (dest src count : BitVec 32) (l : List (BitVec 8)) (hstr : Str s.mem src l)
    (hapart : Apart src dest l.length) : (strncpy dest src count).Ends s fun s' =>
      s'.mem = put s.mem dest (l.take (limit count) ++ List.replicate (limit count - l.length) 0) := by
  refine .op rfl rfl ?_
  by_cases hcount : count.toNat ≤ 2 ^ 31
  · rw [limit, if_pos hcount]
    have hlen := hstr.length_lt
    refine bounded_loop (n := count.toNat) rfl rfl hstr hapart hcount ?_ ?_ ?_
    · exact (BitVec.ofNat_toNat 32 count).trans (BitVec.setWidth_eq count) |>.symm
    · intro hle s' _ hmem _
      refine .halt rfl (hmem.trans ?_)
      rw [Nat.sub_eq_zero_of_le hle, List.replicate_zero, List.append_nil]
      rfl
    · intro hlt s' hdf hmem hedi hal hecx
      refine .op rfl rfl (.halt rfl ?_)
      have hfill : (Instr.exec s' .repStosb).mem = put s'.mem s'.edi (List.replicate s'.ecx.toNat s'.al) :=
        State.fill hdf s'.ecx.toNat
      rw [hfill, hecx, hal, hmem, hedi, BitVec.toNat_ofNat, Nat.mod_eq_of_lt (by omega), ← pad_eq hlt,
        put_append (l := l ++ [0]), List.length_append]
      rfl
  · rw [limit, if_neg hcount]
    refine .op rfl rfl (.jump rfl (dec_negative hcount) (.halt rfl ?_))
    rw [List.take_zero, Nat.zero_sub]
    rfl

theorem strncpy_fills_three : (strncpy 0x2000 0x1000 3).Ends (sample [97] []) fun s' =>
    s'.mem = put (sample [97] []).mem 0x2000 ([97].take (limit 3) ++ List.replicate (limit 3 - 1) 0) :=
  strncpy_fills (sample [97] []) 0x2000 0x1000 3 [97] (by decide) (by decide)

/-- `strncat` appends at most `count` characters and a zero. When it has come to the end of the
source it stores a second zero, behind the string. -/
theorem strncat_appends (s : State) (dest src count : BitVec 32) (d l : List (BitVec 8)) (hdest : Str s.mem dest d)
    (hstr : Str s.mem src l) (hd : d.length + 1 < 2 ^ 32) (hapart : Apart src (dest + BitVec.ofNat 32 d.length) l.length) :
    (strncat dest src count).Ends s fun s' => s'.mem = put s.mem dest
      (d ++ l.take (limit count) ++ [0] ++ if l.length < limit count then [0] else []) := by
  refine .op rfl rfl (find_end rfl rfl rfl rfl hdest hd fun s₁ hdf hesi hmem hedi => .op rfl rfl ?_)
  have hesi : s₁.esi = src := hesi
  have hmem : s₁.mem = s.mem := hmem
  have hedi : s₁.edi = dest + BitVec.ofNat 32 d.length := hedi
  have hlast : ∀ s' b, s'.mem = put s.mem dest b → s'.edi = dest + BitVec.ofNat 32 b.length →
      StringOps.Ends (strncat dest src count).code 10 s' fun s' => s'.mem = put s.mem dest (b ++ [0]) := by
    intro s' b hput hend
    refine .op rfl rfl (.op rfl rfl (.halt rfl ?_))
    have hzero : (Instr.exec s' (.xor .eax)).al = 0 := by
      show State.al { s' with eax := s'.eax ^^^ s'.eax } = 0
      rw [BitVec.xor_self]
      rfl
    show Function.update s'.mem s'.edi (Instr.exec s' (.xor .eax)).al = _
    rw [hput, hend, hzero, put_append (l := b)]
    rfl
  by_cases hcount : count.toNat ≤ 2 ^ 31
  · rw [limit, if_pos hcount]
    refine bounded_loop (n := count.toNat) rfl hdf (hmem ▸ hesi ▸ hstr) (hesi ▸ hedi ▸ hapart) hcount ?_ ?_ ?_
    · exact (BitVec.ofNat_toNat 32 count).trans (BitVec.setWidth_eq count) |>.symm
    · intro hle s' _ hput hend
      have hput : s'.mem = put s₁.mem s₁.edi (l.take count.toNat) := hput
      have hend : s'.edi = s₁.edi + BitVec.ofNat 32 count.toNat := hend
      rw [hmem, hedi, hdest.put_behind] at hput
      rw [hedi, BitVec.add_assoc, ← BitVec.ofNat_add] at hend
      rw [if_neg (Nat.not_lt.mpr hle), List.append_nil]
      refine hlast s' _ hput ?_
      rw [hend, List.length_append, List.length_take_of_le hle]
    · intro hlt s' _ hput hend _ _
      have hput : s'.mem = put s₁.mem s₁.edi (l ++ [0]) := hput
      have hend : s'.edi = s₁.edi + BitVec.ofNat 32 (l.length + 1) := hend
      rw [hmem, hedi, hdest.put_behind, ← List.append_assoc] at hput
      rw [hedi, BitVec.add_assoc, ← BitVec.ofNat_add] at hend
      rw [if_pos hlt, List.take_of_length_le (Nat.le_of_lt hlt)]
      refine hlast s' _ hput ?_
      rw [hend, List.length_append, List.length_append, List.length_singleton, Nat.add_assoc]
  · rw [limit, if_neg hcount]
    refine .op rfl rfl (.jump rfl (dec_negative hcount) ?_)
    rw [List.take_zero, List.append_nil, if_neg (Nat.not_lt_zero _), List.append_nil]
    refine hlast _ d (hmem.trans ?_) hedi
    exact (block_append.mp hdest.1).1.put_eq.symm

theorem strncat_appends_two : (strncat 0x1000 0x2000 2).Ends (sample [97] [98]) fun s' => s'.mem =
    put (sample [97] [98]).mem 0x1000 ([97] ++ [98].take (limit 2) ++ [0] ++ if 1 < limit 2 then [0] else []) :=
  strncat_appends (sample [97] [98]) 0x1000 0x2000 2 [97] [98] (by decide) (by decide) (by decide) (by decide)

/-! ## `memcpy`, `memmove` and `memset` -/

theorem toNat_ofNat_length {l : List (BitVec 8)} {n : BitVec 32} (hl : l.length = n.toNat) :
    BitVec.ofNat 32 l.length = n := by
  rw [hl]
  exact (BitVec.ofNat_toNat 32 n).trans (BitVec.setWidth_eq n)

theorem memcpy_copies (s : State) (dest src n : BitVec 32) (l : List (BitVec 8)) (hsrc : Block s.mem src l)
    (hl : l.length = n.toNat) (hapart : Apart src dest (l.length - 1)) :
    (memcpy dest src n).Ends s fun s' => s'.mem = put s.mem dest l := by
  refine .op rfl rfl (.op rfl rfl (.halt rfl ?_))
  have hcopy := State.copy_up (s := { (memcpy dest src n).load s with df := false }) rfl hsrc hapart
    (by rw [hl]; exact n.isLt)
  rw [hl] at hcopy
  exact hcopy

/-- `memmove` copies whether the two overlap or not. It leaves the direction flag set when it has
copied downwards. -/
theorem memmove_copies (s : State) (dest src n : BitVec 32) (l : List (BitVec 8)) (hsrc : Block s.mem src l)
    (hl : l.length = n.toNat) (hsrcEnd : src.toNat + n.toNat ≤ 2 ^ 32) (hdestEnd : dest.toNat + n.toNat ≤ 2 ^ 32) :
    (memmove dest src n).Ends s fun s' => s'.mem = put s.mem dest l ∧ s'.df = decide (src ≤ dest) := by
  have hlt : l.length < 2 ^ 32 := by rw [hl]; exact n.isLt
  have hdf : ∀ (s : State) (k : Nat), (s.rep State.movsb k).df = s.df := fun s k =>
    State.rep_keeps State.movsb State.df (fun _ => rfl) (fun _ _ => rfl) k s
  unfold memmove
  by_cases hup : dest < src
  · rw [if_pos hup]
    have hapart : Apart src dest (l.length - 1) := Or.inr (by bv_omega)
    refine .op rfl rfl (.op rfl rfl (.halt rfl ⟨?_, ?_⟩))
    · have hcopy := State.copy_up (s := { s with ecx := n, esi := src, edi := dest, df := false }) rfl hsrc hapart hlt
      rw [hl] at hcopy
      exact hcopy
    · exact (hdf _ _).trans (decide_eq_false (by bv_omega)).symm
  · rw [if_neg hup]
    have hapart : Apart dest src (l.length - 1) := by
      by_cases heq : src = dest
      · exact Or.inl heq
      · exact Or.inr (by bv_omega)
    refine .op rfl rfl (.op rfl rfl (.halt rfl ⟨?_, ?_⟩))
    · have hcopy := State.copy_down (s := { s with ecx := n, esi := src + n - 1, edi := dest + n - 1, df := true }) rfl hsrc
        (by rw [toNat_ofNat_length hl]) (by rw [toNat_ofNat_length hl]) hapart hlt
      rw [hl] at hcopy
      exact hcopy
    · exact (hdf _ _).trans (decide_eq_true (by bv_omega)).symm

theorem memmove_copies_down : (memmove 0x1001 0x1000 2).Ends (sample [97, 98] []) fun s' =>
    s'.mem = put (sample [97, 98] []).mem 0x1001 [97, 98] ∧ s'.df = decide ((0x1000 : BitVec 32) ≤ 0x1001) :=
  memmove_copies (sample [97, 98] []) 0x1001 0x1000 2 [97, 98] (by decide) rfl (by decide) (by decide)

theorem memset_fills (s : State) (p : BitVec 32) (c : BitVec 8) (count : BitVec 32) :
    (memset p c count).Ends s fun s' => s'.mem = put s.mem p (List.replicate count.toNat c) := by
  refine .op rfl rfl (.op rfl rfl (.halt rfl ?_))
  have hfill := State.fill (s := { (memset p c count).load s with df := false }) rfl count.toNat
  have hal : State.al { (memset p c count).load s with df := false } = c := State.al_setAl s c
  rw [hal] at hfill
  exact hfill

end MockOs.StringH
