import Mathlib.Data.List.Lex
import MockOs.Include.Proofs.Copy

/-!
# Comparing strings and memory

The characters are compared as signed bytes, and the zero at the end of a string as one of them:
a string with a character from 0x80 on is less than its own beginning.
-/

namespace MockOs.StringH

open StringOps CString

/-- The sign of a comparison. -/
structure Sign (v : BitVec 32) (l r : List Int) : Prop where
  equal : v = 0 ↔ l = r
  greater : v = 1 ↔ r < l
  less : v = -1 ↔ l < r

/-- A string as it is compared. -/
def key (l : List (BitVec 8)) : List Int := l.map BitVec.toInt

theorem Sign.refl (l : List Int) : Sign 0 l l where
  equal := by simp
  greater := by simp
  less := by simp

theorem Sign.cons {v : BitVec 32} {l r : List Int} (h : Sign v l r) (a : Int) : Sign v (a :: l) (a :: r) where
  equal := by rw [List.cons_inj_right, h.equal]
  greater := by rw [List.cons_lt_cons_self, h.greater]
  less := by rw [List.cons_lt_cons_self, h.less]

theorem Sign.append {v : BitVec 32} {l r : List Int} (h : Sign v l r) (p : List Int) : Sign v (p ++ l) (p ++ r) := by
  induction p with
  | nil => exact h
  | cons a p ih => exact ih.cons a

/-- The result of two characters that differ. -/
theorem Sign.differ {a b : BitVec 8} (l r : List (BitVec 8)) (hab : a ≠ b) :
    Sign (if b.slt a then 1 else -1) (key (a :: l)) (key (b :: r)) := by
  have hint : a.toInt ≠ b.toInt := fun heq => hab (BitVec.eq_of_toInt_eq heq)
  by_cases hlt : b.toInt < a.toInt
  · have hnot : ¬ a.toInt < b.toInt := by omega
    rw [BitVec.slt, decide_eq_true hlt, if_pos rfl]
    refine ⟨?_, ?_, ?_⟩ <;> simp [key, List.cons_lt_cons_iff, hint, hlt, hnot]
  · have hlt' : a.toInt < b.toInt := by omega
    rw [BitVec.slt, decide_eq_false hlt, if_neg Bool.false_ne_true]
    refine ⟨?_, ?_, ?_⟩ <;> simp [key, List.cons_lt_cons_iff, hint, hint.symm, hlt, hlt']

section Lines

variable {s : State} {a b : BitVec 8} {code : List Instr} {d e j k : Nat} {Q : State → Prop}

/-- `lodsb` and `scasb`. -/
def compareChar (s : State) : State := Instr.exec (Instr.exec s .lodsb) .scasb

theorem compareChar_holds (ha : s.mem s.edi = a) (hb : s.mem s.esi = b) :
    (compareChar s).zf = decide (b = a) ∧ (compareChar s).holds .l = b.slt a := by
  have hal : s.lodsb.al = b := (State.al_setAl s (s.mem s.esi)).trans hb
  have hcmp : ∀ c, (compareChar s).holds c = (s.lodsb.cmp s.lodsb.al (s.mem s.edi)).holds c := fun c => by cases c <;> rfl
  refine ⟨(hcmp .e).trans ?_, (hcmp .l).trans ?_⟩
  · rw [hal, ha]
    exact State.cmp_zf _ _ _
  · rw [hal, ha]
    exact State.cmp_l _ _ _

/-- The lines from `lodsb` to the jump back, at `k`. -/
theorem compare_lines (hcode : (code.drop k).take 5 = [.lodsb, .scasb, .jcc .ne d, .testAl, .jcc .ne j])
    (hdf : s.df = false) (ha : s.mem s.edi = a) (hb : s.mem s.esi = b)
    (hdiffer : a ≠ b → ∀ s', s'.mem = s.mem → s'.holds .l = b.slt a → StringOps.Ends code d s' Q)
    (hend : a = b → a = 0 → ∀ s', s'.mem = s.mem → StringOps.Ends code (k + 5) s' Q)
    (hmore : a = b → a ≠ 0 → ∀ s', s'.df = false → s'.mem = s.mem → s'.esi = s.esi + 1 → s'.edi = s.edi + 1 →
      s'.ecx = s.ecx → StringOps.Ends code j s' Q) : StringOps.Ends code k s Q := by
  rcases compareChar_holds ha hb with ⟨hzf, hl⟩
  refine .op (line hcode (i := 0) (by decide)) rfl (.op (line hcode (i := 1) (by decide)) rfl ?_)
  by_cases hab : a = b
  · refine .pass (line hcode (i := 2) (by decide)) ?_ (.op (line hcode (i := 3) (by decide)) rfl ?_)
    · exact State.holds_ne_false hzf hab.symm
    have hal : (compareChar s).al = a := ((State.al_setAl s (s.mem s.esi)).trans hb).trans hab.symm
    have htest : (Instr.exec (compareChar s) .testAl).zf = decide (a = 0) := by
      rw [State.testAl_zf, hal]
    by_cases hzero : a = 0
    · refine .pass (line hcode (i := 4) (by decide)) ?_ (hend hab hzero _ rfl)
      exact State.holds_ne_false htest hzero
    · refine .jump (line hcode (i := 4) (by decide)) ?_ (hmore hab hzero _ hdf rfl ?_ ?_ rfl)
      · exact State.holds_ne_true htest hzero
      · exact copyChar_esi hdf
      · exact copyChar_edi hdf
  · refine .jump (line hcode (i := 2) (by decide)) ?_ (hdiffer hab _ rfl hl)
    exact State.holds_ne_true hzf (Ne.symm hab)

/-- The lines that make a result of the flags. -/
theorem differ_lines (hcode : (code.drop d).take 3 = [.movImm .eax 1, .jcc .l e, .neg .eax]) (he : e = d + 3)
    (hstop : code[e]? = none) (hQ : ∀ s', s'.mem = s.mem → s'.eax = (if s.holds .l then 1 else -1) → Q s') :
    StringOps.Ends code d s Q := by
  refine .op (line hcode (i := 0) (by decide)) rfl ?_
  by_cases hl : s.holds .l
  · rw [if_pos hl] at hQ
    exact .jump (line hcode (i := 1) (by decide)) hl (.halt hstop (hQ _ rfl rfl))
  · rw [if_neg hl] at hQ
    refine .pass (line hcode (i := 1) (by decide)) (Bool.eq_false_iff.mpr hl) ?_
    refine .op (line hcode (i := 2) (by decide)) rfl (.halt ?_ (hQ _ rfl rfl))
    rw [← he]
    exact hstop

/-- The lines behind equal strings. -/
theorem equal_lines (hcode : (code.drop k).take 2 = [.xor .eax, .jmp e]) (hstop : code[e]? = none)
    (hQ : ∀ s', s'.mem = s.mem → s'.eax = 0 → Q s') : StringOps.Ends code k s Q := by
  refine .op (line hcode (i := 0) (by decide)) rfl (.instr (line hcode (i := 1) (by decide)) (.halt hstop (hQ _ rfl ?_)))
  exact BitVec.xor_self

end Lines

/-- `strcmp` tells which of two strings is less. -/
theorem strcmp_order (s : State) (cs ct : BitVec 32) (l r : List (BitVec 8)) (hcs : Str s.mem cs l) (hct : Str s.mem ct r) :
    (strcmp cs ct).Ends s fun s' => s'.mem = s.mem ∧ Sign s'.eax (key (l ++ [0])) (key (r ++ [0])) := by
  have hloop : ∀ (n : Nat) (l r : List (BitVec 8)) (s : State), l.length < n → s.df = false → Str s.mem s.edi l →
      Str s.mem s.esi r → StringOps.Ends (strcmp cs ct).code 1 s fun s' =>
        s'.mem = s.mem ∧ Sign s'.eax (key (l ++ [0])) (key (r ++ [0])) := by
    intro n
    induction n with
    | zero => exact fun l r s hn => absurd hn (Nat.not_lt_zero _)
    | succ n ih =>
      intro l r s hn hdf hcs hct
      rcases hcs.head with ⟨l', hl, hlzero, hlmore⟩
      rcases hct.head with ⟨r', hr, hrzero, hrmore⟩
      rw [hl, hr]
      refine compare_lines rfl hdf rfl rfl (fun hab s₁ hmem hjl => ?_) (fun hab hzero s₁ hmem => ?_)
        fun hab hne s₁ hdf₁ hmem hesi hedi _ => ?_
      · refine differ_lines rfl rfl rfl fun s' hmem' heax => ⟨hmem'.trans hmem, ?_⟩
        rw [heax, hjl]
        exact Sign.differ _ _ hab
      · refine equal_lines rfl rfl fun s' hmem' heax => ⟨hmem'.trans hmem, ?_⟩
        rw [heax, hlzero hzero, hrzero (hab ▸ hzero), hab]
        exact Sign.refl _
      · rcases hlmore hne with ⟨t, rfl, rfl, ht⟩
        rcases hrmore (hab ▸ hne) with ⟨u, rfl, rfl, hu⟩
        rw [← hmem, ← hedi] at ht
        rw [← hmem, ← hesi] at hu
        refine (ih t u s₁ (Nat.lt_of_succ_lt_succ hn) hdf₁ ht hu).mono fun s' h' => ⟨h'.1.trans hmem, ?_⟩
        rw [hab]
        exact h'.2.cons _
  exact .op rfl rfl (hloop _ l r _ (Nat.lt_succ_self _) rfl hcs hct)

/-- A string is more than its continuation by a byte from 0x80 on. -/
theorem strcmp_order_signed : (strcmp 0x1000 0x2000).Ends (sample [97, 98] [97, 98, 0xe9]) fun s' =>
    s'.mem = (sample [97, 98] [97, 98, 0xe9]).mem ∧ s'.eax = 1 :=
  (strcmp_order (sample [97, 98] [97, 98, 0xe9]) 0x1000 0x2000 [97, 98] [97, 98, 0xe9] (by decide) (by decide)).mono
    fun _ h => ⟨h.1, h.2.greater.mpr (by decide)⟩

/-- `strncmp` does so for the first `count` bytes. -/
theorem strncmp_order (s : State) (cs ct count : BitVec 32) (l r : List (BitVec 8)) (hcs : Str s.mem cs l)
    (hct : Str s.mem ct r) : (strncmp cs ct count).Ends s fun s' =>
      s'.mem = s.mem ∧ Sign s'.eax (key ((l ++ [0]).take (limit count))) (key ((r ++ [0]).take (limit count))) := by
  have hnone : ∀ s, s.df = false → (s.ecx - 1).msb = true → StringOps.Ends (strncmp cs ct count).code 1 s fun s' =>
      s'.mem = s.mem ∧ s'.eax = 0 := by
    intro s hdf hjs
    exact .op rfl rfl (.jump rfl hjs (equal_lines rfl rfl fun s' hmem heax => ⟨hmem, heax⟩))
  have hloop : ∀ (n : Nat) (l r : List (BitVec 8)) (s : State), n ≤ 2 ^ 31 → s.df = false → s.ecx = BitVec.ofNat 32 n →
      Str s.mem s.edi l → Str s.mem s.esi r → StringOps.Ends (strncmp cs ct count).code 1 s fun s' =>
        s'.mem = s.mem ∧ Sign s'.eax (key ((l ++ [0]).take n)) (key ((r ++ [0]).take n)) := by
    intro n
    induction n with
    | zero =>
      intro l r s _ hdf hecx _ _
      refine (hnone s hdf (by rw [hecx]; decide)).mono fun s' h' => ⟨h'.1, ?_⟩
      rw [h'.2]
      exact Sign.refl _
    | succ n ih =>
      intro l r s hn hdf hecx hcs hct
      rcases hcs.head with ⟨l', hl, hlzero, hlmore⟩
      rcases hct.head with ⟨r', hr, hrzero, hrmore⟩
      rw [hl, hr, List.take_succ_cons, List.take_succ_cons]
      refine .op rfl rfl (.pass rfl ?_ (compare_lines rfl hdf rfl rfl (fun hab s₁ hmem hjl => ?_)
        (fun hab hzero s₁ hmem => ?_) fun hab hne s₁ hdf₁ hmem hesi hedi hecx₁ => ?_))
      · show (s.ecx - 1).msb = false
        rw [hecx, dec_sign hn]
      · refine differ_lines rfl rfl rfl fun s' hmem' heax => ⟨hmem'.trans hmem, ?_⟩
        rw [heax, hjl]
        exact Sign.differ _ _ hab
      · refine equal_lines rfl rfl fun s' hmem' heax => ⟨hmem'.trans hmem, ?_⟩
        have hab : s.mem s.edi = s.mem s.esi := hab
        rw [heax, hlzero hzero, hrzero (hab ▸ hzero), hab]
        exact Sign.refl _
      · have hab : s.mem s.edi = s.mem s.esi := hab
        rcases hlmore hne with ⟨t, rfl, rfl, ht⟩
        rcases hrmore (hab ▸ hne) with ⟨u, rfl, rfl, hu⟩
        have hmem : s₁.mem = s.mem := hmem
        have hesi : s₁.esi = s.esi + 1 := hesi
        have hedi : s₁.edi = s.edi + 1 := hedi
        rw [← hmem, ← hedi] at ht
        rw [← hmem, ← hesi] at hu
        have hcount : s₁.ecx = BitVec.ofNat 32 n := by
          rw [← ofNat_dec, ← hecx]
          exact hecx₁
        refine (ih t u s₁ (Nat.le_of_succ_le hn) hdf₁ hcount ht hu).mono fun s' h' => ⟨h'.1.trans hmem, ?_⟩
        rw [hab]
        exact h'.2.cons _
  refine .op rfl rfl ?_
  by_cases hcount : count.toNat ≤ 2 ^ 31
  · rw [limit, if_pos hcount]
    refine hloop _ l r _ hcount rfl ?_ hcs hct
    exact (BitVec.ofNat_toNat 32 count).trans (BitVec.setWidth_eq count) |>.symm
  · rw [limit, if_neg hcount]
    refine (hnone _ rfl (dec_negative hcount)).mono fun s' h' => ⟨h'.1, ?_⟩
    rw [h'.2]
    exact Sign.refl _

/-- The third byte decides, and what follows is not compared. -/
theorem strncmp_order_signed : (strncmp 0x1000 0x2000 3).Ends (sample [97, 98, 99] [97, 98, 0xe9, 120]) fun s' =>
    s'.mem = (sample [97, 98, 99] [97, 98, 0xe9, 120]).mem ∧ s'.eax = 1 :=
  (strncmp_order (sample [97, 98, 99] [97, 98, 0xe9, 120]) 0x1000 0x2000 3 [97, 98, 99] [97, 98, 0xe9, 120]
    (by decide) (by decide)).mono fun _ h => ⟨h.1, h.2.greater.mpr (by decide)⟩

/-- `memcmp` compares the bytes of two blocks. Without any, its result is what the flags were. -/
theorem memcmp_order (s : State) (cs ct count : BitVec 32) (l r : List (BitVec 8)) (hcs : Block s.mem cs l)
    (hct : Block s.mem ct r) (hl : l.length = count.toNat) (hr : r.length = count.toNat) :
    (memcmp cs ct count).Ends s fun s' => s'.mem = s.mem ∧ (count ≠ 0 → Sign s'.eax (key l) (key r)) ∧
      (count = 0 → s'.eax = if s.zf then 0 else if s.sf != s.of then 1 else -1) := by
  obtain ⟨s₁, hs₁⟩ : ∃ s₁ : State, { (memcmp cs ct count).load s with df := false } = s₁ := ⟨_, rfl⟩
  have hload : s₁.df = false ∧ s₁.mem = s.mem ∧ s₁.edi = cs ∧ s₁.esi = ct ∧ s₁.ecx = count ∧ s₁.eax = 0 := by
    rw [← hs₁]
    exact ⟨rfl, rfl, rfl, rfl, rfl, rfl⟩
  rcases hload with ⟨hdf, hmem, hedi, hesi, hecx, heax⟩
  obtain ⟨s₂, hs₂⟩ : ∃ s₂, s₁.repWhile State.cmpsb true count.toNat = s₂ := ⟨_, rfl⟩
  have hkept : s₂.mem = s.mem ∧ s₂.eax = 0 := by
    rw [← hs₂, State.compare_mem, State.compare_eax]
    exact ⟨hmem, heax⟩
  refine .op rfl rfl (.op rfl rfl ?_)
  have hexec : Instr.exec (Instr.exec ((memcmp cs ct count).load s) .cld) .repeCmpsb = s₂ := by
    rw [← hs₂, ← hs₁]
    rfl
  rw [hexec]
  have hcases : (s₂.zf = true → StringOps.Ends (memcmp cs ct count).code 2 s₂ fun s' => s'.mem = s.mem ∧ s'.eax = 0) ∧
      (s₂.zf = false → StringOps.Ends (memcmp cs ct count).code 2 s₂ fun s' =>
        s'.mem = s.mem ∧ s'.eax = if s₂.holds .l then 1 else -1) := by
    refine ⟨fun hzf => .jump rfl hzf (.halt rfl hkept), fun hzf => .pass rfl hzf ?_⟩
    exact differ_lines rfl rfl rfl fun s' hmem' heax' => ⟨hmem'.trans hkept.1, heax'⟩
  by_cases hzero : count = 0
  · have hnone : s₂.zf = s.zf ∧ s₂.holds .l = (s.sf != s.of) := by
      rw [← hs₂, ← hs₁, hzero]
      exact ⟨rfl, rfl⟩
    rw [← hnone.1, ← hnone.2]
    cases hzf : s₂.zf with
    | true => exact (hcases.1 hzf).mono fun s' h' => ⟨h'.1, fun hne => absurd hzero hne, fun _ => h'.2⟩
    | false => exact (hcases.2 hzf).mono fun s' h' => ⟨h'.1, fun hne => absurd hzero hne, fun _ => h'.2⟩
  · rw [← hmem, ← hedi] at hcs
    rw [← hmem, ← hesi] at hct
    by_cases heq : l = r
    · subst heq
      have hne : l ≠ [] := by
        rintro rfl
        exact hzero (BitVec.eq_of_toNat_eq hl.symm)
      have hzf : s₂.zf = true := by
        rw [← hs₂, ← hl]
        exact State.compare_equal hdf hct hcs hne
      refine (hcases.1 hzf).mono fun s' h' => ⟨h'.1, fun _ => ?_, fun heq => absurd heq hzero⟩
      rw [h'.2]
      exact Sign.refl _
    · rcases exists_differ (hl.trans hr.symm) heq with ⟨p, a, b, t, u, rfl, rfl, hab⟩
      rw [List.append_cons, block_append] at hcs hct
      have hdiffer := State.compare_differ (n := count.toNat) hdf hct.1 hcs.1 hab.symm (by
        rw [← hl, List.length_append, List.length_cons]
        omega)
      rw [hs₂] at hdiffer
      refine (hcases.2 hdiffer.1).mono fun s' h' => ⟨h'.1, fun _ => ?_, fun heq => absurd heq hzero⟩
      rw [h'.2, hdiffer.2.1, key, key, List.map_append, List.map_append]
      exact (Sign.differ t u hab).append _

/-- A zero does not end the comparison, and 0xe9 is less than 98. -/
theorem memcmp_order_signed : (memcmp 0x1000 0x2000 3).Ends (sample [97, 0, 0xe9] [97, 0, 98]) fun s' =>
    s'.mem = (sample [97, 0, 0xe9] [97, 0, 98]).mem ∧ s'.eax = -1 :=
  (memcmp_order (sample [97, 0, 0xe9] [97, 0, 98]) 0x1000 0x2000 3 [97, 0, 0xe9] [97, 0, 98] (by decide) (by decide)
    rfl rfl).mono fun _ h => ⟨h.1, (h.2.1 (by decide)).less.mpr (by decide)⟩

end MockOs.StringH
