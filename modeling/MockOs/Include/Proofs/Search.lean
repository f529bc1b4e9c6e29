import Mathlib.Data.List.TakeWhile
import MockOs.Include.Proofs.Copy

/-!
# Looking for characters and strings
-/

namespace MockOs.StringH

open StringOps CString

variable {s : State} {l chars : List (BitVec 8)} {a : BitVec 8} {ct : BitVec 32} {code : List Instr} {e k : Nat} {c : Cond}
  {Q : State → Prop}

/-! ## Lines that several functions share -/

/-- What a stretch of code keeps. -/
structure Kept (s s' : State) : Prop where
  df : s'.df = false
  mem : s'.mem = s.mem
  ebx : s'.ebx = s.ebx
  edx : s'.edx = s.edx

theorem Kept.trans {s₁ s₂ s₃ : State} (h : Kept s₁ s₂) (h' : Kept s₂ s₃) : Kept s₁ s₃ :=
  ⟨h'.df, h'.mem.trans h.mem, h'.ebx.trans h.ebx, h'.edx.trans h.edx⟩

/-- The length of a string. -/
theorem count_lines (hcode : (code.drop k).take 3 = [.repneScasb, .not .ecx, .dec .ecx]) (hdf : s.df = false)
    (hal : s.al = 0) (hecx : s.ecx = 0xffffffff) (hstr : Str s.mem s.edi l) (hl : l.length + 1 < 2 ^ 32)
    (hnext : ∀ s', Kept s s' → s'.esi = s.esi → s'.ecx = BitVec.ofNat 32 l.length → s'.zf = decide (l = []) →
      StringOps.Ends code (k + 3) s' Q) : StringOps.Ends code k s Q := by
  have hfound := State.scan_found (n := s.ecx.toNat) hdf (hal.symm ▸ hstr.1) (hal.symm ▸ hstr.2)
    (by rw [hecx]; exact Nat.lt_sub_of_add_lt hl)
  have hcount : ~~~(s.repWhile State.scasb false s.ecx.toNat).ecx - 1 = BitVec.ofNat 32 l.length := by
    rw [hfound.1, hecx, ← ofNat_dec]
    bv_omega
  refine .op (line hcode (i := 0) (by decide)) rfl (.op (line hcode (i := 1) (by decide)) rfl
    (.op (line hcode (i := 2) (by decide)) rfl (hnext _ ⟨?_, ?_, ?_, ?_⟩ ?_ hcount ?_)))
  · exact State.scan_df.trans hdf
  · exact State.scan_mem
  · exact State.scan_ebx
  · exact State.scan_edx
  · exact State.scan_esi
  · show (~~~(s.repWhile State.scasb false s.ecx.toNat).ecx - 1 == 0) = _
    rw [hcount, Bool.eq_iff_iff, beq_iff_eq, decide_eq_true_iff, ← List.length_eq_zero_iff, ← BitVec.toNat_inj,
      BitVec.toNat_ofNat, Nat.mod_eq_of_lt (Nat.lt_of_succ_lt hl)]
    rfl

/-- Whether AL is one of some characters. -/
theorem member_lines (hcode : (code.drop k).take 3 = [.movImm .edi ct, .mov .ecx .edx, .repneScasb])
    (hdf : s.df = false) (hct : Str s.mem ct chars) (hedx : s.edx = BitVec.ofNat 32 chars.length) (hzf : s.zf = false)
    (hnext : ∀ s', Kept s s' → s'.esi = s.esi → s'.zf = decide (s.al ∈ chars) → StringOps.Ends code (k + 3) s' Q) :
    StringOps.Ends code k s Q := by
  have hlen : s.edx.toNat = chars.length := by
    rw [hedx, BitVec.toNat_ofNat]
    exact Nat.mod_eq_of_lt hct.length_lt
  refine .op (line hcode (i := 0) (by decide)) rfl (.op (line hcode (i := 1) (by decide)) rfl
    (.op (line hcode (i := 2) (by decide)) rfl (hnext _ ⟨?_, ?_, ?_, ?_⟩ ?_ ?_)))
  · exact State.scan_df.trans hdf
  · exact State.scan_mem
  · exact State.scan_ebx
  · exact State.scan_edx
  · exact State.scan_esi
  · show (State.repWhile State.scasb false s.edx.toNat { s with edi := ct, ecx := s.edx }).zf = _
    rw [hlen]
    by_cases hne : chars = []
    · rw [hne]
      exact hzf.trans (decide_eq_false List.not_mem_nil).symm
    · exact State.scan_zf (s := { s with edi := ct, ecx := s.edx }) hdf (block_append.mp hct.1).1 hne

/-- The next character of a string, and whether it is the end. -/
theorem fetch_lines (hcode : (code.drop k).take 3 = [.lodsb, .testAl, .jcc .e e]) (hdf : s.df = false)
    (hend : s.mem s.esi = 0 → ∀ s', Kept s s' → s'.esi = s.esi + 1 → StringOps.Ends code e s' Q)
    (hnext : s.mem s.esi ≠ 0 → ∀ s', Kept s s' → s'.esi = s.esi + 1 → s'.al = s.mem s.esi → s'.zf = false →
      StringOps.Ends code (k + 3) s' Q) : StringOps.Ends code k s Q := by
  obtain ⟨s₁, hs₁⟩ : ∃ s₁, Instr.exec (Instr.exec s .lodsb) .testAl = s₁ := ⟨_, rfl⟩
  have hal : s.lodsb.al = s.mem s.esi := State.al_setAl s _
  have hzf : s₁.zf = decide (s.mem s.esi = 0) := by
    rw [← hs₁, ← hal]
    exact State.testAl_zf s.lodsb
  have hkept : Kept s s₁ := by
    rw [← hs₁]
    exact ⟨hdf, rfl, rfl, rfl⟩
  have hesi : s₁.esi = s.esi + 1 := by
    rw [← hs₁]
    exact copyChar_esi hdf
  refine .op (line hcode (i := 0) (by decide)) rfl (.op (line hcode (i := 1) (by decide)) rfl ?_)
  rw [hs₁]
  by_cases hzero : s.mem s.esi = 0
  · exact .jump (line hcode (i := 2) (by decide)) (hzf.trans (decide_eq_true hzero)) (hend hzero s₁ hkept hesi)
  · have hno := hzf.trans (decide_eq_false hzero)
    refine .pass (line hcode (i := 2) (by decide)) hno (hnext hzero s₁ hkept hesi ?_ hno)
    rw [← hs₁]
    exact hal

/-- A loop over the characters of a string that goes on as long as they are among others, or as
long as they are not. -/
theorem scan_loop (goes : BitVec 8 → Bool)
    (hcode : (code.drop k).take 7 =
      [.lodsb, .testAl, .jcc .e e, .movImm .edi ct, .mov .ecx .edx, .repneScasb, .jcc c k])
    (hgoes : ∀ (s : State) a, s.zf = decide (a ∈ chars) → s.holds c = goes a) (hdf : s.df = false)
    (hstr : Str s.mem s.esi l) (hct : Str s.mem ct chars) (hedx : s.edx = BitVec.ofNat 32 chars.length)
    (hend : (∀ a ∈ l, goes a = true) → ∀ s', Kept s s' → s'.esi = s.esi + BitVec.ofNat 32 (l.length + 1) →
      StringOps.Ends code e s' Q)
    (hstop : ∀ p a t, l = p ++ a :: t → (∀ b ∈ p, goes b = true) → goes a = false → ∀ s', Kept s s' →
      s'.esi = s.esi + BitVec.ofNat 32 (p.length + 1) → StringOps.Ends code (k + 7) s' Q) :
    StringOps.Ends code k s Q := by
  have hfetch : (code.drop k).take 3 = [.lodsb, .testAl, .jcc .e e] := lines (i := 0) hcode (by decide)
  have hmember : (code.drop (k + 3)).take 3 = [.movImm .edi ct, .mov .ecx .edx, .repneScasb] :=
    lines (i := 3) hcode (by decide)
  induction l generalizing s with
  | nil =>
    refine fetch_lines hfetch hdf (fun _ s' hkept hesi => ?_) fun hne => absurd (str_nil.mp hstr) hne
    exact hend (fun a ha => absurd ha List.not_mem_nil) s' hkept hesi
  | cons a l ih =>
    rcases str_cons.mp hstr with ⟨ha, hne, hrest⟩
    refine fetch_lines hfetch hdf (fun hzero => absurd (ha.symm.trans hzero) hne) fun _ s₁ hkept₁ hesi₁ hal hzf => ?_
    refine member_lines hmember hkept₁.df (hkept₁.mem ▸ hct) (hkept₁.edx.trans hedx) hzf fun s₂ hkept₂ hesi₂ hzf₂ => ?_
    rw [hal, ha] at hzf₂
    have hkept := hkept₁.trans hkept₂
    have hesi := hesi₂.trans hesi₁
    cases hga : goes a with
    | true =>
      rw [← hkept.mem, ← hesi] at hrest
      refine .jump (line hcode (i := 6) (by decide)) ((hgoes s₂ a hzf₂).trans hga)
        (ih hkept.df hrest (hkept.mem ▸ hct) (hkept.edx.trans hedx) (fun hall s' hkept' hesi' => ?_)
          fun p b t hl hp hb s' hkept' hesi' => ?_)
      · refine hend (List.forall_mem_cons.mpr ⟨hga, hall⟩) s' (hkept.trans hkept') (hesi'.trans ?_)
        rw [hesi, List.length_cons, add_ofNat_succ s.esi]
      · refine hstop (a :: p) b t (by rw [hl]; rfl) (List.forall_mem_cons.mpr ⟨hga, hp⟩) hb s' (hkept.trans hkept')
          (hesi'.trans ?_)
        rw [hesi, List.length_cons, add_ofNat_succ s.esi]
    | false =>
      refine .pass (line hcode (i := 6) (by decide)) ((hgoes s₂ a hzf₂).trans hga) ?_
      exact hstop [] a l rfl (fun b hb => absurd hb List.not_mem_nil) hga s₂ hkept hesi

/-- The lines in front of these loops. -/
theorem begin_lines (hcode : (code.drop k).take 5 = [.movImm .edi ct, .repneScasb, .not .ecx, .dec .ecx, .mov .edx .ecx])
    (hdf : s.df = false) (hal : s.al = 0) (hecx : s.ecx = 0xffffffff) (hct : Str s.mem ct chars)
    (hchars : chars.length + 1 < 2 ^ 32)
    (hnext : ∀ s', s'.df = false → s'.mem = s.mem → s'.esi = s.esi → s'.edx = BitVec.ofNat 32 chars.length →
      s'.zf = decide (chars = []) → StringOps.Ends code (k + 5) s' Q) : StringOps.Ends code k s Q := by
  refine .op (line hcode (i := 0) (by decide)) rfl ?_
  refine count_lines (lines (i := 1) hcode (by decide)) hdf hal hecx hct hchars fun s' hkept hesi hcount hzf => ?_
  exact .op (line hcode (i := 4) (by decide)) rfl (hnext _ hkept.df hkept.mem hesi hcount hzf)

theorem takeWhile_length_all {goes : BitVec 8 → Bool} (h : ∀ a ∈ l, goes a = true) : (l.takeWhile goes).length = l.length := by
  rw [List.takeWhile_eq_self_iff.mpr h]

theorem takeWhile_length_stop {goes : BitVec 8 → Bool} {p t : List (BitVec 8)} {a : BitVec 8}
    (hp : ∀ b ∈ p, goes b = true) (ha : goes a = false) : ((p ++ a :: t).takeWhile goes).length = p.length := by
  rw [List.takeWhile_append_of_pos hp, List.takeWhile_cons_of_neg (by rw [ha]; decide), List.append_nil]

/-! ## `strspn`, `strcspn` and `strpbrk` -/

theorem span_counts (c : Cond) (goes : BitVec 8 → Bool) (hgoes : ∀ (s : State) a, s.zf = decide (a ∈ chars) → s.holds c = goes a)
    (s : State) (cs ct : BitVec 32) (hcs : Str s.mem cs l) (hct : Str s.mem ct chars) (hchars : chars.length + 1 < 2 ^ 32) :
    (span c cs ct).Ends s fun s' => s'.mem = s.mem ∧ s'.esi - cs = BitVec.ofNat 32 (l.takeWhile goes).length := by
  have hback : ∀ n s', s'.mem = s.mem → s'.esi = cs + BitVec.ofNat 32 (n + 1) →
      StringOps.Ends (span c cs ct).code 13 s' fun s' => s'.mem = s.mem ∧ s'.esi - cs = BitVec.ofNat 32 n := by
    intro n s' hmem hesi
    refine .op rfl rfl (.halt rfl ⟨hmem, ?_⟩)
    show s'.esi - 1 - cs = _
    rw [hesi, add_ofNat_succ_sub, BitVec.add_comm, BitVec.add_sub_cancel]
  refine .op rfl rfl (begin_lines rfl rfl rfl rfl hct hchars fun s₁ hdf hmem hesi hedx _ => ?_)
  have hmem : s₁.mem = s.mem := hmem
  have hesi : s₁.esi = cs := hesi
  refine scan_loop goes rfl hgoes hdf (hmem ▸ hesi ▸ hcs) (hmem ▸ hct) hedx (fun hall s₂ hkept hend => ?_)
    fun p a t hl hp ha s₂ hkept hend => ?_
  · rw [takeWhile_length_all hall]
    exact hback _ s₂ (hkept.mem.trans hmem) (hesi ▸ hend)
  · rw [hl, takeWhile_length_stop hp ha]
    exact hback _ s₂ (hkept.mem.trans hmem) (hesi ▸ hend)

/-- `strspn` and `strcspn` count the characters at the beginning of a string that are among
others, and those that are not. -/
theorem strspn_strcspn (s : State) (cs ct : BitVec 32) (l chars : List (BitVec 8)) (hcs : Str s.mem cs l)
    (hct : Str s.mem ct chars) (hchars : chars.length + 1 < 2 ^ 32) :
    ((strspn cs ct).Ends s fun s' =>
      s'.mem = s.mem ∧ s'.esi - cs = BitVec.ofNat 32 (l.takeWhile fun a => decide (a ∈ chars)).length) ∧
    (strcspn cs ct).Ends s fun s' =>
      s'.mem = s.mem ∧ s'.esi - cs = BitVec.ofNat 32 (l.takeWhile fun a => !decide (a ∈ chars)).length :=
  ⟨span_counts .e (fun a => decide (a ∈ chars)) (fun _ _ hzf => hzf) s cs ct hcs hct hchars,
    span_counts .ne (fun a => !decide (a ∈ chars)) (fun _ _ hzf => congrArg (! ·) hzf) s cs ct hcs hct hchars⟩

theorem strspn_strcspn_ab :
    ((strspn 0x1000 0x2000).Ends (sample [97, 98] [97]) fun s' =>
      s'.mem = (sample [97, 98] [97]).mem ∧ s'.esi - 0x1000 = 1) ∧
    (strcspn 0x1000 0x2000).Ends (sample [97, 98] [97]) fun s' =>
      s'.mem = (sample [97, 98] [97]).mem ∧ s'.esi - 0x1000 = 0 :=
  strspn_strcspn (sample [97, 98] [97]) 0x1000 0x2000 [97, 98] [97] (by decide) (by decide) (by decide)

/-- `strpbrk` finds the first character that is among others. -/
theorem strpbrk_finds (s : State) (cs ct : BitVec 32) (l chars : List (BitVec 8)) (hcs : Str s.mem cs l)
    (hct : Str s.mem ct chars) (hchars : chars.length + 1 < 2 ^ 32) :
    (strpbrk cs ct).Ends s fun s' => s'.mem = s.mem ∧
      ((∀ a ∈ l, a ∉ chars) ∧ s'.esi = 0 ∨
        ∃ p a t, l = p ++ a :: t ∧ (∀ b ∈ p, b ∉ chars) ∧ a ∈ chars ∧ s'.esi = cs + BitVec.ofNat 32 p.length) := by
  refine .op rfl rfl (begin_lines rfl rfl rfl rfl hct hchars fun s₁ hdf hmem hesi hedx _ => ?_)
  have hmem : s₁.mem = s.mem := hmem
  have hesi : s₁.esi = cs := hesi
  refine scan_loop (fun a => !decide (a ∈ chars)) rfl (fun _ _ hzf => congrArg (! ·) hzf) hdf (hmem ▸ hesi ▸ hcs)
    (hmem ▸ hct) hedx (fun hall s₂ hkept hend => ?_) fun p a t hl hp ha s₂ hkept hend => ?_
  · refine .op rfl rfl (.halt rfl ⟨hkept.mem.trans hmem, Or.inl ⟨fun a ha => ?_, BitVec.xor_self⟩⟩)
    simpa using hall a ha
  · refine .op rfl rfl (.instr rfl (.halt rfl ⟨hkept.mem.trans hmem, Or.inr ⟨p, a, t, hl, fun b hb => ?_, ?_, ?_⟩⟩))
    · simpa using hp b hb
    · simpa using ha
    · show s₂.esi - 1 = _
      rw [hend, hesi, add_ofNat_succ_sub]

theorem strpbrk_finds_b : (strpbrk 0x1000 0x2000).Ends (sample [97, 98] [98]) fun s' =>
    s'.mem = (sample [97, 98] [98]).mem ∧ ((∀ a ∈ [(97 : BitVec 8), 98], a ∉ [(98 : BitVec 8)]) ∧ s'.esi = 0 ∨
      ∃ p a t, [97, 98] = p ++ a :: t ∧ (∀ b ∈ p, b ∉ [(98 : BitVec 8)]) ∧ a ∈ [(98 : BitVec 8)] ∧
        s'.esi = 0x1000 + BitVec.ofNat 32 p.length) :=
  strpbrk_finds (sample [97, 98] [98]) 0x1000 0x2000 [97, 98] [98] (by decide) (by decide) (by decide)

/-! ## `strlen` and `strstr` -/

theorem strlen_counts (s : State) (p : BitVec 32) (l : List (BitVec 8)) (hstr : Str s.mem p l) (hl : l.length + 1 < 2 ^ 32) :
    (strlen p).Ends s fun s' => s'.mem = s.mem ∧ s'.ecx = BitVec.ofNat 32 l.length :=
  .op rfl rfl (count_lines rfl rfl rfl rfl hstr hl fun _ hkept _ hcount _ => .halt rfl ⟨hkept.mem, hcount⟩)

/-- Where a string stops to agree with characters that it does not begin with. -/
theorem differ_of_not_prefix (h0 : 0 ∉ chars) (h : ¬ chars <+: l) :
    ∃ p a b t u, l ++ [0] = p ++ a :: t ∧ chars = p ++ b :: u ∧ a ≠ b := by
  induction chars generalizing l with
  | nil => exact absurd List.nil_prefix h
  | cons b chars ih =>
    rw [List.mem_cons, not_or] at h0
    cases l with
    | nil => exact ⟨[], 0, b, [], chars, rfl, rfl, h0.1⟩
    | cons a l =>
      by_cases hab : a = b
      · subst hab
        rw [List.cons_prefix_cons] at h
        rcases ih h0.2 (fun hpre => h ⟨rfl, hpre⟩) with ⟨p, c, d, t, u, hl, rfl, hcd⟩
        exact ⟨a :: p, c, d, t, u, by rw [List.cons_append, hl]; rfl, rfl, hcd⟩
      · exact ⟨[], a, b, l ++ [0], chars, rfl, rfl, hab⟩

/-- The first place where some characters are in a string, or that there is none. -/
def Finds (chars l : List (BitVec 8)) (start found : BitVec 32) : Prop :=
  (∃ p t, l = p ++ chars ++ t ∧ (∀ j < p.length, ¬ chars <+: l.drop j) ∧ found = start + BitVec.ofNat 32 p.length) ∨
    ¬ chars <:+: l ∧ found = 0

theorem Finds.cons {start found : BitVec 32} (h : Finds chars l (start + 1) found) {a : BitVec 8}
    (hnot : ¬ chars <+: a :: l) : Finds chars (a :: l) start found := by
  rcases h with ⟨p, t, rfl, hfirst, rfl⟩ | ⟨hno, rfl⟩
  · refine Or.inl ⟨a :: p, t, rfl, fun j hj => ?_, ?_⟩
    · cases j with
      | zero => exact hnot
      | succ j => exact hfirst j (Nat.lt_of_succ_lt_succ hj)
    · rw [List.length_cons, add_ofNat_succ]
  · refine Or.inr ⟨fun hin => ?_, rfl⟩
    rcases List.infix_cons_iff.mp hin with hpre | hinf
    · exact hnot hpre
    · exact hno hinf

/-- One place of `strstr` at which the characters are. -/
theorem strstr_here (cs : BitVec 32) (hdf : s.df = false) (hcs : Str s.mem s.esi l) (hct : Str s.mem ct chars)
    (hedx : s.edx = BitVec.ofNat 32 chars.length) (hzf : chars = [] → s.zf = true) (hpre : chars <+: l) :
    StringOps.Ends (strstr cs ct).code 6 s fun s' => s'.mem = s.mem ∧ s'.eax = s.esi := by
  obtain ⟨s₁, hs₁⟩ : ∃ s₁ : State, { s with edi := ct, eax := s.esi, ecx := s.edx } = s₁ := ⟨_, rfl⟩
  have hlen : s.edx.toNat = chars.length := by
    rw [hedx, BitVec.toNat_ofNat]
    exact Nat.mod_eq_of_lt hct.length_lt
  have hequal : (s₁.repWhile State.cmpsb true s.edx.toNat).zf = true := by
    rw [hlen, ← hs₁]
    by_cases hnil : chars = []
    · rw [hnil]
      exact hzf hnil
    · obtain ⟨t, rfl⟩ := hpre
      refine State.compare_equal hdf ?_ (block_append.mp hct.1).1 hnil
      exact (block_append.mp (block_append.mp hcs.1).1).1
  refine .op rfl rfl (.op rfl rfl (.op rfl rfl (.op rfl rfl (.jump rfl ?_ (.halt rfl ⟨?_, ?_⟩)))))
  · rw [← hs₁] at hequal
    exact hequal
  · exact State.compare_mem
  · exact State.compare_eax

/-- One place of `strstr` at which other characters are: the search goes on, or it ends where the
string does. -/
theorem strstr_other (cs : BitVec 32) {p t u : List (BitVec 8)} {a b : BitVec 8} (hdf : s.df = false)
    (hcs : Str s.mem s.esi l) (hct : Str s.mem ct chars) (hedx : s.edx = BitVec.ofNat 32 chars.length)
    (hl : l ++ [0] = p ++ a :: t) (hchars : chars = p ++ b :: u) (hab : a ≠ b)
    (hend : a = 0 → ∀ s', s'.mem = s.mem → s'.eax = 0 → Q s')
    (hnext : a ≠ 0 → ∀ s', s'.df = false → s'.mem = s.mem → s'.esi = s.esi + 1 → s'.edx = s.edx →
      StringOps.Ends (strstr cs ct).code 6 s' Q) : StringOps.Ends (strstr cs ct).code 6 s Q := by
  obtain ⟨s₁, hs₁⟩ : ∃ s₁ : State, { s with edi := ct, eax := s.esi, ecx := s.edx } = s₁ := ⟨_, rfl⟩
  have hlen : p.length < s.edx.toNat := by
    rw [hedx, BitVec.toNat_ofNat, Nat.mod_eq_of_lt hct.length_lt, hchars, List.length_append, List.length_cons]
    omega
  have hsrc : Block s.mem s.esi (p ++ [a]) := by
    have hblock := hcs.1
    rw [hl, List.append_cons] at hblock
    exact (block_append.mp hblock).1
  have hdest : Block s.mem ct (p ++ [b]) := by
    have hblock := (block_append.mp hct.1).1
    rw [hchars, List.append_cons] at hblock
    exact (block_append.mp hblock).1
  obtain ⟨s₂, hs₂⟩ : ∃ s₂, s₁.repWhile State.cmpsb true s.edx.toNat = s₂ := ⟨_, rfl⟩
  have hdiffer : s₂.zf = false ∧ s₂.esi = s.esi + BitVec.ofNat 32 (p.length + 1) := by
    have h := State.compare_differ (s := s₁) (by rw [← hs₁]; exact hdf) (by rw [← hs₁]; exact hsrc)
      (by rw [← hs₁]; exact hdest) hab hlen
    rw [hs₂] at h
    refine ⟨h.1, h.2.2.trans ?_⟩
    rw [← hs₁]
  have hkept : s₂.df = false ∧ s₂.mem = s.mem ∧ s₂.eax = s.esi ∧ s₂.edx = s.edx := by
    rw [← hs₂, State.compare_df, State.compare_mem, State.compare_eax, State.compare_edx, ← hs₁]
    exact ⟨hdf, rfl, rfl, rfl⟩
  rcases hkept with ⟨hdf₂, hmem, heax, hedx₂⟩
  have hexec : Instr.exec (Instr.exec (Instr.exec (Instr.exec s (.movImm .edi ct)) (.mov .eax .esi)) (.mov .ecx .edx))
      .repeCmpsb = s₂ := by
    rw [← hs₂, ← hs₁]
    rfl
  refine .op rfl rfl (.op rfl rfl (.op rfl rfl (.op rfl rfl ?_)))
  rw [hexec]
  have hchar : s.mem (s₂.esi + -1) = a := by
    have hlast := (block_append.mp hsrc).2.1
    rwa [hdiffer.2, ← BitVec.sub_eq_add_neg, add_ofNat_succ_sub]
  obtain ⟨s₃, hs₃⟩ : ∃ s₃, Instr.exec (Instr.exec (Instr.exec s₂ (.xchg .eax .esi)) (.inc .esi)) (.cmpZero .eax (-1)) = s₃ :=
    ⟨_, rfl⟩
  have hzf : s₃.zf = decide (a = 0) := by
    rw [← hs₃, ← hchar, ← hmem]
    exact State.cmp_zf _ _ _
  refine .pass rfl hdiffer.1 (.op rfl rfl (.op rfl rfl (.op rfl rfl ?_)))
  rw [hs₃]
  by_cases hzero : a = 0
  · refine .pass rfl ?_ (.op rfl rfl (.halt rfl (hend hzero _ ?_ BitVec.xor_self)))
    · exact State.holds_ne_false hzf hzero
    · rw [← hs₃]
      exact hmem
  · refine .jump rfl ?_ (hnext hzero s₃ ?_ ?_ ?_ ?_)
    · exact State.holds_ne_true hzf hzero
    · rw [← hs₃]
      exact hdf₂
    · rw [← hs₃]
      exact hmem
    · rw [← hs₃, ← heax]
      rfl
    · rw [← hs₃]
      exact hedx₂

/-- `strstr` finds the first place where one string is in another. -/
theorem strstr_finds (s : State) (cs ct : BitVec 32) (l chars : List (BitVec 8)) (hcs : Str s.mem cs l)
    (hct : Str s.mem ct chars) (hchars : chars.length + 1 < 2 ^ 32) :
    (strstr cs ct).Ends s fun s' => s'.mem = s.mem ∧ Finds chars l cs s'.eax := by
  have hloop : ∀ (n : Nat) (l : List (BitVec 8)) (s : State), l.length < n → s.df = false → Str s.mem s.esi l →
      Str s.mem ct chars → s.edx = BitVec.ofNat 32 chars.length → (chars = [] → s.zf = true) →
      StringOps.Ends (strstr cs ct).code 6 s fun s' => s'.mem = s.mem ∧ Finds chars l s.esi s'.eax := by
    intro n
    induction n with
    | zero => exact fun l s hn => absurd hn (Nat.not_lt_zero _)
    | succ n ih =>
      intro l s hn hdf hcs hct hedx hzf
      by_cases hpre : chars <+: l
      · refine (strstr_here cs hdf hcs hct hedx hzf hpre).mono fun s' h' => ⟨h'.1, ?_⟩
        obtain ⟨t, rfl⟩ := hpre
        exact Or.inl ⟨[], t, rfl, fun j hj => absurd hj (Nat.not_lt_zero j), h'.2.trans (add_ofNat_zero _).symm⟩
      · rcases differ_of_not_prefix hct.2 hpre with ⟨p, a, b, t, u, hl, hchars, hab⟩
        refine strstr_other cs hdf hcs hct hedx hl hchars hab (fun hzero s' hmem heax => ⟨hmem, Or.inr ⟨fun hin => ?_, heax⟩⟩)
          fun hne s₁ hdf₁ hmem₁ hesi₁ hedx₁ => ?_
        · -- the string ends before the characters do
          subst hzero
          have hlen := hin.length_le
          rw [hchars, eq_of_zero hcs.2 hl, List.length_append, List.length_cons] at hlen
          omega
        · cases l with
          | nil =>
            cases p with
            | nil => exact absurd (List.cons.inj hl).1.symm hne
            | cons x p => simp at hl
          | cons c l =>
            have hrest := (str_cons.mp hcs).2.2
            rw [← hmem₁, ← hesi₁] at hrest
            refine (ih l s₁ (Nat.lt_of_succ_lt_succ hn) hdf₁ hrest (hmem₁ ▸ hct) (hedx₁.trans hedx) fun hnil => ?_).mono
              fun s' h' => ⟨h'.1.trans hmem₁, (hesi₁ ▸ h'.2).cons hpre⟩
            exact absurd (hnil ▸ List.nil_prefix) hpre
  refine .op rfl rfl (begin_lines rfl rfl rfl rfl hct hchars fun s₁ hdf hmem hesi hedx hzf => ?_)
  have hmem : s₁.mem = s.mem := hmem
  have hesi : s₁.esi = cs := hesi
  have hrun := hloop _ l s₁ (Nat.lt_succ_self _) hdf (hmem ▸ hesi ▸ hcs) (hmem ▸ hct) hedx fun hnil => hzf.trans (decide_eq_true hnil)
  rw [hesi, hmem] at hrun
  exact hrun

theorem strstr_finds_b : (strstr 0x1000 0x2000).Ends (sample [97, 98] [98]) fun s' =>
    s'.mem = (sample [97, 98] [98]).mem ∧ Finds [98] [97, 98] 0x1000 s'.eax :=
  strstr_finds (sample [97, 98] [98]) 0x1000 0x2000 [97, 98] [98] (by decide) (by decide) (by decide)

/-! ## `strchr`, `strrchr` and `memchr` -/

/-- The next character of a string, and whether it is the one in AH. -/
theorem char_lines (hcode : (code.drop k).take 2 = [.lodsb, .cmpAh]) (hdf : s.df = false)
    (hnext : ∀ s', Kept s s' → s'.esi = s.esi + 1 → s'.al = s.mem s.esi → s'.ah = s.ah →
      s'.zf = decide (s.mem s.esi = s.ah) → StringOps.Ends code (k + 2) s' Q) : StringOps.Ends code k s Q := by
  have hal : s.lodsb.al = s.mem s.esi := State.al_setAl s _
  have hah : s.lodsb.ah = s.ah := State.ah_setAl s _
  refine .op (line hcode (i := 0) (by decide)) rfl (.op (line hcode (i := 1) (by decide)) rfl
    (hnext _ ⟨hdf, rfl, rfl, rfl⟩ (copyChar_esi hdf) hal hah ?_))
  rw [← hal, ← hah]
  exact State.cmp_zf s.lodsb _ _

/-- Whether AL is zero. -/
theorem test_line (hi : code[k]? = some .testAl) (hdf : s.df = false)
    (hnext : ∀ s', Kept s s' → s'.esi = s.esi → s'.ah = s.ah → s'.zf = decide (s.al = 0) →
      StringOps.Ends code (k + 1) s' Q) : StringOps.Ends code k s Q := by
  exact .op hi rfl (hnext _ ⟨hdf, rfl, rfl, rfl⟩ rfl rfl (State.testAl_zf s))

/-- The character goes into AH. -/
theorem ah_lines (hcode : (code.drop 0).take 2 = [.cld, .movAh])
    (hnext : ∀ s', s'.df = false → s'.mem = s.mem → s'.esi = s.esi → s'.edx = s.edx → s'.ah = s.al →
      StringOps.Ends code 2 s' Q) : StringOps.Ends code 0 s Q :=
  .op (line hcode (i := 0) (by decide)) rfl (.op (line hcode (i := 1) (by decide)) rfl
    (hnext _ rfl rfl rfl rfl (State.ah_setAh _ _)))

theorem dec_mem (s : State) (r : Reg) : (Instr.exec s (.dec r)).mem = s.mem := by cases r <;> rfl

/-- `strchr` finds the first byte of a string, with the zero at its end, that is the character. -/
theorem strchr_finds (s : State) (p : BitVec 32) (c : BitVec 8) (l : List (BitVec 8)) (hstr : Str s.mem p l) :
    (strchr p c).Ends s fun s' => s'.mem = s.mem ∧
      ((∃ q t, l ++ [0] = q ++ c :: t ∧ c ∉ q ∧ s'.eax = p + BitVec.ofNat 32 q.length) ∨ c ∉ l ++ [0] ∧ s'.eax = 0) := by
  have hloop : ∀ (n : Nat) (l : List (BitVec 8)) (s : State), l.length < n → s.df = false → s.ah = c →
      Str s.mem s.esi l → StringOps.Ends (strchr p c).code 2 s fun s' => s'.mem = s.mem ∧
        ((∃ q t, l ++ [0] = q ++ c :: t ∧ c ∉ q ∧ s'.eax = s.esi + BitVec.ofNat 32 q.length) ∨
          c ∉ l ++ [0] ∧ s'.eax = 0) := by
    intro n
    induction n with
    | zero => exact fun l s hn => absurd hn (Nat.not_lt_zero _)
    | succ n ih =>
      intro l s hn hdf hah hstr
      rcases hstr.head with ⟨l', hl, hend, hmore⟩
      rw [hl]
      refine char_lines rfl hdf fun s₁ hkept₁ hesi₁ hal₁ hah₁ hzf₁ => ?_
      rw [hah] at hzf₁
      by_cases hfound : s.mem s.esi = c
      · refine .jump rfl (hzf₁.trans (decide_eq_true hfound))
          (.op rfl rfl (.op rfl rfl (.halt rfl ⟨hkept₁.mem, Or.inl ⟨[], l', ?_, List.not_mem_nil, ?_⟩⟩)))
        · rw [hfound]
          rfl
        · show s₁.esi - 1 = _
          rw [hesi₁, BitVec.add_sub_cancel]
          exact (add_ofNat_zero _).symm
      · refine .pass rfl (hzf₁.trans (decide_eq_false hfound)) (test_line rfl hkept₁.df fun s₂ hkept₂ hesi₂ hah₂ hzf₂ => ?_)
        have hkept := hkept₁.trans hkept₂
        have hesi := hesi₂.trans hesi₁
        rw [hal₁] at hzf₂
        by_cases hzero : s.mem s.esi = 0
        · refine .pass rfl ?_ (.op rfl rfl (.op rfl rfl (.op rfl rfl (.halt rfl ⟨(dec_mem _ _).trans hkept.mem, Or.inr ⟨?_, ?_⟩⟩))))
          · exact State.holds_ne_false hzf₂ hzero
          · rw [hend hzero, List.mem_singleton]
            exact Ne.symm hfound
          · exact BitVec.sub_self _
        · rcases hmore hzero with ⟨t, rfl, rfl, ht⟩
          rw [← hkept.mem, ← hesi] at ht
          refine .jump rfl ?_ ((ih t s₂ (Nat.lt_of_succ_lt_succ hn) hkept.df (hah₂.trans (hah₁.trans hah)) ht).mono
            fun s' h' => ⟨h'.1.trans hkept.mem, ?_⟩)
          · exact State.holds_ne_true hzf₂ hzero
          · rcases h'.2 with ⟨q, u, hq, hfirst, heax⟩ | ⟨hno, heax⟩
            · refine Or.inl ⟨s.mem s.esi :: q, u, by rw [hq]; rfl, ?_, ?_⟩
              · exact fun hmem => (List.mem_cons.mp hmem).elim (fun heq => hfound heq.symm) hfirst
              · rw [heax, hesi, List.length_cons, add_ofNat_succ]
            · exact Or.inr ⟨fun hmem => (List.mem_cons.mp hmem).elim (fun heq => hfound heq.symm) hno, heax⟩
  refine ah_lines rfl fun s₁ hdf hmem hesi _ hah => ?_
  have hmem : s₁.mem = s.mem := hmem
  have hesi : s₁.esi = p := hesi
  have hrun := hloop _ l s₁ (Nat.lt_succ_self _) hdf (hah.trans (State.al_setAl s c)) (hmem.symm ▸ hesi.symm ▸ hstr)
  rw [hmem, hesi] at hrun
  exact hrun

theorem strchr_finds_b : (strchr 0x1000 98).Ends (sample [97, 98] []) fun s' => s'.mem = (sample [97, 98] []).mem ∧
    ((∃ q t, [97, 98, 0] = q ++ 98 :: t ∧ (98 : BitVec 8) ∉ q ∧ s'.eax = 0x1000 + BitVec.ofNat 32 q.length) ∨
      (98 : BitVec 8) ∉ [(97 : BitVec 8), 98, 0] ∧ s'.eax = 0) :=
  strchr_finds (sample [97, 98] []) 0x1000 98 [97, 98] (by decide)

/-- `strrchr` remembers where the character was. -/
theorem mark_lines (p : BitVec 32) (hdf : s.df = false)
    (hnext : ∀ s', s'.df = false → s'.mem = s.mem → s'.esi = s.esi + 1 → s'.ah = s.ah → s'.al = s.mem s.esi →
      s'.edx = (if s.mem s.esi = s.ah then s.esi else s.edx) → StringOps.Ends (strrchr p a).code 7 s' Q) :
    StringOps.Ends (strrchr p a).code 2 s Q := by
  refine char_lines rfl hdf fun s₁ hkept hesi hal hah hzf => ?_
  by_cases hfound : s.mem s.esi = s.ah
  · refine .pass rfl ?_ (.op rfl rfl (.op rfl rfl (hnext _ hkept.df hkept.mem hesi hah hal ?_)))
    · exact State.holds_ne_false hzf hfound
    · rw [if_pos hfound]
      show s₁.esi - 1 = _
      rw [hesi, BitVec.add_sub_cancel]
  · refine .jump rfl ?_ (hnext s₁ hkept.df hkept.mem hesi hah hal (hkept.edx.trans (if_neg hfound).symm))
    exact State.holds_ne_true hzf hfound

/-- `strrchr` finds the last byte of a string, with the zero at its end, that is the character. -/
theorem strrchr_finds (s : State) (p : BitVec 32) (c : BitVec 8) (l : List (BitVec 8)) (hstr : Str s.mem p l) :
    (strrchr p c).Ends s fun s' => s'.mem = s.mem ∧
      ((∃ q t, l ++ [0] = q ++ c :: t ∧ c ∉ t ∧ s'.edx = p + BitVec.ofNat 32 q.length) ∨ c ∉ l ++ [0] ∧ s'.edx = 0) := by
  have hloop : ∀ (n : Nat) (l : List (BitVec 8)) (s : State), l.length < n → s.df = false → s.ah = c →
      Str s.mem s.esi l → StringOps.Ends (strrchr p c).code 2 s fun s' => s'.mem = s.mem ∧
        ((∃ q t, l ++ [0] = q ++ c :: t ∧ c ∉ t ∧ s'.edx = s.esi + BitVec.ofNat 32 q.length) ∨
          c ∉ l ++ [0] ∧ s'.edx = s.edx) := by
    intro n
    induction n with
    | zero => exact fun l s hn => absurd hn (Nat.not_lt_zero _)
    | succ n ih =>
      intro l s hn hdf hah hstr
      rcases hstr.head with ⟨l', hl, hend, hmore⟩
      rw [hl]
      refine mark_lines p hdf fun s₁ hdf₁ hmem₁ hesi₁ hah₁ hal₁ hedx₁ => ?_
      rw [hah] at hedx₁
      refine test_line rfl hdf₁ fun s₂ hkept₂ hesi₂ hah₂ hzf₂ => ?_
      rw [hal₁] at hzf₂
      have hmem := hkept₂.mem.trans hmem₁
      have hesi := hesi₂.trans hesi₁
      have hedx := hkept₂.edx.trans hedx₁
      by_cases hzero : s.mem s.esi = 0
      · refine .pass rfl ?_ (.halt rfl ⟨hmem, ?_⟩)
        · exact State.holds_ne_false hzf₂ hzero
        · rw [hend hzero, hedx]
          by_cases hfound : s.mem s.esi = c
          · refine Or.inl ⟨[], [], by rw [hfound]; rfl, List.not_mem_nil, ?_⟩
            rw [if_pos hfound]
            exact (add_ofNat_zero _).symm
          · exact Or.inr ⟨fun hc => hfound (List.mem_singleton.mp hc).symm, if_neg hfound⟩
      · rcases hmore hzero with ⟨t, rfl, rfl, ht⟩
        rw [← hmem, ← hesi] at ht
        refine .jump rfl ?_ ((ih t s₂ (Nat.lt_of_succ_lt_succ hn) hkept₂.df (hah₂.trans (hah₁.trans hah)) ht).mono
          fun s' h' => ⟨h'.1.trans hmem, ?_⟩)
        · exact State.holds_ne_true hzf₂ hzero
        · rcases h'.2 with ⟨q, u, hq, hlast, hedx'⟩ | ⟨hno, hedx'⟩
          · refine Or.inl ⟨s.mem s.esi :: q, u, by rw [hq]; rfl, hlast, ?_⟩
            rw [hedx', hesi, List.length_cons, add_ofNat_succ]
          · rw [hedx] at hedx'
            by_cases hfound : s.mem s.esi = c
            · rw [if_pos hfound] at hedx'
              exact Or.inl ⟨[], t ++ [0], by rw [hfound]; rfl, hno, hedx'.trans (add_ofNat_zero _).symm⟩
            · rw [if_neg hfound] at hedx'
              exact Or.inr ⟨fun hc => (List.mem_cons.mp hc).elim (fun heq => hfound heq.symm) hno, hedx'⟩
  refine ah_lines rfl fun s₁ hdf hmem hesi hedx hah => ?_
  have hmem : s₁.mem = s.mem := hmem
  have hesi : s₁.esi = p := hesi
  have hedx : s₁.edx = 0 := hedx
  have hrun := hloop _ l s₁ (Nat.lt_succ_self _) hdf (hah.trans (State.al_setAl s c)) (hmem.symm ▸ hesi.symm ▸ hstr)
  rw [hmem, hesi, hedx] at hrun
  exact hrun

theorem strrchr_finds_b : (strrchr 0x1000 98).Ends (sample [98, 98] []) fun s' => s'.mem = (sample [98, 98] []).mem ∧
    ((∃ q t, [98, 98, 0] = q ++ 98 :: t ∧ (98 : BitVec 8) ∉ t ∧ s'.edx = 0x1000 + BitVec.ofNat 32 q.length) ∨
      (98 : BitVec 8) ∉ [(98 : BitVec 8), 98, 0] ∧ s'.edx = 0) :=
  strrchr_finds (sample [98, 98] []) 0x1000 98 [98, 98] (by decide)

/-- `memchr` finds the first of some bytes that is the character. -/
theorem memchr_finds (s : State) (cs : BitVec 32) (c : BitVec 8) (l : List (BitVec 8)) (hblock : Block s.mem cs l)
    (hl : l.length < 2 ^ 32) :
    (memchr cs c (BitVec.ofNat 32 l.length)).Ends s fun s' => s'.mem = s.mem ∧
      ((∃ q t, l = q ++ c :: t ∧ c ∉ q ∧ s'.edi = cs + BitVec.ofNat 32 q.length) ∨ c ∉ l ∧ s'.edi = 0) := by
  have hlen : (BitVec.ofNat 32 l.length).toNat = l.length := by
    rw [BitVec.toNat_ofNat, Nat.mod_eq_of_lt hl]
  by_cases hnil : l = []
  · subst hnil
    exact .halt rfl ⟨rfl, Or.inr ⟨List.not_mem_nil, rfl⟩⟩
  have hcount : BitVec.ofNat 32 l.length ≠ 0 := by
    intro heq
    rw [heq] at hlen
    exact hnil (List.length_eq_zero_iff.mp hlen.symm)
  obtain ⟨s₁, hs₁⟩ : ∃ s₁ : State, { s.setAl c with edi := cs, ecx := BitVec.ofNat 32 l.length, df := false } = s₁ :=
    ⟨_, rfl⟩
  have hstart : s₁.df = false ∧ s₁.mem = s.mem ∧ s₁.edi = cs ∧ s₁.al = c := by
    rw [← hs₁]
    exact ⟨rfl, rfl, rfl, State.al_setAl s c⟩
  rcases hstart with ⟨hdf, hmem, hedi, hal⟩
  obtain ⟨s₂, hs₂⟩ : ∃ s₂, s₁.repWhile State.scasb false l.length = s₂ := ⟨_, rfl⟩
  have hmem₂ : s₂.mem = s.mem := by rw [← hs₂, State.scan_mem, hmem]
  rw [← hmem, ← hedi] at hblock
  have hzf : s₂.zf = decide (c ∈ l) := by rw [← hs₂, State.scan_zf hdf hblock hnil, hal]
  have hexec : Instr.exec (Instr.exec ((memchr cs c (BitVec.ofNat 32 l.length)).load s) .cld) .repneScasb = s₂ := by
    rw [memchr, if_neg hcount]
    show State.repWhile State.scasb false (BitVec.ofNat 32 l.length).toNat _ = s₂
    rw [hlen, ← hs₂, ← hs₁]
    rfl
  have hcode : (memchr cs c (BitVec.ofNat 32 l.length)).code =
      [.cld, .repneScasb, .jcc .e 4, .movImm .edi 1, .dec .edi] := by
    rw [memchr, if_neg hcount]
  rw [Asm.Ends, hcode]
  refine .op rfl rfl (.op rfl rfl ?_)
  rw [hexec]
  by_cases hc : c ∈ l
  · obtain ⟨q, t, rfl, hq⟩ := List.eq_append_cons_of_mem hc
    have hfound := State.scan_found (n := (q ++ c :: t).length) hdf (l := q) ?_ ?_ ?_
    · refine .jump rfl (hzf.trans (decide_eq_true hc)) (.op rfl rfl (.halt rfl ⟨hmem₂, Or.inl ⟨q, t, rfl, hq, ?_⟩⟩))
      show s₂.edi - 1 = _
      rw [← hs₂, hfound.2.1, hedi, add_ofNat_succ_sub]
    · rw [List.append_cons, ← hal] at hblock
      exact (block_append.mp hblock).1
    · rwa [hal]
    · rw [List.length_append, List.length_cons]
      omega
  · refine .pass rfl (hzf.trans (decide_eq_false hc)) (.op rfl rfl (.op rfl rfl
      (.halt rfl ⟨(dec_mem _ _).trans hmem₂, Or.inr ⟨hc, BitVec.sub_self _⟩⟩)))

end MockOs.StringH
