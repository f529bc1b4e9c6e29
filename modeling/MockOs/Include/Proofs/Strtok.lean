import Mathlib.Data.List.Forall2
import MockOs.Include.Proofs.Search

/-!
# Taking a string apart

`strtok` keeps its place in `___strtok` and ends each token with a zero in the string itself, so a
string is taken apart by a run of calls, which may each have other delimiters.
-/

namespace MockOs.StringH

open StringOps CString

/-- The first token of a string and what is behind the delimiter that ends it. -/
def nextToken (chars l : List (BitVec 8)) : Option (List (BitVec 8) × List (BitVec 8)) :=
  if chars = [] then none
  else
    match l.dropWhile fun a => decide (a ∈ chars) with
    | [] => none
    | a :: t =>
      some ((a :: t).takeWhile fun a => !decide (a ∈ chars), ((a :: t).dropWhile fun a => !decide (a ∈ chars)).tail)

/-- What the calls return, one list of delimiters for each. -/
def tokensOf : (delims : List (List (BitVec 8))) → (l : List (BitVec 8)) → List (Option (List (BitVec 8)))
  | [], _ => []
  | chars :: delims, l =>
    match nextToken chars l with
    | none => none :: tokensOf delims []
    | some (t, r) => some t :: tokensOf delims r

/-- `strtok` is called for the string at `p`, and then with a null pointer for each of the other
delimiters. -/
def StrtokCalls : (cts : List (BitVec 32)) → (saved p : BitVec 32) → State → (List (BitVec 32) → State → Prop) → Prop
  | [], _, _, s, Q => Q [] s
  | ct :: cts, saved, p, s, Q =>
    (strtok saved p ct).Ends s fun s' => StrtokCalls cts s'.esi 0 s' fun rs s'' => Q (s'.ebx :: rs) s''

variable {s : State} {l chars : List (BitVec 8)} {saved p q ct x : BitVec 32} {code : List Instr} {e k : Nat}
  {Q : State → Prop}

/-! ## Lines of `strtok` -/

theorem finish_none (hebx : s.ebx = 0) :
    StringOps.Ends (strtok saved p ct).code 43 s fun s' => s'.mem = s.mem ∧ s'.ebx = 0 ∧ s'.esi = 0 := by
  refine .op rfl rfl (.pass rfl ?_ (.op rfl rfl (.halt rfl ⟨rfl, hebx, hebx⟩)))
  exact State.holds_ne_false (State.test_zf s .ebx) hebx

theorem finish_token (hebx : s.ebx ≠ 0) :
    StringOps.Ends (strtok saved p ct).code 43 s fun s' => s'.mem = s.mem ∧ s'.ebx = s.ebx ∧ s'.esi = s.esi := by
  refine .op rfl rfl (.jump rfl ?_ (.halt rfl ⟨rfl, rfl, rfl⟩))
  exact State.holds_ne_true (State.test_zf s .ebx) hebx

theorem check_token (hebx : s.ebx ≠ 0) (hchar : s.mem s.ebx ≠ 0) :
    StringOps.Ends (strtok saved p ct).code 40 s fun s' => s'.mem = s.mem ∧ s'.ebx = s.ebx ∧ s'.esi = s.esi := by
  refine .op rfl rfl (.jump rfl ?_ (finish_token hebx))
  exact State.holds_ne_true (State.cmpZero_zf s .ebx) hchar

/-- Back to the character that ended a loop, which is not the zero at the end. -/
theorem look_lines (hcode : (code.drop k).take 3 = [.dec .esi, .cmpZero .esi 0, .jcc .e e]) (hdf : s.df = false)
    (hesi : s.esi - 1 = x) (hchar : s.mem x ≠ 0)
    (hnext : ∀ s', Kept s s' → s'.esi = x → StringOps.Ends code (k + 3) s' Q) : StringOps.Ends code k s Q := by
  obtain ⟨s₁, hs₁⟩ : ∃ s₁, Instr.exec s (.dec .esi) = s₁ := ⟨_, rfl⟩
  have hkept : Kept s s₁ := by
    rw [← hs₁]
    exact ⟨hdf, rfl, rfl, rfl⟩
  have hesi₁ : s₁.esi = x := by
    rw [← hs₁]
    exact hesi
  obtain ⟨s₂, hs₂⟩ : ∃ s₂, Instr.exec s₁ (.cmpZero .esi 0) = s₂ := ⟨_, rfl⟩
  have hkept₂ : Kept s₁ s₂ ∧ s₂.esi = s₁.esi := by
    rw [← hs₂]
    exact ⟨⟨hkept.df, rfl, rfl, rfl⟩, rfl⟩
  have hzf : s₂.zf = decide (s₁.mem s₁.esi = 0) := by
    rw [← hs₂]
    exact State.cmpZero_zf s₁ .esi
  rw [hesi₁, hkept.mem, decide_eq_false hchar] at hzf
  refine .op (line hcode (i := 0) (by decide)) rfl ?_
  rw [hs₁]
  refine .op (line hcode (i := 1) (by decide)) rfl ?_
  rw [hs₂]
  exact .pass (line hcode (i := 2) (by decide)) hzf (hnext s₂ (hkept.trans hkept₂.1) (hkept₂.2.trans hesi₁))

/-! ## One call -/

/-- What a call does with the string `l` at `q`. -/
inductive Taken (m : Mem) (q : BitVec 32) (chars l : List (BitVec 8)) (s' : State) : Prop where
  /-- There is no token. -/
  | none (hall : chars = [] ∨ ∀ a ∈ l, a ∈ chars) (hmem : s'.mem = m) (hebx : s'.ebx = 0) (hesi : s'.esi = 0)
  /-- The token is at the end. -/
  | last (u t : List (BitVec 8)) (hl : l = u ++ t) (hchars : chars ≠ []) (hu : ∀ a ∈ u, a ∈ chars) (hne : t ≠ [])
      (ht : ∀ a ∈ t, a ∉ chars) (hmem : s'.mem = m) (hebx : s'.ebx = q + BitVec.ofNat 32 u.length) (hesi : s'.esi = 0)
  /-- A delimiter ends the token. -/
  | more (u t : List (BitVec 8)) (b : BitVec 8) (r : List (BitVec 8)) (hl : l = u ++ t ++ b :: r) (hchars : chars ≠ [])
      (hu : ∀ a ∈ u, a ∈ chars) (hne : t ≠ []) (ht : ∀ a ∈ t, a ∉ chars) (hb : b ∈ chars)
      (hmem : s'.mem = Function.update m (q + BitVec.ofNat 32 (u ++ t).length) 0)
      (hebx : s'.ebx = q + BitVec.ofNat 32 u.length) (hesi : s'.esi = q + BitVec.ofNat 32 ((u ++ t).length + 1))

/-- The loop over the characters of a token. -/
theorem token_lines {u : List (BitVec 8)} {a : BitVec 8} {t : List (BitVec 8)} (hl : l = u ++ a :: t) (hdf : s.df = false)
    (hstr : Str s.mem q l) (hct : Str s.mem ct chars) (hedx : s.edx = BitVec.ofNat 32 chars.length) (hchars : chars ≠ [])
    (hu : ∀ b ∈ u, b ∈ chars) (ha : a ∉ chars) (hebx : s.ebx = q + BitVec.ofNat 32 u.length)
    (hesi : s.esi = q + BitVec.ofNat 32 u.length) (hnull : s.ebx ≠ 0) :
    StringOps.Ends (strtok saved p ct).code 26 s fun s' => Taken s.mem q chars l s' := by
  have htail : Str s.mem s.esi (a :: t) := by
    rw [hesi]
    refine ⟨?_, fun h0 => hstr.2 (hl ▸ List.mem_append_right u h0)⟩
    have hblock := hstr.1
    rw [hl, List.append_assoc] at hblock
    exact (block_append.mp hblock).2
  have hfirst : s.mem s.ebx = a ∧ a ≠ 0 := by
    rw [hebx, ← hesi]
    exact ⟨(str_cons.mp htail).1, (str_cons.mp htail).2.1⟩
  refine scan_loop (fun a => !decide (a ∈ chars)) rfl (fun _ _ hzf => congrArg (! ·) hzf) hdf htail hct hedx
    (fun hall s₁ hkept _ => ?_) fun v b r hv hall hb s₁ hkept hend => ?_
  · obtain ⟨s₂, hs₂⟩ : ∃ s₂, Instr.exec s₁ (.xor .esi) = s₂ := ⟨_, rfl⟩
    have hsame : s₂.mem = s.mem ∧ s₂.ebx = s.ebx ∧ s₂.esi = 0 := by
      rw [← hs₂]
      exact ⟨hkept.mem, hkept.ebx, BitVec.xor_self⟩
    rcases hsame with ⟨hmem₂, hebx₂, hesi₂⟩
    refine .op rfl rfl ?_
    rw [hs₂]
    refine (check_token (hebx₂ ▸ hnull) ?_).mono fun s' h' => ?_
    · rw [hmem₂, hebx₂, hfirst.1]
      exact hfirst.2
    · refine .last u (a :: t) hl hchars hu (List.cons_ne_nil a t) (fun b hb => ?_) (h'.1.trans hmem₂)
        (h'.2.1.trans (hebx₂.trans hebx)) (h'.2.2.trans hesi₂)
      simpa using hall b hb
  · have hb : b ∈ chars := by simpa using hb
    have hv0 : v ≠ [] := by
      rintro rfl
      exact ha ((List.cons.inj hv).1 ▸ hb)
    have hlast : s.esi + BitVec.ofNat 32 v.length = q + BitVec.ofNat 32 (u ++ v).length := by
      rw [hesi, List.length_append, BitVec.ofNat_add, BitVec.add_assoc]
    have hlen : v.length < 2 ^ 32 := by
      have hlt := htail.length_lt
      rw [hv, List.length_append] at hlt
      omega
    have hchar : s₁.mem (s.esi + BitVec.ofNat 32 v.length) = b := by
      have hblock := htail.1
      rw [hkept.mem]
      rw [hv, List.append_assoc] at hblock
      exact (block_append.mp hblock).2.1
    refine look_lines (x := s.esi + BitVec.ofNat 32 v.length) rfl hkept.df ?_ ?_ fun s₂ hkept₂ hesi₂ => ?_
    · rw [hend, add_ofNat_succ_sub]
    · rw [hchar]
      rintro rfl
      exact htail.2 (hv ▸ List.mem_append_right v List.mem_cons_self)
    obtain ⟨s₃, hs₃⟩ : ∃ s₃, Instr.exec (Instr.exec s₂ (.storeZero .esi)) (.inc .esi) = s₃ := ⟨_, rfl⟩
    have hsame : s₃.mem = Function.update s.mem (s.esi + BitVec.ofNat 32 v.length) 0 ∧ s₃.ebx = s.ebx ∧
        s₃.esi = s.esi + BitVec.ofNat 32 v.length + 1 := by
      rw [← hs₃, ← hesi₂, ← hkept.mem, ← hkept₂.mem]
      exact ⟨rfl, hkept₂.ebx.trans hkept.ebx, rfl⟩
    rcases hsame with ⟨hmem₃, hebx₃, hesi₃⟩
    have hapart : s.ebx ≠ s.esi + BitVec.ofNat 32 v.length := by
      rw [hebx, ← hesi, ← add_ofNat_zero s.esi, BitVec.add_assoc, ← BitVec.ofNat_add, Nat.zero_add]
      exact fun heq => hv0 (List.length_eq_zero_iff.mp (add_ofNat_inj (by decide) hlen heq).symm)
    refine .op rfl rfl (.op rfl rfl ?_)
    rw [hs₃]
    refine .instr rfl ((check_token (s := s₃) (hebx₃ ▸ hnull) ?_).mono fun s' h' => ?_)
    · rw [hmem₃, hebx₃, Function.update_of_ne hapart, hfirst.1]
      exact hfirst.2
    · refine .more u v b r ?_ hchars hu hv0 (fun c hc => ?_) hb ?_ (h'.2.1.trans (hebx₃.trans hebx)) ?_
      · rw [hl, hv, List.append_assoc]
      · simpa using hall c hc
      · rw [h'.1, hmem₃, hlast]
      · rw [h'.2.2, hesi₃, hlast, BitVec.ofNat_add, ← BitVec.add_assoc]
        rfl

/-- A call for the string at `q`, from the line on that has the string in ESI. -/
theorem strtok_takes (hesi : s.esi = q) (hstr : Str s.mem q l) (hct : Str s.mem ct chars) (hchars : chars.length + 1 < 2 ^ 32)
    (hq : q ≠ 0) (hend : q.toNat + l.length < 2 ^ 32) :
    StringOps.Ends (strtok saved p ct).code 5 s fun s' => Taken s.mem q chars l s' := by
  obtain ⟨s₁, hs₁⟩ : ∃ s₁, Instr.exec (Instr.exec (Instr.exec (Instr.exec (Instr.exec s (.xor .ebx)) (.movImm .ecx (-1)))
      (.xor .eax)) .cld) (.movImm .edi ct) = s₁ := ⟨_, rfl⟩
  have hload : s₁.df = false ∧ s₁.mem = s.mem ∧ s₁.ebx = 0 ∧ s₁.esi = q ∧ s₁.ecx = 0xffffffff ∧ s₁.edi = ct := by
    rw [← hs₁]
    exact ⟨rfl, rfl, BitVec.xor_self, hesi, rfl, rfl⟩
  have hal : s₁.al = 0 := by
    have heax : s₁.eax = 0 := by
      rw [← hs₁]
      exact BitVec.xor_self
    rw [State.al, heax]
    rfl
  rcases hload with ⟨hdf₁, hmem₁, hebx₁, hesi₁, hecx₁, hedi₁⟩
  have hnone : ∀ s' : State, s'.mem = s.mem → s'.ebx = 0 → (chars = [] ∨ ∀ a ∈ l, a ∈ chars) →
      StringOps.Ends (strtok saved p ct).code 43 s' fun s' => Taken s.mem q chars l s' := fun s' hmem hebx hall =>
    (finish_none hebx).mono fun s'' h => .none hall (h.1.trans hmem) h.2.1 h.2.2
  refine .op rfl rfl (.op rfl rfl (.op rfl rfl (.op rfl rfl (.op rfl rfl ?_))))
  rw [hs₁]
  refine count_lines rfl hdf₁ hal hecx₁ (hmem₁ ▸ hedi₁ ▸ hct) hchars fun s₂ hkept₂ hesi₂ hecx₂ hzf₂ => ?_
  have hmem₂ := hkept₂.mem.trans hmem₁
  have hebx₂ := hkept₂.ebx.trans hebx₁
  by_cases hnil : chars = []
  · exact .jump rfl (hzf₂.trans (decide_eq_true hnil)) (hnone s₂ hmem₂ hebx₂ (Or.inl hnil))
  refine .pass rfl (hzf₂.trans (decide_eq_false hnil)) ?_
  obtain ⟨s₃, hs₃⟩ : ∃ s₃, Instr.exec s₂ (.mov .edx .ecx) = s₃ := ⟨_, rfl⟩
  have hsame : s₃.df = false ∧ s₃.mem = s.mem ∧ s₃.ebx = 0 ∧ s₃.esi = q ∧ s₃.edx = BitVec.ofNat 32 chars.length := by
    rw [← hs₃]
    exact ⟨hkept₂.df, hmem₂, hebx₂, hesi₂.trans hesi₁, hecx₂⟩
  rcases hsame with ⟨hdf₃, hmem₃, hebx₃, hesi₃, hedx₃⟩
  refine .op rfl rfl ?_
  rw [hs₃]
  refine scan_loop (fun a => decide (a ∈ chars)) rfl (fun _ _ hzf => hzf) hdf₃ (hmem₃ ▸ hesi₃ ▸ hstr) (hmem₃ ▸ hct) hedx₃
    (fun hall s₄ hkept₄ _ => ?_) fun u a t hl hu ha s₄ hkept₄ hesi₄ => ?_
  · refine hnone s₄ (hkept₄.mem.trans hmem₃) (hkept₄.ebx.trans hebx₃) (Or.inr fun a ha => ?_)
    exact of_decide_eq_true (hall a ha)
  · have hmem₄ := hkept₄.mem.trans hmem₃
    have hat : s.mem (q + BitVec.ofNat 32 u.length) = a ∧ a ≠ 0 := by
      refine ⟨?_, fun h0 => hstr.2 (hl ▸ h0 ▸ List.mem_append_right u List.mem_cons_self)⟩
      have hblock := hstr.1
      rw [hl, List.append_assoc] at hblock
      exact (block_append.mp hblock).2.1
    refine look_lines (x := q + BitVec.ofNat 32 u.length) rfl hkept₄.df ?_ ?_ fun s₅ hkept₅ hesi₅ => ?_
    · rw [hesi₄, hesi₃, add_ofNat_succ_sub]
    · rw [hmem₄, hat.1]
      exact hat.2
    obtain ⟨s₆, hs₆⟩ : ∃ s₆, Instr.exec s₅ (.mov .ebx .esi) = s₆ := ⟨_, rfl⟩
    have hsame : s₆.df = false ∧ s₆.mem = s.mem ∧ s₆.ebx = s₅.esi ∧ s₆.esi = s₅.esi ∧ s₆.edx = s₅.edx := by
      rw [← hs₆]
      exact ⟨hkept₅.df, hkept₅.mem.trans hmem₄, rfl, rfl, rfl⟩
    rcases hsame with ⟨hdf₆, hmem₆, hebx₆, hesi₆, hedx₆⟩
    refine .op rfl rfl ?_
    rw [hs₆, ← hmem₆]
    refine token_lines hl hdf₆ (hmem₆ ▸ hstr) (hmem₆ ▸ hct) (hedx₆.trans (hkept₅.edx.trans (hkept₄.edx.trans hedx₃))) hnil
      (fun b hb => of_decide_eq_true (hu b hb)) (of_decide_eq_false ha) (hebx₆.trans hesi₅) (hesi₆.trans hesi₅) ?_
    rw [hebx₆, hesi₅]
    intro hzero
    have hlen : u.length < l.length := by
      rw [hl, List.length_append, List.length_cons]
      omega
    have hnat := congrArg BitVec.toNat hzero
    rw [BitVec.toNat_add, BitVec.toNat_ofNat] at hnat
    have hpos : q.toNat ≠ 0 := fun h0 => hq (BitVec.eq_of_toNat_eq h0)
    simp at hnat
    omega

/-! ## A run of calls -/

/-- Not one of the `n` bytes at `q`. -/
def Outside (q : BitVec 32) (n : Nat) (x : BitVec 32) : Prop := x.toNat < q.toNat ∨ q.toNat + n ≤ x.toNat

instance (q : BitVec 32) (n : Nat) (x : BitVec 32) : Decidable (Outside q n x) := inferInstanceAs (Decidable (_ ∨ _))

/-- What `___strtok` points to: nothing, or the rest of the string. -/
def Rest (m : Mem) (q : BitVec 32) (l : List (BitVec 8)) : Prop :=
  q = 0 ∧ l = [] ∨ q ≠ 0 ∧ Str m q l ∧ q.toNat + l.length < 2 ^ 32

/-- Delimiters that are not in the `n` bytes at `q`. -/
structure Delims (m : Mem) (q : BitVec 32) (n : Nat) (ct : BitVec 32) (chars : List (BitVec 8)) : Prop where
  str : Str m ct chars
  short : chars.length + 1 < 2 ^ 32
  outside : ∀ j ≤ chars.length, Outside q n (ct + BitVec.ofNat 32 j)

/-- A token that was returned: a null pointer if there is none, else a string inside of the `n` bytes
at `q`. -/
def Returned (m : Mem) (q : BitVec 32) (n : Nat) (r : BitVec 32) : Option (List (BitVec 8)) → Prop
  | none => r = 0
  | some t => r ≠ 0 ∧ t ≠ [] ∧ Str m r t ∧ q.toNat ≤ r.toNat ∧ r.toNat + t.length ≤ q.toNat + n

theorem toNat_add_ofNat {n : Nat} (h : q.toNat + n < 2 ^ 32) : (q + BitVec.ofNat 32 n).toNat = q.toNat + n := by
  rw [BitVec.toNat_add, BitVec.toNat_ofNat]
  omega

theorem ne_zero {r : BitVec 32} (hq : q ≠ 0) (h : q.toNat ≤ r.toNat) : r ≠ 0 := by
  rintro rfl
  exact hq (BitVec.eq_of_toNat_eq (Nat.le_zero.mp h))

theorem nextToken_none (h : chars = [] ∨ ∀ a ∈ l, a ∈ chars) : nextToken chars l = none := by
  rw [nextToken]
  by_cases hnil : chars = []
  · rw [if_pos hnil]
  · have hdrop : (l.dropWhile fun a => decide (a ∈ chars)) = [] :=
      List.dropWhile_eq_nil_iff.mpr fun a ha => decide_eq_true ((h.resolve_left hnil) a ha)
    rw [if_neg hnil, hdrop]

theorem nextToken_some {u t w : List (BitVec 8)} (hchars : chars ≠ []) (hu : ∀ a ∈ u, a ∈ chars) (hne : t ≠ [])
    (ht : ∀ a ∈ t, a ∉ chars) (hw : ∀ b ∈ w.head?, b ∈ chars) : nextToken chars (u ++ (t ++ w)) = some (t, w.tail) := by
  obtain ⟨a, t, rfl⟩ := List.exists_cons_of_ne_nil hne
  have hgoes : ∀ b ∈ a :: t, (!decide (b ∈ chars)) = true := fun b hb => by simpa using ht b hb
  have hdrop : ((u ++ (a :: t ++ w)).dropWhile fun a => decide (a ∈ chars)) = a :: (t ++ w) := by
    rw [List.dropWhile_append_of_pos fun b hb => decide_eq_true (hu b hb), List.cons_append,
      List.dropWhile_cons_of_neg (by simpa using ht a List.mem_cons_self)]
  have hstop : (w.takeWhile fun a => !decide (a ∈ chars)) = [] ∧ (w.dropWhile fun a => !decide (a ∈ chars)) = w := by
    cases w with
    | nil => exact ⟨rfl, rfl⟩
    | cons b w =>
      have hb : b ∈ chars := hw b rfl
      exact ⟨List.takeWhile_cons_of_neg (by simpa using hb), List.dropWhile_cons_of_neg (by simpa using hb)⟩
  rw [nextToken, if_neg hchars, hdrop]
  show some ((a :: t ++ w).takeWhile _, ((a :: t ++ w).dropWhile _).tail) = _
  rw [List.takeWhile_append_of_pos hgoes, List.dropWhile_append_of_pos hgoes, hstop.1, hstop.2, List.append_nil]

theorem tokensOf_none {delims : List (List (BitVec 8))} (h : nextToken chars l = none) :
    tokensOf (chars :: delims) l = none :: tokensOf delims [] := by rw [tokensOf, h]

theorem tokensOf_some {delims : List (List (BitVec 8))} {t r : List (BitVec 8)} (h : nextToken chars l = some (t, r)) :
    tokensOf (chars :: delims) l = some t :: tokensOf delims r := by rw [tokensOf, h]

/-- What a call returns and leaves for the next one. -/
structure Advance (m : Mem) (q : BitVec 32) (chars l : List (BitVec 8)) (s' : State) (t : Option (List (BitVec 8)))
    (l' : List (BitVec 8)) : Prop where
  tokens : ∀ delims, tokensOf (chars :: delims) l = t :: tokensOf delims l'
  returned : Returned s'.mem q l.length s'.ebx t
  /-- The token is not in the rest. -/
  apart : ∀ tok ∈ t, ∀ j ≤ tok.length, Outside s'.esi l'.length (s'.ebx + BitVec.ofNat 32 j)
  rest : Rest s'.mem s'.esi l'
  inside : l'.length = 0 ∨ q.toNat ≤ s'.esi.toNat ∧ s'.esi.toNat + l'.length ≤ q.toNat + l.length
  frame : ∀ x, Outside q l.length x → s'.mem x = m x ∧ Outside s'.esi l'.length x

theorem outside_nothing : Outside 0 0 x := Or.inr (Nat.zero_le _)

theorem Taken.advance {m : Mem} {s' : State} (h : Taken m q chars l s') (hrest : Rest m q l) :
    ∃ t l', Advance m q chars l s' t l' := by
  cases h with
  | none hall hmem hebx hesi =>
    refine ⟨.none, [], fun delims => tokensOf_none (nextToken_none hall), hebx, fun _ ht => (nomatch ht),
      Or.inl ⟨hesi, rfl⟩, Or.inl rfl, fun x _ => ⟨by rw [hmem], ?_⟩⟩
    rw [hesi]
    exact outside_nothing
  | last u t hl hchars hu hne ht hmem hebx hesi =>
    obtain ⟨hq, hstr, hend⟩ := hrest.resolve_left fun h => hne (List.append_eq_nil_iff.mp (hl.symm.trans h.2)).2
    subst hl
    rw [List.length_append] at hend
    have hat : s'.ebx.toNat = q.toNat + u.length := by
      rw [hebx]
      exact toNat_add_ofNat (by omega)
    refine ⟨some t, [], fun delims => tokensOf_some ?_, ⟨ne_zero hq (by omega), hne, ?_, by omega, ?_⟩, fun tok _ j _ => ?_,
      Or.inl ⟨hesi, rfl⟩, Or.inl rfl, fun x _ => ⟨by rw [hmem], ?_⟩⟩
    · have htoken := nextToken_some (w := []) hchars hu hne ht fun _ hb => (nomatch hb)
      rwa [List.append_nil] at htoken
    · rw [hmem, hebx]
      exact hstr.drop
    · rw [List.length_append]
      omega
    · rw [hesi]
      exact outside_nothing
    · rw [hesi]
      exact outside_nothing
  | more u t b r hl hchars hu hne ht hb hmem hebx hesi =>
    obtain ⟨hq, hstr, hend⟩ := hrest.resolve_left fun h => by
      rw [hl] at h
      exact List.cons_ne_nil b r (List.append_eq_nil_iff.mp h.2).2
    have hlen : l.length = u.length + t.length + (r.length + 1) := by
      rw [hl, List.length_append, List.length_append, List.length_cons]
    have hbefore : (u ++ t).length = u.length + t.length := List.length_append
    have hat : s'.ebx.toNat = q.toNat + u.length := by
      rw [hebx]
      exact toNat_add_ofNat (by omega)
    have hnext : s'.esi.toNat = q.toNat + (u.length + t.length + 1) := by
      rw [hesi, hbefore]
      exact toNat_add_ofNat (by omega)
    have hzero : s'.ebx + BitVec.ofNat 32 t.length = q + BitVec.ofNat 32 (u ++ t).length := by
      rw [hebx, hbefore, BitVec.ofNat_add, BitVec.add_assoc]
    have hcut : Str s'.mem s'.ebx t ∧ Str s'.mem (s'.ebx + BitVec.ofNat 32 (t.length + 1)) r := by
      rw [hl, List.append_assoc] at hstr
      rw [hmem, ← hzero, hebx]
      exact hstr.drop.cut
    have hesi' : s'.ebx + BitVec.ofNat 32 (t.length + 1) = s'.esi := by
      rw [hesi, hebx, hbefore, BitVec.add_assoc, ← BitVec.ofNat_add, Nat.add_assoc]
    rw [hesi'] at hcut
    refine ⟨some t, r, fun delims => tokensOf_some ?_, ⟨ne_zero hq (by omega), hne, hcut.1, by omega, by omega⟩,
      fun tok htok j hj => ?_, Or.inr ⟨ne_zero hq (by omega), hcut.2, by omega⟩, Or.inr (by omega), fun x hx => ⟨?_, ?_⟩⟩
    · rw [hl, List.append_assoc]
      exact nextToken_some (w := b :: r) hchars hu hne ht fun c hc => Option.some.inj hc ▸ hb
    · cases htok
      refine Or.inl ?_
      rw [toNat_add_ofNat (by omega)]
      omega
    · rw [hmem]
      refine Function.update_of_ne (fun heq => ?_) _ _
      rw [heq, Outside, hbefore, toNat_add_ofNat (by omega)] at hx
      omega
    · rw [Outside, hnext]
      rcases hx with hx | hx
      · exact Or.inl (by omega)
      · exact Or.inr (by omega)

theorem Returned.widen {m : Mem} {q' r : BitVec 32} {n n' : Nat} {t : Option (List (BitVec 8))} (h : Returned m q' n' r t)
    (hin : n' = 0 ∨ q.toNat ≤ q'.toNat ∧ q'.toNat + n' ≤ q.toNat + n) : Returned m q n r t := by
  cases t with
  | none => exact h
  | some t =>
    rcases h with ⟨hr, hne, hstr, hge, hle⟩
    have hlen := List.length_pos_iff.mpr hne
    exact ⟨hr, hne, hstr, by omega, by omega⟩

theorem Returned.congr {m m' : Mem} {r : BitVec 32} {n : Nat} {t : Option (List (BitVec 8))} (h : Returned m q n r t)
    (heq : ∀ tok ∈ t, ∀ j ≤ tok.length, m' (r + BitVec.ofNat 32 j) = m (r + BitVec.ofNat 32 j)) : Returned m' q n r t := by
  cases t with
  | none => exact h
  | some t => exact ⟨h.1, h.2.1, h.2.2.1.congr (heq t rfl), h.2.2.2⟩

theorem StrtokCalls.mono {cts : List (BitVec 32)} {P Q : List (BitVec 32) → State → Prop} (h : StrtokCalls cts saved p s P)
    (hPQ : ∀ rs s, P rs s → Q rs s) : StrtokCalls cts saved p s Q := by
  induction cts generalizing saved p s P Q with
  | nil => exact hPQ [] s h
  | cons ct cts ih => exact StringOps.Ends.mono h fun s' h' => ih h' fun rs s'' => hPQ (s'.ebx :: rs) s''

/-- A call with the string or, for the rest of it, with a null pointer. -/
theorem strtok_call (hfrom : p = q ∧ q ≠ 0 ∨ p = 0 ∧ saved = q) (hrest : Rest s.mem q l)
    (hd : Delims s.mem q l.length ct chars) : (strtok saved p ct).Ends s fun s' => Taken s.mem q chars l s' := by
  obtain ⟨s₁, hs₁⟩ : ∃ s₁, Instr.exec ((strtok saved p ct).load s) (.test .esi) = s₁ := ⟨_, rfl⟩
  have hload : s₁.mem = s.mem ∧ s₁.ebx = saved ∧ s₁.esi = p ∧ s₁.zf = decide (p = 0) := by
    rw [← hs₁]
    exact ⟨rfl, rfl, rfl, State.test_zf _ .esi⟩
  rcases hload with ⟨hmem₁, hebx₁, hesi₁, hzf₁⟩
  refine .op rfl rfl ?_
  rw [hs₁]
  rcases hfrom with ⟨rfl, hne⟩ | ⟨rfl, rfl⟩
  · obtain ⟨-, hstr, hend⟩ := hrest.resolve_left fun h => hne h.1
    rw [← hmem₁] at hstr ⊢
    refine .jump rfl ?_ (strtok_takes hesi₁ hstr (hmem₁ ▸ hd.str) hd.short hne hend)
    exact State.holds_ne_true hzf₁ hne
  · obtain ⟨s₂, hs₂⟩ : ∃ s₂, Instr.exec s₁ (.test .ebx) = s₂ := ⟨_, rfl⟩
    have hsame : s₂.mem = s.mem ∧ s₂.ebx = saved ∧ s₂.esi = 0 ∧ s₂.zf = decide (saved = 0) := by
      rw [← hs₂, ← hebx₁]
      exact ⟨hmem₁, rfl, hesi₁, State.test_zf s₁ .ebx⟩
    rcases hsame with ⟨hmem₂, hebx₂, hesi₂, hzf₂⟩
    refine .pass rfl ?_ (.op rfl rfl ?_)
    · exact State.holds_ne_false hzf₁ rfl
    rw [hs₂]
    rcases hrest with ⟨rfl, rfl⟩ | ⟨hq, hstr, hend⟩
    · -- there is nothing left
      exact .jump rfl (hzf₂.trans (decide_eq_true rfl)) (.halt rfl (.none (Or.inr fun a ha => nomatch ha) hmem₂ hebx₂ hesi₂))
    · obtain ⟨s₃, hs₃⟩ : ∃ s₃, Instr.exec s₂ (.mov .esi .ebx) = s₃ := ⟨_, rfl⟩
      have hmov : s₃.mem = s.mem ∧ s₃.esi = saved := by
        rw [← hs₃]
        exact ⟨hmem₂, hebx₂⟩
      refine .pass rfl (hzf₂.trans (decide_eq_false hq)) (.op rfl rfl ?_)
      rw [hs₃, ← hmov.1]
      rw [← hmov.1] at hstr
      exact strtok_takes hmov.2 hstr (hmov.1 ▸ hd.str) hd.short hq hend

theorem Delims.advance {m m' : Mem} {q' : BitVec 32} {n n' : Nat} (h : Delims m q n ct chars)
    (hframe : ∀ x, Outside q n x → m' x = m x ∧ Outside q' n' x) : Delims m' q' n' ct chars where
  str := h.str.congr fun j hj => (hframe _ (h.outside j hj)).1
  short := h.short
  outside j hj := (hframe _ (h.outside j hj)).2

/-- The calls from one place on. -/
theorem strtok_run {cts : List (BitVec 32)} {delims : List (List (BitVec 8))} (hfrom : p = q ∧ q ≠ 0 ∨ p = 0 ∧ saved = q)
    (hrest : Rest s.mem q l) (hd : List.Forall₂ (Delims s.mem q l.length) cts delims) :
    StrtokCalls cts saved p s fun rs s' => List.Forall₂ (Returned s'.mem q l.length) rs (tokensOf delims l) ∧
      ∀ x, Outside q l.length x → s'.mem x = s.mem x := by
  induction cts generalizing saved p q s l delims with
  | nil =>
    cases hd
    exact ⟨.nil, fun _ _ => rfl⟩
  | cons ct cts ih =>
    cases hd with
    | @cons _ chars _ delims hct hcts =>
      refine StringOps.Ends.mono (strtok_call hfrom hrest hct) fun s₁ htaken => ?_
      obtain ⟨t, l', hadv⟩ := htaken.advance hrest
      refine (ih (Or.inr ⟨rfl, rfl⟩) hadv.rest (hcts.imp fun _ _ hd => hd.advance hadv.frame)).mono fun rs s₂ h => ?_
      rw [hadv.tokens delims]
      refine ⟨.cons ?_ (h.1.imp fun _ _ hr => hr.widen hadv.inside), fun x hx => ?_⟩
      · exact hadv.returned.congr fun tok htok j hj => h.2 _ (hadv.apart tok htok j hj)
      · exact (h.2 x (hadv.frame x hx).2).trans (hadv.frame x hx).1

/-- A string is taken apart into its tokens: the calls return them one after the other, each as a
string of its own in the place where it was, and write to nothing but the string. -/
theorem strtok_splits (s : State) (saved p : BitVec 32) (l : List (BitVec 8)) (cts : List (BitVec 32))
    (delims : List (List (BitVec 8))) (hp : p ≠ 0) (hstr : Str s.mem p l) (hend : p.toNat + l.length < 2 ^ 32)
    (hd : List.Forall₂ (Delims s.mem p l.length) cts delims) :
    StrtokCalls cts saved p s fun rs s' => List.Forall₂ (Returned s'.mem p l.length) rs (tokensOf delims l) ∧
      ∀ x, Outside p l.length x → s'.mem x = s.mem x :=
  strtok_run (Or.inl ⟨rfl, hp⟩) (Or.inr ⟨hp, hstr, hend⟩) hd

/-- `"a,b"` at commas. -/
theorem strtok_splits_comma : StrtokCalls [0x2000, 0x2000] 0 0x1000 (sample [97, 44, 98] [44]) fun rs s' =>
    List.Forall₂ (Returned s'.mem 0x1000 3) rs [some [97], some [98]] ∧
      ∀ x, Outside 0x1000 3 x → s'.mem x = (sample [97, 44, 98] [44]).mem x :=
  strtok_splits (sample [97, 44, 98] [44]) 0 0x1000 [97, 44, 98] [0x2000, 0x2000] [[44], [44]] (by decide) (by decide)
    (by decide) (.cons ⟨by decide, by decide, by decide⟩ (.cons ⟨by decide, by decide, by decide⟩ .nil))

end MockOs.StringH
