import Mathlib.Data.Finset.Card
import Mathlib.Data.Fintype.Basic
import Mathlib.Logic.Function.Basic

/-!
# Copy on write

Address spaces `T` with pages `P` over shared frames `F`. Some frames are counted: their
reference count is the number of spaces that map them, plus one while the system itself
owns them. A page that can be written is mapped by nobody else, so a write changes one
address space only.
-/

namespace MockOs.Cow

variable {T P F V : Type}

/-- The page tables, the write permissions, the reference counts, the frames the system
itself owns and the contents of the frames. -/
structure State (T P F V : Type) where
  pte : T → P → Option F
  wr : T → P → Bool
  rc : F → Nat
  own : F → Bool
  mem : F → V

/-- Changing one cell of a table. -/
def set2 {α : Type} [DecidableEq T] [DecidableEq P] (f : T → P → α) (t : T) (p : P) (x : α) :
    T → P → α :=
  fun t' p' => if t' = t ∧ p' = p then x else f t' p'

section Set2

variable {α : Type} [DecidableEq T] [DecidableEq P] {f : T → P → α} {t t' : T} {p p' : P} {x : α}

@[simp] theorem set2_self : set2 f t p x t p = x := by simp [set2]

theorem set2_ne (h : ¬ (t' = t ∧ p' = p)) : set2 f t p x t' p' = f t' p' := if_neg h

end Set2

open Classical in
/-- The address spaces that map a frame. -/
noncomputable def users [Fintype T] (a : State T P F V) (f : F) : Finset T :=
  Finset.univ.filter fun t => ∃ p, a.pte t p = some f

theorem mem_users [Fintype T] {a : State T P F V} {f : F} {t : T} :
    t ∈ users a f ↔ ∃ p, a.pte t p = some f := by
  simp [users]

/-- The invariant of copy on write. Every address space maps a counted frame at one and the
same page. -/
structure Inv [Fintype T] (counted : F → Prop) (a : State T P F V) : Prop where
  count : ∀ f, counted f → a.rc f = (users a f).card + (a.own f).toNat
  home : ∀ f t p t' p', counted f → a.pte t p = some f → a.pte t' p' = some f → p = p'
  excl : ∀ t p, a.wr t p = true →
    ∃ f, a.pte t p = some f ∧ counted f ∧ ∀ t' p', a.pte t' p' = some f → t' = t
  owned : ∀ f, a.own f = true → counted f ∧ ∀ t p, a.pte t p ≠ some f

section Ops

variable [DecidableEq T] [DecidableEq P] [DecidableEq F]

/-- The system takes a free frame for itself. -/
def alloc (a : State T P F V) (g : F) (v : V) : State T P F V :=
  { a with
    rc := Function.update a.rc g 1
    own := Function.update a.own g true
    mem := Function.update a.mem g v }

/-- Space `c` maps page `p` as space `t` does, with the frame `f`, and neither may write it.
Only counted frames are counted, and only their pages lose the permission. -/
def share (counted : F → Prop) [DecidablePred counted] (a : State T P F V) (t c : T) (p : P) (f : F) :
    State T P F V :=
  { a with
    pte := set2 a.pte c p (some f)
    wr := if counted f then set2 a.wr t p false else a.wr
    rc := if counted f then Function.update a.rc f (a.rc f + 1) else a.rc }

/-- Space `t` gets a copy of its own of page `p`, in the free frame `g`. -/
def split (counted : F → Prop) [DecidablePred counted] (a : State T P F V) (t : T) (p : P) (f g : F) :
    State T P F V :=
  { a with
    pte := set2 a.pte t p (some g)
    wr := set2 a.wr t p true
    rc := Function.update (if counted f then Function.update a.rc f (a.rc f - 1) else a.rc) g 1
    mem := Function.update a.mem g (a.mem f) }

/-- Space `t` may write page `p`. -/
def unprotect (a : State T P F V) (t : T) (p : P) : State T P F V :=
  { a with wr := set2 a.wr t p true }

/-- The frame `f` gets the contents `v`. -/
def write (a : State T P F V) (f : F) (v : V) : State T P F V :=
  { a with mem := Function.update a.mem f v }

/-- Space `c` maps page `p` as space `t` does, if `t` maps it. -/
def sharePage (counted : F → Prop) [DecidablePred counted] (t c : T) (p : P) (a : State T P F V) :
    State T P F V :=
  match a.pte t p with
  | none => a
  | some f => share counted a t c p f

/-- Shares the `n` pages from page `i` on. -/
def shareRange (counted : F → Prop) [DecidablePred counted] (t c : T) : Nat → Nat →
    State T Nat F V → State T Nat F V
  | 0, _, a => a
  | n + 1, i, a => shareRange counted t c n (i + 1) (sharePage counted t c i a)

end Ops

variable [Fintype T] {counted : F → Prop} {a : State T P F V}

/-- A counted frame with count 0 is mapped and owned by nobody. -/
theorem Inv.free (h : Inv counted a) {g : F} (hg : counted g) (h0 : a.rc g = 0) :
    (∀ t p, a.pte t p ≠ some g) ∧ a.own g = false := by
  have hc := h.count g hg
  rw [h0] at hc
  have hcard : (users a g).card = 0 := by omega
  have hown : (a.own g).toNat = 0 := by omega
  refine ⟨fun t p htp => ?_, by simpa using hown⟩
  have hmem : t ∈ users a g := mem_users.mpr ⟨p, htp⟩
  rw [Finset.card_eq_zero.mp hcard] at hmem
  cases hmem

/-- A mapped frame is not owned by the system. -/
theorem Inv.own_eq_false (h : Inv counted a) {t : T} {p : P} {f : F} (hf : a.pte t p = some f) :
    a.own f = false := by
  by_contra hown
  exact (h.owned f (by simpa using hown)).2 t p hf

/-- A counted frame that two spaces map has a count of two at least. -/
theorem Inv.two_le_rc (h : Inv counted a) {t c : T} {p p' : P} {f : F} (hf : counted f) (htc : t ≠ c)
    (ht : a.pte t p = some f) (hc : a.pte c p' = some f) : 2 ≤ a.rc f := by
  have hcard : 1 < (users a f).card :=
    Finset.one_lt_card.mpr ⟨t, mem_users.mpr ⟨p, ht⟩, c, mem_users.mpr ⟨p', hc⟩, htc⟩
  have hcount := h.count f hf
  omega

theorem users_congr {a' : State T P F V} {f : F}
    (h : ∀ t p, a'.pte t p = some f ↔ a.pte t p = some f) : users a' f = users a f := by
  ext t
  simp only [mem_users, h]

/-- The count of a frame is settled by who maps it and whether it is owned. -/
theorem Inv.rc_congr {a' : State T P F V} (h : Inv counted a) (h' : Inv counted a') {f : F} (hf : counted f)
    (hpte : ∀ t p, a'.pte t p = some f ↔ a.pte t p = some f) (hown : a'.own f = a.own f) : a'.rc f = a.rc f := by
  rw [h'.count f hf, h.count f hf, hown, users_congr hpte]

/-- A page that can be written is in a frame with a count of one. -/
theorem Inv.rc_writable (h : Inv counted a) {t : T} {p : P} {f : F} (hwr : a.wr t p = true)
    (hf : a.pte t p = some f) : counted f ∧ a.rc f = 1 := by
  rcases h.excl t p hwr with ⟨f', hf', hcounted, hexcl⟩
  obtain rfl : f = f' := Option.some.inj (hf.symm.trans hf')
  have husers : users a f = {t} := by
    ext t'
    rw [mem_users, Finset.mem_singleton]
    exact ⟨fun ⟨p', hp'⟩ => hexcl t' p' hp', fun heq => ⟨p, by rw [heq]; exact hf⟩⟩
  refine ⟨hcounted, ?_⟩
  rw [h.count f hcounted, husers, h.own_eq_false hf]
  rfl

theorem Inv.alloc [DecidableEq F] (h : Inv counted a) {g : F} (hg : counted g) (h0 : a.rc g = 0)
    (v : V) : Inv counted (Cow.alloc a g v) := by
  rcases h.free hg h0 with ⟨hpte, hown⟩
  refine ⟨fun f hf => ?_, h.home, h.excl, fun f hf => ?_⟩
  · show Function.update a.rc g 1 f = (users a f).card + (Function.update a.own g true f).toNat
    by_cases hfg : f = g
    · subst hfg
      have hc := h.count f hf
      rw [h0, hown] at hc
      simp only [Function.update_self, Bool.toNat_true]
      simp only [Bool.toNat_false] at hc
      omega
    · rw [Function.update_of_ne hfg, Function.update_of_ne hfg, h.count f hf]
  · by_cases hfg : f = g
    · subst hfg
      exact ⟨hg, hpte⟩
    · exact h.owned f (by simpa [Cow.alloc, hfg] using hf)

variable [DecidableEq T] [DecidableEq P] [DecidableEq F] [DecidablePred counted] {t c : T} {p : P}
  {f g : F}

omit [Fintype T] [DecidableEq F] [DecidablePred counted] in
/-- The tables after one more page is mapped. -/
theorem set2_some (hc : a.pte c p = none) {t' : T} {p' : P} {f' : F} :
    set2 a.pte c p (some f) t' p' = some f' ↔
      (t' = c ∧ p' = p ∧ f' = f) ∨ a.pte t' p' = some f' := by
  by_cases htp : t' = c ∧ p' = p
  · rcases htp with ⟨rfl, rfl⟩
    simp [hc, eq_comm]
  · rw [set2_ne htp]
    refine ⟨Or.inr, ?_⟩
    rintro (⟨h1, h2, -⟩ | h')
    · exact absurd ⟨h1, h2⟩ htp
    · exact h'

omit [Fintype T] in
theorem share_wr (t' : T) (p' : P) : (Cow.share counted a t c p f).wr t' p' =
    if counted f ∧ t' = t ∧ p' = p then false else a.wr t' p' := by
  by_cases hcf : counted f
  · simp only [Cow.share, hcf, if_true, true_and, set2]
  · simp only [Cow.share, hcf, if_false, false_and]

omit [Fintype T] in
theorem share_rc (g : F) : (Cow.share counted a t c p f).rc g =
    if counted f ∧ g = f then a.rc g + 1 else a.rc g := by
  by_cases hcf : counted f
  · by_cases hgf : g = f
    · subst hgf
      simp [Cow.share, hcf]
    · simp [Cow.share, hcf, hgf]
  · simp [Cow.share, hcf]

theorem Inv.share (h : Inv counted a) (hf : a.pte t p = some f) (hc : a.pte c p = none) :
    Inv counted (Cow.share counted a t c p f) := by
  have hpte : ∀ {t' p' f'}, (Cow.share counted a t c p f).pte t' p' = some f' ↔
      (t' = c ∧ p' = p ∧ f' = f) ∨ a.pte t' p' = some f' := set2_some hc
  refine ⟨fun g hg => ?_, fun g t1 p1 t2 p2 hg h1 h2 => ?_, fun t' p' hwr => ?_, fun g hg => ?_⟩
  · by_cases hgf : g = f
    · subst hgf
      -- space `c` did not map the frame: it could only have done so at page `p`
      have hcu : c ∉ users a g := by
        rintro hcu
        rcases mem_users.mp hcu with ⟨p', hp'⟩
        rw [h.home g c p' t p hg hp' hf, hc] at hp'
        cases hp'
      have husers : users (Cow.share counted a t c p g) g = insert c (users a g) := by
        ext t'
        simp only [mem_users, hpte, Finset.mem_insert]
        constructor
        · rintro ⟨p', ⟨rfl, -, -⟩ | hp'⟩
          · exact Or.inl rfl
          · exact Or.inr ⟨p', hp'⟩
        · rintro (rfl | ⟨p', hp'⟩)
          · exact ⟨p, Or.inl ⟨rfl, rfl, trivial⟩⟩
          · exact ⟨p', Or.inr hp'⟩
      rw [husers, Finset.card_insert_of_notMem hcu, share_rc, if_pos ⟨hg, rfl⟩, h.count g hg]
      show _ = (users a g).card + 1 + (a.own g).toNat
      omega
    · have husers : users (Cow.share counted a t c p f) g = users a g := users_congr fun t' p' => by
        rw [hpte]
        exact or_iff_right fun h' => hgf h'.2.2
      rw [husers, share_rc, if_neg fun h' => hgf h'.2]
      exact h.count g hg
  · rcases hpte.mp h1 with ⟨-, rfl, rfl⟩ | h1'
    · rcases hpte.mp h2 with ⟨-, rfl, -⟩ | h2'
      · rfl
      · exact h.home g t p1 t2 p2 hg hf h2'
    · rcases hpte.mp h2 with ⟨-, rfl, rfl⟩ | h2'
      · exact h.home g t1 p1 t p2 hg h1' hf
      · exact h.home g t1 p1 t2 p2 hg h1' h2'
  · -- a page that is still writable does not map `f`
    have hold : a.wr t' p' = true ∧ ¬ (counted f ∧ t' = t ∧ p' = p) := by
      rw [share_wr] at hwr
      split at hwr
      · cases hwr
      · rename_i hne
        exact ⟨hwr, hne⟩
    rcases h.excl t' p' hold.1 with ⟨g, hg, hcg, honly⟩
    refine ⟨g, hpte.mpr (Or.inr hg), hcg, fun t2 p2 h2 => ?_⟩
    rcases hpte.mp h2 with ⟨-, -, rfl⟩ | h2'
    · exact absurd ⟨hcg, (honly t p hf).symm, h.home g t' p' t p hcg hg hf⟩ hold.2
    · exact honly t2 p2 h2'
  · refine ⟨(h.owned g hg).1, fun t' p' htp => ?_⟩
    rcases hpte.mp htp with ⟨-, -, rfl⟩ | htp'
    · exact (h.owned g hg).2 t p hf
    · exact (h.owned g hg).2 t' p' htp'

omit [Fintype T] in
theorem split_rc (k : F) : (Cow.split counted a t p f g).rc k =
    if k = g then 1 else if counted f ∧ k = f then a.rc k - 1 else a.rc k := by
  by_cases hkg : k = g
  · subst hkg
    simp [Cow.split]
  · by_cases hcf : counted f
    · by_cases hkf : k = f
      · subst hkf
        simp [Cow.split, hkg, hcf]
      · simp [Cow.split, hkg, hcf, hkf]
    · simp [Cow.split, hkg, hcf]

omit [Fintype T] in
theorem split_pte {t' : T} {p' : P} {f' : F} : (Cow.split counted a t p f g).pte t' p' = some f' ↔
    (t' = t ∧ p' = p ∧ f' = g) ∨ (¬ (t' = t ∧ p' = p) ∧ a.pte t' p' = some f') := by
  by_cases htp : t' = t ∧ p' = p
  · rcases htp with ⟨rfl, rfl⟩
    simp [Cow.split, eq_comm]
  · simp only [Cow.split, set2_ne htp]
    refine ⟨fun h' => Or.inr ⟨htp, h'⟩, ?_⟩
    rintro (⟨h1, h2, -⟩ | ⟨-, h'⟩)
    · exact absurd ⟨h1, h2⟩ htp
    · exact h'

/-- The new frame has one user. -/
theorem split_users_new (hnone : ∀ t p, a.pte t p ≠ some g) : users (Cow.split counted a t p f g) g = {t} := by
  ext t'
  simp only [mem_users, split_pte, Finset.mem_singleton]
  constructor
  · rintro ⟨p', ⟨rfl, -, -⟩ | ⟨-, hp'⟩⟩
    · rfl
    · exact absurd hp' (hnone t' p')
  · rintro rfl
    exact ⟨p, Or.inl ⟨rfl, rfl, trivial⟩⟩

/-- The old frame loses it. -/
theorem Inv.split_users_old (h : Inv counted a) (hf : a.pte t p = some f) (hcf : counted f) (hfg : f ≠ g) :
    users (Cow.split counted a t p f g) f = (users a f).erase t := by
  ext t'
  simp only [mem_users, split_pte, Finset.mem_erase]
  constructor
  · rintro ⟨p', ⟨-, -, rfl⟩ | ⟨hne, hp'⟩⟩
    · exact absurd rfl hfg
    · refine ⟨?_, p', hp'⟩
      rintro rfl
      exact hne ⟨rfl, h.home f t' p' t' p hcf hp' hf⟩
  · rintro ⟨hne, p', hp'⟩
    exact ⟨p', Or.inr ⟨fun h' => hne h'.1, hp'⟩⟩

/-- The other frames keep theirs. -/
theorem split_users_other {k : F} (hf : a.pte t p = some f) (hkg : k ≠ g) (hkf : k ≠ f) :
    users (Cow.split counted a t p f g) k = users a k := by
  refine users_congr fun t' p' => ?_
  rw [split_pte]
  constructor
  · rintro (⟨-, -, rfl⟩ | ⟨-, h'⟩)
    · exact absurd rfl hkg
    · exact h'
  · intro h'
    refine Or.inr ⟨?_, h'⟩
    rintro ⟨rfl, rfl⟩
    exact hkf (Option.some.inj (h'.symm.trans hf))

theorem Inv.split_count (h : Inv counted a) (hf : a.pte t p = some f) (hg : counted g) (h0 : a.rc g = 0) {k : F}
    (hk : counted k) : (Cow.split counted a t p f g).rc k =
      (users (Cow.split counted a t p f g) k).card + (a.own k).toNat := by
  rcases h.free hg h0 with ⟨hnone, hgown⟩
  rw [split_rc]
  by_cases hkg : k = g
  · rw [if_pos hkg, hkg, split_users_new hnone, Finset.card_singleton, hgown]
    rfl
  · rw [if_neg hkg]
    by_cases hkf : k = f
    · subst hkf
      have hmem : t ∈ users a k := mem_users.mpr ⟨p, hf⟩
      have hpos : 0 < (users a k).card := Finset.card_pos.mpr ⟨t, hmem⟩
      rw [if_pos ⟨hk, rfl⟩, h.split_users_old hf hk hkg, Finset.card_erase_of_mem hmem, h.count k hk]
      omega
    · rw [if_neg fun h' => hkf h'.2, split_users_other hf hkg hkf]
      exact h.count k hk

theorem Inv.split (h : Inv counted a) (hf : a.pte t p = some f) (hg : counted g)
    (h0 : a.rc g = 0) : Inv counted (Cow.split counted a t p f g) := by
  rcases h.free hg h0 with ⟨hnone, hgown⟩
  refine ⟨fun k hk => h.split_count hf hg h0 hk, fun k t1 p1 t2 p2 hk h1 h2 => ?_, fun t' p' hwr => ?_, fun k hk => ?_⟩
  · rcases split_pte.mp h1 with ⟨-, rfl, rfl⟩ | ⟨-, h1'⟩
    · rcases split_pte.mp h2 with ⟨-, rfl, -⟩ | ⟨-, h2'⟩
      · rfl
      · exact absurd h2' (hnone t2 p2)
    · rcases split_pte.mp h2 with ⟨-, rfl, rfl⟩ | ⟨-, h2'⟩
      · exact absurd h1' (hnone t1 p1)
      · exact h.home k t1 p1 t2 p2 hk h1' h2'
  · by_cases htp : t' = t ∧ p' = p
    · rcases htp with ⟨rfl, rfl⟩
      refine ⟨g, split_pte.mpr (Or.inl ⟨rfl, rfl, rfl⟩), hg, fun t2 p2 h2 => ?_⟩
      rcases split_pte.mp h2 with ⟨rfl, -, -⟩ | ⟨-, h2'⟩
      · rfl
      · exact absurd h2' (hnone t2 p2)
    · have hwr' : a.wr t' p' = true := by
        simpa only [Cow.split, set2_ne htp] using hwr
      rcases h.excl t' p' hwr' with ⟨k, hk, hck, honly⟩
      refine ⟨k, split_pte.mpr (Or.inr ⟨htp, hk⟩), hck, fun t2 p2 h2 => ?_⟩
      rcases split_pte.mp h2 with ⟨-, -, rfl⟩ | ⟨-, h2'⟩
      · exact absurd hk (hnone t' p')
      · exact honly t2 p2 h2'
  · refine ⟨(h.owned k hk).1, fun t' p' htp => ?_⟩
    rcases split_pte.mp htp with ⟨-, -, rfl⟩ | ⟨-, htp'⟩
    · have hk' : a.own k = true := hk
      rw [hgown] at hk'
      cases hk'
    · exact (h.owned k hk).2 t' p' htp'

omit [DecidableEq F] [DecidablePred counted] in
theorem Inv.unprotect (h : Inv counted a) (hf : a.pte t p = some f) (hcf : counted f)
    (h1 : a.rc f = 1) : Inv counted (Cow.unprotect a t p) := by
  refine ⟨h.count, h.home, fun t' p' hwr => ?_, h.owned⟩
  by_cases htp : t' = t ∧ p' = p
  · rcases htp with ⟨rfl, rfl⟩
    refine ⟨f, hf, hcf, fun t2 p2 h2 => ?_⟩
    have hc := h.count f hcf
    rw [h1, h.own_eq_false hf] at hc
    rcases Finset.card_eq_one.mp (by simpa using hc.symm) with ⟨t0, ht0⟩
    have h3 : t' ∈ users a f := mem_users.mpr ⟨p', hf⟩
    have h4 : t2 ∈ users a f := mem_users.mpr ⟨p2, h2⟩
    rw [ht0, Finset.mem_singleton] at h3 h4
    rw [h3, h4]
  · exact h.excl t' p' (by simpa only [Cow.unprotect, set2_ne htp] using hwr)

/-! ## Sharing a range of pages -/

omit [Fintype T] in
/-- What `sharePage` does to the tables: the page of `c` is that of `t`. -/
theorem sharePage_pte (hc : a.pte c p = none) (t' : T) (p' : P) :
    (sharePage counted t c p a).pte t' p' = if t' = c ∧ p' = p then a.pte t p else a.pte t' p' := by
  cases hf : a.pte t p with
  | none =>
    simp only [sharePage, hf]
    split
    · rename_i h
      rw [h.1, h.2, hc]
    · rfl
  | some f =>
    simp only [sharePage, hf, share, set2]

theorem Inv.sharePage (h : Inv counted a) (hc : a.pte c p = none) :
    Inv counted (Cow.sharePage counted t c p a) := by
  cases hf : a.pte t p with
  | none =>
    simp only [Cow.sharePage, hf]
    exact h
  | some f =>
    simp only [Cow.sharePage, hf]
    exact h.share hf hc

/-- Sharing neither frees a frame nor takes a free one. -/
theorem Inv.sharePage_rc (h : Inv counted a) (g : F) :
    (Cow.sharePage counted t c p a).rc g = 0 ↔ a.rc g = 0 := by
  cases hf : a.pte t p with
  | none => simp only [Cow.sharePage, hf]
  | some f =>
    simp only [Cow.sharePage, hf, share_rc]
    by_cases hgf : counted f ∧ g = f
    · rcases hgf with ⟨hcf, rfl⟩
      rw [if_pos ⟨hcf, rfl⟩]
      refine ⟨fun h0 => by omega, fun h0 => ?_⟩
      exact absurd hf ((h.free hcf h0).1 t p)
    · rw [if_neg hgf]

omit [Fintype T] in
theorem sharePage_own (t c : T) (p : P) (a : State T P F V) :
    (sharePage counted t c p a).own = a.own := by
  unfold sharePage
  split <;> rfl

omit [Fintype T] in
theorem sharePage_mem (t c : T) (p : P) (a : State T P F V) :
    (sharePage counted t c p a).mem = a.mem := by
  unfold sharePage
  split <;> rfl

omit [Fintype T] in
/-- Only permissions of the space that is shared are lost. -/
theorem sharePage_wr (t' : T) (p' : P) : (sharePage counted t c p a).wr t' p' = a.wr t' p' ∨
    (t' = t ∧ (sharePage counted t c p a).wr t' p' = false) := by
  unfold sharePage
  split
  · exact Or.inl rfl
  · rename_i f _
    rw [share_wr]
    by_cases hin : counted f ∧ t' = t ∧ p' = p
    · rw [if_pos hin]
      exact Or.inr ⟨hin.2.1, rfl⟩
    · rw [if_neg hin]
      exact Or.inl rfl

section ShareRange

variable {a : State T Nat F V} {n i : Nat}

omit [Fintype T] in
theorem shareRange_mem (n i : Nat) (a : State T Nat F V) :
    (shareRange counted t c n i a).mem = a.mem := by
  induction n generalizing i a with
  | zero => rfl
  | succ n ih => rw [shareRange, ih, sharePage_mem]

omit [Fintype T] in
theorem shareRange_own (n i : Nat) (a : State T Nat F V) :
    (shareRange counted t c n i a).own = a.own := by
  induction n generalizing i a with
  | zero => rfl
  | succ n ih => rw [shareRange, ih, sharePage_own]

omit [Fintype T] in
theorem sharePage_pte_later (hc : ∀ p, i ≤ p → a.pte c p = none) (p : Nat) (hp : i + 1 ≤ p) :
    (sharePage counted t c i a).pte c p = none := by
  rw [sharePage_pte (hc i (Nat.le_refl i)), if_neg (by omega)]
  exact hc p (by omega)

omit [Fintype T] in
theorem shareRange_pte (hct : c ≠ t) (hc : ∀ p, i ≤ p → a.pte c p = none) (t' : T) (p' : Nat) :
    (shareRange counted t c n i a).pte t' p' =
      if t' = c ∧ i ≤ p' ∧ p' < i + n then a.pte t p' else a.pte t' p' := by
  induction n generalizing i a with
  | zero =>
    rw [if_neg (by omega)]
    rfl
  | succ n ih =>
    have hpage : ∀ t' p', (sharePage counted t c i a).pte t' p' =
        if t' = c ∧ p' = i then a.pte t i else a.pte t' p' := sharePage_pte (hc i (Nat.le_refl i))
    have ht : (sharePage counted t c i a).pte t p' = a.pte t p' := by
      rw [hpage, if_neg fun h => hct h.1.symm]
    rw [shareRange, ih (sharePage_pte_later hc), ht]
    by_cases hin : t' = c ∧ i + 1 ≤ p' ∧ p' < i + 1 + n
    · rw [if_pos hin, if_pos ⟨hin.1, by omega, by omega⟩]
    · rw [if_neg hin, hpage]
      by_cases hi : t' = c ∧ p' = i
      · rw [if_pos hi, if_pos ⟨hi.1, by omega, by omega⟩, hi.2]
      · rw [if_neg hi, if_neg]
        rintro ⟨h1, h2, h3⟩
        have hne : p' ≠ i := fun h4 => hi ⟨h1, h4⟩
        exact hin ⟨h1, by omega, by omega⟩

omit [Fintype T] in
theorem shareRange_wr (t' : T) (p' : Nat) : (shareRange counted t c n i a).wr t' p' = a.wr t' p' ∨
    (t' = t ∧ (shareRange counted t c n i a).wr t' p' = false) := by
  induction n generalizing i a with
  | zero => exact Or.inl rfl
  | succ n ih =>
    rw [shareRange]
    rcases ih with hsame | hlost
    · rw [hsame]
      exact sharePage_wr t' p'
    · exact Or.inr hlost

theorem Inv.shareRange (h : Inv counted a) (hc : ∀ p, i ≤ p → a.pte c p = none) :
    Inv counted (Cow.shareRange counted t c n i a) := by
  induction n generalizing i a with
  | zero => exact h
  | succ n ih => exact ih (h.sharePage (hc i (Nat.le_refl i))) (sharePage_pte_later hc)

theorem Inv.shareRange_rc (h : Inv counted a) (hc : ∀ p, i ≤ p → a.pte c p = none) (g : F) :
    (Cow.shareRange counted t c n i a).rc g = 0 ↔ a.rc g = 0 := by
  induction n generalizing i a with
  | zero => rfl
  | succ n ih =>
    rw [Cow.shareRange, ih (h.sharePage (hc i (Nat.le_refl i))) (sharePage_pte_later hc),
      h.sharePage_rc]

end ShareRange

/-! ## Isolation -/

/-- Every space sees its own memory `arr`. -/
def Agrees (a : State T P F V) (arr : T → P → V) : Prop :=
  ∀ t p f, a.pte t p = some f → a.mem f = arr t p

variable {arr : T → P → V}

omit [Fintype T] [DecidableEq T] [DecidableEq P] [DecidablePred counted] in
/-- A frame that no space maps may hold anything. -/
theorem Agrees.alloc (h : Agrees a arr) (hg : ∀ t p, a.pte t p ≠ some g) (v : V) :
    Agrees (Cow.alloc a g v) arr := by
  intro t p f hf
  have hfg : f ≠ g := by
    rintro rfl
    exact hg t p hf
  show Function.update a.mem g v f = arr t p
  rw [Function.update_of_ne hfg]
  exact h t p f hf

omit [Fintype T] in
/-- A space that gets all pages of another one sees the memory of that one. -/
theorem Agrees.shareRange {a : State T Nat F V} {arr : T → Nat → V} {n i : Nat} (h : Agrees a arr)
    (hct : c ≠ t) (hc : ∀ p, a.pte c p = none) :
    Agrees (Cow.shareRange counted t c n i a) (Function.update arr c (arr t)) := by
  intro t' p f hf
  rw [shareRange_pte hct fun p _ => hc p] at hf
  rw [shareRange_mem]
  by_cases htc : t' = c
  · subst htc
    rw [Function.update_self]
    split at hf
    · exact h t p f hf
    · rw [hc p] at hf
      cases hf
  · rw [if_neg fun hin => htc hin.1] at hf
    rw [Function.update_of_ne htc]
    exact h t' p f hf

omit [Fintype T] in
theorem Agrees.split (h : Agrees a arr) (hf : a.pte t p = some f)
    (hg : ∀ t p, a.pte t p ≠ some g) : Agrees (Cow.split counted a t p f g) arr := by
  intro t' p' k hk
  show Function.update a.mem g (a.mem f) k = _
  by_cases htp : t' = t ∧ p' = p
  · rcases htp with ⟨rfl, rfl⟩
    obtain rfl : g = k := by simpa [Cow.split] using hk
    rw [Function.update_self]
    exact h t' p' f hf
  · have hk' : a.pte t' p' = some k := by simpa only [Cow.split, set2_ne htp] using hk
    have hkg : k ≠ g := by
      rintro rfl
      exact hg t' p' hk'
    rw [Function.update_of_ne hkg]
    exact h t' p' k hk'

omit [DecidablePred counted] in
/-- A write to a page that may be written is seen by one space only. -/
theorem Agrees.write (h : Agrees a arr) (hinv : Inv counted a) (hwr : a.wr t p = true)
    (hf : a.pte t p = some f) (v : V) :
    Agrees (Cow.write a f v) (set2 arr t p v) := by
  rcases hinv.excl t p hwr with ⟨f', hf', hcf, honly⟩
  obtain rfl : f = f' := Option.some.inj (hf.symm.trans hf')
  intro t' p' g hg
  have hg' : a.pte t' p' = some g := hg
  show Function.update a.mem f v g = _
  by_cases hgf : g = f
  · subst hgf
    rw [Function.update_self, honly t' p' hg', hinv.home g t' p' t p hcf hg' hf, set2_self]
  · rw [Function.update_of_ne hgf, set2_ne]
    · exact h t' p' g hg'
    · rintro ⟨rfl, rfl⟩
      exact hgf (Option.some.inj (hg'.symm.trans hf))

end MockOs.Cow
