import Mathlib.Data.List.Basic
import Mathlib.Data.List.Nodup

/-!
# Linked lists held in pointer fields

A list that exists only as pointer fields of its nodes is described by the list of
nodes a reader of the pointers meets. `Chain` is the singly linked, NULL-terminated
form, `DSeg` the doubly linked segment from which the two closed forms are built: the
NULL-terminated `DChain` and the circular `Ring`. The update lemmas take the new
pointer fields pointwise on the nodes of the list, so they apply to any store whose
writes can be read back.
-/

namespace MockOs.Links

variable {α : Type} {next prev next' prev' : α → Option α}

/-- Reading `next` from `p` visits `l` and ends in NULL. -/
def Chain (next : α → Option α) : Option α → List α → Prop
  | p, [] => p = none
  | p, a :: l => p = some a ∧ Chain next (next a) l

@[simp] theorem chain_nil {p : Option α} : Chain next p [] ↔ p = none := Iff.rfl

theorem Chain.congr {l : List α} {p : Option α} (h : Chain next p l)
    (heq : ∀ a ∈ l, next' a = next a) : Chain next' p l := by
  induction l generalizing p with
  | nil => exact h
  | cons a l ih =>
    obtain ⟨rfl, hl⟩ := h
    refine ⟨rfl, ?_⟩
    rw [heq a (by simp)]
    exact ih hl (fun b hb => heq b (List.mem_cons_of_mem _ hb))

theorem Chain.head_eq {l : List α} {p : Option α} (h : Chain next p l) : p = l.head? := by
  cases l with
  | nil => exact h
  | cons a l => exact h.1

/-- Doubly linked segment. `p` points at its first node and `pr` is what that node's back
pointer holds; `q` is what the last node's forward pointer holds and `qr` points at the
last node. The empty segment passes both pairs through. -/
def DSeg (next prev : α → Option α) (p pr : Option α) : List α → Option α → Option α → Prop
  | [], q, qr => p = q ∧ pr = qr
  | a :: l, q, qr => p = some a ∧ prev a = pr ∧ DSeg next prev (next a) (some a) l q qr

@[simp] theorem dSeg_nil {p pr q qr : Option α} :
    DSeg next prev p pr [] q qr ↔ p = q ∧ pr = qr := Iff.rfl

@[simp] theorem dSeg_cons {p pr q qr : Option α} {a : α} {l : List α} :
    DSeg next prev p pr (a :: l) q qr ↔
      p = some a ∧ prev a = pr ∧ DSeg next prev (next a) (some a) l q qr := Iff.rfl

theorem dSeg_append {p pr q qr : Option α} {l m : List α} :
    DSeg next prev p pr (l ++ m) q qr ↔
      ∃ r rr, DSeg next prev p pr l r rr ∧ DSeg next prev r rr m q qr := by
  induction l generalizing p pr with
  | nil => simp
  | cons a l ih =>
    simp only [List.cons_append, dSeg_cons, ih]
    constructor
    · rintro ⟨hp, hpr, r, rr, h⟩
      exact ⟨r, rr, ⟨hp, hpr, h.1⟩, h.2⟩
    · rintro ⟨r, rr, ⟨hp, hpr, h⟩, h'⟩
      exact ⟨hp, hpr, r, rr, h, h'⟩

theorem DSeg.first {p pr q qr : Option α} {l : List α} (h : DSeg next prev p pr l q qr) :
    p = l.head?.or q := by
  cases l with
  | nil => simpa using h.1
  | cons a l => simpa using h.1

theorem DSeg.last {p pr q qr : Option α} {l : List α} (h : DSeg next prev p pr l q qr) :
    qr = l.getLast?.or pr := by
  induction l generalizing p pr with
  | nil => simpa using h.2.symm
  | cons a l ih =>
    rw [ih h.2.2]
    cases l with
    | nil => simp
    | cons b l => simp [List.getLast?_eq_some_getLast]

theorem DSeg.congr {p pr q qr : Option α} {l : List α} (h : DSeg next prev p pr l q qr)
    (hn : ∀ a ∈ l, next' a = next a) (hp : ∀ a ∈ l, prev' a = prev a) :
    DSeg next' prev' p pr l q qr := by
  induction l generalizing p pr with
  | nil => exact h
  | cons a l ih =>
    obtain ⟨rfl, hpr, hl⟩ := h
    refine ⟨rfl, (hp a (by simp)).trans hpr, ?_⟩
    rw [hn a (by simp)]
    exact ih hl (fun b hb => hn b (List.mem_cons_of_mem _ hb))
      (fun b hb => hp b (List.mem_cons_of_mem _ hb))

theorem DSeg.chain {p pr qr : Option α} {l : List α} (h : DSeg next prev p pr l none qr) :
    Chain next p l := by
  induction l generalizing p pr with
  | nil => exact h.1
  | cons a l ih => exact ⟨h.1, ih h.2.2⟩

/-- NULL-terminated doubly linked list with first node `p`. -/
def DChain (next prev : α → Option α) (p : Option α) (l : List α) : Prop :=
  DSeg next prev p none l none l.getLast?

theorem DSeg.dChain {p qr : Option α} {l : List α} (h : DSeg next prev p none l none qr) :
    DChain next prev p l := by
  have := h.last
  simp only [Option.or_none] at this
  rw [this] at h
  exact h

theorem DChain.head_eq {p : Option α} {l : List α} (h : DChain next prev p l) : p = l.head? :=
  (DSeg.chain h).head_eq

/-- The links of a node inside a chain are its neighbours. -/
theorem DChain.links {p : Option α} {b : α} {l m : List α}
    (h : DChain next prev p (l ++ b :: m)) : next b = m.head? ∧ prev b = l.getLast? := by
  obtain ⟨r, rr, hl, -, rfl, hm⟩ := dSeg_append.mp h
  exact ⟨by simpa using hm.first, by simpa using hl.last⟩

theorem DChain.congr {p : Option α} {l : List α} (h : DChain next prev p l)
    (hn : ∀ a ∈ l, next' a = next a) (hp : ∀ a ∈ l, prev' a = prev a) :
    DChain next' prev' p l :=
  DSeg.congr h hn hp

/-- Circular doubly linked list, written from its first node. -/
def Ring (next prev : α → Option α) (l : List α) : Prop :=
  l ≠ [] ∧ DSeg next prev l.head? l.getLast? l l.head? l.getLast?

theorem ring_singleton {b : α} : Ring next prev [b] ↔ next b = some b ∧ prev b = some b := by
  simp only [Ring, ne_eq, List.cons_ne_self, not_false_eq_true, List.head?_cons,
    List.getLast?_singleton, dSeg_cons, dSeg_nil, and_true, true_and]
  exact And.comm

/-- The links of the entry of a ring: the node before it is the last one. -/
theorem Ring.entry {b : α} {l : List α} (h : Ring next prev (b :: l)) :
    prev b = (b :: l).getLast? ∧ next b = (l ++ [b]).head? := by
  obtain ⟨-, -, hprev, hseg⟩ := h
  refine ⟨hprev, ?_⟩
  rw [hseg.first]
  cases l with
  | nil => rfl
  | cons c l => rfl

theorem Ring.congr {l : List α} (h : Ring next prev l) (hn : ∀ a ∈ l, next' a = next a)
    (hp : ∀ a ∈ l, prev' a = prev a) : Ring next' prev' l :=
  ⟨h.1, h.2.congr hn hp⟩

/-- Where a ring is entered does not matter. -/
theorem Ring.rotate {l m : List α} (h : Ring next prev (l ++ m)) : Ring next prev (m ++ l) := by
  obtain ⟨hne, hseg⟩ := h
  cases hl : l with
  | nil => subst hl; simpa [Ring] using And.intro hne hseg
  | cons a l' =>
    cases hm : m with
    | nil => subst hm; rw [hl] at hne hseg; simpa [Ring] using And.intro hne hseg
    | cons b m' =>
      rw [← hl, ← hm]
      have hmh : m.head? = some b := by simp [hm]
      obtain ⟨r, rr, h1, h2⟩ := dSeg_append.mp hseg
      have hr : r = m.head? := by rw [h2.first, hmh]; rfl
      have hrr : rr = l.getLast? := by
        rw [h1.last]
        simp [hl, List.getLast?_eq_some_getLast]
      have hmlast : (m ++ l).getLast? = l.getLast? := by
        simp [hl, List.getLast?_eq_some_getLast]
      have hllast : (l ++ m).getLast? = m.getLast? := by
        simp [hm, List.getLast?_eq_some_getLast]
      have hlm : (l ++ m).head? = l.head? := by simp [hl]
      have hml : (m ++ l).head? = m.head? := by simp [hm]
      rw [hlm, hllast] at h1 h2
      refine ⟨by simp [hm], ?_⟩
      rw [hml, hmlast]
      subst hr hrr
      exact dSeg_append.mpr ⟨_, _, h2, h1⟩

section Updates

variable [DecidableEq α]

/-- Writing `q'` into the forward pointer of the last node retargets the end of a segment. -/
theorem DSeg.setEnd {p pr q qr q' : Option α} {l : List α} (h : DSeg next prev p pr l q qr)
    (hnd : l.Nodup) (hn : ∀ a ∈ l, next' a = if qr = some a then q' else next a)
    (hp : ∀ a ∈ l, prev' a = prev a) :
    DSeg next' prev' (l.head?.or q') pr l q' qr := by
  induction l generalizing p pr with
  | nil => simp [h.2]
  | cons a l ih =>
    obtain ⟨rfl, hpr, hl⟩ := h
    have ha := hn a (by simp)
    refine ⟨by simp, (hp a (by simp)).trans hpr, ?_⟩
    have hrest := ih hl (List.nodup_cons.mp hnd).2
      (fun b hb => hn b (List.mem_cons_of_mem _ hb))
      (fun b hb => hp b (List.mem_cons_of_mem _ hb))
    have hlast := hl.last
    cases l with
    | nil => simp [ha, hlast]
    | cons b l =>
      -- the last node lies in the tail, so `a` keeps its forward pointer
      have hne : qr ≠ some a := by
        intro hqa
        have hmem : a ∈ b :: l := by
          apply List.mem_of_getLast?
          rw [← hqa, hlast]
          cases hg : (b :: l).getLast? with
          | none => simp at hg
          | some c => simp
        exact (List.nodup_cons.mp hnd).1 hmem
      rw [ha, if_neg hne, hl.1]
      exact hrest

/-- Writing `pr'` into the back pointer of the first node retargets the start of a segment. -/
theorem DSeg.setStart {p pr q qr pr' : Option α} {l : List α} (h : DSeg next prev p pr l q qr)
    (hnd : l.Nodup) (hn : ∀ a ∈ l, next' a = next a)
    (hp : ∀ a ∈ l, prev' a = if p = some a then pr' else prev a) :
    DSeg next' prev' p pr' l q (l.getLast?.or pr') := by
  cases l with
  | nil => simpa using h.1
  | cons a l =>
    obtain ⟨rfl, -, hl⟩ := h
    refine ⟨rfl, by simp [hp a (by simp)], ?_⟩
    have hlast := hl.last
    have hqr : (a :: l).getLast?.or pr' = qr := by
      rw [hlast]
      cases l with
      | nil => simp
      | cons b l => simp [List.getLast?_eq_some_getLast]
    rw [hn a (by simp), hqr]
    apply hl.congr (fun b hb => hn b (List.mem_cons_of_mem _ hb))
    intro b hb
    have hne : a ≠ b := fun hab => (List.nodup_cons.mp hnd).1 (hab ▸ hb)
    simp [hp b (List.mem_cons_of_mem _ hb), hne]

/-- Unlinking `b`: its neighbours are joined and the head moves on if it was `b`. -/
theorem DChain.remove {p : Option α} {b : α} {l m : List α}
    (h : DChain next prev p (l ++ b :: m)) (hnd : (l ++ b :: m).Nodup)
    (hn : ∀ a ∈ l ++ m, next' a = if prev b = some a then next b else next a)
    (hp : ∀ a ∈ l ++ m, prev' a = if next b = some a then prev b else prev a) :
    DChain next' prev' (if p = some b then next b else p) (l ++ m) := by
  obtain ⟨r, rr, hl, rfl, rfl, hm⟩ := dSeg_append.mp h
  have hndl : l.Nodup := (List.nodup_append.mp hnd).1
  have hndm : m.Nodup := (List.nodup_cons.mp (List.nodup_append.mp hnd).2.1).2
  have hdisj : ∀ a ∈ l, ∀ c ∈ m, a ≠ c := fun a ha c hc =>
    (List.nodup_append.mp hnd).2.2 a ha c (List.mem_cons_of_mem _ hc)
  have hbl : b ∉ l := fun hb => (List.nodup_append.mp hnd).2.2 b hb b (by simp) rfl
  have hprev : prev b = l.getLast? := by simpa using hl.last
  have hnext : next b = m.head? := by simpa using hm.first
  have hl' : DSeg next' prev' (l.head?.or (next b)) none l (next b) (prev b) := by
    apply hl.setEnd hndl (fun a ha => hn a (List.mem_append_left _ ha))
    intro a ha
    rw [hp a (List.mem_append_left _ ha), if_neg]
    intro hna
    rw [hnext] at hna
    exact hdisj a ha a (List.mem_of_head? hna) rfl
  have hm' : DSeg next' prev' (next b) (prev b) m none (m.getLast?.or (prev b)) := by
    apply hm.setStart hndm
    · intro a ha
      rw [hn a (List.mem_append_right _ ha), if_neg]
      intro hpa
      rw [hprev] at hpa
      exact hdisj a (List.mem_of_getLast? hpa) a ha rfl
    · exact fun a ha => hp a (List.mem_append_right _ ha)
  have hhead : (if p = some b then next b else p) = l.head?.or (next b) := by
    have hfirst := hl.first
    cases l with
    | nil => simp [hfirst]
    | cons a l =>
      have : a ≠ b := fun hab => hbl (by simp [hab])
      simp [hfirst, this]
  rw [hhead]
  exact (dSeg_append.mpr ⟨_, _, hl', hm'⟩).dChain

/-- Pushing `b` in front. -/
theorem DChain.push {p : Option α} {b : α} {l : List α} (h : DChain next prev p l)
    (hnd : l.Nodup) (hn : ∀ a ∈ l, next' a = next a)
    (hp : ∀ a ∈ l, prev' a = if p = some a then some b else prev a)
    (hnb : next' b = p) (hpb : prev' b = none) :
    DChain next' prev' (some b) (b :: l) := by
  have hl : DSeg next' prev' p (some b) l none (l.getLast?.or (some b)) :=
    DSeg.setStart h hnd hn hp
  have hbl : DSeg next' prev' (some b) none (b :: l) none (l.getLast?.or (some b)) :=
    ⟨rfl, hpb, hnb ▸ hl⟩
  exact hbl.dChain

/-- Unlinking the entry `b` of a ring that has other nodes. -/
theorem Ring.removeHead {b : α} {l : List α} (h : Ring next prev (b :: l))
    (hnd : (b :: l).Nodup) (hne : l ≠ [])
    (hn : ∀ a ∈ l, next' a = if prev b = some a then next b else next a)
    (hp : ∀ a ∈ l, prev' a = if next b = some a then prev b else prev a) :
    Ring next' prev' l := by
  obtain ⟨-, -, hprevb, hseg⟩ := h
  have hndl := (List.nodup_cons.mp hnd).2
  have hlast : (b :: l).getLast? = l.getLast? := by
    cases l with
    | nil => exact absurd rfl hne
    | cons c l => simp
  rw [hlast] at hprevb hseg
  have hfirst : next b = l.head? := by
    rw [hseg.first]
    cases l with
    | nil => exact absurd rfl hne
    | cons c l => simp
  rw [hprevb] at hn hp
  have h1 : DSeg next' prev (l.head?.or (next b)) (some b) l (next b) l.getLast? :=
    hseg.setEnd hndl hn (fun _ _ => rfl)
  have hor : l.head?.or (next b) = next b := by rw [hfirst]; cases l.head? <;> rfl
  rw [hor] at h1
  have h2 : DSeg next' prev' (next b) l.getLast? l (next b) (l.getLast?.or l.getLast?) :=
    h1.setStart hndl (fun _ _ => rfl) hp
  have hor' : l.getLast?.or l.getLast? = l.getLast? := by cases l.getLast? <;> rfl
  rw [hor', hfirst] at h2
  exact ⟨hne, h2⟩

/-- Unlinking `b` from a ring that has other nodes. -/
theorem Ring.remove {b : α} {l m : List α} (h : Ring next prev (l ++ b :: m))
    (hnd : (l ++ b :: m).Nodup) (hne : l ++ m ≠ [])
    (hn : ∀ a ∈ l ++ m, next' a = if prev b = some a then next b else next a)
    (hp : ∀ a ∈ l ++ m, prev' a = if next b = some a then prev b else prev a) :
    Ring next' prev' (l ++ m) := by
  have hrot : Ring next prev (b :: (m ++ l)) := by simpa using h.rotate
  apply Ring.rotate
  have hmem : ∀ a, a ∈ m ++ l → a ∈ l ++ m := fun a ha =>
    List.mem_append.mpr (List.mem_append.mp ha).symm
  refine hrot.removeHead ?_ ?_ (fun a ha => hn a (hmem a ha)) (fun a ha => hp a (hmem a ha))
  · have hperm : (l ++ b :: m).Perm (b :: (m ++ l)) := by
      simpa using (List.perm_append_comm : (l ++ b :: m).Perm ((b :: m) ++ l))
    exact hperm.nodup_iff.mp hnd
  · intro h0
    apply hne
    have := List.append_eq_nil_iff.mp h0
    simp [this.1, this.2]

/-- Linking a new node `b` in before the entry of a ring, that is, at its end. -/
theorem Ring.insertLast {b : α} {l : List α} (h : Ring next prev l) (hnd : l.Nodup)
    (hn : ∀ a ∈ l, next' a = if l.getLast? = some a then some b else next a)
    (hp : ∀ a ∈ l, prev' a = if l.head? = some a then some b else prev a)
    (hnb : next' b = l.head?) (hpb : prev' b = l.getLast?) :
    Ring next' prev' (l ++ [b]) := by
  obtain ⟨hne, hseg⟩ := h
  have h1 : DSeg next' prev (l.head?.or (some b)) l.getLast? l (some b) l.getLast? :=
    hseg.setEnd hnd hn (fun _ _ => rfl)
  have hor : l.head?.or (some b) = l.head? := by
    cases l with
    | nil => exact absurd rfl hne
    | cons c l => rfl
  have hor' : l.getLast?.or (some b) = l.getLast? := by
    rw [List.getLast?_eq_some_getLast hne]; rfl
  rw [hor] at h1
  have h2 : DSeg next' prev' l.head? (some b) l (some b) (l.getLast?.or (some b)) :=
    h1.setStart hnd (fun _ _ => rfl) hp
  rw [hor'] at h2
  refine ⟨by simp, ?_⟩
  have hhead : (l ++ [b]).head? = l.head? := by
    cases l with
    | nil => exact absurd rfl hne
    | cons c l => rfl
  rw [hhead, List.getLast?_concat]
  exact dSeg_append.mpr ⟨_, _, h2, rfl, hpb, hnb, rfl⟩

end Updates

end MockOs.Links
