import Mathlib.Data.List.Basic
import Mathlib.Logic.Function.Basic
import Mathlib.Logic.Relation
import MockOs.Misc.Links

/-!
# Trees in pointer fields

Each node names its parent, its youngest child, and the siblings on both sides of it. A tree
grows by new leaves only; the list of the nodes in the order in which they came then has the
children of every node in the order of its sibling list.
-/

namespace MockOs

open Links

/-- The links of the nodes. -/
structure Kin (α : Type) where
  parent : α → Option α
  child : α → Option α
  older : α → Option α
  younger : α → Option α

namespace Kin

variable {α : Type} [DecidableEq α] {k : Kin α} {root t c : α} {born : List α}

/-- A new child `c` of `t`, in front of its siblings. -/
def bear (k : Kin α) (t c : α) : Kin α where
  parent := Function.update k.parent c (some t)
  child := Function.update (Function.update k.child c none) t (some c)
  older := Function.update k.older c (k.child t)
  younger a := if a = c then none else if k.child t = some a then some c else k.younger a

/-- The children of `t` among `born`. -/
def children (k : Kin α) (born : List α) (t : α) : List α := born.filter fun c => k.parent c = some t

/-- The nodes are `root` and those `born` since, the last one first. -/
structure Tree (k : Kin α) (root : α) (born : List α) : Prop where
  nodup : (root :: born).Nodup
  rootParent : k.parent root = some root
  parent : ∀ c ∈ born, ∃ t ∈ root :: born, k.parent c = some t
  siblings : ∀ t ∈ root :: born, DChain k.older k.younger (k.child t) (k.children born t)
  ancestor : ∀ t ∈ root :: born, Relation.ReflTransGen (fun a b => k.parent a = some b) t root

/-- A root without children. -/
theorem tree_root (hparent : k.parent root = some root) (hchild : k.child root = none) : Tree k root [] where
  nodup := List.nodup_singleton root
  rootParent := hparent
  parent c hc := absurd hc List.not_mem_nil
  siblings t ht := by
    rw [List.mem_singleton.mp ht, hchild]
    exact ⟨rfl, rfl⟩
  ancestor t ht := by rw [List.mem_singleton.mp ht]

namespace Tree

theorem mem_children {a : α} : a ∈ k.children born t ↔ a ∈ born ∧ k.parent a = some t := by
  rw [children, List.mem_filter, decide_eq_true_eq]

theorem children_bear (h : Tree k root born) (hc : c ∉ root :: born) (t' : α) :
    (k.bear t c).children (c :: born) t' =
      if t' = t then c :: k.children born t else if t' = c then [] else k.children born t' := by
  have hkeep : ∀ a ∈ born, (k.bear t c).parent a = k.parent a := by
    intro a ha
    refine Function.update_of_ne ?_ _ _
    rintro rfl
    exact hc (List.mem_cons_of_mem _ ha)
  have hfilter : (born.filter fun a => (k.bear t c).parent a = some t') = k.children born t' :=
    List.filter_congr fun a ha => by rw [hkeep a ha]
  have hnew : (k.bear t c).parent c = some t := Function.update_self ..
  rw [children, List.filter_cons, hfilter, hnew]
  by_cases htt : t' = t
  · rw [htt, if_pos (decide_eq_true rfl), if_pos rfl]
  · rw [if_neg (by simpa using Ne.symm htt), if_neg htt]
    by_cases htc : t' = c
    · rw [if_pos htc, htc]
      refine List.filter_eq_nil_iff.mpr fun a ha hpa => ?_
      rcases h.parent a ha with ⟨p, hp, hpar⟩
      rw [hpar, decide_eq_true_eq] at hpa
      exact hc (Option.some.inj hpa ▸ hp)
    · rw [if_neg htc]

/-- The way up from the nodes there were. -/
theorem ancestor_bear (h : Tree k root born) (hc : c ∉ root :: born) {a : α} (ha : a ∈ root :: born) :
    Relation.ReflTransGen (fun a b => (k.bear t c).parent a = some b) a root := by
  have hup := h.ancestor a ha
  induction hup using Relation.ReflTransGen.head_induction_on with
  | refl => exact .refl
  | @head a b hab _ ih =>
    have hac : a ≠ c := fun heq => hc (heq ▸ ha)
    have hb : b ∈ root :: born := by
      rcases List.mem_cons.mp ha with rfl | ha'
      · rw [h.rootParent] at hab
        exact Option.some.inj hab ▸ List.mem_cons_self ..
      · rcases h.parent a ha' with ⟨p, hp, hpar⟩
        rw [hpar] at hab
        exact Option.some.inj hab ▸ hp
    have hkeep : (k.bear t c).parent a = k.parent a := Function.update_of_ne hac _ _
    exact .head (hkeep.trans hab) (ih hb)

/-- The sibling lists when `t` has the new child. -/
theorem siblings_bear (h : Tree k root born) (ht : t ∈ root :: born) (hc : c ∉ root :: born) {t' : α}
    (ht' : t' = c ∨ t' ∈ root :: born) :
    DChain (k.bear t c).older (k.bear t c).younger ((k.bear t c).child t') ((k.bear t c).children (c :: born) t') := by
  have htc : t ≠ c := fun heq => hc (heq ▸ ht)
  have hborn : c ∉ born := fun hin => hc (List.mem_cons_of_mem _ hin)
  rw [h.children_bear hc t']
  have hsib := h.siblings t ht
  by_cases htt : t' = t
  · -- the list of the parent grows in front
    rw [if_pos htt, htt, show (k.bear t c).child t = some c from Function.update_self ..]
    have hne : ∀ a ∈ k.children born t, a ≠ c := by
      rintro a ha rfl
      exact hborn (mem_children.mp ha).1
    refine hsib.push ((List.nodup_cons.mp h.nodup).2.filter _) (fun a ha => ?_) (fun a ha => ?_) ?_ ?_
    · exact Function.update_of_ne (hne a ha) _ _
    · exact if_neg (hne a ha)
    · exact Function.update_self ..
    · exact if_pos rfl
  · rw [if_neg htt]
    by_cases htc' : t' = c
    · have hnone : (k.bear t c).child c = none := by
        show Function.update (Function.update k.child c none) t (some c) c = none
        rw [Function.update_of_ne (Ne.symm htc), Function.update_self]
      rw [if_pos htc', htc', hnone]
      exact ⟨rfl, rfl⟩
    · have hold : t' ∈ root :: born := ht'.resolve_left htc'
      have hchild : (k.bear t c).child t' = k.child t' := by
        show Function.update (Function.update k.child c none) t (some c) t' = k.child t'
        rw [Function.update_of_ne htt, Function.update_of_ne htc']
      rw [if_neg htc', hchild]
      refine (h.siblings t' hold).congr (fun a ha => ?_) fun a ha => ?_
      · refine Function.update_of_ne ?_ _ _
        rintro rfl
        exact hborn (mem_children.mp ha).1
      · -- the youngest child of `t` is no child of another
        have hac : a ≠ c := by
          rintro rfl
          exact hborn (mem_children.mp ha).1
        have hnot : k.child t ≠ some a := by
          intro hfirst
          rw [hsib.head_eq] at hfirst
          have hparent := (mem_children.mp (List.mem_of_head? hfirst)).2
          rw [(mem_children.mp ha).2] at hparent
          exact htt (Option.some.inj hparent)
        show (if a = c then none else if k.child t = some a then some c else k.younger a) = k.younger a
        rw [if_neg hac, if_neg hnot]

/-- A new leaf. -/
theorem bear (h : Tree k root born) (ht : t ∈ root :: born) (hc : c ∉ root :: born) :
    Tree (k.bear t c) root (c :: born) := by
  have hrc : root ≠ c := fun heq => hc (heq ▸ List.mem_cons_self ..)
  have hborn : c ∉ born := fun hin => hc (List.mem_cons_of_mem _ hin)
  have hkeep : ∀ a, a ≠ c → (k.bear t c).parent a = k.parent a := fun a ha => Function.update_of_ne ha _ _
  have hmem : ∀ a, a ∈ root :: c :: born → a = c ∨ a ∈ root :: born := by
    intro a ha
    rcases List.mem_cons.mp ha with rfl | ha
    · exact Or.inr (List.mem_cons_self ..)
    · exact (List.mem_cons.mp ha).imp_right (List.mem_cons_of_mem _)
  have hmem' : ∀ a, a ∈ root :: born → a ∈ root :: c :: born := by
    intro a ha
    rcases List.mem_cons.mp ha with rfl | ha
    · exact List.mem_cons_self ..
    · exact List.mem_cons_of_mem _ (List.mem_cons_of_mem _ ha)
  refine ⟨?_, ?_, fun a ha => ?_, fun t' ht' => ?_, fun a ha => ?_⟩
  · have hnd := List.nodup_cons.mp h.nodup
    refine List.nodup_cons.mpr ⟨fun hin => ?_, List.nodup_cons.mpr ⟨hborn, hnd.2⟩⟩
    exact (List.mem_cons.mp hin).elim hrc hnd.1
  · rw [hkeep root hrc]
    exact h.rootParent
  · by_cases hac : a = c
    · exact ⟨t, hmem' t ht, by rw [hac]; exact Function.update_self ..⟩
    · rcases h.parent a ((List.mem_cons.mp ha).resolve_left hac) with ⟨p, hp, hpar⟩
      exact ⟨p, hmem' p hp, by rwa [hkeep a hac]⟩
  · exact h.siblings_bear ht hc (hmem t' ht')
  · rcases hmem a ha with rfl | hold
    · exact .head (show (k.bear t a).parent a = some t from Function.update_self ..)
        (h.ancestor_bear hc ht)
    · exact h.ancestor_bear hc hold

/-- The first child has no younger sibling. -/
theorem younger_first (h : Tree k root born) (ht : t ∈ root :: born) {a : α} (hfirst : k.child t = some a) :
    k.younger a = none := by
  have hsib := h.siblings t ht
  rw [hfirst] at hsib
  cases hl : k.children born t with
  | nil =>
    rw [hl] at hsib
    cases hsib.head_eq
  | cons b l =>
    rw [hl] at hsib
    obtain rfl : a = b := Option.some.inj hsib.head_eq
    exact (DChain.links (l := []) hsib).2

/-- The two sibling links of a node undo each other. -/
theorem older_younger (h : Tree k root born) {a : α} (ha : a ∈ born) {b : α} :
    (k.older a = some b → k.younger b = some a) ∧ (k.younger a = some b → k.older b = some a) := by
  rcases h.parent a ha with ⟨t, ht, hpar⟩
  have hsib := h.siblings t ht
  rcases List.append_of_mem (mem_children.mpr ⟨ha, hpar⟩) with ⟨l, m, hl⟩
  rw [hl] at hsib
  rcases hsib.links with ⟨hold, hyoung⟩
  refine ⟨fun hb => ?_, fun hb => ?_⟩
  · rw [hold] at hb
    cases m with
    | nil => cases hb
    | cons b' m =>
      obtain rfl : b' = b := Option.some.inj hb
      rw [← List.singleton_append (l := b' :: m), ← List.append_assoc] at hsib
      rw [(DChain.links hsib).2, List.getLast?_concat]
  · rw [hyoung] at hb
    rcases List.getLast?_eq_some_iff.mp hb with ⟨l', rfl⟩
    rw [List.append_assoc] at hsib
    exact (DChain.links hsib).1

end Tree

end Kin

end MockOs
