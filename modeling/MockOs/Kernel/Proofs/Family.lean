import MockOs.Kernel.Proofs.AnyStack
import MockOs.Kernel.Proofs.SysFork
import MockOs.Misc.Kin

/-!
# The links between the processes

`copy_process` links the new task in front of the children of its parent. The links in the
structures are those of a tree with task 0 as its root, whatever tasks fork and in what order.
-/

namespace MockOs.Kernel

open Mm

/-! ## Following the links -/

/-- From `p`, the older siblings are `l`, and NULL is behind the last one. -/
def OlderList (s : ForkSys) : BitVec 32 → List (BitVec 32) → Prop
  | p, [] => p = 0
  | p, q :: l => p = q ∧ q ≠ 0 ∧ OlderList s (s.get q Off.pOsptr) l

/-- The slots that a step has filled. -/
def newborn (s s' : ForkSys) : List Nat :=
  (List.range nrTasks).filter fun i => s.task i = 0 ∧ s'.task i ≠ 0

/-- A call of `fork`, with a record of the slots in the order in which they were filled, the
last one first. -/
def BirthStep (call : Nat × Regs) (p p' : ForkSys × List Nat) : Prop :=
  ForkCall call p.1 p'.1 ∧ p'.2 = newborn p.1 p'.1 ++ p.2

/-- The slots that have the task in slot `t` as their parent, task 0 itself left out. -/
def childSlots (s : ForkSys) (born : List Nat) (t : Nat) : List Nat :=
  born.filter fun i => s.get (s.task i) Off.pPptr = s.task t

/-- The links of the tasks that are task 0 and those in the slots `born`. -/
structure TreeLinks (s : ForkSys) (born : List Nat) : Prop where
  live : ∀ i < nrTasks, s.task i ≠ 0 ↔ i = 0 ∨ i ∈ born
  bound : ∀ i ∈ born, 1 ≤ i ∧ i < nrTasks
  nodup : (born.map s.task).Nodup
  siblings : ∀ t, s.Live t → OlderList s (s.get (s.task t) Off.pCptr) ((childSlots s born t).map s.task)
  youngest : ∀ t, s.Live t → s.get (s.task t) Off.pCptr ≠ 0 →
    s.get (s.get (s.task t) Off.pCptr) Off.pYsptr = 0
  inverse : ∀ i ∈ born,
    (s.get (s.task i) Off.pOsptr ≠ 0 → s.get (s.get (s.task i) Off.pOsptr) Off.pYsptr = s.task i) ∧
    (s.get (s.task i) Off.pYsptr ≠ 0 → s.get (s.get (s.task i) Off.pYsptr) Off.pOsptr = s.task i)
  ancestor : ∀ t, s.Live t → ∃ n, (fun p => s.get p Off.pPptr)^[n] (s.task t) = s.task 0

/-! ## The links as pointers -/

/-- The word is the address of a task, or NULL. -/
def Names (loc : Fin 64 → Option Nat) : Option (Fin 64) → BitVec 32 → Prop
  | none, w => w = 0
  | some t, w => ∃ x, loc t = some x ∧ w = wordAddr x

theorem Names.update {loc : Fin 64 → Option Nat} {o : Option (Fin 64)} {w : BitVec 32} (h : Names loc o w)
    {c : Fin 64} (hcn : loc c = none) (z : Nat) : Names (Function.update loc c (some z)) o w := by
  cases o with
  | none => exact h
  | some t =>
    rcases h with ⟨x, hx, hw⟩
    have htc : t ≠ c := by
      rintro rfl
      rw [hcn] at hx
      cases hx
    exact ⟨x, by rwa [Function.update_of_ne htc], hw⟩

/-- The links in the structures. -/
structure KinRep (s : ForkSys) (loc : Fin 64 → Option Nat) (k : Kin (Fin 64)) : Prop where
  parent : ∀ t x, loc t = some x → Names loc (k.parent t) (s.mm.word (x + 175))
  child : ∀ t x, loc t = some x → Names loc (k.child t) (s.mm.word (x + 176))
  younger : ∀ t x, loc t = some x → Names loc (k.younger t) (s.mm.word (x + 177))
  older : ∀ t x, loc t = some x → Names loc (k.older t) (s.mm.word (x + 178))

/-- Task 0 at boot. -/
def bootKin : Kin (Fin 64) where
  parent t := if t = 0 then some 0 else none
  child _ := none
  older _ := none
  younger _ := none

theorem Boot.start_kinRep (b : Boot) : KinRep b.start b.loc bootKin := by
  have hword : ∀ t x j, b.loc t = some x → j < 289 → b.start.mm.word (x + j) = initTask b.initAddr j := by
    intro t x j hx hj
    rw [(b.loc_eq hx).2]
    exact b.start_init hj
  refine ⟨fun t x hx => ?_, fun t x hx => ?_, fun t x hx => ?_, fun t x hx => ?_⟩
  · rw [hword t x 175 hx (by decide), (b.loc_eq hx).1]
    exact ⟨b.init, if_pos rfl, rfl⟩
  · rw [hword t x 176 hx (by decide)]
    rfl
  · rw [hword t x 177 hx (by decide)]
    rfl
  · rw [hword t x 178 hx (by decide)]
    rfl

section Step

variable {w0 : Nat} {s s' : ForkSys} {loc loc' : Fin 64 → Option Nat} {t c : Fin 64} {y i : Nat}
  {old : Option Nat} {k : Kin (Fin 64)}

theorem wordAddr_inj {x z : Nat} (hx : x < 2 ^ 30) (hz : z < 2 ^ 30) (h : wordAddr x = wordAddr z) : x = z := by
  have htoNat := congrArg BitVec.toNat h
  rw [toNat_wordAddr hx, toNat_wordAddr hz] at htoNat
  omega

/-- The child that was the youngest, as a task. -/
theorem KinRep.old_eq (h : KinRep s loc k) (hs : Structs w0 s loc) (ht : loc t = some y)
    (hforked : Forked s s' loc c y i old) : old = (k.child t).bind loc := by
  have hchild := h.child t y ht
  have hbefore := hforked.before
  have holdloc := hforked.oldLoc
  cases hk : k.child t with
  | none =>
    rw [hk] at hchild
    cases old with
    | none => rfl
    | some y' =>
      rcases holdloc y' rfl with ⟨t', -, ht'⟩
      have hb := hs.loc_bounds ht'
      exact absurd (hbefore.symm.trans hchild) (wordAddr_ne_zero (by omega) (by omega))
  | some a =>
    rw [hk] at hchild
    rcases hchild with ⟨x, hx, hw⟩
    have hb := hs.loc_bounds hx
    show old = loc a
    rw [hx]
    cases old with
    | none => exact absurd (hw.symm.trans hbefore) (wordAddr_ne_zero (by omega) (by omega))
    | some y' =>
      rcases holdloc y' rfl with ⟨t', -, ht'⟩
      have hb' := hs.loc_bounds ht'
      rw [wordAddr_inj (by omega) (by omega) (hbefore.symm.trans hw)]

/-- The new task and its parent are linked as `Kin.bear` says. -/
theorem KinRep.forked (h : KinRep s loc k) (hs : Structs w0 s loc) (ht : loc t = some y) (hcn : loc c = none)
    (hforked : Forked s s' loc c y i old) :
    KinRep s' (Function.update loc c (some (1024 * i))) (k.bear t c) := by
  have hold := h.old_eq hs ht hforked
  have hself : Function.update loc c (some (1024 * i)) c = some (1024 * i) := Function.update_self ..
  have hct : c ≠ t := slot_ne ht hcn
  have hcases : ∀ t' x, Function.update loc c (some (1024 * i)) t' = some x →
      (t' = c ∧ x = 1024 * i) ∨ (t' ≠ c ∧ loc t' = some x) := by
    intro t' x hx
    by_cases htc : t' = c
    · rw [htc, hself] at hx
      exact Or.inl ⟨htc, (Option.some.inj hx).symm⟩
    · rw [Function.update_of_ne htc] at hx
      exact Or.inr ⟨htc, hx⟩
  have hy : Function.update loc c (some (1024 * i)) t = some y := by rwa [Function.update_of_ne (Ne.symm hct)]
  refine ⟨fun t' x hx => ?_, fun t' x hx => ?_, fun t' x hx => ?_, fun t' x hx => ?_⟩
  · rcases hcases t' x hx with ⟨rfl, rfl⟩ | ⟨htc, hx'⟩
    · rw [hforked.pptr, show (k.bear t t').parent t' = some t from Function.update_self ..]
      exact ⟨y, hy, rfl⟩
    · rw [hforked.kept hs ht hx' (by decide) (by decide),
        show (k.bear t c).parent t' = k.parent t' from Function.update_of_ne htc _ _]
      exact (h.parent t' x hx').update hcn _
  · rcases hcases t' x hx with ⟨rfl, rfl⟩ | ⟨htc, hx'⟩
    · rw [hforked.cptr]
      show Names _ (Function.update (Function.update k.child t' none) t (some t') t') 0
      rw [Function.update_of_ne hct, Function.update_self]
      rfl
    · show Names _ (Function.update (Function.update k.child c none) t (some c) t') _
      rcases hs.loc_apart hx' ht with ⟨rfl, rfl⟩ | ⟨htt, happ⟩
      · rw [Function.update_self, hforked.parent]
        exact ⟨1024 * i, hself, rfl⟩
      · rw [Function.update_of_ne htt, Function.update_of_ne htc,
          hforked.frame t' x 176 hx' (by omega) (by omega) fun y' hy' => ?_]
        · exact (h.child t' x hx').update hcn _
        · rcases hforked.oldLoc y' hy' with ⟨t2, -, ht2⟩
          rcases hs.loc_apart hx' ht2 with ⟨-, rfl⟩ | ⟨-, happ'⟩ <;> omega
  · rcases hcases t' x hx with ⟨rfl, rfl⟩ | ⟨htc, hx'⟩
    · rw [hforked.ysptr, show (k.bear t t').younger t' = none from if_pos rfl]
      rfl
    · show Names _ (if t' = c then none else if k.child t = some t' then some c else k.younger t') _
      rw [if_neg htc]
      by_cases hfirst : k.child t = some t'
      · rw [hfirst] at hold
        rw [if_pos hfirst, hforked.older x (hold.trans hx')]
        exact ⟨1024 * i, hself, rfl⟩
      · rw [if_neg hfirst, hforked.frame t' x 177 hx' (by omega) ?_ fun y' hy' heq => hfirst ?_]
        · exact (h.younger t' x hx').update hcn _
        · rcases hs.loc_apart hx' ht with ⟨-, rfl⟩ | ⟨-, happ⟩ <;> omega
        · -- the task at `y'` is the one that `t` had as its youngest child
          obtain rfl : x = y' := by omega
          rw [hold] at hy'
          rcases Option.bind_eq_some_iff.mp hy' with ⟨a, ha, hxa⟩
          rw [ha, hs.locInj a t' x hxa hx']
  · rcases hcases t' x hx with ⟨rfl, rfl⟩ | ⟨htc, hx'⟩
    · rw [hforked.osptr, ← hforked.before, show (k.bear t t').older t' = k.child t from Function.update_self ..]
      exact (h.child t y ht).update hcn _
    · rw [hforked.kept hs ht hx' (by decide) (by decide),
        show (k.bear t c).older t' = k.older t' from Function.update_of_ne htc _ _]
      exact (h.older t' x hx').update hcn _

theorem KinRep.congr (h : KinRep s loc k)
    (hword : ∀ t x j, loc t = some x → j < 1024 → s'.mm.word (x + j) = s.mm.word (x + j)) : KinRep s' loc k := by
  refine ⟨fun t x hx => ?_, fun t x hx => ?_, fun t x hx => ?_, fun t x hx => ?_⟩
  · rw [hword t x 175 hx (by decide)]
    exact h.parent t x hx
  · rw [hword t x 176 hx (by decide)]
    exact h.child t x hx
  · rw [hword t x 177 hx (by decide)]
    exact h.younger t x hx
  · rw [hword t x 178 hx (by decide)]
    exact h.older t x hx

end Step

/-! ## Runs -/

/-- The links are those of a tree whose nodes are the tasks. -/
def FamilyRep (b : Boot) (p : ForkSys × List Nat) : Prop :=
  ∃ (loc : Fin 64 → Option Nat) (k : Kin (Fin 64)) (born : List (Fin 64)), ForkSane b p.1 loc ∧ KinRep p.1 loc k ∧
    k.Tree 0 born ∧ (∀ t, loc t ≠ none ↔ t ∈ 0 :: born) ∧ p.2 = born.map Fin.val

theorem Boot.start_familyRep (b : Boot) : FamilyRep b (b.start, []) := by
  refine ⟨b.loc, bootKin, [], b.start_forkSane, b.start_kinRep, Kin.tree_root rfl rfl, fun t => ?_, rfl⟩
  rw [List.mem_singleton]
  by_cases ht : t = 0 <;> simp [Boot.loc, ht]

theorem newborn_same {s s' : ForkSys} (h : s'.task = s.task) : newborn s s' = [] := by
  refine List.filter_eq_nil_iff.mpr fun i _ hi => ?_
  rw [decide_eq_true_eq, h] at hi
  exact hi.2 hi.1

theorem newborn_update {s s' : ForkSys} {c : Fin 64} {a : BitVec 32} (h : s'.task = Function.update s.task c a)
    (h0 : s.task c = 0) (ha : a ≠ 0) : newborn s s' = [(c : Nat)] := by
  have hiff : ∀ i, (s.task i = 0 ∧ s'.task i ≠ 0) ↔ i = (c : Nat) := by
    intro i
    rw [h]
    by_cases hi : i = (c : Nat)
    · rw [hi, Function.update_self]
      exact ⟨fun _ => rfl, fun _ => ⟨h0, ha⟩⟩
    · rw [Function.update_of_ne hi]
      exact ⟨fun hno => absurd hno.1 hno.2, fun heq => absurd heq hi⟩
  have hfilter : newborn s s' = (List.range nrTasks).filter (fun i => i = (c : Nat)) :=
    List.filter_congr fun i _ => decide_eq_decide.mpr (hiff i)
  rw [hfilter, List.filter_eq, List.count_eq_one_of_mem (l := List.range nrTasks) List.nodup_range
    (List.mem_range.mpr c.isLt)]
  rfl

theorem FamilyRep.step {b : Boot} {call : Nat × Regs} {p p' : ForkSys × List Nat} (h : FamilyRep b p)
    (hstep : BirthStep call p p') : FamilyRep b p' := by
  rcases h with ⟨loc, k, born, hsane, hkin, htree, hlive, hborn⟩
  rcases hstep with ⟨hcall, hnew⟩
  rcases hsane.step hcall with ⟨loc', hstruct, hsane'⟩
  have hs := hsane.structs
  cases hstruct with
  | forked t c y i pid old m ht hc hcn hfirst hpos hlt htaken hi hforked hset =>
    have hs0 : Structs b.init { p.1 with current := p.1.task t, lastPid := pid } loc := { hs with }
    have hkin0 : KinRep { p.1 with current := p.1.task t, lastPid := pid } loc k := ⟨hkin.1, hkin.2, hkin.3, hkin.4⟩
    have hlow := hi.low
    have hhigh := hi.high
    have htask : p'.1.task = Function.update p.1.task c (wordAddr (1024 * i)) := by rw [hforked.rest]
    have hslot : p.1.task c = 0 := hsane.tasks.slot_eq_zero.mpr hcn
    have hct : c ∉ 0 :: born := fun hin => (hlive c).mpr hin hcn
    have htin : t ∈ 0 :: born := (hlive t).mp (by rw [ht]; exact Option.some_ne_none y)
    refine ⟨_, k.bear t c, c :: born, hsane', hkin0.forked hs0 ht hcn hforked, htree.bear htin hct, fun t' => ?_, ?_⟩
    · by_cases htc : t' = c
      · rw [htc, Function.update_self]
        exact ⟨fun _ => List.mem_cons_of_mem _ (List.mem_cons_self ..), fun _ => Option.some_ne_none _⟩
      · rw [Function.update_of_ne htc, hlive t', List.mem_cons, List.mem_cons, List.mem_cons]
        exact ⟨fun hin => hin.imp_right Or.inr, fun hin => hin.imp_right fun hin' => hin'.resolve_left htc⟩
    · rw [hnew, newborn_update htask hslot (wordAddr_ne_zero (by omega) (by omega)), hborn]
      rfl
  | failed cur pid hlt heq =>
    refine ⟨loc, k, born, hsane', hkin.congr fun t x j _ _ => by rw [heq], htree, hlive, ?_⟩
    rw [hnew, newborn_same (by rw [heq]), hborn]
    rfl
  | kept hkept =>
    refine ⟨loc, k, born, hsane', hkin.congr hkept.word, htree, hlive, ?_⟩
    rw [hnew, newborn_same (by rw [hkept.rest]), hborn]
    rfl

/-! ## The links as the code follows them -/

section Follow

variable {b : Boot} {s : ForkSys} {loc : Fin 64 → Option Nat} {k : Kin (Fin 64)} {born : List (Fin 64)} {t : Fin 64}
  {x : Nat} {o : Option (Fin 64)} {w : BitVec 32}

/-- The address of a task, or NULL. -/
def ForkSys.taskAddr (s : ForkSys) (o : Option (Fin 64)) : BitVec 32 := o.elim 0 fun t => s.task t

theorem Names.eq (h : Names loc o w) (hs : Structs b.init s loc) : w = s.taskAddr o := by
  cases o with
  | none => exact h
  | some t =>
    rcases h with ⟨x, hx, hw⟩
    rw [hw, ← hs.task_eq hx]
    rfl

theorem Names.live (h : Names loc (some t) w) : loc t ≠ none := by
  rcases h with ⟨x, hx, -⟩
  rw [hx]
  exact Option.some_ne_none x

/-- The fields of a task, as the code reads them. -/
theorem KinRep.get (h : KinRep s loc k) (hs : Structs b.init s loc) (ht : loc t ≠ none) :
    s.get (s.task t) Off.pPptr = s.taskAddr (k.parent t) ∧ s.get (s.task t) Off.pCptr = s.taskAddr (k.child t) ∧
      s.get (s.task t) Off.pYsptr = s.taskAddr (k.younger t) ∧ s.get (s.task t) Off.pOsptr = s.taskAddr (k.older t) := by
  rcases Option.ne_none_iff_exists'.mp ht with ⟨x, hx⟩
  have hb := hs.loc_bounds hx
  rw [hs.task_eq hx, ForkSys.get_word 175 (by decide) (by decide) (by omega),
    ForkSys.get_word 176 (by decide) (by decide) (by omega), ForkSys.get_word 177 (by decide) (by decide) (by omega),
    ForkSys.get_word 178 (by decide) (by decide) (by omega)]
  exact ⟨(h.parent t x hx).eq hs, (h.child t x hx).eq hs, (h.younger t x hx).eq hs, (h.older t x hx).eq hs⟩

/-- Different tasks have different addresses, and none is NULL. -/
theorem taskAddr_inj (h : ForkSane b s loc) (ht : loc t ≠ none) {t' : Fin 64} (heq : s.task t = s.task t') : t = t' := by
  rcases Option.ne_none_iff_exists'.mp ht with ⟨x, hx⟩
  have hb := h.structs.loc_bounds hx
  cases hx' : loc t' with
  | none =>
    rw [h.structs.task_eq hx, h.tasks.slot_eq_zero.mpr hx'] at heq
    exact absurd heq (wordAddr_ne_zero (by omega) (by omega))
  | some x' =>
    have hb' := h.structs.loc_bounds hx'
    rw [h.structs.task_eq hx, h.structs.task_eq hx'] at heq
    rw [← wordAddr_inj (by omega) (by omega) heq] at hx'
    exact h.structs.locInj t t' x hx hx'

theorem task_ne_zero (h : ForkSane b s loc) (ht : loc t ≠ none) : s.task t ≠ 0 :=
  fun hz => ht (h.tasks.slot_eq_zero.mp hz)

/-- The list of older siblings that the code finds. -/
theorem KinRep.olderList (h : KinRep s loc k) (hsane : ForkSane b s loc) {l : List (Fin 64)}
    (hlive : ∀ a ∈ l, loc a ≠ none) (hchain : Links.Chain k.older o l) :
    OlderList s (s.taskAddr o) (l.map fun a : Fin 64 => s.task a) := by
  induction l generalizing o with
  | nil =>
    rw [Links.chain_nil.mp hchain]
    rfl
  | cons a l ih =>
    rcases hchain with ⟨rfl, hrest⟩
    have ha := hlive a (List.mem_cons_self ..)
    refine ⟨rfl, task_ne_zero hsane ha, ?_⟩
    rw [(h.get hsane.structs ha).2.2.2]
    exact ih (fun a' ha' => hlive a' (List.mem_cons_of_mem _ ha')) hrest

/-- The sibling links that the code finds undo each other. -/
theorem KinRep.older_younger (h : KinRep s loc k) (hsane : ForkSane b s loc) (htree : k.Tree 0 born)
    (ht : loc t ≠ none) (hborn : t ∈ born) :
    (s.get (s.task t) Off.pOsptr ≠ 0 → s.get (s.get (s.task t) Off.pOsptr) Off.pYsptr = s.task t) ∧
      (s.get (s.task t) Off.pYsptr ≠ 0 → s.get (s.get (s.task t) Off.pYsptr) Off.pOsptr = s.task t) := by
  rcases Option.ne_none_iff_exists'.mp ht with ⟨x, hx⟩
  have hget := h.get hsane.structs ht
  rw [hget.2.2.2, hget.2.2.1]
  refine ⟨fun hne => ?_, fun hne => ?_⟩
  · cases hold : k.older t with
    | none =>
      rw [hold] at hne
      exact absurd rfl hne
    | some a =>
      have ha : Names loc (some a) _ := hold ▸ h.older t x hx
      show s.get (s.task a) Off.pYsptr = _
      rw [(h.get hsane.structs ha.live).2.2.1, (htree.older_younger hborn).1 hold]
      rfl
  · cases hyoung : k.younger t with
    | none =>
      rw [hyoung] at hne
      exact absurd rfl hne
    | some a =>
      have ha : Names loc (some a) _ := hyoung ▸ h.younger t x hx
      show s.get (s.task a) Off.pOsptr = _
      rw [(h.get hsane.structs ha.live).2.2.2, (htree.older_younger hborn).2 hyoung]
      rfl

/-- The parent links lead to task 0. -/
theorem KinRep.ancestor (h : KinRep s loc k) (hsane : ForkSane b s loc) (ht : loc t ≠ none)
    (hup : Relation.ReflTransGen (fun a a' => k.parent a = some a') t 0) :
    ∃ n, (fun p => s.get p Off.pPptr)^[n] (s.task t) = s.task 0 := by
  induction hup using Relation.ReflTransGen.head_induction_on with
  | refl => exact ⟨0, rfl⟩
  | @head a a' haa' _ ih =>
    rcases Option.ne_none_iff_exists'.mp ht with ⟨x, hx⟩
    have ha' : Names loc (some a') _ := haa' ▸ h.parent a x hx
    rcases ih ha'.live with ⟨n, hn⟩
    refine ⟨n + 1, ?_⟩
    rw [Function.iterate_succ_apply, (h.get hsane.structs ht).1, haa']
    exact hn

end Follow

theorem FamilyRep.treeLinks {b : Boot} {s : ForkSys} {slots : List Nat} (h : FamilyRep b (s, slots)) :
    TreeLinks s slots := by
  rcases h with ⟨loc, k, born, hsane, hkin, htree, hlive, rfl⟩
  have hsane : ForkSane b s loc := hsane
  have hkin : KinRep s loc k := hkin
  have hs := hsane.structs
  have hborn : ∀ t ∈ born, loc t ≠ none := fun t ht => (hlive t).mpr (List.mem_cons_of_mem _ ht)
  have hslots : ∀ i, i ∈ born.map Fin.val → ∃ t ∈ born, (t : Nat) = i := fun i hi => List.mem_map.mp hi
  have hof : ∀ i, s.Live i → ∃ t : Fin 64, (t : Nat) = i ∧ loc t ≠ none := by
    intro i hi
    rcases hsane.tasks.of_live hi with ⟨t, x, ht, hx⟩
    exact ⟨t, ht, by rw [hx]; exact Option.some_ne_none x⟩
  have hchildren : ∀ t : Fin 64, loc t ≠ none →
      childSlots s (born.map Fin.val) t = (k.children born t).map Fin.val := by
    intro t ht
    rw [childSlots, List.filter_map, Kin.children]
    refine congrArg _ (List.filter_congr fun a ha => decide_eq_decide.mpr ?_)
    show s.get (s.task a) Off.pPptr = s.task t ↔ _
    rw [(hkin.get hs (hborn a ha)).1]
    rcases htree.parent a ha with ⟨p, hp, hpar⟩
    rw [hpar]
    exact ⟨fun heq => congrArg some (taskAddr_inj hsane ((hlive p).mpr hp) heq), fun heq => by rw [heq]; rfl⟩
  refine ⟨fun i hi => ?_, fun i hi => ?_, ?_, fun i hi => ?_, fun i hi hne => ?_, fun i hi => ?_, fun i hi => ?_⟩
  · rw [ne_eq, show s.task i = s.task ((⟨i, hi⟩ : Fin 64) : Nat) from rfl, hsane.tasks.slot_eq_zero]
    refine (hlive ⟨i, hi⟩).trans ?_
    rw [List.mem_cons, List.mem_map]
    refine or_congr ⟨fun heq => congrArg Fin.val heq, fun heq => Fin.ext heq⟩ ?_
    refine ⟨fun hin => ⟨_, hin, rfl⟩, ?_⟩
    rintro ⟨t, ht, heq⟩
    rwa [show (⟨i, hi⟩ : Fin 64) = t from Fin.ext heq.symm]
  · rcases hslots i hi with ⟨t, ht, rfl⟩
    refine ⟨Fin.pos_iff_ne_zero.mpr ?_, t.isLt⟩
    rintro rfl
    exact (List.nodup_cons.mp htree.nodup).1 ht
  · rw [List.map_map]
    refine (List.nodup_cons.mp htree.nodup).2.map_on fun t ht t' _ heq => ?_
    exact taskAddr_inj hsane (hborn t ht) heq
  · rcases hof i hi with ⟨t, rfl, ht⟩
    rw [hchildren t ht, List.map_map, (hkin.get hs ht).2.1]
    exact hkin.olderList (l := k.children born t) hsane (fun a ha => hborn a (Kin.Tree.mem_children.mp ha).1)
      (Links.DSeg.chain (htree.siblings t ((hlive t).mp ht)))
  · rcases hof i hi with ⟨t, rfl, ht⟩
    rw [(hkin.get hs ht).2.1] at hne ⊢
    cases hfirst : k.child t with
    | none =>
      rw [hfirst] at hne
      exact absurd rfl hne
    | some a =>
      have ha : a ∈ k.children born t := by
        have hhead := (htree.siblings t ((hlive t).mp ht)).head_eq
        rw [hfirst] at hhead
        exact List.mem_of_head? hhead.symm
      show s.get (s.task a) Off.pYsptr = 0
      rw [(hkin.get hs (hborn a (Kin.Tree.mem_children.mp ha).1)).2.2.1,
        htree.younger_first ((hlive t).mp ht) hfirst]
      rfl
  · rcases hslots i hi with ⟨t, ht, rfl⟩
    exact hkin.older_younger hsane htree (hborn t ht) ht
  · rcases hof i hi with ⟨t, rfl, ht⟩
    exact hkin.ancestor hsane ht (htree.ancestor t ((hlive t).mp ht))

/-- The links of the processes, after any calls of `fork` by any tasks. -/
theorem process_tree_links (b : Boot) (calls : List (Nat × Regs)) (s : ForkSys) (born : List Nat)
    (hrun : Run.Trace BirthStep (b.start, []) calls (s, born)) : TreeLinks s born :=
  (hrun.invariant (P := FamilyRep b) (fun _ _ _ h hstep => h.step hstep) b.start_familyRep).treeLinks

/-- Task 0 and its child. -/
theorem process_tree_links_child : ∃ s,
    Run.Trace BirthStep (Boot.blank.start, []) [(0, stackTop)] (s, newborn Boot.blank.start s) ∧
      TreeLinks s (newborn Boot.blank.start s) := by
  rcases Boot.blank.start_spent.fork (by decide) with ⟨s, hfork, -⟩
  have hrun : Run.Trace BirthStep (Boot.blank.start, []) [(0, stackTop)] (s, newborn Boot.blank.start s) := by
    refine Run.Trace.nil.snoc (⟨⟨hfork.1.1, hfork.2⟩, ?_⟩ : BirthStep (0, stackTop) (Boot.blank.start, []) _)
    exact (List.append_nil _).symm
  exact ⟨s, hrun, process_tree_links Boot.blank _ s _ hrun⟩

end MockOs.Kernel
