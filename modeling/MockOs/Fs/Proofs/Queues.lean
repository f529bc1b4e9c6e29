import MockOs.Fs.Buffer
import MockOs.Misc.Links

/-!
# The queues of the buffer cache

`Rep` is the representation invariant: the free ring goes once through all heads, each
hash chain holds exactly the heads of its slot, and no key is cached twice. Taking a
head out of its queues and putting it back under a new key keeps it.
-/

namespace MockOs.Fs

open Links

namespace Cache

/-- The link fields as functions of the head's address. -/
def next (s : Cache) (a : Nat) : Option Nat := (s.head a).bNext
def prev (s : Cache) (a : Nat) : Option Nat := (s.head a).bPrev
def nextFree (s : Cache) (a : Nat) : Option Nat := (s.head a).bNextFree
def prevFree (s : Cache) (a : Nat) : Option Nat := (s.head a).bPrevFree

@[simp] theorem modify_head (s : Cache) (a b : Nat) (f : BufferHead → BufferHead) :
    (s.modify a f).head b = if b = a then f (s.head b) else s.head b := by
  simp only [modify, Function.update_apply]
  split
  · rename_i h; rw [h]
  · rfl

/-- Everything but the heads is the same. -/
def SameVars (s t : Cache) : Prop :=
  s.hashTable = t.hashTable ∧ s.freeList = t.freeList ∧ s.startBuffer = t.startBuffer ∧
    s.nrBuffers = t.nrBuffers

theorem setPrevOf_vars (s : Cache) (q p : Option Nat) : (s.setPrevOf q p).SameVars s := by
  cases q <;> exact ⟨rfl, rfl, rfl, rfl⟩

theorem setNextOf_vars (s : Cache) (q p : Option Nat) : (s.setNextOf q p).SameVars s := by
  cases q <;> exact ⟨rfl, rfl, rfl, rfl⟩

@[simp] theorem setPrevOf_head (s : Cache) (q p : Option Nat) (b : Nat) :
    (s.setPrevOf q p).head b =
      if q = some b then { s.head b with bPrev := p } else s.head b := by
  cases q with
  | none => rfl
  | some a => simp [setPrevOf, setPrev, eq_comm]

@[simp] theorem setNextOf_head (s : Cache) (q p : Option Nat) (b : Nat) :
    (s.setNextOf q p).head b =
      if q = some b then { s.head b with bNext := p } else s.head b := by
  cases q with
  | none => rfl
  | some a => simp [setNextOf, setNext, eq_comm]

end Cache

/-! ## What the four halves write -/

section Writes

variable (s : Cache) (bh : Nat)

/-- `remove_from_queues` joins the neighbours of `bh` in its chain; where `bh` is its own
neighbour the writes change nothing. -/
theorem removeFromHash_head (a : Nat) :
    (removeFromHash s bh).head a = { s.head a with
      bPrev := if s.next bh = some a then s.prev bh else s.prev a
      bNext := if s.prev bh = some a then s.next bh else s.next a } := by
  have hhash : ∀ (t : Cache) (i : Fin nrHash) (p : Option Nat), (t.setHash i p).head = t.head :=
    fun _ _ _ => rfl
  simp only [removeFromHash, apply_ite Cache.head, hhash, ite_self]
  simp only [Cache.setNextOf_head, Cache.setPrevOf_head, Cache.next, Cache.prev]
  split_ifs <;> simp_all

theorem removeFromHash_vars :
    (removeFromHash s bh).hashTable = (if s.hashTable (s.head bh).slot = some bh then
      Function.update s.hashTable (s.head bh).slot (s.next bh) else s.hashTable) ∧
    (removeFromHash s bh).freeList = s.freeList ∧
    (removeFromHash s bh).startBuffer = s.startBuffer ∧
    (removeFromHash s bh).nrBuffers = s.nrBuffers := by
  unfold removeFromHash
  have h1 := s.setPrevOf_vars (s.head bh).bNext (s.head bh).bPrev
  have h1h := s.setPrevOf_head (s.head bh).bNext (s.head bh).bPrev bh
  generalize s.setPrevOf (s.head bh).bNext (s.head bh).bPrev = s1 at h1 h1h
  have h2 := s1.setNextOf_vars (s1.head bh).bPrev (s1.head bh).bNext
  have h2h := s1.setNextOf_head (s1.head bh).bPrev (s1.head bh).bNext bh
  simp only
  generalize s1.setNextOf (s1.head bh).bPrev (s1.head bh).bNext = s2 at h2 h2h
  obtain ⟨ht1, hf1, hs1, hn1⟩ := h1
  obtain ⟨ht2, hf2, hs2, hn2⟩ := h2
  have hslot : (s2.head bh).slot = (s.head bh).slot := by
    rw [h2h]
    split <;> rw [h1h] <;> split <;> rfl
  have hnext : (s2.head bh).bNext = s.next bh := by
    rw [h2h]
    split <;> rw [h1h] <;> split <;> rfl
  rw [hslot, hnext, ht2, ht1]
  split
  · exact ⟨by rw [Cache.setHash, ht2, ht1], hf2.trans hf1, hs2.trans hs1, hn2.trans hn1⟩
  · exact ⟨ht2.trans ht1, hf2.trans hf1, hs2.trans hs1, hn2.trans hn1⟩

theorem setFree_head (pf nf a : Nat) (p q : Option Nat) :
    ((s.setPrevFree nf p).setNextFree pf q).head a = { s.head a with
      bPrevFree := if a = nf then p else s.prevFree a
      bNextFree := if a = pf then q else s.nextFree a } := by
  simp only [Cache.setNextFree, Cache.setPrevFree, Cache.modify_head, Cache.prevFree,
    Cache.nextFree]
  split_ifs <;> rfl

/-- The free list half of `remove_from_queues` joins the neighbours of `bh` in the ring. -/
theorem removeFromFree_ok {pf nf : Nat} (hpf : s.prevFree bh = some pf)
    (hnf : s.nextFree bh = some nf) :
    ∃ s', removeFromFree s bh = .ok s' ∧
      (∀ a, s'.head a = { s.head a with
        bPrevFree := if a = nf then some pf else s.prevFree a
        bNextFree := if a = pf then some nf else s.nextFree a }) ∧
      s'.hashTable = s.hashTable ∧
      s'.freeList = (if s.freeList = some bh then some nf else s.freeList) ∧
      s'.startBuffer = s.startBuffer ∧ s'.nrBuffers = s.nrBuffers := by
  simp only [Cache.prevFree, Cache.nextFree] at hpf hnf
  have hself : ((s.setPrevFree nf (some pf)).head bh).bPrevFree = some pf := by
    simp only [Cache.setPrevFree, Cache.modify_head]
    split <;> simp [hpf]
  have hnext : ((s.setPrevFree nf (some pf)).head bh).bNextFree = some nf := by
    simp only [Cache.setPrevFree, Cache.modify_head]
    split <;> simp [hnf]
  have hnext' : (((s.setPrevFree nf (some pf)).setNextFree pf (some nf)).head bh).bNextFree =
      some nf := by
    rw [Cache.setNextFree, Cache.modify_head]
    split <;> simp [hnext]
  have hfl : ((s.setPrevFree nf (some pf)).setNextFree pf (some nf)).freeList = s.freeList := rfl
  refine ⟨{ (s.setPrevFree nf (some pf)).setNextFree pf (some nf) with
      freeList := if s.freeList = some bh then some nf else s.freeList }, ?_, ?_, rfl, rfl, rfl,
    rfl⟩
  · simp only [removeFromFree, hpf, hnf, reduceCtorEq, or_self, if_false, deref, bind,
      Except.bind, hself, hnext, hnext', hfl, pure, Except.pure]
    split
    · rfl
    · rw [← hfl]
  · exact fun a => setFree_head s pf nf a (some pf) (some nf)

/-- The free list half of `insert_into_queues` links `bh` in before `free_list`. -/
theorem insertIntoFree_ok {fl l : Nat} (hfl : s.freeList = some fl)
    (hl : s.prevFree fl = some l) :
    ∃ s', insertIntoFree s bh = .ok s' ∧
      (∀ a, s'.head a = { s.head a with
        bPrevFree := if a = fl then some bh else if a = bh then some l else s.prevFree a
        bNextFree := if a = l then some bh else if a = bh then some fl else s.nextFree a
        bPrev := if a = bh then none else s.prev a
        bNext := if a = bh then none else s.next a }) ∧
      s'.SameVars s := by
  refine ⟨((((s.setPrevFree bh (some l)).setNextFree bh (some fl)).setNextFree l (some bh)).setPrevFree
    fl (some bh)).setPrev bh none |>.setNext bh none, ?_, ?_, ⟨rfl, rfl, rfl, rfl⟩⟩
  · simp only [Cache.prevFree] at hl
    have hfl' : (s.setPrevFree bh (some l)).freeList = some fl := hfl
    simp only [insertIntoFree, hfl, deref, bind, Except.bind, hl, pure, Except.pure, hfl']
  · intro a
    simp only [Cache.setNextFree, Cache.setPrevFree, Cache.setNext, Cache.setPrev,
      Cache.modify_head, Cache.prevFree, Cache.nextFree, Cache.next, Cache.prev]
    split_ifs <;> rfl

/-- The hash table half of `insert_into_queues` pushes a head that has a device on the
chain of its slot. -/
theorem insertIntoHash_head (hdev : (s.head bh).bDev ≠ 0) (a : Nat) :
    (insertIntoHash s bh).head a = { s.head a with
      bPrev := if s.hashTable (s.head bh).slot = some a then some bh else s.prev a
      bNext := if a = bh then s.hashTable (s.head bh).slot else s.next a } := by
  simp only [insertIntoHash, if_neg hdev, Cache.setPrevOf_head, Cache.setNext,
    Cache.modify_head, Cache.setHash, Cache.next, Cache.prev]
  split_ifs <;> rfl

theorem insertIntoHash_vars (hdev : (s.head bh).bDev ≠ 0) :
    (insertIntoHash s bh).hashTable =
      Function.update s.hashTable (s.head bh).slot (some bh) ∧
    (insertIntoHash s bh).freeList = s.freeList ∧
    (insertIntoHash s bh).startBuffer = s.startBuffer ∧
    (insertIntoHash s bh).nrBuffers = s.nrBuffers := by
  simp only [insertIntoHash, if_neg hdev]
  exact Cache.setPrevOf_vars _ _ _

end Writes

/-! ## The representation invariant -/

/-- The free ring, read from `free_list`. -/
structure FreeRing (s : Cache) (ring : List Nat) : Prop where
  entry : s.freeList = ring.head?
  links : Ring s.nextFree s.prevFree ring
  nodup : ring.Nodup

/-- The hash chains; different slots share no head. -/
structure HashChains (s : Cache) (chains : Fin nrHash → List Nat) : Prop where
  links : ∀ i, DChain s.next s.prev (s.hashTable i) (chains i)
  nodup : ∀ i, (chains i).Nodup
  disjoint : ∀ i j b, b ∈ chains i → b ∈ chains j → i = j

/-- The representation invariant of the buffer cache, with the ring and the chains that a
reader of the pointers meets. -/
structure Rep (s : Cache) (ring : List Nat) (chains : Fin nrHash → List Nat) : Prop where
  free : FreeRing s ring
  perm : ring.Perm s.headers
  hash : HashChains s chains
  mem : ∀ i b, b ∈ chains i ↔ b ∈ s.headers ∧ (s.head b).bDev ≠ 0 ∧ (s.head b).slot = i
  unhashed : ∀ b ∈ s.headers, (s.head b).bDev = 0 → s.next b = none ∧ s.prev b = none
  uniq : ∀ a ∈ s.headers, ∀ b ∈ s.headers, (s.head a).bDev ≠ 0 →
    (s.head a).bDev = (s.head b).bDev → (s.head a).bBlocknr = (s.head b).bBlocknr → a = b

/-- The representation invariant. -/
def RepInv (s : Cache) : Prop := ∃ ring chains, Rep s ring chains

/-- The part of the representation invariant that does not ask for different keys. It lasts
whatever the devices are: `b_dev` holds the low half of `dev`, so two keys may become one. -/
structure Queued (s : Cache) (ring : List Nat) (chains : Fin nrHash → List Nat) : Prop where
  free : FreeRing s ring
  perm : ring.Perm s.headers
  hash : HashChains s chains
  mem : ∀ i b, b ∈ chains i ↔ b ∈ s.headers ∧ (s.head b).bDev ≠ 0 ∧ (s.head b).slot = i
  unhashed : ∀ b ∈ s.headers, (s.head b).bDev = 0 → s.next b = none ∧ s.prev b = none

theorem Rep.queued {s : Cache} {ring : List Nat} {chains : Fin nrHash → List Nat}
    (h : Rep s ring chains) : Queued s ring chains :=
  ⟨h.free, h.perm, h.hash, h.mem, h.unhashed⟩

theorem erase_middle {l m : List Nat} {b : Nat} (hnd : (l ++ b :: m).Nodup) :
    (l ++ b :: m).erase b = l ++ m := by
  have hb : b ∉ l := fun hb => (List.nodup_append.mp hnd).2.2 b hb b (by simp) rfl
  rw [List.erase_append_right _ hb, List.erase_cons_head]

section Chains

variable {s s' : Cache} {chains : Fin nrHash → List Nat} {bh : Nat}

theorem HashChains.congr (h : HashChains s chains) (ht : s'.hashTable = s.hashTable)
    (hl : ∀ i, ∀ a ∈ chains i, s'.next a = s.next a ∧ s'.prev a = s.prev a) :
    HashChains s' chains := by
  refine ⟨fun i => ?_, h.nodup, h.disjoint⟩
  rw [ht]
  exact (h.links i).congr (fun a ha => (hl i a ha).1) (fun a ha => (hl i a ha).2)

/-- Removing a head from the chain of its slot, or one that is on no chain. -/
theorem HashChains.remove (h : HashChains s chains)
    (hslot : ∀ i, bh ∈ chains i → i = (s.head bh).slot)
    (hout : bh ∉ chains (s.head bh).slot → s.next bh = none ∧ s.prev bh = none) :
    HashChains (removeFromHash s bh) fun i => (chains i).erase bh := by
  obtain ⟨htable, -⟩ := removeFromHash_vars s bh
  have hnext : ∀ a, (removeFromHash s bh).next a =
      if s.prev bh = some a then s.next bh else s.next a := fun a => by
    simp only [Cache.next, removeFromHash_head]
  have hprev : ∀ a, (removeFromHash s bh).prev a =
      if s.next bh = some a then s.prev bh else s.prev a := fun a => by
    simp only [Cache.prev, removeFromHash_head]
  refine ⟨fun i => ?_, fun i => (h.nodup i).erase bh,
    fun i j b hi hj => h.disjoint i j b (List.mem_of_mem_erase hi) (List.mem_of_mem_erase hj)⟩
  by_cases hin : bh ∈ chains (s.head bh).slot
  · obtain ⟨l, m, hlm⟩ := List.append_of_mem hin
    have hchain := h.links (s.head bh).slot
    have hnd := h.nodup (s.head bh).slot
    rw [hlm] at hchain hnd
    obtain ⟨hnb, hpb⟩ := hchain.links
    by_cases hi : i = (s.head bh).slot
    · subst hi
      simp only [hlm, erase_middle hnd]
      have hhead : (removeFromHash s bh).hashTable (s.head bh).slot =
          if s.hashTable (s.head bh).slot = some bh then s.next bh
          else s.hashTable (s.head bh).slot := by
        rw [htable]
        split <;> simp
      rw [hhead]
      exact hchain.remove hnd (fun a _ => hnext a) (fun a _ => hprev a)
    · have hni : bh ∉ chains i := fun hb => hi (hslot i hb)
      -- the neighbours of `bh` lie on the chain of its own slot
      have hother : ∀ a ∈ chains i, s.prev bh ≠ some a ∧ s.next bh ≠ some a := by
        intro a ha
        refine ⟨fun hpa => hi (h.disjoint i _ a ha ?_), fun hna => hi (h.disjoint i _ a ha ?_)⟩
        · rw [hlm]
          exact List.mem_append_left _ (List.mem_of_getLast? (hpb.symm.trans hpa))
        · rw [hlm]
          exact List.mem_append_right _
            (List.mem_cons_of_mem _ (List.mem_of_head? (hnb.symm.trans hna)))
      have hti : (removeFromHash s bh).hashTable i = s.hashTable i := by
        rw [htable]
        split <;> simp [hi]
      simp only [List.erase_of_not_mem hni, hti]
      exact (h.links i).congr (fun a ha => by rw [hnext, if_neg (hother a ha).1])
        (fun a ha => by rw [hprev, if_neg (hother a ha).2])
  · obtain ⟨hn0, hp0⟩ := hout hin
    have hni : bh ∉ chains i := by
      intro hb
      exact hin (hslot i hb ▸ hb)
    have hti : (removeFromHash s bh).hashTable = s.hashTable := by
      rw [htable, if_neg]
      intro hhead
      apply hin
      exact List.mem_of_head? ((h.links _).head_eq.symm.trans hhead)
    simp only [List.erase_of_not_mem hni, hti]
    exact (h.links i).congr (fun a _ => by simp [hnext, hp0]) (fun a _ => by simp [hprev, hn0])

/-- Pushing a head that is on no chain. -/
theorem HashChains.insert (h : HashChains s chains) (hdev : (s.head bh).bDev ≠ 0)
    (hnew : ∀ i, bh ∉ chains i) (hpb : s.prev bh = none) :
    HashChains (insertIntoHash s bh)
      (Function.update chains (s.head bh).slot (bh :: chains (s.head bh).slot)) := by
  obtain ⟨htable, -⟩ := insertIntoHash_vars s bh hdev
  have hnext : ∀ a, (insertIntoHash s bh).next a =
      if a = bh then s.hashTable (s.head bh).slot else s.next a := fun a => by
    simp only [Cache.next, insertIntoHash_head s bh hdev]
  have hprev : ∀ a, (insertIntoHash s bh).prev a =
      if s.hashTable (s.head bh).slot = some a then some bh else s.prev a := fun a => by
    simp only [Cache.prev, insertIntoHash_head s bh hdev]
  have hne : ∀ i, ∀ a ∈ chains i, a ≠ bh := fun i a ha hab => hnew i (hab ▸ ha)
  have hfirst : ∀ a, s.hashTable (s.head bh).slot = some a → a ∈ chains (s.head bh).slot :=
    fun a ha => List.mem_of_head? ((h.links _).head_eq.symm.trans ha)
  refine ⟨fun i => ?_, fun i => ?_, fun i j b hi hj => ?_⟩
  · by_cases hi : i = (s.head bh).slot
    · subst hi
      simp only [htable, Function.update_self]
      refine (h.links _).push (h.nodup _) (fun a ha => ?_) (fun a _ => hprev a) ?_ ?_
      · rw [hnext, if_neg (hne _ a ha)]
      · rw [hnext, if_pos rfl]
      · rw [hprev, if_neg, hpb]
        exact fun hb => hnew _ (hfirst bh hb)
    · simp only [htable, Function.update_of_ne hi]
      refine (h.links i).congr (fun a ha => ?_) (fun a ha => ?_)
      · rw [hnext, if_neg (hne i a ha)]
      · rw [hprev, if_neg]
        exact fun hb => hi (h.disjoint i _ a ha (hfirst a hb))
  · by_cases hi : i = (s.head bh).slot
    · subst hi
      simp only [Function.update_self]
      exact List.nodup_cons.mpr ⟨hnew _, h.nodup _⟩
    · simp only [Function.update_of_ne hi]
      exact h.nodup i
  · have hmem : ∀ k, b ∈ Function.update chains (s.head bh).slot
        (bh :: chains (s.head bh).slot) k → (b = bh ∧ k = (s.head bh).slot) ∨ b ∈ chains k := by
      intro k hk
      by_cases hks : k = (s.head bh).slot
      · subst hks
        rcases List.mem_cons.mp (by simpa using hk) with hb | hb
        · exact Or.inl ⟨hb, rfl⟩
        · exact Or.inr hb
      · exact Or.inr (by simpa [hks] using hk)
    rcases hmem i hi with ⟨hb, his⟩ | hi'
    · rcases hmem j hj with ⟨-, hjs⟩ | hj'
      · rw [his, hjs]
      · exact absurd (hb ▸ hj') (hnew j)
    · rcases hmem j hj with ⟨hb, -⟩ | hj'
      · exact absurd (hb ▸ hi') (hnew i)
      · exact h.disjoint i j b hi' hj'

end Chains

section Rings

variable {s s' : Cache} {ring : List Nat} {bh : Nat}

theorem FreeRing.congr (h : FreeRing s ring) (hf : s'.freeList = s.freeList)
    (hn : ∀ a, s'.nextFree a = s.nextFree a) (hp : ∀ a, s'.prevFree a = s.prevFree a) :
    FreeRing s' ring :=
  ⟨hf.trans h.entry, h.links.congr (fun a _ => hn a) (fun a _ => hp a), h.nodup⟩

/-- Every head of the ring has both of its ring links. -/
theorem FreeRing.exists_links (h : FreeRing s ring) (hb : bh ∈ ring) :
    ∃ pf nf, s.prevFree bh = some pf ∧ s.nextFree bh = some nf := by
  obtain ⟨l, m, rfl⟩ := List.append_of_mem hb
  have hrot : Ring s.nextFree s.prevFree (bh :: (m ++ l)) := by simpa using h.links.rotate
  obtain ⟨hp, hn⟩ := hrot.entry
  rw [hp, hn]
  refine ⟨_, (m ++ l ++ [bh]).head (by simp), List.getLast?_eq_some_getLast (by simp), ?_⟩
  exact List.head?_eq_some_head (by simp)

/-- Taking `bh` out of the ring. A head that is alone stays linked to itself. -/
theorem FreeRing.remove (h : FreeRing s ring) (hb : bh ∈ ring)
    (hok : removeFromFree s bh = .ok s') :
    FreeRing s' (if ring.erase bh = [] then [bh] else ring.erase bh) := by
  obtain ⟨pf, nf, hpf, hnf⟩ := h.exists_links hb
  obtain ⟨t, ht, hhead, -, hfl, -⟩ := removeFromFree_ok s bh hpf hnf
  obtain rfl : t = s' := by simpa [hok] using ht.symm
  have hnext : ∀ a, t.nextFree a = if a = pf then some nf else s.nextFree a := fun a => by
    simp only [Cache.nextFree, hhead]
  have hprev : ∀ a, t.prevFree a = if a = nf then some pf else s.prevFree a := fun a => by
    simp only [Cache.prevFree, hhead]
  obtain ⟨l, m, rfl⟩ := List.append_of_mem hb
  rw [erase_middle h.nodup]
  have hentry := h.entry
  split
  · rename_i hempty
    obtain ⟨rfl, rfl⟩ := List.append_eq_nil_iff.mp hempty
    obtain ⟨hn1, hp1⟩ := ring_singleton.mp (by simpa using h.links)
    obtain rfl : nf = bh := Option.some.inj (hnf.symm.trans hn1)
    obtain rfl : pf = nf := Option.some.inj (hpf.symm.trans hp1)
    refine ⟨?_, ring_singleton.mpr ⟨by simp [hnext], by simp [hprev]⟩, by simp⟩
    rw [hfl]
    simp only [List.nil_append, List.head?_cons] at hentry
    simp [hentry]
  · rename_i hne
    refine ⟨?_, ?_, ?_⟩
    · rw [hfl, hentry]
      cases l with
      | nil =>
        have hne' : m ≠ [] := by simpa using hne
        have hn := (Ring.entry (by simpa using h.links) : _ ∧ s.nextFree bh = (m ++ [bh]).head?).2
        rw [hnf] at hn
        simp only [List.nil_append, List.head?_cons, if_true, hn]
        cases m with
        | nil => exact absurd rfl hne'
        | cons c m => rfl
      | cons c l =>
        have hcb : c ≠ bh := by
          rintro rfl
          have hnd := h.nodup
          simp at hnd
        simp [hcb]
    · refine h.links.remove h.nodup hne (fun a _ => ?_) (fun a _ => ?_)
      · rw [hnext, hpf, hnf]
        simp [eq_comm]
      · rw [hprev, hpf, hnf]
        simp [eq_comm]
    · have hnd := h.nodup.erase bh
      rwa [erase_middle h.nodup] at hnd

/-- Appending a head at the end of the ring; a head that is alone stays alone. -/
theorem FreeRing.insert (h : FreeRing s ring) (hnew : ring = [bh] ∨ bh ∉ ring) :
    ∃ s', insertIntoFree s bh = .ok s' ∧
      FreeRing s' (if ring = [bh] then [bh] else ring ++ [bh]) ∧
      (∀ a, s'.head a = { s.head a with
        bPrevFree := s'.prevFree a
        bNextFree := s'.nextFree a
        bPrev := if a = bh then none else s.prev a
        bNext := if a = bh then none else s.next a }) ∧
      s'.SameVars s := by
  have hne := h.links.1
  obtain ⟨fl, l, rfl⟩ := List.exists_cons_of_ne_nil hne
  obtain ⟨hp, -⟩ := h.links.entry
  rw [List.getLast?_eq_some_getLast hne] at hp
  have hentry := h.entry
  simp only [List.head?_cons] at hentry
  obtain ⟨s', hok, hhead, hvars⟩ := insertIntoFree_ok s bh hentry hp
  refine ⟨s', hok, ?_, fun a => ?_, hvars⟩
  · have hnext : ∀ a, s'.nextFree a = if a = (fl :: l).getLast hne then some bh
        else if a = bh then some fl else s.nextFree a := fun a => by
      simp only [Cache.nextFree, hhead]
    have hprev : ∀ a, s'.prevFree a = if a = fl then some bh
        else if a = bh then some ((fl :: l).getLast hne) else s.prevFree a := fun a => by
      simp only [Cache.prevFree, hhead]
    split
    · rename_i hone
      obtain ⟨rfl, rfl⟩ := List.cons_eq_cons.mp hone
      refine ⟨hvars.2.1.trans hentry, ring_singleton.mpr ⟨?_, ?_⟩, by simp⟩
      · simp [hnext]
      · simp [hprev]
    · rename_i hmany
      have hout : bh ∉ fl :: l := hnew.resolve_left hmany
      have hne' : ∀ a ∈ fl :: l, a ≠ bh := fun a ha hab => hout (hab ▸ ha)
      refine ⟨hvars.2.1.trans hentry, ?_, ?_⟩
      · refine h.links.insertLast h.nodup (fun a ha => ?_) (fun a ha => ?_) ?_ ?_
        · rw [hnext, if_neg (hne' a ha), List.getLast?_eq_some_getLast hne]
          simp [eq_comm]
        · rw [hprev, if_neg (hne' a ha)]
          simp [eq_comm]
        · rw [hnext, if_neg, if_pos rfl]
          · rfl
          · exact fun hb => hout (hb ▸ List.getLast_mem hne)
        · rw [hprev, if_neg, if_pos rfl, List.getLast?_eq_some_getLast hne]
          exact fun hb => hout (by simp [hb])
      · refine List.nodup_append.mpr ⟨h.nodup, by simp, fun a ha b hb => ?_⟩
        rw [List.mem_singleton.mp hb]
        exact hne' a ha
  · simp only [hhead, Cache.prevFree, Cache.nextFree]

end Rings

/-- A head without its links. -/
def BufferHead.unlinked (b : BufferHead) : BufferHead :=
  { b with bPrev := none, bNext := none, bPrevFree := none, bNextFree := none }

/-- What the queue functions leave alone: the array of heads, everything in a head but its
links, and the hash links of a head `a` that is on no chain. -/
structure Frame (s s' : Cache) (chains : Fin nrHash → List Nat) (bh : Nat) : Prop where
  start : s'.startBuffer = s.startBuffer
  count : s'.nrBuffers = s.nrBuffers
  data : ∀ a, (s'.head a).unlinked = (s.head a).unlinked
  idle : ∀ a, a ≠ bh → (∀ i, a ∉ chains i) → s'.next a = s.next a ∧ s'.prev a = s.prev a

section Halves

variable {s : Cache} {ring : List Nat} {chains : Fin nrHash → List Nat} {bh : Nat}

theorem removeFromQueues_spec (hc : HashChains s chains) (hr : FreeRing s ring) (hb : bh ∈ ring)
    (hslot : ∀ i, bh ∈ chains i → i = (s.head bh).slot)
    (hout : bh ∉ chains (s.head bh).slot → s.next bh = none ∧ s.prev bh = none) :
    ∃ s', removeFromQueues s bh = .ok s' ∧
      FreeRing s' (if ring.erase bh = [] then [bh] else ring.erase bh) ∧
      HashChains s' (fun i => (chains i).erase bh) ∧ Frame s s' chains bh := by
  have hc2 := hc.remove hslot hout
  have hhead2 := removeFromHash_head s bh
  obtain ⟨-, hfl2, hsb2, hnb2⟩ := removeFromHash_vars s bh
  unfold removeFromQueues
  generalize removeFromHash s bh = s2 at *
  have hr2 : FreeRing s2 ring := hr.congr hfl2 (fun a => by simp only [Cache.nextFree, hhead2])
    (fun a => by simp only [Cache.prevFree, hhead2])
  obtain ⟨pf, nf, hpf, hnf⟩ := hr2.exists_links hb
  obtain ⟨s', hok, hhead, htable, -, hsb, hnb⟩ := removeFromFree_ok s2 bh hpf hnf
  refine ⟨s', hok, hr2.remove hb hok, ?_, hsb.trans hsb2, hnb.trans hnb2, fun a => ?_,
    fun a _ hfree => ?_⟩
  · exact hc2.congr htable (fun _ a _ => by simp only [Cache.next, Cache.prev, hhead, and_self])
  · rw [hhead, hhead2]
    rfl
  · -- the neighbours of `bh` are on its chain, and `a` is on none
    have hnb : s.next bh ≠ some a ∧ s.prev bh ≠ some a := by
      by_cases hin : bh ∈ chains (s.head bh).slot
      · obtain ⟨l, m, hlm⟩ := List.append_of_mem hin
        have hchain := hc.links (s.head bh).slot
        have hmem := hfree (s.head bh).slot
        rw [hlm] at hchain hmem
        obtain ⟨hnb, hpb⟩ := hchain.links
        simp only [List.mem_append, List.mem_cons, not_or] at hmem
        exact ⟨fun hn => hmem.2.2 (List.mem_of_head? (hnb.symm.trans hn)),
          fun hp => hmem.1 (List.mem_of_getLast? (hpb.symm.trans hp))⟩
      · simp [hout hin]
    simp only [Cache.next, Cache.prev, hhead, hhead2] at *
    simp [hnb]

theorem insertIntoQueues_spec (hc : HashChains s chains) (hr : FreeRing s ring)
    (hnew : ring = [bh] ∨ bh ∉ ring) (hfree : ∀ i, bh ∉ chains i) :
    ∃ s', insertIntoQueues s bh = .ok s' ∧
      FreeRing s' (if ring = [bh] then [bh] else ring ++ [bh]) ∧
      HashChains s' (if (s.head bh).bDev = 0 then chains else
        Function.update chains (s.head bh).slot (bh :: chains (s.head bh).slot)) ∧
      ((s.head bh).bDev = 0 → s'.next bh = none ∧ s'.prev bh = none) ∧
      Frame s s' chains bh := by
  obtain ⟨s5, hok, hr5, hhead5, hvars5⟩ := hr.insert hnew
  have hc5 : HashChains s5 chains := by
    refine hc.congr hvars5.1 (fun i a ha => ?_)
    have hab : a ≠ bh := fun hab => hfree i (hab ▸ ha)
    simp only [Cache.next, Cache.prev, hhead5 a, hab, if_false, and_self]
  have hdev5 : (s5.head bh).bDev = (s.head bh).bDev := by rw [hhead5]
  have hslot5 : (s5.head bh).slot = (s.head bh).slot := by rw [hhead5]; rfl
  have hlinks5 : s5.next bh = none ∧ s5.prev bh = none := by
    simp only [Cache.next, Cache.prev]
    rw [hhead5]
    simp
  have hother5 : ∀ a, a ≠ bh → s5.next a = s.next a ∧ s5.prev a = s.prev a := fun a ha => by
    simp only [Cache.next, Cache.prev, hhead5 a, ha, if_false, and_self]
  have hdata5 : ∀ a, (s5.head a).unlinked = (s.head a).unlinked := fun a => by
    rw [hhead5 a]; rfl
  refine ⟨insertIntoHash s5 bh, by simp [insertIntoQueues, hok, bind, Except.bind, pure,
    Except.pure], ?_⟩
  by_cases hdev : (s.head bh).bDev = 0
  · have hsame : insertIntoHash s5 bh = s5 := by simp [insertIntoHash, hdev5, hdev]
    rw [hsame, if_pos hdev]
    exact ⟨hr5, hc5, fun _ => hlinks5, hvars5.2.2.1, hvars5.2.2.2, hdata5,
      fun a ha _ => hother5 a ha⟩
  · have hdev' : (s5.head bh).bDev ≠ 0 := by rwa [hdev5]
    have hhead := insertIntoHash_head s5 bh hdev'
    obtain ⟨-, hfl, hsb, hnb⟩ := insertIntoHash_vars s5 bh hdev'
    have hc6 := hc5.insert hdev' hfree hlinks5.2
    rw [if_neg hdev, ← hslot5]
    refine ⟨hr5.congr hfl (fun a => by simp only [Cache.nextFree, hhead])
      (fun a => by simp only [Cache.prevFree, hhead]), hc6, fun h0 => absurd h0 hdev,
      hsb.trans hvars5.2.2.1, hnb.trans hvars5.2.2.2, fun a => ?_, fun a ha hidle => ?_⟩
    · rw [hhead, ← hdata5]
      rfl
    · have hfirst : s5.hashTable (s5.head bh).slot ≠ some a := fun hf =>
        hidle _ (List.mem_of_head? ((hc5.links _).head_eq.symm.trans hf))
      rw [← (hother5 a ha).1, ← (hother5 a ha).2]
      simp only [Cache.next, Cache.prev, hhead, ha, if_false, hfirst, and_self]

end Halves

/-- The head under its new key, without its links. -/
def BufferHead.claimed (b : BufferHead) (dev block : BitVec 32) : BufferHead :=
  { b.unlinked with
    bCount := 1, bDirt := 0, bUptodate := 0, bDev := dev.setWidth 16, bBlocknr := block }

/-- The chains after `bh` has been taken for `(dev, block)`. -/
def claimChains (chains : Fin nrHash → List Nat) (bh : Nat) (dev block : BitVec 32) :
    Fin nrHash → List Nat :=
  let rest := fun i => (chains i).erase bh
  let slot := hashfn ((dev.setWidth 16).setWidth 32) block
  if dev.setWidth 16 = 0 then rest else Function.update rest slot (bh :: rest slot)

theorem headers_congr {s s' : Cache} (hs : s'.startBuffer = s.startBuffer)
    (hn : s'.nrBuffers = s.nrBuffers) : s'.headers = s.headers := by
  simp only [Cache.headers, hs, hn]

theorem headers_nodup (s : Cache) : s.headers.Nodup := by
  refine List.Nodup.map (fun i j hij => ?_) List.nodup_range
  simp only [sizeofBufferHead] at hij
  omega

section Claim

variable {s s' : Cache} {ring : List Nat} {chains : Fin nrHash → List Nat} {bh : Nat}

/-- Writes that touch neither keys nor links keep the queues. -/
theorem Queued.congr (h : Queued s ring chains) (hs : s'.startBuffer = s.startBuffer)
    (hn : s'.nrBuffers = s.nrBuffers) (hf : s'.freeList = s.freeList)
    (ht : s'.hashTable = s.hashTable)
    (hkey : ∀ a, (s'.head a).bDev = (s.head a).bDev ∧ (s'.head a).bBlocknr = (s.head a).bBlocknr)
    (hlink : ∀ a, s'.next a = s.next a ∧ s'.prev a = s.prev a ∧
      s'.nextFree a = s.nextFree a ∧ s'.prevFree a = s.prevFree a) : Queued s' ring chains := by
  have hh := headers_congr hs hn
  have hslot : ∀ a, (s'.head a).slot = (s.head a).slot := fun a => by
    simp only [BufferHead.slot, (hkey a).1, (hkey a).2]
  refine ⟨h.free.congr hf (fun a => (hlink a).2.2.1) (fun a => (hlink a).2.2.2), hh ▸ h.perm,
    h.hash.congr ht (fun _ a _ => ⟨(hlink a).1, (hlink a).2.1⟩), fun i b => ?_,
    fun b hb hdev => ?_⟩
  · rw [h.mem, hh, hslot, (hkey b).1]
  · rw [(hlink b).1, (hlink b).2.1]
    rw [hh] at hb
    exact h.unhashed b hb ((hkey b).1 ▸ hdev)

/-- Writes that touch neither keys nor links keep the representation. -/
theorem Rep.congr (h : Rep s ring chains) (hs : s'.startBuffer = s.startBuffer)
    (hn : s'.nrBuffers = s.nrBuffers) (hf : s'.freeList = s.freeList)
    (ht : s'.hashTable = s.hashTable)
    (hkey : ∀ a, (s'.head a).bDev = (s.head a).bDev ∧ (s'.head a).bBlocknr = (s.head a).bBlocknr)
    (hlink : ∀ a, s'.next a = s.next a ∧ s'.prev a = s.prev a ∧
      s'.nextFree a = s.nextFree a ∧ s'.prevFree a = s.prevFree a) : Rep s' ring chains := by
  rcases h.queued.congr hs hn hf ht hkey hlink with ⟨hfree, hperm, hhash, hmem, hun⟩
  refine ⟨hfree, hperm, hhash, hmem, hun, fun a ha b hb hdev hd hbl => ?_⟩
  rw [headers_congr hs hn] at ha hb
  rw [(hkey a).1] at hdev hd
  rw [(hkey b).1] at hd
  rw [(hkey a).2, (hkey b).2] at hbl
  exact h.uniq a ha b hb hdev hd hbl

theorem mem_claimChains {dev block : BitVec 32} {i : Fin nrHash} {b : Nat}
    (hnd : ∀ i, (chains i).Nodup) : b ∈ claimChains chains bh dev block i ↔
      (b = bh ∧ dev.setWidth 16 ≠ 0 ∧ hashfn ((dev.setWidth 16).setWidth 32) block = i) ∨
      (b ≠ bh ∧ b ∈ chains i) := by
  simp only [claimChains]
  split
  · rename_i h0
    simp [(hnd i).mem_erase_iff, h0]
  · rename_i h0
    by_cases hi : i = hashfn ((dev.setWidth 16).setWidth 32) block
    · subst hi
      have h0' : ¬ dev.setWidth 16 = 0#16 := h0
      simp [(hnd _).mem_erase_iff, h0']
    · simp [(hnd i).mem_erase_iff, Function.update_of_ne hi, Ne.symm hi]

/-- What `getblk` does to the cache when it takes the head `bh` for `(dev, block)`. -/
structure Claimed (s s' : Cache) (bh : Nat) (dev block : BitVec 32) : Prop where
  start : s'.startBuffer = s.startBuffer
  count : s'.nrBuffers = s.nrBuffers
  self : (s'.head bh).unlinked = (s.head bh).claimed dev block
  others : ∀ a, a ≠ bh → (s'.head a).unlinked = (s.head a).unlinked

/-- The end of `getblk` as seen from the queues: `bh` goes to the end of the ring and to the
front of the chain of its new slot. -/
theorem Queued.claimQueues (h : Queued s ring chains) (hb : bh ∈ s.headers) (dev block : BitVec 32) :
    ∃ s', claimBuffer s bh dev block = .ok s' ∧ Claimed s s' bh dev block ∧
      FreeRing s' (ring.erase bh ++ [bh]) ∧ HashChains s' (claimChains chains bh dev block) ∧
      (∀ a, a ≠ bh → (∀ i, a ∉ chains i) → s'.next a = s.next a ∧ s'.prev a = s.prev a) ∧
      (dev.setWidth 16 = 0 → s'.next bh = none ∧ s'.prev bh = none) := by
  have hring : bh ∈ ring := h.perm.mem_iff.mpr hb
  -- the flags
  let s1 := s.modify bh ({ · with bCount := 1, bDirt := 0, bUptodate := 0 })
  have hlink1 : ∀ a, s1.next a = s.next a ∧ s1.prev a = s.prev a ∧
      s1.nextFree a = s.nextFree a ∧ s1.prevFree a = s.prevFree a := fun a => by
    simp only [s1, Cache.next, Cache.prev, Cache.nextFree, Cache.prevFree, Cache.modify_head]
    split <;> simp
  have h1 : Queued s1 ring chains := by
    refine h.congr rfl rfl rfl rfl (fun a => ?_) hlink1
    simp only [s1, Cache.modify_head]
    split <;> simp
  have hslot1 : ∀ i, bh ∈ chains i → i = (s1.head bh).slot := fun i hi =>
    ((h1.mem i bh).mp hi).2.2.symm
  have hout1 : bh ∉ chains (s1.head bh).slot → s1.next bh = none ∧ s1.prev bh = none := by
    intro hni
    refine h1.unhashed bh hb ?_
    by_contra hdev
    exact hni ((h1.mem _ bh).mpr ⟨hb, hdev, rfl⟩)
  -- out of the queues, under the new key, and back
  obtain ⟨s2, hok2, hr2, hc2, hf2⟩ := removeFromQueues_spec h1.hash h1.free hring hslot1 hout1
  let s3 := s2.modify bh ({ · with bDev := dev.setWidth 16, bBlocknr := block })
  have hlink3 : ∀ a, s3.next a = s2.next a ∧ s3.prev a = s2.prev a ∧
      s3.nextFree a = s2.nextFree a ∧ s3.prevFree a = s2.prevFree a := fun a => by
    simp only [s3, Cache.next, Cache.prev, Cache.nextFree, Cache.prevFree, Cache.modify_head]
    split <;> simp
  have hr3 : FreeRing s3 _ := hr2.congr rfl (fun a => (hlink3 a).2.2.1) (fun a => (hlink3 a).2.2.2)
  have hc3 : HashChains s3 _ := hc2.congr rfl (fun _ a _ => ⟨(hlink3 a).1, (hlink3 a).2.1⟩)
  have hfree3 : ∀ i, bh ∉ (chains i).erase bh := fun i hi =>
    ((h.hash.nodup i).mem_erase_iff.mp hi).1 rfl
  have hout3 : bh ∉ ring.erase bh := fun hi => (h.free.nodup.mem_erase_iff.mp hi).1 rfl
  obtain ⟨s', hok4, hr4, hc4, hl4, hf4⟩ := insertIntoQueues_spec hc3 hr3
    (by split <;> simp [hout3]) hfree3
  have hdev3 : (s3.head bh).bDev = dev.setWidth 16 := by simp [s3]
  have hslot3 : (s3.head bh).slot = hashfn ((dev.setWidth 16).setWidth 32) block := by
    simp [s3, BufferHead.slot]
  rw [hdev3] at hc4 hl4
  rw [hslot3] at hc4
  refine ⟨s', ?_, ⟨hf4.start.trans hf2.start, hf4.count.trans hf2.count, ?_, fun a ha => ?_⟩,
    ?_, hc4, fun a ha hidle => ?_, hl4⟩
  · have hok2' : removeFromQueues
        (s.modify bh ({ · with bCount := 1, bDirt := 0, bUptodate := 0 })) bh = .ok s2 := hok2
    simp only [claimBuffer, hok2', bind, Except.bind]
    exact hok4
  · have hdata := hf2.data bh
    simp only [s1, Cache.modify_head, if_true] at hdata
    rw [hf4.data]
    simp only [s3, Cache.modify_head, if_true]
    have : ∀ x y : BufferHead, x.unlinked = y.unlinked →
        ({ x with bDev := dev.setWidth 16, bBlocknr := block } : BufferHead).unlinked =
        { y.unlinked with bDev := dev.setWidth 16, bBlocknr := block } := by
      intro x y hxy
      rw [← hxy]
      rfl
    rw [this _ _ hdata]
    rfl
  · rw [hf4.data]
    simp only [s3, Cache.modify_head, ha, if_false]
    rw [hf2.data]
    simp [s1, ha]
  · have hend : (if (if ring.erase bh = [] then [bh] else ring.erase bh) = [bh] then [bh]
        else (if ring.erase bh = [] then [bh] else ring.erase bh) ++ [bh]) =
        ring.erase bh ++ [bh] := by
      by_cases hempty : ring.erase bh = []
      · simp [hempty]
      · have hne : ring.erase bh ≠ [bh] := fun heq => hout3 (heq ▸ by simp)
        simp [hempty, hne]
    rwa [hend] at hr4
  · have h4 := hf4.idle a ha (fun i hi => hidle i (List.mem_of_mem_erase hi))
    have h2 := hf2.idle a ha hidle
    rw [h4.1, h4.2, (hlink3 a).1, (hlink3 a).2.1, h2.1, h2.2]
    exact ⟨(hlink1 a).1, (hlink1 a).2.1⟩

theorem Claimed.headers {dev block : BitVec 32} (h : Claimed s s' bh dev block) :
    s'.headers = s.headers := headers_congr h.start h.count

/-- The keys after `bh` has been taken. -/
theorem Claimed.key {dev block : BitVec 32} (h : Claimed s s' bh dev block) (a : Nat) :
    (s'.head a).bDev = (if a = bh then dev.setWidth 16 else (s.head a).bDev) ∧
      (s'.head a).bBlocknr = (if a = bh then block else (s.head a).bBlocknr) := by
  by_cases ha : a = bh
  · subst ha
    have hd := congrArg BufferHead.bDev h.self
    have hb := congrArg BufferHead.bBlocknr h.self
    simp only [if_true]
    exact ⟨hd, hb⟩
  · have hd := congrArg BufferHead.bDev (h.others a ha)
    have hb := congrArg BufferHead.bBlocknr (h.others a ha)
    simp only [ha, if_false]
    exact ⟨hd, hb⟩

/-- The count and the flags after `bh` has been taken. -/
theorem Claimed.flags {dev block : BitVec 32} (h : Claimed s s' bh dev block) (a : Nat) :
    (s'.head a).bCount = (if a = bh then 1 else (s.head a).bCount) ∧
      (s'.head a).bDirt = (if a = bh then 0 else (s.head a).bDirt) ∧
      (s'.head a).bLock = (s.head a).bLock := by
  by_cases ha : a = bh
  · subst ha
    have hc := congrArg BufferHead.bCount h.self
    have hd := congrArg BufferHead.bDirt h.self
    have hl := congrArg BufferHead.bLock h.self
    simp only [if_true]
    exact ⟨hc, hd, hl⟩
  · have hc := congrArg BufferHead.bCount (h.others a ha)
    have hd := congrArg BufferHead.bDirt (h.others a ha)
    have hl := congrArg BufferHead.bLock (h.others a ha)
    simp only [ha, if_false]
    exact ⟨hc, hd, hl⟩

/-- The end of `getblk` keeps the queues. -/
theorem Queued.claim (h : Queued s ring chains) (hb : bh ∈ s.headers) (dev block : BitVec 32) :
    ∃ s', claimBuffer s bh dev block = .ok s' ∧ Claimed s s' bh dev block ∧
      Queued s' (ring.erase bh ++ [bh]) (claimChains chains bh dev block) := by
  obtain ⟨s', hok, hcl, hr, hc, hidle, hself⟩ := h.claimQueues hb dev block
  have hh := hcl.headers
  have hslot : ∀ a, (s'.head a).slot =
      if a = bh then hashfn ((dev.setWidth 16).setWidth 32) block else (s.head a).slot := by
    intro a
    simp only [BufferHead.slot, hcl.key a]
    split <;> rfl
  refine ⟨s', hok, hcl, hr, ?_, hc, fun i b => ?_, fun b hbm hdev => ?_⟩
  · rw [hh]
    have hmem : bh ∈ ring := h.perm.mem_iff.mpr hb
    exact (List.perm_append_singleton bh _).trans
      ((List.perm_cons_erase hmem).symm.trans h.perm)
  · rw [mem_claimChains h.hash.nodup, hh, (hcl.key b).1, hslot]
    by_cases hbb : b = bh
    · subst hbb
      simp [hb]
    · simp only [hbb, if_false, false_and, false_or, ne_eq, not_false_eq_true, true_and]
      exact h.mem i b
  · rw [hh] at hbm
    rw [(hcl.key b).1] at hdev
    by_cases hbb : b = bh
    · subst hbb
      exact hself (by simpa using hdev)
    · rw [if_neg hbb] at hdev
      rcases hidle b hbb (fun i hi => ((h.mem i b).mp hi).2.1 hdev) with ⟨hn, hp⟩
      rw [hn, hp]
      exact h.unhashed b hbm hdev

/-- The end of `getblk` keeps the representation, provided the key is not cached yet. -/
theorem Rep.claim (h : Rep s ring chains) (hb : bh ∈ s.headers) (dev block : BitVec 32)
    (hnew : dev.setWidth 16 ≠ 0 → ∀ a ∈ s.headers, a ≠ bh →
      ¬ ((s.head a).bDev = dev.setWidth 16 ∧ (s.head a).bBlocknr = block)) :
    ∃ s', claimBuffer s bh dev block = .ok s' ∧ Claimed s s' bh dev block ∧
      Rep s' (ring.erase bh ++ [bh]) (claimChains chains bh dev block) := by
  obtain ⟨s', hok, hcl, hfree, hperm, hhash, hmem, hun⟩ := h.queued.claim hb dev block
  refine ⟨s', hok, hcl, hfree, hperm, hhash, hmem, hun, fun a ha b hbm hdev hd hbl => ?_⟩
  rw [hcl.headers] at ha hbm
  rw [(hcl.key a).1] at hdev hd
  rw [(hcl.key b).1] at hd
  rw [(hcl.key a).2, (hcl.key b).2] at hbl
  by_cases hab : a = bh <;> by_cases hbb : b = bh
  · rw [hab, hbb]
  · simp only [hab, hbb, if_true, if_false] at hdev hd hbl
    exact absurd ⟨hd.symm, hbl.symm⟩ (hnew hdev b hbm hbb)
  · simp only [hab, hbb, if_true, if_false] at hdev hd hbl
    exact absurd ⟨hd, hbl⟩ (hnew (hd ▸ hdev) a ha hab)
  · simp only [hab, hbb, if_false] at hdev hd hbl
    exact h.uniq a ha b hbm hdev hd hbl

end Claim

end MockOs.Fs
