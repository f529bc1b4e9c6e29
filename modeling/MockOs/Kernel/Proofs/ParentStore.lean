import MockOs.Kernel.Proofs.SysFork

/-!
# Stores after a fork

The child of a fork keeps what it saw at the fork, whatever its parent stores. Task 0 is
different: `copy_page_tables` leaves its entries writable (`this_page > LOW_MEM` does not hold
for them), and the child goes on using its frames until it stores to the page itself. Only the
page of the stack is copied at once.
-/

namespace MockOs.Kernel

open Mm

/-- The page is in no frame of the first 640 KB, where task 0 is. -/
def OwnCopy (a : Spaces) (t : Fin 64) (p : Nat) : Prop := ∀ f, a.pte t p = some f → 1024 ≤ f

section OwnCopy

variable {vis : Nat → Prop} {m : Memory} {tab : Fin 64 → Option Nat} {a a' : Spaces} {t c : Fin 64} {p f : Nat}

theorem OwnCopy.unshared (h : OwnCopy a c p) {q : Nat} (hun : Unshared a t q f a') : OwnCopy a' c p := by
  intro f' hf'
  cases hun with
  | sole => exact h f' hf'
  | copy k _ hk =>
    rcases Cow.split_pte.mp hf' with ⟨-, -, rfl⟩ | ⟨-, hold⟩
    · exact (mem_freeFrames.mp hk).2.1
    · exact h f' hold

/-- A page that may be written is a copy. -/
theorem OwnCopy.of_wr (hrep : Rep vis m tab a) (hwr : a.wr t p = true) : OwnCopy a t p := by
  intro f hf
  rcases hrep.wr_high hwr with ⟨f', hf', hhigh, -⟩
  rwa [Option.some.inj (hf.symm.trans hf')]

end OwnCopy

namespace ForkRep

variable {vis : Nat → Prop} {w0 : Nat} {s s' : ForkSys} {loc tab : Fin 64 → Option Nat} {a : Spaces}
  {t c : Fin 64} {x y k g l p f : Nat} {r : Regs} {off : BitVec 32}

/-! ## Stores of task 0 -/

/-- Task 0 stores to the first 640 KB themselves. -/
theorem userStore_zero (h : ForkRep vis w0 s loc tab a) (hoff : off.toNat < 655360)
    (hlow : 5120 ≤ off.toNat / 4) (hinit : off.toNat / 4 < w0 ∨ w0 + 1024 ≤ off.toNat / 4) (v : BitVec 8) :
    ∃ s', s.userStore 0 off v = some s' ∧
      s'.mm = s.mm.setWord (off.toNat / 4) (setByteOf (s.mm.word (off.toNat / 4)) (off.toNat % 4) v) ∧
      Kept loc s s' ∧ ForkRep vis w0 s' loc tab
        (stored a (off.toNat / 4096) off (s.mm.word (off.toNat / 4)) v) := by
  have hword : 1024 * (off.toNat / 4096) + off.toNat / 4 % 1024 = off.toNat / 4 := by omega
  have hown : a.own (off.toNat / 4096) = false := by
    cases hown : a.own (off.toNat / 4096) with
    | false => rfl
    | true =>
      have hhigh := h.rep.ownHigh _ hown
      omega
  have hdir : s.mm.read (wordAddr (16 * ((0 : Fin 64) : Nat))) = entry 1 7 := by
    rw [Memory.read_wordAddr (by decide)]
    exact h.rep.dirKernel 0 (by decide)
  have hlin := toNat_linear 0 hoff
  have hentry := userEntry_of_table hdir (by decide) (h.rep.kernel (off.toNat / 4096) (by omega)) (by omega)
    (Or.inr rfl) hlin (by omega)
  have hcan : canWrite (taskBase 0 + off) (entry (off.toNat / 4096) 7) s.mm = true := hentry.2
  have hstore := storeByte_entry (m := s.mm) (by omega : off.toNat / 4096 < 4096) (by decide : 7 < 4096) hlin v
  rw [hword] at hstore
  refine ⟨_, ForkSys.userStore_of_entry (h.linear_eq h.locZero hoff) hentry.1 (if_pos hcan).symm hentry.1 hcan v,
    hstore, ?_⟩
  rw [hstore]
  have hrep := h.rep.setWord (f := off.toNat / 4096) (i := off.toNat / 4 % 1024) (by omega) (by omega) hown
    (setByteOf (s.mm.word (off.toNat / 4)) (off.toNat % 4) v)
  rw [hword] at hrep
  refine h.remap hrep rfl (fun _ _ hne => hne) fun t' x j hx hj => Memory.setWord_word_ne ?_
  by_cases ht' : t' = 0
  · rw [ht', h.locZero] at hx
    have hx0 := Option.some.inj hx
    omega
  · rcases h.locFrame t' x ht' hx with ⟨f, hxf, hownf, -⟩
    have hhigh := h.rep.ownHigh f hownf
    omega

/-- Who has a copy of the page does not see the store, and no other byte changes. -/
theorem userLoad_zero (h : ForkRep vis w0 s loc tab a) {w : BitVec 32} {v : BitVec 8}
    (h' : ForkRep vis w0 s' loc tab (stored a (off.toNat / 4096) off w v))
    (hmm : s'.mm = s.mm.setWord (off.toNat / 4) (setByteOf (s.mm.word (off.toNat / 4)) (off.toNat % 4) v))
    (hoff : off.toNat < 655360) {off₁ : BitVec 32} (ht : loc t = some y) (hoff₁ : off₁.toNat < 655360)
    (hne : off₁ = off → OwnCopy a t (off₁.toNat / 4096)) : s'.userLoad t off₁ = s.userLoad t off₁ := by
  rcases h.page_eq ht hoff₁ with ⟨f₁, hf₁⟩
  refine h.userLoad_congr h' ht hoff₁ hf₁ hf₁ ?_
  rw [hmm]
  refine byteOf_setWord v (by omega) fun hword hbyte => ?_
  rcases h.rep.frame t _ f₁ hf₁ with ⟨-, hlow | hhigh⟩
  · have hsame : off₁ = off := BitVec.eq_of_toNat_eq (by omega)
    have hcopy := hne hsame f₁ hf₁
    omega
  · omega

/-! ## One store -/

/-- What a store changes: a byte of the task that makes it, or of those who share the frames of
task 0 with it. -/
theorem storeStep {b : Boot} {n : Nat} {v : BitVec 8} (h : ForkRep b.Modelled b.init s loc tab a)
    (hstep : StoreStep b (.store n off v) s s') :
    ∃ a', ForkRep b.Modelled b.init s' loc tab a' ∧ Kept loc s s' ∧
      (∀ t₁ p, OwnCopy a t₁ p → OwnCopy a' t₁ p) ∧
      (∀ t₁ : Fin 64, t₁ ≠ 0 → (t₁ : Nat) = n → OwnCopy a' t₁ (off.toNat / 4096)) ∧
      ∀ (t₁ : Fin 64) (y : Nat) (off₁ : BitVec 32), loc t₁ = some y → off₁.toNat < 655360 →
        ((t₁ : Nat) = n → off₁ ≠ off) → (n = 0 → off₁ = off → OwnCopy a t₁ (off₁.toNat / 4096)) →
        s'.userLoad t₁ off₁ = s.userLoad t₁ off₁ := by
  cases hstep with
  | task hstep =>
    rcases hstep with ⟨⟨hlive, hn, hoff, hpages⟩, hexec⟩
    rcases h.of_live hlive with ⟨t, x, rfl, ht⟩
    rcases h.page_eq ht hoff with ⟨f, hf⟩
    have hstore : s.userStore t off v = some s' := hexec
    rcases h.userStore_eq ht (Fin.pos_iff_ne_zero.mp hn) hoff hf v hpages with
      ⟨s1, a', f', w, heq, hor, hwr, hf', -, -, hkept, hrep, hload⟩
    obtain rfl : s1 = s' := Option.some.inj (heq.symm.trans hstore)
    refine ⟨_, hrep, hkept, fun t₁ p hcopy => ?_, fun t₁ _ htn => ?_, fun t₁ y off₁ ht₁ hoff₁ hself _ => ?_⟩
    · rcases hor with rfl | hun
      · exact hcopy
      · have hcopy' : OwnCopy a' t₁ p := hcopy.unshared hun
        exact hcopy'
    · obtain rfl : t₁ = t := Fin.ext htn
      exact OwnCopy.of_wr hrep.rep hwr
    · refine hload t₁ y off₁ ht₁ hoff₁ ?_
      by_cases htt : t₁ = t
      · exact Or.inr (hself (congrArg Fin.val htt))
      · exact Or.inl htt
  | init hoff hvis hexec =>
    have hstore : s.userStore 0 off v = some s' := hexec
    rcases h.userStore_zero hoff hvis.1 hvis.2 v with ⟨s1, heq, hmm, hkept, hrep⟩
    obtain rfl : s1 = s' := Option.some.inj (heq.symm.trans hstore)
    refine ⟨_, hrep, hkept, fun _ _ hcopy => hcopy, fun t₁ ht₁ hzero => absurd (Fin.ext hzero) ht₁,
      fun t₁ y off₁ ht₁ hoff₁ _ hne => ?_⟩
    exact h.userLoad_zero hrep hmm hoff ht₁ hoff₁ (hne rfl)

/-- Every step keeps the representation. -/
theorem anyStep {b : Boot} {act : Act} (h : ForkRep b.Modelled b.init s loc tab a)
    (hstep : StoreStep b act s s') : ∃ loc' tab' a', ForkRep b.Modelled b.init s' loc' tab' a' := by
  cases hstep with
  | task hfork =>
    rcases h.step hfork with ⟨loc', tab', a', -, hrep⟩
    exact ⟨loc', tab', a', hrep⟩
  | init hoff hvis hexec =>
    rcases h.storeStep (.init hoff hvis hexec) with ⟨a', hrep, -⟩
    exact ⟨loc, tab, a', hrep⟩

/-! ## The fork -/

/-- Right after the fork the child reads what the parent read, and its stack is a copy. -/
theorem forkStep (h : ForkRep vis w0 s loc tab a) {n m : Nat} (hstep : ForkStep (.fork n r) s s')
    (hdead : ¬ s.Live m) (hlive : s'.Live m) :
    ∃ (t c : Fin 64) (y : Nat) (loc' tab' : Fin 64 → Option Nat) (a' : Spaces), (t : Nat) = n ∧ (c : Nat) = m ∧
      c ≠ 0 ∧ c ≠ t ∧ loc' c = some y ∧ ForkRep vis w0 s' loc' tab' a' ∧ OwnCopy a' c (stackPage r.esp) ∧
      ∀ off : BitVec 32, off.toNat < 655360 → vis (off.toNat / 4) → s'.userLoad m off = s.userLoad n off := by
  rcases hstep with ⟨⟨hparent, h0, h1, hpages⟩, hexec⟩
  rcases h.of_live hparent with ⟨t, y, rfl, ht⟩
  by_cases hslot : s.FreeSlot
  · rcases h.sysFork_forked ht hslot (hpages hslot) h0 h1 with
      ⟨c, pid, k, g, l, f, old, s1, hc, hcn, -, -, -, -, hk, hg, hl, hf, hcall, -, -, hrep⟩
    simp only [ForkSys.exec, hcall] at hexec
    obtain rfl : s1 = s' := Option.some.inj hexec
    -- the child is the only task that was not there before
    rcases hrep.of_live hlive with ⟨c', x, rfl, hx⟩
    obtain rfl : c' = c := by
      by_contra hne
      rw [Function.update_of_ne hne] at hx
      exact hdead (h.live_iff.mpr (by rw [hx]; exact Option.some_ne_none x))
    have hct : c' ≠ t := slot_ne ht hcn
    refine ⟨t, c', x, _, _, _, rfl, rfl, hc, hct, hx, hrep, fun f' hf' => ?_, fun off hoff hvis => ?_⟩
    · have hcopy : (forkedSpaces t c' k g l (stackPage r.esp) f a).pte c' (stackPage r.esp) = some l := Cow.set2_self
      rw [← Option.some.inj (hcopy.symm.trans hf')]
      exact (mem_freeFrames.mp (Finset.mem_of_mem_erase (Finset.mem_of_mem_erase hl))).2.1
    · have hagree : Cow.Agrees a fun t' p' => (a.pte t' p').elim (fun _ => 0) a.mem := by
        intro t' p' f' hf'
        show a.mem f' = (a.pte t' p').elim (fun _ => 0) a.mem
        rw [hf']
        rfl
      have hagree' := h.forkedSpaces_agrees ht hc hcn hk hg hl hf hagree
      rcases h.page_eq ht hoff with ⟨fp, hfp⟩
      rcases hrep.page_eq hx hoff with ⟨fc, hfc⟩
      have hp : 1024 * (off.toNat / 4096) + off.toNat / 4 % 1024 = off.toNat / 4 := by omega
      have hmem : (forkedSpaces t c' k g l (stackPage r.esp) f a).mem fc = a.mem fp := by
        rw [hagree' c' _ fc hfc, Function.update_self, hagree t _ fp hfp]
      rw [hrep.userLoad_eq hx hoff hfc, h.userLoad_eq ht hoff hfp,
        hrep.rep.mem c' _ fc _ hfc (by omega) (by rwa [hp]), h.rep.mem t _ fp _ hfp (by omega) (by rwa [hp]), hmem]
  · rcases h.sysFork_full r (s.task t) hslot with ⟨pid, -, hcall⟩
    simp only [ForkSys.exec, hcall] at hexec
    rw [← Option.some.inj hexec] at hlive
    exact absurd hlive hdead

end ForkRep

/-! ## Runs of stores -/

theorem Boot.anyRep (b : Boot) {acts : List Act} {s : ForkSys} (hrun : Run.Trace (StoreStep b) b.start acts s) :
    ∃ loc tab a, ForkRep b.Modelled b.init s loc tab a := by
  refine Run.Trace.invariant (P := fun s => ∃ loc tab a, ForkRep b.Modelled b.init s loc tab a)
    (fun act s s' h hstep => ?_) hrun ⟨_, _, _, b.start_forkRep⟩
  rcases h with ⟨loc, tab, a, h⟩
  exact h.anyStep hstep

section Later

variable {b : Boot} {s s' : ForkSys} {acts : List Act} {act : Act} {loc tab : Fin 64 → Option Nat}
  {t c : Fin 64} {y p : Nat} {off : BitVec 32}

/-- After the actions the child still reads the byte, and what it stored to is its own. -/
structure ChildKeeps (b : Boot) (s s' : ForkSys) (acts : List Act) (loc tab : Fin 64 → Option Nat) (c : Fin 64)
    (p : Nat) (off : BitVec 32) (a : Spaces) : Prop where
  rep : ForkRep b.Modelled b.init s' loc tab a
  stack : OwnCopy a c p
  stores : ∀ off' v, Act.store c off' v ∈ acts → OwnCopy a c (off'.toNat / 4096)
  load : s'.userLoad c off = s.userLoad c off

theorem AfterChild.of_snoc {n : Nat} (h : AfterChild n off (acts ++ [act])) : AfterChild n off acts := by
  intro pre v post heq
  refine h pre v (post ++ [act]) ?_
  rw [heq, List.append_assoc, List.cons_append]

/-- One more store of the parent or the child. -/
theorem ChildKeeps.snoc {a : Spaces} {s'' : ForkSys} {n : Nat} {off' : BitVec 32} {v : BitVec 8}
    (h : ChildKeeps b s s' acts loc tab c p off a) (hstep : StoreStep b (.store n off' v) s' s'') (hc : c ≠ 0)
    (hx : loc c = some y) (hoff : off.toNat < 655360) (hself : (c : Nat) = n → off ≠ off')
    (hzero : n = 0 → off = off' → OwnCopy a c (off.toNat / 4096)) :
    ∃ a', ChildKeeps b s s'' (acts ++ [.store n off' v]) loc tab c p off a' := by
  rcases h.rep.storeStep hstep with ⟨a', hrep, -, hcopy, hown, hload⟩
  refine ⟨a', hrep, hcopy c p h.stack, fun off₁ v₁ hmem => ?_, ?_⟩
  · rcases List.mem_append.mp hmem with hbefore | hlast
    · exact hcopy c _ (h.stores off₁ v₁ hbefore)
    · have heq := List.mem_singleton.mp hlast
      injection heq with hcn hoffs _
      rw [hoffs]
      exact hown c hc hcn
  · exact (hload c y off hx hoff hself hzero).trans h.load

/-- A run of stores of the parent and the child. -/
theorem ChildKeeps.run {a : Spaces} (hrep : ForkRep b.Modelled b.init s loc tab a) (hc : c ≠ 0) (hx : loc c = some y)
    (hct : c ≠ t) (hstack : OwnCopy a c p) (hoff : off.toNat < 655360)
    (hrun : Run.Trace (StoreStep b) s acts s')
    (hstores : ∀ act ∈ acts, ∃ off' v, act = .store t off' v ∨ act = .store c off' v)
    (hself : ∀ v, Act.store c off v ∉ acts)
    (hinit : t = 0 → off.toNat / 4096 = p ∨ AfterChild c off acts) :
    ∃ a', ChildKeeps b s s' acts loc tab c p off a' := by
  induction hrun with
  | nil => exact ⟨a, hrep, hstack, fun _ _ hmem => absurd hmem List.not_mem_nil, rfl⟩
  | snoc hbefore hlast ih =>
    rename_i as act s₁ s₂
    have hin : ∀ act' ∈ as, act' ∈ as ++ [act] := fun act' hmem => List.mem_append_left _ hmem
    rcases ih (fun act' hmem => hstores act' (hin act' hmem)) (fun v hmem => hself v (hin _ hmem))
      (fun ht => (hinit ht).imp_right AfterChild.of_snoc) with ⟨a₁, hkeeps⟩
    have hact := List.mem_append_right as (List.mem_singleton.mpr (rfl : act = act))
    rcases hstores act hact with ⟨off', v, rfl | rfl⟩
    · refine hkeeps.snoc hlast hc hx hoff (fun hcn => absurd (Fin.ext hcn) hct) fun ht hoffs => ?_
      subst hoffs
      have ht0 : t = 0 := Fin.ext ht
      rcases hinit ht0 with hpage | hafter
      · rw [hpage]
        exact hkeeps.stack
      · rcases hafter as v [] (by rw [ht0]; rfl) with ⟨off₁, v₁, hmem, hpage⟩
        rw [← hpage]
        exact hkeeps.stores off₁ v₁ hmem
    · refine hkeeps.snoc hlast hc hx hoff (fun _ hoffs => ?_) fun hzero => absurd (Fin.ext hzero) hc
      subst hoffs
      exact hself v hact

end Later

/-- The stores of a parent do not reach its child: after a fork and any stores of the two, the
child reads at every offset it did not store to the byte that was there at the fork. If the
parent is task 0, this is so for the page of the stack, which is copied at the fork, and for
the offsets that task 0 stores to only after the child has stored to their page. -/
theorem parent_stores_apart (b : Boot) (acts later : List Act) (s₀ s₁ s₂ : ForkSys) (t c : Nat) (r : Regs)
    (off : BitVec 32) (hrun : Run.Trace (StoreStep b) b.start acts s₀) (hfork : ForkStep (.fork t r) s₀ s₁)
    (hdead : ¬ s₀.Live c) (hlive : s₁.Live c) (hlater : Run.Trace (StoreStep b) s₁ later s₂)
    (hstores : ∀ act ∈ later, ∃ off' v, act = .store t off' v ∨ act = .store c off' v)
    (hoff : off.toNat < 0xa0000) (hself : ∀ v, Act.store c off v ∉ later)
    (hinit : t = 0 → off.toNat / 4096 = stackPage r.esp ∨ AfterChild c off later) :
    ∃ v, s₁.userLoad c off = some v ∧ s₂.userLoad c off = some v ∧
      (b.Modelled (off.toNat / 4) → s₀.userLoad t off = some v) := by
  rcases b.anyRep hrun with ⟨loc, tab, a, hrep⟩
  rcases hrep.forkStep hfork hdead hlive with
    ⟨p, ch, y, loc', tab', a', rfl, rfl, hc, hct, hx, hrep', hstack, hsame⟩
  rcases hrep'.page_eq hx hoff with ⟨f, hf⟩
  have hload := hrep'.userLoad_eq hx hoff hf
  have hinit' : p = 0 → off.toNat / 4096 = stackPage r.esp ∨ AfterChild ch off later :=
    fun hp => hinit (congrArg Fin.val hp)
  rcases ChildKeeps.run hrep' hc hx hct hstack hoff hlater hstores hself hinit' with ⟨a₂, hkeeps⟩
  refine ⟨_, hload, hkeeps.load.trans hload, fun hvis => ?_⟩
  rw [← hsame off hoff hvis]
  exact hload

/-! ## The first fork -/

/-- The first child shares the pages below its stack with task 0. -/
theorem blank_fork : ∃ s loc tab a, ForkStep (.fork 0 stackTop) Boot.blank.start s ∧
    ForkRep Boot.blank.Modelled Boot.blank.init s loc tab a ∧ Spent s loc a 1 0 ∧
    ¬ Boot.blank.start.Live 1 ∧ s.Live 1 ∧ Boot.blank.start.userLoad 0 0x8000 = some 0 := by
  have hstart := Boot.blank.start_forkRep
  have hoff : (0x8000 : BitVec 32).toNat < 655360 := by decide
  rcases Boot.blank.start_spent.fork (by decide) with ⟨s, hfork, loc, tab, a, hrep, hspent⟩
  have hlive : s.Live 1 := by
    refine (hrep.live_iff (t := 1)).mpr fun hno => ?_
    exact absurd ((hspent.tasks 1).mp hno) (by decide)
  have hdead : ¬ Boot.blank.start.Live 1 := by
    intro hone
    exact (hstart.live_iff (t := 1)).mp hone rfl
  have hpage : (bootSpaces Boot.blank.start.mm).pte 0 ((0x8000 : BitVec 32).toNat / 4096) = some 8 := by
    rw [hstart.rep.zero]
    rfl
  have hload := hstart.userLoad_eq hstart.locZero hoff hpage
  rw [show 1024 * 8 + (0x8000 : BitVec 32).toNat / 4 % 1024 = 8192 by decide,
    Boot.blank.start_word (by decide)] at hload
  exact ⟨s, loc, tab, a, hfork, hrep, hspent, hdead, hlive, hload⟩

/-- Task 0 forks and stores a byte to a page that the child still shares with it. -/
theorem parent_store_reaches_child : ∃ s₁ s₂, ForkStep (.fork 0 stackTop) Boot.blank.start s₁ ∧
    ¬ Boot.blank.start.Live 1 ∧ s₁.Live 1 ∧ Run.Trace (StoreStep Boot.blank) s₁ [.store 0 0x8000 7] s₂ ∧
    Boot.blank.start.userLoad 0 0x8000 = some 0 ∧ s₁.userLoad 1 0x8000 = some 0 ∧
    s₂.userLoad 1 0x8000 = some 7 := by
  rcases blank_fork with ⟨s₁, loc, tab, a, hfork, hrep, hspent, hdead, hlive, hzero⟩
  have hoff : (0x8000 : BitVec 32).toNat < 655360 := by decide
  have hvis : Boot.blank.Modelled ((0x8000 : BitVec 32).toNat / 4) := by decide
  rcases hrep.userStore_zero hoff hvis.1 hvis.2 7 with ⟨s₂, hstore, hmm, -, hrep₂⟩
  have hshared : a.pte 1 ((0x8000 : BitVec 32).toNat / 4096) = some 8 :=
    hspent.low 1 8 rfl (by decide) (by decide)
  rcases hrep.of_live hlive with ⟨c, x, hc, hx⟩
  obtain rfl : c = 1 := Fin.ext hc
  rcases Boot.blank.start_forkRep.forkStep hfork hdead hlive with ⟨_, _, _, _, _, _, -, -, -, -, -, -, -, hsame⟩
  refine ⟨s₁, s₂, hfork, hdead, hlive, Run.Trace.nil.snoc (.init (by decide) hvis hstore), hzero,
    (hsame 0x8000 (by decide) hvis).trans hzero, ?_⟩
  have hload := hrep₂.userLoad_eq hx hoff hshared
  rw [hmm, show 1024 * 8 + (0x8000 : BitVec 32).toNat / 4 % 1024 = (0x8000 : BitVec 32).toNat / 4 by decide,
    Memory.setWord_word_self, byteOf_setByteOf _ _ (by decide), if_pos rfl] at hload
  exact hload

/-- The child stores to the page first. -/
theorem parent_stores_apart_child_first : ∃ s₁ s₂, ForkStep (.fork 0 stackTop) Boot.blank.start s₁ ∧
    Run.Trace (StoreStep Boot.blank) s₁ [.store 1 0x8001 5, .store 0 0x8000 7] s₂ ∧
    s₂.userLoad 1 0x8000 = some 0 := by
  rcases blank_fork with ⟨s₁, loc, tab, a, hfork, hrep, hspent, hdead, hlive, hzero⟩
  have hoff : (0x8000 : BitVec 32).toNat < 655360 := by decide
  have hvis : Boot.blank.Modelled ((0x8000 : BitVec 32).toNat / 4) := by decide
  rcases hrep.of_live hlive with ⟨c, x, hc, hx⟩
  obtain rfl : c = 1 := Fin.ext hc
  have hcard := hspent.card
  have hfree : s₁.mm.freePages.Nonempty := Finset.card_pos.mp (by omega)
  rcases hrep.page_eq hx (show (0x8001 : BitVec 32).toNat < 655360 by decide) with ⟨f, hf⟩
  rcases hrep.userStore_eq hx (by decide) (by decide) hf 5 (Or.inl hfree) with ⟨s', _, _, _, hexec, -⟩
  have hstep : StoreStep Boot.blank (.store 1 0x8001 5) s₁ s' :=
    .task ⟨⟨hlive, by decide, by decide, Or.inl hfree⟩, hexec⟩
  rcases hrep.storeStep hstep with ⟨a', hrep', -⟩
  rcases hrep'.userStore_zero hoff hvis.1 hvis.2 7 with ⟨s₂, hstore, -⟩
  have hlater : Run.Trace (StoreStep Boot.blank) s₁ [.store 1 0x8001 5, .store 0 0x8000 7] s₂ :=
    (Run.Trace.nil.snoc hstep).snoc (.init (by decide) hvis hstore)
  have hafter : AfterChild 1 0x8000 [.store 1 0x8001 5, .store 0 0x8000 7] := by
    intro pre v post heq
    cases pre with
    | nil => cases heq
    | cons act pre =>
      injection heq with hact _
      exact ⟨0x8001, 5, hact ▸ List.mem_cons_self, by decide⟩
  rcases parent_stores_apart Boot.blank [] _ _ s₁ s₂ 0 1 stackTop 0x8000 .nil hfork hdead hlive hlater
    (by simp) (by decide) (by simp) (fun _ => Or.inr hafter) with ⟨v, -, hload, hat⟩
  refine ⟨s₁, s₂, hfork, hlater, ?_⟩
  rw [hload, ← hat hvis, hzero]

end MockOs.Kernel
