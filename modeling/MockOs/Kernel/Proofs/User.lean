import MockOs.Kernel.Proofs.Fork
import MockOs.Kernel.Proofs.Pid
import MockOs.Kernel.User

/-!
# User mode on a represented system

What a load, a fault and a store of a task do, in terms of the frame behind its page. A fault
ends the sharing of the page, so the store after it is to a frame of the task alone.
-/

namespace MockOs.Kernel

open Mm

/-! ## Bytes of a word -/

theorem getLsbD_ff (n : Nat) : (0xff#32).getLsbD n = decide (n < 8) := by
  rw [show (0xff#32) = BitVec.ofNat 32 (2 ^ 8 - 1) from rfl, BitVec.getLsbD_ofNat, Nat.testBit_two_pow_sub_one]
  by_cases hn : n < 8
  · have hn32 : n < 32 := by omega
    simp [hn, hn32]
  · simp [hn]

theorem byteOf_setByteOf (w : BitVec 32) (v : BitVec 8) {i j : Nat} (hi : i < 4) :
    byteOf (setByteOf w j v) i = if i = j then v else byteOf w i := by
  apply BitVec.eq_of_getLsbD_eq
  intro k hk
  have hlt : 8 * i + k < 32 := by omega
  simp only [byteOf, setByteOf, BitVec.getLsbD_extractLsb', BitVec.getLsbD_or, BitVec.getLsbD_and,
    BitVec.getLsbD_not, BitVec.getLsbD_shiftLeft, getLsbD_ff, BitVec.getLsbD_setWidth, hk, hlt,
    decide_true, Bool.true_and]
  by_cases hij : i = j
  · subst hij
    have hge : ¬ (8 * i + k < 8 * i) := by omega
    have hk32 : k < 32 := by omega
    simp [hge, hk, hk32]
  · rw [if_neg hij]
    rcases Nat.lt_or_gt_of_ne hij with hbelow | habove
    · have hno : 8 * i + k < 8 * j := by omega
      simp [hno, hk]
    · have hno : ¬ (8 * i + k - 8 * j < 8) := by omega
      have hout : v.getLsbD (8 * i + k - 8 * j) = false := BitVec.getLsbD_of_ge _ _ (by omega)
      simp [hno, hout, hk]

/-! ## The page behind an address -/

section Page

variable {m : Memory} {t : Fin 64} {lin : BitVec 32} {off g f k : Nat}

/-- What the processor finds for a linear address, from the entries in memory. -/
theorem userEntry_of_table (hdir : m.read (wordAddr (16 * t)) = entry g 7) (hg : g < 4096)
    (hword : m.word (1024 * g + off / 4096) = entry f k) (hf : f < 4096) (hk : k = 5 ∨ k = 7)
    (hlin : lin.toNat = 67108864 * (t : Nat) + off) (hoff : off < 4194304) :
    userEntry lin m = some (entry f k) ∧ canWrite lin (entry f k) m = decide (k = 7) := by
  have hread : m.read ((lin >>> 20) &&& 0xffc) = entry g 7 := by
    rw [← hdir]
    exact congrArg m.read (dir_wordAddr hlin hoff)
  have htable : m.read (lin2phy lin m) = entry f k := by
    rw [Rep.lin2phy_dir hdir hg hlin hoff, Memory.read_wordAddr (by omega), hword]
  have hflag : ∀ g' k', g' < 4096 → k' = 5 ∨ k' = 7 → entry g' k' &&& 5 = 5 := by
    intro g' k' hg' hk'
    apply BitVec.eq_of_toNat_eq
    rw [entry_and_low (m := 5) (by decide) (by omega) (by omega) (by decide)]
    rcases hk' with rfl | rfl <;> rfl
  have hwrite : ∀ g' k', g' < 4096 → k' = 5 ∨ k' = 7 → (entry g' k' &&& 2 ≠ 0 ↔ k' = 7) := by
    intro g' k' hg' hk'
    rw [ne_eq, BitVec.toNat_inj.symm, entry_and_low (m := 2) (by decide) (by omega) (by omega) (by decide)]
    rcases hk' with rfl | rfl <;> decide
  constructor
  · rw [userEntry, hread, htable, if_neg (not_not_intro (hflag g 7 hg (Or.inr rfl))),
      if_neg (not_not_intro (hflag f k hf hk))]
  · have hdirw : entry g 7 &&& 2 ≠ 0 := (hwrite g 7 hg (Or.inr rfl)).mpr rfl
    rw [canWrite, hread, decide_eq_true hdirw, Bool.true_and]
    exact decide_eq_decide.mpr (hwrite f k hf hk)

theorem toNat_physical (hf : f < 4096) (hk : k < 4096) (hlin : lin.toNat = 67108864 * (t : Nat) + off) :
    (physical lin (entry f k)).toNat = 4096 * f + off % 4096 := by
  have hlow : (lin &&& 0xfff#32).toNat = off % 4096 := by
    rw [Bits.toNat_and_mask _ 0 12 (by decide), hlin]
    omega
  show ((0xfffff000#32 &&& entry f k) + (lin &&& 0xfff#32)).toNat = _
  rw [page_entry (by omega) hk, BitVec.toNat_add, toNat_wordAddr (by omega), hlow]
  omega

/-- A store through an entry is to one word of its frame. -/
theorem storeByte_entry (hf : f < 4096) (hk : k < 4096) (hlin : lin.toNat = 67108864 * (t : Nat) + off)
    (v : BitVec 8) : storeByte (physical lin (entry f k)) v m =
      m.setWord (1024 * f + off / 4 % 1024) (setByteOf (m.word (1024 * f + off / 4 % 1024)) (off % 4) v) := by
  rw [storeByte, Memory.write, Memory.read, toNat_physical hf hk hlin,
    show (4096 * f + off % 4096) / 4 = 1024 * f + off / 4 % 1024 by omega,
    show (4096 * f + off % 4096) % 4 = off % 4 by omega]

end Page

namespace ForkSys

variable {s : ForkSys} {n : Nat} {off lin e e' : BitVec 32} {m : Memory}

theorem userLoad_of_entry (hlin : s.linear n off = some lin) (he : userEntry lin s.mm = some e) :
    s.userLoad n off = some (loadByte (physical lin e) s.mm) := by
  simp only [userLoad, hlin, he, Option.bind_eq_bind, Option.bind_some]
  rfl

theorem userFault_of_entry (hlin : s.linear n off = some lin) (he : userEntry lin s.mm = some e) :
    s.userFault n off = if canWrite lin e s.mm = true then none
      else some { s with mm := doWpPage lin s.mm } := by
  simp only [userFault, hlin, he, Option.bind_eq_bind, Option.bind_some]
  rfl

/-- A store to a page that may be written once the fault, if there is one, is handled. -/
theorem userStore_of_entry (hlin : s.linear n off = some lin) (he : userEntry lin s.mm = some e)
    (hm : m = if canWrite lin e s.mm then s.mm else doWpPage lin s.mm) (he' : userEntry lin m = some e')
    (hcan : canWrite lin e' m = true) (v : BitVec 8) :
    s.userStore n off v = some { s with mm := storeByte (physical lin e') v m } := by
  simp only [userStore, hlin, he, ← hm, he', hcan, Option.bind_eq_bind, Option.bind_some, if_true]
  rfl

end ForkSys

/-- Each task has the first 640 KB from its base on. -/
theorem Structs.linear_eq {w0 : Nat} {s : ForkSys} {loc : Fin 64 → Option Nat} {t : Fin 64} {x : Nat} {off : BitVec 32}
    (h : Structs w0 s loc) (ht : loc t = some x) (hoff : off.toNat < 655360) :
    s.linear t off = some (taskBase t + off) := by
  have hseg := h.segment ht (Or.inr rfl)
  have htask : s.task t = wordAddr x := by
    rw [h.task t, ht]
    rfl
  have hlt : off < 0xa0000 := by
    rw [BitVec.lt_def]
    exact hoff
  rw [ForkSys.linear, ForkSys.dataSegment, htask, hseg.1, hseg.2, if_pos hlt]

namespace ForkRep

variable {vis : Nat → Prop} {w0 : Nat} {s : ForkSys} {loc tab : Fin 64 → Option Nat} {a : Spaces}
  {t : Fin 64} {x y f g p : Nat} {off : BitVec 32}

theorem task_eq (h : ForkRep vis w0 s loc tab a) (ht : loc t = some x) : s.task t = wordAddr x := by
  rw [h.task t, ht]
  rfl

theorem live_iff (h : ForkRep vis w0 s loc tab a) : s.Live t ↔ loc t ≠ none := by
  have htlt := t.isLt
  cases hx : loc t with
  | none =>
    refine ⟨fun hlive => absurd ?_ hlive.2, fun hno => absurd rfl hno⟩
    rw [h.task t, hx]
    rfl
  | some x =>
    have hb := h.loc_bounds hx
    refine ⟨fun _ => Option.some_ne_none x, fun _ => ⟨htlt, ?_⟩⟩
    rw [h.task_eq hx]
    exact wordAddr_ne_zero (by omega) (by omega)

/-- A live task, by its number. -/
theorem of_live (h : ForkRep vis w0 s loc tab a) {n : Nat} (hlive : s.Live n) :
    ∃ (t : Fin 64) (x : Nat), (t : Nat) = n ∧ loc t = some x := by
  have hlt : n < 64 := hlive.1
  have hne := (h.live_iff (t := ⟨n, hlt⟩)).mp hlive
  rcases Option.ne_none_iff_exists'.mp hne with ⟨x, hx⟩
  exact ⟨⟨n, hlt⟩, x, rfl, hx⟩

theorem toNat_linear (t : Fin 64) (hoff : off.toNat < 655360) :
    (taskBase t + off).toNat = 67108864 * (t : Nat) + off.toNat := by
  have ht := t.isLt
  rw [BitVec.toNat_add, toNat_taskBase]
  omega

theorem linear_eq (h : ForkRep vis w0 s loc tab a) (ht : loc t = some x) (hoff : off.toNat < 655360) :
    s.linear t off = some (taskBase t + off) := h.structs.linear_eq ht hoff

/-- A task that is not task 0 finds the page table of its own. -/
theorem table_eq (h : ForkRep vis w0 s loc tab a) (ht : loc t = some x) (ht0 : t ≠ 0) :
    ∃ g, tab t = some g := by
  rcases h.live_tab ht with hz | hne
  · exact absurd hz ht0
  · exact Option.ne_none_iff_exists'.mp hne

theorem page_eq (h : ForkRep vis w0 s loc tab a) (ht : loc t = some x) (hoff : off.toNat < 655360) :
    ∃ f, a.pte t (off.toNat / 4096) = some f :=
  Option.ne_none_iff_exists'.mp (h.full t _ (by rw [ht]; exact Option.some_ne_none x) (by omega))

/-- The entry of a page of a task that is not task 0, with its write permission. -/
theorem userEntry_task (h : Rep vis s.mm tab a) (ht : tab t = some g) (hoff : off.toNat < 655360)
    (hf : a.pte t (off.toNat / 4096) = some f) :
    ∃ k, (k = 5 ∨ k = 7) ∧ userEntry (taskBase t + off) s.mm = some (entry f k) ∧
      canWrite (taskBase t + off) (entry f k) s.mm = a.wr t (off.toNat / 4096) := by
  have hword := h.table t g ht (off.toNat / 4096) (by omega)
  rw [hf] at hword
  cases hwr : a.wr t (off.toNat / 4096) with
  | true =>
    rw [hwr] at hword
    have hentry := userEntry_of_table (h.read_dir ht) (h.tab_high ht).2 hword (h.frame_lt hf) (Or.inr rfl)
      (toNat_linear t hoff) (by omega)
    exact ⟨7, Or.inr rfl, hentry⟩
  | false =>
    rw [hwr] at hword
    have hentry := userEntry_of_table (h.read_dir ht) (h.tab_high ht).2 hword (h.frame_lt hf) (Or.inl rfl)
      (toNat_linear t hoff) (by omega)
    exact ⟨5, Or.inl rfl, hentry⟩

/-! ## Loads -/

/-- A load reads the frame behind the page. -/
theorem userLoad_eq (h : ForkRep vis w0 s loc tab a) (ht : loc t = some x) (hoff : off.toNat < 655360)
    (hf : a.pte t (off.toNat / 4096) = some f) :
    s.userLoad t off =
      some (byteOf (s.mm.word (1024 * f + off.toNat / 4 % 1024)) (off.toNat % 4)) := by
  have hlt := h.rep.frame_lt hf
  rcases h.rep.source_dir (h.live_tab ht) with ⟨gs, hsource, hdir⟩
  have hin : off.toNat / 4096 < if t = 0 then 160 else 1024 := by split <;> omega
  rcases h.rep.source_word hsource hin with ⟨hnone, -⟩ | ⟨f', k, hf', hk, hword⟩
  · rw [hf] at hnone
    cases hnone
  · obtain rfl : f = f' := Option.some.inj (hf.symm.trans hf')
    have hentry := userEntry_of_table hdir (hsource.frame_lt h.rep) hword hlt hk (toNat_linear t hoff) (by omega)
    have hphys := toNat_physical hlt (by omega : k < 4096) (toNat_linear t hoff)
    rw [ForkSys.userLoad_of_entry (h.linear_eq ht hoff) hentry.1]
    rw [loadByte, Memory.read, hphys, show (4096 * f + off.toNat % 4096) / 4 = 1024 * f + off.toNat / 4 % 1024 by omega,
      show (4096 * f + off.toNat % 4096) % 4 = off.toNat % 4 by omega]

/-- Two systems in which the byte behind the page is the same. -/
theorem userLoad_congr {s' : ForkSys} {tab' : Fin 64 → Option Nat} {a' : Spaces} {f' : Nat}
    (h : ForkRep vis w0 s loc tab a) (h' : ForkRep vis w0 s' loc tab' a') (ht : loc t = some x)
    (hoff : off.toNat < 655360) (hf : a.pte t (off.toNat / 4096) = some f)
    (hf' : a'.pte t (off.toNat / 4096) = some f')
    (hbyte : byteOf (s'.mm.word (1024 * f' + off.toNat / 4 % 1024)) (off.toNat % 4) =
      byteOf (s.mm.word (1024 * f + off.toNat / 4 % 1024)) (off.toNat % 4)) :
    s'.userLoad t off = s.userLoad t off := by
  rw [h'.userLoad_eq ht hoff hf', h.userLoad_eq ht hoff hf, hbyte]

end ForkRep

/-! ## Faults -/

/-- What a fault on page `p` of task `t` does: it may write the page if it is the only user, and
gets a copy in a free frame otherwise. -/
inductive Unshared (a : Spaces) (t : Fin 64) (p f : Nat) : Spaces → Prop
  | sole : 256 ≤ f → a.rc f = 1 → Unshared a t p f (Cow.unprotect a t p)
  | copy (k : Nat) : ¬ (256 ≤ f ∧ a.rc f = 1) → k ∈ freeFrames a →
      Unshared a t p f (Cow.split Counted a t p f k)

section Unshared

variable {vis : Nat → Prop} {m : Memory} {tab : Fin 64 → Option Nat} {a a' : Spaces} {t : Fin 64} {p f : Nat}

theorem Unshared.wr_eq (h : Unshared a t p f a') : a'.wr t p = true := by
  cases h with
  | sole => exact Cow.set2_self
  | copy => exact Cow.set2_self

/-- Every page that was mapped still is. -/
theorem Unshared.mapped (h : Unshared a t p f a') {t' : Fin 64} {p' : Nat} (hp : a.pte t' p' ≠ none) :
    a'.pte t' p' ≠ none := by
  cases h with
  | sole => exact hp
  | copy k _ _ =>
    show Cow.set2 a.pte t p (some k) t' p' ≠ none
    by_cases htp : t' = t ∧ p' = p
    · rw [htp.1, htp.2, Cow.set2_self]
      exact Option.some_ne_none k
    · rwa [Cow.set2_ne htp]

/-- The tasks see what they saw before. -/
theorem Unshared.agrees (h : Unshared a t p f a') (hrep : Rep vis m tab a) (hf : a.pte t p = some f)
    {arr : Fin 64 → Nat → Nat → BitVec 32} (hagree : Cow.Agrees a arr) : Cow.Agrees a' arr := by
  cases h with
  | sole => exact hagree
  | copy k _ hk =>
    rcases mem_freeFrames.mp hk with ⟨-, hk1, h0⟩
    exact hagree.split hf (hrep.free hk1 h0).2

/-- Every task finds the same words behind its pages. -/
def SameWords (a a' : Spaces) (m m' : Memory) : Prop :=
  ∀ t p f f' i, a.pte t p = some f → a'.pte t p = some f' → i < 1024 →
    m'.word (1024 * f' + i) = m.word (1024 * f + i)

/-- Writes to a page table and a free frame alone. -/
theorem SameWords.of_outside {m' : Memory} {g : Nat} (hrep : Rep vis m tab a) (hg : a.own g = true)
    (hword : ∀ x, x / 1024 ≠ g → m'.word x = m.word x) : SameWords a a m m' := by
  intro t' p' f' f'' i hf hf' hi
  obtain rfl : f' = f'' := Option.some.inj (hf.symm.trans hf')
  refine hword _ fun heq => (hrep.inv.owned g hg).2 t' p' ?_
  rw [hf, ← heq]
  congr 1
  omega

/-- A copy of the page in a free frame. -/
theorem SameWords.of_copy {m' : Memory} {g k : Nat} (hrep : Rep vis m tab a) (hg : a.own g = true)
    (hf : a.pte t p = some f) (hk : k ∈ freeFrames a)
    (hword : ∀ x, x / 1024 ≠ g → x / 1024 ≠ k → m'.word x = m.word x)
    (hcopy : ∀ i < 1024, m'.word (1024 * k + i) = m.word (1024 * f + i)) :
    SameWords a (Cow.split Counted a t p f k) m m' := by
  rcases mem_freeFrames.mp hk with ⟨-, hk1, h0⟩
  have hfree := (hrep.free hk1 h0).2
  intro t' p' f₁ f₂ i hf₁ hf₂ hi
  rcases Cow.split_pte.mp hf₂ with ⟨rfl, rfl, rfl⟩ | ⟨-, hf₂'⟩
  · obtain rfl : f = f₁ := Option.some.inj (hf.symm.trans hf₁)
    exact hcopy i hi
  · obtain rfl : f₁ = f₂ := Option.some.inj (hf₁.symm.trans hf₂')
    have hdiv : (1024 * f₁ + i) / 1024 = f₁ := by omega
    refine hword _ (fun heq => ?_) fun heq => ?_
    · exact (hrep.inv.owned g hg).2 t' p' (by rw [hf₁, ← heq, hdiv])
    · exact hfree t' p' (by rw [hf₁, ← heq, hdiv])

end Unshared

namespace ForkRep

variable {vis : Nat → Prop} {w0 : Nat} {s : ForkSys} {loc tab : Fin 64 → Option Nat} {a a' : Spaces}
  {t : Fin 64} {x y f g p : Nat} {off : BitVec 32} {m : Memory}

/-- A frame above 4 MB that a task maps is no page of a `task_struct`. -/
theorem mapped_apart (h : ForkRep vis w0 s loc tab a) (hf : a.pte t p = some f) (hhigh : 1024 ≤ f)
    {t' : Fin 64} (hx : loc t' = some x) {z : Nat} (hz : x ≤ z) (hz' : z < x + 1024) : z / 1024 ≠ f := by
  by_cases ht0 : t' = 0
  · have hlow := h.initLow
    rw [ht0, h.locZero] at hx
    have heq := Option.some.inj hx
    omega
  · rcases h.locFrame t' x ht0 hx with ⟨f', hxf, hown, -⟩
    have hff : f' ≠ f := by
      rintro rfl
      exact (h.rep.inv.owned f' hown).2 t p hf
    omega

/-- A change of the memory that leaves the structures of the tasks alone. -/
theorem remap (h : ForkRep vis w0 s loc tab a) (hrep : Rep vis m tab a') (hown : a'.own = a.own)
    (hmapped : ∀ t p, a.pte t p ≠ none → a'.pte t p ≠ none)
    (hword : ∀ t x j, loc t = some x → j < 1024 → m.word (x + j) = s.mm.word (x + j)) :
    Kept loc s { s with mm := m } ∧ ForkRep vis w0 { s with mm := m } loc tab a' := by
  have hok : ∀ t x, loc t = some x → TaskOk m loc t x :=
    fun t x hx => (h.ok t x hx).congr fun j hj => hword t x j hx (by omega)
  refine ⟨⟨rfl, hword⟩, { h with
    rep := hrep, locFrame := fun t x ht hx => ?_, owned := fun f hf => h.owned f (by rwa [hown] at hf),
    full := fun t p hlive hp => hmapped t p (h.full t p hlive hp), ok := hok }⟩
  rw [hown]
  exact h.locFrame t x ht hx

/-- `do_wp_page` for a task that is not task 0. -/
theorem doWpPage_unshared (h : ForkRep vis w0 s loc tab a) (ht : loc t = some x) (ht0 : t ≠ 0)
    (hoff : off.toNat < 655360) (hf : a.pte t (off.toNat / 4096) = some f)
    (hfree : s.mm.freePages.Nonempty ∨ SolePage (taskBase t + off) s.mm) :
    ∃ a', Unshared a t (off.toNat / 4096) f a' ∧ SameWords a a' s.mm (doWpPage (taskBase t + off) s.mm) ∧
      Kept loc s { s with mm := doWpPage (taskBase t + off) s.mm } ∧
      ForkRep vis w0 { s with mm := doWpPage (taskBase t + off) s.mm } loc tab a' := by
  have hp : off.toNat / 4096 < 1024 := by omega
  rcases h.table_eq ht ht0 with ⟨g, hg⟩
  have hlin := toNat_linear t hoff
  have hnotab : ∀ t' x j, loc t' = some x → j < 1024 → (x + j) / 1024 ≠ g := by
    intro t' x j hx hj hz
    exact (h.hidden hx (Nat.le_add_right x j) (by omega)).2.1 t (hz ▸ hg)
  rw [h.rep.doWpPage_eq hg hlin (by omega)]
  by_cases hsole : 256 ≤ f ∧ a.rc f = 1
  · refine ⟨_, .sole hsole.1 hsole.2, ?_⟩
    rw [h.rep.unWpPage_sole hg hp hf hsole.1 hsole.2]
    refine ⟨SameWords.of_outside h.rep (h.rep.tabOwn t g hg) fun x hx => Memory.setWord_word_ne (by omega), ?_⟩
    refine h.remap (h.rep.unprotect hg hp hf hsole.1 hsole.2) rfl (fun _ _ hne => hne) fun t' x j hx hj => ?_
    have hne := hnotab t' x j hx hj
    exact Memory.setWord_word_ne (by omega)
  · have hfree' : s.mm.freePages.Nonempty := by
      refine hfree.resolve_right fun hno => hsole ((h.rep.sole_iff hf).mp ?_)
      have hread := h.rep.entry_word hg hp hf
      have hpage : 0xfffff000#32 &&& s.mm.read (lin2phy (taskBase t + off) s.mm) = wordAddr (1024 * f) := by
        have hlt := h.rep.frame_lt hf
        rw [h.rep.lin2phy_eq hg hlin (by omega), hread]
        exact page_entry (by omega) (by split <;> decide)
      rwa [SolePage, hpage] at hno
    rcases h.rep.unWpPage_shared hg hp hf hsole hfree' with ⟨k, hk, hrep, hword, hcopy⟩
    have hun : Unshared a t (off.toNat / 4096) f (Cow.split Counted a t (off.toNat / 4096) f k) :=
      .copy k hsole hk
    refine ⟨_, hun, .of_copy h.rep (h.rep.tabOwn t g hg) hf hk hword hcopy,
      h.remap hrep rfl (fun _ _ hne => hun.mapped hne) fun t' x j hx hj => ?_⟩
    exact hword _ (hnotab t' x j hx hj) (h.free_apart hk hx (Nat.le_add_right x j) (by omega))

/-- A fault that is handled. -/
theorem userFault_unshared (h : ForkRep vis w0 s loc tab a) (ht : loc t = some x) (ht0 : t ≠ 0)
    (hoff : off.toNat < 655360) (hf : a.pte t (off.toNat / 4096) = some f)
    (hfree : s.mm.freePages.Nonempty ∨ ∃ lin, s.linear t off = some lin ∧ SolePage lin s.mm) :
    (a.wr t (off.toNat / 4096) = true ∧ s.userFault t off = none) ∨
    (a.wr t (off.toNat / 4096) = false ∧ ∃ s' a', s.userFault t off = some s' ∧
      Unshared a t (off.toNat / 4096) f a' ∧ Kept loc s s' ∧ ForkRep vis w0 s' loc tab a') := by
  rcases h.table_eq ht ht0 with ⟨g, hg⟩
  rcases userEntry_task h.rep hg hoff hf with ⟨k, hk, hentry, hcan⟩
  have hfault : s.userFault t off = if a.wr t (off.toNat / 4096) = true then none
      else some { s with mm := doWpPage (taskBase t + off) s.mm } := by
    rw [ForkSys.userFault_of_entry (h.linear_eq ht hoff) hentry, hcan]
  rw [hfault]
  cases hwr : a.wr t (off.toNat / 4096) with
  | true => exact Or.inl ⟨rfl, if_pos rfl⟩
  | false =>
    rw [h.linear_eq ht hoff] at hfree
    have hfree' : s.mm.freePages.Nonempty ∨ SolePage (taskBase t + off) s.mm := by
      rcases hfree with hne | ⟨lin, heq, hsole⟩
      · exact Or.inl hne
      · rw [Option.some.inj heq]
        exact Or.inr hsole
    rcases h.doWpPage_unshared ht ht0 hoff hf hfree' with ⟨a', hun, -, hkept, hrep⟩
    exact Or.inr ⟨rfl, _, a', if_neg Bool.false_ne_true, hun, hkept, hrep⟩

/-! ## Stores -/

/-- The spaces after a byte is stored in the frame `f` of a page, over the word `w`. -/
def stored (a : Spaces) (f : Nat) (off : BitVec 32) (w : BitVec 32) (v : BitVec 8) : Spaces :=
  Cow.write a f (Function.update (a.mem f) (off.toNat / 4 % 1024) (setByteOf w (off.toNat % 4) v))

/-- A store to a page that may be written. -/
theorem store_writable (h : ForkRep vis w0 s loc tab a) (ht : loc t = some x) (ht0 : t ≠ 0)
    (hoff : off.toNat < 655360) (hf : a.pte t (off.toNat / 4096) = some f)
    (hwr : a.wr t (off.toNat / 4096) = true) (v : BitVec 8) :
    ∃ e, userEntry (taskBase t + off) s.mm = some e ∧ canWrite (taskBase t + off) e s.mm = true ∧
      storeByte (physical (taskBase t + off) e) v s.mm = s.mm.setWord (1024 * f + off.toNat / 4 % 1024)
        (setByteOf (s.mm.word (1024 * f + off.toNat / 4 % 1024)) (off.toNat % 4) v) ∧
      Kept loc s { s with mm := storeByte (physical (taskBase t + off) e) v s.mm } ∧
      ForkRep vis w0 { s with mm := storeByte (physical (taskBase t + off) e) v s.mm } loc tab
        (stored a f off (s.mm.word (1024 * f + off.toNat / 4 % 1024)) v) := by
  have hlt := h.rep.frame_lt hf
  rcases h.table_eq ht ht0 with ⟨g, hg⟩
  rcases userEntry_task h.rep hg hoff hf with ⟨k, hk, hentry, hcan⟩
  have hhigh : 1024 ≤ f := by
    rcases h.rep.wr_high hwr with ⟨f', hf', hhigh, -⟩
    rwa [Option.some.inj (hf.symm.trans hf')]
  have hstore := storeByte_entry (m := s.mm) hlt (by omega : k < 4096) (toNat_linear t hoff) v
  refine ⟨entry f k, hentry, hcan.trans hwr, hstore, ?_⟩
  rw [hstore]
  refine h.remap (h.rep.store hwr hf (by omega) _) rfl (fun _ _ hne => hne) fun t' x j hx hj => ?_
  have hap := h.mapped_apart hf hhigh hx (Nat.le_add_right x j) (by omega)
  exact Memory.setWord_word_ne (by omega)

/-- A byte of the word that a store writes, and the other words. -/
theorem byteOf_setWord {m : Memory} {z y j i : Nat} (v : BitVec 8) (hi : i < 4) (hne : z = y → i ≠ j) :
    byteOf ((m.setWord y (setByteOf (m.word y) j v)).word z) i = byteOf (m.word z) i := by
  by_cases hzy : z = y
  · rw [hzy, Memory.setWord_word_self, byteOf_setByteOf _ _ hi, if_neg (hne hzy)]
  · rw [Memory.setWord_word_ne hzy]

/-- A store to a page that may be written leaves every other byte of every task alone. -/
theorem userLoad_stored {s' : ForkSys} {a' : Spaces} (h : ForkRep vis w0 s loc tab a)
    (h' : ForkRep vis w0 s' loc tab a') (hpte : a'.pte = a.pte)
    (hf : a.pte t (off.toNat / 4096) = some f) (hwr : a.wr t (off.toNat / 4096) = true) {v : BitVec 8}
    (hmm : s'.mm = s.mm.setWord (1024 * f + off.toNat / 4 % 1024)
      (setByteOf (s.mm.word (1024 * f + off.toNat / 4 % 1024)) (off.toNat % 4) v))
    {t₁ : Fin 64} {off₁ : BitVec 32} (ht₁ : loc t₁ = some y) (hoff₁ : off₁.toNat < 655360)
    (hne : t₁ ≠ t ∨ off₁ ≠ off) : s'.userLoad t₁ off₁ = s.userLoad t₁ off₁ := by
  rcases h.page_eq ht₁ hoff₁ with ⟨f₁, hf₁⟩
  refine h.userLoad_congr h' ht₁ hoff₁ hf₁ (by rw [hpte]; exact hf₁) ?_
  rw [hmm]
  refine byteOf_setWord v (by omega) fun hword => ?_
  -- the page belongs to the task that stores, so this is its page
  have hff : f₁ = f := by omega
  subst hff
  rcases h.rep.inv.excl t _ hwr with ⟨f', hf', hcounted, hexcl⟩
  obtain rfl : f₁ = f' := Option.some.inj (hf.symm.trans hf')
  have htt := hexcl t₁ _ hf₁
  have hpp := h.rep.inv.home f₁ t₁ _ t _ hcounted hf₁ hf
  have hoo : off₁.toNat ≠ off.toNat := fun heq =>
    (hne.resolve_left (not_not_intro htt)) (BitVec.eq_of_toNat_eq heq)
  omega

/-- The two halves of a store: the fault of a page that may not be written, and the write. -/
theorem userStore_eq (h : ForkRep vis w0 s loc tab a) (ht : loc t = some x) (ht0 : t ≠ 0)
    (hoff : off.toNat < 655360) (hf : a.pte t (off.toNat / 4096) = some f) (v : BitVec 8)
    (hfree : s.mm.freePages.Nonempty ∨ ∃ lin, s.linear t off = some lin ∧
      (SolePage lin s.mm ∨ ∃ e, userEntry lin s.mm = some e ∧ canWrite lin e s.mm)) :
    ∃ s' a' f' w, s.userStore t off v = some s' ∧ (a' = a ∨ Unshared a t (off.toNat / 4096) f a') ∧
      a'.wr t (off.toNat / 4096) = true ∧ a'.pte t (off.toNat / 4096) = some f' ∧
      (vis (off.toNat / 4) → w = a'.mem f' (off.toNat / 4 % 1024)) ∧ Cow.Inv Counted a' ∧
      Kept loc s s' ∧ ForkRep vis w0 s' loc tab (stored a' f' off w v) ∧
      ∀ (t₁ : Fin 64) (y : Nat) (off₁ : BitVec 32), loc t₁ = some y → off₁.toNat < 655360 → (t₁ ≠ t ∨ off₁ ≠ off) →
        s'.userLoad t₁ off₁ = s.userLoad t₁ off₁ := by
  rcases h.table_eq ht ht0 with ⟨g, hg⟩
  rcases userEntry_task h.rep hg hoff hf with ⟨k, hk, hentry, hcan⟩
  rw [h.linear_eq ht hoff] at hfree
  have hbefore : ∃ m a', m = (if canWrite (taskBase t + off) (entry f k) s.mm then s.mm
        else doWpPage (taskBase t + off) s.mm) ∧
      (a' = a ∨ Unshared a t (off.toNat / 4096) f a') ∧ a'.wr t (off.toNat / 4096) = true ∧
      SameWords a a' s.mm m ∧ Kept loc s { s with mm := m } ∧ ForkRep vis w0 { s with mm := m } loc tab a' := by
    cases hwr : a.wr t (off.toNat / 4096) with
    | true =>
      rw [hcan, hwr]
      refine ⟨_, a, rfl, Or.inl rfl, hwr, fun t' p' f₁ f₂ i hf₁ hf₂ _ => ?_, ⟨rfl, fun _ _ _ _ _ => rfl⟩, h⟩
      rw [Option.some.inj (hf₁.symm.trans hf₂)]
      rfl
    | false =>
      have hfree' : s.mm.freePages.Nonempty ∨ SolePage (taskBase t + off) s.mm := by
        rcases hfree with hne | ⟨lin, heq, hsole | ⟨e, he, hcan'⟩⟩
        · exact Or.inl hne
        · rw [Option.some.inj heq]
          exact Or.inr hsole
        · rw [← Option.some.inj heq, hentry] at he
          rw [← Option.some.inj heq, ← Option.some.inj he, hcan, hwr] at hcan'
          cases hcan'
      rcases h.doWpPage_unshared ht ht0 hoff hf hfree' with ⟨a', hun, hsame, hkept, hrep⟩
      rw [hcan, hwr]
      exact ⟨_, a', rfl, Or.inr hun, hun.wr_eq, hsame, hkept, hrep⟩
  rcases hbefore with ⟨m, a', hm, hor, hwr', hsame, hkept, h'⟩
  rcases h'.page_eq ht hoff with ⟨f', hf'⟩
  rcases h'.store_writable ht ht0 hoff hf' hwr' v with ⟨e', he', hcan', hstore, hkept', hrep⟩
  have hp : 1024 * (off.toNat / 4096) + off.toNat / 4 % 1024 = off.toNat / 4 := by omega
  refine ⟨_, a', f', _, ?_, hor, hwr', hf', fun hvis => ?_, h'.rep.inv, hkept.trans hkept', hrep,
    fun t₁ y off₁ ht₁ hoff₁ hne => ?_⟩
  · exact ForkSys.userStore_of_entry (h.linear_eq ht hoff) hentry hm he' hcan' v
  · exact h'.rep.mem t _ f' _ hf' (by omega) (by rwa [hp])
  · rcases h.page_eq ht₁ hoff₁ with ⟨f₁, hf₁⟩
    rcases h'.page_eq ht₁ hoff₁ with ⟨f₂, hf₂⟩
    have hfault := h.userLoad_congr h' ht₁ hoff₁ hf₁ hf₂
      (congrArg (byteOf · _) (hsame t₁ _ f₁ f₂ _ hf₁ hf₂ (by omega)))
    exact (h'.userLoad_stored hrep rfl hf' hwr' hstore ht₁ hoff₁ hne).trans hfault

end ForkRep

end MockOs.Kernel
