import MockOs.Kernel.Proofs.Isolation

/-!
# `mem_map` counts the users of a frame

The counts of `mem_map` against the page directory and the page tables as they are in memory,
in every state of every run.
-/

namespace MockOs.Kernel

open Mm

/-! ## What is in the tables -/

/-- The address of a frame. -/
def frameAddr (f : Nat) : BitVec 32 := BitVec.ofNat 32 (4096 * f)

/-- Entry `i` of the page table that directory entry `d` names. -/
def pageEntry (m : Memory) (d i : Nat) : BitVec 32 :=
  m.read ((0xfffff000#32 &&& m.word d) + BitVec.ofNat 32 (4 * i))

/-- Directory entry `d` and entry `i` of its table are present, and map frame `f`. -/
def Maps (m : Memory) (d i f : Nat) : Prop :=
  1#32 &&& m.word d ≠ 0 ∧ 1#32 &&& pageEntry m d i ≠ 0 ∧ 0xfffff000#32 &&& pageEntry m d i = frameAddr f

instance (m : Memory) (d i f : Nat) : Decidable (Maps m d i f) :=
  inferInstanceAs (Decidable (_ ∧ _ ∧ _))

/-- The entries of the tasks: each has 64 MB, which are 16 directory entries, and task 0 uses the
first 640 KB of the kernel's. -/
def TaskEntry (d i : Nat) : Prop := (16 ≤ d ∧ d < 1024 ∧ i < 1024) ∨ (d = 0 ∧ i < 160)

/-- The entries of the tasks from 1 on that map a frame. -/
def mappers (m : Memory) (f : Nat) : Finset (Nat × Nat) :=
  (Finset.Ico 16 1024 ×ˢ Finset.range 1024).filter fun e => Maps m e.1 e.2 f

theorem mem_mappers {m : Memory} {f : Nat} {e : Nat × Nat} :
    e ∈ mappers m f ↔ (16 ≤ e.1 ∧ e.1 < 1024 ∧ e.2 < 1024) ∧ Maps m e.1 e.2 f := by
  rw [mappers, Finset.mem_filter, Finset.mem_product, Finset.mem_Ico, Finset.mem_range,
    and_assoc (a := 16 ≤ e.1)]

/-- A frame holds the `task_struct` or a page table of a task from 1 on. -/
def Held (s : ForkSys) (f : Nat) : Prop :=
  (∃ t < nrTasks, 1 ≤ t ∧ s.task t = frameAddr f) ∨
    ∃ d < 1024, 16 ≤ d ∧ 1#32 &&& s.mm.word d ≠ 0 ∧ 0xfffff000#32 &&& s.mm.word d = frameAddr f

instance (s : ForkSys) (f : Nat) : Decidable (Held s f) := inferInstanceAs (Decidable (_ ∨ _))

/-- The counts agree with the tables. -/
structure RefCounts (s : ForkSys) : Prop where
  count : ∀ f, 1024 ≤ f → f < 4096 → (s.mm.memMap (mapNr (frameAddr f))).toNat =
    (mappers s.mm f).card + if Held s f then 1 else 0
  held : ∀ f, 1024 ≤ f → f < 4096 → Held s f → ∀ d i, TaskEntry d i → ¬ Maps s.mm d i f
  bound : ∀ f, 1024 ≤ f → f < 4096 → (s.mm.memMap (mapNr (frameAddr f))).toNat ≤ 63
  writable : ∀ d i f, 16 ≤ d → d < 1024 → i < 1024 → f < 2 ^ 20 → Maps s.mm d i f →
    pageEntry s.mm d i &&& 2 ≠ 0 → frameAddr f ≥ lowMem ∧ s.mm.memMap (mapNr (frameAddr f)) = 1 ∧
      ∀ d' i', TaskEntry d' i' → Maps s.mm d' i' f → d' = d ∧ i' = i
  reserved : ∀ f, 256 ≤ f → f < 1024 → s.mm.memMap (mapNr (frameAddr f)) = used ∧ ¬ Held s f ∧
    mappers s.mm f = ∅

/-! ## The tables of a represented system -/

theorem frameAddr_eq (f : Nat) : frameAddr f = wordAddr (1024 * f) := by
  rw [frameAddr, wordAddr, show 4 * (1024 * f) = 4096 * f by omega]

theorem wordAddr_frame_inj {f g : Nat} (hf : f < 2 ^ 20) (hg : g < 2 ^ 20) :
    wordAddr (1024 * g) = frameAddr f ↔ g = f := by
  rw [frameAddr_eq]
  refine ⟨fun heq => ?_, fun heq => by rw [heq]⟩
  have htoNat := congrArg BitVec.toNat heq
  rw [toNat_wordAddr (by omega), toNat_wordAddr (by omega)] at htoNat
  omega

section Tables

variable {vis : Nat → Prop} {m : Memory} {tab : Fin 64 → Option Nat} {a : Spaces} {t : Fin 64} {d f g i k : Nat}

/-- What an entry maps, behind a directory entry that is present. -/
theorem maps_of_dir (hdir : m.word d = entry g 7) (hg : g < 4096) (hi : i < 1024) :
    Maps m d i f ↔ 1#32 &&& m.word (1024 * g + i) ≠ 0 ∧
      0xfffff000#32 &&& m.word (1024 * g + i) = frameAddr f := by
  have hentry : pageEntry m d i = m.word (1024 * g + i) := by
    rw [pageEntry, hdir, page_entry (by omega) (by decide), wordAddr_add, Memory.read_wordAddr (by omega)]
  rw [Maps, hentry, hdir]
  exact and_iff_right (present_entry hg (Or.inr rfl))

/-- An entry of a task from 1 on maps what the address space of the task does. -/
theorem maps_iff (h : Rep vis m tab a) (hd : 16 ≤ d) (hd' : d < 1024) (hi : i < 1024) (hf : f < 2 ^ 20) :
    Maps m d i f ↔ ∃ t : Fin 64, t ≠ 0 ∧ d = 16 * (t : Nat) ∧ a.pte t i = some f := by
  by_cases hmod : d % 16 = 0
  · obtain ⟨t, rfl⟩ : ∃ t : Fin 64, d = 16 * (t : Nat) := ⟨⟨d / 16, by omega⟩, by show d = 16 * (d / 16); omega⟩
    have ht0 : t ≠ 0 := by
      rintro rfl
      exact absurd hd (by decide)
    have hword := h.dirTask t ht0
    have honly : (∃ t' : Fin 64, t' ≠ 0 ∧ 16 * (t : Nat) = 16 * (t' : Nat) ∧ a.pte t' i = some f) ↔
        a.pte t i = some f := by
      refine ⟨?_, fun hp => ⟨t, ht0, rfl, hp⟩⟩
      rintro ⟨t', -, heq, hp⟩
      rwa [Fin.ext (by omega : (t : Nat) = t')]
    rw [honly]
    cases hg : tab t with
    | none =>
      rw [hg] at hword
      refine ⟨fun hmaps => absurd ?_ hmaps.1, fun hp => ?_⟩
      · rw [hword]
        rfl
      · rw [h.unmapped t ht0 hg] at hp
        cases hp
    | some g =>
      rw [hg] at hword
      rw [maps_of_dir hword (h.tab_high hg).2 hi, h.table t g hg i hi]
      cases hp : a.pte t i with
      | none => exact ⟨fun hmaps => absurd BitVec.and_zero hmaps.1, fun hno => by cases hno⟩
      | some f' =>
        have hlt := h.frame_lt hp
        have hflag : (if a.wr t i = true then 7 else 5) = 5 ∨ (if a.wr t i = true then 7 else 5) = 7 := by
          split
          · exact Or.inr rfl
          · exact Or.inl rfl
        show 1#32 &&& entry f' (if a.wr t i = true then 7 else 5) ≠ 0 ∧
          0xfffff000#32 &&& entry f' (if a.wr t i = true then 7 else 5) = frameAddr f ↔ some f' = some f
        rw [page_entry (by omega) (by omega), wordAddr_frame_inj hf (by omega), Option.some.injEq]
        exact and_iff_right (present_entry hlt hflag)
  · refine ⟨fun hmaps => absurd ?_ hmaps.1, fun hin => ?_⟩
    · rw [h.dirRest d hd' (by omega) hmod]
      rfl
    · rcases hin with ⟨t, -, rfl, -⟩
      omega

/-- Task 0 is mapped to itself. -/
theorem maps_zero (h : Rep vis m tab a) (hi : i < 160) (hf : f < 2 ^ 20) : Maps m 0 i f ↔ i = f := by
  rw [maps_of_dir (h.dirKernel 0 (by decide)) (by decide) (by omega)]
  show 1#32 &&& m.word (1024 + i) ≠ 0 ∧ 0xfffff000#32 &&& m.word (1024 + i) = frameAddr f ↔ i = f
  rw [h.kernel i (by omega), page_entry (by omega) (by decide), wordAddr_frame_inj hf (by omega)]
  exact and_iff_right (present_entry (by omega) (Or.inr rfl))

/-- The entries of all tasks. -/
theorem maps_taskEntry (h : Rep vis m tab a) (he : TaskEntry d i) (hf : f < 2 ^ 20) (hmaps : Maps m d i f) :
    ∃ t : Fin 64, d = 16 * (t : Nat) ∧ a.pte t i = some f := by
  rcases he with ⟨hd, hd', hi⟩ | ⟨rfl, hi⟩
  · rcases (maps_iff h hd hd' hi hf).mp hmaps with ⟨t, -, hdt, hp⟩
    exact ⟨t, hdt, hp⟩
  · refine ⟨0, rfl, ?_⟩
    rw [h.zero, if_pos hi, (maps_zero h hi hf).mp hmaps]

/-- The write bit of an entry. -/
theorem pageEntry_wr (h : Rep vis m tab a) (ht : t ≠ 0) (hi : i < 1024) (hp : a.pte t i = some f)
    (hbit : pageEntry m (16 * t) i &&& 2 ≠ 0) : a.wr t i = true := by
  have hne : tab t ≠ none := fun hno => by
    rw [h.unmapped t ht hno] at hp
    cases hp
  rcases Option.ne_none_iff_exists'.mp hne with ⟨g, hg⟩
  have hlt := h.frame_lt hp
  have hghigh := h.tab_high hg
  have hword := h.dirTask t ht
  rw [hg] at hword
  by_contra hwr
  apply hbit
  have hentry : pageEntry m (16 * t) i = entry f 5 := by
    have hw : a.wr t i = false := by simpa using hwr
    rw [pageEntry, hword, show tabWord (some g) = entry g 7 from rfl, page_entry (by omega) (by decide),
      wordAddr_add, Memory.read_wordAddr (by omega), h.table t g hg i hi, hp, hw]
    rfl
  apply BitVec.eq_of_toNat_eq
  rw [hentry, entry_and_low (m := 2) (by decide) (by omega) (by decide) (by decide)]
  rfl

/-- There are as many entries that map a counted frame as tasks that do. -/
theorem card_mappers (h : Rep vis m tab a) (hf : 256 ≤ f) (hf' : f < 2 ^ 20) :
    (mappers m f).card = (Cow.users a f).card := by
  have hmem : ∀ e, e ∈ mappers m f ↔ ∃ t : Fin 64, t ≠ 0 ∧ e.1 = 16 * (t : Nat) ∧ a.pte t e.2 = some f := by
    intro e
    rw [mem_mappers]
    constructor
    · rintro ⟨⟨hd, hd', hi⟩, hmaps⟩
      exact (maps_iff h hd hd' hi hf').mp hmaps
    · rintro ⟨t, ht0, hd, hp⟩
      have hpos : 0 < (t : Nat) := Fin.pos_iff_ne_zero.mpr ht0
      have hlt := t.isLt
      have hp160 := (h.frame t e.2 f hp).1
      exact ⟨⟨by omega, by omega, by omega⟩,
        (maps_iff h (by omega) (by omega) (by omega) hf').mpr ⟨t, ht0, hd, hp⟩⟩
  have hval : ∀ t : Fin 64, Fin.ofNat 64 (16 * (t : Nat) / 16) = t := by
    intro t
    rw [Nat.mul_div_cancel_left _ (by decide)]
    exact Fin.ofNat_val_eq_self t
  generalize mappers m f = entries at hmem
  refine Finset.card_bij (fun e _ => Fin.ofNat 64 (e.1 / 16)) (fun e he => ?_) (fun e he e' he' heq => ?_)
    fun t ht => ?_
  · rcases (hmem e).mp he with ⟨t, -, hd, hp⟩
    rw [hd, hval]
    exact Cow.mem_users.mpr ⟨e.2, hp⟩
  · rcases (hmem e).mp he with ⟨t, -, hd, hp⟩
    rcases (hmem e').mp he' with ⟨t', -, hd', hp'⟩
    rw [hd, hd', hval, hval] at heq
    rw [heq] at hd
    exact Prod.ext (hd.trans hd'.symm) (h.inv.home f t e.2 t' e'.2 hf hp hp')
  · rcases Cow.mem_users.mp ht with ⟨p, hp⟩
    have ht0 : t ≠ 0 := by
      rintro rfl
      exact h.users_ne_zero hf ht
    exact ⟨(16 * (t : Nat), p), (hmem _).mpr ⟨t, ht0, rfl, hp⟩, hval t⟩

end Tables

namespace ForkRep

variable {vis : Nat → Prop} {w0 : Nat} {s : ForkSys} {loc tab : Fin 64 → Option Nat} {a : Spaces}
  {t c : Fin 64} {f : Nat}

/-- The frames of structures and tables are those the system owns. -/
theorem held_iff (h : ForkRep vis w0 s loc tab a) (hf : 256 ≤ f) (hf' : f < 2 ^ 20) :
    Held s f ↔ a.own f = true := by
  constructor
  · rintro (⟨n, hn, hn1, htask⟩ | ⟨d, hd, hd16, hpresent, hpage⟩)
    · have ht0 : (⟨n, hn⟩ : Fin 64) ≠ 0 := Fin.pos_iff_ne_zero.mp hn1
      have htask' := h.task ⟨n, hn⟩
      cases hx : loc ⟨n, hn⟩ with
      | none =>
        rw [hx, htask] at htask'
        have hne : frameAddr f ≠ 0 := by
          rw [frameAddr_eq]
          exact wordAddr_ne_zero (by omega) (by omega)
        exact absurd htask' hne
      | some x =>
        rcases h.locFrame ⟨n, hn⟩ x ht0 hx with ⟨g, rfl, hown, -⟩
        have hg := h.rep.ownHigh g hown
        rw [hx, htask] at htask'
        rwa [← (wordAddr_frame_inj hf' (by omega)).mp htask'.symm]
    · by_cases hmod : d % 16 = 0
      · obtain ⟨t, rfl⟩ : ∃ t : Fin 64, d = 16 * (t : Nat) :=
          ⟨⟨d / 16, by omega⟩, by show d = 16 * (d / 16); omega⟩
        have ht0 : t ≠ 0 := by
          rintro rfl
          exact absurd hd16 (by decide)
        have hword := h.rep.dirTask t ht0
        cases hg : tab t with
        | none =>
          rw [hword, hg] at hpresent
          exact absurd rfl hpresent
        | some g =>
          have hghigh := h.rep.tab_high hg
          rw [hword, hg, show tabWord (some g) = entry g 7 from rfl, page_entry (by omega) (by decide),
            wordAddr_frame_inj hf' (by omega)] at hpage
          rw [← hpage]
          exact h.rep.tabOwn t g hg
      · rw [h.rep.dirRest d hd (by omega) hmod] at hpresent
        exact absurd rfl hpresent
  · intro hown
    rcases h.owned f hown with ⟨t, ht0, htab | hloc⟩
    · have hpos : 0 < (t : Nat) := Fin.pos_iff_ne_zero.mpr ht0
      have hlt := t.isLt
      have hword := h.rep.dirTask t ht0
      have hhigh := h.rep.ownHigh f hown
      rw [htab] at hword
      refine Or.inr ⟨16 * t, by omega, by omega, ?_, ?_⟩
      · rw [hword]
        exact present_entry (by omega) (Or.inr rfl)
      · rw [hword, frameAddr_eq]
        exact page_entry (by omega) (by decide)
    · refine Or.inl ⟨t, t.isLt, Fin.pos_iff_ne_zero.mpr ht0, ?_⟩
      rw [h.task_eq hloc, frameAddr_eq]

theorem mapNr_frameAddr (hf : 256 ≤ f) (hf' : f < 2 ^ 20) : mapNr (frameAddr f) = (f : Int) - 256 := by
  rw [frameAddr_eq, wordAddr_frame, mapNr_entry hf' hf (by decide)]

theorem refCounts (h : ForkRep vis w0 s loc tab a) : RefCounts s := by
  have hmap : ∀ f, 1024 ≤ f → f < 4096 → (s.mm.memMap (mapNr (frameAddr f))).toNat = a.rc f := by
    intro f hf hf'
    have hle := h.rep.rc_le (f := f) (by omega)
    rw [mapNr_frameAddr (by omega) (by omega), h.rep.map f hf hf', BitVec.toNat_ofNat,
      Nat.mod_eq_of_lt (by omega)]
  refine ⟨fun f hf hf' => ?_, fun f hf hf' hheld d i he hmaps => ?_, fun f hf hf' => ?_,
    fun d i f hd hd' hi hf hmaps hbit => ?_, fun f hf hf' => ⟨?_, ?_, ?_⟩⟩
  · have hcf : Counted f := by unfold Counted; omega
    rw [hmap f hf hf', card_mappers h.rep (by omega) (by omega), h.rep.inv.count f hcf]
    by_cases hown : a.own f = true
    · rw [if_pos ((h.held_iff (by omega) (by omega)).mpr hown), hown]
      rfl
    · rw [if_neg fun hheld => hown ((h.held_iff (by omega) (by omega)).mp hheld), Bool.not_eq_true] at *
      rw [hown]
      rfl
  · have hown := (h.held_iff (by omega) (by omega)).mp hheld
    rcases maps_taskEntry h.rep he (by omega) hmaps with ⟨t, -, hp⟩
    exact (h.rep.inv.owned f hown).2 t i hp
  · rw [hmap f hf hf']
    exact h.rep.rc_le (by omega)
  · rcases (maps_iff h.rep hd hd' hi hf).mp hmaps with ⟨t, ht0, rfl, hp⟩
    have hwr := pageEntry_wr h.rep ht0 hi hp hbit
    rcases h.rep.wr_high hwr with ⟨f', hp', hhigh, hhigh'⟩
    obtain rfl : f = f' := Option.some.inj (hp.symm.trans hp')
    rcases h.rep.inv.excl t i hwr with ⟨f', hp'', hcf, honly⟩
    obtain rfl : f = f' := Option.some.inj (hp.symm.trans hp'')
    have husers : Cow.users a f = {t} := by
      ext t'
      rw [Cow.mem_users, Finset.mem_singleton]
      exact ⟨fun ⟨p, hp'⟩ => honly t' p hp', fun htt => ⟨i, htt ▸ hp⟩⟩
    refine ⟨?_, ?_, fun d' i' he hmaps' => ?_⟩
    · rw [frameAddr_eq, wordAddr_frame, entry_ge_lowMem hf (by decide)]
      omega
    · rw [mapNr_frameAddr (by omega) hf, h.rep.map_eq_one hhigh hhigh', h.rep.inv.count f hcf, husers,
        h.rep.inv.own_eq_false hp]
      rfl
    · rcases maps_taskEntry h.rep he hf hmaps' with ⟨t', rfl, hp'⟩
      rw [honly t' i' hp']
      exact ⟨rfl, h.rep.inv.home f t' i' t i hcf hp' hp⟩
  · rw [mapNr_frameAddr hf (by omega)]
    exact h.rep.mapUsed f hf hf'
  · intro hheld
    have hhigh := h.rep.ownHigh f ((h.held_iff hf (by omega)).mp hheld)
    omega
  · rw [← Finset.card_eq_zero, card_mappers h.rep hf (by omega), Finset.card_eq_zero]
    apply Finset.eq_empty_of_forall_notMem
    intro t ht
    rcases Cow.mem_users.mp ht with ⟨p, hp⟩
    rcases h.rep.frame t p f hp with ⟨hp160, hlow | hhigh⟩ <;> omega

end ForkRep

/-- The reference counts are exact in every state of every run, no frame of the kernel is mapped,
and a page that can be written is that of one task only. -/
theorem mem_map_counts_users (b : Boot) (acts : List Act) (s : ForkSys)
    (hrun : Run.Trace ForkStep b.start acts s) : RefCounts s := by
  rcases b.simulated hrun with ⟨loc, tab, a, arr, h⟩
  exact h.rep.refCounts

/-- The counts after a fork and a fault of the child. -/
theorem mem_map_counts_users_fault : ∃ s,
    Run.Trace ForkStep Boot.blank.start [.fork 0 stackTop, .fault 1 0] s ∧ RefCounts s := by
  rcases Boot.blank.start_spent.fork (by decide) with ⟨s1, hfork, hspent1⟩
  have hfree : s1.mm.freePages.Nonempty := by
    rcases hspent1 with ⟨loc, tab, a, -, hs⟩
    have hcard := hs.card
    exact Finset.card_pos.mp (by omega)
  rcases hspent1.fault (by decide) (by decide) (by decide) hfree with ⟨s2, hfault, -⟩
  have hrun : Run.Trace ForkStep Boot.blank.start [.fork 0 stackTop, .fault 1 0] s2 :=
    (Run.Trace.nil.snoc hfork).snoc hfault
  exact ⟨s2, hrun, mem_map_counts_users Boot.blank _ s2 hrun⟩

end MockOs.Kernel
