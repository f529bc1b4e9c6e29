import Mathlib.Data.List.Induction
import MockOs.Fs.Proofs.Refine

/-!
# How long a head stays handed out

Nothing in the repository gives a buffer back, so a head that `getblk` has returned ought
to stay with its key. `b_count` is an `unsigned char` that every hit increments: with the
256th call for a key it is 0 again and the victim scan takes the head for free. Until then
the first `NR_BUFFERS` different keys each own a head and later keys wait.
-/

namespace MockOs.Fs

/-- The first `n` different keys of a run. -/
def admitted (n : Nat) (ks : List Key) : List Key :=
  ks.foldl (fun l k => if k ∈ l ∨ n ≤ l.length then l else l ++ [k]) []

section Admitted

variable {n : Nat} {ks : List Key} {k : Key}

theorem admitted_snoc : admitted n (ks ++ [k]) =
    if k ∈ admitted n ks ∨ n ≤ (admitted n ks).length then admitted n ks
    else admitted n ks ++ [k] := by
  rw [admitted, List.foldl_append]
  rfl

theorem admitted_nodup : (admitted n ks).Nodup := by
  induction ks using List.reverseRecOn with
  | nil => exact List.nodup_nil
  | append_singleton ks k ih =>
    rw [admitted_snoc]
    split
    · exact ih
    · rename_i hk
      refine List.nodup_append.mpr ⟨ih, by simp, fun a ha b hb => ?_⟩
      rw [List.mem_singleton.mp hb]
      rintro rfl
      exact hk (Or.inl ha)

theorem mem_of_admitted (h : k ∈ admitted n ks) : k ∈ ks := by
  induction ks using List.reverseRecOn with
  | nil => exact h
  | append_singleton ks k' ih =>
    rw [admitted_snoc] at h
    split at h
    · exact List.mem_append_left _ (ih h)
    · rcases List.mem_append.mp h with h | h
      · exact List.mem_append_left _ (ih h)
      · exact List.mem_append_right _ h

/-- A key is left out only when there is no room. -/
theorem admitted_of_mem (h : k ∈ ks) : k ∈ admitted n ks ∨ n ≤ (admitted n ks).length := by
  induction ks using List.reverseRecOn with
  | nil => cases h
  | append_singleton ks k' ih =>
    rw [admitted_snoc]
    split
    · rename_i hk
      rcases List.mem_append.mp h with h | h
      · exact ih h
      · rwa [List.mem_singleton.mp h]
    · rename_i hk
      rcases List.mem_append.mp h with h | h
      · rcases ih h with h' | h'
        · exact Or.inl (List.mem_append_left _ h')
        · exact absurd (Or.inr h') hk
      · exact Or.inl (List.mem_append_right _ h)

theorem admitted_mono {k' : Key} (h : k ∈ admitted n ks) : k ∈ admitted n (ks ++ [k']) := by
  rw [admitted_snoc]
  split
  · exact h
  · exact List.mem_append_left _ h

theorem admitted_replicate (hn : 1 ≤ n) (m : Nat) :
    admitted n (List.replicate (m + 1) k) = [k] := by
  induction m with
  | zero =>
    have hroom : ¬ n ≤ 0 := by omega
    simp [admitted, hroom]
  | succ m ih =>
    rw [List.replicate_succ', admitted_snoc, ih]
    simp

end Admitted

variable {s s' : Cache} {ks : List Key} {k : Key} {as : List (Key × Nat)}

/-- Every key of `as` owns its head, `b_count` has counted its calls, and the other heads are
as `buffer_init` left them. -/
structure Assigned (s : Cache) (ks : List Key) (as : List (Key × Nat)) : Prop where
  rep : RepInv s
  quiet : s.Quiet
  valid : ∀ k ∈ ks, ValidDev k.1
  keys : as.map Prod.fst = admitted s.nrBuffers ks
  heads : (as.map Prod.snd).Nodup
  held : ∀ e ∈ as, s.Holds e.2 e.1.1 e.1.2 ∧ (s.head e.2).bCount.toNat = ks.count e.1
  idle : ∀ b ∈ s.headers, b ∉ as.map Prod.snd → (s.head b).bDev = 0 ∧ (s.head b).bCount = 0

theorem Initial.assigned (h : Initial s) : Assigned s [] [] :=
  ⟨⟨_, _, h.rep⟩, h.quiet, by simp, rfl, by simp, by simp,
    fun b hb _ => ⟨(h.idle b hb).1, (h.idle b hb).2.1⟩⟩

/-- A head holds one key. -/
theorem Cache.Holds.inj {b : Nat} {k k' : Key} (h : s.Holds b k.1 k.2) (h' : s.Holds b k'.1 k'.2)
    (hk : ValidDev k.1) (hk' : ValidDev k'.1) : k = k' := by
  refine Prod.ext ?_ (h.2.2.symm.trans h'.2.2)
  rw [← hk.setWidth, ← hk'.setWidth, ← h.2.1, ← h'.2.1]

theorem Assigned.mem_admitted (h : Assigned s ks as) {e : Key × Nat} (he : e ∈ as) :
    e.1 ∈ admitted s.nrBuffers ks :=
  h.keys ▸ List.mem_map_of_mem he

theorem Assigned.count_pos (h : Assigned s ks as) {e : Key × Nat} (he : e ∈ as) :
    0 < ks.count e.1 :=
  List.count_pos_iff.mpr (mem_of_admitted (h.mem_admitted he))

/-- The entry of a key, and of a head, is unique. -/
theorem Assigned.eq_of_key (h : Assigned s ks as) {e e' : Key × Nat} (he : e ∈ as) (he' : e' ∈ as)
    (hk : e.1 = e'.1) : e = e' :=
  List.inj_on_of_nodup_map (h.keys ▸ admitted_nodup : (as.map Prod.fst).Nodup) he he' hk

theorem Assigned.eq_of_head (h : Assigned s ks as) {e e' : Key × Nat} (he : e ∈ as)
    (he' : e' ∈ as) (hb : e.2 = e'.2) : e = e' :=
  List.inj_on_of_nodup_map h.heads he he' hb

/-- A key that owns no head is not cached. -/
theorem Assigned.find_none (h : Assigned s ks as) (hk : ValidDev k.1)
    (hnew : k ∉ admitted s.nrBuffers ks) : s.find k.1 k.2 = none := by
  rcases h.rep with ⟨ring, chains, hrep⟩
  cases hf : s.find k.1 k.2 with
  | none => rfl
  | some b =>
    have hb := (hrep.find_iff_holds hk).mp hf
    by_cases hin : b ∈ as.map Prod.snd
    · rcases List.mem_map.mp hin with ⟨e, he, rfl⟩
      have hek : e.1 = k := (h.held e he).1.inj hb
        (h.valid _ (mem_of_admitted (h.mem_admitted he))) hk
      exact absurd (hek ▸ h.mem_admitted he) hnew
    · have h0 := (h.idle b hb.1 hin).1
      rw [hb.2.1] at h0
      exact absurd h0 hk.ne_zero

/-- Heads that own no key are those with `b_count = 0`, as long as no count has wrapped. -/
theorem Assigned.count_eq_zero (h : Assigned s ks as) {b : Nat} (hb : b ∈ s.headers) :
    (s.head b).bCount = 0 ↔ b ∉ as.map Prod.snd := by
  refine ⟨fun h0 hin => ?_, fun hout => (h.idle b hb hout).2⟩
  rcases List.mem_map.mp hin with ⟨e, he, rfl⟩
  have hpos := h.count_pos he
  rw [← (h.held e he).2, h0] at hpos
  exact absurd hpos (by decide)

theorem Assigned.mem_headers (h : Assigned s ks as) {b : Nat} (hb : b ∈ as.map Prod.snd) :
    b ∈ s.headers := by
  rcases List.mem_map.mp hb with ⟨e, he, rfl⟩
  exact (h.held e he).1.1

theorem Assigned.length_admitted (h : Assigned s ks as) :
    (admitted s.nrBuffers ks).length = (as.map Prod.snd).length := by
  rw [← h.keys, List.length_map, List.length_map]

/-- There is room for a new key as long as some head is free. -/
theorem Assigned.exists_free (h : Assigned s ks as)
    (hroom : (admitted s.nrBuffers ks).length < s.nrBuffers) :
    ∃ b ∈ s.headers, (s.head b).bCount = 0 := by
  by_contra hno
  have hsub : s.headers ⊆ as.map Prod.snd := by
    intro b hb
    by_contra hout
    exact hno ⟨b, hb, (h.count_eq_zero hb).mpr hout⟩
  have hle := ((headers_nodup s).subperm hsub).length_le
  rw [length_headers, ← h.length_admitted] at hle
  omega

theorem Assigned.full (h : Assigned s ks as)
    (hfull : s.nrBuffers ≤ (admitted s.nrBuffers ks).length) :
    ∀ b ∈ s.headers, (s.head b).bCount ≠ 0 := by
  intro b hb h0
  have hsub : as.map Prod.snd ⊆ s.headers := fun a ha => h.mem_headers ha
  rw [h.length_admitted, ← length_headers] at hfull
  have hperm := (h.heads.subperm hsub).perm_of_length_le hfull
  exact (h.count_eq_zero hb).mp h0 (hperm.mem_iff.mpr hb)

theorem valid_snoc (h : ∀ k ∈ ks, ValidDev k.1) (hk : ValidDev k.1) :
    ∀ k' ∈ ks ++ [k], ValidDev k'.1 := by
  intro k' hk'
  rcases List.mem_append.mp hk' with h' | h'
  · exact h k' h'
  · rwa [List.mem_singleton.mp h']

theorem count_snoc_ne {k' : Key} (hne : k' ≠ k) : (ks ++ [k]).count k' = ks.count k' := by
  simp [List.count_append, Ne.symm hne]

theorem count_snoc_self : (ks ++ [k]).count k = ks.count k + 1 := by
  simp [List.count_append]

/-- A call for a key that owns a head. -/
theorem Assigned.hit (h : Assigned s ks as) (fuel : Nat) {e : Key × Nat} (he : e ∈ as) :
    getblk (fuel + 6) s e.1.1 e.1.2 =
      .ok (s.setCount e.2 ((s.head e.2).bCount + 1), .ret (some e.2)) := by
  rcases h.rep with ⟨ring, chains, hrep⟩
  exact getblk_hit hrep h.quiet (h.valid _ (mem_of_admitted (h.mem_admitted he))) fuel
    (h.held e he).1

theorem Assigned.hit_assigned (h : Assigned s ks as) {e : Key × Nat} (he : e ∈ as)
    (hcount : ks.count e.1 < 255) :
    Assigned (s.setCount e.2 ((s.head e.2).bCount + 1)) (ks ++ [e.1]) as := by
  rcases h.rep with ⟨ring, chains, hrep⟩
  have hvalid := h.valid _ (mem_of_admitted (h.mem_admitted he))
  have hdata : ∀ a, ((s.setCount e.2 ((s.head e.2).bCount + 1)).head a).bDev = (s.head a).bDev ∧
      ((s.setCount e.2 ((s.head e.2).bCount + 1)).head a).bBlocknr = (s.head a).bBlocknr ∧
      ((s.setCount e.2 ((s.head e.2).bCount + 1)).head a).bLock = (s.head a).bLock ∧
      ((s.setCount e.2 ((s.head e.2).bCount + 1)).head a).bDirt = (s.head a).bDirt := by
    intro a
    rw [setCount_head]
    split <;> simp
  refine ⟨⟨ring, chains, hrep.setCount _ _⟩, fun b hb => ?_, valid_snoc h.valid hvalid, ?_,
    h.heads, fun e' he' => ⟨⟨(h.held e' he').1.1, ?_⟩, ?_⟩, fun b hb hout => ?_⟩
  · rw [(hdata b).2.2.1, (hdata b).2.2.2]
    exact h.quiet b hb
  · show as.map Prod.fst = admitted s.nrBuffers (ks ++ [e.1])
    rw [admitted_snoc, if_pos (Or.inl (h.mem_admitted he))]
    exact h.keys
  · rw [(hdata e'.2).1, (hdata e'.2).2.1]
    exact (h.held e' he').1.2
  · rw [setCount_head]
    split
    · rename_i hb
      obtain rfl := h.eq_of_head he' he hb
      have hheld := (h.held e' he).2
      rw [count_snoc_self]
      simp only [BitVec.toNat_add]
      rw [hheld]
      have : (1 : BitVec 8).toNat = 1 := rfl
      rw [this, Nat.mod_eq_of_lt (by omega)]
    · rename_i hb
      rw [count_snoc_ne fun hk => hb (by rw [h.eq_of_key he' he hk]), (h.held e' he').2]
  · have hbe : b ≠ e.2 := by
      rintro rfl
      exact hout (List.mem_map_of_mem he)
    rw [setCount_head, if_neg hbe]
    exact h.idle b hb hout

/-- A call for a new key when every head is in use: it sleeps. -/
theorem Assigned.full_assigned (h : Assigned s ks as) (hk : ValidDev k.1)
    (hnew : k ∉ admitted s.nrBuffers ks) (hfull : s.nrBuffers ≤ (admitted s.nrBuffers ks).length) :
    Assigned s (ks ++ [k]) as := by
  refine ⟨h.rep, h.quiet, valid_snoc h.valid hk, ?_, h.heads, fun e he => ⟨(h.held e he).1, ?_⟩,
    h.idle⟩
  · rw [admitted_snoc, if_pos (Or.inr hfull)]
    exact h.keys
  · have hne : e.1 ≠ k := fun hek => hnew (hek ▸ h.mem_admitted he)
    rw [count_snoc_ne hne, (h.held e he).2]

/-- A call for a new key when some head is free: the key gets it. -/
theorem Assigned.miss_assigned (h : Assigned s ks as) (hk : ValidDev k.1) (fuel : Nat)
    (hnew : k ∉ admitted s.nrBuffers ks) (hroom : (admitted s.nrBuffers ks).length < s.nrBuffers) :
    ∃ v s', getblk (fuel + 6) s k.1 k.2 = .ok (s', .ret (some v)) ∧
      s'.nrBuffers = s.nrBuffers ∧ Assigned s' (ks ++ [k]) (as ++ [(k, v)]) := by
  rcases h.rep with ⟨ring, chains, hrep⟩
  rcases getblk_miss hrep h.quiet hk fuel (h.find_none hk hnew) (h.exists_free hroom) with
    ⟨v, s', hok, hv, hcount, hcl, hrep'⟩
  have hout : v ∉ as.map Prod.snd := (h.count_eq_zero hv).mp hcount
  have hkey : k ∉ ks := fun hmem => (admitted_of_mem hmem).elim hnew (by omega)
  refine ⟨v, s', hok, hcl.count, ⟨_, _, hrep'⟩, hcl.quiet h.quiet, valid_snoc h.valid hk, ?_, ?_,
    fun e he => ?_, fun b hb hbout => ?_⟩
  · rw [hcl.count, admitted_snoc, if_neg (not_or.mpr ⟨hnew, by omega⟩), List.map_append, h.keys]
    rfl
  · rw [List.map_append]
    refine List.nodup_append.mpr ⟨h.heads, by simp, fun a ha b hb => ?_⟩
    obtain rfl : b = v := by simpa using hb
    rintro rfl
    exact hout ha
  · rcases List.mem_append.mp he with he | he
    · have hev : e.2 ≠ v := fun hev => hout (hev ▸ List.mem_map_of_mem he)
      have hek : e.1 ≠ k := fun hek => hnew (hek ▸ h.mem_admitted he)
      rcases h.held e he with ⟨⟨hmem, hd, hb⟩, hc⟩
      refine ⟨⟨hcl.headers ▸ hmem, ?_, ?_⟩, ?_⟩
      · rw [(hcl.key e.2).1, if_neg hev, hd]
      · rw [(hcl.key e.2).2, if_neg hev, hb]
      · rw [(hcl.flags e.2).1, if_neg hev, count_snoc_ne hek, hc]
    · obtain rfl : e = (k, v) := by simpa using he
      refine ⟨⟨hcl.headers ▸ hv, ?_, ?_⟩, ?_⟩
      · rw [(hcl.key v).1, if_pos rfl]
      · rw [(hcl.key v).2, if_pos rfl]
      · rw [(hcl.flags v).1, if_pos rfl, count_snoc_self, List.count_eq_zero.mpr hkey]
        rfl
  · rw [hcl.headers] at hb
    have hbv : b ≠ v := by
      rintro rfl
      exact hbout (by simp)
    rw [(hcl.key b).1, if_neg hbv, (hcl.flags b).1, if_neg hbv]
    refine h.idle b hb fun hin => hbout ?_
    rw [List.map_append]
    exact List.mem_append_left _ hin

/-! ## Runs -/

/-- No key that owns a head has been asked for 256 times. -/
def Unwrapped (n : Nat) (ks : List Key) : Prop := ∀ k ∈ admitted n ks, ks.count k < 256

/-- Along the run every head that was handed out keeps its key and `b_count > 0`, and is
handed out for no other key. -/
def Keeps (fuel : Nat) (s₀ : Cache) (ks : List Key) : Prop :=
  ∀ pre, pre <+: ks → ∃ s log, callRun fuel s₀ pre = .ok (s, log) ∧
    (∀ e ∈ log, s.Holds e.2 e.1.1 e.1.2 ∧ (s.head e.2).bCount ≠ 0) ∧
    ∀ e ∈ log, ∀ e' ∈ log, e.2 = e'.2 → e.1 = e'.1

theorem callRun_snoc {fuel : Nat} {s₀ : Cache} {log : List (Key × Nat)}
    (h : callRun fuel s₀ ks = .ok (s, log)) :
    callRun fuel s₀ (ks ++ [k]) = callOne fuel (s, log) k := by
  rw [callRun] at h
  rw [callRun, List.foldlM_append, h]
  show List.foldlM (callOne fuel) (s, log) [k] = _
  rw [List.foldlM_cons]
  simp only [List.foldlM_nil, bind_pure]

theorem callOne_ret {fuel b : Nat} {log : List (Key × Nat)}
    (h : getblk fuel s k.1 k.2 = .ok (s', .ret (some b))) :
    callOne fuel (s, log) k = .ok (s', log ++ [(k, b)]) := by
  simp only [callOne, h, bind, Except.bind, pure, Except.pure]

theorem callOne_sleep {fuel : Nat} {log : List (Key × Nat)}
    (h : getblk fuel s k.1 k.2 = .ok (s', .sleepFree)) :
    callOne fuel (s, log) k = .ok (s', log) := by
  simp only [callOne, h, bind, Except.bind, pure, Except.pure]

theorem Unwrapped.of_snoc {n : Nat} (h : Unwrapped n (ks ++ [k])) : Unwrapped n ks := by
  intro k' hk'
  have hc := h k' (admitted_mono hk')
  rw [List.count_append] at hc
  omega

theorem Unwrapped.of_prefix {n : Nat} {pre : List Key} (hpre : pre <+: ks) (h : Unwrapped n ks) :
    Unwrapped n pre := by
  rcases hpre with ⟨t, rfl⟩
  induction t using List.reverseRecOn with
  | nil => simpa using h
  | append_singleton t k ih =>
    rw [← List.append_assoc] at h
    exact ih h.of_snoc

variable {s₀ : Cache}

/-- As long as no count wraps the run assigns the heads one by one. -/
theorem callRun_assigned (hinit : Initial s₀) (fuel : Nat) (hvalid : ∀ k ∈ ks, ValidDev k.1)
    (hun : Unwrapped s₀.nrBuffers ks) : ∃ s log as, callRun (fuel + 6) s₀ ks = .ok (s, log) ∧
      Assigned s ks as ∧ log ⊆ as ∧ s.nrBuffers = s₀.nrBuffers := by
  induction ks using List.reverseRecOn with
  | nil => exact ⟨s₀, [], [], rfl, hinit.assigned, by simp, rfl⟩
  | append_singleton ks k ih =>
    have hk : ValidDev k.1 := hvalid k (by simp)
    rcases ih (fun k' hk' => hvalid k' (List.mem_append_left _ hk')) hun.of_snoc with
      ⟨s, log, as, hrun, h, hlog, hn⟩
    rw [callRun_snoc hrun]
    by_cases hin : k ∈ admitted s.nrBuffers ks
    · -- a hit
      rw [← h.keys] at hin
      rcases List.mem_map.mp hin with ⟨e, he, rfl⟩
      have hcount : ks.count e.1 < 255 := by
        have hc := hun e.1 (hn ▸ admitted_mono (h.mem_admitted he))
        rw [count_snoc_self] at hc
        omega
      refine ⟨_, _, as, callOne_ret (h.hit fuel he), h.hit_assigned he hcount, ?_, hn⟩
      exact List.append_subset.mpr ⟨hlog, by simpa using he⟩
    · by_cases hroom : (admitted s.nrBuffers ks).length < s.nrBuffers
      · rcases h.miss_assigned hk fuel hin hroom with ⟨v, s', hok, hn', h'⟩
        refine ⟨s', _, _, callOne_ret hok, h', ?_, hn'.trans hn⟩
        exact List.append_subset.mpr ⟨fun e he => List.mem_append_left _ (hlog he), by simp⟩
      · rcases h.rep with ⟨ring, chains, hrep⟩
        have hfull := Nat.le_of_not_lt hroom
        exact ⟨s, log, as, callOne_sleep (getblk_full hrep fuel (h.find_none hk hin)
          (h.full hfull)), h.full_assigned hk hin hfull, hlog, hn⟩

theorem keeps_of_unwrapped (hinit : Initial s₀) (fuel : Nat) (hvalid : ∀ k ∈ ks, ValidDev k.1)
    (hun : Unwrapped s₀.nrBuffers ks) : Keeps (fuel + 6) s₀ ks := by
  intro pre hpre
  rcases callRun_assigned hinit fuel (fun k hk => hvalid k (hpre.subset hk))
    (hun.of_prefix hpre) with ⟨s, log, as, hrun, h, hlog, -⟩
  refine ⟨s, log, hrun, fun e he => ⟨(h.held e (hlog he)).1, fun h0 => ?_⟩,
    fun e he e' he' hb => by rw [h.eq_of_head (hlog he) (hlog he') hb]⟩
  exact (h.count_eq_zero (h.held e (hlog he)).1.1).mp h0 (List.mem_map_of_mem (hlog he))

/-- The first call that makes a count wrap is the 256th for its own key. -/
theorem wrapped_snoc {n : Nat} (hun : Unwrapped n ks) (hwrap : ¬ Unwrapped n (ks ++ [k])) :
    k ∈ admitted n ks ∧ ks.count k = 255 := by
  simp only [Unwrapped, not_forall, Nat.not_lt] at hwrap
  rcases hwrap with ⟨k', hk', hcount⟩
  by_cases hkk : k' = k
  · subst hkk
    rw [count_snoc_self] at hcount
    have hmem : k' ∈ ks := List.count_pos_iff.mp (by omega)
    have hin : k' ∈ admitted n ks := by
      rcases admitted_of_mem hmem with h | h
      · exact h
      · rwa [admitted_snoc, if_pos (Or.inr h)] at hk'
    have := hun k' hin
    exact ⟨hin, by omega⟩
  · rw [count_snoc_ne hkk] at hcount
    have hin : k' ∈ admitted n ks := by
      rw [admitted_snoc] at hk'
      split at hk'
      · exact hk'
      · rcases List.mem_append.mp hk' with h | h
        · exact h
        · exact absurd (List.mem_singleton.mp h) hkk
    have := hun k' hin
    omega

/-- The 256th call for a key that owns a head leaves the head with `b_count = 0`. -/
theorem not_keeps_of_wrapped (hinit : Initial s₀) (fuel : Nat) (hvalid : ∀ k ∈ ks, ValidDev k.1)
    (hwrap : ¬ Unwrapped s₀.nrBuffers ks) : ¬ Keeps (fuel + 6) s₀ ks := by
  induction ks using List.reverseRecOn with
  | nil => exact absurd (by simp [Unwrapped, admitted]) hwrap
  | append_singleton ks k ih =>
    have hvalid' : ∀ k ∈ ks, ValidDev k.1 := fun k' hk' => hvalid k' (List.mem_append_left _ hk')
    by_cases hun : Unwrapped s₀.nrBuffers ks
    · rcases callRun_assigned hinit fuel hvalid' hun with ⟨s, log, as, hrun, h, hlog, hn⟩
      rw [← hn] at hun hwrap
      rcases wrapped_snoc hun hwrap with ⟨hin, hcount⟩
      rw [← h.keys] at hin
      rcases List.mem_map.mp hin with ⟨e, he, rfl⟩
      intro hkeeps
      rcases hkeeps _ List.prefix_rfl with ⟨s', log', hrun', hkept, -⟩
      rw [callRun_snoc hrun, callOne_ret (h.hit fuel he)] at hrun'
      cases hrun'
      refine (hkept e (by simp)).2 ?_
      rw [setCount_head, if_pos rfl]
      have hheld := (h.held e he).2
      show (s.head e.2).bCount + 1 = 0
      bv_omega
    · exact fun hkeeps => ih hvalid' hun fun pre hpre =>
        hkeeps pre (hpre.trans (List.prefix_append _ _))

/-- A run of `getblk` calls from the state `buffer_init` leaves recycles no head that it has
handed out if and only if none of the first `NR_BUFFERS` different keys of the run occurs
256 times or more. -/
theorem getblk_keeps_iff {fuel start bufferEnd : Nat} {heads : Nat → BufferHead}
    (hinit : bufferInit fuel start bufferEnd heads = some s₀) (hn : 1 ≤ s₀.nrBuffers)
    (hvalid : ∀ k ∈ ks, ValidDev k.1) (turns : Nat) :
    Keeps (turns + 6) s₀ ks ↔ ∀ k ∈ admitted s₀.nrBuffers ks, ks.count k < 256 := by
  have h := bufferInit_initial hinit hn
  refine ⟨fun hkeeps => ?_, fun hun => keeps_of_unwrapped h turns hvalid hun⟩
  by_contra hwrap
  exact not_keeps_of_wrapped h turns hvalid hwrap hkeeps

/-- Two heads and three keys: the third key waits, however often it is asked for. -/
theorem getblk_keeps_iff_three_keys :
    Keeps 6 (smallCache 4148) [(0x300, 0), (0x300, 1), (0x300, 2), (0x300, 0)] := by
  have hvalid : ∀ k ∈ [((0x300, 0) : Key), (0x300, 1), (0x300, 2), (0x300, 0)],
      ValidDev k.1 := by simp [ValidDev]
  have hcount : (admitted (smallCache 4148).nrBuffers [(0x300, 0), (0x300, 1), (0x300, 2), (0x300, 0)]).all
      (fun k => decide ([((0x300, 0) : Key), (0x300, 1), (0x300, 2), (0x300, 0)].count k < 256)) =
      true := by decide
  exact (getblk_keeps_iff (show bufferInit 3 2000 4148 (fun _ => zeroHead) = _ from rfl)
    (by decide) hvalid 0).mpr fun k hk => of_decide_eq_true (List.all_eq_true.mp hcount k hk)

/-- 256 calls of `kdebug` on a fresh cache of two heads. -/
theorem getblk_recycles_after_256 : ¬ Keeps 6 (smallCache 4148) (List.replicate 256 (0x300, 0)) := by
  refine not_keeps_of_wrapped smallCache_initial 0 (fun k hk => ?_) fun hun => ?_
  · rw [List.eq_of_mem_replicate hk]
    decide
  · have hcount := hun (0x300, 0) (by rw [admitted_replicate (by decide)]; simp)
    rw [List.count_replicate_self] at hcount
    omega

end MockOs.Fs
