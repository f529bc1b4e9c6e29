import Mathlib.Data.List.Perm.Subperm
import MockOs.Fs.Proofs.Queues

/-!
# Reading the buffer cache

On a cache that satisfies the representation invariant `find_buffer` is a partial map
from keys to heads, and the victim scan of `getblk` is one pass over the free ring. Both
loops end within `NR_BUFFERS` turns.
-/

namespace MockOs.Fs

open Links

variable {s s' : Cache} {ring : List Nat} {chains : Fin nrHash → List Nat}

/-! ## `find_buffer` -/

theorem findBufferFrom_chain {dev block : BitVec 32} {l : List Nat} {p : Option Nat} {fuel : Nat}
    (h : Chain s.next p l) (hfuel : l.length ≤ fuel) :
    findBufferFrom s dev block fuel p = .ok (l.find? fun b => (s.head b).hasKey dev block) := by
  induction l generalizing p fuel with
  | nil =>
    rw [chain_nil.mp h]
    cases fuel <;> rfl
  | cons a l ih =>
    rcases h with ⟨rfl, hl⟩
    cases fuel with
    | zero => simp at hfuel
    | succ fuel =>
      simp only [findBufferFrom, List.find?_cons]
      by_cases hkey : (s.head a).hasKey dev block
      · simp [hkey]
      · rw [if_neg hkey]
        have hrest : findBufferFrom s dev block fuel (s.head a).bNext = _ :=
          ih hl (by simpa using hfuel)
        simpa [hkey] using hrest

/-- The head that holds `(dev, block)`, searched among all of them. -/
def Cache.find (s : Cache) (dev block : BitVec 32) : Option Nat :=
  s.headers.find? fun b => (s.head b).bDev ≠ 0 && (s.head b).hasKey dev block

theorem BufferHead.hasKey_iff {bh : BufferHead} {dev block : BitVec 32} :
    bh.hasKey dev block = true ↔ bh.bDev.setWidth 32 = dev ∧ bh.bBlocknr = block := by
  simp [BufferHead.hasKey]

/-- The slot of a lookup is the slot of an insertion under the same key. -/
theorem BufferHead.slot_of_hasKey {bh : BufferHead} {dev block : BitVec 32}
    (h : bh.hasKey dev block = true) : bh.slot = hashfn dev block := by
  rcases hasKey_iff.mp h with ⟨hd, hb⟩
  rw [BufferHead.slot, hd, hb]

theorem length_headers (s : Cache) : s.headers.length = s.nrBuffers := by
  simp [Cache.headers]

theorem Rep.find_eq_some (h : Rep s ring chains) {dev block : BitVec 32} {b : Nat} :
    s.find dev block = some b ↔
      b ∈ s.headers ∧ (s.head b).bDev ≠ 0 ∧ (s.head b).hasKey dev block = true := by
  simp only [Cache.find]
  have hsome : ∀ c, (s.headers.find? fun b => (s.head b).bDev ≠ 0 &&
      (s.head b).hasKey dev block) = some c →
      c ∈ s.headers ∧ (s.head c).bDev ≠ 0 ∧ (s.head c).hasKey dev block = true := by
    intro c hc
    refine ⟨List.mem_of_find?_eq_some hc, ?_⟩
    simpa using List.find?_some hc
  refine ⟨hsome b, ?_⟩
  rintro ⟨hb, hdev, hkey⟩
  cases hf : s.headers.find? fun b => (s.head b).bDev ≠ 0 && (s.head b).hasKey dev block with
  | none =>
    have := List.find?_eq_none.mp hf b hb
    simp_all
  | some c =>
    rcases hsome c hf with ⟨hc, hcdev, hckey⟩
    rcases BufferHead.hasKey_iff.mp hkey with ⟨hd, hbl⟩
    rcases BufferHead.hasKey_iff.mp hckey with ⟨hd', hbl'⟩
    have hdd : (s.head c).bDev = (s.head b).bDev := by
      have := hd'.trans hd.symm
      bv_omega
    rw [h.uniq c hc b hb hcdev hdd (hbl'.trans hbl.symm)]

theorem find_eq_none {dev block : BitVec 32} : s.find dev block = none ↔
    ∀ b ∈ s.headers, (s.head b).bDev ≠ 0 → (s.head b).hasKey dev block = false := by
  simp [Cache.find]

/-- `find_buffer` ends, with a head of its chain that has the key or with none. -/
theorem Queued.findBuffer_chain (h : Queued s ring chains) (dev block : BitVec 32) :
    findBuffer s dev block = .ok ((chains (hashfn dev block)).find? fun b =>
      (s.head b).hasKey dev block) := by
  have hlen : (chains (hashfn dev block)).length ≤ s.nrBuffers := by
    rw [← length_headers]
    exact ((h.hash.nodup _).subperm fun b hb => ((h.mem _ b).mp hb).1).length_le
  rw [findBuffer, findBufferFrom_chain (h.hash.links _).chain hlen]

/-- What `find_buffer` returns is a head with the key. -/
theorem Queued.findBuffer_spec (h : Queued s ring chains) (dev block : BitVec 32) :
    ∃ r, findBuffer s dev block = .ok r ∧
      ∀ b, r = some b → b ∈ s.headers ∧ (s.head b).hasKey dev block = true := by
  refine ⟨_, h.findBuffer_chain dev block, fun b hb => ⟨?_, ?_⟩⟩
  · exact ((h.mem _ b).mp (List.mem_of_find?_eq_some hb)).1
  · simpa using List.find?_some hb

/-- `find_buffer` finds the head of the key. -/
theorem Rep.findBuffer_eq (h : Rep s ring chains) (dev block : BitVec 32) :
    findBuffer s dev block = .ok (s.find dev block) := by
  rw [h.queued.findBuffer_chain dev block]
  congr 1
  cases hf : s.find dev block with
  | none =>
    refine List.find?_eq_none.mpr fun b hb => ?_
    rcases (h.mem _ b).mp hb with ⟨hbm, hdev, -⟩
    simp [find_eq_none.mp hf b hbm hdev]
  | some b =>
    rcases h.find_eq_some.mp hf with ⟨hbm, hdev, hkey⟩
    have hin := (h.mem _ b).mpr ⟨hbm, hdev, BufferHead.slot_of_hasKey hkey⟩
    cases hc : (chains (hashfn dev block)).find? fun b => (s.head b).hasKey dev block with
    | none => exact absurd hkey (by simpa using List.find?_eq_none.mp hc b hin)
    | some c =>
      rcases (h.mem _ c).mp (List.mem_of_find?_eq_some hc) with ⟨hcm, hcdev, -⟩
      have hckey : (s.head c).hasKey dev block = true := List.find?_some (p := fun b =>
        (s.head b).hasKey dev block) hc
      exact (h.find_eq_some.mpr ⟨hcm, hcdev, hckey⟩).symm.trans hf

/-! ## The victim scan -/

/-- The victim scan as a pass over a list. -/
def scanRing (s : Cache) : List Nat → Option Nat → Option Nat
  | [], bh => bh
  | tmp :: l, bh =>
    if (s.head tmp).bCount = 0 ∧ better s tmp bh then
      if badness (s.head tmp) = 0 then some tmp else scanRing s l (some tmp)
    else scanRing s l bh

/-- The successor of a head in the ring. -/
theorem FreeRing.next_eq (h : FreeRing s ring) {l m : List Nat} {tmp : Nat}
    (hring : ring = l ++ tmp :: m) : (s.head tmp).bNextFree = m.head?.or s.freeList := by
  have hrot : Ring s.nextFree s.prevFree (tmp :: (m ++ l)) := by
    simpa using (hring ▸ h.links : Ring s.nextFree s.prevFree (l ++ tmp :: m)).rotate
  have hnext : (s.head tmp).bNextFree = _ := hrot.entry.2
  rw [hnext, h.entry, hring]
  cases m <;> cases l <;> rfl

theorem FreeRing.scan_from (h : FreeRing s ring) {l m : List Nat} {tmp fuel : Nat}
    {bh : Option Nat} (hring : ring = l ++ tmp :: m) (hfuel : m.length < fuel) :
    scanFree s fuel tmp bh = .ok (scanRing s (tmp :: m) bh) := by
  have hnext := h.next_eq hring
  induction m generalizing l tmp fuel bh with
  | nil =>
    cases fuel with
    | zero => simp at hfuel
    | succ fuel =>
      have hend : (s.head tmp).bNextFree = s.freeList := by simpa using hnext
      simp only [scanFree, scanRing, hend, if_true]
      split_ifs <;> simp_all
  | cons c m ih =>
    cases fuel with
    | zero => simp at hfuel
    | succ fuel =>
      have hring' : ring = (l ++ [tmp]) ++ c :: m := by simpa using hring
      have hnext' : (s.head tmp).bNextFree = some c := by simpa using hnext
      have hmore : some c ≠ s.freeList := by
        intro hc
        have hnd := h.nodup
        rw [h.entry, hring] at hc
        rw [hring] at hnd
        cases l <;> simp_all
      have hrest : ∀ bh, scanFree s fuel c bh = .ok (scanRing s (c :: m) bh) := fun bh =>
        ih hring' (by simpa using hfuel) (h.next_eq hring')
      simp only [scanFree, hnext', if_neg hmore, deref, bind, Except.bind, hrest]
      rw [scanRing.eq_2 s bh tmp (c :: m)]
      by_cases htake : (s.head tmp).bCount = 0 ∧ better s tmp bh = true
      · by_cases hbad : badness (s.head tmp) = 0 <;> simp only [htake, hbad] <;> simp
      · simp only [htake]
        simp

/-- The victim scan of `getblk` ends, with what one pass over the ring picks. -/
theorem Queued.scanFree_eq (h : Queued s ring chains) :
    ∃ tmp, deref s.freeList = .ok tmp ∧
      scanFree s s.nrBuffers tmp none = .ok (scanRing s ring none) := by
  rcases List.exists_cons_of_ne_nil h.free.links.1 with ⟨tmp, l, rfl⟩
  have hentry := h.free.entry
  simp only [List.head?_cons] at hentry
  have hlen : (tmp :: l).length = s.nrBuffers := by rw [h.perm.length_eq, length_headers]
  refine ⟨tmp, by rw [hentry]; rfl, h.free.scan_from (l := []) rfl ?_⟩
  rw [← hlen]
  simp

/-- What the scan picks is on the ring and not in use. -/
theorem scanRing_spec {l : List Nat} {bh : Option Nat} {b : Nat}
    (h : scanRing s l bh = some b) : bh = some b ∨ (b ∈ l ∧ (s.head b).bCount = 0) := by
  induction l generalizing bh with
  | nil => exact Or.inl h
  | cons tmp l ih =>
    rw [scanRing] at h
    split_ifs at h with htake hbad
    · exact Or.inr ⟨by simp_all, by simp_all⟩
    · rcases ih h with hb | ⟨hb, hc⟩
      · exact Or.inr ⟨by simp_all, by simp_all⟩
      · exact Or.inr ⟨List.mem_cons_of_mem _ hb, hc⟩
    · rcases ih h with hb | ⟨hb, hc⟩
      · exact Or.inl hb
      · exact Or.inr ⟨List.mem_cons_of_mem _ hb, hc⟩

/-- The scan comes back empty only when every head is in use. -/
theorem scanRing_none {l : List Nat} {bh : Option Nat} :
    scanRing s l bh = none ↔ bh = none ∧ ∀ b ∈ l, (s.head b).bCount ≠ 0 := by
  induction l generalizing bh with
  | nil => simp [scanRing]
  | cons tmp l ih =>
    rw [scanRing]
    split_ifs with htake hbad
    · simp [htake.1]
    · rw [ih]
      simp [htake.1]
    · rw [ih]
      cases bh with
      | none => simp_all [better]
      | some b => simp

end MockOs.Fs
