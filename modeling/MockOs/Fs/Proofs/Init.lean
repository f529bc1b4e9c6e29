import MockOs.Fs.Proofs.Lookup

/-!
# What `buffer_init` leaves

A ring of idle heads in the order of their addresses and an empty hash table.
-/

namespace MockOs.Fs

open Links

/-- What the loop of `buffer_init` writes to the head at `a`, but for `b_data`. -/
structure InitHead (bh : BufferHead) (a : Nat) : Prop where
  dev : bh.bDev = 0
  dirt : bh.bDirt = 0
  count : bh.bCount = 0
  lock : bh.bLock = 0
  uptodate : bh.bUptodate = 0
  next : bh.bNext = none
  prev : bh.bPrev = none
  prevFree : bh.bPrevFree = some (a - sizeofBufferHead)
  nextFree : bh.bNextFree = some (a + sizeofBufferHead)

/-- The address of the `i`-th head. -/
def headAddr (start i : Nat) : Nat := start + sizeofBufferHead * i

theorem headAddr_inj {start i j : Nat} (h : headAddr start i = headAddr start j) : i = j := by
  simp only [headAddr, sizeofBufferHead] at h
  omega

theorem headAddr_succ (start i : Nat) :
    headAddr start i + sizeofBufferHead = headAddr start (i + 1) := by
  simp only [headAddr, sizeofBufferHead]
  omega

/-- Loop invariant: the heads below `h` are initialised and `NR_BUFFERS` counts them. -/
theorem bufferInitLoop_spec (start nr : Nat) {fuel b : Nat} {heads : Nat → BufferHead}
    {h' nr' : Nat} {heads' : Nat → BufferHead}
    (hloop : bufferInitLoop fuel (headAddr start nr) b nr heads = some (h', nr', heads'))
    (hinv : ∀ i < nr, InitHead (heads (headAddr start i)) (headAddr start i)) :
    h' = headAddr start nr' ∧ ∀ i < nr', InitHead (heads' (headAddr start i)) (headAddr start i) := by
  induction fuel generalizing b nr heads with
  | zero => simp [bufferInitLoop] at hloop
  | succ fuel ih =>
    simp only [bufferInitLoop] at hloop
    split at hloop
    · rw [headAddr_succ] at hloop
      refine ih _ hloop fun i hi => ?_
      by_cases hin : i = nr
      · subst hin
        rw [Function.update_self]
        exact ⟨rfl, rfl, rfl, rfl, rfl, rfl, rfl, rfl, rfl⟩
      · rw [Function.update_of_ne (fun h => hin (headAddr_inj h))]
        exact hinv i (by omega)
    · simp only [Option.some.injEq, Prod.mk.injEq] at hloop
      rcases hloop with ⟨rfl, rfl, rfl⟩
      exact ⟨rfl, hinv⟩

/-- Nodes at consecutive addresses, before the ring is closed. -/
theorem dSeg_headAddr (next prev : Nat → Option Nat) (start k m : Nat)
    (hn : ∀ i, k ≤ i → i < k + m → next (headAddr start i) = some (headAddr start (i + 1)))
    (hp : ∀ i, k ≤ i → i < k + m →
      prev (headAddr start i) = some (headAddr start i - sizeofBufferHead)) :
    ∃ qr, DSeg next prev (some (headAddr start k)) (some (headAddr start k - sizeofBufferHead))
      ((List.range' k m).map (headAddr start)) (some (headAddr start (k + m))) qr := by
  induction m generalizing k with
  | zero => exact ⟨_, rfl, rfl⟩
  | succ m ih =>
    have hk : headAddr start k = headAddr start (k + 1) - sizeofBufferHead := by
      have := headAddr_succ start k
      omega
    rcases ih (k + 1) (fun i h1 h2 => hn i (by omega) (by omega))
      (fun i h1 h2 => hp i (by omega) (by omega)) with ⟨qr, hseg⟩
    refine ⟨qr, rfl, hp k (by omega) (by omega), ?_⟩
    rw [hn k (by omega) (by omega)]
    rw [← hk, show k + 1 + m = k + (m + 1) by omega] at hseg
    exact hseg

/-- The cache that `buffer_init` leaves satisfies the representation invariant, and every
head is idle. -/
structure Initial (s : Cache) : Prop where
  rep : Rep s s.headers fun _ => []
  idle : ∀ b ∈ s.headers, (s.head b).bDev = 0 ∧ (s.head b).bCount = 0 ∧ (s.head b).bDirt = 0 ∧
    (s.head b).bLock = 0

/-- The two writes that close the ring. -/
def closeRing (s : Cache) (first last : Nat) : Cache :=
  (s.setPrevFree first (some last)).setNextFree last (some first)

theorem bufferInit_eq {fuel start bufferEnd : Nat} {heads : Nat → BufferHead} {s : Cache}
    (h : bufferInit fuel start bufferEnd heads = some s) :
    ∃ heads' nr, s = closeRing ⟨heads', some start, fun _ => none, start, nr⟩ start
        (headAddr start nr - sizeofBufferHead) ∧
      ∀ i < nr, InitHead (heads' (headAddr start i)) (headAddr start i) := by
  simp only [bufferInit, bind, Option.bind_eq_some_iff, Prod.exists] at h
  rcases h with ⟨h', nr, heads', hloop, hs⟩
  have hspec := bufferInitLoop_spec start 0 (by simpa [headAddr] using hloop)
    (by simp)
  rw [hspec.1] at hs
  exact ⟨heads', nr, (Option.some.inj hs).symm, hspec.2⟩

/-- Closing the ring over `nr ≥ 1` initialised heads. -/
theorem closeRing_initial {start nr : Nat} {heads : Nat → BufferHead} (hn : 1 ≤ nr)
    (hinit : ∀ i < nr, InitHead (heads (headAddr start i)) (headAddr start i)) :
    Initial (closeRing ⟨heads, some start, fun _ => none, start, nr⟩ start
      (headAddr start nr - sizeofBufferHead)) := by
  have hlast : headAddr start nr - sizeofBufferHead = headAddr start (nr - 1) := by
    have hsucc := headAddr_succ start (nr - 1)
    rw [show nr - 1 + 1 = nr by omega] at hsucc
    omega
  rw [hlast]
  set s0 : Cache := ⟨heads, some start, fun _ => none, start, nr⟩ with hs0
  set s := closeRing s0 start (headAddr start (nr - 1)) with hs
  have hheaders : s.headers = (List.range' 0 nr).map (headAddr start) := by
    rw [← List.range_eq_range']
    rfl
  have hmem : ∀ b ∈ s.headers, InitHead (s0.head b) b := by
    intro b hb
    rw [hheaders] at hb
    rcases List.mem_map.mp hb with ⟨i, hi, rfl⟩
    exact hinit i (by simpa using hi)
  have hhead : ∀ a, s.head a = { s0.head a with
      bPrevFree := if a = start then some (headAddr start (nr - 1)) else s0.prevFree a
      bNextFree := if a = headAddr start (nr - 1) then some start else s0.nextFree a } := fun a =>
    setFree_head s0 (headAddr start (nr - 1)) start a (some (headAddr start (nr - 1))) (some start)
  have hnd := headers_nodup s
  -- the ring
  have hfirst : s.headers.head? = some start := by
    rw [hheaders]
    rcases Nat.exists_eq_add_of_le' hn with ⟨m, rfl⟩
    simp [List.range'_succ, headAddr]
  have hend : s.headers.getLast? = some (headAddr start (nr - 1)) := by
    rw [hheaders]
    rcases Nat.exists_eq_add_of_le' hn with ⟨m, rfl⟩
    simp [List.range'_concat]
  have hring : Ring s.nextFree s.prevFree s.headers := by
    rcases dSeg_headAddr s0.nextFree s0.prevFree start 0 nr
      (fun i _ hi => by
        rw [← headAddr_succ]
        exact (hinit i (by omega)).nextFree)
      (fun i _ hi => (hinit i (by omega)).prevFree) with ⟨qr, hseg⟩
    rw [← hheaders] at hseg
    have hstart : headAddr start 0 = start := rfl
    rw [hstart] at hseg
    have h1 : DSeg s0.nextFree s.prevFree (some start) (some (headAddr start (nr - 1))) s.headers
        (some (headAddr start (0 + nr))) (s.headers.getLast?.or _) :=
      hseg.setStart hnd (fun _ _ => rfl) (fun a _ => by
        simp only [Cache.prevFree, hhead, Option.some.injEq, eq_comm])
    rw [hend, Option.some_or] at h1
    have h2 : DSeg s.nextFree s.prevFree (s.headers.head?.or (some start))
        (some (headAddr start (nr - 1))) s.headers (some start)
        (some (headAddr start (nr - 1))) :=
      h1.setEnd hnd (fun a _ => by
        simp only [Cache.nextFree, hhead, Option.some.injEq, eq_comm]) (fun _ _ => rfl)
    rw [hfirst, Option.some_or] at h2
    refine ⟨fun hnil => ?_, ?_⟩
    · rw [hnil] at hfirst
      cases hfirst
    · rw [hfirst, hend]
      exact h2
  have hdev : ∀ b ∈ s.headers, (s.head b).bDev = 0 := fun b hb => by
    rw [hhead]
    exact (hmem b hb).dev
  refine ⟨⟨⟨hfirst.symm, hring, hnd⟩, List.Perm.refl _, ⟨fun i => ⟨rfl, rfl⟩, fun _ => by simp,
    fun i j b hi => by simp at hi⟩, fun i b => ?_, fun b hb _ => ?_, fun a ha b _ h0 => ?_⟩,
    fun b hb => ?_⟩
  · simp only [List.not_mem_nil, false_iff]
    exact fun hb => hb.2.1 (hdev b hb.1)
  · simp only [Cache.next, Cache.prev, hhead]
    exact ⟨(hmem b hb).next, (hmem b hb).prev⟩
  · exact absurd (hdev a ha) h0
  · rw [hhead]
    exact ⟨(hmem b hb).dev, (hmem b hb).count, (hmem b hb).dirt, (hmem b hb).lock⟩

theorem bufferInit_initial {fuel start bufferEnd : Nat} {heads : Nat → BufferHead} {s : Cache}
    (h : bufferInit fuel start bufferEnd heads = some s) (hn : 1 ≤ s.nrBuffers) : Initial s := by
  rcases bufferInit_eq h with ⟨heads', nr, rfl, hinit⟩
  exact closeRing_initial hn hinit

/-- The loop of `buffer_init` ends: `h` grows with every turn and stays below `b`. -/
theorem bufferInitLoop_isSome {fuel h b nr : Nat} {heads : Nat → BufferHead}
    (hfuel : 2 ^ 32 ≤ h + sizeofBufferHead * fuel) :
    (bufferInitLoop (fuel + 1) h b nr heads).isSome = true := by
  induction fuel generalizing h b nr heads with
  | zero =>
    have hb : (b + 2 ^ 32 - blockSize) % 2 ^ 32 < 2 ^ 32 := Nat.mod_lt _ (by decide)
    simp only [bufferInitLoop]
    rw [if_neg (by simp only [sizeofBufferHead] at *; omega)]
    rfl
  | succ fuel ih =>
    rw [bufferInitLoop]
    simp only
    split
    · apply ih
      simp only [sizeofBufferHead] at *
      omega
    · rfl

/-- `buffer_init` returns. -/
theorem bufferInit_isSome {fuel start : Nat} (bufferEnd : Nat) (heads : Nat → BufferHead)
    (hfuel : 2 ^ 32 ≤ start + sizeofBufferHead * fuel) :
    (bufferInit (fuel + 1) start bufferEnd heads).isSome = true := by
  have hloop : ∀ b, ∃ r, bufferInitLoop (fuel + 1) start b 0 heads = some r := fun b =>
    Option.isSome_iff_exists.mp (bufferInitLoop_isSome hfuel)
  rcases hloop (if bufferEnd = 2 ^ 20 then 640 * 1024 else bufferEnd) with ⟨r, hr⟩
  simp only [bufferInit, hr, bind, Option.bind_some]
  rfl

/-- A head of zeroed memory. -/
def zeroHead : BufferHead := ⟨0, 0, 0, 0, 0, 0, 0, none, none, none, none⟩

/-- The cache `buffer_init` makes of the zeroed memory from 2000 to `bufferEnd`. -/
def smallCache (bufferEnd : Nat) : Cache :=
  (bufferInit 3 2000 bufferEnd fun _ => zeroHead).getD
    ⟨fun _ => zeroHead, none, fun _ => none, 0, 0⟩

end MockOs.Fs
