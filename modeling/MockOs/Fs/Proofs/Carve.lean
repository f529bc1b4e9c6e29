import Mathlib.Data.Nat.Find
import MockOs.Fs.Proofs.Init

/-!
# How `buffer_init` carves the memory

Headers go up from `start_buffer` and blocks down from `buffer_end`. The blocks reach 1 MB
exactly, since `buffer_end` is a multiple of their size; there the loop skips the hole and goes
on below 640 KB, until the next block would meet its header.
-/

namespace MockOs.Fs

/-- The bounds of the hole. -/
def lowEnd : Nat := 0xa0000
def highStart : Nat := 0x100000

/-- How many blocks lie above 1 MB. -/
def highBlocks (bufferEnd : Nat) : Nat := (bufferEnd - highStart) / blockSize

/-- `b` at the head of the loop when `nr` blocks are carved. -/
def bottom (bufferEnd nr : Nat) : Nat :=
  if nr < highBlocks bufferEnd then bufferEnd - blockSize * nr
  else lowEnd - blockSize * (nr - highBlocks bufferEnd)

/-- The loop goes round once more. -/
def Fits (start bufferEnd nr : Nat) : Prop :=
  headAddr start (nr + 1) + blockSize ≤ bottom bufferEnd nr

instance (start bufferEnd nr : Nat) : Decidable (Fits start bufferEnd nr) :=
  inferInstanceAs (Decidable (_ ≤ _))

/-- What is assumed of `start_buffer` and `buffer_end`. -/
structure Layout (start bufferEnd : Nat) : Prop where
  multiple : bufferEnd % blockSize = 0
  above : highStart < bufferEnd
  room : start + sizeofBufferHead * highBlocks bufferEnd ≤ lowEnd

section Loop

variable {start bufferEnd : Nat}

/-- One turn of the loop. The test for 1 MB is met by the last block of the high part only. -/
theorem bottom_succ (hl : Layout start bufferEnd) (nr : Nat) :
    bottom bufferEnd (nr + 1) =
      if bottom bufferEnd nr - blockSize = highStart then lowEnd
      else bottom bufferEnd nr - blockSize := by
  have hmul := hl.multiple
  have habove := hl.above
  by_cases hhigh : nr < highBlocks bufferEnd
  · have hbottom : bottom bufferEnd nr = bufferEnd - blockSize * nr := if_pos hhigh
    rw [hbottom, bottom]
    by_cases hlast : nr + 1 < highBlocks bufferEnd
    · have hne : bufferEnd - blockSize * nr - blockSize ≠ highStart := by
        unfold highBlocks highStart blockSize at *
        omega
      rw [if_pos hlast, if_neg hne, Nat.mul_succ, Nat.sub_add_eq]
    · have heq : bufferEnd - blockSize * nr - blockSize = highStart := by
        unfold highBlocks highStart blockSize at *
        omega
      rw [if_neg hlast, if_pos heq, show nr + 1 - highBlocks bufferEnd = 0 by omega, Nat.mul_zero]
      rfl
  · have hbottom : bottom bufferEnd nr = lowEnd - blockSize * (nr - highBlocks bufferEnd) :=
      if_neg hhigh
    rw [hbottom, bottom, if_neg (by omega)]
    unfold highStart blockSize lowEnd at *
    rw [if_neg (by omega)]
    omega

/-- The bottom is a multiple of the block size. -/
theorem bottom_multiple (hl : Layout start bufferEnd) (nr : Nat) :
    bottom bufferEnd nr % blockSize = 0 := by
  have hmul := hl.multiple
  unfold bottom highBlocks
  unfold highStart blockSize lowEnd at *
  split <;> omega

theorem bottom_le (hl : Layout start bufferEnd) (nr : Nat) : bottom bufferEnd nr ≤ bufferEnd := by
  have habove := hl.above
  unfold bottom
  unfold highStart lowEnd at *
  split <;> omega

/-- The headers of the high part bound `buffer_end`. -/
theorem bottom_lt (hl : Layout start bufferEnd) (nr : Nat) : bottom bufferEnd nr < 2 ^ 32 := by
  have hle := bottom_le hl nr
  have hroom := hl.room
  have hmul := hl.multiple
  unfold highBlocks highStart blockSize lowEnd sizeofBufferHead at *
  omega

/-- No block goes below address 0: `b` is a multiple of the block size and not below the header. -/
theorem blockSize_le_bottom (hl : Layout start bufferEnd) {nr : Nat}
    (hfits : ∀ i < nr, Fits start bufferEnd i) : blockSize ≤ bottom bufferEnd nr := by
  have hmul := bottom_multiple hl nr
  cases nr with
  | zero =>
    have habove := hl.above
    unfold bottom
    unfold highStart blockSize lowEnd at *
    split <;> omega
  | succ nr =>
    have hlast := hfits nr (Nat.lt_succ_self nr)
    have hnext := bottom_succ hl nr
    unfold Fits headAddr sizeofBufferHead at hlast
    unfold highStart blockSize lowEnd at *
    split at hnext <;> omega

/-- The number of blocks: the first turn that the loop does not take. -/
theorem exists_not_fits (hl : Layout start bufferEnd) : ∃ nr, ¬ Fits start bufferEnd nr := by
  refine ⟨bufferEnd, ?_⟩
  have hle := bottom_le hl bufferEnd
  unfold Fits headAddr sizeofBufferHead blockSize
  omega

/-- `NR_BUFFERS` after `buffer_init`. -/
def blockCount (hl : Layout start bufferEnd) : Nat := Nat.find (exists_not_fits hl)

theorem fits_of_lt (hl : Layout start bufferEnd) {i : Nat} (hi : i < blockCount hl) :
    Fits start bufferEnd i :=
  not_not.mp (Nat.find_min (exists_not_fits hl) hi)

theorem not_fits (hl : Layout start bufferEnd) : ¬ Fits start bufferEnd (blockCount hl) :=
  Nat.find_spec (exists_not_fits hl)

/-- All blocks above 1 MB fit. -/
theorem highBlocks_le (hl : Layout start bufferEnd) : highBlocks bufferEnd ≤ blockCount hl := by
  by_contra hlt
  apply not_fits hl
  have habove := hl.above
  have hroom := hl.room
  unfold Fits bottom headAddr
  rw [if_pos (by omega)]
  unfold highBlocks at *
  unfold highStart blockSize lowEnd sizeofBufferHead at *
  omega

/-- `b -= BLOCK_SIZE` does not wrap. -/
theorem bottom_sub (hl : Layout start bufferEnd) {nr : Nat} (hnr : nr ≤ blockCount hl) :
    (bottom bufferEnd nr + 2 ^ 32 - blockSize) % 2 ^ 32 = bottom bufferEnd nr - blockSize := by
  have hlow : blockSize ≤ bottom bufferEnd nr := by
    apply blockSize_le_bottom hl
    intro i hi
    exact fits_of_lt hl (by omega)
  have hhigh := bottom_lt hl nr
  unfold blockSize at *
  omega

/-- The whole loop, from turn `nr` on, with `k` turns to go. -/
theorem bufferInitLoop_eq (hl : Layout start bufferEnd) {nr k : Nat} (heads : Nat → BufferHead)
    (hnr : nr + k = blockCount hl) :
    ∃ heads', (∀ fuel > k, bufferInitLoop fuel (headAddr start nr) (bottom bufferEnd nr) nr heads =
        some (headAddr start (blockCount hl), blockCount hl, heads')) ∧
      (∀ i, nr ≤ i → i < blockCount hl →
        (heads' (headAddr start i)).bData = bottom bufferEnd i - blockSize) ∧
      ∀ i < nr, heads' (headAddr start i) = heads (headAddr start i) := by
  have hsub := bottom_sub hl (show nr ≤ blockCount hl by omega)
  induction k generalizing nr heads with
  | zero =>
    have hstop : ¬ headAddr start (nr + 1) ≤ bottom bufferEnd nr - blockSize := by
      have hfits := not_fits hl
      rw [← hnr, Nat.add_zero] at hfits
      unfold Fits blockSize at *
      omega
    refine ⟨heads, ?_, ?_, ?_⟩
    · intro fuel hfuel
      obtain ⟨fuel, rfl⟩ := Nat.exists_eq_add_one.mpr hfuel
      rw [bufferInitLoop, hsub, headAddr_succ, ← hnr]
      exact if_neg hstop
    · intro i hi hi'
      omega
    · intro i hi
      rfl
  | succ k ih =>
    have hgo : headAddr start (nr + 1) ≤ bottom bufferEnd nr - blockSize := by
      have hfits := fits_of_lt hl (show nr < blockCount hl by omega)
      unfold Fits at hfits
      omega
    have hnext := bottom_succ hl nr
    unfold highStart lowEnd at hnext
    have hnr' : nr + 1 + k = blockCount hl := by omega
    obtain ⟨heads', hloop, hdata, hkept⟩ := ih
      (Function.update heads (headAddr start nr)
        { heads (headAddr start nr) with
          bDev := 0, bDirt := 0, bCount := 0, bLock := 0, bUptodate := 0
          bNext := none, bPrev := none, bData := bottom bufferEnd nr - blockSize
          bPrevFree := some (headAddr start nr - sizeofBufferHead)
          bNextFree := some (headAddr start nr + sizeofBufferHead) })
      hnr' (bottom_sub hl (by omega))
    refine ⟨heads', ?_, ?_, ?_⟩
    · intro fuel hfuel
      obtain ⟨fuel, rfl⟩ : ∃ f, fuel = f + 1 := Nat.exists_eq_add_one.mpr (by omega)
      rw [bufferInitLoop, hsub, headAddr_succ, ← hnext]
      rw [headAddr_succ] at hloop
      exact (if_pos hgo).trans (hloop fuel (by omega))
    · intro i hi hi'
      rcases Nat.eq_or_lt_of_le hi with rfl | hgt
      · rw [hkept nr (Nat.lt_succ_self nr), Function.update_self]
      · exact hdata i hgt hi'
    · intro i hi
      rw [hkept i (by omega), Function.update_of_ne]
      intro heq
      have hidx := headAddr_inj heq
      omega

end Loop

/-! ## The blocks -/

variable {start bufferEnd : Nat}

/-- The address of block `i`. -/
def blockAddr (bufferEnd i : Nat) : Nat := bottom bufferEnd i - blockSize

theorem blockAddr_high {i : Nat} (hi : i < highBlocks bufferEnd) :
    blockAddr bufferEnd i + blockSize * (i + 1) = bufferEnd := by
  have hbottom : bottom bufferEnd i = bufferEnd - blockSize * i := if_pos hi
  rw [blockAddr, hbottom]
  unfold highBlocks blockSize at *
  omega

theorem blockAddr_low (hl : Layout start bufferEnd) {i : Nat} (hi : highBlocks bufferEnd ≤ i)
    (hcount : i < blockCount hl) :
    blockAddr bufferEnd i + blockSize * (i - highBlocks bufferEnd + 1) = lowEnd ∧
      headAddr start (i + 1) ≤ blockAddr bufferEnd i := by
  have hbottom : bottom bufferEnd i = lowEnd - blockSize * (i - highBlocks bufferEnd) :=
    if_neg (by omega)
  have hfits := fits_of_lt hl hcount
  unfold Fits at hfits
  rw [blockAddr]
  rw [hbottom] at hfits ⊢
  unfold blockSize at *
  omega

/-- A block is in the high part or above its header in the low part. -/
theorem blockAddr_inside (hl : Layout start bufferEnd) {i : Nat} (hi : i < blockCount hl) :
    (headAddr start (blockCount hl) ≤ blockAddr bufferEnd i ∧
      blockAddr bufferEnd i + blockSize ≤ lowEnd) ∨
    (highStart ≤ blockAddr bufferEnd i ∧ blockAddr bufferEnd i + blockSize ≤ bufferEnd) := by
  rcases Nat.lt_or_ge i (highBlocks bufferEnd) with hhigh | hlow
  · have haddr := blockAddr_high hhigh
    right
    unfold highBlocks blockSize at *
    omega
  · -- the last block is the lowest, and above all headers
    have haddr := (blockAddr_low hl hlow hi).1
    have hlast := blockAddr_low hl (show highBlocks bufferEnd ≤ blockCount hl - 1 by omega) (by omega)
    rw [show blockCount hl - 1 + 1 = blockCount hl by omega] at hlast
    left
    unfold blockSize at *
    omega

theorem headAddr_le_lowEnd (hl : Layout start bufferEnd) :
    headAddr start (blockCount hl) ≤ lowEnd := by
  rcases Nat.eq_or_lt_of_le (highBlocks_le hl) with heq | hlt
  · rw [← heq]
    exact hl.room
  · have hlast := blockAddr_low hl (show highBlocks bufferEnd ≤ blockCount hl - 1 by omega) (by omega)
    rw [show blockCount hl - 1 + 1 = blockCount hl by omega] at hlast
    omega

/-- Two blocks do not overlap. -/
theorem blockAddr_disjoint (hl : Layout start bufferEnd) {i j : Nat} (hij : i < j)
    (hj : j < blockCount hl) : blockAddr bufferEnd j + blockSize ≤ blockAddr bufferEnd i := by
  rcases Nat.lt_or_ge j (highBlocks bufferEnd) with hhigh | hlow
  · have hi := blockAddr_high (show i < highBlocks bufferEnd by omega)
    have hj := blockAddr_high hhigh
    unfold blockSize at *
    omega
  · have haddr := (blockAddr_low hl hlow hj).1
    rcases Nat.lt_or_ge i (highBlocks bufferEnd) with hhigh | hlow'
    · have hi := blockAddr_high hhigh
      unfold highBlocks highStart lowEnd blockSize at *
      omega
    · have hi := (blockAddr_low hl hlow' (by omega)).1
      unfold blockSize at *
      omega

/-- A block of 1 KB anywhere in the memory that is given away meets a block that was carved, or
the headers and one header more. -/
theorem no_further_block (hl : Layout start bufferEnd) {x : Nat}
    (hx : start ≤ x ∧ x + blockSize ≤ lowEnd ∨ highStart ≤ x ∧ x + blockSize ≤ bufferEnd) :
    x < headAddr start (blockCount hl + 1) ∨
    ∃ i < blockCount hl,
      x < blockAddr bufferEnd i + blockSize ∧ blockAddr bufferEnd i < x + blockSize := by
  have hhigh := highBlocks_le hl
  rcases hx with ⟨-, hend⟩ | ⟨hfrom, hend⟩
  · rcases Nat.lt_or_ge x (headAddr start (blockCount hl + 1)) with hlt | hge
    · exact .inl hlt
    · right
      have hstop := not_fits hl
      have hbottom : bottom bufferEnd (blockCount hl) =
          lowEnd - blockSize * (blockCount hl - highBlocks bufferEnd) := if_neg (by omega)
      unfold Fits at hstop
      rw [hbottom] at hstop
      -- the block that `x` lies in, or the lowest one
      have hcovers : ∃ i, highBlocks bufferEnd ≤ i ∧ i < blockCount hl ∧
          x + blockSize * (i - highBlocks bufferEnd) < lowEnd ∧
          lowEnd < x + blockSize * (i - highBlocks bufferEnd) + 2 * blockSize := by
        refine ⟨min (blockCount hl - 1) (highBlocks bufferEnd + (lowEnd - 1 - x) / blockSize), ?_⟩
        unfold blockSize at *
        omega
      obtain ⟨i, hlow, hi, hbelow, habove⟩ := hcovers
      have haddr := (blockAddr_low hl hlow hi).1
      refine ⟨i, hi, ?_, ?_⟩
      all_goals
        unfold blockSize at *
        omega
  · right
    have hmul := hl.multiple
    have hi : (bufferEnd - 1 - x) / blockSize < highBlocks bufferEnd := by
      unfold highBlocks highStart blockSize at *
      omega
    have haddr := blockAddr_high hi
    refine ⟨(bufferEnd - 1 - x) / blockSize, by omega, ?_, ?_⟩
    all_goals
      unfold blockSize at *
      omega

/-! ## The cache -/

/-- `b_data` of the `i`-th head. -/
def Cache.data (s : Cache) (i : Nat) : Nat := (s.head (headAddr s.startBuffer i)).bData

/-- A cache that was carved from `[start, 640K)` and `[1 MB, bufferEnd)`. -/
structure Carved (start bufferEnd : Nat) (s : Cache) : Prop where
  startBuffer : s.startBuffer = start
  pos : 1 ≤ s.nrBuffers
  disjoint : ∀ i < s.nrBuffers, ∀ j < s.nrBuffers, i ≠ j →
    s.data i + blockSize ≤ s.data j ∨ s.data j + blockSize ≤ s.data i
  headers : ∀ i < s.nrBuffers, start + sizeofBufferHead * s.nrBuffers ≤ s.data i
  inside : ∀ i < s.nrBuffers, (start ≤ s.data i ∧ s.data i + blockSize ≤ 640 * 1024) ∨
    (2 ^ 20 ≤ s.data i ∧ s.data i + blockSize ≤ bufferEnd)
  /-- Any further block would overlap one of the blocks, or the headers with its own. -/
  full : ∀ x, (start ≤ x ∧ x + blockSize ≤ 640 * 1024 ∨ 2 ^ 20 ≤ x ∧ x + blockSize ≤ bufferEnd) →
    x < start + sizeofBufferHead * (s.nrBuffers + 1) ∨
    ∃ i < s.nrBuffers, x < s.data i + blockSize ∧ s.data i < x + blockSize
  idle : ∀ i < s.nrBuffers, (s.head (headAddr start i)).bDirt = 0 ∧
    (s.head (headAddr start i)).bLock = 0 ∧ (s.head (headAddr start i)).bCount = 0 ∧
    (s.head (headAddr start i)).bNext = none ∧ (s.head (headAddr start i)).bPrev = none
  hashTable : ∀ i, s.hashTable i = none
  freeList : s.freeList = some (headAddr start 0)
  ring : ∀ i < s.nrBuffers,
    s.nextFree (headAddr start i) = some (headAddr start ((i + 1) % s.nrBuffers)) ∧
    s.prevFree (headAddr start ((i + 1) % s.nrBuffers)) = some (headAddr start i)

theorem closeRing_head (s : Cache) (first last a : Nat) : (closeRing s first last).head a =
    { s.head a with
      bPrevFree := if a = first then some last else s.prevFree a
      bNextFree := if a = last then some first else s.nextFree a } :=
  setFree_head s last first a (some last) (some first)

/-- The links of the ring, one head after the other. -/
theorem closeRing_links {nr : Nat} {s : Cache}
    (hinit : ∀ i < nr, InitHead (s.head (headAddr start i)) (headAddr start i)) {i : Nat} (hi : i < nr) :
    (closeRing s (headAddr start 0) (headAddr start (nr - 1))).nextFree (headAddr start i) =
      some (headAddr start ((i + 1) % nr)) ∧
    (closeRing s (headAddr start 0) (headAddr start (nr - 1))).prevFree
      (headAddr start ((i + 1) % nr)) = some (headAddr start i) := by
  rw [Cache.nextFree, Cache.prevFree, closeRing_head, closeRing_head]
  rcases Nat.lt_or_ge (i + 1) nr with hmore | hlast
  · have hne : headAddr start i ≠ headAddr start (nr - 1) := by
      intro heq
      have hidx := headAddr_inj heq
      omega
    have hne' : headAddr start (i + 1) ≠ headAddr start 0 := by
      intro heq
      have hidx := headAddr_inj heq
      omega
    have hnext : s.nextFree (headAddr start i) = some (headAddr start (i + 1)) := by
      rw [Cache.nextFree, (hinit i hi).nextFree, headAddr_succ]
    have hprev : s.prevFree (headAddr start (i + 1)) = some (headAddr start i) := by
      rw [Cache.prevFree, (hinit (i + 1) hmore).prevFree, ← headAddr_succ, Nat.add_sub_cancel]
    rw [Nat.mod_eq_of_lt hmore, if_neg hne, if_neg hne', hnext, hprev]
    exact ⟨rfl, rfl⟩
  · have hend : i = nr - 1 := by omega
    rw [show i + 1 = nr by omega, Nat.mod_self, hend, if_pos rfl, if_pos rfl]
    exact ⟨rfl, rfl⟩

/-- What follows from where the blocks are and what the loop wrote to the heads. -/
theorem closeRing_carved (hl : Layout start bufferEnd) {heads : Nat → BufferHead}
    (hinit : ∀ i < blockCount hl, InitHead (heads (headAddr start i)) (headAddr start i))
    (hblocks : ∀ i < blockCount hl,
      (heads (headAddr start i)).bData = blockAddr bufferEnd i) :
    Carved start bufferEnd (closeRing ⟨heads, some start, fun _ => none, start, blockCount hl⟩
      (headAddr start 0) (headAddr start (blockCount hl - 1))) := by
  set s := closeRing ⟨heads, some start, fun _ => none, start, blockCount hl⟩
    (headAddr start 0) (headAddr start (blockCount hl - 1)) with hs
  have hdata : ∀ i < blockCount hl, s.data i = blockAddr bufferEnd i := by
    intro i hi
    rw [← hblocks i hi, Cache.data, hs, closeRing_head]
    rfl
  have hpos : 1 ≤ blockCount hl := by
    have hhigh := highBlocks_le hl
    have hmul := hl.multiple
    have habove := hl.above
    unfold highBlocks highStart blockSize at *
    omega
  refine ⟨rfl, hpos, ?_, ?_, ?_, ?_, ?_, fun _ => rfl, rfl, ?_⟩
  · intro i hi j hj hne
    rw [hdata i hi, hdata j hj]
    rcases Nat.lt_or_gt_of_ne hne with hlt | hgt
    · exact .inr (blockAddr_disjoint hl hlt hj)
    · exact .inl (blockAddr_disjoint hl hgt hi)
  · intro i hi
    have hend := headAddr_le_lowEnd hl
    rw [hdata i hi]
    show headAddr start (blockCount hl) ≤ _
    rcases blockAddr_inside hl hi with ⟨hlow, -⟩ | ⟨hhigh, -⟩
    · exact hlow
    · unfold highStart lowEnd at *
      omega
  · intro i hi
    rw [hdata i hi]
    rcases blockAddr_inside hl hi with ⟨hlow, hend⟩ | hhigh
    · left
      refine ⟨?_, hend⟩
      unfold headAddr at hlow
      omega
    · exact .inr hhigh
  · intro x hx
    rcases no_further_block hl hx with hhead | ⟨i, hi, hafter, hbefore⟩
    · exact .inl hhead
    · right
      refine ⟨i, hi, ?_⟩
      rw [hdata i hi]
      exact ⟨hafter, hbefore⟩
  · intro i hi
    have hhead := hinit i hi
    rw [hs, closeRing_head]
    exact ⟨hhead.dirt, hhead.lock, hhead.count, hhead.next, hhead.prev⟩
  · intro i hi
    exact closeRing_links hinit hi

/-- `buffer_init` returns, with at least one block, and what it makes of the memory is carved:
blocks and headers are apart, the hole and what is above `buffer_end` are left alone, no block
more would fit, and the heads are idle and in one ring in the order of their addresses. -/
theorem buffer_init_carves (hmultiple : bufferEnd % 1024 = 0) (habove : 2 ^ 20 < bufferEnd)
    (hroom : start + 36 * ((bufferEnd - 2 ^ 20) / 1024) ≤ 640 * 1024) (heads : Nat → BufferHead) :
    ∃ s, (∀ fuel > s.nrBuffers, bufferInit fuel start bufferEnd heads = some s) ∧
      Carved start bufferEnd s := by
  have hl : Layout start bufferEnd := ⟨hmultiple, habove, hroom⟩
  have hbottom : bottom bufferEnd 0 = bufferEnd := by
    unfold bottom
    rw [if_pos, Nat.mul_zero, Nat.sub_zero]
    unfold highBlocks highStart blockSize at *
    omega
  have hb : (if bufferEnd = 2 ^ 20 then 640 * 1024 else bufferEnd) = bottom bufferEnd 0 := by
    rw [hbottom, if_neg (by omega)]
  obtain ⟨heads', hloop, hdata, -⟩ := bufferInitLoop_eq hl heads (Nat.zero_add (blockCount hl))
  obtain ⟨-, hinit⟩ := bufferInitLoop_spec start 0 (hloop _ (Nat.lt_succ_self _)) (by simp)
  have hcarved := closeRing_carved hl hinit fun i hi => hdata i (Nat.zero_le i) hi
  have hlast : headAddr start (blockCount hl) - sizeofBufferHead =
      headAddr start (blockCount hl - 1) := by
    have hpos : 1 ≤ blockCount hl := hcarved.pos
    obtain ⟨n, hn⟩ := Nat.exists_eq_add_one.mpr hpos
    rw [hn, ← headAddr_succ, Nat.add_sub_cancel, Nat.add_sub_cancel]
  refine ⟨_, ?_, hcarved⟩
  intro fuel hfuel
  have hrun : bufferInitLoop fuel start (bottom bufferEnd 0) 0 heads = _ := hloop fuel hfuel
  simp only [bufferInit, hb, hrun, bind, Option.bind_some, hlast]
  rfl

/-- The kernel's own call: 4 MB, with `end` below 192 KB. -/
theorem buffer_init_carves_four_mb : ∃ s, (∀ fuel > s.nrBuffers,
      bufferInit fuel 0x30000 (4 * 1024 * 1024) (fun _ => zeroHead) = some s) ∧
    Carved 0x30000 (4 * 1024 * 1024) s :=
  buffer_init_carves (by decide) (by decide) (by decide) fun _ => zeroHead

end MockOs.Fs
