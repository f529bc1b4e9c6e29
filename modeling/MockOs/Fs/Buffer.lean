import Mathlib.Logic.Function.Basic
import Mathlib.Data.List.Basic
import Mathlib.Algebra.Group.Nat.Defs

/-!
# The buffer cache (`fs/buffer.c`)

Buffer heads live in an array that starts at `start_buffer`; a pointer to one is its
address and NULL is `none`. The functions below follow the source statement by
statement. A statement that would dereference NULL, a `panic` and a loop that does not
end are the three faults a function can end in; loops over the hash chains and the free
ring carry `NR_BUFFERS` as their bound, which the proofs show to be enough.

`b_wait` and `buffer_wait` are left to the model of `sleep_on`: the functions here only
pass their addresses on, and a task asleep on them is a task at one of the sleeping
points of `Pc`.
-/

namespace MockOs.Fs

/-- `NR_HASH` (`include/linux/fs.h:65`). -/
def nrHash : Nat := 307

/-- `sizeof(struct buffer_head)` on i386. -/
def sizeofBufferHead : Nat := 36

/-- `BLOCK_SIZE` (`include/linux/fs.h:67`). -/
def blockSize : Nat := 1024

/-- `struct buffer_head` (`include/linux/fs.h:96-118`), without `b_wait`. -/
structure BufferHead where
  bData : Nat
  bBlocknr : BitVec 32
  bDev : BitVec 16
  bUptodate : BitVec 8
  bDirt : BitVec 8
  bCount : BitVec 8
  bLock : BitVec 8
  bPrev : Option Nat
  bNext : Option Nat
  bPrevFree : Option Nat
  bNextFree : Option Nat
  deriving DecidableEq, Repr

/-- The variables of `buffer.c`: the heads by address, `free_list`, `hash_table`,
`start_buffer` and `NR_BUFFERS`. -/
structure Cache where
  head : Nat → BufferHead
  freeList : Option Nat
  hashTable : Fin nrHash → Option Nat
  startBuffer : Nat
  nrBuffers : Nat

/-- How a function fails to return. -/
inductive Fault where
  | panic (msg : String)
  | nullDeref
  | loops
  deriving DecidableEq, Repr

namespace Cache

/-- The addresses of the buffer heads. -/
def headers (s : Cache) : List Nat :=
  (List.range s.nrBuffers).map fun i => s.startBuffer + sizeofBufferHead * i

/-- Writes to the fields of the head at `a`. -/
def modify (s : Cache) (a : Nat) (f : BufferHead → BufferHead) : Cache :=
  { s with head := Function.update s.head a (f (s.head a)) }

def setPrev (s : Cache) (a : Nat) (p : Option Nat) : Cache := s.modify a ({ · with bPrev := p })
def setNext (s : Cache) (a : Nat) (p : Option Nat) : Cache := s.modify a ({ · with bNext := p })
def setPrevFree (s : Cache) (a : Nat) (p : Option Nat) : Cache :=
  s.modify a ({ · with bPrevFree := p })
def setNextFree (s : Cache) (a : Nat) (p : Option Nat) : Cache :=
  s.modify a ({ · with bNextFree := p })
def setCount (s : Cache) (a : Nat) (n : BitVec 8) : Cache := s.modify a ({ · with bCount := n })
def setHash (s : Cache) (i : Fin nrHash) (p : Option Nat) : Cache :=
  { s with hashTable := Function.update s.hashTable i p }

/-- `if (q) q->b_prev = p;` -/
def setPrevOf (s : Cache) : Option Nat → Option Nat → Cache
  | some a, p => s.setPrev a p
  | none, _ => s

/-- `if (q) q->b_next = p;` -/
def setNextOf (s : Cache) : Option Nat → Option Nat → Cache
  | some a, p => s.setNext a p
  | none, _ => s

end Cache

/-- `BADNESS(bh)`. -/
def badness (bh : BufferHead) : Nat := bh.bDirt.toNat * 2 + bh.bLock.toNat

/-- `_hashfn(dev, block)` on 32-bit operands. -/
def hashfn (dev block : BitVec 32) : Fin nrHash :=
  ⟨(dev ^^^ block).toNat % nrHash, Nat.mod_lt _ (by decide)⟩

/-- `_hashfn(bh->b_dev, bh->b_blocknr)`: `b_dev` is widened to 32 bits first. -/
def BufferHead.slot (bh : BufferHead) : Fin nrHash := hashfn (bh.bDev.setWidth 32) bh.bBlocknr

/-- `bh->b_dev == dev && bh->b_blocknr == block`. -/
def BufferHead.hasKey (bh : BufferHead) (dev block : BitVec 32) : Bool :=
  bh.bDev.setWidth 32 == dev && bh.bBlocknr == block

/-- Following a pointer. -/
def deref : Option Nat → Except Fault Nat
  | some a => .ok a
  | none => .error .nullDeref

/-- The hash table half of `remove_from_queues` (`buffer.c:54-62`). -/
def removeFromHash (s : Cache) (bh : Nat) : Cache :=
  let s := s.setPrevOf (s.head bh).bNext (s.head bh).bPrev
  let s := s.setNextOf (s.head bh).bPrev (s.head bh).bNext
  if s.hashTable (s.head bh).slot = some bh then
    s.setHash (s.head bh).slot (s.head bh).bNext
  else s

/-- The free list half of `remove_from_queues` (`buffer.c:65-75`). The test before the panic
looks at `b_prev_free` twice, as the source does. -/
def removeFromFree (s : Cache) (bh : Nat) : Except Fault Cache :=
  if (s.head bh).bPrevFree = none ∨ (s.head bh).bPrevFree = none then
    .error (.panic "Free block list corrupted")
  else do
    let nf ← deref (s.head bh).bNextFree
    let s := s.setPrevFree nf (s.head bh).bPrevFree
    let pf ← deref (s.head bh).bPrevFree
    let s := s.setNextFree pf (s.head bh).bNextFree
    if s.freeList = some bh then
      pure { s with freeList := (s.head bh).bNextFree }
    else
      pure s

/-- `remove_from_queues` (`buffer.c:52-76`). -/
def removeFromQueues (s : Cache) (bh : Nat) : Except Fault Cache :=
  removeFromFree (removeFromHash s bh) bh

/-- The free list half of `insert_into_queues` (`buffer.c:80-87`), with the reset of the
hash links. -/
def insertIntoFree (s : Cache) (bh : Nat) : Except Fault Cache := do
  let fl ← deref s.freeList
  let last := (s.head fl).bPrevFree
  let s := s.setPrevFree bh last
  let s := s.setNextFree bh s.freeList
  let l ← deref last
  let s := s.setNextFree l (some bh)
  let s := s.setPrevFree fl (some bh)
  let s := s.setPrev bh none
  pure (s.setNext bh none)

/-- The hash table half of `insert_into_queues` (`buffer.c:90-100`). -/
def insertIntoHash (s : Cache) (bh : Nat) : Cache :=
  if (s.head bh).bDev = 0 then
    s
  else
    let first := s.hashTable (s.head bh).slot
    let s := s.setHash (s.head bh).slot (some bh)
    let s := s.setNext bh first
    s.setPrevOf first (some bh)

/-- `insert_into_queues` (`buffer.c:78-101`). -/
def insertIntoQueues (s : Cache) (bh : Nat) : Except Fault Cache := do
  let s ← insertIntoFree s bh
  pure (insertIntoHash s bh)

/-- The loop of `find_buffer`: `tmp` runs along the chain. -/
def findBufferFrom (s : Cache) (dev block : BitVec 32) :
    Nat → Option Nat → Except Fault (Option Nat)
  | _, none => .ok none
  | 0, some _ => .error .loops
  | fuel + 1, some tmp =>
    if (s.head tmp).hasKey dev block then .ok (some tmp)
    else findBufferFrom s dev block fuel (s.head tmp).bNext

/-- `find_buffer(dev, block)` (`buffer.c:104-112`). -/
def findBuffer (s : Cache) (dev block : BitVec 32) : Except Fault (Option Nat) :=
  findBufferFrom s dev block s.nrBuffers (s.hashTable (hashfn dev block))

/-- Whether the body of the victim scan takes `tmp`, given the best head so far. -/
def better (s : Cache) (tmp : Nat) : Option Nat → Bool
  | none => true
  | some bh => badness (s.head tmp) < badness (s.head bh)

/-- The `do ... while` scan of `getblk` for a victim (`buffer.c:148-162`). `continue` goes
to the loop test, `break` ends the scan. -/
def scanFree (s : Cache) : Nat → Nat → Option Nat → Except Fault (Option Nat)
  | 0, _, _ => .error .loops
  | fuel + 1, tmp, bh =>
    let take := (s.head tmp).bCount = 0 ∧ better s tmp bh
    let bh := if take then some tmp else bh
    if take ∧ badness (s.head tmp) = 0 then .ok bh
    else if (s.head tmp).bNextFree = s.freeList then .ok bh
    else do
      let tmp ← deref (s.head tmp).bNextFree
      scanFree s fuel tmp bh

/-- The two entry points a task can call. -/
inductive Fn where
  | getblk
  | getHashTable
  deriving DecidableEq, Repr

/-- A call with its `int` arguments. -/
structure Call where
  fn : Fn
  dev : BitVec 32
  block : BitVec 32
  deriving DecidableEq, Repr

/-- Where a task is in `getblk`/`get_hash_table`. At the three `sleep` points it is inside
`sleep_on`; everywhere else it is about to run the code named. -/
inductive Pc where
  /-- `repeat:`, or the top of the loop of `get_hash_table`. -/
  | lookup
  /-- The `while (bh->b_lock)` test of `wait_on_buffer` in `get_hash_table`. -/
  | testHit (bh : Nat)
  | sleepHit (bh : Nat)
  /-- The victim scan. -/
  | scan
  /-- Inside `sleep_on(&buffer_wait)`. -/
  | sleepFree
  /-- The `while (bh->b_lock)` test of `wait_on_buffer` in `getblk`. -/
  | testVictim (bh : Nat)
  | sleepVictim (bh : Nat)
  /-- The tests of `b_count`, `b_dirt` and `find_buffer`. -/
  | recheck (bh : Nat)
  /-- From `bh->b_count = 1` on. -/
  | claim (bh : Nat)
  | ret (bh : Option Nat)
  deriving DecidableEq, Repr

/-- The task is inside `sleep_on`. -/
def Pc.sleeps : Pc → Bool
  | .sleepHit _ | .sleepFree | .sleepVictim _ => true
  | _ => false

/-- The end of `getblk` (`buffer.c:182-190`): `bh` is taken for `(dev, block)`. -/
def claimBuffer (s : Cache) (bh : Nat) (dev block : BitVec 32) : Except Fault Cache := do
  let s := s.modify bh ({ · with bCount := 1, bDirt := 0, bUptodate := 0 })
  let s ← removeFromQueues s bh
  let s := s.modify bh ({ · with bDev := dev.setWidth 16, bBlocknr := block })
  insertIntoQueues s bh

/-- One piece of straight-line code of `getblk`/`get_hash_table`. A task at a sleeping point
runs it when `schedule()` returns to it. -/
def step (c : Call) (s : Cache) : Pc → Except Fault (Cache × Pc)
  | .lookup => do
    match ← findBuffer s c.dev c.block with
    | some bh => pure (s.setCount bh ((s.head bh).bCount + 1), .testHit bh)
    | none =>
      match c.fn with
      | .getblk => pure (s, .scan)
      | .getHashTable => pure (s, .ret none)
  | .testHit bh =>
    if (s.head bh).bLock ≠ 0 then pure (s, .sleepHit bh)
    else if (s.head bh).hasKey c.dev c.block then pure (s, .ret (some bh))
    else pure (s.setCount bh ((s.head bh).bCount - 1), .lookup)
  | .sleepHit bh => pure (s, .testHit bh)
  | .scan => do
    let tmp ← deref s.freeList
    match ← scanFree s s.nrBuffers tmp none with
    | some bh => pure (s, .testVictim bh)
    | none => pure (s, .sleepFree)
  | .sleepFree => pure (s, .lookup)
  | .testVictim bh =>
    if (s.head bh).bLock ≠ 0 then pure (s, .sleepVictim bh) else pure (s, .recheck bh)
  | .sleepVictim bh => pure (s, .testVictim bh)
  | .recheck bh => do
    if (s.head bh).bCount ≠ 0 then pure (s, .lookup)
    else if (s.head bh).bDirt ≠ 0 then pure (s, .lookup)
    else
      match ← findBuffer s c.dev c.block with
      | some _ => pure (s, .lookup)
      | none => pure (s, .claim bh)
  | .claim bh => do
    let s ← claimBuffer s bh c.dev c.block
    pure (s, .ret (some bh))
  | .ret r => pure (s, .ret r)

/-- The call has come to its end or to a `sleep_on`. -/
def Pc.stops : Pc → Bool
  | .ret _ => true
  | p => p.sleeps

/-- A call that is not interrupted, from `p` to its return or to its next `sleep_on`. -/
def runCall (c : Call) : Nat → Cache → Pc → Except Fault (Cache × Pc)
  | 0, _, _ => .error .loops
  | fuel + 1, s, p =>
    if p.stops then pure (s, p)
    else do
      let (s, p) ← step c s p
      runCall c fuel s p

/-- `getblk(dev, block)` (`buffer.c:135-191`). -/
def getblk (fuel : Nat) (s : Cache) (dev block : BitVec 32) : Except Fault (Cache × Pc) :=
  runCall ⟨.getblk, dev, block⟩ fuel s .lookup

/-- The `while` loop of `buffer_init` (`buffer.c:212-231`), at most `fuel` times round.
`b_blocknr` keeps whatever the memory held. -/
def bufferInitLoop : Nat → Nat → Nat → Nat → (Nat → BufferHead) →
    Option (Nat × Nat × (Nat → BufferHead))
  | 0, _, _, _, _ => none
  | fuel + 1, h, b, nr, heads =>
    -- pointer arithmetic on 32 bits
    let b := (b + 2 ^ 32 - blockSize) % 2 ^ 32
    if h + sizeofBufferHead ≤ b then
      let heads := Function.update heads h
        { heads h with
          bDev := 0, bDirt := 0, bCount := 0, bLock := 0, bUptodate := 0
          bNext := none, bPrev := none, bData := b
          bPrevFree := some (h - sizeofBufferHead), bNextFree := some (h + sizeofBufferHead) }
      bufferInitLoop fuel (h + sizeofBufferHead) (if b = 0x100000 then 0xa0000 else b) (nr + 1)
        heads
    else some (h, nr, heads)

/-- `buffer_init(buffer_end)` (`buffer.c:200-242`) with `start_buffer = start`, on a memory
that held `heads`. -/
def bufferInit (fuel start bufferEnd : Nat) (heads : Nat → BufferHead) : Option Cache := do
  let b := if bufferEnd = 2 ^ 20 then 640 * 1024 else bufferEnd
  let (h, nr, heads) ← bufferInitLoop fuel start b 0 heads
  let h := h - sizeofBufferHead
  let s : Cache := ⟨heads, some start, fun _ => none, start, nr⟩
  let s := s.setPrevFree start (some h)
  pure (s.setNextFree h (some start))

end MockOs.Fs
