import MockOs.Fs.Buffer

/-!
# Tasks in `getblk`

Any number of tasks call `getblk` and `get_hash_table`. Two schedulers are of interest:
the one the functions are written for, where a task gives up the processor only inside
`sleep_on`, and the one the timer interrupt really gives.
-/

namespace MockOs.Fs

variable {T : Type}

/-- The cache, where each task is, and the task that has the processor. A task that is in
none of the two functions has no `Pc`. -/
structure BufSys (T : Type) where
  cache : Cache
  pc : T → Option (Call × Pc)
  running : T

/-- The state after `buffer_init`. -/
def BufSys.start (cache : Cache) (t : T) : BufSys T := ⟨cache, fun _ => none, t⟩

/-- The task is inside `sleep_on`, or in none of the two functions. -/
def BufSys.Parked (s : BufSys T) (t : T) : Prop :=
  ∀ c p, s.pc t = some (c, p) → p.sleeps = true

/-- A step with control passing between tasks only inside `sleep_on`. The calls are those
with `0 <= dev <= 0xffff`; the interrupt handler of the driver sets and clears `b_lock`
at any time. -/
inductive BufStep [DecidableEq T] : BufSys T → BufSys T → Prop
  | call {s : BufSys T} (c : Call) (hdev : c.dev.toNat ≤ 0xffff)
      (hout : s.pc s.running = none) :
      BufStep s { s with pc := Function.update s.pc s.running (some (c, .lookup)) }
  | exec {s : BufSys T} {c : Call} {p p' : Pc} {cache' : Cache}
      (hpc : s.pc s.running = some (c, p)) (h : step c s.cache p = .ok (cache', p')) :
      BufStep s { s with
        cache := cache'
        pc := Function.update s.pc s.running (some (c, p')) }
  | leave {s : BufSys T} {c : Call} {r : Option Nat}
      (hpc : s.pc s.running = some (c, .ret r)) :
      BufStep s { s with pc := Function.update s.pc s.running none }
  | switch {s : BufSys T} (t : T) (hpark : s.Parked s.running) : BufStep s { s with running := t }
  | driver {s : BufSys T} (b : Nat) (lock : BitVec 8) (hb : b ∈ s.cache.headers) :
      BufStep s { s with cache := s.cache.modify b ({ · with bLock := lock }) }

/-- The `(dev, block)` of a call. -/
abbrev Key := BitVec 32 × BitVec 32

/-- One call of `getblk` that runs to its end before the next one starts. The second part
lists the heads handed out so far, each with the key it was handed out for; a call that
goes to sleep hands out nothing. -/
def callOne (fuel : Nat) (st : Cache × List (Key × Nat)) (k : Key) :
    Except Fault (Cache × List (Key × Nat)) := do
  match ← getblk fuel st.1 k.1 k.2 with
  | (s, .ret (some b)) => pure (s, st.2 ++ [(k, b)])
  | (s, _) => pure (s, st.2)

/-- Calls of `getblk` one after the other. -/
def callRun (fuel : Nat) (s : Cache) (ks : List Key) : Except Fault (Cache × List (Key × Nat)) :=
  ks.foldlM (callOne fuel) (s, [])

/-! ## References

A reference to a head is what `b_count` is meant to count: a call of `get_hash_table` that has
found the head, or a call of `getblk` that has taken it. Nothing gives a reference back but
the decrement in the loop of `get_hash_table`. -/

/-- The tasks with two records that the code does not keep: the head of each reference, and
for each task how often its last call of `get_hash_table` has entered the body of its loop. -/
structure RefSys (T : Type) extends BufSys T where
  refs : List Nat
  turns : T → Nat

/-- The state after `buffer_init`. -/
def RefSys.start (cache : Cache) (t : T) : RefSys T := ⟨BufSys.start cache t, [], fun _ => 0⟩

/-- The references after a task has gone from `p` to `p'`. -/
def refsAfter (refs : List Nat) : Pc → Pc → List Nat
  -- `bh->b_count++` and `bh->b_count--` in `get_hash_table`
  | .lookup, .testHit b => b :: refs
  | .testHit b, .lookup => refs.erase b
  -- `bh->b_count = 1` in `getblk`
  | .claim b, .ret _ => b :: refs
  | _, _ => refs

/-- The turns of the loop of `get_hash_table` after a task has gone from `p` to `p'`. -/
def turnsAfter (n : Nat) : Pc → Pc → Nat
  | .lookup, _ => n + 1
  -- the end of the body
  | .testHit _, _ => n
  -- `goto repeat` calls `get_hash_table` again
  | _, .lookup => 0
  | _, _ => n

/-- A step with control passing between tasks only inside `sleep_on`, for calls with any
`int` arguments. A buffer is locked by a task that asks for a transfer, hence while none is
in the midst of `getblk`, and unlocked by the interrupt handler at any time. -/
inductive RefStep [DecidableEq T] : RefSys T → RefSys T → Prop
  | call {u : RefSys T} (c : Call) (hout : u.pc u.running = none) :
      RefStep u { u with
        pc := Function.update u.pc u.running (some (c, .lookup))
        turns := Function.update u.turns u.running 0 }
  | exec {u : RefSys T} {c : Call} {p p' : Pc} {cache' : Cache}
      (hpc : u.pc u.running = some (c, p)) (h : step c u.cache p = .ok (cache', p')) :
      RefStep u { u with
        cache := cache'
        pc := Function.update u.pc u.running (some (c, p'))
        refs := refsAfter u.refs p p'
        turns := Function.update u.turns u.running (turnsAfter (u.turns u.running) p p') }
  | leave {u : RefSys T} {c : Call} {r : Option Nat}
      (hpc : u.pc u.running = some (c, .ret r)) :
      RefStep u { u with pc := Function.update u.pc u.running none }
  | switch {u : RefSys T} (t : T) (hpark : u.Parked u.running) :
      RefStep u { u with running := t }
  | lock {u : RefSys T} (b : Nat) (lock : BitVec 8) (hb : b ∈ u.cache.headers)
      (hpark : u.Parked u.running) :
      RefStep u { u with cache := u.cache.modify b ({ · with bLock := lock }) }
  | unlock {u : RefSys T} (b : Nat) (hb : b ∈ u.cache.headers) :
      RefStep u { u with cache := u.cache.modify b ({ · with bLock := 0 }) }

/-- Fewer than 256 references to each head. -/
def RefSys.Few (u : RefSys T) : Prop := ∀ b ∈ u.cache.headers, u.refs.count b < 256

/-! ## Under the timer

`wait_on_buffer` ends with `sti()`, and `do_timer` calls `schedule()` wherever the interrupt
came from. A call of `getblk` then consists of the lookup, the victim scan, the re-check and
the claim, with a switch to any task possible between any two of them. -/

/-- One of the four parts of `getblk`. `wait_on_buffer` belongs to the part it ends. -/
def slice (c : Call) (s : Cache) (p : Pc) : Except Fault (Cache × Pc) := do
  match ← step c s p with
  | (s, .testHit b) => step c s (.testHit b)
  | (s, .testVictim b) => step c s (.testVictim b)
  | r => pure r

/-- The cache, where each task is, and the heads that calls have returned, each with the
key of the call. -/
structure PreSys (T : Type) where
  cache : Cache
  pc : T → Option (Call × Pc)
  log : List (Key × Nat)

/-- The state after `buffer_init`. -/
def PreSys.start (cache : Cache) : PreSys T := ⟨cache, fun _ => none, []⟩

/-- A head that a part of `getblk` returns. -/
def returns (c : Call) : Pc → List (Key × Nat)
  | .ret (some b) => [((c.dev, c.block), b)]
  | _ => []

/-- A step of task `t`; any task can be the next one. -/
inductive PreStep [DecidableEq T] (t : T) : PreSys T → PreSys T → Prop
  | call {u : PreSys T} (dev block : BitVec 32) (h0 : dev ≠ 0) (hdev : dev.toNat ≤ 0xffff)
      (hout : u.pc t = none) :
      PreStep t u { u with pc := Function.update u.pc t (some (⟨.getblk, dev, block⟩, .lookup)) }
  | exec {u : PreSys T} {c : Call} {p p' : Pc} {cache' : Cache} (hpc : u.pc t = some (c, p))
      (hp : ∀ r, p ≠ .ret r) (h : slice c u.cache p = .ok (cache', p')) :
      PreStep t u {
        cache := cache'
        pc := Function.update u.pc t (some (c, p'))
        log := u.log ++ returns c p' }
  | leave {u : PreSys T} {c : Call} {r : Option Nat} (hpc : u.pc t = some (c, .ret r)) :
      PreStep t u { u with pc := Function.update u.pc t none }

/-- How many calls have returned the head `b` for the key it holds. -/
def PreSys.returned (u : PreSys T) (b : Nat) : Nat :=
  u.log.countP fun e => e.2 == b && (u.cache.head b).hasKey e.1.1 e.1.2

/-! ## Assignments

A head is assigned when `getblk` takes it for a new key. -/

/-- The head that running the code at a point assigns. -/
def Pc.assigns : Pc → Option Nat
  | .claim bh => some bh
  | _ => none

/-- A step, with the head that it assigns if it assigns one. Any task can be the next one,
and the rest of the kernel writes `b_count` and the flags at any time. -/
inductive AssignStep [DecidableEq T] : Option Nat → BufSys T → BufSys T → Prop
  | call {u : BufSys T} (t : T) (c : Call) (hout : u.pc t = none) :
      AssignStep none u { u with pc := Function.update u.pc t (some (c, .lookup)) }
  | exec {u : BufSys T} {t : T} {c : Call} {p p' : Pc} {cache' : Cache}
      (hpc : u.pc t = some (c, p)) (h : step c u.cache p = .ok (cache', p')) :
      AssignStep p.assigns u { u with
        cache := cache'
        pc := Function.update u.pc t (some (c, p')) }
  | leave {u : BufSys T} {t : T} {c : Call} {r : Option Nat} (hpc : u.pc t = some (c, .ret r)) :
      AssignStep none u { u with pc := Function.update u.pc t none }
  | flags {u : BufSys T} (b : Nat) (count dirt lock uptodate : BitVec 8) :
      AssignStep none u { u with
        cache := u.cache.modify b ({ · with
          bCount := count, bDirt := dirt, bLock := lock, bUptodate := uptodate }) }

end MockOs.Fs
