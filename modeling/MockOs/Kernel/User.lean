import MockOs.Kernel.Fork

/-!
# User mode

Loads and stores of a task go through its data segment and the page tables. A store to a
page that is read-only raises a page fault; `page_fault` (`mm/page.asm`) runs `do_wp_page`
and the store is made again. `Act` is what the tasks can do here: call `fork`, fault, and
store.
-/

namespace MockOs.Kernel

open Mm

/-! ## The processor -/

/-- The page table entry of a linear address, when the directory and the table have it
present for the user. -/
def userEntry (lin : BitVec 32) (s : Memory) : Option (BitVec 32) :=
  if s.read ((lin >>> 20) &&& 0xffc) &&& 5 ≠ 5 then none
  else if s.read (lin2phy lin s) &&& 5 ≠ 5 then none
  else some (s.read (lin2phy lin s))

/-- Whether the user may write through the entry; the directory entries allow it. -/
def canWrite (lin e : BitVec 32) (s : Memory) : Bool :=
  s.read ((lin >>> 20) &&& 0xffc) &&& 2 ≠ 0 && e &&& 2 ≠ 0

/-- The physical address behind an entry. -/
def physical (lin e : BitVec 32) : BitVec 32 := (0xfffff000 &&& e) + (lin &&& 0xfff)

/-- A byte of a word. -/
def byteOf (w : BitVec 32) (j : Nat) : BitVec 8 := w.extractLsb' (8 * j) 8

def setByteOf (w : BitVec 32) (j : Nat) (v : BitVec 8) : BitVec 32 :=
  (w &&& ~~~((0xff#32) <<< (8 * j))) ||| (v.setWidth 32 <<< (8 * j))

def loadByte (a : BitVec 32) (s : Memory) : BitVec 8 := byteOf (s.read a) (a.toNat % 4)

def storeByte (a : BitVec 32) (v : BitVec 8) (s : Memory) : Memory :=
  s.write a (setByteOf (s.read a) (a.toNat % 4) v)

namespace ForkSys

/-- The data segment of a task. -/
def dataSegment (s : ForkSys) (t : Nat) : Desc := s.getDesc (ldtEntry (s.task t) 2)

/-- The linear address of an offset in the data segment; beyond the limit there is none. -/
def linear (s : ForkSys) (t : Nat) (off : BitVec 32) : Option (BitVec 32) :=
  if off < limitOf (s.dataSegment t) then some (getBase (s.dataSegment t) + off) else none

/-- A load of task `t`. -/
def userLoad (t : Nat) (off : BitVec 32) (s : ForkSys) : Option (BitVec 8) := do
  let lin ← s.linear t off
  let e ← userEntry lin s.mm
  return loadByte (physical lin e) s.mm

/-- A store of task `t`, with the fault that a read-only page raises. -/
def userStore (t : Nat) (off : BitVec 32) (v : BitVec 8) (s : ForkSys) : Option ForkSys := do
  let lin ← s.linear t off
  let e ← userEntry lin s.mm
  let mm := if canWrite lin e s.mm then s.mm else doWpPage lin s.mm
  let e ← userEntry lin mm
  if canWrite lin e mm then return { s with mm := storeByte (physical lin e) v mm } else none

/-- A write-protect fault of task `t`. -/
def userFault (t : Nat) (off : BitVec 32) (s : ForkSys) : Option ForkSys := do
  let lin ← s.linear t off
  let e ← userEntry lin s.mm
  if canWrite lin e s.mm then none else return { s with mm := doWpPage lin s.mm }

/-! ## What the tasks do -/

/-- Task `t` is in the table. -/
def Live (s : ForkSys) (t : Nat) : Prop := t < nrTasks ∧ s.task t ≠ 0

/-- A slot of the table is empty. -/
def FreeSlot (s : ForkSys) : Prop := ∃ i, 1 ≤ i ∧ i < nrTasks ∧ s.task i = 0

end ForkSys

/-- What a task can do: call `fork`, fault on a page, or store a byte. -/
inductive Act where
  | fork (t : Nat) (r : Regs)
  | fault (t : Nat) (off : BitVec 32)
  | store (t : Nat) (off : BitVec 32) (v : BitVec 8)

/-- `un_wp_page` does not need a page: the one behind the address has no other user. -/
def SolePage (lin : BitVec 32) (s : Memory) : Prop :=
  0xfffff000#32 &&& s.read (lin2phy lin s) ≥ lowMem ∧
    s.memMap (mapNr (0xfffff000#32 &&& s.read (lin2phy lin s))) = 1

namespace ForkSys

/-- What one action does; without a result, it does not return. -/
def exec : Act → ForkSys → Option ForkSys
  | .fork t r, s =>
    match sysFork r { s with current := s.task t } with
    | .ok (s', _) => some s'
    | .error _ => none
  | .fault t off, s => s.userFault t off
  | .store t off v, s => s.userStore t off v

/-- The actions of the runs looked at: by live tasks, with a stack and addresses in the first
640 KB, stores and faults not by task 0, and `get_free_page` finds a page whenever it is
called. -/
def Allowed : Act → ForkSys → Prop
  | .fork t r, s =>
    s.Live t ∧ 0 < r.esp.toNat ∧ r.esp.toNat ≤ 0xa0000 ∧ (s.FreeSlot → 3 ≤ s.mm.freePages.card)
  | .fault t off, s =>
    s.Live t ∧ 1 ≤ t ∧ off.toNat < 0xa0000 ∧
      (s.mm.freePages.Nonempty ∨ ∃ lin, s.linear t off = some lin ∧ SolePage lin s.mm)
  | .store t off _, s =>
    s.Live t ∧ 1 ≤ t ∧ off.toNat < 0xa0000 ∧
      (s.mm.freePages.Nonempty ∨ ∃ lin, s.linear t off = some lin ∧
        (SolePage lin s.mm ∨ ∃ e, userEntry lin s.mm = some e ∧ canWrite lin e s.mm))

end ForkSys

/-- One step of the system. -/
def ForkStep (act : Act) (s s' : ForkSys) : Prop := s.Allowed act ∧ s.exec act = some s'

/-- A call of `fork` that returns, by any live task with any registers. -/
def ForkCall (call : Nat × Regs) (s s' : ForkSys) : Prop :=
  s.Live call.1 ∧ s.exec (.fork call.1 call.2) = some s'

/-- The words of the first 640 KB that hold nothing of the kernel: they are not in the page
directory, the kernel's page tables or `init_task` with its stack. The other variables of the
kernel are not in the memory of the model. -/
def Boot.Modelled (b : Boot) (x : Nat) : Prop := 5120 ≤ x ∧ (x < b.init ∨ b.init + 1024 ≤ x)

instance (b : Boot) : DecidablePred b.Modelled := fun x =>
  inferInstanceAs (Decidable (5120 ≤ x ∧ (x < b.init ∨ b.init + 1024 ≤ x)))

/-- A step of the system in which task 0 stores too. Its pages are the first 640 KB themselves
and may be written; the words of the kernel there it leaves alone. -/
inductive StoreStep (b : Boot) : Act → ForkSys → ForkSys → Prop
  | task {act : Act} {s s' : ForkSys} : ForkStep act s s' → StoreStep b act s s'
  | init {off : BitVec 32} {v : BitVec 8} {s s' : ForkSys} : off.toNat < 0xa0000 → b.Modelled (off.toNat / 4) →
      s.exec (.store 0 off v) = some s' → StoreStep b (.store 0 off v) s s'

/-- Before each store of task 0 to the offset, task `c` stored to the same page. -/
def AfterChild (c : Nat) (off : BitVec 32) (acts : List Act) : Prop :=
  ∀ pre v post, acts = pre ++ .store 0 off v :: post →
    ∃ off' v', Act.store c off' v' ∈ pre ∧ off'.toNat / 4096 = off.toNat / 4096

/-! ## Tasks with memory of their own -/

/-- What the tasks are for a user: each slot of `task[]` that is taken has its own 640 KB. -/
structure Procs where
  mem : Nat → Option (Nat → BitVec 8)

namespace Procs

/-- `fork` copies the memory of the task to the first empty slot. -/
def fork (t : Nat) (ps : Procs) : Procs :=
  match (List.range' 1 (nrTasks - 1)).find? fun i => (ps.mem i).isNone with
  | some i => ⟨Function.update ps.mem i (ps.mem t)⟩
  | none => ps

/-- A store changes one byte of one task. -/
def store (t off : Nat) (v : BitVec 8) (ps : Procs) : Procs :=
  ⟨Function.update ps.mem t ((ps.mem t).map fun m => Function.update m off v)⟩

def load (t off : Nat) (ps : Procs) : Option (BitVec 8) := (ps.mem t).map fun m => m off

/-- A fault changes nothing that a task can see. -/
def exec : Act → Procs → Procs
  | .fork t _, ps => ps.fork t
  | .fault _ _, ps => ps
  | .store t off v, ps => ps.store t off.toNat v

/-- Actions one after the other. -/
def run (acts : List Act) (ps : Procs) : Procs := acts.foldl (fun ps act => ps.exec act) ps

end Procs

/-- Task 0 starts with what is in memory. -/
def Boot.procs (b : Boot) : Procs where
  mem t := if t = 0 then some fun off => byteOf (b.start.mm.word (off / 4)) (off % 4) else none

end MockOs.Kernel
