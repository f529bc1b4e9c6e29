import Mathlib.Logic.Function.Basic
import Mathlib.Logic.Function.Iterate
import Mathlib.Algebra.Group.Nat.Defs

/-!
# A small part of the 32-bit x86

Enough of the instruction set for straight-line kernel code with calls, a serial port and one
string instruction. A program is a list of instructions and `eip` an index of it. Addresses
formed with EBP or ESP are in the stack segment, all others in the data segment. A cell of the
data segment is a word or a byte, never both: programs that read a location at two widths are
out of scope. Flags that no instruction here reads are left out.
-/

namespace MockOs.X86

/-- The registers; of the segment registers only the selectors are kept. -/
inductive Reg where
  | eax | ebx | ecx | edx | esi | edi | ebp | esp | ds | es | ss
  deriving DecidableEq, Repr

/-- An operand of 32 bits: a register, a constant, `[a]` in the data segment, or `[r + d]` in
the stack segment. -/
inductive Opnd where
  | reg (r : Reg)
  | imm (v : BitVec 32)
  | mem (a : BitVec 32)
  | stk (r : Reg) (d : BitVec 32)
  deriving DecidableEq, Repr

/-- The conditions of `jz`, `jnz` and `jg`. -/
inductive Cond where
  | z | nz | g
  deriving DecidableEq, Repr

/-- The instructions. Targets of jumps and calls are indices of the program. -/
inductive Instr where
  | mov (d s : Opnd)
  /-- `mov` of the low 16 bits of a register. -/
  | mov16 (d : Reg) (s : Opnd)
  /-- `mov al, [r]`. -/
  | movAl (r : Reg)
  | add (d s : Opnd)
  | sub (d s : Opnd)
  | inc (d : Reg)
  | cmp (d s : Opnd)
  /-- `cmp ax, v`. -/
  | cmpAx (v : BitVec 16)
  | test (d s : Opnd)
  /-- `test al, v`. -/
  | testAl (v : BitVec 8)
  | cmpxchg (d : Opnd) (r : Reg)
  | push (s : Opnd)
  | pop (d : Reg)
  | pushf
  | call (n : Nat)
  | ret
  | jmp (n : Nat)
  | jcc (c : Cond) (n : Nat)
  | loop (n : Nat)
  /-- `in al, dx` and `out dx, al`. -/
  | inAl
  | outAl
  | cld
  /-- `rep movsb` with the direction flag clear, from the stack segment to the data segment. -/
  | repMovsb
  deriving DecidableEq, Repr

/-- The machine. `sbyte` are the bytes of the stack segment; `polls` counts the reads of the
port and `sent` lists what was written to it. -/
structure State where
  eax : BitVec 32
  ebx : BitVec 32
  ecx : BitVec 32
  edx : BitVec 32
  esi : BitVec 32
  edi : BitVec 32
  ebp : BitVec 32
  esp : BitVec 32
  ds : BitVec 32
  es : BitVec 32
  ss : BitVec 32
  zf : Bool
  sf : Bool
  of : Bool
  intr : Bool
  word : BitVec 32 → BitVec 32
  byte : BitVec 32 → BitVec 8
  stack : BitVec 32 → BitVec 32
  sbyte : BitVec 32 → BitVec 8
  polls : Nat
  sent : List (BitVec 8)
  eip : Nat

namespace State

def get (s : State) : Reg → BitVec 32
  | .eax => s.eax
  | .ebx => s.ebx
  | .ecx => s.ecx
  | .edx => s.edx
  | .esi => s.esi
  | .edi => s.edi
  | .ebp => s.ebp
  | .esp => s.esp
  | .ds => s.ds
  | .es => s.es
  | .ss => s.ss

def set (s : State) (v : BitVec 32) : Reg → State
  | .eax => { s with eax := v }
  | .ebx => { s with ebx := v }
  | .ecx => { s with ecx := v }
  | .edx => { s with edx := v }
  | .esi => { s with esi := v }
  | .edi => { s with edi := v }
  | .ebp => { s with ebp := v }
  | .esp => { s with esp := v }
  | .ds => { s with ds := v }
  | .es => { s with es := v }
  | .ss => { s with ss := v }

def read (s : State) : Opnd → BitVec 32
  | .reg r => s.get r
  | .imm v => v
  | .mem a => s.word a
  | .stk r d => s.stack (s.get r + d)

def write (s : State) (v : BitVec 32) : Opnd → State
  | .reg r => s.set v r
  | .imm _ => s
  | .mem a => { s with word := Function.update s.word a v }
  | .stk r d => { s with stack := Function.update s.stack (s.get r + d) v }

def jump (s : State) (n : Nat) : State := { s with eip := n }

def next (s : State) : State := s.jump (s.eip + 1)

def push (s : State) (v : BitVec 32) : State :=
  { s with esp := s.esp - 4, stack := Function.update s.stack (s.esp - 4) v }

/-- The low half of `v` replaced by that of `w`. -/
def low16 (v w : BitVec 32) : BitVec 32 :=
  BitVec.ofNat 32 (v.toNat / 2 ^ 16 * 2 ^ 16 + w.toNat % 2 ^ 16)

/-- AL replaced. -/
def setAl (s : State) (v : BitVec 8) : State :=
  { s with eax := BitVec.ofNat 32 (s.eax.toNat / 2 ^ 8 * 2 ^ 8 + v.toNat) }

/-- ZF and SF of a result, and OF. -/
def flags {w : Nat} (s : State) (r : BitVec w) (of : Bool) : State :=
  { s with zf := r == 0, sf := r.msb, of := of }

/-- The image of EFLAGS that `pushf` stores. -/
def eflags (s : State) : BitVec 32 :=
  2 ||| (if s.zf then 0x40 else 0) ||| (if s.sf then 0x80 else 0) |||
    (if s.intr then 0x200 else 0) ||| if s.of then 0x800 else 0

def holds (s : State) : Cond → Bool
  | .z => s.zf
  | .nz => !s.zf
  | .g => !s.zf && s.sf == s.of

/-- `rep movsb` with `n` bytes to go. -/
def copyBytes (sbyte : BitVec 32 → BitVec 8) :
    Nat → BitVec 32 → BitVec 32 → (BitVec 32 → BitVec 8) → BitVec 32 → BitVec 8
  | 0, _, _, byte => byte
  | n + 1, esi, edi, byte =>
    copyBytes sbyte n (esi + 1) (edi + 1) (Function.update byte edi (sbyte esi))

/-- One instruction; `port k` is the byte that the `k`-th read of the port returns. -/
def exec (port : Nat → BitVec 8) (s : State) : Instr → State
  | .mov d t => (s.write (s.read t) d).next
  | .mov16 d t => (s.set (low16 (s.get d) (s.read t)) d).next
  | .movAl r => (s.setAl (s.byte (s.get r))).next
  | .add d t =>
    let r := s.read d + s.read t
    ((s.write r d).flags r ((s.read d).saddOverflow (s.read t))).next
  | .sub d t =>
    let r := s.read d - s.read t
    ((s.write r d).flags r ((s.read d).ssubOverflow (s.read t))).next
  | .inc d =>
    let r := s.get d + 1
    ((s.set r d).flags r ((s.get d).saddOverflow 1)).next
  | .cmp d t =>
    (s.flags (s.read d - s.read t) ((s.read d).ssubOverflow (s.read t))).next
  | .cmpAx v =>
    let ax := s.eax.setWidth 16
    (s.flags (ax - v) (ax.ssubOverflow v)).next
  | .test d t => (s.flags (s.read d &&& s.read t) false).next
  | .testAl v => (s.flags (s.eax.setWidth 8 &&& v) false).next
  | .cmpxchg d r =>
    let u := s.flags (s.eax - s.read d) (s.eax.ssubOverflow (s.read d))
    if s.eax = s.read d then (u.write (s.get r) d).next else (u.set (s.read d) .eax).next
  | .push t => (s.push (s.read t)).next
  | .pop d => ({ s with esp := s.esp + 4 }.set (s.stack s.esp) d).next
  | .pushf => (s.push s.eflags).next
  | .call n => (s.push (BitVec.ofNat 32 (s.eip + 1))).jump n
  | .ret => { s with esp := s.esp + 4, eip := (s.stack s.esp).toNat }
  | .jmp n => s.jump n
  | .jcc c n => if s.holds c then s.jump n else s.next
  | .loop n =>
    if s.ecx - 1 = 0 then { s with ecx := s.ecx - 1 }.next
    else { s with ecx := s.ecx - 1 }.jump n
  | .inAl => { s.setAl (port s.polls) with polls := s.polls + 1 }.next
  | .outAl => { s with sent := s.sent ++ [s.eax.setWidth 8] }.next
  | .cld => s.next
  | .repMovsb =>
    { s with
      byte := copyBytes s.sbyte s.ecx.toNat s.esi s.edi s.byte
      esi := s.esi + s.ecx
      edi := s.edi + s.ecx
      ecx := 0 }.next

/-- The next instruction of the program; past its end nothing happens. -/
def step (port : Nat → BitVec 8) (prog : List Instr) (s : State) : State :=
  match prog[s.eip]? with
  | some i => s.exec port i
  | none => s

end State

/-! ## Running a program -/

/-- The instruction always goes on to the one behind it. -/
def Instr.straight : Instr → Bool
  | .call _ | .ret | .jmp _ | .jcc _ _ | .loop _ => false
  | _ => true

variable {port : Nat → BitVec 8} {prog : List Instr} {s : State}

theorem State.set_eip (s : State) (v : BitVec 32) (r : Reg) : (s.set v r).eip = s.eip := by
  cases r <;> rfl

theorem State.write_eip (s : State) (v : BitVec 32) (d : Opnd) : (s.write v d).eip = s.eip := by
  cases d with
  | reg r => exact s.set_eip v r
  | imm | mem | stk => rfl

theorem exec_eip {i : Instr} (h : i.straight = true) :
    (s.exec port i).eip = s.eip + 1 := by
  cases i with
  | call | ret | jmp | jcc | loop => cases h
  | cmpxchg d r =>
    simp only [State.exec]
    split
    · exact congrArg (· + 1) (State.write_eip _ _ _)
    · rfl
  | mov | add | sub => exact congrArg (· + 1) (State.write_eip _ _ _)
  | mov16 | inc | pop => exact congrArg (· + 1) (State.set_eip _ _ _)
  | _ => rfl

theorem step_at {i : Instr} (h : prog[s.eip]? = some i) : s.step port prog = s.exec port i := by
  rw [State.step, h]

theorem step_jcc {c : Cond} {n : Nat} (h : prog[s.eip]? = some (.jcc c n))
    (hc : s.holds c = true) : s.step port prog = s.jump n := by
  rw [step_at h, State.exec, if_pos hc]

theorem step_jcc_not {c : Cond} {n : Nat} (h : prog[s.eip]? = some (.jcc c n))
    (hc : s.holds c = false) : s.step port prog = s.next := by
  rw [step_at h, State.exec, if_neg (by simp [hc])]

/-- The first instruction of a stretch of the program without jumps. -/
theorem block_step {i : Instr} {l : List Instr} (hcode : i :: l <+: prog.drop s.eip)
    (hi : i.straight = true) :
    s.step port prog = s.exec port i ∧ l <+: prog.drop (s.exec port i).eip := by
  obtain ⟨rest, hrest⟩ := hcode
  have hhead : prog[s.eip]? = some i := by
    rw [← List.head?_drop, ← hrest]
    rfl
  refine ⟨step_at hhead, ?_⟩
  rw [exec_eip hi, ← List.tail_drop, ← hrest]
  exact List.prefix_append l rest

/-- A stretch of the program without jumps runs through. -/
theorem run_block {l : List Instr} (hcode : l <+: prog.drop s.eip)
    (hl : l.all Instr.straight = true) :
    (State.step port prog)^[l.length] s = l.foldl (fun s i => s.exec port i) s := by
  induction l generalizing s with
  | nil => rfl
  | cons i l ih =>
    rw [List.all_cons, Bool.and_eq_true] at hl
    obtain ⟨hstep, hnext⟩ := block_step hcode hl.1
    rw [List.length_cons, Function.iterate_succ_apply, hstep, List.foldl_cons]
    exact ih hnext hl.2

/-- The same for the `n` instructions from `k` on. -/
theorem run_stretch {k : Nat} (n : Nat) (h : s.eip = k)
    (hl : ((prog.drop k).take n).all Instr.straight = true)
    (hn : ((prog.drop k).take n).length = n) :
    (State.step port prog)^[n] s =
      ((prog.drop k).take n).foldl (fun s i => s.exec port i) s := by
  subst h
  have hrun : _ = List.foldl (fun s i => s.exec port i) s _ :=
    run_block (List.take_prefix n (prog.drop s.eip)) hl
  rwa [hn] at hrun

/-- Inside the stretch `eip` counts the instructions. -/
theorem run_block_eip {l : List Instr} (hcode : l <+: prog.drop s.eip)
    (hl : l.all Instr.straight = true) {n : Nat} (hn : n ≤ l.length) :
    ((State.step port prog)^[n] s).eip = s.eip + n := by
  induction l generalizing s n with
  | nil =>
    obtain rfl := Nat.le_zero.mp hn
    rfl
  | cons i l ih =>
    cases n with
    | zero => rfl
    | succ n =>
      rw [List.all_cons, Bool.and_eq_true] at hl
      obtain ⟨hstep, hnext⟩ := block_step hcode hl.1
      rw [Function.iterate_succ_apply, hstep, ih hnext hl.2 (Nat.le_of_succ_le_succ hn),
        exec_eip hl.1]
      omega

/-- Code that always comes back to `P`, with `Q` on the way, keeps `Q` for ever. -/
theorem run_cycle {P Q : State → Prop}
    (hcycle : ∀ s, P s → ∃ m > 0, P ((State.step port prog)^[m] s) ∧
      ∀ j < m, Q ((State.step port prog)^[j] s)) (h : P s) (n : Nat) :
    Q ((State.step port prog)^[n] s) := by
  induction n using Nat.strongRecOn generalizing s with
  | _ n ih =>
    obtain ⟨m, hm, hback, hway⟩ := hcycle s h
    rcases Nat.lt_or_ge n m with hlt | hge
    · exact hway n hlt
    · have hrest := ih (n - m) (by omega) hback
      rwa [← Function.iterate_add_apply, Nat.sub_add_cancel hge] at hrest

end MockOs.X86
