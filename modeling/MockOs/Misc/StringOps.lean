import Mathlib.Data.List.Induction
import MockOs.Misc.CString

/-!
# The string instructions of the x86

Straight code with jumps over six registers, four flags and a flat memory of bytes. A program is
a list of instructions; it ends when the index of the next one is outside of the list.
-/

namespace MockOs.StringOps

inductive Reg where
  | eax | ebx | ecx | edx | esi | edi
  deriving DecidableEq, Repr

/-- The conditions of `je`, `jne`, `js` and `jl`. -/
inductive Cond where
  | e | ne | s | l
  deriving DecidableEq, Repr

inductive Instr where
  | cld
  | std
  | lodsb
  | stosb
  | scasb
  /-- `rep movsb`, `rep stosb`, `repe cmpsb` and `repne scasb`. -/
  | repMovsb
  | repStosb
  | repeCmpsb
  | repneScasb
  /-- `testb %al,%al`. -/
  | testAl
  /-- `cmpb %ah,%al`. -/
  | cmpAh
  /-- `movb %al,%ah`. -/
  | movAh
  /-- `cmpb $0,d(r)`. -/
  | cmpZero (r : Reg) (d : BitVec 32)
  /-- `movb $0,(r)`. -/
  | storeZero (r : Reg)
  | mov (d s : Reg)
  | movImm (d : Reg) (v : BitVec 32)
  | xchg (a b : Reg)
  /-- `xorl r,r`. -/
  | xor (r : Reg)
  /-- `testl r,r`. -/
  | test (r : Reg)
  | inc (r : Reg)
  | dec (r : Reg)
  | neg (r : Reg)
  | not (r : Reg)
  | jcc (c : Cond) (n : Nat)
  | jmp (n : Nat)
  deriving DecidableEq, Repr

structure State where
  eax : BitVec 32
  ebx : BitVec 32
  ecx : BitVec 32
  edx : BitVec 32
  esi : BitVec 32
  edi : BitVec 32
  zf : Bool
  sf : Bool
  of : Bool
  df : Bool
  mem : CString.Mem

namespace State

def get (s : State) : Reg → BitVec 32
  | .eax => s.eax
  | .ebx => s.ebx
  | .ecx => s.ecx
  | .edx => s.edx
  | .esi => s.esi
  | .edi => s.edi

def set (s : State) (v : BitVec 32) : Reg → State
  | .eax => { s with eax := v }
  | .ebx => { s with ebx := v }
  | .ecx => { s with ecx := v }
  | .edx => { s with edx := v }
  | .esi => { s with esi := v }
  | .edi => { s with edi := v }

def al (s : State) : BitVec 8 := s.eax.extractLsb' 0 8

def ah (s : State) : BitVec 8 := s.eax.extractLsb' 8 8

def setAl (s : State) (v : BitVec 8) : State := { s with eax := s.eax.extractLsb' 8 24 ++ v }

def setAh (s : State) (v : BitVec 8) : State := { s with eax := s.eax.extractLsb' 16 16 ++ (v ++ s.al) }

/-- ZF and SF of a result, and OF. -/
def flags {w : Nat} (s : State) (r : BitVec w) (of : Bool) : State := { s with zf := r == 0, sf := r.msb, of }

/-- The flags of a subtraction. -/
def cmp {w : Nat} (s : State) (a b : BitVec w) : State := s.flags (a - b) (a.ssubOverflow b)

def store (s : State) (a : BitVec 32) (v : BitVec 8) : State := { s with mem := Function.update s.mem a v }

/-- What a string instruction adds to ESI and EDI. -/
def delta (s : State) : BitVec 32 := if s.df then -1 else 1

def lodsb (s : State) : State := { s.setAl (s.mem s.esi) with esi := s.esi + s.delta }

def stosb (s : State) : State := { s.store s.edi s.al with edi := s.edi + s.delta }

def movsb (s : State) : State :=
  { s.store s.edi (s.mem s.esi) with esi := s.esi + s.delta, edi := s.edi + s.delta }

def scasb (s : State) : State := { s.cmp s.al (s.mem s.edi) with edi := s.edi + s.delta }

def cmpsb (s : State) : State :=
  { s.cmp (s.mem s.esi) (s.mem s.edi) with esi := s.esi + s.delta, edi := s.edi + s.delta }

/-- `rep` with ECX at `n`. -/
def rep (f : State → State) : (n : Nat) → State → State
  | 0, s => s
  | n + 1, s => rep f n { f s with ecx := s.ecx - 1 }

/-- `repe`, or `repne` if `z` is false, with ECX at `n`. -/
def repWhile (f : State → State) (z : Bool) : (n : Nat) → State → State
  | 0, s => s
  | n + 1, s => if (f s).zf = z then repWhile f z n { f s with ecx := s.ecx - 1 } else { f s with ecx := s.ecx - 1 }

def holds (s : State) : Cond → Bool
  | .e => s.zf
  | .ne => !s.zf
  | .s => s.sf
  | .l => s.sf != s.of

end State

namespace Instr

/-- What an instruction does besides going on. -/
def exec (s : State) : Instr → State
  | .cld => { s with df := false }
  | .std => { s with df := true }
  | .lodsb => s.lodsb
  | .stosb => s.stosb
  | .scasb => s.scasb
  | .repMovsb => s.rep .movsb s.ecx.toNat
  | .repStosb => s.rep .stosb s.ecx.toNat
  | .repeCmpsb => s.repWhile .cmpsb true s.ecx.toNat
  | .repneScasb => s.repWhile .scasb false s.ecx.toNat
  | .testAl => s.flags (s.al &&& s.al) false
  | .cmpAh => s.cmp s.al s.ah
  | .movAh => s.setAh s.al
  | .cmpZero r d => s.cmp (s.mem (s.get r + d)) 0
  | .storeZero r => s.store (s.get r) 0
  | .mov d r => s.set (s.get r) d
  | .movImm d v => s.set v d
  | .xchg a b => (s.set (s.get b) a).set (s.get a) b
  | .xor r => (s.set (s.get r ^^^ s.get r) r).flags (s.get r ^^^ s.get r) false
  | .test r => s.flags (s.get r &&& s.get r) false
  | .inc r => (s.set (s.get r + 1) r).flags (s.get r + 1) ((s.get r).saddOverflow 1)
  | .dec r => (s.set (s.get r - 1) r).flags (s.get r - 1) ((s.get r).ssubOverflow 1)
  | .neg r => (s.set (-s.get r) r).flags (-s.get r) ((0 : BitVec 32).ssubOverflow (s.get r))
  | .not r => s.set (~~~s.get r) r
  | .jcc _ _ | .jmp _ => s

/-- The index of the instruction behind number `k`. -/
def next (s : State) (k : Nat) : Instr → Nat
  | .jmp n => n
  | .jcc c n => if s.holds c then n else k + 1
  | _ => k + 1

end Instr

/-- The code from number `k` on, if it ends after at most `fuel` instructions. -/
def run (code : List Instr) : (fuel : Nat) → (k : Nat) → State → Option State
  | 0, k, s => if code.length ≤ k then some s else none
  | fuel + 1, k, s =>
    match code[k]? with
    | none => some s
    | some i => run code fuel (i.next s k) (i.exec s)

/-- The code comes to its end, and there `Q` holds. -/
def Ends (code : List Instr) (k : Nat) (s : State) (Q : State → Prop) : Prop :=
  ∃ fuel s', run code fuel k s = some s' ∧ Q s'

namespace Ends

variable {code : List Instr} {k n : Nat} {s : State} {i : Instr} {c : Cond} {P Q : State → Prop}

theorem halt (hk : code[k]? = none) (hQ : Q s) : Ends code k s Q := by
  refine ⟨0, s, ?_, hQ⟩
  rw [run, if_pos (List.getElem?_eq_none_iff.mp hk)]

theorem instr (hi : code[k]? = some i) (h : Ends code (i.next s k) (i.exec s) Q) : Ends code k s Q := by
  rcases h with ⟨fuel, s', hrun, hQ⟩
  refine ⟨fuel + 1, s', ?_, hQ⟩
  rw [run, hi]
  exact hrun

/-- An instruction without a jump. -/
theorem op (hi : code[k]? = some i) (hnext : i.next s k = k + 1) (h : Ends code (k + 1) (i.exec s) Q) :
    Ends code k s Q := by
  refine instr hi ?_
  rw [hnext]
  exact h

theorem jump (hi : code[k]? = some (.jcc c n)) (hc : s.holds c = true) (h : Ends code n s Q) : Ends code k s Q := by
  refine instr hi ?_
  rw [Instr.next, if_pos hc]
  exact h

theorem pass (hi : code[k]? = some (.jcc c n)) (hc : s.holds c = false) (h : Ends code (k + 1) s Q) :
    Ends code k s Q := by
  refine instr hi ?_
  rw [Instr.next, if_neg (by rw [hc]; decide)]
  exact h

theorem mono (h : Ends code k s P) (hPQ : ∀ s, P s → Q s) : Ends code k s Q := by
  rcases h with ⟨fuel, s', hrun, hP⟩
  exact ⟨fuel, s', hrun, hPQ s' hP⟩

end Ends

/-! ## Registers and flags -/

namespace State

variable {s : State}

@[simp] theorem al_setAl (s : State) (v : BitVec 8) : (s.setAl v).al = v := by
  rw [al, setAl, BitVec.extractLsb'_append_eq_of_add_le (by decide), BitVec.extractLsb'_eq_self]

@[simp] theorem ah_setAl (s : State) (v : BitVec 8) : (s.setAl v).ah = s.ah := by
  rw [ah, setAl, BitVec.extractLsb'_append_eq_of_le (by decide), ah]
  ext i hi
  simp
  omega

@[simp] theorem ah_setAh (s : State) (v : BitVec 8) : (s.setAh v).ah = v := by
  rw [ah, setAh, BitVec.extractLsb'_append_eq_of_add_le (by decide), BitVec.extractLsb'_append_eq_left]

@[simp] theorem cmp_zf {w : Nat} (s : State) (a b : BitVec w) : (s.cmp a b).zf = decide (a = b) := by
  rw [Bool.eq_iff_iff, decide_eq_true_iff]
  show (a - b == 0) = true ↔ a = b
  rw [beq_iff_eq, BitVec.sub_eq_iff_eq_add]
  exact iff_of_eq (congrArg (a = ·) (BitVec.zero_add b))

/-- `jne` behind something that has set ZF. -/
theorem holds_ne_true {P : Prop} [Decidable P] (hzf : s.zf = decide P) (h : ¬ P) : s.holds .ne = true := by
  rw [holds, hzf, decide_eq_false h]
  rfl

theorem holds_ne_false {P : Prop} [Decidable P] (hzf : s.zf = decide P) (h : P) : s.holds .ne = false := by
  rw [holds, hzf, decide_eq_true h]
  rfl

/-- ZF of `test` with a register and itself. -/
theorem flags_and_self_zf {w : Nat} (s : State) (v : BitVec w) (of : Bool) : (s.flags (v &&& v) of).zf = decide (v = 0) := by
  show (v &&& v == 0) = _
  rw [BitVec.and_self]
  rfl

theorem testAl_zf (s : State) : (Instr.exec s .testAl).zf = decide (s.al = 0) := flags_and_self_zf s s.al false

theorem test_zf (s : State) (r : Reg) : (Instr.exec s (.test r)).zf = decide (s.get r = 0) :=
  flags_and_self_zf s (s.get r) false

theorem cmpZero_zf (s : State) (r : Reg) : (Instr.exec s (.cmpZero r 0)).zf = decide (s.mem (s.get r) = 0) := by
  have hadd : s.get r + 0 = s.get r := BitVec.add_zero _
  rw [← hadd]
  exact cmp_zf _ _ _

/-- `jl` behind a comparison. -/
theorem cmp_l (s : State) (a b : BitVec 8) : (s.cmp a b).holds .l = a.slt b := by
  have hmsb : (a - b).msb = decide (Int.bmod (a.toInt - b.toInt) 256 < 0) := by
    rw [BitVec.msb_eq_toInt, BitVec.toInt_sub]
  have hover : a.ssubOverflow b = (decide (a.toInt - b.toInt ≥ 128) || decide (a.toInt - b.toInt < -128)) := rfl
  have ha : -128 ≤ a.toInt ∧ a.toInt < 128 := ⟨a.le_toInt, a.toInt_lt⟩
  have hb : -128 ≤ b.toInt ∧ b.toInt < 128 := ⟨b.le_toInt, b.toInt_lt⟩
  show ((a - b).msb != a.ssubOverflow b) = decide (a.toInt < b.toInt)
  rw [hmsb, hover, Int.bmod_def, ← Bool.decide_or, Bool.eq_iff_iff, bne_iff_ne, Ne, decide_eq_decide, decide_eq_true_iff]
  split <;> omega

/-! ## Repetition -/

section Repeat

variable {α : Type} (f : State → State) (g : State → α) {z : Bool}

theorem rep_keeps (hf : ∀ s, g (f s) = g s) (hecx : ∀ s v, g { s with ecx := v } = g s) (n : Nat) (s : State) :
    g (s.rep f n) = g s := by
  induction n generalizing s with
  | zero => rfl
  | succ n ih => rw [rep, ih, hecx, hf]

theorem repWhile_keeps (hf : ∀ s, g (f s) = g s) (hecx : ∀ s v, g { s with ecx := v } = g s) (n : Nat) (s : State) :
    g (s.repWhile f z n) = g s := by
  induction n generalizing s with
  | zero => rfl
  | succ n ih =>
    rw [repWhile]
    split
    · rw [ih, hecx, hf]
    · rw [hecx, hf]

end Repeat

open CString

section Scan

variable {s : State} {z : Bool} {n : Nat} {l : List (BitVec 8)}

@[simp] theorem scan_ebx : (s.repWhile scasb z n).ebx = s.ebx :=
  repWhile_keeps scasb ebx (fun _ => rfl) (fun _ _ => rfl) n s
@[simp] theorem scan_edx : (s.repWhile scasb z n).edx = s.edx :=
  repWhile_keeps scasb edx (fun _ => rfl) (fun _ _ => rfl) n s
@[simp] theorem scan_esi : (s.repWhile scasb z n).esi = s.esi :=
  repWhile_keeps scasb esi (fun _ => rfl) (fun _ _ => rfl) n s
@[simp] theorem scan_df : (s.repWhile scasb z n).df = s.df :=
  repWhile_keeps scasb df (fun _ => rfl) (fun _ _ => rfl) n s
@[simp] theorem scan_mem : (s.repWhile scasb z n).mem = s.mem :=
  repWhile_keeps scasb mem (fun _ => rfl) (fun _ _ => rfl) n s

theorem scasb_zf : s.scasb.zf = decide (s.al = s.mem s.edi) := cmp_zf s s.al (s.mem s.edi)

theorem scasb_edi (hdf : s.df = false) : s.scasb.edi = s.edi + 1 := by
  show s.edi + s.delta = _
  rw [delta, hdf]
  rfl

/-- `repne scasb` stops behind the first byte that is AL. -/
theorem scan_found (hdf : s.df = false) (hblock : Block s.mem s.edi (l ++ [s.al])) (hl : s.al ∉ l) (hn : l.length < n) :
    (s.repWhile scasb false n).ecx = s.ecx - BitVec.ofNat 32 (l.length + 1) ∧
      (s.repWhile scasb false n).edi = s.edi + BitVec.ofNat 32 (l.length + 1) ∧
      (s.repWhile scasb false n).zf = true := by
  induction l generalizing s n with
  | nil =>
    obtain ⟨n, rfl⟩ := Nat.exists_eq_add_one.mpr hn
    have hzf : s.scasb.zf = true := by rw [scasb_zf, hblock.1, decide_eq_true rfl]
    rw [repWhile, if_neg (by rw [hzf]; decide)]
    exact ⟨rfl, scasb_edi hdf, hzf⟩
  | cons c l ih =>
    obtain ⟨n, rfl⟩ := Nat.exists_eq_add_one.mpr (Nat.lt_of_le_of_lt (Nat.zero_le _) hn)
    rw [List.mem_cons, not_or] at hl
    have hzf : s.scasb.zf = false := by rw [scasb_zf, hblock.1, decide_eq_false hl.1]
    rw [repWhile, if_pos hzf]
    have hrest := ih (s := { s.scasb with ecx := s.ecx - 1 }) hdf ((scasb_edi hdf).symm ▸ hblock.2) hl.2
      (Nat.lt_of_succ_lt_succ hn)
    refine ⟨hrest.1.trans ?_, hrest.2.1.trans ?_, hrest.2.2⟩
    · rw [List.length_cons, sub_ofNat_succ s.ecx]
    · show s.scasb.edi + _ = _
      rw [scasb_edi hdf, List.length_cons, add_ofNat_succ s.edi]

/-- `repne scasb` over the bytes of a list looks for AL among them. -/
theorem scan_zf (hdf : s.df = false) (hblock : Block s.mem s.edi l) (hl : l ≠ []) :
    (s.repWhile scasb false l.length).zf = decide (s.al ∈ l) := by
  induction l generalizing s with
  | nil => exact absurd rfl hl
  | cons c l ih =>
    have hzf : s.scasb.zf = decide (s.al = c) := by rw [scasb_zf, hblock.1]
    by_cases hc : s.al = c
    · rw [List.length_cons, repWhile, if_neg (by rw [hzf, decide_eq_true hc]; decide)]
      show s.scasb.zf = _
      rw [hzf, decide_eq_true hc, decide_eq_true (List.mem_cons.mpr (Or.inl hc))]
    · rw [List.length_cons, repWhile, if_pos (by rw [hzf, decide_eq_false hc])]
      cases l with
      | nil =>
        exact hzf.trans (decide_eq_decide.mpr List.mem_singleton.symm)
      | cons d l =>
        have hrest := ih (s := { s.scasb with ecx := s.ecx - 1 }) hdf ((scasb_edi hdf).symm ▸ hblock.2)
          (List.cons_ne_nil d l)
        rw [hrest, decide_eq_decide, List.mem_cons (b := c)]
        exact (or_iff_right hc).symm

end Scan

section Compare

variable {s : State} {z : Bool} {n : Nat} {l : List (BitVec 8)} {a b : BitVec 8}

@[simp] theorem compare_eax : (s.repWhile cmpsb z n).eax = s.eax :=
  repWhile_keeps cmpsb eax (fun _ => rfl) (fun _ _ => rfl) n s
@[simp] theorem compare_edx : (s.repWhile cmpsb z n).edx = s.edx :=
  repWhile_keeps cmpsb edx (fun _ => rfl) (fun _ _ => rfl) n s
@[simp] theorem compare_df : (s.repWhile cmpsb z n).df = s.df :=
  repWhile_keeps cmpsb df (fun _ => rfl) (fun _ _ => rfl) n s
@[simp] theorem compare_mem : (s.repWhile cmpsb z n).mem = s.mem :=
  repWhile_keeps cmpsb mem (fun _ => rfl) (fun _ _ => rfl) n s

theorem cmpsb_zf : s.cmpsb.zf = decide (s.mem s.esi = s.mem s.edi) := cmp_zf s (s.mem s.esi) (s.mem s.edi)

theorem cmpsb_esi (hdf : s.df = false) : s.cmpsb.esi = s.esi + 1 := by
  show s.esi + s.delta = _
  rw [delta, hdf]
  rfl

theorem cmpsb_edi (hdf : s.df = false) : s.cmpsb.edi = s.edi + 1 := by
  show s.edi + s.delta = _
  rw [delta, hdf]
  rfl

/-- `repe cmpsb` over equal bytes. -/
theorem compare_equal (hdf : s.df = false) (hsrc : Block s.mem s.esi l) (hdest : Block s.mem s.edi l) (hl : l ≠ []) :
    (s.repWhile cmpsb true l.length).zf = true := by
  induction l generalizing s with
  | nil => exact absurd rfl hl
  | cons c l ih =>
    have hzf : s.cmpsb.zf = true := by rw [cmpsb_zf, hsrc.1, hdest.1, decide_eq_true rfl]
    rw [List.length_cons, repWhile, if_pos hzf]
    cases l with
    | nil => exact hzf
    | cons d l =>
      refine ih (s := { s.cmpsb with ecx := s.ecx - 1 }) hdf ?_ ?_ (List.cons_ne_nil d l)
      · exact (cmpsb_esi hdf).symm ▸ hsrc.2
      · exact (cmpsb_edi hdf).symm ▸ hdest.2

/-- `repe cmpsb` stops behind the first bytes that differ. -/
theorem compare_differ (hdf : s.df = false) (hsrc : Block s.mem s.esi (l ++ [a])) (hdest : Block s.mem s.edi (l ++ [b]))
    (hab : a ≠ b) (hn : l.length < n) :
    (s.repWhile cmpsb true n).zf = false ∧ (s.repWhile cmpsb true n).holds .l = a.slt b ∧
      (s.repWhile cmpsb true n).esi = s.esi + BitVec.ofNat 32 (l.length + 1) := by
  obtain ⟨n, rfl⟩ := Nat.exists_eq_add_one.mpr (Nat.lt_of_le_of_lt (Nat.zero_le _) hn)
  induction l generalizing s n with
  | nil =>
    have hzf : s.cmpsb.zf = false := by rw [cmpsb_zf, hsrc.1, hdest.1, decide_eq_false hab]
    rw [repWhile, if_neg (by rw [hzf]; decide)]
    refine ⟨hzf, ?_, cmpsb_esi hdf⟩
    show (s.cmp (s.mem s.esi) (s.mem s.edi)).holds .l = _
    rw [cmp_l, hsrc.1, hdest.1]
  | cons c l ih =>
    have hzf : s.cmpsb.zf = true := by rw [cmpsb_zf, hsrc.1, hdest.1, decide_eq_true rfl]
    have hlt := Nat.lt_of_succ_lt_succ hn
    obtain ⟨n, rfl⟩ := Nat.exists_eq_add_one.mpr (Nat.lt_of_le_of_lt (Nat.zero_le _) hlt)
    rw [repWhile, if_pos hzf]
    have hrest := ih (s := { s.cmpsb with ecx := s.ecx - 1 }) hdf ((cmpsb_esi hdf).symm ▸ hsrc.2)
      ((cmpsb_edi hdf).symm ▸ hdest.2) n hlt
    refine ⟨hrest.1, hrest.2.1, hrest.2.2.trans ?_⟩
    show s.cmpsb.esi + _ = _
    rw [cmpsb_esi hdf, List.length_cons, add_ofNat_succ s.esi]

end Compare

section Copy

variable {s : State} {l : List (BitVec 8)} {c : BitVec 8} {src dest : BitVec 32}

theorem stosb_edi (hdf : s.df = false) : s.stosb.edi = s.edi + 1 := by
  show s.edi + s.delta = _
  rw [delta, hdf]
  rfl

/-- `rep stosb`. -/
theorem fill (hdf : s.df = false) (n : Nat) : (s.rep stosb n).mem = put s.mem s.edi (List.replicate n s.al) := by
  induction n generalizing s with
  | zero => rfl
  | succ n ih =>
    rw [rep, ih (s := { s.stosb with ecx := s.ecx - 1 }) hdf, List.replicate_succ, put]
    show put s.stosb.mem s.stosb.edi _ = _
    rw [stosb_edi hdf]
    rfl

/-- `rep movsb` upwards. -/
theorem copy_up (hdf : s.df = false) (hsrc : Block s.mem s.esi l) (hapart : Apart s.esi s.edi (l.length - 1))
    (hl : l.length < 2 ^ 32) : (s.rep movsb l.length).mem = put s.mem s.edi l := by
  induction l generalizing s with
  | nil => rfl
  | cons c l ih =>
    have hstep : s.movsb.esi = s.esi + 1 ∧ s.movsb.edi = s.edi + 1 := by
      show s.esi + s.delta = _ ∧ s.edi + s.delta = _
      rw [delta, hdf]
      exact ⟨rfl, rfl⟩
    have hblock : Block s.movsb.mem s.movsb.esi l := by
      rw [hstep.1]
      refine hsrc.2.congr fun i hi => Function.update_of_ne ?_ _ _
      rw [← add_ofNat_succ]
      exact (hapart.ne (Nat.succ_pos i) hi (by simp at hl ⊢; omega)).symm
    have hnext : Apart s.movsb.esi s.movsb.edi (l.length - 1) := by
      rw [hstep.1, hstep.2]
      exact hapart.succ.mono (by simp)
    rw [List.length_cons, rep, ih (s := { s.movsb with ecx := s.ecx - 1 }) hdf hblock hnext (by simp at hl; omega), put]
    show put (Function.update s.mem s.edi (s.mem s.esi)) s.movsb.edi l = _
    rw [hstep.2, hsrc.1]

/-- `rep movsb` downwards. -/
theorem copy_down (hdf : s.df = true) (hsrc : Block s.mem src l) (hesi : s.esi = src + BitVec.ofNat 32 l.length - 1)
    (hedi : s.edi = dest + BitVec.ofNat 32 l.length - 1) (hapart : Apart dest src (l.length - 1))
    (hl : l.length < 2 ^ 32) : (s.rep movsb l.length).mem = put s.mem dest l := by
  induction l using List.reverseRecOn generalizing s with
  | nil => rfl
  | append_singleton l c ih =>
    rw [List.length_append, List.length_singleton] at hesi hedi hl hapart ⊢
    rw [add_ofNat_succ_sub] at hesi hedi
    have hstep : s.movsb.esi = s.esi - 1 ∧ s.movsb.edi = s.edi - 1 := by
      show s.esi + s.delta = _ ∧ s.edi + s.delta = _
      rw [delta, hdf, if_pos rfl, BitVec.sub_eq_add_neg, BitVec.sub_eq_add_neg]
      exact ⟨rfl, rfl⟩
    have hsplit := block_append.mp hsrc
    have hfar : ∀ i < l.length, src + BitVec.ofNat 32 i ≠ dest + BitVec.ofNat 32 l.length := by
      intro i hi heq
      have hsum : BitVec.ofNat 32 l.length = BitVec.ofNat 32 (l.length - i) + BitVec.ofNat 32 i := by
        rw [← BitVec.ofNat_add, Nat.sub_add_cancel (Nat.le_of_lt hi)]
      rw [hsum, ← BitVec.add_assoc] at heq
      exact hapart.ne (Nat.sub_pos_of_lt hi) (by omega) (by omega) (BitVec.add_left_inj _ |>.mp heq)
    have hmem : s.movsb.mem = Function.update s.mem (dest + BitVec.ofNat 32 l.length) c := by
      show Function.update s.mem s.edi (s.mem s.esi) = _
      rw [hedi, hesi, hsplit.2.1]
    have hblock : Block s.movsb.mem src l := by
      rw [hmem]
      exact hsplit.1.congr fun i hi => Function.update_of_ne (hfar i hi) _ _
    have hrest := ih (s := { s.movsb with ecx := s.ecx - 1 }) hdf hblock
      (by rw [← hesi]; exact hstep.1) (by rw [← hedi]; exact hstep.2) (hapart.mono (by omega)) (by omega)
    rw [rep, hrest, put_append]
    show put s.movsb.mem dest l = Function.update (put s.mem dest l) _ c
    rw [hmem]
    funext x
    have hlen : l.length ≤ 2 ^ 32 := by omega
    rw [put_apply hlen, Function.update_apply, Function.update_apply, put_apply hlen]
    by_cases hx : x = dest + BitVec.ofNat 32 l.length
    · rw [if_pos hx, if_pos hx, dif_neg]
      rw [hx, BitVec.add_comm, BitVec.add_sub_cancel, BitVec.toNat_ofNat]
      omega
    · rw [if_neg hx, if_neg hx]

end Copy

end State

end MockOs.StringOps
