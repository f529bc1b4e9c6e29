import MockOs.Kernel.Proofs.Resident
import MockOs.Kernel.Proofs.SysFork

/-!
# A fork through `system_call`

The kernel stack of the task is followed as a list of words, from `int $0x80` to the `iret`. The
words that `copy_process` takes for its parameters are the registers of the user, and those that
are popped again in the end are the same.
-/

namespace MockOs.Kernel

open Mm Relation

/-! ## The kernel stack -/

/-- Memory has the words of a list from word `z` on. -/
def Holds (m : Memory) : Nat → List (BitVec 32) → Prop
  | _, [] => True
  | z, v :: vs => m.word z = v ∧ Holds m (z + 1) vs

theorem Holds.congr {m m' : Memory} {vs : List (BitVec 32)} : ∀ {z : Nat}, Holds m z vs →
    (∀ i, z ≤ i → i < z + vs.length → m'.word i = m.word i) → Holds m' z vs := by
  induction vs with
  | nil => exact fun _ _ => trivial
  | cons v vs ih =>
    intro z h heq
    rw [List.length_cons] at heq
    refine ⟨?_, ih h.2 fun i hi hi' => heq i (by omega) (by omega)⟩
    rw [heq z (Nat.le_refl z) (by omega)]
    exact h.1

theorem Holds.word {m : Memory} {vs : List (BitVec 32)} {v : BitVec 32} : ∀ {z i : Nat}, Holds m z vs →
    vs[i]? = some v → m.word (z + i) = v := by
  induction vs with
  | nil => exact fun _ hi => by cases hi
  | cons v' vs ih =>
    intro z i h hi
    cases i with
    | zero =>
      obtain rfl : v' = v := Option.some.inj hi
      exact h.1
    | succ i =>
      rw [show z + (i + 1) = z + 1 + i by omega]
      exact ih h.2 hi

/-- The stack of the task whose page is at word `x`, the top first. -/
structure Stack (x : Nat) (vs : List (BitVec 32)) (c : Machine) : Prop where
  low : 5120 ≤ x
  high : x + 1024 ≤ 4194304
  room : vs.length ≤ 735
  esp : c.esp = wordAddr (x + (1024 - vs.length))
  holds : Holds c.sys.mm (x + (1024 - vs.length)) vs

/-- Only the stack in the page at word `x` differs. -/
structure StackOnly (x : Nat) (s s' : ForkSys) : Prop where
  rest : s' = { s with mm := s'.mm }
  map : s'.mm.memMap = s.mm.memMap
  word : ∀ z, ¬ (x + 289 ≤ z ∧ z < x + 1024) → s'.mm.word z = s.mm.word z

theorem StackOnly.refl (x : Nat) (s : ForkSys) : StackOnly x s s := ⟨rfl, rfl, fun _ _ => rfl⟩

theorem StackOnly.trans {x : Nat} {s s' s'' : ForkSys} (h : StackOnly x s s') (h' : StackOnly x s' s'') :
    StackOnly x s s'' where
  rest := by
    have heq := h'.rest
    rw [h.rest] at heq
    exact heq
  map := h'.map.trans h.map
  word z hz := (h'.word z hz).trans (h.word z hz)

/-- Only what the running task, at word `x`, has for itself differs, its state, its signals and its
stack in kernel mode, and the number of ticks. -/
structure Own (x : Nat) (s s' : ForkSys) : Prop where
  rest : s' = { s with mm := s'.mm, jiffies := s'.jiffies }
  map : s'.mm.memMap = s.mm.memMap
  word : ∀ z, z ≠ x → z ≠ x + 3 → ¬ (x + 289 ≤ z ∧ z < x + 1024) → s'.mm.word z = s.mm.word z

theorem StackOnly.own {x : Nat} {s s' : ForkSys} (h : StackOnly x s s') : Own x s s' where
  rest := by
    rw [h.rest]
  map := h.map
  word z _ _ hz := h.word z hz

/-- What is known of the system, the task at word `x` running, and stays so while the task changes
what it has for itself. -/
structure Owned (H : ForkSys → Prop) (x : Nat) : Prop where
  current : ∀ {s}, H s → s.current = wordAddr x
  own : ∀ {s s'}, H s → Own x s s' → H s'

/-- `schedule` comes back to the task at word `x`: what was known of the system is known again, and
the words in use of the stack are the same. -/
def Linkage.Resumes (k : Linkage) (H : ForkSys → Prop) (x : Nat) : Prop :=
  ∀ c : Machine, H c.sys → Machine.otherRuns c.sys →
    H (k.away c) ∧ ∀ j, 289 ≤ j → j < 1024 → c.esp.toNat ≤ 4 * (x + j) →
      (k.away c).mm.word (x + j) = c.sys.mm.word (x + j)

/-- The registers that neither the stack has nor C functions change. -/
structure SameRegs (c c' : Machine) : Prop where
  esi : c'.esi = c.esi
  edi : c'.edi = c.edi
  ebp : c'.ebp = c.ebp
  gs : c'.gs = c.gs

theorem SameRegs.trans {c c' c'' : Machine} (h : SameRegs c c') (h' : SameRegs c' c'') : SameRegs c c'' :=
  ⟨h'.esi.trans h.esi, h'.edi.trans h.edi, h'.ebp.trans h.ebp, h'.gs.trans h.gs⟩

/-- The registers that `push` leaves as they are. -/
structure Moved (c c' : Machine) : Prop extends SameRegs c c' where
  eax : c'.eax = c.eax
  ebx : c'.ebx = c.ebx
  ecx : c'.ecx = c.ecx
  edx : c'.edx = c.edx
  ds : c'.ds = c.ds
  es : c'.es = c.es
  fs : c'.fs = c.fs

theorem Moved.trans {c c' c'' : Machine} (h : Moved c c') (h' : Moved c' c'') : Moved c c'' where
  toSameRegs := h.toSameRegs.trans h'.toSameRegs
  eax := h'.eax.trans h.eax
  ebx := h'.ebx.trans h.ebx
  ecx := h'.ecx.trans h.ecx
  edx := h'.edx.trans h.edx
  ds := h'.ds.trans h.ds
  es := h'.es.trans h.es
  fs := h'.fs.trans h.fs

namespace Stack

variable {x : Nat} {v a : BitVec 32} {vs : List (BitVec 32)} {c c' : Machine} {k : Linkage}

theorem congr (h : Stack x vs c) (hesp : c'.esp = c.esp) (hsys : c'.sys = c.sys) : Stack x vs c' :=
  ⟨h.low, h.high, h.room, hesp.trans h.esp, by rw [hsys]; exact h.holds⟩

/-- `push`, and which word it writes. -/
theorem push (h : Stack x vs c) (v : BitVec 32) (hroom : vs.length < 735) :
    Stack x (v :: vs) (c.push v) ∧ StackOnly x c.sys (c.push v).sys := by
  have hlow := h.low
  have hhigh := h.high
  obtain ⟨z, hz⟩ : ∃ z, x + (1024 - (vs.length + 1)) = z := ⟨_, rfl⟩
  have hz1 : x + (1024 - vs.length) = z + 1 := by omega
  have hesp : c.esp - 4 = wordAddr z := by rw [h.esp, hz1, wordAddr_sub_four]
  have hmm : (c.push v).sys.mm = c.sys.mm.setWord z v := by
    show c.sys.mm.write (c.esp - 4) v = _
    rw [hesp, Memory.write_wordAddr (by omega)]
  refine ⟨⟨hlow, hhigh, by rw [List.length_cons]; omega, ?_, ?_⟩, rfl, ?_, fun i hi => ?_⟩
  · rw [List.length_cons, hz]
    exact hesp
  · rw [List.length_cons, hz, hmm]
    refine ⟨Memory.setWord_word_self, ?_⟩
    have hold := h.holds
    rw [hz1] at hold
    exact hold.congr fun i hi _ => Memory.setWord_word_ne (by omega)
  · rw [hmm]
    rfl
  · rw [hmm]
    exact Memory.setWord_word_ne (by omega)

/-- The word under `i` others. -/
theorem slot (h : Stack x vs c) {i : Nat} (hi : vs[i]? = some v) : c.slot (BitVec.ofNat 32 (4 * i)) = v := by
  have hlow := h.low
  have hhigh := h.high
  have hroom := h.room
  have hlen := (List.getElem?_eq_some_iff.mp hi).1
  rw [Machine.slot, h.esp, wordAddr_add, Memory.read_wordAddr (by omega)]
  exact h.holds.word hi

theorem slot_zero (h : Stack x (v :: vs) c) : c.slot 0 = v := h.slot (i := 0) rfl

theorem drop (h : Stack x (v :: vs) c) : Stack x vs (c.drop 4) := by
  have hroom := h.room
  have hesp := h.esp
  have hholds := h.holds
  rw [List.length_cons] at hroom hesp hholds
  have hz : x + (1024 - (vs.length + 1)) + 1 = x + (1024 - vs.length) := by omega
  refine ⟨h.low, h.high, by omega, ?_, ?_⟩
  · show c.esp + 4 = _
    rw [hesp, wordAddr_add_four, hz]
  · rw [← hz]
    exact hholds.2

/-- `pop` into a register. -/
theorem pop (h : Stack x (v :: vs) c) {g : Machine → BitVec 32 → Machine}
    (hg : ∀ d, (g d v).esp = d.esp ∧ (g d v).sys = d.sys) :
    ∃ c', c.pop g = c' ∧ c' = g (c.drop 4) v ∧ Stack x vs c' := by
  refine ⟨_, rfl, ?_, ?_⟩
  · rw [Machine.pop, h.slot_zero]
  · rw [Machine.pop, h.slot_zero]
    exact h.drop.congr (hg _).1 (hg _).2

/-- The words from ESP on. -/
theorem esp_le (h : Stack x vs c) {j : Nat} (hj : 1024 - vs.length ≤ j) : c.esp.toNat ≤ 4 * (x + j) := by
  have hhigh := h.high
  rw [h.esp, toNat_wordAddr (by omega)]
  omega

/-- Another memory with the same words in the stack. -/
theorem remap (h : Stack x vs c) (hesp : c'.esp = c.esp)
    (hword : ∀ j, 289 ≤ j → j < 1024 → c.esp.toNat ≤ 4 * (x + j) → c'.sys.mm.word (x + j) = c.sys.mm.word (x + j)) :
    Stack x vs c' := by
  have hroom := h.room
  refine ⟨h.low, h.high, hroom, hesp.trans h.esp, h.holds.congr fun i hi hi' => ?_⟩
  rw [show i = x + (i - x) by omega]
  exact hword _ (by omega) (by omega) (h.esp_le (by omega))

/-! ## Calls -/

/-- A C function that leaves the stack of its caller alone returns to it. -/
theorem cFunction (h : Stack x (a :: vs) c) (k : Linkage) {body : Machine → Except Halt (ForkSys × BitVec 32)}
    {s : ForkSys} (hbody : body c = .ok (s, v)) (hcur : s.current = wordAddr x)
    (hstack : ∀ j, 289 ≤ j → j < 1024 → c.esp.toNat ≤ 4 * (x + j) → s.mm.word (x + j) = c.sys.mm.word (x + j)) :
    ∃ c', Machine.cFunction k body c = .ok c' ∧ Stack x vs c' ∧ StackOnly x s c'.sys ∧ c'.eip = a ∧ c'.eax = v ∧
      SameRegs c c' := by
  have hlow := h.low
  have hhigh := h.high
  have hroom := h.room
  have hbase : s.current.toNat / 4 = x := by
    rw [hcur, toNat_wordAddr (by omega)]
    omega
  have hesp : c.esp.toNat = 4 * (x + (1024 - (a :: vs).length)) := by rw [h.esp, toNat_wordAddr (by omega)]
  rw [List.length_cons] at hesp hroom
  have hword : ∀ z, (Machine.scribble k c s).mm.word z =
      if x + 289 ≤ z ∧ 4 * z < c.esp.toNat then k.scratch c z else s.mm.word z := by
    intro z
    rw [← hbase]
    rfl
  have honly : StackOnly x s (Machine.scribble k c s) := by
    refine ⟨rfl, rfl, fun z hz => ?_⟩
    rw [hword, if_neg (by omega)]
  obtain ⟨d, hd⟩ : ∃ d : Machine, { c with
    eax := v, ecx := k.ecx c, edx := k.edx c, sys := Machine.scribble k c s } = d := ⟨_, rfl⟩
  have hstack' : Stack x (a :: vs) d := by
    have hlen : (a :: vs).length = vs.length + 1 := rfl
    refine ⟨hlow, hhigh, h.room, ?_, h.holds.congr fun i hi hi' => ?_⟩
    · rw [← hd]
      exact h.esp
    · rw [hlen] at hi hi'
      rw [← hd]
      show (Machine.scribble k c s).mm.word i = _
      rw [hword, if_neg (by omega), show i = x + (i - x) by omega]
      exact hstack _ (by omega) (by omega) (h.esp_le (by omega))
  refine ⟨d.ret, ?_, hstack'.drop.congr rfl rfl, ?_, hstack'.slot_zero, ?_, ?_⟩
  · rw [Machine.cFunction, hbody, ← hd]
  · rw [← hd]
    exact honly
  · rw [← hd]
    rfl
  · rw [← hd]
    exact ⟨rfl, rfl, rfl, rfl⟩

theorem call_eq {f : Machine → Except Trap Machine} (hf : f (c.push a) = .ok c') (heip : c'.eip = a) :
    c.call a f = .ok c' := by
  rw [Machine.call, hf]
  show (if c'.eip = a then _ else _) = _
  rw [if_pos heip]
  rfl

theorem cFunction_error {body : Machine → Except Halt (ForkSys × BitVec 32)} {e : Halt} (hbody : body c = .error e) :
    Machine.cFunction k body c = .error (.halt e) := by
  rw [Machine.cFunction, hbody]

theorem call_error {f : Machine → Except Trap Machine} {e : Trap} (hf : f (c.push a) = .error e) :
    c.call a f = .error e := by
  rw [Machine.call, hf]
  rfl

/-- A call of a C function. -/
theorem callC (h : Stack x vs c) (hroom : vs.length < 735) (k : Linkage)
    (body : Machine → Except Halt (ForkSys × BitVec 32)) {s : ForkSys} (hbody : body (c.push a) = .ok (s, v))
    (hcur : s.current = wordAddr x)
    (hstack : ∀ j, 289 ≤ j → j < 1024 → (c.push a).esp.toNat ≤ 4 * (x + j) →
      s.mm.word (x + j) = (c.push a).sys.mm.word (x + j)) :
    ∃ c', c.call a (Machine.cFunction k body) = .ok c' ∧ Stack x vs c' ∧ StackOnly x s c'.sys ∧ c'.eax = v ∧
      SameRegs c c' := by
  rcases (h.push a hroom).1.cFunction k hbody hcur hstack with ⟨c', hcall, hs, honly, heip, heax, hsame⟩
  exact ⟨c', call_eq hcall heip, hs, honly, heax, hsame.esi, hsame.edi, hsame.ebp, hsame.gs⟩

end Stack

/-! ## The way out -/

section Exit

variable {x : Nat} {vs : List (BitVec 32)} {c : Machine} {k : Linkage} {H : ForkSys → Prop}

theorem Stack.dropSignal (h : Stack x vs c) (hroom : vs.length < 735) (heax : c.eax = wordAddr x) (n : BitVec 32) :
    Stack x vs (c.dropSignal n) ∧ SameRegs c (c.dropSignal n) := by
  have hlow := h.low
  have hhigh := h.high
  have hset : ∀ w j, 289 ≤ j → (c.sys.set c.eax Off.signal w).mm.word (x + j) = c.sys.mm.word (x + j) := by
    intro w j hj
    rw [heax, ForkSys.set_eq (by decide) (by omega)]
    exact Memory.setWord_word_ne (by rw [show Off.signal.toNat / 4 = 3 from rfl]; omega)
  refine ⟨?_, rfl, rfl, rfl, rfl⟩
  refine Stack.congr (Stack.drop (Stack.push ?_ _ hroom).1) rfl rfl
  exact h.remap rfl fun j hj _ _ => hset _ j hj

/-- The signals touch neither the stack nor the registers that are not on it. -/
theorem Stack.takeSignal (h : Stack x vs c) (hroom : vs.length < 735) (hcur : c.sys.current = wordAddr x) :
    Stack x vs c.takeSignal ∧ SameRegs c c.takeSignal := by
  rw [Machine.takeSignal]
  split
  · exact ⟨h.congr rfl rfl, rfl, rfl, rfl, rfl⟩
  split
  · exact ⟨h.congr rfl rfl, rfl, rfl, rfl, rfl⟩
  split
  · exact ⟨h.congr rfl rfl, rfl, rfl, rfl, rfl⟩
  dsimp only
  split
  · exact ⟨h.congr rfl rfl, rfl, rfl, rfl, rfl⟩
  · refine (Stack.dropSignal (c := { c with eax := c.sys.current, ebx := _, ecx := _ }) (h.congr rfl rfl) hroom hcur _).imp_right fun hsame => ?_
    exact ⟨hsame.esi, hsame.edi, hsame.ebp, hsame.gs⟩

/-- The registers come off the stack as they were put there. -/
theorem Stack.retFromSysCall {eax ebx ecx edx orig fs es ds : BitVec 32}
    (h : Stack x (eax :: ebx :: ecx :: edx :: orig :: fs :: es :: ds :: vs) c)
    (hcur : c.sys.current = wordAddr x) (hroom : vs.length < 727) :
    Stack x vs c.retFromSysCall ∧ SameRegs c c.retFromSysCall ∧ c.retFromSysCall.eax = eax ∧
      c.retFromSysCall.ebx = ebx ∧ c.retFromSysCall.ecx = ecx ∧ c.retFromSysCall.edx = edx ∧
      c.retFromSysCall.fs = fs.setWidth 16 ∧ c.retFromSysCall.es = es.setWidth 16 ∧
      c.retFromSysCall.ds = ds.setWidth 16 := by
  rcases h.takeSignal (by simp only [List.length_cons]; omega) hcur with ⟨h0, hsame⟩
  unfold Machine.retFromSysCall
  generalize c.takeSignal = c0 at h0 hsame
  rcases h0.pop (g := fun c v => { c with eax := v }) fun _ => ⟨rfl, rfl⟩ with ⟨c1, e1, h1, hs1⟩
  rcases hs1.pop (g := fun c v => { c with ebx := v }) fun _ => ⟨rfl, rfl⟩ with ⟨c2, e2, h2, hs2⟩
  rcases hs2.pop (g := fun c v => { c with ecx := v }) fun _ => ⟨rfl, rfl⟩ with ⟨c3, e3, h3, hs3⟩
  rcases hs3.pop (g := fun c v => { c with edx := v }) fun _ => ⟨rfl, rfl⟩ with ⟨c4, e4, h4, hs4⟩
  rcases hs4.drop.pop (g := fun c v => { c with fs := v.setWidth 16 }) fun _ => ⟨rfl, rfl⟩ with ⟨c5, e5, h5, hs5⟩
  rcases hs5.pop (g := fun c v => { c with es := v.setWidth 16 }) fun _ => ⟨rfl, rfl⟩ with ⟨c6, e6, h6, hs6⟩
  rcases hs6.pop (g := fun c v => { c with ds := v.setWidth 16 }) fun _ => ⟨rfl, rfl⟩ with ⟨c7, e7, h7, hs7⟩
  simp only [e1, e2, e3, e4, e5, e6, e7]
  refine ⟨hs7, ?_⟩
  subst h1 h2 h3 h4 h5 h6 h7
  exact ⟨⟨hsame.esi, hsame.edi, hsame.ebp, hsame.gs⟩, rfl, rfl, rfl, rfl, rfl, rfl, rfl⟩

/-- `schedule` comes back to a task with its stack, and `current` is that task. -/
theorem Stack.callSchedule (h : Stack x vs c) (hroom : vs.length < 735) (hH : Owned H x) (hk : k.Resumes H x)
    (hhere : H c.sys) (a : BitVec 32) :
    ∃ c', c.call a (Machine.schedule k) = .ok c' ∧ Stack x vs c' ∧ c'.sys.current = wordAddr x ∧ SameRegs c c' := by
  have hpush := hH.own hhere (h.push a hroom).2.own
  obtain ⟨s', hs'⟩ : ∃ s', (if Machine.otherRuns (c.push a).sys then k.away (c.push a) else (c.push a).sys) = s' :=
    ⟨_, rfl⟩
  have hback : H s' ∧ ∀ j, 289 ≤ j → j < 1024 → (c.push a).esp.toNat ≤ 4 * (x + j) →
      s'.mm.word (x + j) = (c.push a).sys.mm.word (x + j) := by
    rw [← hs']
    split
    · exact hk _ hpush ‹_›
    · exact ⟨hpush, fun _ _ _ _ => rfl⟩
  have hcur' := hH.current hback.1
  rcases h.callC hroom k (fun c => .ok (if Machine.otherRuns c.sys then k.away c else c.sys, k.eax c))
    (by rw [hs']) hcur' hback.2 with
    ⟨c', hcall, hst, honly, -, hsame⟩
  refine ⟨c', hcall, hst, ?_, hsame⟩
  rw [honly.rest]
  exact hcur'

/-- From the return of a system call to the `iret`. -/
theorem Stack.sysCallExit {ebx ecx edx orig fs es ds : BitVec 32}
    (h : Stack x (ebx :: ecx :: edx :: orig :: fs :: es :: ds :: vs) c) (hH : Owned H x) (hk : k.Resumes H x)
    (hhere : H c.sys) (hroom : vs.length < 727) :
    ∃ c', c.sysCallExit k = .ok c' ∧ Stack x vs c' ∧ SameRegs c c' ∧ c'.eax = c.eax ∧ c'.ebx = ebx ∧
      c'.ecx = ecx ∧ c'.edx = edx ∧ c'.fs = fs.setWidth 16 ∧ c'.es = es.setWidth 16 ∧ c'.ds = ds.setWidth 16 := by
  have hroom' : (ebx :: ecx :: edx :: orig :: fs :: es :: ds :: vs).length < 734 := by
    simp only [List.length_cons]
    omega
  rcases h.push c.eax (by omega) with ⟨hpushed, honly⟩
  obtain ⟨d, hd⟩ : ∃ d : Machine, { c.push c.eax with eax := c.sys.current } = d := ⟨_, rfl⟩
  have hs : Stack x (c.eax :: ebx :: ecx :: edx :: orig :: fs :: es :: ds :: vs) d := by
    rw [← hd]
    exact hpushed.congr rfl rfl
  have hsame : SameRegs c d := by
    rw [← hd]
    exact ⟨rfl, rfl, rfl, rfl⟩
  have hhered : H d.sys := by
    rw [← hd]
    exact hH.own hhere honly.own
  have hexit : c.sysCallExit k =
      if d.sys.get d.eax Off.state ≠ 0 ∨ d.sys.get d.eax Off.counter = 0 then do
        let c ← d.call k.retFromSysCall (Machine.schedule k)
        return c.retFromSysCall
      else return d.retFromSysCall := by
    rw [← hd]
    rfl
  rw [hexit]
  split
  · rcases hs.callSchedule (by rw [List.length_cons]; omega) hH hk hhered k.retFromSysCall with
      ⟨e, hcall, hse, hcure, hsame'⟩
    rcases hse.retFromSysCall hcure hroom with ⟨hst, hsame'', hrest⟩
    refine ⟨e.retFromSysCall, ?_, hst, (hsame.trans hsame').trans hsame'', hrest⟩
    rw [hcall]
    rfl
  · rcases hs.retFromSysCall (hH.current hhered) hroom with ⟨hst, hsame', hrest⟩
    exact ⟨d.retFromSysCall, rfl, hst, hsame.trans hsame', hrest⟩

/-- `iret` to user mode. -/
theorem Stack.iret {eip cs eflags esp ss : BitVec 32} (h : Stack x [eip, cs, eflags, esp, ss] c)
    (huser : cs.setWidth 16 &&& 3 ≠ (0 : BitVec 16)) :
    c.iret = { c with
      eip := eip, cs := cs.setWidth 16, eflags := eflags, esp := esp, ss := ss.setWidth 16 } := by
  have h0 : c.slot 0 = eip := h.slot (i := 0) rfl
  have h1 : c.slot 4 = cs := h.slot (i := 1) rfl
  have h2 : c.slot 8 = eflags := h.slot (i := 2) rfl
  have h3 : c.slot 12 = esp := h.slot (i := 3) rfl
  have h4 : c.slot 16 = ss := h.slot (i := 4) rfl
  simp only [Machine.iret, h0, h1, h2, h3, h4]
  rw [if_neg huser]

end Exit

/-! ## The way in -/

/-- The stack, in a system that is `s` but for the words of the stack. -/
structure OnStack (s : ForkSys) (x : Nat) (vs : List (BitVec 32)) (c : Machine) : Prop extends Stack x vs c where
  only : StackOnly x s c.sys

/-- What `copy_process` has made of slot `nr`, for the registers `r`. -/
structure ForkedTask (s : ForkSys) (nr : Nat) (r : Regs) (pid : BitVec 32) : Prop where
  field : ∀ o v, Field o → 236 ≤ o.toNat / 4 → (∀ s', (o, v) ∈ ForkSys.childFields nr r (s.task nr) s') →
    s.get (s.task nr) o = v
  pid : s.get (s.task nr) Off.pid = pid
  ownStack : ∀ j < nrTasks, j ≠ nr → s.task j ≠ 0 →
    (s.task j).toNat + 4096 ≤ (s.task nr).toNat ∨ (s.task nr).toNat + 4096 ≤ (s.task j).toNat

section Entry

variable {w0 nr x : Nat} {s : ForkSys} {loc : Fin 64 → Option Nat} {t : Fin 64} {v a : BitVec 32}
  {vs : List (BitVec 32)} {c c' : Machine} {k : Linkage}

theorem OnStack.congr (h : OnStack s x vs c) (hesp : c'.esp = c.esp) (hsys : c'.sys = c.sys) : OnStack s x vs c' :=
  ⟨h.toStack.congr hesp hsys, by rw [hsys]; exact h.only⟩

theorem OnStack.push (h : OnStack s x vs c) (v : BitVec 32) (hroom : vs.length < 735) :
    OnStack s x (v :: vs) (c.push v) :=
  ⟨(h.toStack.push v hroom).1, h.only.trans (h.toStack.push v hroom).2⟩

/-- `push` as a state of its own: the registers are as before. -/
theorem OnStack.pushed (h : OnStack s x vs c) (v : BitVec 32) (hroom : vs.length < 735) :
    ∃ c', c.push v = c' ∧ OnStack s x (v :: vs) c' ∧ Moved c c' :=
  ⟨_, rfl, h.push v hroom, ⟨rfl, rfl, rfl, rfl⟩, rfl, rfl, rfl, rfl, rfl, rfl, rfl⟩

/-- The stack of a task is no part of what `Resident` looks at. -/
theorem OnStack.resident (h : OnStack s x vs c) (hres : Resident w0 s loc) (ht : loc t = some x) :
    Resident w0 c.sys loc := by
  have hnot : ∀ z, s.Fixed z → ¬ (x + 289 ≤ z ∧ z < x + 1024) := fun z hz hin =>
    hres.not_fixed ht (j := z - x) (by omega) (by omega) (by rwa [Nat.add_sub_cancel' (by omega)])
  refine hres.rewrite ?_ (by rw [h.only.rest]) (by rw [h.only.rest]) (by rw [h.only.rest]) h.only.map
    fun z hz => h.only.word z (hnot z hz)
  rcases hres.running with ⟨t', y, hy, hcur⟩
  have hb := hres.tasks.structs.loc_bounds hy
  have htask := hres.tasks.structs.task_eq hy
  refine ⟨t', ⟨t'.isLt, ?_⟩, ?_⟩
  · rw [htask]
    exact wordAddr_ne_zero (by omega) (by omega)
  · rw [h.only.rest, htask]
    exact hcur

/-- The process numbers of the tasks are not on the stack. -/
theorem OnStack.pidTaken (h : OnStack s x vs c) (hres : Resident w0 s loc) (ht : loc t = some x) (pid : BitVec 32) :
    c.sys.pidTaken pid = s.pidTaken pid := by
  have htask : c.sys.task = s.task := by rw [h.only.rest]
  have hget : ∀ i ∈ List.range nrTasks, s.task i ≠ 0 → ∀ o, Field o → o.toNat / 4 < 289 →
      c.sys.get (s.task i) o = s.get (s.task i) o := by
    intro i hi hne o ho hlt
    rcases hres.tasks.of_live ⟨List.mem_range.mp hi, hne⟩ with ⟨t', y, rfl, hy⟩
    have hb := hres.tasks.structs.loc_bounds hy
    rw [hres.tasks.structs.task_eq hy, ForkSys.get_eq ho (by omega), ForkSys.get_eq ho (by omega)]
    refine h.only.word _ ?_
    rcases hres.tasks.structs.loc_apart hy ht with ⟨-, rfl⟩ | ⟨-, happ⟩ <;> omega
  rw [ForkSys.pidTaken, ForkSys.pidTaken, htask, Bool.eq_iff_iff, List.any_eq_true, List.any_eq_true]
  refine exists_congr fun i => and_congr_right fun hi => ?_
  by_cases hne : s.task i ≠ 0
  · rw [hget i hi hne _ (by decide) (by decide), hget i hi hne _ (by decide) (by decide)]
  · simp only [not_not.mp hne, ne_eq, not_true_eq_false, decide_false, Bool.false_and]

/-- `find_empty_process` returns the slot that is available, and takes the process number that it
would take with the words of the stack as they were. -/
theorem OnStack.callFind (h : OnStack s x vs c) (hroom : vs.length < 735) (hres : Resident w0 s loc)
    (ht : loc t = some x) (hcur : s.current = wordAddr x) (hslot : s.Available nr) (k : Linkage) (a : BitVec 32) :
    ∃ pid c', c.call a (Machine.findEmptyProcess k) = .ok c' ∧ pid.toNat < 2147483648 ∧
      s.findEmptyProcess = .ok ({ s with lastPid := pid }, BitVec.ofNat 32 nr) ∧
      OnStack { s with lastPid := pid } x vs c' ∧ c'.eax = BitVec.ofNat 32 nr ∧ SameRegs c c' := by
  have hpushed := h.push a hroom
  rcases ForkSys.findEmptyProcess_found hres.tasks.pid with ⟨s', n, heq, hfound⟩
  obtain rfl : n = BitVec.ofNat 32 nr := hfound.slot nr hslot.pos hslot.high hslot.free hslot.first
  have hrest : s' = { s with lastPid := s'.lastPid } := hfound.rest
  have hhigh := hfound.high
  generalize s'.lastPid = pid at hrest hhigh
  subst hrest
  have hremap := ForkSys.findEmptyProcess_remap (m := (c.push a).sys.mm) (s := s) (fun pid => by
    rw [← hpushed.only.rest]
    exact hpushed.pidTaken hres ht pid) heq
  rw [← hpushed.only.rest] at hremap
  rcases h.toStack.callC hroom k (fun c => c.sys.findEmptyProcess) hremap hcur fun j _ _ _ => rfl with
    ⟨c', hcall, hst, honly, heax, hsame⟩
  have hpushed' : StackOnly x { s with lastPid := pid } { s with mm := (c.push a).sys.mm, lastPid := pid } :=
    ⟨rfl, hpushed.only.map, hpushed.only.word⟩
  exact ⟨pid, c', hcall, by omega, heq, ⟨hst, hpushed'.trans honly⟩, heax, hsame⟩

/-- A task made by `copy_process`, also after the stack of its parent has changed. -/
theorem forkedTask {s' s'' : ForkSys} {y f : Nat} {m : Memory} {r : Regs} {n : Fin 64} {old : Option Nat}
    (hs : Structs w0 s loc) (ht : loc t = some y) (hcur : s.current = wordAddr y) (hfresh : FreshPage s loc f m)
    (hforked : Forked s s' loc n y f old) (hset : ForkSys.ChildSet s'.mm s.lastPid n (1024 * f))
    (htasks : SaneTasks w0 s' (Function.update loc n (some (1024 * f))))
    (hchild : ∀ j, 178 < j → j < 1024 →
      s'.mm.word (1024 * f + j) = (s.prepared n r f m).mm.word (1024 * f + j))
    (honly : StackOnly y s' s'') : ForkedTask s'' n r s.lastPid := by
  have hhigh := hfresh.high
  have happ := hfresh.apart_loc ht
  have htask : s''.task = s'.task := by rw [honly.rest]
  have hn : s''.task n = wordAddr (1024 * f) := by
    rw [htask, hforked.rest]
    exact Function.update_self ..
  have hword : ∀ o, Field o → s''.get (s''.task n) o = s'.mm.word (1024 * f + o.toNat / 4) := by
    intro o ho
    have hlt := ho.2
    rw [hn, ForkSys.get_eq ho (by omega), honly.word _ (by omega)]
  refine ⟨fun o v ho h236 hmem => ?_, ?_, fun j hj hjn hne => ?_⟩
  · have hlt := ho.2
    rw [hn] at hmem
    rw [hword o ho, hchild _ (by omega) (by omega)]
    exact hs.prepared_field ht hcur hhigh h236 hmem
  · rw [hword _ (by decide)]
    exact hset.pid
  · rw [htask] at hne
    rcases htasks.of_live ⟨hj, hne⟩ with ⟨t', x', rfl, hx'⟩
    have hb := htasks.structs.loc_bounds hx'
    have htn : t' ≠ n := fun heq => hjn (congrArg Fin.val heq)
    have hne' := htasks.structs.loc_apart hx' (Function.update_self n (some (1024 * f)) loc)
    rw [hn, htask, htasks.structs.task_eq hx', toNat_wordAddr (by omega), toNat_wordAddr (by omega)]
    rcases hne' with ⟨heq, -⟩ | ⟨-, hap⟩
    · exact absurd heq htn
    · omega

/-- The parameters of `copy_process` are what `int`, `system_call` and `sys_fork` have pushed. -/
theorem Stack.copyArgs {nr ebp edi esi gs ret ebx ecx edx orig fs es ds eip cs eflags esp ss : BitVec 32}
    (h : Stack x [a, nr, ebp, edi, esi, gs, ret, ebx, ecx, edx, orig, fs, es, ds, eip, cs, eflags, esp, ss] c) :
    c.arg 0 = nr ∧
      c.regArgs = { ebx, ecx, edx, esi, edi, ebp, esp, eip, eflags, cs, ss, ds, es, fs, gs } := by
  have harg : ∀ i v, [nr, ebp, edi, esi, gs, ret, ebx, ecx, edx, orig, fs, es, ds, eip, cs, eflags, esp,
      ss][i]? = some v → c.arg i = v := by
    intro i v hi
    rw [Machine.arg, show 4 + 4 * i = 4 * (i + 1) by omega]
    exact h.slot hi
  refine ⟨harg 0 nr rfl, ?_⟩
  rw [Machine.regArgs, harg 1 ebp rfl, harg 2 edi rfl, harg 3 esi rfl, harg 4 gs rfl, harg 6 ebx rfl,
    harg 7 ecx rfl, harg 8 edx rfl, harg 10 fs rfl, harg 11 es rfl, harg 12 ds rfl, harg 13 eip rfl,
    harg 14 cs rfl, harg 15 eflags rfl, harg 16 esp rfl, harg 17 ss rfl]

/-- `copy_process` takes its parameters from the stack and makes a task of them, in the system that
its call leaves. -/
theorem OnStack.callCopy {ebp edi esi gs ret ebx ecx edx orig fs es ds eip cs eflags esp ss : BitVec 32}
    (h : OnStack s x [BitVec.ofNat 32 nr, ebp, edi, esi, gs, ret, ebx, ecx, edx, orig, fs, es, ds, eip, cs,
      eflags, esp, ss] c) (hres : Resident w0 s loc) (ht : loc t = some x) (hcur : s.current = wordAddr x)
    (hslot : s.Available nr) (hto : 1#32 &&& s.mm.word (16 * nr) = 0) (k : Linkage) (a : BitVec 32) :
    ∃ c' s', c.call a (Machine.copyProcess k) = .ok c' ∧
      (c.push a).sys.copyProcess nr { ebx, ecx, edx, esi, edi, ebp, esp, eip, eflags, cs, ss, ds, es, fs, gs } =
        .ok (s', s.lastPid) ∧ StackOnly x s' c'.sys ∧
      Stack x [BitVec.ofNat 32 nr, ebp, edi, esi, gs, ret, ebx, ecx, edx, orig, fs, es, ds, eip, cs, eflags, esp,
        ss] c' ∧ c'.sys.current = wordAddr x ∧ c'.eax = s.lastPid ∧ SameRegs c c' ∧
      ForkedTask c'.sys nr { ebx, ecx, edx, esi, edi, ebp, esp, eip, eflags, cs, ss, ds, es, fs, gs } s.lastPid := by
  have hpushed := h.push a (by simp)
  have hres' := hpushed.resident hres ht
  have hrest := hpushed.only.rest
  have hhigh := hslot.high
  have h64 : nrTasks = 64 := rfl
  rcases hpushed.toStack.copyArgs with ⟨harg0, hregs⟩
  have hnr : (BitVec.ofNat 32 nr).toNat = nr := by
    rw [BitVec.toNat_ofNat, Nat.mod_eq_of_lt (by omega)]
  have hcur' : (c.push a).sys.current = wordAddr x := by
    rw [hrest]
    exact hcur
  have hpid : (c.push a).sys.lastPid = s.lastPid := by rw [hrest]
  have hcn : loc ⟨nr, hhigh⟩ = none :=
    (hres.tasks.slot_eq_zero (t := ⟨nr, hhigh⟩)).mp hslot.free
  have hc0 : (⟨nr, hhigh⟩ : Fin 64) ≠ 0 := Fin.pos_iff_ne_zero.mp hslot.pos
  have hto' : 1#32 &&& (c.push a).sys.mm.word (16 * nr) = 0 := by
    have hlow := h.low
    rw [hpushed.only.word _ (by omega)]
    exact hto
  have hpages : 3 ≤ (c.push a).sys.mm.freePages.card := by
    rw [Memory.freePages_congr hpushed.only.map]
    exact hslot.pages
  rcases hres'.tasks.copyProcess (c := ⟨nr, hhigh⟩) ht hcur' hc0 hcn
    { ebx, ecx, edx, esi, edi, ebp, esp, eip, eflags, cs, ss, ds, es, fs, gs } hto' hpages with
    ⟨f, m, old, s', hfresh, hcall, hforked, hset, htasks, -, hchild⟩
  have hcurs : s'.current = wordAddr x := by
    rw [hforked.rest]
    exact hcur'
  rcases h.toStack.callC (by simp) k (fun c => c.sys.copyProcess (c.arg 0).toNat c.regArgs)
    (by rw [harg0, hregs, hnr]; exact hcall) hcurs
    (fun j hj hj' _ => hforked.kept hres'.tasks.structs ht ht hj' (by omega)) with
    ⟨c', hcall', hst, honly, heax, hsame⟩
  refine ⟨c', s', hcall', by rw [← hpid]; exact hcall, honly, hst, ?_, by rw [heax, hpid], hsame, ?_⟩
  · rw [honly.rest]
    exact hcurs
  · rw [← hpid]
    exact forkedTask hres'.tasks.structs ht hcur' hfresh hforked hset htasks hchild honly

theorem OnStack.pushParams (h : OnStack s x vs c) (hroom : vs.length < 730) (k : Linkage) :
    ∃ (g : BitVec 16) (c' : Machine), c.pushParams k = c' ∧
      OnStack s x (c.eax :: c.ebp :: c.edi :: c.esi :: (g ++ c.gs) :: vs) c' ∧ Moved c c' := by
  rcases h.pushed (k.upper c ++ c.gs) (by omega) with ⟨d1, e1, hd1, m1⟩
  rcases hd1.pushed d1.esi (by simp only [List.length_cons]; omega) with ⟨d2, e2, hd2, m2⟩
  rcases hd2.pushed d2.edi (by simp only [List.length_cons]; omega) with ⟨d3, e3, hd3, m3⟩
  rcases hd3.pushed d3.ebp (by simp only [List.length_cons]; omega) with ⟨d4, e4, hd4, m4⟩
  rcases hd4.pushed d4.eax (by simp only [List.length_cons]; omega) with ⟨d5, e5, hd5, m5⟩
  rw [m1.esi, (m1.trans m2).edi, ((m1.trans m2).trans m3).ebp, (((m1.trans m2).trans m3).trans m4).eax] at hd5
  refine ⟨k.upper c, d5, ?_, hd5, (((m1.trans m2).trans m3).trans m4).trans m5⟩
  rw [← e5, ← e4, ← e3, ← e2, ← e1]
  rfl

/-- A `fork` by the task `t`, at word `x`, with changes of its stack before and after it. -/
def ForksWithin (x t : Nat) (s s' : ForkSys) : Prop :=
  ∃ r s₁ s₂, StackOnly x s s₁ ∧ ForkCall (t, r) s₁ s₂ ∧ StackOnly x s₂ s'

/-- `find_empty_process` and `copy_process` are a `fork` when they come one after the other. -/
theorem OnStack.forkCall {pid : BitVec 32} {s' : ForkSys} {r : Regs} (h : OnStack { s with lastPid := pid } x vs c)
    (hres : Resident w0 s loc) (ht : loc t = some x) (hcur : s.current = wordAddr x) (hnr : nr < nrTasks)
    (hfind : s.findEmptyProcess = .ok ({ s with lastPid := pid }, BitVec.ofNat 32 nr))
    (hcopy : c.sys.copyProcess nr r = .ok (s', pid)) :
    ∃ s₁, StackOnly x s s₁ ∧ ForkCall (t, r) s₁ s' := by
  have h64 : nrTasks = 64 := rfl
  have hb := hres.tasks.structs.loc_bounds ht
  have htask := hres.tasks.structs.task_eq ht
  have hsys : c.sys = { s with mm := c.sys.mm, lastPid := pid } := h.only.rest
  have honly : StackOnly x s { s with mm := c.sys.mm } := ⟨rfl, h.only.map, h.only.word⟩
  have hst : OnStack s x vs { c with sys := { s with mm := c.sys.mm } } :=
    ⟨⟨h.low, h.high, h.room, h.esp, h.holds⟩, honly⟩
  have hremap : ({ s with mm := c.sys.mm } : ForkSys).findEmptyProcess = .ok (c.sys, BitVec.ofNat 32 nr) := by
    rw [hsys]
    exact ForkSys.findEmptyProcess_remap (fun pid => hst.pidTaken hres ht pid) hfind
  have hneg : ¬ (BitVec.ofNat 32 nr).slt 0 = true := by
    rw [BitVec.slt_iff_toInt_lt, BitVec.toInt_eq_toNat_of_lt (by rw [BitVec.toNat_ofNat]; omega)]
    show ¬ (((BitVec.ofNat 32 nr).toNat : Int) < 0)
    omega
  have hnat : (BitVec.ofNat 32 nr).toNat = nr := by
    rw [BitVec.toNat_ofNat, Nat.mod_eq_of_lt (by omega)]
  have hself : ({ ({ s with mm := c.sys.mm } : ForkSys) with current := s.task t } : ForkSys) =
      { s with mm := c.sys.mm } := by
    rw [htask, ← hcur]
  refine ⟨_, honly, ⟨t.isLt, ?_⟩, ?_⟩
  · show s.task t ≠ 0
    rw [htask]
    exact wordAddr_ne_zero (by omega) (by omega)
  · have hfork : ({ s with mm := c.sys.mm } : ForkSys).sysFork r = .ok (s', pid) := by
      rw [ForkSys.sysFork, hremap]
      show (if (BitVec.ofNat 32 nr).slt 0 = true then _ else _) = _
      rw [if_neg hneg, hnat, hcopy]
    show ForkSys.exec (.fork t r) { s with mm := c.sys.mm } = some s'
    simp only [ForkSys.exec, hself, hfork]

/-- `sys_fork` up to its call of `copy_process`, with the parameters of it on the stack. -/
theorem OnStack.forkParams (h : OnStack s x vs c) (hroom : vs.length < 730) (hres : Resident w0 s loc)
    (ht : loc t = some x) (hcur : s.current = wordAddr x) (hslot : s.Available nr) (k : Linkage) :
    ∃ (pid : BitVec 32) (g : BitVec 16) (d : Machine), pid.toNat < 2147483648 ∧
      s.findEmptyProcess = .ok ({ s with lastPid := pid }, BitVec.ofNat 32 nr) ∧
      c.sysFork k = (d.call k.afterCopy (Machine.copyProcess k)).bind (fun e => .ok (e.drop 20).ret) ∧
      OnStack { s with lastPid := pid } x (BitVec.ofNat 32 nr :: c.ebp :: c.edi :: c.esi :: (g ++ c.gs) :: vs) d ∧
      SameRegs c d := by
  have hhigh := hslot.high
  have h64 : nrTasks = 64 := rfl
  have hcli : OnStack s x vs c.cli := h.congr rfl rfl
  rcases hcli.callFind (by omega) hres ht hcur hslot k k.afterFind with
    ⟨pid, c1, hcall, hpid, hfind, h1, heax1, hsame1⟩
  have hsame : SameRegs c c1 := ⟨hsame1.esi, hsame1.edi, hsame1.ebp, hsame1.gs⟩
  rcases h1.pushParams hroom k with ⟨g, d, hparams, hd, hmoved⟩
  rw [heax1, hsame.ebp, hsame.edi, hsame.esi, hsame.gs] at hd
  have hneg : ¬ c1.eax.slt 0 = true := by
    rw [heax1, BitVec.slt_iff_toInt_lt, BitVec.toInt_eq_toNat_of_lt (by rw [BitVec.toNat_ofNat]; omega)]
    show ¬ (((BitVec.ofNat 32 nr).toNat : Int) < 0)
    omega
  refine ⟨pid, g, d, hpid, hfind, ?_, hd, hsame.trans hmoved.toSameRegs⟩
  rw [Machine.sysFork, hcall]
  show (if c1.eax.slt 0 = true then _ else _) = _
  rw [if_neg hneg, hparams]
  rfl

/-- `sys_fork` makes a task with the registers that are on the stack and those that are not. -/
theorem OnStack.sysFork {ret ebx ecx edx orig fs es ds eip cs eflags esp ss : BitVec 32}
    (h : OnStack s x [ret, ebx, ecx, edx, orig, fs, es, ds, eip, cs, eflags, esp, ss] c) (hres : Resident w0 s loc)
    (ht : loc t = some x) (hcur : s.current = wordAddr x) (hslot : s.Available nr)
    (hto : 1#32 &&& s.mm.word (16 * nr) = 0) (k : Linkage) :
    ∃ (g : BitVec 16) (c' : Machine), c.sysFork k = .ok c' ∧ ForksWithin x t s c'.sys ∧
      Stack x [ebx, ecx, edx, orig, fs, es, ds, eip, cs, eflags, esp, ss] c' ∧ c'.eip = ret ∧ SameRegs c c' ∧
      ForkedTask c'.sys nr
        { ebx, ecx, edx, esp, eip, eflags, cs, ss, ds, es, fs,
          esi := c.esi, edi := c.edi, ebp := c.ebp, gs := g ++ c.gs } c'.eax := by
  rcases h.forkParams (by simp) hres ht hcur hslot k with ⟨pid, g, d, hpid, hfind, hrun, hd, hsame⟩
  have hres1 : Resident w0 { s with lastPid := pid } loc :=
    ⟨hres.tasks.switch s.current hpid, hres.esp0, hres.running⟩
  rcases hd.callCopy hres1 ht hcur { hslot with } hto k k.afterCopy with
    ⟨c2, s', hcall, hcopy, honly, h2, hcur2, heax2, hsame2, htask⟩
  rcases (hd.push k.afterCopy (by simp)).forkCall hres ht hcur hslot.high hfind hcopy with ⟨s₁, hbefore, hforked⟩
  have hdrop : Stack x [ret, ebx, ecx, edx, orig, fs, es, ds, eip, cs, eflags, esp, ss] (c2.drop 20) := by
    refine h2.drop.drop.drop.drop.drop.congr ?_ rfl
    show c2.esp + 20 = c2.esp + 4 + 4 + 4 + 4 + 4
    simp only [BitVec.add_assoc]
    rfl
  rcases hdrop.pop (g := fun c v => { c with eip := v }) fun _ => ⟨rfl, rfl⟩ with ⟨c3, hret, heq, h3⟩
  have hrun' : c.sysFork k = .ok c3 := by
    rw [hrun, hcall]
    exact congrArg Except.ok hret
  have hall := hsame.trans hsame2
  subst heq
  refine ⟨g, _, hrun', ⟨_, s₁, s', hbefore, hforked, honly⟩, h3, rfl, ⟨hall.esi, hall.edi, hall.ebp, hall.gs⟩, ?_⟩
  show ForkedTask c2.sys nr _ c2.eax
  rw [heax2]
  exact htask

/-- It does not return if the directory entry of the child is taken. -/
theorem OnStack.sysFork_exists {ret ebx ecx edx orig fs es ds eip cs eflags esp ss : BitVec 32}
    (h : OnStack s x [ret, ebx, ecx, edx, orig, fs, es, ds, eip, cs, eflags, esp, ss] c) (hres : Resident w0 s loc)
    (ht : loc t = some x) (hcur : s.current = wordAddr x) (hslot : s.Available nr)
    (hto : 1#32 &&& s.mm.word (16 * nr) ≠ 0) (k : Linkage) : ∃ e, c.sysFork k = .error e := by
  have hlow := h.low
  have hhigh := hslot.high
  have h64 : nrTasks = 64 := rfl
  rcases h.forkParams (by simp) hres ht hcur hslot k with ⟨pid, g, d, hpid, -, hrun, hd, -⟩
  have hres1 : Resident w0 { s with lastPid := pid } loc :=
    ⟨hres.tasks.switch s.current hpid, hres.esp0, hres.running⟩
  have hpushed := hd.push k.afterCopy (by simp)
  rcases hpushed.toStack.copyArgs with ⟨harg0, hregs⟩
  have hnr : (BitVec.ofNat 32 nr).toNat = nr := by
    rw [BitVec.toNat_ofNat, Nat.mod_eq_of_lt (by omega)]
  have hcur' : (d.push k.afterCopy).sys.current = wordAddr x := by
    rw [hpushed.only.rest]
    exact hcur
  have hpages := hslot.pages
  rcases (hpushed.resident hres1 ht).tasks.copyProcess_exists (c := ⟨nr, hhigh⟩) ht hcur'
    (d.push k.afterCopy).regArgs
    (by rw [Memory.freePages_congr hpushed.only.map]; exact Finset.card_pos.mp (Nat.lt_of_lt_of_le (by decide) hpages))
    (by rw [hpushed.only.word _ (by omega)]; exact hto) with ⟨e, hcopy⟩
  have hbody : (d.push k.afterCopy).sys.copyProcess ((d.push k.afterCopy).arg 0).toNat (d.push k.afterCopy).regArgs =
      .error e := by
    rw [harg0, hnr]
    exact hcopy
  have hcall : d.call k.afterCopy (Machine.copyProcess k) = .error (.halt e) :=
    Stack.call_error (Stack.cFunction_error hbody)
  refine ⟨.halt e, ?_⟩
  rw [hrun, hcall]
  rfl

theorem OnStack.pushRegs (h : OnStack s x vs c) (hroom : vs.length < 728) (k : Linkage) :
    ∃ (f e d : BitVec 16) (c' : Machine), c.pushRegs k = c' ∧
      OnStack s x (c.ebx :: c.ecx :: c.edx :: c.eax :: (f ++ c.fs) :: (e ++ c.es) :: (d ++ c.ds) :: vs) c' ∧
      Moved c c' := by
  rcases h.pushed (k.upper c ++ c.ds) (by omega) with ⟨d1, e1, hd1, m1⟩
  rcases hd1.pushed (k.upper d1 ++ d1.es) (by simp only [List.length_cons]; omega) with ⟨d2, e2, hd2, m2⟩
  rcases hd2.pushed (k.upper d2 ++ d2.fs) (by simp only [List.length_cons]; omega) with ⟨d3, e3, hd3, m3⟩
  rcases hd3.pushed d3.eax (by simp only [List.length_cons]; omega) with ⟨d4, e4, hd4, m4⟩
  rcases hd4.pushed d4.edx (by simp only [List.length_cons]; omega) with ⟨d5, e5, hd5, m5⟩
  rcases hd5.pushed d5.ecx (by simp only [List.length_cons]; omega) with ⟨d6, e6, hd6, m6⟩
  rcases hd6.pushed d6.ebx (by simp only [List.length_cons]; omega) with ⟨d7, e7, hd7, m7⟩
  have n2 := m1.trans m2
  have n3 := n2.trans m3
  have n4 := n3.trans m4
  have n5 := n4.trans m5
  have n6 := n5.trans m6
  rw [m1.es, n2.fs, n3.eax, n4.edx, n5.ecx, n6.ebx] at hd7
  refine ⟨k.upper d2, k.upper d1, k.upper c, d7, ?_, hd7, n6.trans m7⟩
  rw [← e7, ← e6, ← e5, ← e4, ← e3, ← e2, ← e1]
  rfl

/-- `int $0x80` in user mode begins the kernel stack of the task anew. -/
theorem int80_onStack {u : Machine} (hres : Resident w0 u.sys loc) (ht : loc t = some x)
    (hcur : u.sys.current = wordAddr x) (huser : u.cs &&& 3 ≠ 0) (k : Linkage) :
    ∃ (a b : BitVec 16) (c : Machine), u.int80 k = c ∧
      OnStack u.sys x [u.eip, a ++ u.cs, u.eflags, u.esp, b ++ u.ss] c ∧ Moved u c := by
  have hb := hres.tasks.structs.loc_bounds ht
  obtain ⟨d, hd⟩ : ∃ d : Machine, { u with
    ss := (u.sys.get u.sys.current Tss.ss0).setWidth 16
    esp := u.sys.get u.sys.current Tss.esp0 } = d := ⟨_, rfl⟩
  have hesp : u.sys.get u.sys.current Tss.esp0 = wordAddr (x + 1024) := by
    rw [hcur, ForkSys.get_word 237 (by decide) (by decide) (by omega), hres.esp0 t x ht, BitVec.add_comm]
    exact wordAddr_add x 1024
  have h0 : OnStack u.sys x [] d := by
    rw [← hd]
    exact ⟨⟨hb.1, hb.2, Nat.zero_le _, hesp, trivial⟩, StackOnly.refl x u.sys⟩
  have m0 : Moved u d := by
    rw [← hd]
    exact ⟨⟨rfl, rfl, rfl, rfl⟩, rfl, rfl, rfl, rfl, rfl, rfl, rfl⟩
  rcases h0.pushed (k.upper d ++ u.ss) (by simp) with ⟨d1, e1, hd1, m1⟩
  rcases hd1.pushed u.esp (by simp) with ⟨d2, e2, hd2, m2⟩
  rcases hd2.pushed u.eflags (by simp) with ⟨d3, e3, hd3, m3⟩
  rcases hd3.pushed (k.upper d3 ++ u.cs) (by simp) with ⟨d4, e4, hd4, m4⟩
  rcases hd4.pushed u.eip (by simp) with ⟨d5, e5, hd5, m5⟩
  have n5 := ((((m0.trans m1).trans m2).trans m3).trans m4).trans m5
  refine ⟨k.upper d3, k.upper d, { d5 with
    cs := 0x08, eip := k.systemCall, eflags := u.eflags &&& ~~~0x34100 }, ?_, hd5.congr rfl rfl,
    ⟨n5.esi, n5.edi, n5.ebp, n5.gs⟩, n5.eax, n5.ebx, n5.ecx, n5.edx, n5.ds, n5.es, n5.fs⟩
  rw [Machine.int80, if_neg huser, ← e5, ← e4, ← e3, ← e2, ← e1, ← hd]
  rfl

/-- `int $0x80` with 2 in EAX comes to a call of `sys_fork`, with the registers of the user on the
stack. -/
theorem int80_sysFork {u : Machine} (hres : Resident w0 u.sys loc) (ht : loc t = some x)
    (hcur : u.sys.current = wordAddr x) (huser : u.cs &&& 3 ≠ 0) (heax : u.eax = 2) (k : Linkage) :
    ∃ (f e d' a b : BitVec 16) (d : Machine),
      (u.int80 k).systemCall k = d.call k.afterCall (Machine.sysFork k) ∧
      OnStack u.sys x [u.ebx, u.ecx, u.edx, u.eax, f ++ u.fs, e ++ u.es, d' ++ u.ds, u.eip, a ++ u.cs, u.eflags, u.esp,
        b ++ u.ss] d ∧ SameRegs u d := by
  rcases int80_onStack hres ht hcur huser k with ⟨a, b, c, hint, h0, hmoved⟩
  rcases h0.pushRegs (by simp) k with ⟨f, e, d', d, hpush, hd, hmoved'⟩
  rw [hmoved.ebx, hmoved.ecx, hmoved.edx, hmoved.eax, hmoved.fs, hmoved.es, hmoved.ds] at hd
  have hregs := hmoved.trans hmoved'
  have htable : Machine.sysCallTable k (4 * d.kernelSegments.eax) = Machine.sysFork k := by
    have heax' : d.kernelSegments.eax = 2 := hregs.eax.trans heax
    rw [heax']
    exact if_pos rfl
  refine ⟨f, e, d', a, b, d.kernelSegments, ?_, hd.congr rfl rfl, hregs.esi, hregs.edi, hregs.ebp, hregs.gs⟩
  rw [Machine.systemCall, hint, hpush, htable]

/-- `pop` of a segment register. -/
theorem slot_selector (a b : BitVec 16) : (a ++ b : BitVec 32).setWidth 16 = b := by
  apply BitVec.eq_of_getLsbD_eq
  intro i hi
  rw [BitVec.getLsbD_setWidth, BitVec.getLsbD_append]
  simp [hi]

theorem slot_low (a b : BitVec 16) : (a ++ b : BitVec 32) &&& 0xffff = b.setWidth 32 := by
  apply BitVec.eq_of_toNat_eq
  have hb := b.isLt
  have hlow := congrArg BitVec.toNat (slot_selector a b)
  rw [BitVec.toNat_setWidth] at hlow
  rw [Bits.toNat_and_mask _ 0 16 rfl, BitVec.toNat_setWidth]
  omega

/-- The TSS of a task that was made with the registers of `u`, whatever the upper halves of the
slots of its selectors were. -/
theorem ForkedTask.childTss {u : Machine} {pid : BitVec 32} {c' s' d' e' f' g' : BitVec 16}
    (h : ForkedTask s nr
      { ebx := u.ebx, ecx := u.ecx, edx := u.edx, esi := u.esi, edi := u.edi, ebp := u.ebp, esp := u.esp,
        eip := u.eip, eflags := u.eflags, cs := c' ++ u.cs, ss := s' ++ u.ss, ds := d' ++ u.ds, es := e' ++ u.es,
        fs := f' ++ u.fs, gs := g' ++ u.gs } pid) : ChildTss s nr u where
  ebx := h.field Tss.ebx u.ebx (by decide) (by decide) fun _ => by simp [ForkSys.childFields]
  ecx := h.field Tss.ecx u.ecx (by decide) (by decide) fun _ => by simp [ForkSys.childFields]
  edx := h.field Tss.edx u.edx (by decide) (by decide) fun _ => by simp [ForkSys.childFields]
  esi := h.field Tss.esi u.esi (by decide) (by decide) fun _ => by simp [ForkSys.childFields]
  edi := h.field Tss.edi u.edi (by decide) (by decide) fun _ => by simp [ForkSys.childFields]
  ebp := h.field Tss.ebp u.ebp (by decide) (by decide) fun _ => by simp [ForkSys.childFields]
  esp := h.field Tss.esp u.esp (by decide) (by decide) fun _ => by simp [ForkSys.childFields]
  eip := h.field Tss.eip u.eip (by decide) (by decide) fun _ => by simp [ForkSys.childFields]
  eflags := h.field Tss.eflags u.eflags (by decide) (by decide) fun _ => by simp [ForkSys.childFields]
  cs := (h.field Tss.cs _ (by decide) (by decide) fun _ => by simp [ForkSys.childFields]).trans (slot_low c' u.cs)
  ss := (h.field Tss.ss _ (by decide) (by decide) fun _ => by simp [ForkSys.childFields]).trans (slot_low s' u.ss)
  ds := (h.field Tss.ds _ (by decide) (by decide) fun _ => by simp [ForkSys.childFields]).trans (slot_low d' u.ds)
  es := (h.field Tss.es _ (by decide) (by decide) fun _ => by simp [ForkSys.childFields]).trans (slot_low e' u.es)
  fs := (h.field Tss.fs _ (by decide) (by decide) fun _ => by simp [ForkSys.childFields]).trans (slot_low f' u.fs)
  gs := (h.field Tss.gs _ (by decide) (by decide) fun _ => by simp [ForkSys.childFields]).trans (slot_low g' u.gs)
  eax := h.field Tss.eax 0 (by decide) (by decide) fun _ => by simp [ForkSys.childFields]
  ss0 := h.field Tss.ss0 0x10 (by decide) (by decide) fun _ => by simp [ForkSys.childFields]
  esp0 := (h.field Tss.esp0 (4096 + s.task nr) (by decide) (by decide) fun _ => by simp [ForkSys.childFields]).trans
    (BitVec.add_comm _ _)
  ldt := h.field Tss.ldt _ (by decide) (by decide) fun _ => by simp [ForkSys.childFields]
  ownStack := h.ownStack

end Entry

/-! ## The first fork -/

/-- The first slot is available at the start. -/
theorem Boot.start_available (b : Boot) : b.start.Available 1 where
  pos := Nat.le_refl 1
  high := by decide
  free := rfl
  first j hj hj1 := absurd hj1 (Nat.not_lt_of_le hj)
  pages := by
    have hle := taskCount_le b.loc
    have hpages := b.start_forkSane.pages
    omega

/-- Task 0 at the `int $0x80` of its first `fork`. -/
def firstFork : Machine where
  eax := 2
  ebx := 0x11111111
  ecx := 0x22222222
  edx := 0x33333333
  esi := 0x44444444
  edi := 0x55555555
  ebp := 0x66666666
  esp := 0x9fff0
  eip := 0x7000
  eflags := 0x202
  cs := 0x0f
  ss := 0x17
  ds := 0x17
  es := 0x17
  fs := 0x17
  gs := 0x17
  sys := Boot.blank.start

end MockOs.Kernel
