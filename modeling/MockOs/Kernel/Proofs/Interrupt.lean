import MockOs.Kernel.Interrupt
import MockOs.Kernel.Proofs.Hd
import MockOs.Kernel.Proofs.Return
import MockOs.Kernel.Proofs.Traps

/-!
# Interrupts go unnoticed

The kernel code at an instruction is described by its registers, by the words in use of the stack
and by what is known of the system. The handlers of the timer and of the disk leave the registers
and the stack as they were, and the system one in which the same is known; so what is shown of the
other code, instruction by instruction, holds with interrupts in between.
-/

namespace MockOs.Kernel

open Mm Relation

/-! ## The kernel at an instruction -/

/-- Kernel code with the stack `vs` of the task at word `x` and, but for ESP and EIP, the
registers `r`; `H` is what is known of the system. -/
structure InKernel (H : ForkSys → Prop) (x : Nat) (vs : List (BitVec 32)) (r : Context) (c : Machine) : Prop where
  stack : Stack x vs c
  owned : Owned H x
  here : H c.sys
  eq : c = ({ r with esp := c.esp, eip := c.eip } : Context).machine c.sys

namespace InKernel

variable {H : ForkSys → Prop} {x : Nat} {v a : BitVec 32} {vs : List (BitVec 32)} {r : Context} {c c' : Machine}
  {k : Linkage}

theorem current (h : InKernel H x vs r c) : c.sys.current = wordAddr x := h.owned.current h.here

/-- The machine itself. -/
theorem cases (h : InKernel H x vs r c) : ∃ esp eip s, c = ({ r with esp, eip } : Context).machine s := ⟨_, _, _, h.eq⟩

/-- An instruction that sets registers. -/
theorem set (h : InKernel H x vs r c) (g : Machine → Machine) {r' : Context}
    (hg : ∀ esp eip s, g (({ r with esp, eip } : Context).machine s) = ({ r' with esp, eip } : Context).machine s) :
    InKernel H x vs r' (g c) := by
  have hstack := h.stack
  have hhere := h.here
  have howned := h.owned
  rcases h.cases with ⟨esp, eip, s, rfl⟩
  rw [hg]
  exact ⟨hstack.congr rfl rfl, howned, hhere, rfl⟩

theorem push (h : InKernel H x vs r c) (v : BitVec 32) (hroom : vs.length < 735) : InKernel H x (v :: vs) r (c.push v) := by
  rcases h.stack.push v hroom with ⟨hstack, honly⟩
  have howned := h.owned
  have hhere := howned.own h.here honly.own
  rcases h.cases with ⟨esp, eip, s, rfl⟩
  exact ⟨hstack, howned, hhere, rfl⟩

theorem drop (h : InKernel H x (v :: vs) r c) : InKernel H x vs r (c.drop 4) := by
  have hstack := h.stack.drop
  have howned := h.owned
  have hhere := h.here
  rcases h.cases with ⟨esp, eip, s, rfl⟩
  exact ⟨hstack, howned, hhere, rfl⟩

/-- `add esp, 8`. -/
theorem dropTwo (h : InKernel H x (v :: a :: vs) r c) : InKernel H x vs r (c.drop 8) := by
  have hstack := h.stack.drop.drop
  have hesp : c.esp + 8 = c.esp + 4 + 4 := by
    simp only [BitVec.add_assoc]
    rfl
  have howned := h.owned
  have hhere := h.here
  have heq : c.drop 8 = (c.drop 4).drop 4 := by
    rw [Machine.drop, hesp]
    rfl
  rw [heq]
  rcases h.cases with ⟨esp, eip, s, rfl⟩
  exact ⟨hstack, howned, hhere, rfl⟩

theorem pop (h : InKernel H x (v :: vs) r c) (g : Machine → BitVec 32 → Machine) {r' : Context}
    (hg : ∀ esp eip s, g (({ r with esp, eip } : Context).machine s) v = ({ r' with esp, eip } : Context).machine s) :
    InKernel H x vs r' (c.pop g) := by
  rw [Machine.pop, h.stack.slot_zero]
  exact h.drop.set (fun c => g c v) hg

/-- `xchg [esp], eax`. -/
theorem xchg (h : InKernel H x (v :: vs) r c) : InKernel H x (r.eax :: vs) { r with eax := v }
    { c with eax := c.slot 0, sys := { c.sys with mm := c.sys.mm.write c.esp c.eax } } := by
  have hroom := h.stack.room
  have hslot := h.stack.slot_zero
  rcases h.stack.drop.push r.eax (by simp at hroom; omega) with ⟨hstack, honly⟩
  have howned := h.owned
  have hhere := howned.own (s := (c.drop 4).sys) h.here honly.own
  have hesp : c.esp + 4 - 4 = c.esp := BitVec.add_sub_cancel c.esp 4
  have hpush : (c.drop 4).push r.eax = { c with sys := { c.sys with mm := c.sys.mm.write c.esp r.eax } } := by
    show ({ c with esp := c.esp + 4 - 4, sys := { c.sys with mm := c.sys.mm.write (c.esp + 4 - 4) r.eax } } : Machine) = _
    rw [hesp]
  rw [hpush] at hstack hhere
  rw [hslot]
  rcases h.cases with ⟨esp, eip, s, rfl⟩
  exact ⟨hstack.congr rfl rfl, howned, hhere, rfl⟩

/-- The task changes what it has for itself, but for the words in use of the stack. -/
theorem own (h : InKernel H x vs r c) {s : ForkSys} (hown : Own x c.sys s)
    (hword : ∀ j, 289 ≤ j → j < 1024 → s.mm.word (x + j) = c.sys.mm.word (x + j)) :
    InKernel H x vs r { c with sys := s } := by
  have hstack : Stack x vs { c with sys := s } := h.stack.remap rfl fun j hj hj' _ => hword j hj hj'
  have howned := h.owned
  have hhere := howned.own h.here hown
  rcases h.cases with ⟨esp, eip, s, rfl⟩
  exact ⟨hstack, howned, hhere, rfl⟩

/-- A word of the structure, which is not on the stack, is set. -/
theorem setField (h : InKernel H x vs r c) {o : BitVec 32} (ho : o = Off.state ∨ o = Off.signal) (w : BitVec 32) :
    InKernel H x vs r { c with sys := c.sys.set c.sys.current o w } := by
  have hhigh := h.stack.high
  have hfield : Field o ∧ (o.toNat / 4 = 0 ∨ o.toNat / 4 = 3) := by
    rcases ho with rfl | rfl <;> decide
  have hset : c.sys.set c.sys.current o w = { c.sys with mm := c.sys.mm.setWord (x + o.toNat / 4) w } := by
    rw [h.current, ForkSys.set_eq hfield.1 (by omega)]
  rw [hset]
  refine h.own ⟨rfl, rfl, fun z h0 h3 _ => Memory.setWord_word_ne ?_⟩ fun j hj _ => Memory.setWord_word_ne ?_
  · omega
  · omega

/-- A C function. -/
theorem cFunction (h : InKernel H x (a :: vs) r c) (k : Linkage) {f : Machine → Except Halt (ForkSys × BitVec 32)}
    {s : ForkSys} (hbody : f c = .ok (s, v)) (hhere : H s)
    (hstack : ∀ j, 289 ≤ j → j < 1024 → c.esp.toNat ≤ 4 * (x + j) → s.mm.word (x + j) = c.sys.mm.word (x + j)) :
    ∃ c', Machine.cFunction k f c = .ok c' ∧ c'.eip = a ∧
      InKernel H x vs { r with eax := v, ecx := k.ecx c, edx := k.edx c } c' := by
  rcases h.stack.cFunction k hbody (h.owned.current hhere) hstack with ⟨c', hcall, hs, honly, heip, -, -⟩
  refine ⟨c', hcall, heip, hs, h.owned, h.owned.own hhere honly.own, ?_⟩
  rw [Machine.cFunction, hbody] at hcall
  cases hcall
  rcases h.cases with ⟨esp, eip, s, rfl⟩
  rfl

/-- Two machines at the same place differ in nothing that is noticed, if they are at the same
instruction. -/
theorem unseen_of (h : InKernel H x vs r c) (h' : InKernel H x vs r c') (heip : c'.eip = c.eip) : c.Unseen c' := by
  have hlow := h.stack.low
  have hhigh := h.stack.high
  have hroom := h.stack.room
  have hbase : c.sys.current.toNat = 4 * x := by rw [h.current, toNat_wordAddr (by omega)]
  have htop : c.esp.toNat = 4 * (x + (1024 - vs.length)) := by rw [h.stack.esp, toNat_wordAddr (by omega)]
  refine ⟨?_, h'.current.trans h.current.symm, fun j hj hj' hin => ?_⟩
  · rw [h.eq, h'.eq, heip, h'.stack.esp, h.stack.esp]
    rfl
  · rw [hbase, Nat.mul_div_cancel_left x (by decide)]
    have hlt : x + j - (x + (1024 - vs.length)) < vs.length := by omega
    have hget := List.getElem?_eq_getElem hlt
    have h1 := h.stack.holds.word hget
    have h2 := h'.stack.holds.word hget
    rw [Nat.add_sub_cancel' (by omega)] at h1 h2
    exact h2.trans h1.symm

end InKernel

/-! ## Rules for the instructions -/

/-- What comes in between does not notice how the kernel is at an instruction, as long as the stack
has some room. -/
structure Steady (H : ForkSys → Prop) (env : Machine → Machine → Prop) (x n : Nat) : Prop where
  room : n ≤ 734
  stable : ∀ vs r, vs.length ≤ n → Code.Stable env (InKernel H x vs r)

theorem steady_eq (H : ForkSys → Prop) (x : Nat) : Steady H Eq x 734 := by
  refine ⟨Nat.le_refl _, ?_⟩
  rintro vs r _ c c' h rfl
  exact h

section Rules

open Code Machine

variable {H : ForkSys → Prop} {x n : Nat} {v : BitVec 32} {vs : List (BitVec 32)} {r : Context} {c : Machine}
  {k : Linkage} {env : Machine → Machine → Prop} {Q : Machine → Prop} {fs : List (Machine → Except Trap Machine)}
  {code : Code Trap Machine}

theorem Steady.set {g : Machine → Machine} (r' : Context) (hst : Steady H env x n) (hroom : vs.length ≤ n)
    (h : InKernel H x vs r c)
    (hg : ∀ esp eip s, g (({ r with esp, eip } : Context).machine s) = ({ r' with esp, eip } : Context).machine s)
    (hnext : ∀ c, InKernel H x vs r' c → (block fs code).Always env Q c) :
    (block (Code.op g :: fs) code).Always env Q c :=
  Always.op (hst.stable vs r hroom) h fun _ h => hnext _ (h.set g hg)

/-- A register gets a value, no matter which. -/
theorem Steady.load (g : Machine → BitVec 32 → Machine) (f : Machine → BitVec 32) (r' : BitVec 32 → Context)
    (hst : Steady H env x n) (hroom : vs.length ≤ n) (h : InKernel H x vs r c)
    (hg : ∀ v esp eip s, g (({ r with esp, eip } : Context).machine s) v = ({ r' v with esp, eip } : Context).machine s)
    (hnext : ∀ v c, InKernel H x vs (r' v) c → (block fs code).Always env Q c) :
    (block (Code.op (fun c => g c (f c)) :: fs) code).Always env Q c :=
  Always.op (hst.stable vs r hroom) h fun c h => hnext (f c) _ (h.set (fun d => g d (f c)) (hg (f c)))

theorem Steady.push (f : Context → BitVec 32) (hst : Steady H env x n) (hroom : vs.length ≤ n)
    (h : InKernel H x vs r c) (hf : ∀ esp eip, f { r with esp, eip } = v)
    (hnext : ∀ c, InKernel H x (v :: vs) r c → (block fs code).Always env Q c) :
    (block (Code.op (fun c => c.push (f c.context)) :: fs) code).Always env Q c := by
  refine Always.op (hst.stable vs r hroom) h fun c h => hnext _ ?_
  have hv : f c.context = v := by
    rw [h.eq]
    exact hf _ _
  rw [hv]
  exact h.push v (by have := hst.room; omega)

theorem Steady.pushSeg (f : Context → BitVec 16) {b : BitVec 16} (hst : Steady H env x n) (hroom : vs.length ≤ n)
    (h : InKernel H x vs r c) (hf : ∀ esp eip, f { r with esp, eip } = b)
    (hnext : ∀ (u : BitVec 16) c, InKernel H x ((u ++ b) :: vs) r c → (block fs code).Always env Q c) :
    (block (Code.op (fun c => c.pushSeg k (f c.context)) :: fs) code).Always env Q c := by
  refine Always.op (hst.stable vs r hroom) h fun c h => hnext (k.upper c) _ ?_
  have hb : f c.context = b := by
    rw [h.eq]
    exact hf _ _
  rw [hb]
  exact h.push _ (by have := hst.room; omega)

/-- `movl current,%eax`. -/
theorem Steady.current (hst : Steady H env x n) (hroom : vs.length ≤ n) (h : InKernel H x vs r c)
    (hnext : ∀ c, InKernel H x vs { r with eax := wordAddr x } c → (block fs code).Always env Q c) :
    (block (Code.op (fun c => c.setEax c.sys.current) :: fs) code).Always env Q c := by
  refine Always.op (hst.stable vs r hroom) h fun c h => hnext _ ?_
  rw [h.current]
  exact h.set (fun c => c.setEax (wordAddr x)) fun _ _ _ => rfl

theorem Steady.pop (g : Machine → BitVec 32 → Machine) (r' : Context) (hst : Steady H env x n)
    (hroom : (v :: vs).length ≤ n) (h : InKernel H x (v :: vs) r c)
    (hg : ∀ esp eip s, g (({ r with esp, eip } : Context).machine s) v = ({ r' with esp, eip } : Context).machine s)
    (hnext : ∀ c, InKernel H x vs r' c → (block fs code).Always env Q c) :
    (block (Code.op (Machine.pop g) :: fs) code).Always env Q c :=
  Always.op (hst.stable (v :: vs) r hroom) h fun _ h => hnext _ (h.pop g hg)

/-- A call of a C function that leaves the stack alone. -/
theorem Steady.callC {a : BitVec 32} {body : Machine → Except Halt (ForkSys × BitVec 32)} (hst : Steady H env x n)
    (hroom : vs.length ≤ n) (h : InKernel H x vs r c)
    (hbody : ∀ c, InKernel H x (a :: vs) r c → ∃ s w, body c = .ok (s, w) ∧ H s ∧
      ∀ j, 289 ≤ j → j < 1024 → c.esp.toNat ≤ 4 * (x + j) → s.mm.word (x + j) = c.sys.mm.word (x + j))
    (hnext : ∀ eax ecx edx c, InKernel H x vs { r with eax, ecx, edx } c → (block fs code).Always env Q c) :
    (block ((fun c => c.call a (Machine.cFunction k body)) :: fs) code).Always env Q c := by
  refine Always.instr (hst.stable vs r hroom) h fun c h => ?_
  have hpushed := h.push a (by have := hst.room; omega)
  rcases hbody _ hpushed with ⟨s, w, heq, hcur, hstack⟩
  rcases hpushed.cFunction k heq hcur hstack with ⟨c', hcall, heip, h'⟩
  exact ⟨c', Stack.call_eq hcall heip, hnext _ _ _ _ h'⟩

end Rules

/-! ## The registers come off the stack -/

section Codes

open Code Machine

variable {H : ForkSys → Prop} {x n : Nat} {vs : List (BitVec 32)} {r r' : Context} {c : Machine} {k : Linkage}
  {v : Vectors} {env : Machine → Machine → Prop}

theorem restore_always {eax ebx ecx edx orig fs es ds : BitVec 32} (hst : Steady H env x n) (hroom : vs.length + 10 ≤ n)
    (h : InKernel H x (eax :: ebx :: ecx :: edx :: orig :: fs :: es :: ds :: vs) r c)
    (hr : { r with eax, ebx, ecx, edx, fs := fs.setWidth 16, es := es.setWidth 16, ds := ds.setWidth 16 } = r') :
    restoreCode.Always env (InKernel H x vs r') c := by
  simp only [restoreCode]
  refine hst.pop setEax { r with eax } (by simp; omega) h (fun _ _ _ => rfl) fun c h => ?_
  refine hst.pop setEbx { r with eax, ebx } (by simp; omega) h (fun _ _ _ => rfl) fun c h => ?_
  refine hst.pop setEcx { r with eax, ebx, ecx } (by simp; omega) h (fun _ _ _ => rfl) fun c h => ?_
  refine hst.pop setEdx { r with eax, ebx, ecx, edx } (by simp; omega) h (fun _ _ _ => rfl) fun c h => ?_
  refine Always.op (hst.stable _ _ (by simp; omega)) h fun c h => ?_
  refine hst.pop setFs { r with eax, ebx, ecx, edx, fs := fs.setWidth 16 } (by simp; omega) h.drop
    (fun _ _ _ => rfl) fun c h => ?_
  refine hst.pop setEs { r with eax, ebx, ecx, edx, fs := fs.setWidth 16, es := es.setWidth 16 } (by simp; omega) h
    (fun _ _ _ => rfl) fun c h => ?_
  refine hst.pop setDs r' (by simp; omega) h (fun _ _ _ => by rw [← hr]; rfl) fun c h => ?_
  exact Always.halt (hst.stable vs _ (by omega)) h fun _ h => h

/-- A signal that is dropped changes a word of the structure, which is not on the stack. -/
theorem dropSignal_always {eax ebx ecx edx orig fs es ds : BitVec 32} (nr : BitVec 32) (hst : Steady H env x n)
    (hroom : vs.length + 10 ≤ n) (hcur : r.eax = wordAddr x)
    (h : InKernel H x (eax :: ebx :: ecx :: edx :: orig :: fs :: es :: ds :: vs) r c)
    (hr : { r with eax, ebx, ecx, edx, fs := fs.setWidth 16, es := es.setWidth 16, ds := ds.setWidth 16 } = r') :
    (dropSignalCode nr).Always env (InKernel H x vs r') c := by
  simp only [dropSignalCode]
  refine hst.set { r with ecx := nr } (by simp; omega) h (fun _ _ _ => rfl) fun c h => ?_
  refine hst.set { r with ecx := nr, ebx := r.ebx &&& ~~~(1#32 <<< nr) } (by simp; omega) h (fun _ _ _ => rfl)
    fun c h => ?_
  refine Always.op (hst.stable _ _ (by simp; omega)) h fun c h => ?_
  have heax : c.eax = c.sys.current := by
    rw [h.current, h.eq]
    exact hcur
  have hset := h.setField (Or.inr rfl) c.ebx
  rw [← heax] at hset
  refine hst.set { r with ecx := nr + 1, ebx := r.ebx &&& ~~~(1#32 <<< nr) } (by simp; omega) hset
    (fun _ _ _ => rfl) fun c h => ?_
  refine hst.push Context.ecx (by simp; omega) h (fun _ _ => rfl) fun c h => ?_
  refine hst.pop setEcx { r with ecx := nr + 1, ebx := r.ebx &&& ~~~(1#32 <<< nr) } (by simp; omega) h
    (fun _ _ _ => rfl) fun c h => ?_
  exact restore_always hst hroom h hr

/-- `ret_from_sys_call` gives back the registers on the stack, with a signal or without. -/
theorem ret_always {eax ebx ecx edx orig fs es ds : BitVec 32} (hst : Steady H env x n) (hroom : vs.length + 10 ≤ n)
    (h : InKernel H x (eax :: ebx :: ecx :: edx :: orig :: fs :: es :: ds :: vs) r c)
    (hr : { r with eax, ebx, ecx, edx, fs := fs.setWidth 16, es := es.setWidth 16, ds := ds.setWidth 16 } = r') :
    retCode.Always env (InKernel H x vs r') c := by
  have hstable : ∀ r, Stable env (InKernel H x (eax :: ebx :: ecx :: edx :: orig :: fs :: es :: ds :: vs) r) :=
    fun r => hst.stable _ r (by simp; omega)
  simp only [retCode, signalCode, findSignalCode]
  refine hst.current (by simp; omega) h fun c h => ?_
  refine Always.cond (hstable _) h (fun c h _ => restore_always hst hroom h hr) fun c h _ => ?_
  refine Always.cond (hstable _) h (fun c h _ => restore_always hst hroom h hr) fun c h _ => ?_
  refine Always.cond (hstable _) h (fun c h _ => restore_always hst hroom h hr) fun c h _ => ?_
  refine hst.load setEbx _ (fun v => { r with eax := wordAddr x, ebx := v }) (by simp; omega) h (fun _ _ _ _ => rfl)
    fun ebx' c h => ?_
  refine hst.load setEcx _ (fun v => { r with eax := wordAddr x, ebx := ebx', ecx := v }) (by simp; omega) h
    (fun _ _ _ _ => rfl) fun _ c h => ?_
  refine hst.load setEcx (fun c => ~~~c.ecx) (fun v => { r with eax := wordAddr x, ebx := ebx', ecx := v })
    (by simp; omega) h (fun _ _ _ _ => rfl) fun _ c h => ?_
  refine hst.load setEcx (fun c => c.ecx &&& c.ebx) (fun v => { r with eax := wordAddr x, ebx := ebx', ecx := v })
    (by simp; omega) h (fun _ _ _ _ => rfl) fun _ c h => ?_
  refine Always.instr (hstable _) h fun c h => ⟨c, rfl, ?_⟩
  cases bsf c.ecx with
  | none => exact restore_always hst hroom h hr
  | some nr => exact dropSignal_always nr hst hroom rfl h hr

/-- `schedule` comes back to the task. -/
theorem scheduled (hk : k.Resumes H x) (hhere : H c.sys) :
    H (if otherRuns c.sys then k.away c else c.sys) ∧ ∀ j, 289 ≤ j → j < 1024 → c.esp.toNat ≤ 4 * (x + j) →
      (if otherRuns c.sys then k.away c else c.sys).mm.word (x + j) = c.sys.mm.word (x + j) := by
  split
  · exact hk c hhere ‹_›
  · exact ⟨hhere, fun _ _ _ _ => rfl⟩

/-- The handler of the disk comes back, to a system of which the same is known, with the kernel
stack as it was. -/
def Vectors.Answers (v : Vectors) (H : ForkSys → Prop) (x : Nat) : Prop :=
  ∀ c : Machine, H c.sys → ¬ (v.answer c).stopped ∧ H { c.sys with mm := setBytes (v.answer c).mem c.sys.mm } ∧
    ∀ j, 289 ≤ j → j < 1024 → (setBytes (v.answer c).mem c.sys.mm).word (x + j) = c.sys.mm.word (x + j)

/-- `timer_interrupt` gives back everything, also when another task runs in between. -/
theorem timer_always (hk : k.Resumes H x) (hst : Steady H env x n) (hroom : vs.length + 10 ≤ n) (h : InKernel H x vs r c) :
    (timerCode k v).Always env (InKernel H x vs r) c := by
  simp only [timerCode]
  refine hst.pushSeg Context.ds (by omega) h (fun _ _ => rfl) fun _ c h => ?_
  refine hst.pushSeg Context.es (by simp; omega) h (fun _ _ => rfl) fun _ c h => ?_
  refine hst.pushSeg Context.fs (by simp; omega) h (fun _ _ => rfl) fun _ c h => ?_
  refine hst.push (fun _ => -1) (by simp; omega) h (fun _ _ => rfl) fun c h => ?_
  refine hst.push Context.edx (by simp; omega) h (fun _ _ => rfl) fun c h => ?_
  refine hst.push Context.ecx (by simp; omega) h (fun _ _ => rfl) fun c h => ?_
  refine hst.push Context.ebx (by simp; omega) h (fun _ _ => rfl) fun c h => ?_
  refine hst.push Context.eax (by simp; omega) h (fun _ _ => rfl) fun c h => ?_
  refine hst.set { r with eax := 0x10 } (by simp; omega) h (fun _ _ _ => rfl) fun c h => ?_
  refine hst.set { r with eax := 0x10, ds := 0x10 } (by simp; omega) h (fun _ _ _ => rfl) fun c h => ?_
  refine hst.set { r with eax := 0x10, ds := 0x10, es := 0x10 } (by simp; omega) h (fun _ _ _ => rfl) fun c h => ?_
  refine hst.set { r with eax := 0x17, ds := 0x10, es := 0x10 } (by simp; omega) h (fun _ _ _ => rfl) fun c h => ?_
  refine hst.set { r with eax := 0x17, ds := 0x10, es := 0x10, fs := 0x17 } (by simp; omega) h (fun _ _ _ => rfl)
    fun c h => ?_
  refine Always.op (hst.stable _ _ (by simp; omega)) h fun c h => ?_
  refine hst.callC (by simp; omega) (h.own ⟨rfl, rfl, fun _ _ _ _ => rfl⟩ fun _ _ _ => rfl)
    (fun c h => ⟨c.sys, _, rfl, h.here, fun _ _ _ _ => rfl⟩) fun eax ecx edx c h => ?_
  refine hst.load (fun c v => c.setEax v) (fun c => (c.setAl 0x20).eax)
    (fun v => { r with eax := v, ecx, edx, ds := 0x10, es := 0x10, fs := 0x17 }) (by simp; omega) h
    (fun _ _ _ _ => rfl) fun _ c h => ?_
  refine hst.load (fun c v => c.setEax v) _
    (fun v => { r with eax := v, ecx, edx, ds := 0x10, es := 0x10, fs := 0x17 }) (by simp; omega) h
    (fun _ _ _ _ => rfl) fun _ c h => ?_
  refine hst.load (fun c v => c.setEax v) (fun c => c.eax &&& 3)
    (fun v => { r with eax := v, ecx, edx, ds := 0x10, es := 0x10, fs := 0x17 }) (by simp; omega) h
    (fun _ _ _ _ => rfl) fun _ c h => ?_
  refine hst.push Context.eax (by simp; omega) h (fun _ _ => rfl) fun c h => ?_
  refine hst.callC (by simp; omega) h (fun c h => ⟨_, _, rfl, scheduled hk h.here⟩) fun eax ecx edx c h => ?_
  refine Always.op (hst.stable _ _ (by simp; omega)) h fun c h => ?_
  refine ret_always hst hroom h.drop ?_
  rw [slot_selector, slot_selector, slot_selector]

/-- `hd_interrupt` gives back everything. -/
theorem hd_always (hv : v.Answers H x) (hst : Steady H env x n) (hroom : vs.length + 10 ≤ n) (h : InKernel H x vs r c) :
    (hdCode k v).Always env (InKernel H x vs r) c := by
  simp only [hdCode]
  refine hst.push Context.eax (by omega) h (fun _ _ => rfl) fun c h => ?_
  refine hst.push Context.ecx (by simp; omega) h (fun _ _ => rfl) fun c h => ?_
  refine hst.push Context.edx (by simp; omega) h (fun _ _ => rfl) fun c h => ?_
  refine hst.pushSeg Context.ds (by simp; omega) h (fun _ _ => rfl) fun ds c h => ?_
  refine hst.pushSeg Context.es (by simp; omega) h (fun _ _ => rfl) fun es c h => ?_
  refine hst.pushSeg Context.fs (by simp; omega) h (fun _ _ => rfl) fun fs c h => ?_
  refine hst.set { r with eax := 0x10 } (by simp; omega) h (fun _ _ _ => rfl) fun c h => ?_
  refine hst.set { r with eax := 0x10, ds := 0x10 } (by simp; omega) h (fun _ _ _ => rfl) fun c h => ?_
  refine hst.set { r with eax := 0x10, ds := 0x10, es := 0x10 } (by simp; omega) h (fun _ _ _ => rfl) fun c h => ?_
  refine hst.set { r with eax := 0x17, ds := 0x10, es := 0x10 } (by simp; omega) h (fun _ _ _ => rfl) fun c h => ?_
  refine hst.set { r with eax := 0x17, ds := 0x10, es := 0x10, fs := 0x17 } (by simp; omega) h (fun _ _ _ => rfl)
    fun c h => ?_
  refine hst.load (fun c v => c.setEax v) (fun c => (c.setAl 0x20).eax)
    (fun v => { r with eax := v, ds := 0x10, es := 0x10, fs := 0x17 }) (by simp; omega) h
    (fun _ _ _ _ => rfl) fun eax c h => ?_
  refine hst.set { r with eax, edx := 0, ds := 0x10, es := 0x10, fs := 0x17 } (by simp; omega) h (fun _ _ _ => rfl)
    fun c h => ?_
  refine hst.callC (by simp; omega) h (fun c h => ?_) fun eax ecx edx c h => ?_
  · rcases hv c h.here with ⟨hruns, hhere, hstack⟩
    exact ⟨_, _, if_neg hruns, hhere, fun j hj hj' _ => hstack j hj hj'⟩
  refine hst.pop setFs { r with eax, ecx, edx, ds := 0x10, es := 0x10 } (by simp; omega) h
    (fun _ _ _ => by rw [setFs, slot_selector]; rfl) fun c h => ?_
  refine hst.pop setEs { r with eax, ecx, edx, ds := 0x10 } (by simp; omega) h
    (fun _ _ _ => by rw [setEs, slot_selector]; rfl) fun c h => ?_
  refine hst.pop setDs { r with eax, ecx, edx } (by simp; omega) h
    (fun _ _ _ => by rw [setDs, slot_selector]; rfl) fun c h => ?_
  refine hst.pop setEdx { r with eax, ecx } (by simp; omega) h (fun _ _ _ => rfl) fun c h => ?_
  refine hst.pop setEcx { r with eax } (by simp; omega) h (fun _ _ _ => rfl) fun c h => ?_
  refine hst.pop setEax r (by simp; omega) h (fun _ _ _ => rfl) fun c h => ?_
  exact Always.halt (hst.stable vs r (by omega)) h fun _ h => h

/-- The registers come off the stack, whether another task runs first or not. -/
theorem exit_always {eax ebx ecx edx orig fs es ds : BitVec 32} (hk : k.Resumes H x) (hst : Steady H env x n)
    (hroom : vs.length + 10 ≤ n) (h : InKernel H x (eax :: ebx :: ecx :: edx :: orig :: fs :: es :: ds :: vs) r c)
    (hr : { r with eax, ebx, ecx, edx, fs := fs.setWidth 16, es := es.setWidth 16, ds := ds.setWidth 16 } = r') :
    (exitCode k).Always env (InKernel H x vs r') c := by
  have hstable : Stable env (InKernel H x (eax :: ebx :: ecx :: edx :: orig :: fs :: es :: ds :: vs) r) :=
    hst.stable _ r (by simp; omega)
  have hresched : ∀ c, InKernel H x (eax :: ebx :: ecx :: edx :: orig :: fs :: es :: ds :: vs) r c →
      (rescheduleCode k).Always env (InKernel H x vs r') c := by
    intro c h
    refine hst.callC (by simp; omega) h (fun c h => ⟨_, _, rfl, scheduled hk h.here⟩) fun eax ecx edx c h => ?_
    exact ret_always hst hroom h hr
  refine Always.cond hstable h (fun c h _ => hresched c h) fun c h _ => ?_
  exact Always.cond hstable h (fun c h _ => hresched c h) fun c h _ => ret_always hst hroom h hr

/-- A write fault, with a page that is free, leaves the same known of the system. -/
def Faults (H : ForkSys → Prop) (x : Nat) : Prop :=
  ∀ s, H s → s.mm.freePages.Nonempty → ∀ a, H { s with mm := doWpPage a s.mm } ∧
    ∀ j < 1024, (doWpPage a s.mm).word (x + j) = s.mm.word (x + j)

/-- `page_fault` gives back everything, if a page is free when it comes to the call of
`do_wp_page`. -/
theorem pageFault_always {err : BitVec 32} (hst : Steady H env x n) (hroom : vs.length + 12 ≤ n) (hfault : Faults H x)
    (hpages : ∀ c c', env c c' → c'.sys.mm.freePages.Nonempty)
    (h : InKernel H x (err :: vs) r c) : (pageFaultCode k v).Always env (InKernel H x vs r) c := by
  simp only [pageFaultCode]
  refine Always.op (hst.stable _ _ (by simp; omega)) h fun c h => ?_
  refine hst.push Context.ecx (by simp; omega) h.xchg (fun _ _ => rfl) fun c h => ?_
  refine hst.push Context.edx (by simp; omega) h (fun _ _ => rfl) fun c h => ?_
  refine hst.pushSeg Context.ds (by simp; omega) h (fun _ _ => rfl) fun _ c h => ?_
  refine hst.pushSeg Context.es (by simp; omega) h (fun _ _ => rfl) fun _ c h => ?_
  refine hst.pushSeg Context.fs (by simp; omega) h (fun _ _ => rfl) fun _ c h => ?_
  refine hst.set { r with eax := err, edx := 0x10 } (by simp; omega) h (fun _ _ _ => rfl) fun c h => ?_
  refine hst.set { r with eax := err, edx := 0x10, ds := 0x10 } (by simp; omega) h (fun _ _ _ => rfl) fun c h => ?_
  refine hst.set { r with eax := err, edx := 0x10, ds := 0x10, es := 0x10 } (by simp; omega) h (fun _ _ _ => rfl)
    fun c h => ?_
  refine hst.set { r with eax := err, edx := 0x10, ds := 0x10, es := 0x10, fs := 0x10 } (by simp; omega) h
    (fun _ _ _ => rfl) fun c h => ?_
  refine hst.load setEdx v.cr2 (fun address => { r with
    eax := err, edx := address, ds := 0x10, es := 0x10, fs := 0x10 }) (by simp; omega) h (fun _ _ _ _ => rfl)
    fun address c h => ?_
  refine hst.push Context.edx (by simp; omega) h (fun _ _ => rfl) fun c h => ?_
  refine hst.push Context.eax (by simp; omega) h (fun _ _ => rfl) fun c h => ?_
  intro d henv
  replace h := hst.stable _ _ (by simp; omega) c d h henv
  have hfree := hpages c d henv
  have hroom' := hst.room
  have honly := (h.stack.push v.afterWp (by simp; omega)).2
  replace h := h.push v.afterWp (by simp; omega)
  have hwp := hfault _ h.here (by rwa [Memory.freePages_congr honly.map]) ((d.push v.afterWp).arg 1)
  rcases h.cFunction k (f := fun c => .ok ({ c.sys with mm := doWpPage (c.arg 1) c.sys.mm }, k.eax c)) rfl hwp.1
    (fun j _ hj _ => hwp.2 j hj) with ⟨e, hcall, heip, h⟩
  refine ⟨e, Stack.call_eq hcall heip, ?_⟩
  refine Always.op (hst.stable _ _ (by simp; omega)) h fun c h => ?_
  refine hst.pop setFs { r with eax := k.eax _, ecx := k.ecx _, edx := k.edx _, ds := 0x10, es := 0x10 }
    (by simp; omega) h.dropTwo (fun _ _ _ => by rw [setFs, slot_selector]; rfl) fun c h => ?_
  refine hst.pop setEs { r with eax := k.eax _, ecx := k.ecx _, edx := k.edx _, ds := 0x10 } (by simp; omega) h
    (fun _ _ _ => by rw [setEs, slot_selector]; rfl) fun c h => ?_
  refine hst.pop setDs { r with eax := k.eax _, ecx := k.ecx _, edx := k.edx _ } (by simp; omega) h
    (fun _ _ _ => by rw [setDs, slot_selector]; rfl) fun c h => ?_
  refine hst.pop setEdx { r with eax := k.eax _, ecx := k.ecx _ } (by simp; omega) h (fun _ _ _ => rfl) fun c h => ?_
  refine hst.pop setEcx { r with eax := k.eax _ } (by simp; omega) h (fun _ _ _ => rfl) fun c h => ?_
  refine hst.pop setEax r (by simp; omega) h (fun _ _ _ => rfl) fun c h => ?_
  exact Always.halt (hst.stable vs r (by omega)) h fun _ h => h

/-- A function of `sys_call_table` with these parameters comes back, with a result with `R`. -/
def Serves (H : Nat → ForkSys → Prop) (f : Machine → Except Trap Machine) (ebx ecx edx : BitVec 32)
    (R : BitVec 32 → Prop) : Prop :=
  ∀ x a vs r c, InKernel (H x) x (a :: ebx :: ecx :: edx :: vs) r c → vs.length ≤ 16 →
    ∃ c', f c = .ok c' ∧ c'.eip = a ∧ R c'.eax ∧
      InKernel (H x) x (ebx :: ecx :: edx :: vs) { r with eax := c'.eax, ecx := c'.ecx, edx := c'.edx, eflags := c'.eflags } c'

/-- `system_call` gives back everything but EAX, which has the result, and the flags. -/
theorem systemCall_always {H : Nat → ForkSys → Prop} {R : BitVec 32 → Prop} (hk : k.Resumes (H x) x)
    (hst : Steady (H x) env x n) (hf : Serves H (sysCallTable k (4 * r.eax)) r.ebx r.ecx r.edx R)
    (hroom : vs.length + 10 ≤ n) (hvs : vs.length ≤ 12) (h : InKernel (H x) x vs r c) :
    (systemCallCode k).Always env
      (fun c => ∃ w fl, R w ∧ InKernel (H x) x vs { r with eax := w, eflags := fl } c) c := by
  simp only [systemCallCode, enterCode, List.cons_append, List.nil_append]
  refine hst.pushSeg Context.ds (by omega) h (fun _ _ => rfl) fun _ c h => ?_
  refine hst.pushSeg Context.es (by simp; omega) h (fun _ _ => rfl) fun _ c h => ?_
  refine hst.pushSeg Context.fs (by simp; omega) h (fun _ _ => rfl) fun _ c h => ?_
  refine hst.push Context.eax (by simp; omega) h (fun _ _ => rfl) fun c h => ?_
  refine hst.push Context.edx (by simp; omega) h (fun _ _ => rfl) fun c h => ?_
  refine hst.push Context.ecx (by simp; omega) h (fun _ _ => rfl) fun c h => ?_
  refine hst.push Context.ebx (by simp; omega) h (fun _ _ => rfl) fun c h => ?_
  refine hst.set { r with edx := 0x10 } (by simp; omega) h (fun _ _ _ => rfl) fun c h => ?_
  refine hst.set { r with edx := 0x10, ds := 0x10 } (by simp; omega) h (fun _ _ _ => rfl) fun c h => ?_
  refine hst.set { r with edx := 0x10, ds := 0x10, es := 0x10 } (by simp; omega) h (fun _ _ _ => rfl) fun c h => ?_
  refine hst.set { r with edx := 0x17, ds := 0x10, es := 0x10 } (by simp; omega) h (fun _ _ _ => rfl) fun c h => ?_
  refine hst.set { r with edx := 0x17, ds := 0x10, es := 0x10, fs := 0x17 } (by simp; omega) h (fun _ _ _ => rfl)
    fun c h => ?_
  refine Always.instr (hst.stable _ _ (by simp; omega)) h fun c h => ?_
  have heax : c.eax = r.eax := by
    rw [h.eq]
    rfl
  rcases hf x k.afterCall _ _ _ (h.push k.afterCall (by simp; omega)) (by simp; omega) with ⟨c', hcall, heip, hres, h⟩
  refine ⟨c', Stack.call_eq (by rw [heax]; exact hcall) heip, ?_⟩
  refine hst.push Context.eax (by simp; omega) h (fun _ _ => rfl) fun c h => ?_
  refine hst.current (by simp; omega) h fun c h => ?_
  refine (exit_always hk hst hroom h rfl).mono fun d hd => ⟨c'.eax, c'.eflags, hres, ?_⟩
  rw [slot_selector, slot_selector, slot_selector] at hd
  exact hd

/-- The system calls that do nothing come back with 0. -/
theorem sysNothing_serves (H : Nat → ForkSys → Prop) (k : Linkage) (ebx ecx edx : BitVec 32) :
    Serves H (sysNothing k) ebx ecx edx (· = 0) := by
  intro x a vs r c h _
  rcases h.cFunction k (f := fun c => .ok (c.sys, 0)) rfl h.here (fun _ _ _ _ => rfl) with ⟨c', hcall, heip, h'⟩
  have heq := h'.eq
  refine ⟨c', hcall, heip, by rw [heq]; rfl, ?_⟩
  rw [heq] at h' ⊢
  exact h'

/-- The task that pauses comes back when it runs again. -/
theorem sysPause_serves {H : Nat → ForkSys → Prop} (hk : ∀ x, k.Resumes (H x) x) (ebx ecx edx : BitVec 32) :
    Serves H (sysPause k) ebx ecx edx (· = 0) := by
  intro x a vs r c h _
  have hpaused := h.setField (Or.inl rfl) taskInterruptible
  obtain ⟨s, hs⟩ : ∃ s, c.sys.set c.sys.current Off.state taskInterruptible = s := ⟨_, rfl⟩
  rw [hs] at hpaused
  have hword : ∀ j, 289 ≤ j → j < 1024 → s.mm.word (x + j) = c.sys.mm.word (x + j) := by
    intro j hj _
    rw [← hs, h.current, ForkSys.set_eq (by decide) (by have := h.stack.high; omega)]
    exact Memory.setWord_word_ne (by rw [show Off.state.toNat / 4 = 0 from rfl]; omega)
  rcases scheduled (hk x) hpaused.here with ⟨hback, hword'⟩
  rcases h.cFunction k (v := 0) (f := fun c =>
    let s := c.sys.set c.sys.current Off.state taskInterruptible
    .ok (if otherRuns s then k.away { c with sys := s } else s, 0)) (by simp only [hs]) hback
    (fun j hj hj' hin => (hword' j hj hj' hin).trans (hword j hj hj')) with ⟨c', hcall, heip, h'⟩
  have heq := h'.eq
  refine ⟨c', hcall, heip, by rw [heq]; rfl, ?_⟩
  rw [heq] at h' ⊢
  exact h'

end Codes

/-! ## Into the kernel and out of it -/

section Frames

open Machine

variable {H : ForkSys → Prop} {x : Nat} {vs : List (BitVec 32)} {r : Context} {c u : Machine} {k : Linkage}
  {v : Vectors}

theorem interrupt_kernel (h : InKernel H x vs r u) (hcs : u.cs &&& 3 = 0) (hroom : vs.length + 3 ≤ 735) (k : Linkage)
    (entry mask : BitVec 32) :
    ∃ a : BitVec 16, InKernel H x (u.eip :: (a ++ r.cs) :: r.eflags :: vs)
      { r with cs := 8, eflags := r.eflags &&& ~~~mask } (u.interrupt k entry mask) := by
  have hregs : u.cs = r.cs ∧ u.eflags = r.eflags := by
    rw [h.eq]
    exact ⟨rfl, rfl⟩
  have h1 := h.push u.eflags (by omega)
  have h2 := h1.push (k.upper (u.push u.eflags) ++ u.cs) (by simp; omega)
  have h3 := h2.push u.eip (by simp; omega)
  rw [Machine.interrupt, if_pos hcs, ← hregs.1, ← hregs.2]
  refine ⟨k.upper (u.push u.eflags), h3.stack.congr rfl rfl, h3.owned, h3.here, ?_⟩
  rcases h.cases with ⟨esp, eip, s, rfl⟩
  rfl

theorem iret_kernel {eip cs eflags : BitVec 32} (h : InKernel H x (eip :: cs :: eflags :: vs) r c)
    (hcs : cs.setWidth 16 &&& 3 = (0 : BitVec 16)) :
    InKernel H x vs { r with cs := cs.setWidth 16, eflags } c.iret ∧ c.iret.eip = eip := by
  have h0 : c.slot 0 = eip := h.stack.slot (i := 0) rfl
  have h1 : c.slot 4 = cs := h.stack.slot (i := 1) rfl
  have h2 : c.slot 8 = eflags := h.stack.slot (i := 2) rfl
  have hstack := h.stack.drop.drop.drop
  have hesp : c.esp + 12 = c.esp + 4 + 4 + 4 := by
    simp only [BitVec.add_assoc]
    rfl
  have hiret : c.iret = { c with eip := eip, cs := cs.setWidth 16, eflags := eflags, esp := c.esp + 12 } := by
    simp only [Machine.iret, h0, h1, h2]
    rw [if_pos hcs]
  rw [hiret]
  refine ⟨⟨hstack.congr hesp rfl, h.owned, h.here, ?_⟩, rfl⟩
  rcases h.cases with ⟨esp, eip, s, rfl⟩
  rfl

/-- In user mode the kernel stack is begun anew. -/
theorem interrupt_user (hlow : 5120 ≤ x) (hhigh : x + 1024 ≤ 4194304) (hcs : u.cs &&& 3 ≠ 0)
    (howned : Owned H x) (hhere : H u.sys) (hesp : u.sys.get u.sys.current Tss.esp0 = wordAddr (x + 1024)) (k : Linkage)
    (entry mask : BitVec 32) :
    ∃ (a b ss : BitVec 16), InKernel H x [u.eip, a ++ u.cs, u.eflags, u.esp, b ++ u.ss]
      { u.context with cs := 8, eflags := u.eflags &&& ~~~mask, ss } (u.interrupt k entry mask) := by
  obtain ⟨d, hd⟩ : ∃ d : Machine, { u with
    ss := (u.sys.get u.sys.current Tss.ss0).setWidth 16
    esp := u.sys.get u.sys.current Tss.esp0 } = d := ⟨_, rfl⟩
  have h0 : InKernel H x [] { u.context with ss := d.ss } d := by
    rw [← hd]
    exact ⟨⟨hlow, hhigh, Nat.zero_le _, hesp, trivial⟩, howned, hhere, rfl⟩
  have h1 := h0.push (k.upper d ++ u.ss) (by decide)
  have h2 := h1.push u.esp (by simp)
  have h3 := h2.push u.eflags (by simp)
  obtain ⟨e, he⟩ : ∃ e, ((d.push (k.upper d ++ u.ss)).push u.esp).push u.eflags = e := ⟨_, rfl⟩
  rw [he] at h3
  have h4 := h3.push (k.upper e ++ u.cs) (by simp)
  have h5 := h4.push u.eip (by simp)
  have heq : u.interrupt k entry mask =
      { (e.push (k.upper e ++ u.cs)).push u.eip with cs := 0x08, eip := entry, eflags := u.eflags &&& ~~~mask } := by
    rw [Machine.interrupt, if_neg hcs, ← he, ← hd]
    rfl
  rw [heq]
  refine ⟨k.upper e, k.upper d, d.ss, h5.stack.congr rfl rfl, h5.owned, h5.here, ?_⟩
  rcases h3.cases with ⟨esp, eip, s, rfl⟩
  rfl

theorem iret_user {eip cs eflags esp ss : BitVec 32} (h : InKernel H x [eip, cs, eflags, esp, ss] r c)
    (hcs : cs.setWidth 16 &&& 3 ≠ (0 : BitVec 16)) :
    c.iret = ({ r with eip, cs := cs.setWidth 16, eflags, esp, ss := ss.setWidth 16 } : Context).machine c.sys := by
  rw [h.stack.iret hcs]
  rcases h.cases with ⟨esp, eip, s, rfl⟩
  rfl

/-- The stack that the TSS of the running task names. -/
theorem Resident.user_esp {w0 : Nat} {s : ForkSys} {loc : Fin 64 → Option Nat} {t : Fin 64} (h : Resident w0 s loc)
    (ht : loc t = some x) (hcur : s.current = wordAddr x) : s.get s.current Tss.esp0 = wordAddr (x + 1024) := by
  have hb := h.tasks.structs.loc_bounds ht
  rw [hcur, ForkSys.get_word 237 (by decide) (by decide) (by omega), h.esp0 t x ht, BitVec.add_comm]
  exact wordAddr_add x 1024

/-- Code that leaves the kernel as it was is not noticed by what it interrupts. -/
theorem handler_kernel {code : Code Trap Machine} {entry mask : BitVec 32}
    (hcode : ∀ vs r c, vs.length + 10 ≤ 734 → InKernel H x vs r c → code.Always Eq (InKernel H x vs r) c)
    (h : InKernel H x vs r u) (hcs : u.cs &&& 3 = 0) (hroom : vs.length ≤ 710) :
    ∃ c', (code.run (u.interrupt k entry mask)).map iret = .ok c' ∧ InKernel H x vs r c' ∧ c'.eip = u.eip := by
  have hrcs : u.cs = r.cs := by
    rw [h.eq]
    rfl
  rcases interrupt_kernel h hcs (by omega) k entry mask with ⟨a, h0⟩
  rcases (hcode _ _ _ (by simp; omega) h0).run with ⟨c, hrun, hc⟩
  rcases iret_kernel hc (by rw [slot_selector, ← hrcs]; exact hcs) with ⟨hret, heip⟩
  refine ⟨c.iret, by rw [hrun]; rfl, ?_, heip⟩
  rw [slot_selector] at hret
  exact hret

theorem handler_user {code : Code Trap Machine} {entry mask : BitVec 32}
    (hcode : ∀ vs r c, vs.length + 10 ≤ 734 → InKernel H x vs r c → code.Always Eq (InKernel H x vs r) c)
    (hlow : 5120 ≤ x) (hhigh : x + 1024 ≤ 4194304) (hcs : u.cs &&& 3 ≠ 0) (howned : Owned H x) (hhere : H u.sys)
    (hesp : u.sys.get u.sys.current Tss.esp0 = wordAddr (x + 1024)) :
    ∃ c', (code.run (u.interrupt k entry mask)).map iret = .ok c' ∧ c'.context = u.context ∧
      c'.sys.current = u.sys.current := by
  rcases interrupt_user hlow hhigh hcs howned hhere hesp k entry mask with ⟨a, b, ss, h0⟩
  rcases (hcode _ _ _ (by simp) h0).run with ⟨c, hrun, hc⟩
  refine ⟨c.iret, by rw [hrun]; rfl, ?_, ?_⟩
  · rw [iret_user hc (by rw [slot_selector]; exact hcs), slot_selector, slot_selector]
    rfl
  · rw [iret_user hc (by rw [slot_selector]; exact hcs)]
    exact hc.current.trans (howned.current hhere).symm

theorem irq_kernel (hk : k.Resumes H x) (hv : v.Answers H x) (i : Irq) (h : InKernel H x vs r u) (hcs : u.cs &&& 3 = 0)
    (hroom : vs.length ≤ 710) : ∃ c', irq k v i u = .ok c' ∧ InKernel H x vs r c' ∧ c'.eip = u.eip := by
  cases i with
  | timer => exact handler_kernel (fun _ _ _ hroom h => timer_always hk (steady_eq H x) hroom h) h hcs hroom
  | hd => exact handler_kernel (fun _ _ _ hroom h => hd_always hv (steady_eq H x) hroom h) h hcs hroom

/-- The kernel does not notice the interrupts between its instructions. -/
theorem steady_interrupts (hk : k.Resumes H x) (hv : v.Answers H x) :
    Steady H (ReflTransGen (Interrupts k v)) x 710 := by
  refine ⟨by decide, fun vs r hroom => Code.Stable.star ?_⟩
  rintro c c' h ⟨hcs, -, i, hirq⟩
  rcases irq_kernel hk hv i h hcs hroom with ⟨c'', heq, h', -⟩
  obtain rfl : c'' = c' := Except.ok.inj (heq.symm.trans hirq)
  exact h'

end Frames

/-- The system calls do nothing but `fork` and `pause`. -/
def quietLinkage : Linkage := { plainLinkage with
  others := fun off => if off = 116 then Machine.sysPause plainLinkage else Machine.sysNothing plainLinkage }

/-- A read of one sector to 32 KB. -/
def plainRead : HdSys := mockHdOut ⟨fun _ => 0, ⟨0, 0, 1, 0x8000⟩, none, 0, [], false, false, []⟩
def plainReport : HdIrq := ⟨0x50, 0, fun _ => 0, 0⟩

/-- Code at some addresses, and a disk with a read. -/
def plainVectors : Vectors where
  timer := 0x6c50
  hd := 0x7c00
  pageFault := 0x7d00
  afterSync := 0x6c74
  afterTimer := 0x6c86
  afterHd := 0x7c40
  afterWp := 0x7d1c
  ignoreInt := 0x5000
  idtPtrs i := 0x7000 + BitVec.ofNat 32 (8 * i)
  disk _ := plainRead
  report _ := plainReport
  cr2 _ := 0
  errorCode _ := 7

/-! ## The gates -/

section Gates

variable (k : Linkage) (v : Vectors) (idt : Nat → Desc)

theorem bootIdt_hd : (v.bootIdt k idt 0x2E).gate = ⟨v.hd, 8, true, 0, interruptGate⟩ := by
  rw [Vectors.bootIdt, hdInitGate, setIntrGate, Function.update_self, setGate, gate_movw, halves]
  exact Gate.ext rfl rfl rfl rfl rfl

theorem bootIdt_systemCall : (v.bootIdt k idt 0x80).gate = ⟨k.systemCall, 8, true, 3, trapGate⟩ := by
  rw [Vectors.bootIdt, hdInitGate, setIntrGate, Function.update_of_ne (by decide), schedInitGates, setSystemGate,
    Function.update_self, setGate, gate_movw, halves]
  exact Gate.ext rfl rfl rfl rfl rfl

theorem bootIdt_timer : (v.bootIdt k idt 0x20).gate = ⟨v.timer, 8, true, 0, interruptGate⟩ := by
  rw [Vectors.bootIdt, hdInitGate, setIntrGate, Function.update_of_ne (by decide), schedInitGates, setSystemGate,
    Function.update_of_ne (by decide), setIntrGate, Function.update_self, setGate, gate_movw, halves]
  exact Gate.ext rfl rfl rfl rfl rfl

/-- The gates that `sched_init` and `hd_init` leave alone. -/
theorem bootIdt_other {n : Nat} (hd : n ≠ 0x2E) (hsys : n ≠ 0x80) (htimer : n ≠ 0x20) :
    v.bootIdt k idt n = trapInit v.idtPtrs v.pageFault (setupIdt v.ignoreInt idt) n := by
  rw [Vectors.bootIdt, hdInitGate, setIntrGate, Function.update_of_ne hd, schedInitGates, setSystemGate,
    Function.update_of_ne hsys, setIntrGate, Function.update_of_ne htimer]

theorem bootIdt_pageFault : (v.bootIdt k idt 14).gate = ⟨v.pageFault, 8, true, 0, trapGate⟩ := by
  rw [bootIdt_other k v idt (by decide) (by decide) (by decide)]
  exact trapInit_pageFault v.idtPtrs v.pageFault _

/-- Only the gate of the system call is for the user. -/
theorem bootIdt_dpl {n : Nat} (hn : n < 256) (hsys : n ≠ 0x80) : (v.bootIdt k idt n).gate.dpl = 0 := by
  by_cases hd : n = 0x2E
  · rw [hd, bootIdt_hd]
  by_cases htimer : n = 0x20
  · rw [htimer, bootIdt_timer]
  by_cases hfault : n = 14
  · rw [hfault, bootIdt_pageFault]
  · rw [bootIdt_other k v idt hd hsys htimer, trapInit_gate _ _ _ _ hn hfault]

/-- After the boot, the only `int` that a task can execute in user mode is `int $0x80`, which turns
no interrupts off; the timer and the disk turn them off, and a page fault does not. -/
theorem gates_after_boot (u : Machine) (huser : u.cs &&& 3 ≠ 0) :
    (∀ n < 256, u.softInt k (v.bootIdt k idt) n = if n = 0x80 then some (u.int80 k) else none) ∧
      u.enterGate k (v.bootIdt k idt 0x20).gate = u.interrupt k v.timer Machine.intrMask ∧
      u.enterGate k (v.bootIdt k idt 0x2E).gate = u.interrupt k v.hd Machine.intrMask ∧
      u.enterGate k (v.bootIdt k idt 14).gate = u.interrupt k v.pageFault Machine.trapMask := by
  refine ⟨fun n hn => ?_, ?_, ?_, ?_⟩
  · by_cases hsys : n = 0x80
    · have hle : (u.cs &&& 3).toNat ≤ 3 := Nat.and_le_right
      rw [if_pos hsys, hsys, Machine.softInt, bootIdt_systemCall, if_pos ⟨rfl, hle⟩]
      rfl
    · have hpos : (u.cs &&& 3).toNat ≠ 0 := fun hzero => huser (BitVec.eq_of_toNat_eq hzero)
      rw [if_neg hsys, Machine.softInt, bootIdt_dpl k v idt hn hsys, if_neg]
      rintro ⟨-, hle⟩
      exact hpos (Nat.le_zero.mp hle)
  · rw [bootIdt_timer]
    rfl
  · rw [bootIdt_hd]
    rfl
  · rw [bootIdt_pageFault]
    rfl

theorem gates_after_boot_init :
    (∀ n < 256, firstFork.softInt quietLinkage (plainVectors.bootIdt quietLinkage fun _ => ⟨0, 0⟩) n =
        if n = 0x80 then some (firstFork.int80 quietLinkage) else none) ∧
      firstFork.enterGate quietLinkage (plainVectors.bootIdt quietLinkage (fun _ => ⟨0, 0⟩) 0x20).gate =
        firstFork.interrupt quietLinkage 0x6c50 Machine.intrMask := by
  have h := gates_after_boot quietLinkage plainVectors (fun _ => ⟨0, 0⟩) firstFork (by decide)
  exact ⟨h.1, h.2.1⟩

end Gates

/-! ## The code on its own -/

section Alone

open Code Machine

/-- What happens at `foundSignalCode` before the registers come off the stack. -/
def Machine.foundSignal (c : Machine) : Machine :=
  match bsf c.ecx with
  | none => c
  | some n => c.dropSignal n

theorem retCode_run (c : Machine) : retCode.run c = .ok c.retFromSysCall := by
  have hrestore : ∀ d, c.takeSignal = d → restoreCode.run d = .ok c.retFromSysCall := by
    rintro d rfl
    rfl
  obtain ⟨d, hd⟩ : ∃ d : Machine, { c with eax := c.sys.current } = d := ⟨_, rfl⟩
  have htake : c.takeSignal =
      if d.eax = d.sys.task 0 then d
      else if (d.slot 0x24).setWidth 16 ≠ (0x0f : BitVec 16) then d
      else if (d.slot 0x30).setWidth 16 ≠ (0x17 : BitVec 16) then d
      else
        let d := { d with ebx := d.sys.get d.eax Off.signal, ecx := d.sys.get d.eax Off.blocked }
        let d := { d with ecx := ~~~d.ecx &&& d.ebx }
        d.foundSignal := by
    rw [← hd]
    rfl
  have hcode : retCode.run c = signalCode.run d := by
    rw [← hd]
    rfl
  rw [hcode, signalCode]
  simp only [run_cond, decide_eq_true_eq]
  split
  · exact hrestore d (by rw [htake, if_pos ‹_›])
  split
  · exact hrestore d (by rw [htake, if_neg ‹_›, if_pos ‹_›])
  split
  · exact hrestore d (by rw [htake, if_neg ‹_›, if_neg ‹_›, if_pos ‹_›])
  · rw [if_neg ‹_›, if_neg ‹_›, if_neg ‹_›] at htake
    obtain ⟨e, he⟩ : ∃ e : Machine, { d with
      ebx := d.sys.get d.eax Off.signal
      ecx := ~~~d.sys.get d.eax Off.blocked &&& d.sys.get d.eax Off.signal } = e := ⟨_, rfl⟩
    have hbits : c.takeSignal = e.foundSignal := by
      rw [htake, ← he]
    have hfind : findSignalCode.run d = (foundSignalCode (bsf e.ecx)).run e := by
      rw [← he]
      rfl
    rw [hfind]
    cases hsig : bsf e.ecx with
    | none => exact hrestore e (by rw [hbits, foundSignal, hsig])
    | some n => exact hrestore (e.dropSignal n) (by rw [hbits, foundSignal, hsig])

/-- Without interrupts it is `system_call` as `fork` uses it. -/
theorem systemCallCode_run (k : Linkage) (c : Machine) :
    (systemCallCode k).run c = (c.systemCall k).bind fun d => d.sysCallExit k := by
  obtain ⟨d, hd⟩ : ∃ d : Machine, (c.pushRegs k).kernelSegments = d := ⟨_, rfl⟩
  have hcode : (systemCallCode k).run c = (block ([fun c => c.call k.afterCall (sysCallTable k (4 * c.eax)),
      op fun c => c.push c.eax, op fun c => c.setEax c.sys.current]) (exitCode k)).run d := by
    rw [← hd]
    rfl
  have hcall : c.systemCall k = d.call k.afterCall (sysCallTable k (4 * d.eax)) := by
    rw [← hd]
    rfl
  rw [hcode, hcall]
  refine (run_instr _ _ d).trans ?_
  cases d.call k.afterCall (sysCallTable k (4 * d.eax)) with
  | error e => rfl
  | ok d =>
    obtain ⟨e, he⟩ : ∃ e : Machine, { d.push d.eax with eax := d.sys.current } = e := ⟨_, rfl⟩
    have hresched : (rescheduleCode k).run e = do
        let c ← e.call k.retFromSysCall (schedule k)
        return c.retFromSysCall := by
      refine (run_instr _ _ e).trans ?_
      cases e.call k.retFromSysCall (schedule k) with
      | error e => rfl
      | ok c => exact retCode_run c
    have hexit : d.sysCallExit k = if e.sys.get e.eax Off.state ≠ 0 ∨ e.sys.get e.eax Off.counter = 0 then do
        let c ← e.call k.retFromSysCall (schedule k)
        return c.retFromSysCall
      else return e.retFromSysCall := by
      rw [← he]
      rfl
    suffices hrun : (exitCode k).run e = d.sysCallExit k by
      refine Eq.trans ?_ hrun
      rw [← he]
      rfl
    rw [hexit, ← hresched, exitCode]
    simp only [run_cond, decide_eq_true_eq]
    by_cases hstate : e.sys.get e.eax Off.state ≠ 0
    · rw [if_pos hstate, if_pos (Or.inl hstate)]
    · by_cases hcounter : e.sys.get e.eax Off.counter = 0
      · rw [if_neg hstate, if_pos hcounter, if_pos (Or.inr hcounter)]
      · rw [if_neg hstate, if_neg hcounter, if_neg (not_or.mpr ⟨hstate, hcounter⟩), retCode_run]
        rfl

end Alone

/-! ## The disk -/

section Disk

variable {b : Boot} {r : Context} {up : Machine → BitVec 16} {p : Core} {v : Vectors} {c : Machine} {x z : Nat}

/-- A word is its bytes. -/
theorem append_byteOf (w : BitVec 32) : (byteOf w 3 ++ byteOf w 2 ++ byteOf w 1 ++ byteOf w 0 : BitVec 32) = w := by
  simp only [byteOf]
  rw [BitVec.extractLsb'_append_extractLsb'_eq_extractLsb' (show 8 * 3 = 8 * 2 + 8 from rfl),
    BitVec.extractLsb'_append_extractLsb'_eq_extractLsb' (show 8 * 2 = 8 * 1 + 8 from rfl),
    BitVec.extractLsb'_append_extractLsb'_eq_extractLsb' (show 8 * 1 = 8 * 0 + 8 from rfl)]
  exact BitVec.extractLsb'_eq_self

/-- A word whose bytes are as before. -/
theorem setBytes_word {mem : BitVec 32 → BitVec 8} {m : Memory}
    (h : z < 2 ^ 30 → ∀ i < 4, mem (BitVec.ofNat 32 (4 * z + i)) = loadByte (BitVec.ofNat 32 (4 * z + i)) m) :
    (setBytes mem m).word z = m.word z := by
  by_cases hz : z < 2 ^ 30
  · have hbyte : ∀ i < 4, mem (BitVec.ofNat 32 (4 * z + i)) = byteOf (m.word z) i := by
      intro i hi
      have htoNat : (BitVec.ofNat 32 (4 * z + i)).toNat = 4 * z + i := by
        rw [BitVec.toNat_ofNat, Nat.mod_eq_of_lt (by omega)]
      rw [h hz i hi, loadByte, Memory.read, htoNat, show (4 * z + i) / 4 = z by omega, show (4 * z + i) % 4 = i by omega]
    show (if z < 2 ^ 30 then _ else _) = _
    rw [if_pos hz, hbyte 3 (by decide), hbyte 2 (by decide), hbyte 1 (by decide)]
    have hzero := hbyte 0 (by decide)
    rw [Nat.add_zero] at hzero
    rw [hzero]
    exact append_byteOf (m.word z)
  · exact if_neg hz

/-- A read that waits for the interrupt is answered, and only the buffer is written. -/
theorem Vectors.Armed.answer (h : v.Armed c) : ¬ (v.answer c).stopped ∧
    ∀ z, (∀ j < 512, z ≠ ((v.disk c).current.buffer + BitVec.ofNat 32 j).toNat / 4) →
      (setBytes (v.answer c).mem c.sys.mm).word z = c.sys.mm.word z := by
  have hhalted : (v.disk c).halted ≠ true := fun hhalted => h.running (Or.inl hhalted)
  obtain ⟨s, hs⟩ : ∃ s : HdSys, { v.disk c with mem := fun a => loadByte a c.sys.mm } = s := ⟨_, rfl⟩
  have harmed : s.doHd = some .readIntr := by rw [← hs]; exact h.doHd
  have hmem : ∀ a, s.mem a = loadByte a c.sys.mm := by
    rw [← hs]
    exact fun _ => rfl
  have hstopped : ¬ (s.halted = true ∨ false = true) := by
    rw [← hs]
    exact fun hor => hor.elim hhalted Bool.false_ne_true
  have hbuffer : (v.disk c).current.buffer = s.current.buffer := by rw [← hs]
  rw [Vectors.answer, hs, hbuffer]
  by_cases hgood : (v.report c).Good
  · rw [hdInterrupt_good harmed hgood h.room]
    refine ⟨hstopped, fun z hz => setBytes_word fun hlt i hi => ?_⟩
    have hfar : ¬ (BitVec.ofNat 32 (4 * z + i) - s.current.buffer).toNat < 512 := by
      intro hin
      refine hz _ hin ?_
      rw [BitVec.ofNat_toNat, BitVec.setWidth_eq, BitVec.add_comm, BitVec.sub_add_cancel, BitVec.toNat_ofNat]
      omega
    dsimp only
    rw [portRead_eq, if_neg hfar, hmem]
  · rw [hdInterrupt_bad harmed hgood]
    refine ⟨?_, fun z _ => setBytes_word fun _ i _ => hmem _⟩
    show ¬ (s.halted = true ∨ (!decide (v.report c).Room) = true)
    rw [decide_eq_true h.room]
    exact hstopped

/-- The driver answers to a task that is in the kernel. -/
theorem Vectors.DriverOk.answers (hv : v.DriverOk up (b.loaded r)) (x : Nat) : v.Answers (Here up (b.loaded r) x) x := by
  intro c h
  have hcur : c.sys.current.toNat / 4 = x := by
    rcases h with ⟨-, -, -, hcur⟩
    rw [hcur, Nat.mul_div_cancel_left x (by decide)]
  rcases h.core with ⟨p, hrun, rfl⟩
  have harmed := hv p hrun
  rcases harmed.answer with ⟨hruns, hword⟩
  have h289 : taskWords = 289 := rfl
  refine ⟨hruns, h.work rfl rfl fun z hz => hword z fun j hj heq => ?_, fun j hj hj' => hword _ fun i hi heq => ?_⟩
  · rcases harmed.buffer j hj z heq with ⟨hfixed, hsaved, -⟩
    exact hz.elim hfixed hsaved
  · rcases harmed.buffer i hi _ heq with ⟨-, -, hstack⟩
    rw [hcur, h289] at hstack
    omega

/-- Low memory behind the page tables, apart from the first `task_struct`, is neither fixed nor
saved. -/
theorem Switched.low_free {w0 : Nat} {loc : Fin 64 → Option Nat} {run : Fin 64} (h : Switched w0 p loc run x)
    (hlow : 5120 ≤ z) (hhigh : z < 262144) (hout : z < w0 ∨ w0 + 1024 ≤ z) :
    ¬ p.cpu.sys.Fixed z ∧ ¬ p.cpu.sys.Saved z ∧ ¬ (x ≤ z ∧ z < x + 1024) := by
  have hstruct : ∀ t y, loc t = some y → z < y ∨ y + 1024 ≤ z := by
    intro t y hy
    by_cases ht : t = 0
    · rw [ht, h.resident.tasks.structs.locZero] at hy
      obtain rfl := Option.some.inj hy
      exact hout
    · rcases h.resident.tasks.structs.locHigh t y ht hy with ⟨f, rfl, hf, -⟩
      omega
  have htask : ∀ n j, p.cpu.sys.Live n → j < 1024 → z ≠ (p.cpu.sys.task n).toNat / 4 + j := by
    intro n j hlive hj
    rcases h.resident.tasks.of_live hlive with ⟨t, y, rfl, hy⟩
    have hb := h.resident.tasks.structs.loc_bounds hy
    have hapart := hstruct t y hy
    rw [h.resident.tasks.structs.task_eq hy, toNat_wordAddr (by omega)]
    omega
  refine ⟨?_, ?_, fun hin => ?_⟩
  · rintro (hz | ⟨d, hd, heq⟩ | ⟨n, j, hlive, hj, heq⟩)
    · omega
    · have hframe : z / 1024 = dirFrame p.cpu.sys.mm d := heq
      cases h.resident.tasks.sane.dir d hd with
      | none hzero =>
        rw [dirFrame, hzero, frameOf_zero] at hframe
        omega
      | kernel h1 h5 => omega
      | table h1 => omega
    · exact htask n j hlive (by omega) heq
  · rintro ⟨n, j, hlive, hj, heq⟩
    exact htask n j hlive (by omega) heq
  · have hapart := hstruct run x h.here
    omega

theorem plainVectors_ok (r : Context) : plainVectors.DriverOk (fun _ => 0) (Boot.blank.loaded r) := by
  intro p hrun
  rcases Boot.blank.switched hrun with ⟨loc, run, x, h⟩
  have hb := h.resident.tasks.structs.loc_bounds h.here
  have hruns : ¬ plainRead.stopped := by decide
  have hroom : plainReport.Room := by decide
  refine ⟨rfl, hruns, hroom, fun j hj z hz => ?_⟩
  have hbuffer : ((plainVectors.disk p.cpu).current.buffer + BitVec.ofNat 32 j).toNat = 32768 + j := by
    show ((0x8000#32) + BitVec.ofNat 32 j).toNat = _
    rw [BitVec.toNat_add, BitVec.toNat_ofNat]
    show (32768 + j % 2 ^ 32) % 2 ^ 32 = _
    omega
  rw [hbuffer] at hz
  rcases h.low_free (z := z) (by omega) (by omega) (Or.inl (by rw [show Boot.blank.init = 16384 from rfl]; omega)) with
    ⟨hfixed, hsaved, hout⟩
  refine ⟨hfixed, hsaved, fun hin => hout ?_⟩
  rw [h.current, toNat_wordAddr (by omega), Nat.mul_div_cancel_left x (by decide)] at hin
  omega

end Disk

/-! ## Interrupts -/

/-- An interrupt of the timer or of the disk comes back to where it came from, in user mode and in
the kernel, and nothing is noticed of it. The timer takes the processor away from the task
whenever another one can run, in the kernel as well. -/
theorem interrupts_unseen (b : Boot) (r : Context) (up : Machine → BitVec 16) (k : Linkage) (v : Vectors)
    (i : Machine.Irq) (p : Core) (hrun : ReflTransGen (CoreStep up) (b.loaded r) p) (hk : k.Switches up (b.loaded r))
    (hv : v.DriverOk up (b.loaded r))
    (hstack : p.cpu.cs &&& 3 = 0 → ∃ vs, Stack (p.cpu.sys.current.toNat / 4) vs p.cpu ∧ vs.length ≤ 710) :
    ∃ c, Machine.irq k v i p.cpu = .ok c ∧ c.context = p.cpu.context ∧ c.sys.current = p.cpu.sys.current ∧
      (p.cpu.cs &&& 3 = 0 → p.cpu.Unseen c) := by
  rcases b.switched hrun with ⟨loc, t, x, hsw⟩
  have hres := hsw.resident
  have hcur := hsw.current
  have hb := hres.tasks.structs.loc_bounds hsw.here
  have hhere : Here up (b.loaded r) x p.cpu.sys := Here.of_switched hrun hsw
  have howned := here_owned b r up x
  have hresumes := hk.resumes x
  have hanswers := hv.answers x
  have hx : p.cpu.sys.current.toNat / 4 = x := by
    rw [hcur, toNat_wordAddr (by omega), Nat.mul_div_cancel_left x (by decide)]
  by_cases hcs : p.cpu.cs &&& 3 = 0
  · rcases hstack hcs with ⟨vs, hst, hroom⟩
    rw [hx] at hst
    have h : InKernel (Here up (b.loaded r) x) x vs p.cpu.context p.cpu := ⟨hst, howned, hhere, rfl⟩
    rcases irq_kernel hresumes hanswers i h hcs hroom with ⟨c, hirq, h', heip⟩
    have hunseen := h.unseen_of h' heip
    exact ⟨c, hirq, hunseen.context, hunseen.current, fun _ => hunseen⟩
  · have hesp := hres.user_esp hsw.here hcur
    have huser : ∃ c, Machine.irq k v i p.cpu = .ok c ∧ c.context = p.cpu.context ∧
        c.sys.current = p.cpu.sys.current := by
      cases i with
      | timer =>
        exact handler_user (fun _ _ _ hroom h => timer_always hresumes (steady_eq _ x) hroom h) hb.1 hb.2 hcs howned
          hhere hesp
      | hd =>
        exact handler_user (fun _ _ _ hroom h => hd_always hanswers (steady_eq _ x) hroom h) hb.1 hb.2 hcs howned
          hhere hesp
    rcases huser with ⟨c, hirq, hcontext, hcur'⟩
    exact ⟨c, hirq, hcontext, hcur', fun hno => absurd hno hcs⟩

theorem quietLinkage_switches (b : Boot) (r : Context) : quietLinkage.Switches (fun _ => 0) (b.loaded r) :=
  plainLinkage_switches b r

/-- Task 0 has forked: the timer takes the processor away from it, to the child and back. -/
theorem interrupts_unseen_timer : ∃ p : Core, p.Runs 0 ∧ Machine.otherRuns p.cpu.sys = true ∧
    ∃ c, Machine.irq quietLinkage plainVectors .timer p.cpu = .ok c ∧ c.context = p.cpu.context ∧
      c.sys.current = p.cpu.sys.current := by
  have huser : firstFork.context.cs &&& 3 ≠ 0 := by decide
  rcases Boot.blank.loaded_fork (fun _ => 0) 0x6d11 firstFork.context with ⟨s, -, hstep, hruns, -, hother, -⟩
  rcases interrupts_unseen Boot.blank firstFork.context (fun _ => 0) quietLinkage plainVectors .timer _
    (ReflTransGen.single hstep) (quietLinkage_switches _ _) (plainVectors_ok _) (fun hcs => absurd hcs huser) with
    ⟨c, hirq, hcontext, hcur, -⟩
  exact ⟨_, hruns, hother, c, hirq, hcontext, hcur⟩

/-- A task in user mode enters the kernel, in a state that the processor can come to. -/
theorem user_enters {b : Boot} {r : Context} {up : Machine → BitVec 16} {p : Core}
    (hrun : ReflTransGen (CoreStep up) (b.loaded r) p) (huser : p.cpu.cs &&& 3 ≠ 0) (k : Linkage) (entry mask : BitVec 32) :
    ∃ x, p.cpu.sys.current = wordAddr x ∧ ∃ a b' ss : BitVec 16,
      InKernel (Here up (b.loaded r) x) x [p.cpu.eip, a ++ p.cpu.cs, p.cpu.eflags, p.cpu.esp, b' ++ p.cpu.ss]
        { p.cpu.context with cs := 8, eflags := p.cpu.eflags &&& ~~~mask, ss } (p.cpu.interrupt k entry mask) := by
  rcases b.switched hrun with ⟨loc, t, x, hsw⟩
  have hb := hsw.resident.tasks.structs.loc_bounds hsw.here
  have hesp := hsw.resident.user_esp hsw.here hsw.current
  exact ⟨x, hsw.current, interrupt_user hb.1 hb.2 huser (here_owned b r up x) (Here.of_switched hrun hsw) hesp k entry mask⟩

/-- A system call gives the user back all registers but EAX, which has the result, with interrupts
between any two instructions and other tasks running in between. The function in
`sys_call_table` gets EBX, ECX and EDX as its parameters. -/
theorem system_call_interrupted (b : Boot) (r : Context) (up : Machine → BitVec 16) (k : Linkage) (v : Vectors)
    (p : Core) (R : BitVec 32 → Prop) (hrun : ReflTransGen (CoreStep up) (b.loaded r) p) (huser : p.cpu.cs &&& 3 ≠ 0)
    (hk : k.Switches up (b.loaded r)) (hv : v.DriverOk up (b.loaded r))
    (hf : Serves (Here up (b.loaded r)) (Machine.sysCallTable k (4 * p.cpu.eax)) p.cpu.ebx p.cpu.ecx p.cpu.edx R) :
    (Machine.systemCallCode k).Always (ReflTransGen (Machine.Interrupts k v))
      (fun c => ∃ w, R w ∧ c.iret.context = { p.cpu.context with eax := w } ∧ c.sys.current = p.cpu.sys.current)
      (p.cpu.interrupt k k.systemCall Machine.trapMask) := by
  rcases user_enters hrun huser k k.systemCall Machine.trapMask with ⟨x, hcur, a, b', ss, h0⟩
  refine (systemCall_always (H := Here up (b.loaded r)) (hk.resumes x)
    (steady_interrupts (hk.resumes x) (hv.answers x)) hf (by simp) (by simp) h0).mono ?_
  rintro c ⟨w, fl, hw, hc⟩
  refine ⟨w, hw, ?_, hc.current.trans hcur.symm⟩
  rw [iret_user hc (by rw [slot_selector]; exact huser), slot_selector, slot_selector]
  rfl

/-- The registers at a call of `pause`. -/
def pauseCall : Context := { firstFork.context with eax := 29 }

/-- Task 0 has forked and calls `pause`: it returns zero, when the child gives the processor back. -/
theorem system_call_interrupted_pause : ∃ p : Core, p.Runs 0 ∧ Machine.otherRuns p.cpu.sys = true ∧
    (Machine.systemCallCode quietLinkage).Always (ReflTransGen (Machine.Interrupts quietLinkage plainVectors))
      (fun c => ∃ w, w = 0 ∧ c.iret.context = { p.cpu.context with eax := w } ∧ c.sys.current = p.cpu.sys.current)
      (p.cpu.interrupt quietLinkage quietLinkage.systemCall Machine.trapMask) := by
  have huser : pauseCall.cs &&& 3 ≠ 0 := by decide
  rcases Boot.blank.loaded_fork (fun _ => 0) 0x6d11 pauseCall with ⟨s, -, hstep, hruns, -, hother, -⟩
  refine ⟨_, hruns, hother, ?_⟩
  refine system_call_interrupted Boot.blank pauseCall (fun _ => 0) quietLinkage plainVectors _ (· = 0)
    (ReflTransGen.single hstep) huser (quietLinkage_switches _ _) (plainVectors_ok _) ?_
  show Serves _ (Machine.sysPause plainLinkage) _ _ _ _
  exact sysPause_serves (fun x => (plainLinkage_switches _ _).resumes x) _ _ _

/-- A page fault gives the user back all registers, also EAX, which makes room on the stack for the
error code, with interrupts between any two instructions, as long as a page is free. -/
theorem page_fault_interrupted (b : Boot) (r : Context) (up : Machine → BitVec 16) (k : Linkage) (v : Vectors)
    (p : Core) (hrun : ReflTransGen (CoreStep up) (b.loaded r) p) (huser : p.cpu.cs &&& 3 ≠ 0)
    (hk : k.Switches up (b.loaded r)) (hv : v.DriverOk up (b.loaded r)) :
    (Machine.pageFaultCode k v).Always
      (fun c c' => ReflTransGen (Machine.Interrupts k v) c c' ∧ c'.sys.mm.freePages.Nonempty)
      (fun c => c.iret.context = p.cpu.context ∧ c.sys.current = p.cpu.sys.current)
      ((p.cpu.interrupt k v.pageFault Machine.trapMask).push (v.errorCode p.cpu)) := by
  rcases user_enters hrun huser k v.pageFault Machine.trapMask with ⟨x, hcur, a, b', ss, h0⟩
  have hst := steady_interrupts (hk.resumes x) (hv.answers x)
  refine (pageFault_always (H := Here up (b.loaded r) x) (n := 710)
    ⟨hst.room, fun vs r hroom c c' h henv => hst.stable vs r hroom c c' h henv.1⟩ (by simp)
    (fun s h hfree a => h.fault hfree a) (fun c c' henv => henv.2)
    (h0.push (v.errorCode p.cpu) (by simp))).mono fun c hc => ?_
  refine ⟨?_, hc.current.trans hcur.symm⟩
  rw [iret_user hc (by rw [slot_selector]; exact huser), slot_selector, slot_selector]
  rfl

/-- Task 0 has forked and faults, with the child running in between. -/
theorem page_fault_interrupted_first : ∃ p : Core, p.Runs 0 ∧ Machine.otherRuns p.cpu.sys = true ∧
    (Machine.pageFaultCode quietLinkage plainVectors).Always
      (fun c c' => ReflTransGen (Machine.Interrupts quietLinkage plainVectors) c c' ∧ c'.sys.mm.freePages.Nonempty)
      (fun c => c.iret.context = p.cpu.context ∧ c.sys.current = p.cpu.sys.current)
      ((p.cpu.interrupt quietLinkage plainVectors.pageFault Machine.trapMask).push (plainVectors.errorCode p.cpu)) := by
  have huser : firstFork.context.cs &&& 3 ≠ 0 := by decide
  rcases Boot.blank.loaded_fork (fun _ => 0) 0x6d11 firstFork.context with ⟨s, -, hstep, hruns, -, hother, -⟩
  exact ⟨_, hruns, hother, page_fault_interrupted Boot.blank firstFork.context (fun _ => 0) quietLinkage plainVectors _
    (ReflTransGen.single hstep) huser (quietLinkage_switches _ _) (plainVectors_ok _)⟩

end MockOs.Kernel
