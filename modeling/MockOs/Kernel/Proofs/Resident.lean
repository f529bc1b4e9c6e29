import MockOs.Kernel.Proofs.AnyStack
import MockOs.Kernel.Switch

/-!
# The tasks in any run of the system

Whatever tasks and kernel do beside forks and page faults, each task keeps its `task_struct`
with its own stack in kernel mode behind it, and the running task is one of them.
-/

namespace MockOs.Kernel

open Mm

/-- What every step of the system keeps. -/
structure Resident (w0 : Nat) (s : ForkSys) (loc : Fin 64 → Option Nat) : Prop where
  tasks : SaneTasks w0 s loc
  esp0 : ∀ t x, loc t = some x → s.mm.word (x + 237) = 4096 + wordAddr x
  running : ∃ t x, loc t = some x ∧ s.current = wordAddr x

theorem Boot.start_resident (b : Boot) : Resident b.init b.start b.loc where
  tasks := b.start_forkSane.tasks
  esp0 t x hx := by
    rcases b.loc_eq hx with ⟨-, rfl⟩
    rw [b.start_init (by decide)]
    rfl
  running := ⟨0, b.init, if_pos rfl, rfl⟩

namespace Resident

variable {w0 : Nat} {s s' : ForkSys} {loc : Fin 64 → Option Nat} {t c : Fin 64} {x y k : Nat}

/-- The words of the structures and of the kernel stacks are in no page table. -/
theorem not_table (h : SaneTasks w0 s loc) {z d : Nat} (hz : InStruct loc z) (hd : d < 1024) :
    5120 ≤ z ∧ z / 1024 ≠ dirFrame s.mm d := by
  rcases hz with ⟨t, x, hx, hxz, hzx⟩
  have hb := h.structs.loc_bounds hx
  refine ⟨by omega, fun heq => ?_⟩
  rcases h.sane.dir_word hd heq with hlow | ⟨-, hheld, -⟩
  · omega
  · by_cases ht : t = 0
    · rw [ht, h.structs.locZero] at hx
      have hx0 := Option.some.inj hx
      have hlow := h.structs.initLow
      cases h.sane.dir d hd with
      | none hzero =>
        rw [dirFrame, hzero, frameOf_zero] at heq
        omega
      | kernel h1 h5 => omega
      | table h1 => omega
    · rcases h.structs.locHigh t x ht hx with ⟨f, rfl, -, -⟩
      exact hheld ⟨t, ht, by rw [show z / 1024 = f by omega]; exact hx⟩

/-- Of a structure only the links, the files and the segments are fixed, with the stack in kernel
mode of the TSS. -/
theorem not_fixed (h : Resident w0 s loc) (ht : loc t = some x) {j : Nat} (hj : j < 1024)
    (hout : j < 175 ∨ 239 ≤ j) : ¬ s.Fixed (x + j) := by
  have hb := h.tasks.structs.loc_bounds ht
  rintro (hlow | ⟨d, hd, htab⟩ | ⟨n, i, hlive, hi, heq⟩)
  · omega
  · exact (not_table h.tasks ⟨t, x, ht, by omega, by omega⟩ hd).2 htab
  · rcases h.tasks.of_live hlive with ⟨t', y, rfl, hy⟩
    have hby := h.tasks.structs.loc_bounds hy
    rw [h.tasks.structs.task_eq hy, toNat_wordAddr (by omega)] at heq
    rcases h.tasks.structs.loc_apart hy ht with ⟨-, rfl⟩ | ⟨-, happ⟩ <;> omega

/-- A change of words that are not fixed. -/
theorem rewrite (h : Resident w0 s loc) (hcur : ∃ t, s.Live t ∧ s'.current = s.task t) (htask : s'.task = s.task)
    (hpid : s'.lastPid = s.lastPid) (hmath : s'.lastTaskUsedMath = s.lastTaskUsedMath)
    (hmap : s'.mm.memMap = s.mm.memMap) (hword : ∀ z, s.Fixed z → s'.mm.word z = s.mm.word z) :
    Resident w0 s' loc := by
  have hfield : ∀ t x j, loc t = some x → 175 ≤ j ∧ j < 179 ∨ 205 ≤ j ∧ j < 239 →
      s'.mm.word (x + j) = s.mm.word (x + j) := by
    intro t x j hx hj
    have hb := h.tasks.structs.loc_bounds hx
    have htx := h.tasks.structs.task_eq hx
    refine hword _ (Or.inr (Or.inr ⟨t, j, ⟨t.isLt, ?_⟩, hj, ?_⟩))
    · rw [htx]
      exact wordAddr_ne_zero (by omega) (by omega)
    · rw [htx, toNat_wordAddr (by omega)]
      omega
  have hsane : Sane s'.mm (HeldBy loc) (fun t => loc t ≠ none) (taskCount loc) :=
    h.tasks.sane.retain hmap fun z hz => hword z (hz.imp_right Or.inl)
  have hstructs : Structs w0 s' loc := { h.tasks.structs with
    task := fun t => by
      rw [htask]
      exact h.tasks.structs.task t
    ok := fun t x hx => (h.tasks.structs.ok t x hx).congr fun j hj => hfield t x j hx (by omega)
    math := hmath.trans h.tasks.structs.math }
  refine ⟨⟨hstructs, hsane, by rw [hpid]; exact h.tasks.pid⟩, fun t x hx => ?_, ?_⟩
  · rw [hfield t x 237 hx (by omega)]
    exact h.esp0 t x hx
  · rcases hcur with ⟨n, hlive, hcur⟩
    rcases h.tasks.of_live hlive with ⟨t, x, rfl, hx⟩
    exact ⟨t, x, hx, hcur.trans (h.tasks.structs.task_eq hx)⟩

/-- `do_wp_page` for any address leaves the structures alone. -/
theorem fault_sane (h : Resident w0 s loc) (a : BitVec 32) (hfree : s.mm.freePages.Nonempty ∨ SolePage a s.mm) :
    Sane (doWpPage a s.mm) (HeldBy loc) (fun t => loc t ≠ none) (taskCount loc) ∧
      ∀ t x j, loc t = some x → j < 1024 → (doWpPage a s.mm).word (x + j) = s.mm.word (x + j) := by
  have hlt := a.isLt
  have hframe := frameOf_lt (s.mm.word (a.toNat / 4194304))
  have hone : 1 ≤ taskCount loc := by
    refine Finset.card_pos.mpr ⟨0, Finset.mem_filter.mpr ⟨Finset.mem_univ _, ?_⟩⟩
    rw [h.tasks.structs.locZero]
    exact Option.some_ne_none w0
  have hfree' : s.mm.freePages.Nonempty ∨
      (256 ≤ frameOf (s.mm.word (1024 * dirFrame s.mm (a.toNat / 4194304) + a.toNat / 4096 % 1024)) ∧
        s.mm.memMap ((frameOf (s.mm.word (1024 * dirFrame s.mm (a.toNat / 4194304) +
          a.toNat / 4096 % 1024)) : Int) - 256) = 1) := by
    refine hfree.imp_right fun hsole => ?_
    rw [SolePage, lin2phy_walk, Memory.read_wordAddr (by omega), page_and] at hsole
    have hlow := (frame_ge_lowMem (frameOf_lt _)).mp hsole.1
    rw [mapNr_frame hlow (frameOf_lt _)] at hsole
    exact ⟨hlow, hsole.2⟩
  rcases h.tasks.sane.unWpPage hone (d := a.toNat / 4194304) (i := a.toNat / 4096 % 1024) (by omega)
    (Nat.mod_lt _ (by decide)) hfree' with ⟨-, -, hsane, hkeep, -⟩
  rw [dirFrame, ← doWpPage_walk] at hsane hkeep
  refine ⟨hsane, fun t x j hx hj => hkeep _ ?_⟩
  have hb := h.tasks.structs.loc_bounds hx
  by_cases ht : t = 0
  · rw [ht, h.tasks.structs.locZero] at hx
    have hx0 := Option.some.inj hx
    have hlow := h.tasks.structs.initLow
    exact ⟨by omega, Or.inl (by omega)⟩
  · rcases h.tasks.structs.locHigh t x ht hx with ⟨f, rfl, -, -⟩
    exact ⟨by omega, Or.inr ⟨t, ht, by rw [show (1024 * f + j) / 1024 = f by omega]; exact hx⟩⟩

theorem fault (h : Resident w0 s loc) (a : BitVec 32) (hfree : s.mm.freePages.Nonempty ∨ SolePage a s.mm) :
    Resident w0 { s with mm := doWpPage a s.mm } loc := by
  rcases h.fault_sane a hfree with ⟨hsane, hstruct⟩
  refine ⟨⟨{ h.tasks.structs with
    ok := fun t x hx => (h.tasks.structs.ok t x hx).congr fun j hj => hstruct t x j hx (by omega) }, hsane,
    h.tasks.pid⟩, fun t x hx => ?_, h.running⟩
  rw [← h.esp0 t x hx]
  exact hstruct t x 237 hx (by omega)

/-- A fork that made a task: it has a stack of its own, and the others have theirs. -/
theorem forked {old : Option Nat} (h : Resident w0 s loc) (ht : loc t = some y) (hcn : loc c = none) {cur pid : BitVec 32}
    (hforked : Forked { s with current := cur, lastPid := pid } s' loc c y k old)
    (hset : ForkSys.ChildSet s'.mm pid c (1024 * k))
    (htasks : SaneTasks w0 s' (Function.update loc c (some (1024 * k)))) (hcur : cur = wordAddr y) :
    Resident w0 s' (Function.update loc c (some (1024 * k))) := by
  have hs : Structs w0 { s with current := cur, lastPid := pid } loc := { h.tasks.structs with }
  refine ⟨htasks, fun t' x hx => ?_, t, y, ?_, ?_⟩
  · by_cases htc : t' = c
    · rw [htc, Function.update_self] at hx
      rw [← Option.some.inj hx]
      exact hset.esp0
    · rw [Function.update_of_ne htc] at hx
      rw [hforked.kept hs ht hx (by omega) (by omega)]
      exact h.esp0 t' x hx
  · rw [Function.update_of_ne (Ne.symm (slot_ne ht hcn))]
    exact ht
  · rw [hforked.rest]
    exact hcur

end Resident

end MockOs.Kernel
