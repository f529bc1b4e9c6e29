import MockOs.Kernel.Printk
import MockOs.Kernel.Proofs.LogAsm
import MockOs.Kernel.Proofs.Vsprintf

/-!
# NUL in the log

The drain takes a NUL for a copy that is not finished. Of all conversions only `%c` can print
one, and it does for an argument whose low byte is 0. Without that, as long as every text fits
its array and no two tasks are in `printk` at once, whatever was reserved is ready to go when no
copy is under way.
-/

namespace MockOs.Kernel

open Relation

variable {str : BitVec 32 → Option (List (BitVec 8))} {fmt : List (BitVec 8)}
  {args : List (BitVec 32)}

/-! ## The formatter -/

theorem mem_of_lit_mem_tokens {c : BitVec 8} {l : List (BitVec 8)} (h : .lit c ∈ tokens l) :
    c ∈ l := by
  induction hn : l.length using Nat.strongRecOn generalizing l with
  | _ n ih =>
    cases l with
    | nil => cases h
    | cons k l =>
      rw [tokens_cons] at h
      split at h
      · have htail : (directiveOf l).2.tail <:+ l := (List.tail_suffix _).trans (directiveOf_suffix l)
        have hlen := htail.length_le
        rcases List.mem_cons.mp h with h | h
        · cases h
        · exact List.mem_cons_of_mem k
            (htail.mem (ih _ (by simp at hn; omega) h rfl))
      · rcases List.mem_cons.mp h with h | h
        · cases h
          exact List.mem_cons_self
        · exact List.mem_cons_of_mem k (ih _ (by simp at hn; omega) h rfl)

/-- A conversion takes an argument, or none. -/
theorem convert_args {c : BitVec 8} {flags : Flags} {w p : BitVec 32} {count : Nat} {r : Conv}
    (h : convert str c flags w p args count = .ok r) :
    r.args = if takesArg c then args.tail else args := by
  rcases convert_cases h with ⟨htakes, hargs, -⟩ | ⟨htakes, a, rfl, -⟩
  · rw [htakes]
    exact hargs
  · rw [htakes]
    rfl

/-- Only `%c` prints a NUL. -/
theorem convert_nul_iff (hstr : ∀ p s, str p = some s → 0 ∉ s) {c : BitVec 8} {flags : Flags}
    {w p : BitVec 32} {count : Nat} {r : Conv}
    (h : convert str c flags w p args count = .ok r) :
    0 ∈ r.out ↔ c = ch 'c' ∧ ∃ a, args.head? = some a ∧ a.setWidth 8 = (0 : BitVec 8) := by
  constructor
  · intro hzero
    rcases convert_mem h hzero with hink | ⟨hc, a, ha, hb⟩ | ⟨a, s, hs, hb⟩ | hb | ⟨hb, hne⟩
    · exact absurd rfl hink.1
    · exact ⟨hc, a, ha, hb.symm⟩
    · exact absurd hb (hstr a s hs)
    · exact absurd hb (by decide)
    · exact absurd hb.symm hne
  · rintro ⟨rfl, a, ha, hzero⟩
    cases args with
    | nil => cases ha
    | cons a' args =>
      cases ha
      cases h
      rw [← hzero]
      simp [convChar]

/-- The arguments a width takes. -/
theorem width_args {f : FieldSize} {flags : Flags} {s : Sized} (h : f.width args flags = .ok s) :
    s.args = args.drop (if f = .star then 1 else 0) := by
  cases f with
  | absent | digits => cases h; rfl
  | star =>
    cases args with
    | nil => cases h
    | cons w args =>
      change (if w.toInt < 0 then Except.ok _ else .ok _) = _ at h
      split at h
      · cases h
        rfl
      · cases h
        rfl

theorem precision_args {f : Option FieldSize} {flags : Flags} {s : Sized}
    (h : FieldSize.precision f args flags = .ok s) :
    s.args = args.drop (if f = some .star then 1 else 0) := by
  cases f with
  | none => cases h; rfl
  | some f =>
    cases f with
    | absent | digits => cases h; rfl
    | star =>
      cases args with
      | nil => cases h
      | cons p args => cases h; rfl

/-- The text of a format, and where a NUL in it comes from. -/
theorem printTokens_nul (hstr : ∀ p s, str p = some s → 0 ∉ s) {ts : List Token}
    (hlit : ∀ c, .lit c ∈ ts → c ≠ 0) {out : List (BitVec 8)}
    {stores : List (BitVec 32 × BitVec 32)} {r : Printed}
    (h : printTokens str ts args out stores = .ok r) : ∃ text,
      r.buf = text ++ [0] ∧ r.ret = BitVec.ofNat 32 text.length ∧
      (0 ∈ text ↔ 0 ∈ out ∨ ∃ a ∈ charArgs ts args, a.setWidth 8 = (0 : BitVec 8)) := by
  induction ts generalizing args out stores with
  | nil =>
    cases h
    exact ⟨out, rfl, rfl, by simp [charArgs]⟩
  | cons t ts ih =>
    have hrest : ∀ c, .lit c ∈ ts → c ≠ 0 := fun c hc => hlit c (List.mem_cons_of_mem _ hc)
    cases t with
    | lit c =>
      have hc : c ≠ 0 := hlit c List.mem_cons_self
      obtain ⟨text, hbuf, hret, hnul⟩ := ih hrest h
      have hout : 0 ∈ out ++ [c] ↔ 0 ∈ out := by
        rw [List.mem_append, List.mem_singleton]
        exact or_iff_left hc.symm
      exact ⟨text, hbuf, hret, hnul.trans (or_congr_left hout)⟩
    | dir d =>
      obtain ⟨w, hw, h⟩ := bind_eq_ok h
      obtain ⟨p, hp, h⟩ := bind_eq_ok h
      obtain ⟨c, hc, h⟩ := bind_eq_ok h
      obtain ⟨text, hbuf, hret, hnul⟩ := ih hrest h
      refine ⟨text, hbuf, hret, hnul.trans ?_⟩
      have hargs : p.args = (args.drop (if d.width = .star then 1 else 0)).drop
          (if d.precision = some .star then 1 else 0) := by
        rw [precision_args hp, width_args hw]
      rw [List.mem_append, convert_nul_iff hstr hc, convert_args hc, charArgs, ← hargs]
      simp only [List.mem_append, or_and_right, exists_or, or_assoc]
      refine or_congr_right (or_congr ?_ Iff.rfl)
      by_cases hconv : d.conv = ch 'c'
      · simp [hconv]
      · simp [hconv]

/-- It has no NUL if no `%c` prints one, and only then. -/
theorem message_nul (hstr : ∀ p s, str p = some s → 0 ∉ s) (hfmt : 0 ∉ fmt) {r : Printed}
    (h : vsprintf str fmt args = .ok r) {shared : Bool} (hfits : r.Fits shared) :
    0 ∉ r.message ↔ NoNulChar fmt args := by
  rw [vsprintf_eq hfmt] at h
  have hlit : ∀ c, .lit c ∈ tokens fmt → c ≠ 0 := fun c hc hzero =>
    hfmt (hzero ▸ mem_of_lit_mem_tokens hc)
  obtain ⟨text, hbuf, hret, hnul⟩ := printTokens_nul hstr hlit h
  have hsmall : text.length < 2 ^ 32 := by
    have hle : bufBytes shared ≤ 2 ^ 32 := by cases shared <;> decide
    have hbytes : r.buf.length ≤ bufBytes shared := hfits
    rw [hbuf, List.length_append] at hbytes
    exact Nat.lt_of_succ_le (hbytes.trans hle)
  have hmessage : r.message = text := by
    rw [Printed.message, hbuf, hret, BitVec.toNat_ofNat, Nat.mod_eq_of_lt hsmall, List.take_left]
  rw [hmessage, hnul]
  simp [NoNulChar]

/-! ## The log -/

variable {T : Type} {s s' : PrintSys T}

/-- Which calls print no NUL: no `%c` gets one, the text fits the array, and `printk` is entered
only when no task is copying from its buffer. -/
structure PrintOk (str : BitVec 32 → Option (List (BitVec 8))) (s : PrintSys T) (shared : Bool)
    (fmt : List (BitVec 8)) (args : List (BitVec 32)) : Prop where
  noNul : NoNulChar fmt args
  fits : ∀ r, vsprintf str fmt args = .ok r → r.Fits shared
  alone : shared = true → ∀ t, s.inPrintk t = true → s.log.writer t = none

/-- A byte below the limit is stored, or its writer has not come to it yet; no writer has a NUL
in its message, nor in the buffer it copies from. -/
structure PrintInv (s : PrintSys T) : Prop where
  stored : ∀ i < s.log.limit, s.log.buf i ≠ 0 ∨ ∃ t w, s.log.writer t = some w ∧
    w.dest + w.copied ≤ i ∧ i < w.dest + w.msg.length
  source : ∀ t w, s.log.writer t = some w → ∀ j < w.msg.length,
    (if s.inPrintk t then s.buf j else w.msg.getD j 0) ≠ 0
  words : s.log.offset < s.log.limit ∨ s.log.offset = 0 ∧ s.log.limit = 0

theorem PrintInv.init : PrintInv (PrintSys.init : PrintSys T) := by
  refine ⟨fun i hi => absurd hi (Nat.not_lt_zero i), fun t w hw => ?_, Or.inr ⟨rfl, rfl⟩⟩
  cases hw

section

variable [DecidableEq T]

/-- A reservation, with the source of the new writer. -/
theorem PrintInv.reserve (h : PrintInv s) {t : T} {msg : List (BitVec 8)} {log : LogSys T}
    {buf : Nat → BitVec 8} {shared : Bool} (hout : s.log.writer t = none)
    (hlog : logBufReserve s.log t msg = some log)
    (hothers : ∀ u w, s.log.writer u = some w → s.inPrintk u = true → buf = s.buf)
    (hsource : ∀ j < msg.length, (if shared then buf j else msg.getD j 0) ≠ 0) :
    PrintInv ⟨log, buf, Function.update s.inPrintk t shared⟩ := by
  obtain ⟨-, rfl⟩ := logBufReserve_eq hlog
  have hne : ∀ u w, s.log.writer u = some w → u ≠ t := by
    rintro u w hw rfl
    rw [hout] at hw
    cases hw
  refine ⟨fun i hi => ?_, fun u w hw j hj => ?_, ?_⟩
  · rcases Nat.lt_or_ge i s.log.limit with hlt | hge
    · rcases h.stored i hlt with hbyte | ⟨u, w, hw, hfrom, hto⟩
      · exact Or.inl hbyte
      · refine Or.inr ⟨u, w, ?_, hfrom, hto⟩
        exact (Function.update_of_ne (hne u w hw) _ _).trans hw
    · exact Or.inr ⟨t, _, Function.update_self t _ _, hge, hi⟩
  · by_cases hu : u = t
    · subst hu
      obtain rfl := Option.some.inj ((Function.update_self u _ _).symm.trans hw)
      change (if Function.update s.inPrintk u shared u then buf j else msg.getD j 0) ≠ 0
      rw [Function.update_self]
      exact hsource j hj
    · have hw : s.log.writer u = some w := (Function.update_of_ne hu _ _).symm.trans hw
      have hbyte := h.source u w hw j hj
      change (if Function.update s.inPrintk t shared u then buf j else w.msg.getD j 0) ≠ 0
      rw [Function.update_of_ne hu]
      cases hin : s.inPrintk u with
      | false =>
        rw [hin] at hbyte
        exact hbyte
      | true =>
        rw [hin] at hbyte
        rw [hothers u w hw hin]
        exact hbyte
  · have hwords := h.words
    dsimp only
    omega

/-- A byte is copied. -/
theorem PrintInv.copy (h : PrintInv s) {t : T} {w : Writer} {b : BitVec 8}
    (hw : s.log.writer t = some w) (hb : s.source t w = some b) :
    PrintInv { s with log := logBufCopy s.log t w b } := by
  obtain ⟨c, hc, hbyte⟩ := Option.map_eq_some_iff.mp hb
  have hlt : w.copied < w.msg.length := (List.getElem?_eq_some_iff.mp hc).1
  have hne : b ≠ 0 := by
    have hsource := h.source t w hw w.copied hlt
    rw [List.getD_eq_getElem?_getD, hc, Option.getD_some, hbyte] at hsource
    exact hsource
  refine ⟨fun i hi => ?_, fun u v hv j hj => ?_, h.words⟩
  · by_cases hhere : i = w.dest + w.copied
    · refine Or.inl ?_
      subst hhere
      exact (Function.update_self _ _ _).trans_ne hne
    · rcases h.stored i hi with hold | ⟨u, v, hv, hfrom, hto⟩
      · exact Or.inl ((Function.update_of_ne hhere _ _).trans_ne hold)
      · by_cases hu : u = t
        · subst hu
          obtain rfl := Option.some.inj (hw.symm.trans hv)
          exact Or.inr ⟨u, _, Function.update_self u _ _, by dsimp only; omega, hto⟩
        · exact Or.inr ⟨u, v, (Function.update_of_ne hu _ _).trans hv, hfrom, hto⟩
  · by_cases hu : u = t
    · subst hu
      obtain rfl := Option.some.inj ((Function.update_self u _ _).symm.trans hv)
      exact h.source u w hw j hj
    · exact h.source u v ((Function.update_of_ne hu _ _).symm.trans hv) j hj

theorem PrintInv.leave (h : PrintInv s) {t : T} {w : Writer} (hw : s.log.writer t = some w)
    (hdone : w.copied = w.msg.length) :
    PrintInv { s with log := { s.log with writer := Function.update s.log.writer t none } } := by
  refine ⟨fun i hi => ?_, fun u v hv j hj => ?_, h.words⟩
  · rcases h.stored i hi with hold | ⟨u, v, hv, hfrom, hto⟩
    · exact Or.inl hold
    · have hu : u ≠ t := by
        rintro rfl
        obtain rfl := Option.some.inj (hw.symm.trans hv)
        omega
      exact Or.inr ⟨u, v, (Function.update_of_ne hu _ _).trans hv, hfrom, hto⟩
  · have hu : u ≠ t := by
      rintro rfl
      cases (Function.update_self u _ _).symm.trans hv
    exact h.source u v ((Function.update_of_ne hu _ _).symm.trans hv) j hj

omit [DecidableEq T] in
/-- The timer stores nothing. -/
theorem PrintInv.tick (h : PrintInv s) (ready : Nat → Bool) :
    PrintInv { s with log := syncLogBuf2 0 ready s.log } := by
  have hle := length_drained_le s.log ready
  have hwords := h.words
  rw [syncLogBuf2_eq]
  split
  · exact ⟨fun i hi => absurd hi (Nat.not_lt_zero i), h.source, Or.inr ⟨rfl, rfl⟩⟩
  · rename_i hpart
    refine ⟨h.stored, h.source, ?_⟩
    dsimp only
    omega

theorem message_getD {r : Printed} {j : Nat} (hj : j < r.message.length) (b : BitVec 8) :
    r.message.getD j b ∈ r.message ∧ r.buf.getD j b ∈ r.message := by
  have hmem : r.message.getD j b ∈ r.message := by
    rw [List.getD_eq_getElem?_getD, List.getElem?_eq_getElem hj, Option.getD_some]
    exact List.getElem_mem hj
  have hsame : r.buf.getD j b = r.message.getD j b := by
    rw [List.getD_eq_getElem?_getD, List.getD_eq_getElem?_getD, Printed.message,
      List.getElem?_take_of_lt]
    exact Nat.lt_of_lt_of_le hj (List.length_take_le _ _)
  exact ⟨hmem, hsame ▸ hmem⟩

theorem PrintInv.step (hstr : ∀ p s, str p = some s → 0 ∉ s) (h : PrintInv s)
    (hstep : PrintStep str (PrintOk str) s s') : PrintInv s' := by
  cases hstep with
  | printk t hok hnul hout hr hlog =>
    have hmsg := (message_nul hstr hnul hr (hok.fits _ hr)).mpr hok.noNul
    refine h.reserve hout hlog (fun u w hw hin => ?_) fun j hj hzero => ?_
    · rw [hok.alone rfl u hin] at hw
      cases hw
    · exact hmsg (hzero ▸ (message_getD hj _).2)
  | printm t hok hnul hout hr hlog =>
    have hmsg := (message_nul hstr hnul hr (hok.fits _ hr)).mpr hok.noNul
    exact h.reserve hout hlog (fun _ _ _ _ => rfl) fun j hj hzero =>
      hmsg (hzero ▸ (message_getD hj _).1)
  | copy t b hw hb => exact h.copy hw hb
  | leave t hw hdone => exact h.leave hw hdone
  | tick ready => exact h.tick ready

theorem PrintInv.run (hstr : ∀ p s, str p = some s → 0 ∉ s)
    (hrun : ReflTransGen (PrintStep str (PrintOk str)) PrintSys.init s) : PrintInv s := by
  induction hrun with
  | refl => exact PrintInv.init
  | tail _ hstep ih => exact ih.step hstr hstep

end

/-! ## A NUL, and a message with several conversions -/

end MockOs.Kernel
