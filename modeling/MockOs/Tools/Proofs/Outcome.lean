import MockOs.Tools.Proofs.Build

/-!
# How a run of `build` ends

On a host that writes all it is asked to, and reads the headers and the boot sector in one piece,
a run is a list of checks and writes, and depends on nothing else: neither on the sizes of the
other reads nor on what was in the buffer.
-/

namespace MockOs.Tools

/-- The standard output of a run, and the message it dies with, if it does. -/
@[ext]
structure Outcome where
  out : List (BitVec 8)
  died : Option String
  deriving DecidableEq

def Outcome.ofResult : EStateM.Result String BuildState Unit → Outcome
  | .ok _ s => ⟨s.out, none⟩
  | .error str s => ⟨s.out, some str⟩

/-! ## What a run checks and writes -/

inductive Item where
  | check (fails : Bool) (str : String)
  | bytes (b : List (BitVec 8))

/-- The first check that fails ends the list. -/
def Outcome.ofItems : List Item → Outcome
  | [] => ⟨[], none⟩
  | .check true str :: _ => ⟨[], some str⟩
  | .check false _ :: items => ofItems items
  | .bytes b :: items => { ofItems items with out := b ++ (ofItems items).out }

/-- A file, if it can be opened. -/
def Host.content (h : Host) (name : String) : List (BitVec 8) := (h.file name).getD []

def Host.NotOpen (h : Host) (name : String) : Prop := h.file name = none ∨ 2 ^ 31 ≤ (h.content name).length

instance (h : Host) (name : String) : Decidable (h.NotOpen name) := inferInstanceAs (Decidable (_ ∨ _))

/-- A word of a file. -/
def fileLong (file : List (BitVec 8)) (i : Nat) : BitVec 32 := Bytes.load32 (fun a => file.getD a 0) (4 * i)

def headerItems (what : String) (file : List (BitVec 8)) : List Item := [
  .check (file.length < 32) ("Unable to read header of '" ++ what ++ "'"),
  .check (fileLong file 0 ≠ 0x04100301) ("Non-Minix header of '" ++ what ++ "'"),
  .check (fileLong file 1 ≠ 32) ("Non-Minix header of '" ++ what ++ "'"),
  .check (fileLong file 3 ≠ 0) ("Illegal data segment in '" ++ what ++ "'"),
  .check (fileLong file 4 ≠ 0) ("Illegal bss in '" ++ what ++ "'"),
  .check (fileLong file 5 ≠ 0) ("Non-Minix header of '" ++ what ++ "'"),
  .check (fileLong file 7 ≠ 0) ("Illegal symbol table in '" ++ what ++ "'")]

def bootItems (h : Host) (name : String) (d : Devices) : List Item :=
  .check (h.NotOpen name) "Unable to open 'boot'" :: (headerItems "boot" (h.content name) ++ [
    .check ((h.content name).length ≠ 544) "Boot block must be exactly 512 bytes",
    .check (¬ ((h.content name).getD 542 0 = 0x55 ∧ (h.content name).getD 543 0 = 0xAA))
      "Boot block hasn't got boot flag (0xAA55)",
    .bytes (bootBytes (h.content name) d)])

/-- The setup code is written before its size is looked at. -/
def setupItems (h : Host) (name : String) : List Item :=
  .check (h.NotOpen name) "Unable to open 'setup'" :: (headerItems "setup" (h.content name) ++ [
    .bytes ((h.content name).drop 32),
    .check (setupSize < ((h.content name).drop 32).length) "Setup exceeds SETUP_SECTS sectors - rewrite build/boot/setup",
    .bytes (List.replicate (setupSize - ((h.content name).drop 32).length) 0)])

/-- And so is the kernel. -/
def systemItems (h : Host) (name : String) : List Item := [
  .check (h.NotOpen name) "Unable to open 'system'",
  .bytes (h.content name),
  .check (systemSize < (h.content name).length) "System is too big"]

def deviceItems (h : Host) (argv : List String) : List Item :=
  match devices h argv with
  | .error str => [.check true str]
  | .ok d => bootItems h (argv.getD 1 "") d ++ (setupItems h (argv.getD 2 "") ++ systemItems h (argv.getD 3 ""))

def buildItems (h : Host) (argv : List String) : List Item :=
  .check (argv.length < 4 ∨ argv.length > 6) "Usage: build bootsect setup system [rootdev] [> image]" ::
    deviceItems h argv

/-- The host writes in full, and reads in full what `build` does not read in a loop. -/
structure Host.Full (h : Host) : Prop where
  read : ∀ k, h.read k ≠ none
  header : ∀ k < 3, ∃ want, h.read k = some want ∧ bufSize ≤ want
  write : ∀ k, ∃ want, h.write k = some want ∧ bufSize ≤ want

/-! ## Running -/

theorem ofItems_append_ok {items rest : List Item} {w : List (BitVec 8)} (h : Outcome.ofItems items = ⟨w, none⟩) :
    Outcome.ofItems (items ++ rest) = { Outcome.ofItems rest with out := w ++ (Outcome.ofItems rest).out } := by
  induction items using Outcome.ofItems.induct generalizing w with
  | case1 =>
    cases h
    rfl
  | case2 str items => cases h
  | case3 str items ih => exact ih h
  | case4 b items ih =>
    rw [Outcome.ofItems, Outcome.mk.injEq] at h
    rcases h with ⟨rfl, hdied⟩
    rw [List.cons_append, Outcome.ofItems, ih (Outcome.ext rfl hdied), List.append_assoc]

theorem ofItems_append_died {items : List Item} (rest : List Item) {w : List (BitVec 8)} {str : String}
    (h : Outcome.ofItems items = ⟨w, some str⟩) : Outcome.ofItems (items ++ rest) = ⟨w, some str⟩ := by
  induction items using Outcome.ofItems.induct generalizing w with
  | case1 => cases h
  | case2 str items => exact h
  | case3 str items ih => exact ih h
  | case4 b items ih =>
    rw [Outcome.ofItems, Outcome.mk.injEq] at h
    rcases h with ⟨rfl, hdied⟩
    rw [List.cons_append, Outcome.ofItems, ih (Outcome.ext rfl hdied)]

/-- A part of a run checks and writes what the list says, and if it goes on, `P` holds. -/
structure Goes {α : Type} (x : Build α) (s : BuildState) (items : List Item) (P : α → BuildState → Prop) : Prop where
  ok : ∀ a s', x s = .ok a s' → ∃ w, Outcome.ofItems items = ⟨w, none⟩ ∧ s'.out = s.out ++ w ∧ P a s'
  error : ∀ str s', x s = .error str s' → ∃ w, Outcome.ofItems items = ⟨w, some str⟩ ∧ s'.out = s.out ++ w

namespace Goes

variable {α β : Type} {s s' : BuildState} {items rest : List Item} {P Q : α → BuildState → Prop}
  {R : β → BuildState → Prop}

theorem of_ok {x : Build α} {a : α} {w : List (BitVec 8)} (hx : x s = .ok a s') (hout : s'.out = s.out ++ w)
    (hitems : Outcome.ofItems items = ⟨w, none⟩) (hP : P a s') : Goes x s items P := by
  refine ⟨fun a' s₁ h => ?_, fun str s₁ h => ?_⟩ <;> rw [hx] at h
  · cases h
    exact ⟨w, hitems, hout, hP⟩
  · cases h

/-- A step that checks and writes nothing. -/
theorem quiet {x : Build α} {a : α} (hx : x s = .ok a s') (hout : s'.out = s.out) :
    Goes x s [] fun a' s'' => a' = a ∧ s'' = s' :=
  of_ok hx (by rw [hout, List.append_nil]) rfl ⟨rfl, rfl⟩

theorem bind {x : Build α} {f : α → Build β} (hx : Goes x s items P) (hf : ∀ a s', P a s' → Goes (f a) s' rest R) :
    Goes (x >>= f) s (items ++ rest) R := by
  have hbind : (x >>= f) s = EStateM.bind x f s := rfl
  cases hrun : x s with
  | error str s₁ =>
    rcases hx.error str s₁ hrun with ⟨w, hitems, hout⟩
    rw [EStateM.bind, hrun] at hbind
    refine ⟨fun a s₂ h => ?_, fun str' s₂ h => ?_⟩ <;> rw [hbind] at h <;> cases h
    exact ⟨w, ofItems_append_died rest hitems, hout⟩
  | ok a s₁ =>
    rcases hx.ok a s₁ hrun with ⟨w, hitems, hout, hP⟩
    rw [EStateM.bind, hrun] at hbind
    refine ⟨fun b s₂ h => ?_, fun str s₂ h => ?_⟩ <;> rw [hbind] at h
    · rcases (hf a s₁ hP).ok b s₂ h with ⟨w', hrest, hout', hR⟩
      refine ⟨w ++ w', ?_, ?_, hR⟩
      · rw [ofItems_append_ok hitems, hrest]
      · rw [hout', hout, List.append_assoc]
    · rcases (hf a s₁ hP).error str s₂ h with ⟨w', hrest, hout'⟩
      refine ⟨w ++ w', ?_, ?_⟩
      · rw [ofItems_append_ok hitems, hrest]
      · rw [hout', hout, List.append_assoc]

/-- The same, when the first part is one check or one write. -/
theorem cons {x : Build α} {f : α → Build β} {item : Item} (hx : Goes x s [item] P)
    (hf : ∀ a s', P a s' → Goes (f a) s' rest R) : Goes (x >>= f) s (item :: rest) R :=
  hx.bind hf

theorem mono {x : Build α} (h : Goes x s items P) (hPQ : ∀ a s', P a s' → Q a s') : Goes x s items Q := by
  refine ⟨fun a s' hx => ?_, h.error⟩
  rcases h.ok a s' hx with ⟨w, hitems, hout, hP⟩
  exact ⟨w, hitems, hout, hPQ a s' hP⟩

theorem dieIf {cond : Prop} [Decidable cond] {fails : Bool} (str : String) (h : cond ↔ fails = true) :
    Goes (dieIf cond str) s [.check fails str] fun _ s' => s' = s ∧ ¬ cond := by
  by_cases hcond : cond
  · have hdie : Tools.dieIf cond str s = .error str s := by
      rw [Tools.dieIf, if_pos hcond]
      rfl
    refine ⟨fun a s' hx => ?_, fun str' s' hx => ?_⟩ <;> rw [hdie] at hx <;> cases hx
    exact ⟨[], by rw [h.mp hcond]; rfl, (List.append_nil _).symm⟩
  · have hgo : Tools.dieIf cond str s = .ok () s := by
      rw [Tools.dieIf, if_neg hcond]
      rfl
    have hfails : fails = false := Bool.eq_false_iff.mpr (mt h.mpr hcond)
    exact of_ok hgo (List.append_nil _).symm (by rw [hfails]; rfl) ⟨rfl, hcond⟩

/-- A step that checks and writes nothing, in front of a run. -/
theorem skip {x : Build α} {f : α → Build β} {a : α} (hx : x s = .ok a s') (hout : s'.out = s.out)
    (hf : Goes (f a) s' rest R) : Goes (x >>= f) s rest R := by
  refine (quiet hx hout).bind fun a' s'' h => ?_
  rcases h with ⟨rfl, rfl⟩
  exact hf

/-- A check in front of a run. -/
theorem check {cond : Prop} [Decidable cond] {fails : Bool} {str : String} {x : Build β}
    (h : cond ↔ fails = true) (hx : ¬ cond → Goes x s rest R) : Goes (do
      Tools.dieIf cond str
      x) s (.check fails str :: rest) R := by
  refine (dieIf str h).bind fun _ s' h' => ?_
  rcases h' with ⟨rfl, hcond⟩
  exact hx hcond

end Goes

/-! ## System calls -/

section Calls

variable {h : Host} {s : BuildState} {n : Nat}

theorem get_bind {α : Type} (f : BuildState → Build α) : (get >>= f) s = f s s := rfl

theorem run_bind {α β : Type} {x : Build α} {f : α → Build β} {a : α} {s' : BuildState} (hx : x s = .ok a s') :
    (x >>= f) s = f a s' := by
  have hbind : (x >>= f) s = EStateM.bind x f s := rfl
  rw [hbind, EStateM.bind, hx]

theorem dieIf_pass {cond : Prop} [Decidable cond] (str : String) (hcond : ¬ cond) : dieIf cond str s = .ok () s := by
  rw [dieIf, if_neg hcond]
  rfl

theorem read_eq {want : Nat} (hwant : h.read s.reads = some want) : read h n s =
    .ok (readCount want n s.fd.length : Nat) { s with
      reads := s.reads + 1
      buf := s.fd.take (readCount want n s.fd.length) ++ s.buf.drop (readCount want n s.fd.length)
      fd := s.fd.drop (readCount want n s.fd.length) } := by
  rw [read, get_bind, hwant]
  rfl

theorem write_eq {want : Nat} (hwant : h.write s.writes = some want) (hn : n ≤ want) : write h n s =
    .ok (n : Nat) { s with writes := s.writes + 1, out := s.out ++ s.buf.take n } := by
  rw [write, get_bind, hwant]
  simp only [Nat.min_eq_right hn]
  rfl

/-- A `read` that is done in one piece. -/
theorem Host.Full.read_eq (hfull : h.Full) (hreads : s.reads < 3) (hn : n ≤ bufSize) : Tools.read h n s =
    .ok (min n s.fd.length : Nat) { s with
      reads := s.reads + 1, buf := s.fd.take (min n s.fd.length) ++ s.buf.drop (min n s.fd.length)
      fd := s.fd.drop (min n s.fd.length) } := by
  rcases hfull.header s.reads hreads with ⟨want, hwant, hlarge⟩
  have hcount : readCount want n s.fd.length = min n s.fd.length := by
    unfold readCount bufSize at *
    split <;> omega
  rw [Tools.read_eq hwant, hcount]

theorem Host.Full.write_eq (hfull : h.Full) (hn : n ≤ bufSize) : Tools.write h n s =
    .ok (n : Nat) { s with writes := s.writes + 1, out := s.out ++ s.buf.take n } := by
  rcases hfull.write s.writes with ⟨want, hwant, hlarge⟩
  exact Tools.write_eq hwant (hn.trans hlarge)

/-- A `write` and its check. -/
theorem Host.Full.writeAll (hfull : h.Full) (hn : n ≤ bufSize) {c : Int} (hc : c = n) {str : String} {α : Type}
    (x : Build α) : (do
      let w ← Tools.write h n
      dieIf (w ≠ c) str
      x) s = x { s with writes := s.writes + 1, out := s.out ++ s.buf.take n } := by
  rw [run_bind (hfull.write_eq hn), run_bind (dieIf_pass _ (not_not.mpr hc.symm))]

/-- The copy loop comes to its end. -/
theorem Host.Full.copyLoop_runs (hfull : h.Full) (fuel : Nat) (i : BitVec 32) (s : BuildState) :
    ∃ i' s', copyLoop h fuel i s = .ok i' s' := by
  induction fuel generalizing i s with
  | zero => exact ⟨i, s, rfl⟩
  | succ fuel ih =>
    rcases Option.ne_none_iff_exists'.mp (hfull.read s.reads) with ⟨want, hwant⟩
    rw [copyLoop, run_bind (Tools.read_eq hwant)]
    have hcount : readCount want bufSize s.fd.length ≤ bufSize := by
      unfold readCount bufSize
      split <;> omega
    split
    · rw [hfull.writeAll (by omega) (by omega)]
      exact ih _ _
    · exact ⟨i, _, rfl⟩

/-- So does the padding. -/
theorem Host.Full.padLoop_runs (hfull : h.Full) {fuel : Nat} {i : BitVec 32} (hi : i.toNat ≤ setupSize) :
    ∃ s', padLoop h fuel i s = .ok () s' := by
  induction fuel generalizing i s with
  | zero => exact ⟨s, rfl⟩
  | succ fuel ih =>
    have hslt : i.slt (BitVec.ofNat 32 setupSize) = true ↔ i.toNat < setupSize :=
      slt_iff (by unfold setupSize at hi; omega) (by decide)
    rw [padLoop]
    by_cases hmore : i.toNat < setupSize
    · rw [if_pos (hslt.mpr hmore), padCount_eq hi]
      have hcount : padCount i.toNat ≤ bufSize ∧ padCount i.toNat ≤ setupSize - i.toNat := by
        unfold padCount
        omega
      have hsmall : padCount i.toNat < 2 ^ 31 := by
        unfold bufSize at hcount
        omega
      have htoNat : (BitVec.ofNat 32 (padCount i.toNat)).toNat = padCount i.toNat :=
        Nat.mod_eq_of_lt (by omega)
      have htoInt : (BitVec.ofNat 32 (padCount i.toNat)).toInt = padCount i.toNat := by
        rw [BitVec.toInt_eq_toNat_of_lt (by omega), htoNat]
      rw [htoNat, hfull.writeAll hcount.1 htoInt]
      refine ih ?_
      unfold setupSize at *
      rw [BitVec.toNat_add, htoNat]
      omega
    · rw [if_neg (mt hslt.mp hmore)]
      exact ⟨s, rfl⟩

end Calls

/-! ## The parts -/

section Parts

variable {h : Host} {s : BuildState}

theorem Host.Full.write_goes (hfull : h.Full) {n : Nat} (hn : n ≤ bufSize) {c : Int} (hc : c = n) (str : String)
    {b : List (BitVec 8)} (hb : s.buf.take n = b) : Goes (do
      let w ← Tools.write h n
      dieIf (w ≠ c) str) s [.bytes b] fun _ s' => s'.reads = s.reads := by
  have hrun : (do
      let w ← Tools.write h n
      dieIf (w ≠ c) str : Build Unit) s = .ok () { s with writes := s.writes + 1, out := s.out ++ b } := by
    rw [run_bind (hfull.write_eq hn), hb]
    exact dieIf_pass _ (not_not.mpr hc.symm)
  exact Goes.of_ok hrun rfl (by rw [Outcome.ofItems, Outcome.ofItems, List.append_nil]) rfl

theorem openFile_goes (name str : String) :
    Goes (openFile h name str) s [.check (h.NotOpen name) str] fun _ s' =>
      s' = { s with fd := h.content name } ∧ (h.content name).length < 2 ^ 31 := by
  unfold openFile
  cases hfile : h.file name with
  | none =>
    have hopen : h.NotOpen name := Or.inl hfile
    refine ⟨fun a s' hx => (nomatch hx), fun str' s' hx => ?_⟩
    cases hx
    exact ⟨[], by rw [decide_eq_true hopen]; rfl, (List.append_nil _).symm⟩
  | some content =>
    have hcontent : h.content name = content := by rw [Host.content, hfile, Option.getD_some]
    have hopen : 2 ^ 31 ≤ content.length ↔ decide (h.NotOpen name) = true := by
      rw [decide_eq_true_iff, Host.NotOpen, hfile, hcontent]
      simp
    refine Goes.check hopen fun hsize => ?_
    refine Goes.of_ok rfl (List.append_nil _).symm rfl ?_
    rw [hcontent]
    exact ⟨rfl, Nat.not_le.mp hsize⟩

/-- The words of a header are in the buffer. -/
theorem long_eq (fd buf : List (BitVec 8)) (out : List (BitVec 8)) (reads writes : Nat) {file : List (BitVec 8)} {i : Nat}
    (hlen : 32 ≤ file.length) (hi : i < 8) :
    (⟨file.take 32 ++ buf, fd, out, reads, writes⟩ : BuildState).long i = fileLong file i := by
  refine Bytes.load32_congr fun j hj => ?_
  have hshort : 4 * i + j < 32 := by omega
  dsimp only
  rw [List.getD_eq_getElem?_getD, List.getElem?_append_left (by rw [List.length_take_of_le hlen]; exact hshort),
    List.getElem?_take_of_lt hshort, ← List.getD_eq_getElem?_getD]

theorem minixHeader_goes (hfull : h.Full) (hreads : s.reads < 3) (what : String) :
    Goes (minixHeader h what) s (headerItems what s.fd) fun _ s' => 32 ≤ s.fd.length ∧
      s' = { s with reads := s.reads + 1, buf := s.fd.take 32 ++ s.buf.drop 32, fd := s.fd.drop 32 } := by
  unfold minixHeader
  refine Goes.skip (hfull.read_eq hreads (by decide)) rfl ?_
  have hshort : ((min 32 s.fd.length : Nat) : Int) ≠ 32 ↔ decide (s.fd.length < 32) = true := by
    rw [decide_eq_true_iff]
    omega
  refine Goes.check hshort fun hlen => ?_
  have hlen : 32 ≤ s.fd.length := by
    rw [hshort, decide_eq_true_iff] at hlen
    omega
  rw [Nat.min_eq_left hlen]
  have hword : ∀ i < 8, ∀ v : BitVec 32, BuildState.long { s with
      reads := s.reads + 1, buf := s.fd.take 32 ++ s.buf.drop 32, fd := s.fd.drop 32 } i ≠ v ↔
      decide (fileLong s.fd i ≠ v) = true := by
    intro i hi v
    rw [long_eq _ _ _ _ _ hlen hi, decide_eq_true_iff]
  refine Goes.skip rfl rfl ?_
  refine Goes.check (hword 0 (by decide) _) fun _ => ?_
  refine Goes.check (hword 1 (by decide) _) fun _ => ?_
  refine Goes.check (hword 3 (by decide) _) fun _ => ?_
  refine Goes.check (hword 4 (by decide) _) fun _ => ?_
  refine Goes.check (hword 5 (by decide) _) fun _ => ?_
  refine (Goes.dieIf _ (hword 7 (by decide) _)).mono fun _ s' h' => ?_
  exact ⟨hlen, h'.1⟩

theorem setBuf_eq (i : Nat) (v : BitVec 8) : setBuf i v s = .ok () { s with buf := s.buf.set i v } := rfl

theorem bootsect_goes (hfull : h.Full) (hreads : s.reads = 0) (name : String) (d : Devices) :
    Goes (bootsect h name d) s (bootItems h name d) fun _ s' => s'.reads = 2 := by
  unfold bootsect bootItems
  obtain ⟨file, hfile⟩ : ∃ file, h.content name = file := ⟨_, rfl⟩
  rw [hfile]
  refine (openFile_goes name _).cons fun _ s₁ h₁ => ?_
  rw [hfile] at h₁
  rcases h₁ with ⟨rfl, -⟩
  refine (minixHeader_goes hfull (by rw [hreads]; decide) "boot").bind fun _ s₂ h₂ => ?_
  rcases h₂ with ⟨hlen, rfl⟩
  refine Goes.skip (hfull.read_eq (show s.reads + 1 < 3 by omega) (Nat.le_refl _)) rfl ?_
  have hsize : ((min bufSize (file.drop 32).length : Nat) : Int) ≠ 512 ↔ decide (file.length ≠ 544) = true := by
    rw [decide_eq_true_iff, List.length_drop]
    unfold bufSize
    dsimp only at hlen
    omega
  refine Goes.check hsize fun hlen' => ?_
  have hlen : file.length = 544 := by
    rw [hsize, decide_eq_true_iff] at hlen'
    exact not_not.mp hlen'
  have hcode : (file.drop 32).length = 512 := by rw [List.length_drop, hlen]
  have hmin : min bufSize (file.drop 32).length = 512 := by rw [hcode]; rfl
  dsimp only
  rw [hmin]
  have hbyte : ∀ (rest : List (BitVec 8)) (j : Nat), j < 512 →
      ((file.drop 32).take 512 ++ rest).getD j 0 = file.getD (32 + j) 0 := by
    intro rest j hj
    rw [List.getD_eq_getElem?_getD, List.getElem?_append_left (by rw [List.length_take]; omega),
      List.getElem?_take_of_lt hj, List.getElem?_drop, ← List.getD_eq_getElem?_getD]
  refine Goes.skip rfl rfl (Goes.check ?_ fun _ => ?_)
  · dsimp only
    rw [hbyte _ 511 (by decide), hbyte _ 510 (by decide), decide_eq_true_iff]
    refine not_congr ⟨fun hword => ?_, fun hflag => ?_⟩
    · have hlow := congrArg (BitVec.extractLsb' 0 8) hword
      have hhigh := congrArg (BitVec.extractLsb' 8 8) hword
      rw [BitVec.extractLsb'_append_eq_of_add_le (by decide), BitVec.extractLsb'_eq_self] at hlow
      rw [BitVec.extractLsb'_append_eq_left] at hhigh
      exact ⟨hlow, hhigh⟩
    · rw [hflag.1, hflag.2]
      rfl
  refine Goes.skip (setBuf_eq _ _) rfl (Goes.skip (setBuf_eq _ _) rfl ?_)
  refine Goes.skip (setBuf_eq _ _) rfl (Goes.skip (setBuf_eq _ _) rfl ?_)
  refine (hfull.write_goes (by decide) rfl _ ?_).mono fun _ s' h' => ?_
  · dsimp only
    rw [sector_write _ (Nat.le_of_eq hcode.symm), bootBytes, List.drop_drop]
  · rw [h']
    exact congrArg (· + 2) hreads

theorem copyLoop_goes (hfull : h.Full) {fuel : Nat} {i : BitVec 32} (hfuel : s.fd.length < fuel) :
    Goes (copyLoop h fuel i) s [.bytes s.fd] fun i' _ => i' = i + BitVec.ofNat 32 s.fd.length := by
  rcases hfull.copyLoop_runs fuel i s with ⟨i', s', hrun⟩
  rcases copyLoop_ok hfull.read hrun hfuel with ⟨hout, hi⟩
  exact Goes.of_ok hrun hout (by rw [Outcome.ofItems, Outcome.ofItems, List.append_nil]) hi

theorem padLoop_goes (hfull : h.Full) {fuel : Nat} {i : BitVec 32} (hbuf : s.buf = List.replicate bufSize 0)
    (hi : i.toNat ≤ setupSize) (hfuel : setupSize - i.toNat ≤ fuel) :
    Goes (padLoop h fuel i) s [.bytes (List.replicate (setupSize - i.toNat) 0)] fun _ _ => True := by
  have hends : ∃ s', padLoop h fuel i s = .ok () s' := hfull.padLoop_runs hi
  rcases hends with ⟨s', hrun⟩
  exact Goes.of_ok hrun (padLoop_ok hrun hbuf hi hfuel) (by rw [Outcome.ofItems, Outcome.ofItems, List.append_nil]) trivial

/-- The size check after a copy. -/
theorem size_check {n len : Nat} (hn : n < 2 ^ 31) (hlen : len < 2 ^ 31) :
    (BitVec.ofNat 32 n).slt (0 + BitVec.ofNat 32 len) = true ↔ decide (n < len) = true := by
  have hcount : (0 + BitVec.ofNat 32 len).toNat = len := by
    rw [show (0 : BitVec 32) + BitVec.ofNat 32 len = BitVec.ofNat 32 len from BitVec.zero_add _]
    exact Nat.mod_eq_of_lt (by omega)
  have hbound : (BitVec.ofNat 32 n).toNat = n := Nat.mod_eq_of_lt (by omega)
  rw [slt_iff (by omega) (by omega), hbound, hcount, decide_eq_true_iff]

theorem setup_goes (hfull : h.Full) (hreads : s.reads = 2) (name : String) :
    Goes (setup h name) s (setupItems h name) fun _ _ => True := by
  unfold setup setupItems
  obtain ⟨file, hfile⟩ : ∃ file, h.content name = file := ⟨_, rfl⟩
  rw [hfile]
  refine (openFile_goes name _).cons fun _ s₁ h₁ => ?_
  rw [hfile] at h₁
  rcases h₁ with ⟨rfl, hsize⟩
  refine (minixHeader_goes hfull (by rw [hreads]; decide) "setup").bind fun _ s₂ h₂ => ?_
  rcases h₂ with ⟨hlen, rfl⟩
  have hcode : (file.drop 32).length < 2 ^ 31 := by
    rw [List.length_drop]
    omega
  refine Goes.skip rfl rfl ?_
  refine (copyLoop_goes hfull (Nat.lt_succ_self _)).cons fun i s₃ h₃ => ?_
  rw [h₃]
  refine Goes.check (size_check (by decide) hcode) fun hcheck => ?_
  rcases copied_size (by decide) hcode hcheck with ⟨hcount, hfits⟩
  have hpad := padLoop_goes (s := { s₃ with buf := List.replicate bufSize 0 }) hfull rfl (hcount.symm ▸ hfits)
    (Nat.sub_le setupSize _)
  rw [hcount] at hpad
  exact Goes.skip rfl rfl hpad

theorem system_goes (hfull : h.Full) (name : String) :
    Goes (system h name) s (systemItems h name) fun _ _ => True := by
  unfold system systemItems
  obtain ⟨file, hfile⟩ : ∃ file, h.content name = file := ⟨_, rfl⟩
  rw [hfile]
  refine (openFile_goes name _).cons fun _ s₁ h₁ => ?_
  rw [hfile] at h₁
  rcases h₁ with ⟨rfl, hsize⟩
  refine Goes.skip rfl rfl ?_
  refine (copyLoop_goes hfull (Nat.lt_succ_self _)).cons fun i s₂ h₂ => ?_
  rw [h₂]
  exact (Goes.dieIf _ (size_check (by decide) hsize)).mono fun _ _ _ => trivial

end Parts

/-- A run of `build` ends as the list of its checks and writes says, whatever the sizes of the
reads are that `build` does in a loop: the first check that fails gives the message, the parts
before it are on the standard output, and if none fails the status is 0. -/
theorem build_outcome (h : Host) (argv : List String) (hfull : h.Full) :
    Outcome.ofResult (main h argv .start) = Outcome.ofItems (buildItems h argv) := by
  have hgoes : Goes (main h argv) .start (buildItems h argv) fun _ _ => True := by
    unfold main buildItems deviceItems
    refine Goes.check (by rw [decide_eq_true_iff]) fun _ => ?_
    cases devices h argv with
    | error str =>
      refine ⟨fun a s' hx => (nomatch hx), fun str' s' hx => ?_⟩
      cases hx
      exact ⟨[], rfl, rfl⟩
    | ok d =>
      refine Goes.skip rfl rfl ?_
      refine (bootsect_goes hfull rfl _ d).bind fun _ s₁ h₁ => ?_
      exact (setup_goes hfull h₁ _).bind fun _ s₂ _ => system_goes hfull _
  cases hrun : main h argv .start with
  | ok u s' =>
    rcases hgoes.ok u s' hrun with ⟨w, hitems, hout, -⟩
    rw [hitems, Outcome.ofResult, hout]
    rfl
  | error str s' =>
    rcases hgoes.error str s' hrun with ⟨w, hitems, hout⟩
    rw [hitems, Outcome.ofResult, hout]
    rfl

theorem smallHost_full : smallHost.Full where
  read _ := Option.some_ne_none _
  header _ hk := ⟨1024, congrArg some (if_pos hk), Nat.le_refl _⟩
  write _ := ⟨1024, rfl, Nat.le_refl _⟩

/-- The run on the small files, and one that has the setup code in the place of the boot sector. -/
theorem build_outcome_small :
    (Outcome.ofResult (main smallHost ["build", "boot", "setup", "system"] .start)).died = none ∧
      Outcome.ofResult (main smallHost ["build", "setup", "setup", "system"] .start) =
        ⟨[], some "Boot block must be exactly 512 bytes"⟩ := by
  constructor
  · rw [build_outcome smallHost _ smallHost_full]
    decide +kernel
  · rw [build_outcome smallHost _ smallHost_full]
    decide +kernel

end MockOs.Tools
