import MockOs.Tools.Build

/-!
# What is in the boot image

A run that does not die went through every check and had every write accepted in full, so each
part is known from the states between the calls: the loops move the file through the buffer in
pieces of any size, and the pieces add up to the file.
-/

namespace MockOs.Tools

section Runs

variable {α β : Type} {s s' : BuildState} {h : Host}

/-- A sequence that goes on went on after its first part. -/
theorem bind_ok {x : Build α} {f : α → Build β} {b : β} (hrun : (x >>= f) s = .ok b s') :
    ∃ a s₁, x s = .ok a s₁ ∧ f a s₁ = .ok b s' := by
  cases hx : x s with
  | ok a s₁ =>
    refine ⟨a, s₁, rfl, ?_⟩
    simpa [bind, EStateM.bind, hx] using hrun
  | error e s₁ => simp [bind, EStateM.bind, hx] at hrun

theorem dieIf_ok {cond : Prop} [Decidable cond] {str : String} {u : Unit}
    (hrun : dieIf cond str s = .ok u s') : ¬ cond ∧ s' = s := by
  unfold dieIf at hrun
  split at hrun
  · cases hrun
  · rename_i hcond
    cases hrun
    exact ⟨hcond, rfl⟩

/-! ## System calls -/

theorem openFile_ok {name str : String} {u : Unit} (hrun : openFile h name str s = .ok u s') :
    ∃ content, h.file name = some content ∧ content.length < 2 ^ 31 ∧ s' = { s with fd := content } := by
  unfold openFile at hrun
  cases hfile : h.file name with
  | none =>
    rw [hfile] at hrun
    cases hrun
  | some content =>
    rw [hfile] at hrun
    obtain ⟨_, s₁, hsize, hmod⟩ := bind_ok hrun
    obtain ⟨hsize, rfl⟩ := dieIf_ok hsize
    cases hmod
    exact ⟨content, rfl, by omega, rfl⟩

/-- A `read` that does not fail. -/
theorem read_ok {n : Nat} {c : Int} (hread : ∀ k, h.read k ≠ none) (hrun : read h n s = .ok c s') :
    ∃ k : Nat, c = k ∧ k ≤ s.fd.length ∧ (0 < n → s.fd ≠ [] → 0 < k) ∧
      s' = { s with reads := s.reads + 1, buf := s.fd.take k ++ s.buf.drop k, fd := s.fd.drop k } := by
  unfold read at hrun
  obtain ⟨_, s₁, hget, hrest⟩ := bind_ok hrun
  cases hget
  cases hk : h.read s.reads with
  | none => exact absurd hk (hread s.reads)
  | some want =>
    rw [hk] at hrest
    cases hrest
    refine ⟨readCount want n s.fd.length, rfl, ?_, ?_, rfl⟩
    · unfold readCount
      split <;> omega
    · intro hn hfd
      have hpos := List.length_pos_iff.mpr hfd
      unfold readCount
      split <;> omega

/-- A `write` that takes all. -/
theorem write_ok {n : Nat} {c : Int} (hrun : write h n s = .ok c s') (hall : c = n) :
    s' = { s with writes := s.writes + 1, out := s.out ++ s.buf.take n } := by
  unfold write at hrun
  obtain ⟨_, s₁, hget, hrest⟩ := bind_ok hrun
  cases hget
  cases hk : h.write s.writes with
  | none =>
    rw [hk] at hrest
    cases hrest
    omega
  | some want =>
    rw [hk] at hrest
    cases hrest
    have hmin : min want n = n := Int.ofNat.inj hall
    rw [hmin]

/-- A write that is checked. -/
theorem writeAll_ok {n : Nat} {c : Int} {str : String} {rest : Build β} {b : β}
    (hrun : (do
      let w ← write h n
      dieIf (w ≠ c) str
      rest) s = .ok b s') (hc : c = n) :
    rest { s with writes := s.writes + 1, out := s.out ++ s.buf.take n } = .ok b s' := by
  obtain ⟨w, s₁, hwrite, hafter⟩ := bind_ok hrun
  obtain ⟨_, s₂, hcheck, hrest⟩ := bind_ok hafter
  obtain ⟨hall, rfl⟩ := dieIf_ok hcheck
  rw [write_ok hwrite ((not_not.mp hall).trans hc)] at hrest
  exact hrest

/-! ## The loops -/

/-- The copy loop moves what is left of the file, whatever the sizes of the pieces. -/
theorem copyLoop_ok (hread : ∀ k, h.read k ≠ none) {fuel : Nat} {i i' : BitVec 32}
    (hrun : copyLoop h fuel i s = .ok i' s') (hfuel : s.fd.length < fuel) :
    s'.out = s.out ++ s.fd ∧ i' = i + BitVec.ofNat 32 s.fd.length := by
  induction fuel generalizing s i with
  | zero => omega
  | succ fuel ih =>
    rw [copyLoop] at hrun
    obtain ⟨c, s₁, hc, hrest⟩ := bind_ok hrun
    obtain ⟨k, rfl, hle, hpos, rfl⟩ := read_ok hread hc
    split at hrest
    · rename_i hmore
      have hgo := writeAll_ok hrest (by omega)
      have hleft : (s.fd.drop k).length < fuel := by
        rw [List.length_drop]
        omega
      obtain ⟨hout, hi⟩ := ih hgo hleft
      have hbytes : (s.fd.take k ++ s.buf.drop k).take (k : Int).toNat = s.fd.take k := by
        rw [Int.toNat_natCast, List.take_append_of_le_length, List.take_take, Nat.min_self]
        rw [List.length_take]
        omega
      refine ⟨?_, ?_⟩
      · rw [hout, hbytes, List.append_assoc, List.take_append_drop]
      · rw [hi, List.length_drop, BitVec.add_assoc, BitVec.ofInt_natCast, ← BitVec.ofNat_add]
        congr 2
        omega
    · -- `read` returns 0 at the end of the file only
      rename_i hend
      cases hrest
      have hnil : s.fd = [] := by
        by_contra hfd
        have hk := hpos (by decide) hfd
        omega
      rw [hnil]
      exact ⟨(List.append_nil _).symm, (BitVec.add_zero _).symm⟩

/-- Signed comparison of counters that do not reach 2^31. -/
theorem slt_iff {x y : BitVec 32} (hx : x.toNat < 2 ^ 31) (hy : y.toNat < 2 ^ 31) :
    x.slt y = true ↔ x.toNat < y.toNat := by
  rw [BitVec.slt_iff_toInt_lt, BitVec.toInt_eq_toNat_of_lt (by omega),
    BitVec.toInt_eq_toNat_of_lt (by omega)]
  omega

/-- The size of a piece of the padding. -/
def padCount (i : Nat) : Nat := min bufSize (setupSize - i)

theorem padCount_eq {i : BitVec 32} (hi : i.toNat ≤ setupSize) :
    (if (BitVec.ofNat 32 bufSize).ult (BitVec.ofNat 32 setupSize - i) then BitVec.ofNat 32 bufSize
      else BitVec.ofNat 32 setupSize - i) = BitVec.ofNat 32 (padCount i.toNat) := by
  have hsub : (BitVec.ofNat 32 setupSize - i).toNat = setupSize - i.toNat := by
    unfold setupSize at *
    bv_omega
  have hult : (BitVec.ofNat 32 bufSize).ult (BitVec.ofNat 32 setupSize - i) = true ↔
      bufSize < setupSize - i.toNat := by
    rw [BitVec.ult_iff_lt, BitVec.lt_def, hsub]
    rfl
  apply BitVec.eq_of_toNat_eq
  unfold padCount
  split
  · rename_i hbig
    rw [Nat.min_eq_left (Nat.le_of_lt (hult.mp hbig))]
  · rename_i hsmall
    have hle : setupSize - i.toNat ≤ bufSize := Nat.not_lt.mp fun hlt => hsmall (hult.mpr hlt)
    rw [Nat.min_eq_right hle, hsub, BitVec.toNat_ofNat]
    unfold setupSize
    omega

/-- The padding fills up to `SETUP_SECTS` sectors. -/
theorem padLoop_ok {fuel : Nat} {i : BitVec 32} {u : Unit} (hrun : padLoop h fuel i s = .ok u s')
    (hbuf : s.buf = List.replicate bufSize 0) (hi : i.toNat ≤ setupSize)
    (hfuel : setupSize - i.toNat ≤ fuel) :
    s'.out = s.out ++ List.replicate (setupSize - i.toNat) 0 := by
  induction fuel generalizing s i with
  | zero =>
    cases hrun
    rw [Nat.le_zero.mp hfuel, List.replicate_zero, List.append_nil]
  | succ fuel ih =>
    have hslt : i.slt (BitVec.ofNat 32 setupSize) = true ↔ i.toNat < setupSize :=
      slt_iff (by unfold setupSize at hi; omega) (by decide)
    rw [padLoop] at hrun
    by_cases hmore : i.toNat < setupSize
    · rw [if_pos (hslt.mpr hmore), padCount_eq hi] at hrun
      have hcount : padCount i.toNat ≤ bufSize ∧ padCount i.toNat ≤ setupSize - i.toNat ∧
          0 < padCount i.toNat := by
        unfold padCount bufSize
        omega
      have htoNat : (BitVec.ofNat 32 (padCount i.toNat)).toNat = padCount i.toNat := by
        rw [BitVec.toNat_ofNat]
        unfold bufSize at hcount
        omega
      have hgo := writeAll_ok hrun (by
        rw [BitVec.toInt_eq_toNat_of_lt]
        unfold bufSize at hcount
        omega)
      have hnext : (i + BitVec.ofNat 32 (padCount i.toNat)).toNat = i.toNat + padCount i.toNat := by
        unfold setupSize at *
        rw [BitVec.toNat_add, htoNat]
        omega
      have hout := ih hgo hbuf (by omega) (by omega)
      rw [hout, hnext, htoNat, hbuf, List.take_replicate, Nat.min_eq_left hcount.1, List.append_assoc,
        List.replicate_append_replicate]
      congr 2
      omega
    · rw [if_neg (mt hslt.mp hmore)] at hrun
      cases hrun
      rw [show setupSize - i.toNat = 0 by omega, List.replicate_zero, List.append_nil]

/-! ## The three parts -/

/-- A check in front of the rest of a run. -/
theorem check_ok {cond : Prop} [Decidable cond] {str : String} {rest : Build β} {b : β}
    (hrun : (do
      dieIf cond str
      rest) s = .ok b s') : ¬ cond ∧ rest s = .ok b s' := by
  obtain ⟨_, s₁, hcheck, hrest⟩ := bind_ok hrun
  obtain ⟨hcond, rfl⟩ := dieIf_ok hcheck
  exact ⟨hcond, hrest⟩

/-- The header is taken off. -/
theorem minixHeader_ok (hread : ∀ k, h.read k ≠ none) {what : String} {u : Unit}
    (hrun : minixHeader h what s = .ok u s') :
    32 ≤ s.fd.length ∧ s'.fd = s.fd.drop 32 ∧ s'.out = s.out ∧ s'.buf.length = max s.buf.length 32 := by
  unfold minixHeader at hrun
  obtain ⟨c, s₁, hc, hrest⟩ := bind_ok hrun
  obtain ⟨k, rfl, hle, -, rfl⟩ := read_ok hread hc
  obtain ⟨hall, hrest⟩ := check_ok hrest
  obtain ⟨_, s₂, hget, hrest⟩ := bind_ok hrest
  cases hget
  obtain ⟨-, hrest⟩ := check_ok hrest
  obtain ⟨-, hrest⟩ := check_ok hrest
  obtain ⟨-, hrest⟩ := check_ok hrest
  obtain ⟨-, hrest⟩ := check_ok hrest
  obtain ⟨-, hrest⟩ := check_ok hrest
  obtain ⟨-, rfl⟩ := dieIf_ok hrest
  have hk : k = 32 := by omega
  subst hk
  refine ⟨hle, rfl, rfl, ?_⟩
  simp only [List.length_append, List.length_take, List.length_drop]
  omega

/-- The boot sector in the image: the device numbers replace four bytes of it. -/
def bootBytes (boot : List (BitVec 8)) (d : Devices) : List (BitVec 8) :=
  (boot.drop 32).take 506 ++ [d.minorSwap, d.majorSwap, d.minorRoot, d.majorRoot] ++
    (boot.drop 542).take 2

/-- Four assignments to consecutive bytes. -/
theorem set_four (p q : List (BitVec 8)) (w x y z a b c d : BitVec 8) :
    ((((p ++ (w :: x :: y :: z :: q)).set p.length a).set (p.length + 1) b).set (p.length + 2) c).set
      (p.length + 3) d = p ++ (a :: b :: c :: d :: q) := by
  simp [List.set_append_right]

/-- The bytes around four consecutive ones. -/
theorem split_four {l : List (BitVec 8)} {n : Nat} (hlen : n + 4 ≤ l.length) :
    ∃ w x y z, l = l.take n ++ (w :: x :: y :: z :: l.drop (n + 4)) := by
  refine ⟨l[n], l[n + 1], l[n + 2], l[n + 3], ?_⟩
  rw [← List.drop_eq_getElem_cons, ← List.drop_eq_getElem_cons, ← List.drop_eq_getElem_cons,
    ← List.drop_eq_getElem_cons, List.take_append_drop]

/-- `buf` after the assignments of the device numbers. -/
theorem set_devices {l : List (BitVec 8)} (hlen : 510 ≤ l.length) (a b c d : BitVec 8) :
    (((l.set 506 a).set 507 b).set 508 c).set 509 d = l.take 506 ++ (a :: b :: c :: d :: l.drop 510) := by
  obtain ⟨w, x, y, z, hl⟩ := split_four (n := 506) hlen
  have htake : (l.take 506).length = 506 := List.length_take_of_le (by omega)
  have hset := set_four (l.take 506) (l.drop 510) w x y z a b c d
  rw [htake] at hset
  rw [← hset, ← hl]

/-- The first 512 bytes of the buffer once the sector is in it. -/
theorem sector_write {fd : List (BitVec 8)} (rest : List (BitVec 8)) (hlen : 512 ≤ fd.length)
    (d : Devices) :
    (((((fd.take 512 ++ rest).set 506 d.minorSwap).set 507 d.majorSwap).set 508 d.minorRoot).set 509
      d.majorRoot).take 512 =
      fd.take 506 ++ [d.minorSwap, d.majorSwap, d.minorRoot, d.majorRoot] ++ (fd.drop 510).take 2 := by
  have hsector : (fd.take 512).length = 512 := List.length_take_of_le hlen
  have hfirst : (fd.take 512 ++ rest).take 506 = fd.take 506 := by
    rw [List.take_append_of_le_length (by omega), List.take_take]
    rfl
  have hlast : ((fd.take 512 ++ rest).drop 510).take 2 = (fd.drop 510).take 2 := by
    rw [List.drop_append_of_le_length (by omega), List.take_append_of_le_length (by simp; omega),
      List.drop_take, List.take_take]
    rfl
  have h506 : (fd.take 506).length = 506 := List.length_take_of_le (by omega)
  rw [set_devices (by rw [List.length_append]; omega), hfirst, List.take_append, h506, List.append_assoc]
  rw [List.take_of_length_le (by omega)]
  simp [hlast]

theorem bootsect_ok (hread : ∀ k, h.read k ≠ none) {name : String} {d : Devices} {u : Unit}
    (hrun : bootsect h name d s = .ok u s') :
    ∃ boot, h.file name = some boot ∧ 544 ≤ boot.length ∧ s'.out = s.out ++ bootBytes boot d ∧
      boot.getD 542 0 = 0x55 ∧ boot.getD 543 0 = 0xAA := by
  unfold bootsect at hrun
  obtain ⟨_, s₁, hopen, hrest⟩ := bind_ok hrun
  obtain ⟨boot, hfile, -, rfl⟩ := openFile_ok hopen
  obtain ⟨_, s₂, hheader, hrest⟩ := bind_ok hrest
  obtain ⟨hlen, hfd, hout, -⟩ := minixHeader_ok hread hheader
  obtain ⟨i, s₃, hi, hrest⟩ := bind_ok hrest
  obtain ⟨k, rfl, hle, -, rfl⟩ := read_ok hread hi
  obtain ⟨hall, hrest⟩ := check_ok hrest
  have hk : k = 512 := by omega
  subst hk
  obtain ⟨_, s₄, hget, hrest⟩ := bind_ok hrest
  cases hget
  obtain ⟨hflag, hrest⟩ := check_ok hrest
  obtain ⟨_, s₅, hset, hrest⟩ := bind_ok hrest
  cases hset
  obtain ⟨_, s₆, hset, hrest⟩ := bind_ok hrest
  cases hset
  obtain ⟨_, s₇, hset, hrest⟩ := bind_ok hrest
  cases hset
  obtain ⟨_, s₈, hset, hrest⟩ := bind_ok hrest
  cases hset
  obtain ⟨c, s₉, hwrite, hrest⟩ := bind_ok hrest
  obtain ⟨hc, rfl⟩ := dieIf_ok hrest
  rw [write_ok hwrite (not_not.mp hc)]
  have hbytes := sector_write (s₂.buf.drop 512) hle d
  have hbyte : ∀ j < 512, (s₂.fd.take 512 ++ s₂.buf.drop 512).getD j 0 = boot.getD (32 + j) 0 := by
    intro j hj
    have hsector : j < (s₂.fd.take 512).length := by
      rw [List.length_take_of_le hle]
      exact hj
    rw [List.getD_eq_getElem?_getD, List.getElem?_append_left hsector, List.getElem?_take_of_lt hj, hfd,
      List.getElem?_drop, ← List.getD_eq_getElem?_getD]
  rw [hbyte 510 (by decide), hbyte 511 (by decide)] at hflag
  rw [hfd, List.length_drop] at hle
  refine ⟨boot, hfile, ?_, ?_, ?_⟩
  · have hheader : 32 ≤ boot.length := hlen
    dsimp only at hle
    omega
  · dsimp only
    rw [hbytes, hfd, hout, bootBytes, List.drop_drop]
  · have hword := not_not.mp hflag
    have hlow := congrArg (BitVec.extractLsb' 0 8) hword
    have hhigh := congrArg (BitVec.extractLsb' 8 8) hword
    rw [BitVec.extractLsb'_append_eq_of_add_le (by decide), BitVec.extractLsb'_eq_self] at hlow
    rw [BitVec.extractLsb'_append_eq_left] at hhigh
    exact ⟨hlow, hhigh⟩

/-! ## The other two parts -/

/-- The size check after a copy. A file that opens is short enough for the counter. -/
theorem copied_size {n len : Nat} (hn : n < 2 ^ 31) (hlen : len < 2 ^ 31)
    (hcheck : ¬ (BitVec.ofNat 32 n).slt (0 + BitVec.ofNat 32 len) = true) :
    (0 + BitVec.ofNat 32 len).toNat = len ∧ len ≤ n := by
  have htoNat : (0 + BitVec.ofNat 32 len).toNat = len := by
    rw [show (0 : BitVec 32) + BitVec.ofNat 32 len = BitVec.ofNat 32 len from BitVec.zero_add _]
    exact Nat.mod_eq_of_lt (by omega)
  have hbound : (BitVec.ofNat 32 n).toNat = n := Nat.mod_eq_of_lt (by omega)
  have hslt := slt_iff (hbound.symm ▸ hn) (htoNat.symm ▸ hlen)
  rw [hslt, hbound, htoNat] at hcheck
  exact ⟨htoNat, Nat.not_lt.mp hcheck⟩

theorem setup_ok (hread : ∀ k, h.read k ≠ none) {name : String} {u : Unit}
    (hrun : setup h name s = .ok u s') :
    ∃ code, h.file name = some code ∧ 32 ≤ code.length ∧ (code.drop 32).length ≤ 2048 ∧
      s'.out = s.out ++ (code.drop 32 ++ List.replicate (2048 - (code.drop 32).length) 0) := by
  unfold setup at hrun
  obtain ⟨_, s₁, hopen, hrest⟩ := bind_ok hrun
  obtain ⟨code, hfile, hsize, rfl⟩ := openFile_ok hopen
  obtain ⟨_, s₂, hheader, hrest⟩ := bind_ok hrest
  obtain ⟨hlen, hfd, hout, -⟩ := minixHeader_ok hread hheader
  obtain ⟨_, s₃, hget, hrest⟩ := bind_ok hrest
  cases hget
  obtain ⟨i, s₄, hcopy, hrest⟩ := bind_ok hrest
  obtain ⟨hcopied, rfl⟩ := copyLoop_ok hread hcopy (Nat.lt_succ_self _)
  obtain ⟨hcheck, hrest⟩ := check_ok hrest
  obtain ⟨_, s₅, hzero, hpad⟩ := bind_ok hrest
  cases hzero
  rw [hfd] at hcheck hpad
  have hcode : (code.drop 32).length < 2 ^ 31 := by
    rw [List.length_drop]
    omega
  obtain ⟨htoNat, hfits⟩ := copied_size (by decide) hcode hcheck
  have hpadded := padLoop_ok hpad rfl (by rw [htoNat]; exact hfits) (Nat.sub_le _ _)
  refine ⟨code, hfile, hlen, hfits, ?_⟩
  rw [hpadded, hcopied, hfd, hout, htoNat, List.append_assoc]
  rfl

theorem system_ok (hread : ∀ k, h.read k ≠ none) {name : String} {u : Unit}
    (hrun : system h name s = .ok u s') :
    ∃ kernel, h.file name = some kernel ∧ kernel.length ≤ 0x30000 ∧ s'.out = s.out ++ kernel := by
  unfold system at hrun
  obtain ⟨_, s₁, hopen, hrest⟩ := bind_ok hrun
  obtain ⟨kernel, hfile, hsize, rfl⟩ := openFile_ok hopen
  obtain ⟨_, s₂, hget, hrest⟩ := bind_ok hrest
  cases hget
  obtain ⟨i, s₃, hcopy, hrest⟩ := bind_ok hrest
  obtain ⟨hcopied, rfl⟩ := copyLoop_ok hread hcopy (Nat.lt_succ_self _)
  obtain ⟨hcheck, rfl⟩ := dieIf_ok hrest
  obtain ⟨-, hfits⟩ := copied_size (by decide) hsize hcheck
  exact ⟨kernel, hfile, hfits, hcopied⟩

end Runs

/-! ## The image -/

/-- The setup code as it is in the image. -/
def setupBytes (setup : List (BitVec 8)) : List (BitVec 8) :=
  setup.drop 32 ++ List.replicate (2048 - (setup.drop 32).length) 0

/-- A boot image of three files: what it is, what was checked of the files, and that its parts
can be read back. -/
structure Image (boot setup system : List (BitVec 8)) (d : Devices) (image : List (BitVec 8)) :
    Prop where
  layout : image = bootBytes boot d ++ setupBytes setup ++ system
  flag : image.getD 510 0 = 0x55 ∧ image.getD 511 0 = 0xAA
  bootSize : 544 ≤ boot.length
  setupSize : 32 ≤ setup.length ∧ (setup.drop 32).length ≤ 2048
  systemSize : system.length ≤ 0x30000
  readBoot : image.take 512 = bootBytes boot d
  readSetup : (image.drop 512).take 2048 = setupBytes setup
  readSystem : image.drop 2560 = system

variable {boot setup system : List (BitVec 8)} {d : Devices}

theorem bootBytes_length (hlen : 544 ≤ boot.length) : (bootBytes boot d).length = 512 := by
  simp only [bootBytes, List.length_append, List.length_take, List.length_drop, List.length_cons,
    List.length_nil]
  omega

theorem setupBytes_length (hlen : (setup.drop 32).length ≤ 2048) : (setupBytes setup).length = 2048 := by
  rw [setupBytes, List.length_append, List.length_replicate]
  omega

/-- The last two bytes of the sector are those of the file. -/
theorem bootBytes_flag (hlen : 544 ≤ boot.length) {j : Nat} (hj : j < 2) :
    (bootBytes boot d)[510 + j]? = boot[542 + j]? := by
  have hfirst : ((boot.drop 32).take 506 ++
      [d.minorSwap, d.majorSwap, d.minorRoot, d.majorRoot]).length = 510 := by
    simp only [List.length_append, List.length_take, List.length_drop, List.length_cons, List.length_nil]
    omega
  rw [bootBytes, List.getElem?_append_right (by omega), hfirst, Nat.add_sub_cancel_left,
    List.getElem?_take_of_lt hj, List.getElem?_drop]

theorem image_of_parts (hboot : 544 ≤ boot.length) (hlow : boot.getD 542 0 = 0x55)
    (hhigh : boot.getD 543 0 = 0xAA) (hheader : 32 ≤ setup.length)
    (hsetup : (setup.drop 32).length ≤ 2048) (hsystem : system.length ≤ 0x30000) :
    Image boot setup system d (bootBytes boot d ++ setupBytes setup ++ system) := by
  have hbootLen := bootBytes_length (d := d) hboot
  have hsetupLen := setupBytes_length hsetup
  have hbyte : ∀ j < 2, (bootBytes boot d ++ setupBytes setup ++ system).getD (510 + j) 0 =
      boot.getD (542 + j) 0 := by
    intro j hj
    rw [List.getD_eq_getElem?_getD, List.append_assoc, List.getElem?_append_left (by omega),
      bootBytes_flag hboot hj, ← List.getD_eq_getElem?_getD]
  refine ⟨rfl, ⟨?_, ?_⟩, hboot, ⟨hheader, hsetup⟩, hsystem, ?_, ?_, ?_⟩
  · exact (hbyte 0 (by decide)).trans hlow
  · exact (hbyte 1 (by decide)).trans hhigh
  · rw [List.append_assoc, ← hbootLen, List.take_left]
  · rw [List.append_assoc, ← hbootLen, List.drop_left, ← hsetupLen, List.take_left]
  · rw [show 2560 = (bootBytes boot d ++ setupBytes setup).length by
      rw [List.length_append, hbootLen, hsetupLen], List.drop_left]

/-- If `build` exits with status 0, and no `read` failed, its output is the image of the three
files and the device numbers, however the reads cut the files into pieces. -/
theorem build_image {h : Host} {argv : List String} {s : BuildState} (hread : ∀ k, h.read k ≠ none)
    (hrun : main h argv .start = .ok () s) :
    ∃ boot setup system d, h.file (argv.getD 1 "") = some boot ∧
      h.file (argv.getD 2 "") = some setup ∧ h.file (argv.getD 3 "") = some system ∧
      devices h argv = .ok d ∧ Image boot setup system d s.out := by
  unfold main at hrun
  obtain ⟨-, hrest⟩ := check_ok hrun
  cases hd : devices h argv with
  | error str =>
    rw [hd] at hrest
    cases hrest
  | ok d =>
    rw [hd] at hrest
    obtain ⟨_, s₁, hzero, hrest⟩ := bind_ok hrest
    cases hzero
    obtain ⟨_, s₂, hboot, hrest⟩ := bind_ok hrest
    obtain ⟨_, s₃, hsetup, hsystem⟩ := bind_ok hrest
    obtain ⟨boot, hfile, hbootLen, hout, hlow, hhigh⟩ := bootsect_ok hread hboot
    obtain ⟨setup, hfile', hheader, hsetupLen, hout'⟩ := setup_ok hread hsetup
    obtain ⟨system, hfile'', hsystemLen, hout''⟩ := system_ok hread hsystem
    refine ⟨boot, setup, system, d, hfile, hfile', hfile'', rfl, ?_⟩
    have himage : s.out = bootBytes boot d ++ setupBytes setup ++ system := by
      rw [hout'', hout', hout]
      rfl
    rw [himage]
    exact image_of_parts hbootLen hlow hhigh hheader hsetupLen hsystemLen

/-- A header that passes the checks. -/
def header : List (BitVec 8) := [0x01, 0x03, 0x10, 0x04, 32] ++ List.replicate 27 0

/-- A host with three small files. Its reads return 3 bytes after the first three. -/
def smallHost : Host where
  file := fun name =>
    if name = "boot" then some (header ++ List.replicate 510 0 ++ [0x55, 0xAA])
    else if name = "setup" then some (header ++ [1, 2, 3, 4, 5])
    else if name = "system" then some [6, 7, 8, 9]
    else none
  rdev := fun _ => none
  read := fun k => some (if k < 3 then 1024 else 3)
  write := fun _ => some 1024

/-- The run on that host. -/
theorem build_image_small : ∃ s boot setup system d,
    main smallHost ["build", "boot", "setup", "system"] .start = .ok () s ∧
      devices smallHost ["build", "boot", "setup", "system"] = .ok d ∧
      Image boot setup system d s.out := by
  have hok : (match main smallHost ["build", "boot", "setup", "system"] .start with
      | .ok _ _ => true
      | .error _ _ => false) = true := by decide +kernel
  cases hrun : main smallHost ["build", "boot", "setup", "system"] .start with
  | error str s =>
    rw [hrun] at hok
    cases hok
  | ok u s =>
    obtain ⟨boot, setup, system, d, -, -, -, hd, himage⟩ :=
      build_image (fun k => Option.some_ne_none _) hrun
    exact ⟨s, boot, setup, system, d, rfl, hd, himage⟩

end MockOs.Tools
