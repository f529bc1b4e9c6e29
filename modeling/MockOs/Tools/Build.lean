import MockOs.Misc.Bytes

/-!
# The boot image (`tools/build.c`)

`build` copies a boot sector, the setup code and the kernel to its standard output, through one
buffer of 1 KB. It runs on a host that decides how many bytes each `read` and `write` moves.
Text on the standard error output is left out, but for the last message of a failed run.
-/

namespace MockOs.Tools

/-- What the host answers. `read k` is what the `k`-th call of `read` would like to return and
`write k` the same for `write`, `none` an error; the calls below cut it to what is possible. -/
structure Host where
  file : String → Option (List (BitVec 8))
  /-- `st_rdev` of a `stat` that succeeds. -/
  rdev : String → Option (BitVec 64)
  read : Nat → Option Nat
  write : Nat → Option Nat

/-- The buffer, what is left of the file that is open, the standard output, and how many calls
of `read` and `write` there were. -/
structure BuildState where
  buf : List (BitVec 8)
  fd : List (BitVec 8)
  out : List (BitVec 8)
  reads : Nat
  writes : Nat

/-- A run of the program: it ends with a message and status 1, or goes on. -/
abbrev Build := EStateM String BuildState

/-- `die(str)` (`build.c:75-79`). -/
def die {α : Type} (str : String) : Build α := throw str

/-- `if (cond) die(str);` -/
def dieIf (cond : Prop) [Decidable cond] (str : String) : Build Unit :=
  if cond then die str else pure ()

/-! ## System calls -/

/-- `sizeof buf`. -/
def bufSize : Nat := 1024

/-- `open(name, O_RDONLY, 0)`. A file of 2 GB or more does not open with a 32-bit `off_t`. -/
def openFile (h : Host) (name str : String) : Build Unit := do
  match h.file name with
  | none => die str
  | some content =>
    dieIf (2 ^ 31 ≤ content.length) str
    modify fun s => { s with fd := content }

/-- How many bytes a `read` of `n` returns with `left` bytes before the end of the file. -/
def readCount (want n left : Nat) : Nat := if left = 0 then 0 else min (max want 1) (min n left)

/-- `read(id, buf, n)`. -/
def read (h : Host) (n : Nat) : Build Int := do
  let s ← get
  match h.read s.reads with
  | none =>
    set { s with reads := s.reads + 1 }
    return -1
  | some want =>
    let c := readCount want n s.fd.length
    set { s with reads := s.reads + 1, buf := s.fd.take c ++ s.buf.drop c, fd := s.fd.drop c }
    return c

/-- `write(1, buf, n)`. -/
def write (h : Host) (n : Nat) : Build Int := do
  let s ← get
  match h.write s.writes with
  | none =>
    set { s with writes := s.writes + 1 }
    return -1
  | some want =>
    let c := min want n
    set { s with writes := s.writes + 1, out := s.out ++ s.buf.take c }
    return c

/-! ## The device numbers -/

/-- The device numbers that go into the boot sector. -/
structure Devices where
  majorRoot : BitVec 8
  minorRoot : BitVec 8
  majorSwap : BitVec 8
  minorSwap : BitVec 8
  deriving DecidableEq

/-- `MAJOR(a)` and `MINOR(a)` (`build.c:47-52`), stored in a `char`. -/
def major (a : BitVec 64) : BitVec 8 := ((a.setWidth 32) >>> 8).setWidth 8
def minor (a : BitVec 64) : BitVec 8 := (a &&& 0xff).setWidth 8

/-- The device of an argument, or 0 for the name that stands for no device. -/
def statDevice (h : Host) (arg noDevice : String) : Except String (BitVec 8 × BitVec 8) :=
  if arg ≠ noDevice then
    match h.rdev arg with
    | none => throw "Couldn't stat root device."
    | some rdev => pure (major rdev, minor rdev)
  else pure (0, 0)

/-- `build.c:107-153`. -/
def devices (h : Host) (argv : List String) : Except String Devices := do
  let argc := argv.length
  let (majorRoot, minorRoot) ←
    if argc > 4 then statDevice h (argv.getD 4 "") "FLOPPY" else pure (3, 1)
  let (majorSwap, minorSwap) ←
    if argc = 6 then statDevice h (argv.getD 5 "") "NONE" else pure (3, 4)
  if majorRoot ≠ 2 ∧ majorRoot ≠ 3 ∧ majorRoot ≠ 0 then throw "Bad root device --- major #"
  if majorSwap ≠ 0 ∧ majorSwap ≠ 3 then throw "Bad root device --- major #"
  return ⟨majorRoot, minorRoot, majorSwap, minorSwap⟩

/-! ## The three parts -/

/-- `((long *) buf)[i]`. -/
def BuildState.long (s : BuildState) (i : Nat) : BitVec 32 :=
  Bytes.load32 (fun a => s.buf.getD a 0) (4 * i)

/-- The header of 32 bytes (`build.c:165-189` and `219-243`). -/
def minixHeader (h : Host) (what : String) : Build Unit := do
  let c ← read h 32
  dieIf (c ≠ 32) ("Unable to read header of '" ++ what ++ "'")
  let s ← get
  dieIf (s.long 0 ≠ 0x04100301) ("Non-Minix header of '" ++ what ++ "'")
  dieIf (s.long 1 ≠ 32) ("Non-Minix header of '" ++ what ++ "'")
  dieIf (s.long 3 ≠ 0) ("Illegal data segment in '" ++ what ++ "'")
  dieIf (s.long 4 ≠ 0) ("Illegal bss in '" ++ what ++ "'")
  dieIf (s.long 5 ≠ 0) ("Non-Minix header of '" ++ what ++ "'")
  dieIf (s.long 7 ≠ 0) ("Illegal symbol table in '" ++ what ++ "'")

/-- `buf[i] = v`. -/
def setBuf (i : Nat) (v : BitVec 8) : Build Unit := modify fun s => { s with buf := s.buf.set i v }

/-- The boot sector (`build.c:160-212`). -/
def bootsect (h : Host) (name : String) (d : Devices) : Build Unit := do
  openFile h name "Unable to open 'boot'"
  minixHeader h "boot"
  let i ← read h bufSize
  dieIf (i ≠ 512) "Boot block must be exactly 512 bytes"
  let s ← get
  dieIf (s.buf.getD 511 0 ++ s.buf.getD 510 0 ≠ 0xAA55#16) "Boot block hasn't got boot flag (0xAA55)"
  setBuf 506 d.minorSwap
  setBuf 507 d.majorSwap
  setBuf 508 d.minorRoot
  setBuf 509 d.majorRoot
  let i ← write h 512
  dieIf (i ≠ 512) "Write call failed"

/-- The copy loop (`build.c:245-249` and `291-295`), at most `fuel` times round. -/
def copyLoop (h : Host) : (fuel : Nat) → (i : BitVec 32) → Build (BitVec 32)
  | 0, i => pure i
  | fuel + 1, i => do
    let c ← read h bufSize
    if c > 0 then
      let w ← write h c.toNat
      dieIf (w ≠ c) "Write call failed"
      copyLoop h fuel (i + BitVec.ofInt 32 c)
    else pure i

/-- `SETUP_SECTS * 512`. -/
def setupSize : Nat := 4 * 512

/-- The padding (`build.c:260-269`), at most `fuel` times round. -/
def padLoop (h : Host) : (fuel : Nat) → (i : BitVec 32) → Build Unit
  | 0, _ => pure ()
  | fuel + 1, i =>
    if i.slt (BitVec.ofNat 32 setupSize) then do
      let c := BitVec.ofNat 32 setupSize - i
      let c := if (BitVec.ofNat 32 bufSize).ult c then BitVec.ofNat 32 bufSize else c
      let w ← write h c.toNat
      dieIf (w ≠ c.toInt) "Write call failed"
      padLoop h fuel (i + c)
    else pure ()

/-- The setup code (`build.c:215-269`). No file has more bytes than the loop has turns. -/
def setup (h : Host) (name : String) : Build Unit := do
  openFile h name "Unable to open 'setup'"
  minixHeader h "setup"
  let s ← get
  let i ← copyLoop h (s.fd.length + 1) 0
  dieIf ((BitVec.ofNat 32 setupSize).slt i)
    "Setup exceeds SETUP_SECTS sectors - rewrite build/boot/setup"
  modify fun s => { s with buf := List.replicate bufSize 0 }
  padLoop h setupSize i

/-- `SYS_SIZE * 16`. -/
def systemSize : Nat := 0x3000 * 16

/-- The kernel (`build.c:273-301`). -/
def system (h : Host) (name : String) : Build Unit := do
  openFile h name "Unable to open 'system'"
  let s ← get
  let i ← copyLoop h (s.fd.length + 1) 0
  dieIf ((BitVec.ofNat 32 systemSize).slt i) "System is too big"

/-- `main` (`build.c:88-303`). A run that returns exits with status 0. -/
def main (h : Host) (argv : List String) : Build Unit := do
  let argc := argv.length
  dieIf (argc < 4 ∨ argc > 6) "Usage: build bootsect setup system [rootdev] [> image]"
  match devices h argv with
  | .error str => die str
  | .ok d =>
    modify fun s => { s with buf := List.replicate bufSize 0 }
    bootsect h (argv.getD 1 "") d
    setup h (argv.getD 2 "")
    system h (argv.getD 3 "")

/-- The program before its first instruction; what is in `buf` is overwritten. -/
def BuildState.start : BuildState := ⟨List.replicate bufSize 0, [], [], 0, 0⟩

end MockOs.Tools
