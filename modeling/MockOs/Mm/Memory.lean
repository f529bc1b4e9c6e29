import Mathlib.Data.Finset.Card
import Mathlib.Logic.Function.Basic

/-!
# Paging (`mm/memory.c`, `mm/swap.c`, `setup_paging` of `boot/head.s`)

Physical memory is an array of 32-bit words: all the code here reads and writes aligned
words. The kernel runs on the identity mapping of the first 16 MB, so its pointers are
physical addresses. The page directory is in frame 0 and the four kernel page tables in
frames 1 to 4. The accessed and dirty bits that the processor sets in the entries are left
out, and `invalidate()` has nothing to do.
-/

namespace MockOs.Mm

/-- `LOW_MEM` (`include/linux/mm.h:5`). -/
def lowMem : BitVec 32 := 0x100000

/-- `USED` (`include/linux/mm.h:6`). -/
def used : BitVec 8 := 100

/-- `PAGING_PAGES` (`include/linux/mm.h:8`). -/
def pagingPages : Nat := 3840

/-- Physical memory, by word number, and `mem_map`. The index of `mem_map` is an `int`: -1 is
the byte in front of the array. -/
@[ext]
structure Memory where
  word : Nat → BitVec 32
  memMap : Int → BitVec 8

def Memory.setWord (s : Memory) (x : Nat) (w : BitVec 32) : Memory :=
  { s with word := Function.update s.word x w }

/-- The word at an address. -/
def Memory.read (s : Memory) (a : BitVec 32) : BitVec 32 := s.word (a.toNat / 4)

def Memory.write (s : Memory) (a w : BitVec 32) : Memory := s.setWord (a.toNat / 4) w

def Memory.setMap (s : Memory) (i : Int) (n : BitVec 8) : Memory :=
  { s with memMap := Function.update s.memMap i n }

/-- Why a call does not return: `panic` stops the machine, and `loop` stands for a search that
is still going on when its bound is reached. -/
inductive Halt where
  | panic (msg : String)
  | loop
  deriving DecidableEq

/-- `MAP_NR(addr)` (`include/linux/mm.h:9`). -/
def mapNr (a : BitVec 32) : Int := ((a - lowMem) >>> 12).toNat

/-! ## Allocation (`mm/swap.c`) -/

/-- The numbers of the free pages. -/
def Memory.freePages (s : Memory) : Finset Nat :=
  (Finset.range pagingPages).filter fun i => s.memMap i = 0

/-- The `while` loop of `get_free_page` (`swap.c:15-17`), with `i = n - 1`: `mem_map[i]` is
read before `i >= 0` is tested, and either way the loop ends at -1. -/
def scanMap (memMap : Int → BitVec 8) : Nat → Int
  | 0 => -1
  | n + 1 => if memMap n ≠ 0 then scanMap memMap n else n

/-- The indices at which that loop reads `mem_map`, in turn. -/
def scanReads (memMap : Int → BitVec 8) : Nat → List Int
  | 0 => [-1]
  | n + 1 => n :: if memMap n ≠ 0 then scanReads memMap n else []

/-- The loop of `get_free_page` that clears the page from its end (`swap.c:22-25`). -/
def zeroLoop : Nat → BitVec 32 → Memory → Memory
  | 0, _, s => s
  | j + 1, m, s => zeroLoop j (m - 4) (s.write m 0)

/-- `get_free_page()` (`swap.c:10-27`). -/
def getFreePage (s : Memory) : Memory × BitVec 32 :=
  let i := scanMap s.memMap pagingPages
  let s := s.setMap i 1
  let page := BitVec.ofInt 32 (i * 4096) + lowMem
  (zeroLoop 1024 (page + 4092) s, page)

/-! ## Sharing and unsharing (`mm/memory.c`) -/

/-- `rep movsl`, with `n` in `ecx`. -/
def movsl : Nat → BitVec 32 → BitVec 32 → Memory → Memory
  | 0, _, _, s => s
  | n + 1, src, dst, s => movsl n (src + 4) (dst + 4) (s.write dst (s.read src))

/-- `copy_page(from, to)` (`memory.c:5-6`). -/
def copyPage (src dst : BitVec 32) (s : Memory) : Memory := movsl 1024 src dst s

/-- The inner loop of `copy_page_tables` (`memory.c:75-90`). -/
def copyEntries : Nat → BitVec 32 → BitVec 32 → Memory → Memory
  | 0, _, _, s => s
  | nr + 1, fromPt, toPt, s =>
    let thisPage := s.read fromPt
    if thisPage = 0 then copyEntries nr (fromPt + 4) (toPt + 4) s
    else
      let thisPage := thisPage &&& ~~~2#32
      let s := s.write toPt thisPage
      if thisPage > lowMem then
        let s := s.write fromPt thisPage
        let s := s.setMap (mapNr thisPage) (s.memMap (mapNr thisPage) + 1)
        copyEntries nr (fromPt + 4) (toPt + 4) s
      else copyEntries nr (fromPt + 4) (toPt + 4) s

/-- The outer loop of `copy_page_tables` (`memory.c:55-93`); the result is the function's. -/
def copyDirs (src : BitVec 32) : Nat → BitVec 32 → BitVec 32 → Memory → Except Halt (Memory × Int)
  | 0, _, _, s => .ok (s, 0)
  | size + 1, fromDir, toDir, s =>
    if 1#32 &&& s.read toDir ≠ 0 then .error (.panic "copy_page_tables: already exist")
    else if 1#32 &&& s.read fromDir = 0 then copyDirs src size (fromDir + 4) (toDir + 4) s
    else
      let fromPt := 0xfffff000#32 &&& s.read fromDir
      let (s, toPt) := getFreePage s
      if toPt = 0 then .ok (s, -1)
      else
        let s := s.write toDir (toPt ||| 7)
        let nr := if src = 0 then 0xA0 else 1024
        copyDirs src size (fromDir + 4) (toDir + 4) (copyEntries nr fromPt toPt s)

/-- `copy_page_tables(from, to, size)` (`memory.c:30-94`). -/
def copyPageTables (src dst size : BitVec 32) (s : Memory) : Except Halt (Memory × Int) :=
  if src &&& 0x3fffff ≠ 0 ∨ dst &&& 0x3fffff ≠ 0 then
    .error (.panic "copy_page_tables called with wrong alignment")
  else
    copyDirs src ((size + 0x3fffff) >>> 22).toNat ((src >>> 20) &&& 0xffc) ((dst >>> 20) &&& 0xffc) s

/-- `un_wp_page(table_entry)` (`memory.c:110-130`). -/
def unWpPage (entry : BitVec 32) (s : Memory) : Memory :=
  let oldPage := 0xfffff000#32 &&& s.read entry
  if oldPage ≥ lowMem ∧ s.memMap (mapNr oldPage) = 1 then
    s.write entry (s.read entry ||| 2)
  else
    let (s, newPage) := getFreePage s
    let s := if oldPage ≥ lowMem then s.setMap (mapNr oldPage) (s.memMap (mapNr oldPage) - 1) else s
    let s := copyPage oldPage newPage s
    s.write entry (newPage ||| 7)

/-- `do_wp_page(error_code, address)` (`memory.c:98-108`); the error code is not looked at. -/
def doWpPage (address : BitVec 32) (s : Memory) : Memory :=
  let y := s.read ((address >>> 20) &&& 0xffc) &&& 0xfffff000
  unWpPage (y + ((address >>> 12) &&& 0x3ff) * 4) s

/-- `lin2phy(address)` (`include/linux/mm.h:19-21`): the address of the page table entry. -/
def lin2phy (address : BitVec 32) (s : Memory) : BitVec 32 :=
  ((address >>> 10) &&& 0xffc) + (0xfffff000#32 &&& s.read ((address >>> 20) &&& 0xffc))

/-! ## Set up -/

/-- `rep stosl` with `eax = 0` (`head.s:292-296`). -/
def clearWords : Nat → BitVec 32 → Memory → Memory
  | 0, _, s => s
  | n + 1, edi, s => clearWords n (edi + 4) (s.write edi 0)

/-- The loop that fills the page tables backwards (`head.s:313-319`). -/
def fillTables : Nat → BitVec 32 → BitVec 32 → Memory → Memory
  | 0, _, _, s => s
  | n + 1, edi, eax, s =>
    let s := s.write edi eax
    let eax := eax - 0x1000
    if eax.slt 0 then s else fillTables n (edi - 4) eax s

/-- `setup_paging` (`head.s:290-328`): `pg0` to `pg3` are at 0x1000 to 0x4000. -/
def setupPaging (s : Memory) : Memory :=
  let s := clearWords (1024 * 5) 0 s
  let s := s.write 0 (0x1000 + 7)
  let s := s.write 4 (0x2000 + 7)
  let s := s.write 8 (0x3000 + 7)
  let s := s.write 12 (0x4000 + 7)
  fillTables 4096 (0x4000 + 4092) 0xfff007 s

/-- Sets `mem_map[i .. i+n-1]`. -/
def fillMap (v : BitVec 8) : Nat → Int → Memory → Memory
  | 0, _, s => s
  | n + 1, i, s => fillMap v n (i + 1) (s.setMap i v)

/-- `mem_init(start_mem, end_mem)` (`memory.c:14-28`). -/
def memInit (startMem endMem : BitVec 32) (s : Memory) : Memory :=
  let s := fillMap used pagingPages 0 s
  fillMap 0 ((endMem - startMem).sshiftRight 12).toNat (mapNr startMem) s

end MockOs.Mm
