import Mathlib.Data.Finset.Card
import MockOs.Misc.Bits
import MockOs.Mm.Memory

/-!
# Words, frames and the copying loops

Addresses are those of words: `wordAddr x` is the address of word `x`, and frame `f` is the
words from `1024 * f` on. The loops of `mm/memory.c` and `mm/swap.c` are given as what they
leave in each word.
-/

namespace MockOs.Mm

/-- The address of a word. -/
def wordAddr (x : Nat) : BitVec 32 := BitVec.ofNat 32 (4 * x)

theorem toNat_wordAddr {x : Nat} (hx : x < 2 ^ 30) : (wordAddr x).toNat = 4 * x := by
  rw [wordAddr, BitVec.toNat_ofNat, Nat.mod_eq_of_lt (by omega)]

theorem wordAddr_ne_zero {x : Nat} (h0 : 0 < x) (hx : x < 2 ^ 30) : wordAddr x ≠ 0 := by
  intro hz
  have htoNat := congrArg BitVec.toNat hz
  rw [toNat_wordAddr hx] at htoNat
  have hzero : 4 * x = 0 := htoNat
  omega

theorem wordAddr_add (x y : Nat) : wordAddr x + BitVec.ofNat 32 (4 * y) = wordAddr (x + y) := by
  rw [wordAddr, wordAddr, ← BitVec.ofNat_add, Nat.mul_add]

theorem wordAddr_add_four (x : Nat) : wordAddr x + 4 = wordAddr (x + 1) := wordAddr_add x 1

theorem wordAddr_sub_four (x : Nat) : wordAddr (x + 1) - 4 = wordAddr x := by
  rw [← wordAddr_add_four, BitVec.add_sub_cancel]

namespace Memory

variable {s : Memory} {x y f : Nat} {v : BitVec 32}

/-- Frame `f` gets new contents. -/
def fill (s : Memory) (f : Nat) (c : Nat → BitVec 32) : Memory :=
  { s with word := fun x => if x / 1024 = f then c (x % 1024) else s.word x }

theorem read_wordAddr (hx : x < 2 ^ 30) : s.read (wordAddr x) = s.word x := by
  rw [read, toNat_wordAddr hx, Nat.mul_div_cancel_left x (by decide)]

theorem write_wordAddr (hx : x < 2 ^ 30) :
    s.write (wordAddr x) v = s.setWord x v := by
  rw [write, toNat_wordAddr hx, Nat.mul_div_cancel_left x (by decide)]

@[simp] theorem setWord_memMap : (s.setWord x v).memMap = s.memMap := rfl

@[simp] theorem setWord_word_self : (s.setWord x v).word x = v := by
  simp only [setWord, Function.update_self]

theorem setWord_word_ne (h : y ≠ x) : (s.setWord x v).word y = s.word y := by
  simp only [setWord, Function.update_of_ne h]

@[simp] theorem setMap_word (i : Int) (n : BitVec 8) : (s.setMap i n).word = s.word := rfl

@[simp] theorem fill_memMap (c : Nat → BitVec 32) : (s.fill f c).memMap = s.memMap := rfl

theorem fill_word (c : Nat → BitVec 32) :
    (s.fill f c).word x = if x / 1024 = f then c (x % 1024) else s.word x := rfl

theorem fill_word_self (c : Nat → BitVec 32) {i : Nat} (hi : i < 1024) :
    (s.fill f c).word (1024 * f + i) = c i := by
  rw [fill_word, if_pos (by omega)]
  congr 1
  omega

theorem fill_word_ne (c : Nat → BitVec 32) (h : x / 1024 ≠ f) : (s.fill f c).word x = s.word x :=
  if_neg h

end Memory

/-! ## `movsl` -/

theorem movsl_memMap (n : Nat) : ∀ (src dst : BitVec 32) (s : Memory),
    (movsl n src dst s).memMap = s.memMap := by
  induction n with
  | zero => intro _ _ _; rfl
  | succ n ih => intro src dst s; exact ih _ _ _

/-- Copying `n` words to a place that does not overlap them. -/
theorem movsl_word {n : Nat} : ∀ {x y : Nat} {s : Memory}, x + n < 2 ^ 30 → y + n < 2 ^ 30 →
    (x + n ≤ y ∨ y + n ≤ x) → ∀ z, (movsl n (wordAddr x) (wordAddr y) s).word z =
      if y ≤ z ∧ z < y + n then s.word (x + (z - y)) else s.word z := by
  induction n with
  | zero =>
    intro x y s _ _ _ z
    rw [if_neg (by omega)]
    rfl
  | succ n ih =>
    intro x y s hx hy hdisj z
    rw [movsl, wordAddr_add_four, wordAddr_add_four, ih (by omega) (by omega) (by omega),
      Memory.read_wordAddr (by omega), Memory.write_wordAddr (by omega)]
    by_cases hz : z = y
    · subst hz
      rw [if_neg (by omega), if_pos (by omega), Memory.setWord_word_self, Nat.sub_self, Nat.add_zero]
    · by_cases hin : y + 1 ≤ z ∧ z < y + 1 + n
      · rw [if_pos hin, if_pos (by omega), Memory.setWord_word_ne (by omega)]
        congr 1
        omega
      · rw [if_neg hin, if_neg (by omega), Memory.setWord_word_ne hz]

/-- Only the words from `y` on are written, wherever they are copied from. -/
theorem movsl_other {n : Nat} : ∀ {y z : Nat} {src : BitVec 32} {s : Memory}, y + n < 2 ^ 30 →
    ¬ (y ≤ z ∧ z < y + n) → (movsl n src (wordAddr y) s).word z = s.word z := by
  induction n with
  | zero => intro y z src s _ _; rfl
  | succ n ih =>
    intro y z src s hy hz
    rw [movsl, wordAddr_add_four, ih (by omega) (by omega), Memory.write_wordAddr (by omega),
      Memory.setWord_word_ne (by omega)]

/-- `copy_page` gives frame `g` the contents of frame `f`. -/
theorem copyPage_eq {s : Memory} {f g : Nat} (hf : f < 4096) (hg : g < 4096) (hfg : f ≠ g) :
    copyPage (wordAddr (1024 * f)) (wordAddr (1024 * g)) s =
      s.fill g fun i => s.word (1024 * f + i) := by
  apply Memory.ext
  · funext z
    rw [copyPage, movsl_word (by omega) (by omega) (by omega), Memory.fill_word]
    by_cases hz : z / 1024 = g
    · rw [if_pos (by omega), if_pos hz]
      congr 1
      omega
    · rw [if_neg (by omega), if_neg hz]
  · exact movsl_memMap 1024 _ _ s

/-! ## `get_free_page` -/

/-- The scan finds the last free page. -/
theorem scanMap_spec {m : Int → BitVec 8} : ∀ n : Nat,
    (∃ i : Nat, i < n ∧ m i = 0 ∧ scanMap m n = i ∧ ∀ j : Nat, i < j → j < n → m j ≠ 0) ∨
      (scanMap m n = -1 ∧ ∀ j : Nat, j < n → m j ≠ 0) := by
  intro n
  induction n with
  | zero => exact Or.inr ⟨rfl, fun j hj => absurd hj (Nat.not_lt_zero j)⟩
  | succ n ih =>
    by_cases hn : m n = 0
    · refine Or.inl ⟨n, Nat.lt_succ_self n, hn, ?_, fun j h1 h2 => by omega⟩
      rw [scanMap, if_neg (not_not_intro hn)]
    · have hscan : scanMap m (n + 1) = scanMap m n := by rw [scanMap, if_pos hn]
      rw [hscan]
      rcases ih with ⟨i, hi, h0, heq, hlast⟩ | ⟨heq, hall⟩
      · refine Or.inl ⟨i, by omega, h0, heq, fun j h1 h2 => ?_⟩
        by_cases hj : j = n
        · subst hj
          exact hn
        · exact hlast j h1 (by omega)
      · refine Or.inr ⟨heq, fun j h2 => ?_⟩
        by_cases hj : j = n
        · subst hj
          exact hn
        · exact hall j (by omega)

theorem scanMap_congr {m m' : Int → BitVec 8} {n : Nat} (h : ∀ i : Nat, i < n → (m i = 0 ↔ m' i = 0)) :
    scanMap m n = scanMap m' n := by
  induction n with
  | zero => rfl
  | succ n ih =>
    rw [scanMap, scanMap, ih fun i hi => h i (by omega)]
    exact if_congr (not_congr (h n (by omega))) rfl rfl

/-- Clearing `n` words, from word `x + n - 1` down to word `x`. -/
theorem zeroLoop_eq (x : Nat) : ∀ (n : Nat) (s : Memory), x + n < 2 ^ 30 →
    zeroLoop n (wordAddr (x + n) - 4) s =
      { s with word := fun z => if x ≤ z ∧ z < x + n then 0 else s.word z } := by
  intro n
  induction n with
  | zero =>
    intro s _
    have hout : ∀ z, ¬ (x ≤ z ∧ z < x + 0) := by omega
    simp only [hout, if_false]
    rfl
  | succ n ih =>
    intro s hx
    rw [show x + (n + 1) = x + n + 1 from rfl, wordAddr_sub_four, zeroLoop, ih _ (by omega),
      Memory.write_wordAddr (by omega)]
    apply Memory.ext
    · funext z
      show (if x ≤ z ∧ z < x + n then 0 else (s.setWord (x + n) 0).word z) = if _ then 0 else s.word z
      by_cases hz : z = x + n
      · subst hz
        rw [if_neg (by omega), if_pos (by omega), Memory.setWord_word_self]
      · rw [Memory.setWord_word_ne hz]
        by_cases hin : x ≤ z ∧ z < x + n
        · rw [if_pos hin, if_pos (by omega)]
        · rw [if_neg hin, if_neg (by omega)]
    · rfl

/-- What `get_free_page` does when the scan ends at page `g`, counted from the start of
memory: the page is marked and cleared. At the end of the scan this is the frame below
`LOW_MEM`. -/
theorem getFreePage_scan {s : Memory} {g : Nat} (hg : g < 4096)
    (h : scanMap s.memMap pagingPages = (g : Int) - 256) :
    getFreePage s = ((s.setMap ((g : Int) - 256) 1).fill g fun _ => 0, wordAddr (1024 * g)) := by
  have hpage : BitVec.ofInt 32 (((g : Int) - 256) * 4096) + lowMem = wordAddr (1024 * g) := by
    have hsplit : ((4 * (1024 * g) : Nat) : Int) = ((g : Int) - 256) * 4096 + 1048576 := by omega
    have hlow : lowMem = BitVec.ofInt 32 1048576 := by decide
    rw [wordAddr, ← BitVec.ofInt_natCast, hsplit, BitVec.ofInt_add, hlow]
  have hend : wordAddr (1024 * g) + 4092#32 = wordAddr (1024 * g + 1024) - 4 := by
    rw [wordAddr_sub_four (1024 * g + 1023), ← wordAddr_add]
  have hzero : ∀ m : Memory, zeroLoop 1024 (wordAddr (1024 * g) + 4092) m =
      m.fill g fun _ => 0 := by
    intro m
    show zeroLoop 1024 (wordAddr (1024 * g) + 4092#32) m = _
    rw [hend, zeroLoop_eq _ _ _ (by omega)]
    apply Memory.ext
    · funext z
      show (if _ then 0 else m.word z) = if _ then 0 else m.word z
      by_cases hz : z / 1024 = g
      · rw [if_pos (by omega), if_pos hz]
      · rw [if_neg (by omega), if_neg hz]
    · rfl
  simp only [getFreePage, h, hpage, hzero]

theorem mem_freePages {s : Memory} {i : Nat} :
    i ∈ s.freePages ↔ i < pagingPages ∧ s.memMap i = 0 := by
  rw [Memory.freePages, Finset.mem_filter, Finset.mem_range]

theorem Memory.freePages_congr {s s' : Memory} (h : s'.memMap = s.memMap) : s'.freePages = s.freePages := by
  rw [freePages, freePages, h]

/-- A page that is taken. -/
theorem freePages_take (s : Memory) {k : Nat} (hk : 256 ≤ k) (c : Nat → BitVec 32) :
    ((s.setMap ((k : Int) - 256) 1).fill k c).freePages = s.freePages.erase (k - 256) := by
  ext i
  rw [Finset.mem_erase, mem_freePages, mem_freePages]
  show i < pagingPages ∧ Function.update s.memMap ((k : Int) - 256) 1 i = 0 ↔ _
  by_cases hik : i = k - 256
  · rw [show (i : Int) = (k : Int) - 256 by omega, Function.update_self]
    exact ⟨fun h => absurd h.2 (by decide), fun h => absurd hik h.1⟩
  · rw [Function.update_of_ne (by omega)]
    exact ⟨fun h => ⟨hik, h⟩, fun h => h.2⟩

/-- `get_free_page` with a free page. -/
theorem getFreePage_eq {s : Memory} (h : s.freePages.Nonempty) :
    ∃ g : Nat, 256 ≤ g ∧ g < 4096 ∧ s.memMap ((g : Int) - 256) = 0 ∧
      getFreePage s = ((s.setMap ((g : Int) - 256) 1).fill g fun _ => 0, wordAddr (1024 * g)) := by
  rcases scanMap_spec (m := s.memMap) pagingPages with ⟨i, hi, h0, heq, -⟩ | ⟨-, hall⟩
  · have hlt : i < 3840 := hi
    have hidx : ((i + 256 : Nat) : Int) - 256 = i := by omega
    refine ⟨i + 256, by omega, by omega, ?_, getFreePage_scan (by omega) ?_⟩
    · rw [hidx]
      exact h0
    · rw [hidx]
      exact heq
  · rcases h with ⟨i, hi⟩
    rw [mem_freePages] at hi
    exact absurd hi.2 (hall i hi.1)

/-- Without a free page, `get_free_page` takes frame 255, which is not one of its own. -/
theorem getFreePage_full {s : Memory} (h : s.freePages = ∅) :
    getFreePage s = ((s.setMap (-1) 1).fill 255 fun _ => 0, wordAddr (1024 * 255)) := by
  refine getFreePage_scan (g := 255) (by decide) ?_
  rcases scanMap_spec (m := s.memMap) pagingPages with ⟨i, hi, h0, -, -⟩ | ⟨heq, -⟩
  · have hmem : i ∈ s.freePages := mem_freePages.mpr ⟨hi, h0⟩
    rw [h] at hmem
    exact absurd hmem (Finset.notMem_empty i)
  · exact heq

/-- Which page is returned depends on which ones are free. -/
theorem getFreePage_congr {s s' : Memory} (h : s'.freePages = s.freePages) : (getFreePage s').2 = (getFreePage s).2 := by
  have hscan : scanMap s'.memMap pagingPages = scanMap s.memMap pagingPages := by
    refine scanMap_congr fun i hi => ?_
    have hmem : i ∈ s'.freePages ↔ i ∈ s.freePages := by rw [h]
    rw [mem_freePages, mem_freePages] at hmem
    exact ⟨fun h0 => (hmem.mp ⟨hi, h0⟩).2, fun h0 => (hmem.mpr ⟨hi, h0⟩).2⟩
  show BitVec.ofInt 32 (scanMap s'.memMap pagingPages * 4096) + lowMem = _
  rw [hscan]
  rfl

/-- Without a free page, `get_free_page` still returns an address. -/
theorem getFreePage_ne_zero (s : Memory) : (getFreePage s).2 ≠ 0 := by
  rcases s.freePages.eq_empty_or_nonempty with h | h
  · rw [getFreePage_full h]
    exact wordAddr_ne_zero (by decide) (by decide)
  · rcases getFreePage_eq h with ⟨g, hlow, hhigh, -, heq⟩
    rw [heq]
    exact wordAddr_ne_zero (by omega) (by omega)

end MockOs.Mm
