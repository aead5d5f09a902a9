import Mathlib.Data.BitVec
import Mathlib.Data.Fin.VecNotation
import Mathlib.Tactic.FinCases
import Mathlib.Tactic.IntervalCases
import XmrMiner.Lib.Schedule

/-!
# Little-endian byte memory

A memory is a function from addresses to bytes.  Words of 32 and 64 bits are
read and written least significant byte first, which is how a pointer cast of a
byte buffer behaves on the machines a C program of this kind runs on.  Every
access is at an arbitrary, possibly unaligned, address.

## Main definitions

* `load32`, `store32`, `load64`, `store64` — word access.
* `Block`, `loadBlock` — sixteen bytes as four 32-bit words.
* `bytes`, `storeBytes` — a range as a list of bytes.
* `memcmp` — whether two ranges differ.

## Main results

* `load32_store32_self`, `load32_store32_of_disjoint` — the two laws of a word
  store; those of the wider accesses follow from them.
* `loadBlock_storeHalves` — a block written by halves.
* `storeBytes_of_lt` — reading back a written list.
-/

/-- A byte-addressed memory. -/
abbrev ByteMem := ℕ → BitVec 8

namespace ByteMem

/-! ### Small indices -/

-- one instance each, so that a literal is the same term in every module
instance neZeroTwo : NeZero 2 := ⟨two_ne_zero⟩

instance neZeroFour : NeZero 4 := ⟨four_ne_zero⟩

instance neZeroEight : NeZero 8 := ⟨by decide⟩

/-! ### Masks -/

/-- A mask of the low `k` bits is a remainder. -/
theorem toNat_and_mask {w : ℕ} (x mask : BitVec w) {k : ℕ} (hmask : mask.toNat = 2 ^ k - 1) :
    (x &&& mask).toNat = x.toNat % 2 ^ k := by
  rw [BitVec.toNat_and, hmask, Nat.and_two_pow_sub_one_eq_mod]

/-! ### Words of 32 bits -/

/-- The 32-bit word at `p`, least significant byte first. -/
def load32 (m : ByteMem) (p : ℕ) : BitVec 32 :=
  m (p + 3) ++ m (p + 2) ++ m (p + 1) ++ m p

theorem load32_zero (p : ℕ) : load32 (fun _ => 0) p = 0 := by
  show (0 : BitVec 8) ++ (0 : BitVec 8) ++ (0 : BitVec 8) ++ (0 : BitVec 8) = (0 : BitVec 32)
  rfl

/-- Write the 32-bit word `v` at `p`. -/
def store32 (m : ByteMem) (p : ℕ) (v : BitVec 32) : ByteMem := fun q =>
  if q = p then v.extractLsb' 0 8
  else if q = p + 1 then v.extractLsb' 8 8
  else if q = p + 2 then v.extractLsb' 16 8
  else if q = p + 3 then v.extractLsb' 24 8
  else m q

/-- A word is the concatenation of its four bytes. -/
theorem append_bytes_eq (v : BitVec 32) :
    v.extractLsb' 24 8 ++ v.extractLsb' 16 8 ++ v.extractLsb' 8 8 ++ v.extractLsb' 0 8 = v := by
  rw [BitVec.extractLsb'_append_extractLsb'_eq_extractLsb' (by rfl),
    BitVec.extractLsb'_append_extractLsb'_eq_extractLsb' (by rfl),
    BitVec.extractLsb'_append_extractLsb'_eq_extractLsb' (by rfl)]
  exact BitVec.extractLsb'_eq_self

theorem store32_of_disjoint (m : ByteMem) {p q : ℕ} (v : BitVec 32)
    (h : q < p ∨ p + 4 ≤ q) : store32 m p v q = m q := by
  unfold store32
  rw [if_neg (by omega), if_neg (by omega), if_neg (by omega), if_neg (by omega)]

theorem store32_congr {m m' : ByteMem} {q : ℕ} (h : m q = m' q) (p : ℕ) (v : BitVec 32) :
    store32 m p v q = store32 m' p v q := by
  unfold store32
  rw [h]

@[simp] theorem load32_store32_self (m : ByteMem) (p : ℕ) (v : BitVec 32) :
    load32 (store32 m p v) p = v := by
  have h : load32 (store32 m p v) p
      = v.extractLsb' 24 8 ++ v.extractLsb' 16 8 ++ v.extractLsb' 8 8 ++ v.extractLsb' 0 8 := by
    simp [load32, store32]
  rw [h, append_bytes_eq]

/-- Words with the same bytes, wherever they are. -/
theorem load32_eq_of_bytes {m m' : ByteMem} {p p' : ℕ} (h : ∀ i < 4, m' (p' + i) = m (p + i)) :
    load32 m' p' = load32 m p := by
  have h0 : m' p' = m p := h 0 (by omega)
  simp only [load32, h0, h 1 (by omega), h 2 (by omega), h 3 (by omega)]

theorem load32_congr {m m' : ByteMem} {p : ℕ} (h : ∀ i < 4, m' (p + i) = m (p + i)) :
    load32 m' p = load32 m p := load32_eq_of_bytes h

theorem load32_store32_of_disjoint (m : ByteMem) {p q : ℕ} (v : BitVec 32)
    (h : q + 4 ≤ p ∨ p + 4 ≤ q) : load32 (store32 m p v) q = load32 m q :=
  load32_congr fun i hi => store32_of_disjoint m v (by omega)

/-- The top byte of a word. -/
theorem load32_top (m : ByteMem) (p : ℕ) : (load32 m p).extractLsb' 24 8 = m (p + 3) := by
  apply BitVec.eq_of_getLsbD_eq
  intro i hi
  simp only [load32, BitVec.getLsbD_extractLsb', BitVec.getLsbD_append, hi]
  grind

/-- The low bytes of a word. -/
theorem load32_low (m : ByteMem) (p : ℕ) : (load32 m p).extractLsb' 0 8 = m p ∧
    (load32 m p).extractLsb' 8 8 = m (p + 1) ∧ (load32 m p).extractLsb' 16 8 = m (p + 2) := by
  refine ⟨?_, ?_, ?_⟩ <;>
  · apply BitVec.eq_of_getLsbD_eq
    intro i hi
    simp only [load32, BitVec.getLsbD_extractLsb', BitVec.getLsbD_append, hi]
    grind

/-- Writing a word twice. -/
theorem store32_store32_self (m : ByteMem) (p : ℕ) (v v' : BitVec 32) :
    store32 (store32 m p v) p v' = store32 m p v' := by
  funext q
  simp only [store32]
  split_ifs <;> rfl

/-- Writing back the word that is there. -/
theorem store32_load32_self (m : ByteMem) (p : ℕ) : store32 m p (load32 m p) = m := by
  funext q
  obtain ⟨h0, h1, h2⟩ := load32_low m p
  unfold store32
  split_ifs with hq0 hq1 hq2 hq3
  · rw [h0, hq0]
  · rw [h1, hq1]
  · rw [h2, hq2]
  · rw [load32_top, hq3]
  · rfl

/-- Copying a word copies its bytes. -/
theorem store32_load32 (m src : ByteMem) (p s q : ℕ) :
    store32 m p (load32 src s) q = if p ≤ q ∧ q < p + 4 then src (s + (q - p)) else m q := by
  obtain ⟨h0, h1, h2⟩ := load32_low src s
  by_cases hq : p ≤ q ∧ q < p + 4
  · obtain ⟨i, rfl⟩ := Nat.exists_eq_add_of_le hq.1
    rw [if_pos hq, Nat.add_sub_cancel_left]
    have hi : i < 4 := by omega
    interval_cases i
    · simp [store32, h0]
    · simp [store32, h1]
    · simp [store32, h2]
    · simp [store32, load32_top]
  · rw [if_neg hq, store32_of_disjoint _ _ (by omega)]

/-- Overwriting the top byte of a word. -/
theorem load32_update_top (m : ByteMem) (p : ℕ) (b : BitVec 8) :
    load32 (Function.update m (p + 3) b) p = b ++ (load32 m p).extractLsb' 0 24 := by
  have hlow : (load32 m p).extractLsb' 0 24 = m (p + 2) ++ m (p + 1) ++ m p := by
    apply BitVec.eq_of_getLsbD_eq
    intro i hi
    simp only [load32, BitVec.getLsbD_extractLsb', BitVec.getLsbD_append, hi]
    grind
  -- of the four bytes the update replaces the first
  have hnew : load32 (Function.update m (p + 3) b) p
      = b ++ m (p + 2) ++ m (p + 1) ++ m p := by
    simp [load32, Function.update]
  rw [hlow, hnew]
  apply BitVec.eq_of_getLsbD_eq
  intro i hi
  simp only [BitVec.getLsbD_append]
  grind

/-! ### Words of 64 bits -/

theorem append_halves_eq (v : BitVec 64) : v.extractLsb' 32 32 ++ v.extractLsb' 0 32 = v := by
  rw [BitVec.extractLsb'_append_extractLsb'_eq_extractLsb' (by rfl)]
  exact BitVec.extractLsb'_eq_self

/-- The 64-bit word at `p`, least significant byte first. -/
def load64 (m : ByteMem) (p : ℕ) : BitVec 64 := load32 m (p + 4) ++ load32 m p

/-- Write the 64-bit word `v` at `p`. -/
def store64 (m : ByteMem) (p : ℕ) (v : BitVec 64) : ByteMem :=
  store32 (store32 m p (v.extractLsb' 0 32)) (p + 4) (v.extractLsb' 32 32)

theorem store64_of_disjoint (m : ByteMem) {p q : ℕ} (v : BitVec 64)
    (h : q < p ∨ p + 8 ≤ q) : store64 m p v q = m q := by
  unfold store64
  rw [store32_of_disjoint _ _ (by omega), store32_of_disjoint _ _ (by omega)]

/-- Words with the same bytes, wherever they are. -/
theorem load64_eq_of_bytes {m m' : ByteMem} {p p' : ℕ} (h : ∀ i < 8, m' (p' + i) = m (p + i)) :
    load64 m' p' = load64 m p := by
  have hlo : load32 m' p' = load32 m p := load32_eq_of_bytes fun i hi => h i (by omega)
  have hhi : load32 m' (p' + 4) = load32 m (p + 4) := load32_eq_of_bytes fun i hi => by
    rw [Nat.add_assoc, Nat.add_assoc]
    exact h (4 + i) (by omega)
  rw [load64, load64, hlo, hhi]

theorem load64_congr {m m' : ByteMem} {p : ℕ} (h : ∀ i < 8, m' (p + i) = m (p + i)) :
    load64 m' p = load64 m p := load64_eq_of_bytes h

theorem load64_store64_of_disjoint (m : ByteMem) {p q : ℕ} (v : BitVec 64)
    (h : q + 8 ≤ p ∨ p + 8 ≤ q) : load64 (store64 m p v) q = load64 m q :=
  load64_congr fun i hi => store64_of_disjoint m v (by omega)

@[simp] theorem load64_store64_self (m : ByteMem) (p : ℕ) (v : BitVec 64) :
    load64 (store64 m p v) p = v := by
  unfold load64 store64
  rw [load32_store32_self, load32_store32_of_disjoint _ _ (by omega), load32_store32_self,
    append_halves_eq]

/-- Copying a word copies its bytes. -/
theorem store64_load64 (m src : ByteMem) (p s q : ℕ) :
    store64 m p (load64 src s) q = if p ≤ q ∧ q < p + 8 then src (s + (q - p)) else m q := by
  have hlo : (load64 src s).extractLsb' 0 32 = load32 src s := BitVec.extractLsb'_append_eq_right
  have hhi : (load64 src s).extractLsb' 32 32 = load32 src (s + 4) :=
    BitVec.extractLsb'_append_eq_left
  rw [store64, hlo, hhi, store32_load32, store32_load32]
  grind

/-- Copying word after word, of `w` bytes each, copies a range. -/
theorem foldl_copy_apply {w d p : ℕ} {src : ByteMem} {f : ByteMem → ℕ → ByteMem}
    (hf : ∀ m i q, f m i q
      = if d + w * i ≤ q ∧ q < d + w * i + w then src (p + w * i + (q - (d + w * i))) else m q)
    (m : ByteMem) (n q : ℕ) : (List.range n).foldl f m q
      = if d ≤ q ∧ q < d + w * n then src (p + (q - d)) else m q := by
  refine foldl_range_invariant (P := fun i (t : ByteMem) =>
    t q = if d ≤ q ∧ q < d + w * i then src (p + (q - d)) else m q) ?_ n ?_
  · rw [if_neg (by omega)]
  · intro i _ t ht
    rw [hf, ht, Nat.mul_succ]
    -- the new word comes right after the ones that are there
    split_ifs <;> first | omega | rfl | (congr 1; omega)

/-! ### Blocks -/

/-- Sixteen bytes, as four little-endian words. -/
abbrev Block := Fin 4 → BitVec 32

namespace Block

/-- The first eight bytes of a block. -/
def lo (x : Block) : BitVec 64 := x 1 ++ x 0

/-- The last eight bytes of a block. -/
def hi (x : Block) : BitVec 64 := x 3 ++ x 2

/-- The block with the given halves. -/
def ofHalves (l h : BitVec 64) : Block :=
  ![l.extractLsb' 0 32, l.extractLsb' 32 32, h.extractLsb' 0 32, h.extractLsb' 32 32]

/-- The bitwise exclusive or of two blocks. -/
def xor (x y : Block) : Block := fun i => x i ^^^ y i

@[simp] theorem xor_apply (x y : Block) (i : Fin 4) : x.xor y i = x i ^^^ y i := rfl

@[simp] theorem lo_xor (x y : Block) : (x.xor y).lo = x.lo ^^^ y.lo :=
  BitVec.xor_append.symm

@[simp] theorem hi_xor (x y : Block) : (x.xor y).hi = x.hi ^^^ y.hi :=
  BitVec.xor_append.symm

@[simp] theorem ofHalves_lo_hi (x : Block) : ofHalves x.lo x.hi = x := by
  funext i
  fin_cases i
  · exact BitVec.extractLsb'_append_eq_right
  · exact BitVec.extractLsb'_append_eq_left
  · exact BitVec.extractLsb'_append_eq_right
  · exact BitVec.extractLsb'_append_eq_left

@[simp] theorem lo_ofHalves (l h : BitVec 64) : (ofHalves l h).lo = l := append_halves_eq l

@[simp] theorem hi_ofHalves (l h : BitVec 64) : (ofHalves l h).hi = h := append_halves_eq h

theorem ofHalves_xor (x : Block) (l h : BitVec 64) :
    ofHalves (x.lo ^^^ l) (x.hi ^^^ h) = x.xor (ofHalves l h) := by
  rw [← ofHalves_lo_hi (x.xor (ofHalves l h)), lo_xor, hi_xor, lo_ofHalves, hi_ofHalves]

end Block

/-- The block at `p`. -/
def loadBlock (m : ByteMem) (p : ℕ) : Block := fun i => load32 m (p + 4 * i)

/-- Blocks with the same bytes, wherever they are. -/
theorem loadBlock_eq_of_bytes {m m' : ByteMem} {p p' : ℕ}
    (h : ∀ i < 16, m' (p' + i) = m (p + i)) : loadBlock m' p' = loadBlock m p := by
  funext k
  refine load32_eq_of_bytes fun i hi => ?_
  rw [Nat.add_assoc, Nat.add_assoc]
  exact h (4 * k + i) (by omega)

theorem loadBlock_congr {m m' : ByteMem} {p : ℕ} (h : ∀ i < 16, m' (p + i) = m (p + i)) :
    loadBlock m' p = loadBlock m p := loadBlock_eq_of_bytes h

/-- The halves of the exclusive or of two blocks. -/
theorem ofHalves_xor_load64 (m : ByteMem) (p q : ℕ) :
    Block.ofHalves (load64 m p ^^^ load64 m q) (load64 m (p + 8) ^^^ load64 m (q + 8))
      = (loadBlock m p).xor (loadBlock m q) := by
  rw [← Block.ofHalves_lo_hi ((loadBlock m p).xor _), Block.lo_xor, Block.hi_xor]
  rfl

/-- Writing a block by halves. -/
theorem loadBlock_storeHalves (m : ByteMem) (p : ℕ) (l h : BitVec 64) :
    loadBlock (store64 (store64 m p l) (p + 8) h) p = Block.ofHalves l h := by
  funext k
  fin_cases k
  · simp [loadBlock, store64, Block.ofHalves, load32_store32_of_disjoint]
  · simp [loadBlock, store64, Block.ofHalves, load32_store32_of_disjoint]
  · simp [loadBlock, store64, Block.ofHalves, load32_store32_of_disjoint]
  · simp [loadBlock, store64, Block.ofHalves]

/-! ### Ranges -/

/-- Whether two memories differ somewhere in the `n` bytes at `p`. -/
def memcmp (a b : ByteMem) (p n : ℕ) : Bool := decide (∃ i < n, a (p + i) ≠ b (p + i))

theorem memcmp_eq_false_iff {a b : ByteMem} {p n : ℕ} :
    memcmp a b p n = false ↔ ∀ i < n, a (p + i) = b (p + i) := by
  simp [memcmp]

/-- The `n` bytes at `p`. -/
def bytes (m : ByteMem) (p n : ℕ) : List (BitVec 8) := (List.range n).map fun i => m (p + i)

@[simp] theorem length_bytes (m : ByteMem) (p n : ℕ) : (bytes m p n).length = n := by
  simp [bytes]

theorem getElem_bytes (m : ByteMem) (p n : ℕ) {i : ℕ} (hi : i < (bytes m p n).length) :
    (bytes m p n)[i] = m (p + i) := by
  simp [bytes]

theorem bytes_congr {a b : ByteMem} {p n : ℕ} (h : ∀ i < n, a (p + i) = b (p + i)) :
    bytes a p n = bytes b p n :=
  List.map_congr_left fun i hi => h i (List.mem_range.mp hi)

/-- Write the list `bs` at `p`. -/
def storeBytes (m : ByteMem) (p : ℕ) (bs : List (BitVec 8)) : ByteMem := fun q =>
  if p ≤ q ∧ q < p + bs.length then bs.getD (q - p) 0 else m q

theorem storeBytes_of_lt (m : ByteMem) (p : ℕ) (bs : List (BitVec 8)) {i : ℕ}
    (hi : i < bs.length) : storeBytes m p bs (p + i) = bs[i] := by
  rw [storeBytes, if_pos (by omega), Nat.add_sub_cancel_left, List.getD_eq_getElem?_getD,
    List.getElem?_eq_getElem hi, Option.getD_some]

theorem storeBytes_zero_of_lt (m : ByteMem) (bs : List (BitVec 8)) {i : ℕ} (hi : i < bs.length) :
    storeBytes m 0 bs i = bs[i] := by
  have h := storeBytes_of_lt m 0 bs hi
  rwa [Nat.zero_add] at h

/-- Copying a range. -/
theorem storeBytes_bytes (m src : ByteMem) (p s n q : ℕ) :
    storeBytes m p (bytes src s n) q
      = if p ≤ q ∧ q < p + n then src (s + (q - p)) else m q := by
  rw [storeBytes, length_bytes]
  split
  · next h =>
    have hlen : q - p < (bytes src s n).length := by rw [length_bytes]; omega
    rw [List.getD_eq_getElem?_getD, List.getElem?_eq_getElem hlen, Option.getD_some, getElem_bytes]
  · rfl

/-- A block of a copied range. -/
theorem loadBlock_storeBytes_bytes (m src : ByteMem) {p s n i : ℕ} (hi : i + 16 ≤ n) :
    loadBlock (storeBytes m p (bytes src s n)) (p + i) = loadBlock src (s + i) := by
  refine loadBlock_eq_of_bytes fun j hj => ?_
  rw [storeBytes_bytes, if_pos (by omega)]
  congr 1
  omega

end ByteMem
