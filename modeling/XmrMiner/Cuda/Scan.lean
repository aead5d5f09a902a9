import Mathlib.Data.Nat.Digits.Defs
import XmrMiner.Lib.ByteMem

/-!
# A scan

`scanhash_cryptonight` hands the nonces from the one in the blob on to the device, in
batches of `throughput` nonces, until a batch yields a nonce that the processor
confirms, until the upper bound is reached, or until another thread raises the
restart flag.  At least one batch is launched.  A batch whose last nonce would change
the top byte is the last one: the nonce then moves on to the upper bound.

The hash function is a parameter: it takes the input and the variant.  What a batch
finds on the device and the flag are events.

## Main definitions

* `scanLoop`, `scanhashCryptonight` — the batches of a scan.
* `batchCount` — their number, if nothing is found and no flag is raised.

## Main results

* `scanLoop_bounds` — all batches lie within the first `batchCount` ones.
* `exists_scanLoop` — without an event they are all launched.
-/

namespace XmrMiner

open ByteMem

/-- A hash as eight words, from the input and the variant. -/
abbrev CnHash := List (BitVec 8) → ℕ → Fin 8 → BitVec 32

/-- The variant of the hash function, from the first byte of the blob. -/
def blobVariant (data : ByteMem) : ℕ := if (data 0).toNat ≥ 7 then (data 0).toNat - 6 else 0

/-- The comparison of two numbers of eight words, from the word `i` downwards. -/
def fulltestFrom (hash target : Fin 8 → BitVec 32) : List (Fin 8) → Bool
  | [] => true
  | i :: is =>
    if hash i > target i then false
    else if hash i < target i then true
    else fulltestFrom hash target is

/-- `fulltest`. -/
def fulltest (hash target : Fin 8 → BitVec 32) : Bool :=
  fulltestFrom hash target [7, 6, 5, 4, 3, 2, 1, 0]

/-- The number that some of the words make up, the least significant one first. -/
def wordsValue (words : Fin 8 → BitVec 32) (is : List (Fin 8)) : ℕ :=
  Nat.ofDigits (2 ^ 32) (is.map fun i => (words i).toNat)

/-- Eight words as a number of 256 bits. -/
def littleEndian (words : Fin 8 → BitVec 32) : ℕ := wordsValue words [0, 1, 2, 3, 4, 5, 6, 7]

section Scan

variable (H : CnHash) (pdata : ByteMem) (ptarget : Fin 8 → BitVec 32)

/-- The hash with which the processor confirms a nonce: of 76 bytes of the blob. -/
def hostHash (nonce : BitVec 32) : Fin 8 → BitVec 32 :=
  H (bytes (store32 pdata 39 nonce) 0 76) (blobVariant pdata)

/-- Whether the processor confirms a nonce. -/
def validates (nonce : BitVec 32) : Bool :=
  let vhash64 := hostHash H pdata nonce
  decide (vhash64 7 ≤ ptarget 7) && fulltest vhash64 ptarget

/-- What a batch ends with. -/
structure Batch where
  /-- The two nonces found on the device; `0xffffffff` stands for none. -/
  foundNonce : BitVec 32 × BitVec 32
  /-- The restart flag, as it is read afterwards. -/
  restart : Bool

/-- A batch without an event. -/
def Batch.quiet : Batch := ⟨(0xffffffff, 0xffffffff), false⟩

/-- A batch during which the flag is raised. -/
def Batch.stopped : Batch := ⟨(0xffffffff, 0xffffffff), true⟩

/-- The confirmed ones; the second is only looked at if the first is one of them. -/
def confirmed (foundNonce : BitVec 32 × BitVec 32) : List (BitVec 32) :=
  if foundNonce.1 < 0xffffffff ∧ validates H pdata ptarget foundNonce.1 then
    if foundNonce.2 < 0xffffffff ∧ validates H pdata ptarget foundNonce.2 then
      [foundNonce.1, foundNonce.2]
    else [foundNonce.1]
  else []

/-- The end of a scan: `results`, as many as the return value says, and `hashes_done`;
and the first nonces of the batches it has launched. -/
structure ScanResult where
  /-- `results`. -/
  results : List (BitVec 32)
  /-- `hashes_done`. -/
  hashesDone : BitVec 32
  /-- The batches. -/
  launched : List (BitVec 32)

/-- The next value of `nonce`. -/
def nextNonce (throughput maxNonce nonce : BitVec 32) : BitVec 32 :=
  if nonce &&& 0x00ffffff > 0x00ffffff - throughput then maxNonce else nonce + throughput

/-- The loop, from `nonce` on, for what its batches end with; `none` if it goes on
after them. -/
def scanLoop (throughput firstNonce maxNonce : BitVec 32) :
    BitVec 32 → List Batch → Option ScanResult
  | _, [] => none
  | nonce, b :: bs =>
    let results := confirmed H pdata ptarget b.foundNonce
    if results ≠ [] then some ⟨results, nonce - firstNonce + throughput, [nonce]⟩
    else
      let nonce' := nextNonce throughput maxNonce nonce
      if nonce' < maxNonce ∧ b.restart = false then
        (scanLoop throughput firstNonce maxNonce nonce' bs).map fun r =>
          { r with launched := nonce :: r.launched }
      else some ⟨[], nonce' - firstNonce, [nonce]⟩

/-- `scanhash_cryptonight`, out of benchmark mode. -/
def scanhashCryptonight (throughput maxNonce : BitVec 32) (bs : List Batch) :
    Option ScanResult :=
  scanLoop H pdata ptarget throughput (load32 pdata 39) maxNonce (load32 pdata 39) bs

end Scan

/-- What one batch does to the scan: it has found something, it is followed by the next
one, or it is the last one. -/
theorem scanLoop_cons {H : CnHash} {pdata : ByteMem} {ptarget : Fin 8 → BitVec 32}
    {throughput firstNonce maxNonce nonce : BitVec 32} {b : Batch} {bs : List Batch}
    {r : ScanResult}
    (h : scanLoop H pdata ptarget throughput firstNonce maxNonce nonce (b :: bs) = some r) :
    (confirmed H pdata ptarget b.foundNonce ≠ [] ∧
        r = ⟨confirmed H pdata ptarget b.foundNonce, nonce - firstNonce + throughput, [nonce]⟩) ∨
      (confirmed H pdata ptarget b.foundNonce = [] ∧
        nextNonce throughput maxNonce nonce < maxNonce ∧ b.restart = false ∧
        ∃ r', scanLoop H pdata ptarget throughput firstNonce maxNonce
            (nextNonce throughput maxNonce nonce) bs = some r' ∧
          r = { r' with launched := nonce :: r'.launched }) ∨
      (confirmed H pdata ptarget b.foundNonce = [] ∧
        ¬ (nextNonce throughput maxNonce nonce < maxNonce ∧ b.restart = false) ∧
        r = ⟨[], nextNonce throughput maxNonce nonce - firstNonce, [nonce]⟩) := by
  simp only [scanLoop] at h
  split at h
  · next hfound => exact Or.inl ⟨hfound, (Option.some.inj h).symm⟩
  · next hmissed =>
    split at h
    · next hgo =>
      obtain ⟨r', hr', hr⟩ := Option.map_eq_some_iff.mp h
      exact Or.inr (Or.inl ⟨not_not.mp hmissed, hgo.1, hgo.2, r', hr', hr.symm⟩)
    · next hend => exact Or.inr (Or.inr ⟨not_not.mp hmissed, hend, (Option.some.inj h).symm⟩)

/-! ### The confirmed nonces -/

theorem wordsValue_lt (words : Fin 8 → BitVec 32) (is : List (Fin 8)) :
    wordsValue words is < (2 ^ 32) ^ is.length := by
  have hlt := Nat.ofDigits_lt_base_pow_length (b := 2 ^ 32)
    (l := is.map fun i => (words i).toNat) (by decide) fun x hx => by
      obtain ⟨i, -, rfl⟩ := List.mem_map.mp hx
      exact (words i).isLt
  simpa [wordsValue] using hlt

theorem wordsValue_concat (words : Fin 8 → BitVec 32) (is : List (Fin 8)) (i : Fin 8) :
    wordsValue words (is ++ [i]) =
      wordsValue words is + (2 ^ 32) ^ is.length * (words i).toNat := by
  simp [wordsValue, Nat.ofDigits_append]

/-- The comparison from the top word downwards compares the numbers. -/
theorem fulltestFrom_iff (hash target : Fin 8 → BitVec 32) (is : List (Fin 8)) :
    fulltestFrom hash target is = true ↔
      wordsValue hash is.reverse ≤ wordsValue target is.reverse := by
  induction is with
  | nil => simp [fulltestFrom, wordsValue]
  | cons i is ih =>
    rw [List.reverse_cons, wordsValue_concat, wordsValue_concat, List.length_reverse, fulltestFrom]
    have hhash := wordsValue_lt hash is.reverse
    have htarget := wordsValue_lt target is.reverse
    rw [List.length_reverse] at hhash htarget
    generalize (2 ^ 32) ^ is.length = p at hhash htarget ⊢
    simp only [gt_iff_lt, BitVec.lt_def]
    rcases lt_trichotomy (hash i).toNat (target i).toNat with hlt | heq | hgt
    · -- decided in favour of the hash, whatever the words below
      have hmul : p * ((hash i).toNat + 1) ≤ p * (target i).toNat := Nat.mul_le_mul_left p hlt
      rw [Nat.mul_add, Nat.mul_one] at hmul
      rw [if_neg (not_lt_of_gt hlt), if_pos hlt]
      exact iff_of_true rfl (by omega)
    · rw [if_neg (by simp [heq]), if_neg (by simp [heq]), ih, heq]
      omega
    · have hmul : p * ((target i).toNat + 1) ≤ p * (hash i).toNat := Nat.mul_le_mul_left p hgt
      rw [Nat.mul_add, Nat.mul_one] at hmul
      rw [if_pos hgt]
      exact iff_of_false Bool.false_ne_true (by omega)

theorem fulltest_eq_true_iff {hash target : Fin 8 → BitVec 32} :
    fulltest hash target = true ↔ littleEndian hash ≤ littleEndian target := by
  have hrev : ([7, 6, 5, 4, 3, 2, 1, 0] : List (Fin 8)).reverse = [0, 1, 2, 3, 4, 5, 6, 7] := rfl
  rw [fulltest, fulltestFrom_iff, hrev, littleEndian, littleEndian]

/-- The comparison of the top words beforehand decides nothing. -/
theorem top_le_of_fulltest {hash target : Fin 8 → BitVec 32} (h : fulltest hash target = true) :
    hash 7 ≤ target 7 := by
  rw [fulltest, fulltestFrom] at h
  split at h
  · cases h
  · next hle => exact BitVec.not_lt.mp hle

theorem hostTest_iff {hash target : Fin 8 → BitVec 32} :
    (decide (hash 7 ≤ target 7) && fulltest hash target) = true ↔
      littleEndian hash ≤ littleEndian target := by
  rw [Bool.and_eq_true, decide_eq_true_eq, ← fulltest_eq_true_iff]
  exact ⟨And.right, fun h => ⟨top_le_of_fulltest h, h⟩⟩

/-- A nonce is confirmed if its hash does not exceed the target. -/
theorem validates_iff {H : CnHash} {pdata : ByteMem} {ptarget : Fin 8 → BitVec 32}
    {nonce : BitVec 32} : validates H pdata ptarget nonce = true ↔
      littleEndian (hostHash H pdata nonce) ≤ littleEndian ptarget :=
  hostTest_iff

theorem confirmed_spec (H : CnHash) (pdata : ByteMem) (ptarget : Fin 8 → BitVec 32)
    (foundNonce : BitVec 32 × BitVec 32) :
    (confirmed H pdata ptarget foundNonce).length ≤ 2 ∧
      ∀ x ∈ confirmed H pdata ptarget foundNonce, validates H pdata ptarget x = true ∧
        (x = foundNonce.1 ∨ x = foundNonce.2) ∧ x < 0xffffffff := by
  unfold confirmed
  split
  · next hfirst =>
    split
    · next hsecond =>
      refine ⟨le_rfl, ?_⟩
      intro x hx
      rcases List.mem_pair.mp hx with rfl | rfl
      · exact ⟨hfirst.2, Or.inl rfl, hfirst.1⟩
      · exact ⟨hsecond.2, Or.inr rfl, hsecond.1⟩
    · refine ⟨Nat.le_succ 1, ?_⟩
      intro x hx
      obtain rfl := List.mem_singleton.mp hx
      exact ⟨hfirst.2, Or.inl rfl, hfirst.1⟩
  · exact ⟨Nat.zero_le 2, nofun⟩

/-- **What a scan returns is confirmed**, and comes from one of its batches. -/
theorem scanLoop_results {H : CnHash} {pdata : ByteMem} {ptarget : Fin 8 → BitVec 32}
    {throughput firstNonce maxNonce nonce : BitVec 32} {bs : List Batch} {r : ScanResult}
    (h : scanLoop H pdata ptarget throughput firstNonce maxNonce nonce bs = some r) :
    r.results.length ≤ 2 ∧ ∀ x ∈ r.results, validates H pdata ptarget x = true := by
  induction bs generalizing nonce r with
  | nil => cases h
  | cons b bs ih =>
    rcases scanLoop_cons h with ⟨-, rfl⟩ | ⟨-, -, -, r', hr', rfl⟩ | ⟨-, -, rfl⟩
    · obtain ⟨hlen, hall⟩ := confirmed_spec H pdata ptarget b.foundNonce
      exact ⟨hlen, fun x hx => (hall x hx).1⟩
    · have hrest := ih hr'
      exact hrest
    · exact ⟨Nat.zero_le 2, nofun⟩

/-- It has been found on the device in one of the batches. -/
theorem scanLoop_results_found {H : CnHash} {pdata : ByteMem} {ptarget : Fin 8 → BitVec 32}
    {throughput firstNonce maxNonce nonce : BitVec 32} {bs : List Batch} {r : ScanResult}
    (h : scanLoop H pdata ptarget throughput firstNonce maxNonce nonce bs = some r) :
    ∀ n ∈ r.results, n < 0xffffffff ∧ ∃ x b, (x, b) ∈ r.launched.zip bs ∧
      (n = b.foundNonce.1 ∨ n = b.foundNonce.2) := by
  induction bs generalizing nonce r with
  | nil => cases h
  | cons b bs ih =>
    rcases scanLoop_cons h with ⟨-, rfl⟩ | ⟨-, -, -, r', hr', rfl⟩ | ⟨-, -, rfl⟩
    · intro n hn
      obtain ⟨-, hfound, hlt⟩ :=
        (confirmed_spec H pdata ptarget b.foundNonce).2 n hn
      exact ⟨hlt, nonce, b, List.mem_cons_self, hfound⟩
    · intro n hn
      obtain ⟨hlt, x, b', hmem, hfound⟩ := ih hr' n hn
      exact ⟨hlt, x, b', List.mem_cons_of_mem _ hmem, hfound⟩
    · exact nofun

/-! ### The number of batches -/

/-- The number of batches from `nonce` on: as many as it takes to reach the upper bound,
one at least, and none behind one that would change the top byte. -/
def batchCount (throughput maxNonce nonce : ℕ) : ℕ :=
  min (if nonce < maxNonce then (maxNonce - nonce + throughput - 1) / throughput else 1)
    ((0x00ffffff - nonce % 2 ^ 24) / throughput + 1)

theorem one_le_batchCount {throughput : ℕ} (hpos : 0 < throughput) (maxNonce nonce : ℕ) :
    1 ≤ batchCount throughput maxNonce nonce := by
  rw [batchCount, le_min_iff]
  refine ⟨?_, Nat.le_add_left _ _⟩
  split
  · exact (Nat.one_le_div_iff hpos).mpr (by omega)
  · exact le_rfl

/-- One batch further. -/
theorem batchCount_add {throughput maxNonce nonce : ℕ} (hpos : 0 < throughput)
    (hlow : nonce % 2 ^ 24 + throughput < 2 ^ 24) (hmax : nonce + throughput < maxNonce) :
    batchCount throughput maxNonce (nonce + throughput) + 1
      = batchCount throughput maxNonce nonce := by
  have hmod : (nonce + throughput) % 2 ^ 24 = nonce % 2 ^ 24 + throughput := by omega
  have hupper : (maxNonce - nonce + throughput - 1) / throughput
      = (maxNonce - (nonce + throughput) + throughput - 1) / throughput + 1 := by
    rw [← Nat.add_div_right _ hpos]
    congr 1
    omega
  have hguard : (0x00ffffff - nonce % 2 ^ 24) / throughput
      = (0x00ffffff - (nonce % 2 ^ 24 + throughput)) / throughput + 1 := by
    rw [← Nat.add_div_right _ hpos]
    congr 1
    omega
  rw [batchCount, batchCount, hmod, if_pos hmax, if_pos (by omega), hupper, hguard,
    Nat.add_min_add_right]

/-- All batches but the last one end in the block of the first nonce. -/
theorem batchCount_block {throughput maxNonce nonce k : ℕ}
    (h : batchCount throughput maxNonce nonce = k + 1) :
    nonce % 2 ^ 24 + k * throughput < 2 ^ 24 := by
  have hle : k ≤ (0x00ffffff - nonce % 2 ^ 24) / throughput := by
    have := h.symm.trans_le (min_le_right _ _)
    omega
  have := Nat.mul_le_of_le_div _ _ _ hle
  omega

theorem batchCount_le_one {throughput maxNonce nonce : ℕ} (hpos : 0 < throughput)
    (h : 2 ^ 24 ≤ nonce % 2 ^ 24 + throughput ∨ maxNonce ≤ nonce + throughput) :
    batchCount throughput maxNonce nonce ≤ 1 := by
  rcases h with h | h
  · refine (min_le_right _ _).trans ?_
    rw [Nat.div_eq_of_lt (by omega)]
  · refine (min_le_left _ _).trans ?_
    split
    · exact Nat.le_of_lt_succ ((Nat.div_lt_iff_lt_mul hpos).mpr (by omega))
    · exact le_rfl

/-- The masked test fires for the last batch of a block, and for those that leave it. -/
theorem maskedTest_iff {throughput : BitVec 32} (nonce : BitVec 32)
    (hT : throughput.toNat < 2 ^ 24) :
    nonce &&& 0x00ffffff > 0x00ffffff - throughput ↔
      2 ^ 24 ≤ nonce.toNat % 2 ^ 24 + throughput.toNat := by
  have hlow : (nonce &&& 0x00ffffff).toNat = nonce.toNat % 2 ^ 24 := toNat_and_mask nonce _ rfl
  have hsub : (0x00ffffff - throughput).toNat = 0x00ffffff - throughput.toNat :=
    BitVec.toNat_sub_of_le (by rw [BitVec.le_def]; exact Nat.le_of_lt_succ hT)
  rw [gt_iff_lt, BitVec.lt_def, hlow, hsub]
  omega

/-- Whether the loop moves on by one batch. -/
theorem nextNonce_of_low {throughput : BitVec 32} (maxNonce nonce : BitVec 32)
    (hT : throughput.toNat < 2 ^ 24) :
    (nonce.toNat % 2 ^ 24 + throughput.toNat < 2 ^ 24 ∧
        (nextNonce throughput maxNonce nonce).toNat = nonce.toNat + throughput.toNat) ∨
      (2 ^ 24 ≤ nonce.toNat % 2 ^ 24 + throughput.toNat ∧
        nextNonce throughput maxNonce nonce = maxNonce) := by
  rw [nextNonce]
  split
  · next hjump => exact Or.inr ⟨(maskedTest_iff nonce hT).mp hjump, rfl⟩
  · next hgo =>
    have hlow := not_le.mp (mt (maskedTest_iff nonce hT).mpr hgo)
    have := nonce.isLt
    exact Or.inl ⟨hlow, BitVec.toNat_add_of_lt (by omega)⟩

section Bounds

variable {H : CnHash} {pdata : ByteMem} {ptarget : Fin 8 → BitVec 32}
  {throughput firstNonce maxNonce : BitVec 32}

/-- One batch is launched in any case. -/
theorem launched_ne_nil {bs : List Batch} {nonce : BitVec 32} {r : ScanResult}
    (h : scanLoop H pdata ptarget throughput firstNonce maxNonce nonce bs = some r) :
    r.launched ≠ [] := by
  cases bs with
  | nil => cases h
  | cons b bs =>
    rcases scanLoop_cons h with ⟨-, rfl⟩ | ⟨-, -, -, r', -, rfl⟩ | ⟨-, -, rfl⟩ <;>
      exact List.cons_ne_nil _ _

/-- **All batches of a scan lie within the first `batchCount` ones**, whatever is found
and whenever the flag is raised. -/
theorem scanLoop_bounds (hT : throughput.toNat < 2 ^ 24) (bs : List Batch) {nonce : BitVec 32}
    {r : ScanResult}
    (h : scanLoop H pdata ptarget throughput firstNonce maxNonce nonce bs = some r) :
    ∀ x ∈ r.launched, nonce.toNat ≤ x.toNat ∧ x.toNat + throughput.toNat ≤ nonce.toNat +
      batchCount throughput.toNat maxNonce.toNat nonce.toNat * throughput.toNat := by
  -- one batch is launched in any case
  have hhead : ∀ nonce : BitVec 32, nonce.toNat + throughput.toNat ≤ nonce.toNat +
      batchCount throughput.toNat maxNonce.toNat nonce.toNat * throughput.toNat := by
    intro nonce
    rcases Nat.eq_zero_or_pos throughput.toNat with hzero | hpos
    · simp [hzero]
    · have := Nat.mul_le_mul_right throughput.toNat
        (one_le_batchCount hpos maxNonce.toNat nonce.toNat)
      omega
  induction bs generalizing nonce r with
  | nil => cases h
  | cons b bs ih =>
    rcases scanLoop_cons h with ⟨-, rfl⟩ | ⟨-, hgo, -, r', hr', rfl⟩ | ⟨-, -, rfl⟩
    · simpa using hhead nonce
    · intro x hx
      rcases List.mem_cons.mp hx with rfl | hx
      · exact ⟨le_rfl, hhead x⟩
      rcases nextNonce_of_low maxNonce nonce hT with ⟨hlow, hnext⟩ | ⟨-, hnext⟩
      · obtain ⟨hle, hbound⟩ := ih hr' x hx
        rw [hnext] at hle hbound
        have hlt : nonce.toNat + throughput.toNat < maxNonce.toNat := by
          rw [← hnext]
          exact hgo
        rcases Nat.eq_zero_or_pos throughput.toNat with hzero | hpos
        · simp only [hzero] at hle hbound ⊢
          omega
        · rw [← batchCount_add hpos hlow hlt, Nat.add_mul]
          omega
      · -- the nonce has moved on to the upper bound, where the loop ends
        exact absurd hgo (by rw [hnext]; exact BitVec.lt_irrefl _)
    · simpa using hhead nonce

theorem nextNonce_lt_iff (hT : throughput.toNat < 2 ^ 24) (hpos : 0 < throughput.toNat)
    (maxNonce nonce : BitVec 32) :
    nextNonce throughput maxNonce nonce < maxNonce ↔
      1 < batchCount throughput.toNat maxNonce.toNat nonce.toNat := by
  rcases nextNonce_of_low maxNonce nonce hT with ⟨hlow, hnext⟩ | ⟨hhigh, hnext⟩
  · rw [BitVec.lt_def, hnext]
    constructor
    · intro hlt
      have := one_le_batchCount hpos maxNonce.toNat (nonce.toNat + throughput.toNat)
      rw [← batchCount_add hpos hlow hlt]
      omega
    · intro hcount
      by_contra hge
      have := batchCount_le_one hpos (Or.inr (not_lt.mp hge))
      omega
  · have := batchCount_le_one hpos (Or.inl hhigh : _ ∨ maxNonce.toNat ≤ _)
    rw [hnext]
    exact ⟨fun h => absurd h (BitVec.lt_irrefl _), fun h => by omega⟩

/-- The batches lie one behind the other from `nonce` on, and the next scan starts behind them,
if this one has started at `firstNonce`. -/
structure ScanResult.Forward (r : ScanResult) (throughput nonce firstNonce : BitVec 32) :
    Prop where
  /-- They lie between the nonce and the start of the next scan. -/
  bounds : ∀ x ∈ r.launched, nonce.toNat ≤ x.toNat ∧
    x.toNat + throughput.toNat ≤ (firstNonce + r.hashesDone).toNat
  /-- One behind the other. -/
  pairwise : r.launched.Pairwise fun x y => x.toNat + throughput.toNat ≤ y.toNat

/-- **A scan whose batches all move the nonce on** launches them one behind the other, and
the next scan starts behind them all. -/
theorem scanLoop_forward {P : BitVec 32 → Prop}
    (hP : ∀ x, P x → x.toNat + throughput.toNat ≤ (nextNonce throughput maxNonce x).toNat ∧
      (nextNonce throughput maxNonce x < maxNonce → P (nextNonce throughput maxNonce x)))
    (bs : List Batch) {nonce : BitVec 32} (hnonce : P nonce) {r : ScanResult}
    (h : scanLoop H pdata ptarget throughput firstNonce maxNonce nonce bs = some r) :
    r.Forward throughput nonce firstNonce := by
  induction bs generalizing nonce r with
  | nil => cases h
  | cons b bs ih =>
    obtain ⟨hmove, hnext⟩ := hP nonce hnonce
    have hlt := (nextNonce throughput maxNonce nonce).isLt
    rcases scanLoop_cons h with ⟨-, rfl⟩ | ⟨-, hgo, -, r', hr', rfl⟩ | ⟨-, -, rfl⟩
    · -- found: the nonce moves on by one batch
      have hend : (firstNonce + (nonce - firstNonce + throughput)).toNat =
          nonce.toNat + throughput.toNat := by
        rw [← BitVec.add_assoc, BitVec.add_comm firstNonce, BitVec.sub_add_cancel]
        exact BitVec.toNat_add_of_lt (by omega)
      refine ⟨?_, List.pairwise_singleton _ _⟩
      intro x hx
      obtain rfl := List.mem_singleton.mp hx
      exact ⟨le_rfl, hend.ge⟩
    · obtain ⟨hall, hpair⟩ := ih (hnext hgo) hr'
      refine ⟨?_, List.pairwise_cons.mpr ⟨?_, hpair⟩⟩
      · intro x hx
        rcases List.mem_cons.mp hx with rfl | hx
        · -- the rest of the scan has launched a batch, and ends behind it
          cases hlaunched : r'.launched with
          | nil => exact absurd hlaunched (launched_ne_nil hr')
          | cons y ys =>
            obtain ⟨hle, hend⟩ := hall y (by simp [hlaunched])
            exact ⟨le_rfl, by simp only; omega⟩
        · obtain ⟨hle, hend⟩ := hall x hx
          exact ⟨by omega, hend⟩
      · intro y hy
        obtain ⟨hle, -⟩ := hall y hy
        omega
    · refine ⟨?_, List.pairwise_singleton _ _⟩
      intro x hx
      obtain rfl := List.mem_singleton.mp hx
      refine ⟨le_rfl, ?_⟩
      rwa [BitVec.add_comm firstNonce, BitVec.sub_add_cancel]

theorem confirmed_quiet : confirmed H pdata ptarget Batch.quiet.foundNonce = [] := by
  simp [confirmed, Batch.quiet]

/-- A flag that is raised during the first batch ends the scan. -/
theorem scanLoop_stopped (nonce : BitVec 32) :
    scanLoop H pdata ptarget throughput firstNonce maxNonce nonce [.stopped]
      = some ⟨[], nextNonce throughput maxNonce nonce - firstNonce, [nonce]⟩ := by
  have hfound : confirmed H pdata ptarget Batch.stopped.foundNonce = [] := confirmed_quiet
  rw [scanLoop, hfound, if_neg (not_not.mpr rfl), if_neg]
  rintro ⟨-, hflag⟩
  cases hflag

/-- **A scan that is not interrupted launches them all**, and ends with the last of them. -/
theorem exists_scanLoop (H : CnHash) (pdata : ByteMem) (ptarget : Fin 8 → BitVec 32)
    (firstNonce : BitVec 32) (hT : throughput.toNat < 2 ^ 24) (hpos : 0 < throughput.toNat) (k : ℕ)
    {nonce : BitVec 32}
    (hcount : batchCount throughput.toNat maxNonce.toNat nonce.toNat = k + 1) :
    ∃ r, scanLoop H pdata ptarget throughput firstNonce maxNonce nonce
        (List.replicate (k + 1) .quiet) = some r ∧
      (∀ j ≤ k, ∃ x ∈ r.launched, x.toNat = nonce.toNat + j * throughput.toNat) ∧
      ∃ x, x.toNat = nonce.toNat + k * throughput.toNat ∧
        firstNonce + r.hashesDone = nextNonce throughput maxNonce x := by
  induction k generalizing nonce with
  | zero =>
    have hstop : ¬ nextNonce throughput maxNonce nonce < maxNonce := by
      rw [nextNonce_lt_iff hT hpos]
      omega
    refine ⟨⟨[], nextNonce throughput maxNonce nonce - firstNonce, [nonce]⟩, ?_, ?_, nonce, ?_, ?_⟩
    · simp [scanLoop, confirmed_quiet, hstop]
    · rintro j hj
      exact ⟨nonce, List.mem_singleton_self _, by simp [Nat.le_zero.mp hj]⟩
    · simp
    · rw [BitVec.add_comm, BitVec.sub_add_cancel]
  | succ k ih =>
    have hgo : nextNonce throughput maxNonce nonce < maxNonce := by
      rw [nextNonce_lt_iff hT hpos]
      omega
    rcases nextNonce_of_low maxNonce nonce hT with ⟨hlow, hnext⟩ | ⟨-, hnext⟩
    · have hcount' : batchCount throughput.toNat maxNonce.toNat
          (nextNonce throughput maxNonce nonce).toNat = k + 1 := by
        have hlt := BitVec.lt_def.mp hgo
        rw [hnext] at hlt ⊢
        have := batchCount_add hpos hlow hlt
        omega
      -- this batch, and those of the rest of the loop
      obtain ⟨r, hr, hall, last, hlast, hend⟩ := ih hcount'
      refine ⟨{ r with launched := nonce :: r.launched }, ?_, ?_, last, ?_, hend⟩
      · have hcond : nextNonce throughput maxNonce nonce < maxNonce ∧
            Batch.quiet.restart = false := ⟨hgo, rfl⟩
        rw [List.replicate_succ, scanLoop, confirmed_quiet, if_neg (not_not.mpr rfl),
          if_pos hcond, hr, Option.map_some]
      · intro j hj
        cases j with
        | zero => exact ⟨nonce, List.mem_cons_self, by simp⟩
        | succ j =>
          obtain ⟨x, hx, hval⟩ := hall j (Nat.le_of_succ_le_succ hj)
          refine ⟨x, List.mem_cons_of_mem _ hx, ?_⟩
          rw [hval, hnext, Nat.add_mul]
          omega
      · rw [hlast, hnext, Nat.add_mul]
        omega
    · exact absurd hgo (by rw [hnext]; exact BitVec.lt_irrefl _)

end Bounds

end XmrMiner
