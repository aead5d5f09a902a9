import Mathlib.Data.List.GetD
import XmrMiner.Lib.ByteMem

/-!
# Keccak on the CPU

`c_keccak.c`: the permutation on 25 words of 64 bits, round by round with its
tables, and the sponge that absorbs an input of any length.  The steps of a round
are kept as the loops of the source, which work in place; what a step leaves in
a lane is stated with the coordinates of the lane, where the order of the writes
no longer shows.

## Main definitions

* `keccakfRndc`, `keccakfRotc`, `keccakfPiln` — the tables.
* `theta`, `rhoPi`, `chi`, `iota`, `keccakf` — the permutation.
* `keccak`, `keccak1600` — the sponge.

## Main results

* `theta_apply`, `rhoPi_apply` — a lane after the linear steps.
* `keccak_of_lt` — an input shorter than a block is padded and permuted once.
-/

namespace XmrMiner

open ByteMem

-- one instance each, so that a lane is the same term in every module
instance neZeroFive : NeZero 5 := ⟨by decide⟩

instance neZeroTwentyFive : NeZero 25 := ⟨by decide⟩

/-! ### The tables -/

/-- The words of the state. -/
abbrev KeccakState := Fin 25 → BitVec 64

/-- The round constants. -/
def keccakfRndc : List (BitVec 64) := [
  0x0000000000000001, 0x0000000000008082, 0x800000000000808a,
  0x8000000080008000, 0x000000000000808b, 0x0000000080000001,
  0x8000000080008081, 0x8000000000008009, 0x000000000000008a,
  0x0000000000000088, 0x0000000080008009, 0x000000008000000a,
  0x000000008000808b, 0x800000000000008b, 0x8000000000008089,
  0x8000000000008003, 0x8000000000008002, 0x8000000000000080,
  0x000000000000800a, 0x800000008000000a, 0x8000000080008081,
  0x8000000000008080, 0x0000000080000001, 0x8000000080008008]

/-- The rotation of each step of the cycle of rho and pi. -/
def keccakfRotc : List ℕ := [
  1,  3,  6,  10, 15, 21, 28, 36, 45, 55, 2,  14,
  27, 41, 56, 8,  25, 43, 62, 18, 39, 61, 20, 44]

/-- The lane each step of the cycle of rho and pi writes. -/
def keccakfPiln : List (Fin 25) := [
  10, 7,  11, 17, 18, 3, 5,  16, 8,  21, 24, 4,
  15, 23, 19, 13, 12, 2, 20, 14, 22, 9,  6,  1]

/-! ### The permutation -/

/-- The macro `ROTL64`. -/
def rotl64 (x : BitVec 64) (y : ℕ) : BitVec 64 := (x <<< y) ||| (x >>> (64 - y))

/-- The parities of the five columns. -/
def columnParity (st : KeccakState) : Fin 5 → BitVec 64 := ![
  st 0 ^^^ st 5 ^^^ st 10 ^^^ st 15 ^^^ st 20,
  st 1 ^^^ st 6 ^^^ st 11 ^^^ st 16 ^^^ st 21,
  st 2 ^^^ st 7 ^^^ st 12 ^^^ st 17 ^^^ st 22,
  st 3 ^^^ st 8 ^^^ st 13 ^^^ st 18 ^^^ st 23,
  st 4 ^^^ st 9 ^^^ st 14 ^^^ st 19 ^^^ st 24]

/-- What theta adds to column `i`.  The sums of indices are modulo 5. -/
def thetaMask (bc : Fin 5 → BitVec 64) (i : Fin 5) : BitVec 64 :=
  bc (i + 4) ^^^ rotl64 (bc (i + 1)) 1

/-- Theta on column `i`. -/
def thetaColumn (bc : Fin 5 → BitVec 64) (st : KeccakState) (i : Fin 5) : KeccakState :=
  let t := thetaMask bc i
  let st := Function.update st (Fin.ofNat 25 i) (st (Fin.ofNat 25 i) ^^^ t)
  let st := Function.update st (Fin.ofNat 25 (i + 5)) (st (Fin.ofNat 25 (i + 5)) ^^^ t)
  let st := Function.update st (Fin.ofNat 25 (i + 10)) (st (Fin.ofNat 25 (i + 10)) ^^^ t)
  let st := Function.update st (Fin.ofNat 25 (i + 15)) (st (Fin.ofNat 25 (i + 15)) ^^^ t)
  Function.update st (Fin.ofNat 25 (i + 20)) (st (Fin.ofNat 25 (i + 20)) ^^^ t)

/-- Theta. -/
def theta (st : KeccakState) : KeccakState :=
  (List.finRange 5).foldl (thetaColumn (columnParity st)) st

/-- One step of the cycle of rho and pi: the lane it overwrites is carried to the
next one. -/
def rhoPiStep (s : KeccakState × BitVec 64) (i : ℕ) : KeccakState × BitVec 64 :=
  let j := keccakfPiln.getD i 0
  (Function.update s.1 j (rotl64 s.2 (keccakfRotc.getD i 0)), s.1 j)

/-- Rho and pi. -/
def rhoPi (st : KeccakState) : KeccakState := ((List.range 24).foldl rhoPiStep (st, st 1)).1

/-- Chi on the row that starts at lane `j`. -/
def chiRow (st : KeccakState) (j : Fin 25) : KeccakState :=
  let bc := ![st j, st (j + 1), st (j + 2), st (j + 3), st (j + 4)]
  let st := Function.update st j (st j ^^^ (~~~bc 1 &&& bc 2))
  let st := Function.update st (j + 1) (st (j + 1) ^^^ (~~~bc 2 &&& bc 3))
  let st := Function.update st (j + 2) (st (j + 2) ^^^ (~~~bc 3 &&& bc 4))
  let st := Function.update st (j + 3) (st (j + 3) ^^^ (~~~bc 4 &&& bc 0))
  Function.update st (j + 4) (st (j + 4) ^^^ (~~~bc 0 &&& bc 1))

/-- Chi. -/
def chi (st : KeccakState) : KeccakState := [0, 5, 10, 15, 20].foldl chiRow st

/-- Iota. -/
def iota (st : KeccakState) (rc : BitVec 64) : KeccakState := Function.update st 0 (st 0 ^^^ rc)

/-- One round of `keccakf`. -/
def keccakfRound (st : KeccakState) (round : ℕ) : KeccakState :=
  iota (chi (rhoPi (theta st))) (keccakfRndc.getD round 0)

/-- `keccakf`. -/
def keccakf (st : KeccakState) (rounds : ℕ) : KeccakState :=
  (List.range rounds).foldl keccakfRound st

/-! ### The sponge -/

/-- `st[i] ^= ((uint64_t *) in)[i]` for the first `n` words. -/
def xorWords (st : KeccakState) (m : ByteMem) (input n : ℕ) : KeccakState :=
  (List.range n).foldl (fun st i =>
    Function.update st (Fin.ofNat 25 i) (st (Fin.ofNat 25 i) ^^^ load64 m (input + 8 * i))) st

/-- The bytes of the state. -/
def stateBytes (st : KeccakState) : ByteMem := fun q =>
  (st (Fin.ofNat 25 (q / 8))).extractLsb' (8 * (q % 8)) 8

/-- The last block, padded to `rsiz` bytes, in the array `temp`. -/
def keccakPad (temp m : ByteMem) (input inlen rsiz : ℕ) : ByteMem :=
  let temp := storeBytes temp 0 (bytes m input inlen)
  let temp := Function.update temp inlen 1
  let temp := storeBytes temp (inlen + 1) (List.replicate (rsiz - (inlen + 1)) 0)
  Function.update temp (rsiz - 1) (temp (rsiz - 1) ||| 0x80)

section Sponge

-- the permutation is `keccakf` with 24 rounds, and any function will do for the padding
variable (perm : KeccakState → KeccakState)

/-- Absorb the full blocks; what is left of the input goes to the padding. -/
def keccakAbsorb (rsiz : ℕ) (m : ByteMem) (st : KeccakState) (input inlen : ℕ) :
    KeccakState × ℕ × ℕ :=
  if 0 < rsiz ∧ rsiz ≤ inlen then
    keccakAbsorb rsiz m (perm (xorWords st m input (rsiz / 8))) (input + rsiz) (inlen - rsiz)
  else (st, input, inlen)
termination_by inlen
decreasing_by omega

/-- `keccak`: the `mdlen` bytes it writes, where `temp` holds anything before. -/
def keccak (temp m : ByteMem) (input inlen mdlen : ℕ) : List (BitVec 8) :=
  let rsiz := if mdlen = 200 then 136 else 200 - 2 * mdlen
  let s := keccakAbsorb perm rsiz m (fun _ => 0) input inlen
  let temp := keccakPad temp m s.2.1 s.2.2 rsiz
  bytes (stateBytes (perm (xorWords s.1 temp 0 (rsiz / 8)))) 0 mdlen

/-- `keccak1600`. -/
def keccak1600 (temp m : ByteMem) (input inlen : ℕ) : List (BitVec 8) :=
  keccak perm temp m input inlen 200

end Sponge

/-! ### The linear steps, lane by lane -/

/-- The column of a lane. -/
def column (j : Fin 25) : Fin 5 := Fin.ofNat 5 j

/-- The lane pi moves to lane `j`: the lane in column `x` and row `y` comes from
column `x + 3 * y` and row `x`. -/
def piSource (j : Fin 25) : Fin 25 := Fin.ofNat 25 ((j + 3 * (j / 5)) % 5 + 5 * (j % 5))

/-- How far rho turns the lane that pi moves to lane `j`. -/
def rhoOffset : Fin 25 → ℕ := ![
  0,  44, 43, 21, 14,
  28, 20, 3,  45, 61,
  1,  6,  25, 8,  18,
  27, 36, 10, 15, 56,
  62, 55, 39, 41, 2]

theorem theta_apply (st : KeccakState) (j : Fin 25) :
    theta st j = st j ^^^ thetaMask (columnParity st) (column j) := by
  fin_cases j <;> rfl

@[simp] theorem rotl64_zero (x : BitVec 64) : rotl64 x 0 = x := by
  unfold rotl64
  rw [BitVec.shiftLeft_zero, Nat.sub_zero, BitVec.ushiftRight_eq_zero (Nat.le_refl 64),
    BitVec.or_zero]

theorem rhoPi_apply (st : KeccakState) (j : Fin 25) :
    rhoPi st j = rotl64 (st (piSource j)) (rhoOffset j) := by
  rcases eq_or_ne j 0 with rfl | hj
  · -- the cycle leaves lane 0 alone
    exact (rotl64_zero (st 0)).symm
  · fin_cases j
    · exact absurd rfl hj
    all_goals rfl

/-! ### The padding -/

theorem xorWords_apply (st : KeccakState) (m : ByteMem) (input : ℕ) (k : Fin 25) {n : ℕ}
    (hn : n ≤ 25) : xorWords st m input n k
      = if (k : ℕ) < n then st k ^^^ load64 m (input + 8 * k) else st k := by
  refine foldl_range_invariant (P := fun i (t : KeccakState) =>
    t k = if (k : ℕ) < i then st k ^^^ load64 m (input + 8 * k) else st k) rfl n ?_
  intro i hi t ht
  have hval : (Fin.ofNat 25 i : ℕ) = i := Nat.mod_eq_of_lt (by omega)
  rcases eq_or_ne k (Fin.ofNat 25 i) with rfl | hk
  · rw [Function.update_self, ht, hval, if_neg (lt_irrefl i), if_pos i.lt_succ_self]
  · have hki : (k : ℕ) ≠ i := fun h => hk (Fin.ext (h.trans hval.symm))
    rw [Function.update_of_ne hk, ht]
    exact if_congr (by omega) rfl rfl

/-- The padded block: the input, a one, zeros, and the top bit of the last byte. -/
theorem keccakPad_apply (temp m : ByteMem) {input inlen rsiz q : ℕ} (hlen : inlen + 1 < rsiz)
    (hq : q < rsiz) : keccakPad temp m input inlen rsiz q
      = if q < inlen then m (input + q) else if q = inlen then 1
        else if q = rsiz - 1 then 0x80 else 0 := by
  have hzero : ∀ t : ByteMem, ∀ i, inlen < i → i < rsiz →
      storeBytes t (inlen + 1) (List.replicate (rsiz - (inlen + 1)) 0) i = 0 := by
    intro t i hi hr
    rw [storeBytes, if_pos (by rw [List.length_replicate]; omega), List.getD_replicate _ (by omega)]
  have hkeep : ∀ t : ByteMem, ∀ i, i ≤ inlen →
      storeBytes t (inlen + 1) (List.replicate (rsiz - (inlen + 1)) 0) i = t i := by
    intro t i hi
    rw [storeBytes, if_neg (by omega)]
  unfold keccakPad
  rcases eq_or_ne q (rsiz - 1) with rfl | hlast
  · rw [Function.update_self, hzero _ _ (by omega) (by omega), if_neg (by omega),
      if_neg (by omega), if_pos rfl]
    rfl
  rw [Function.update_of_ne hlast, if_neg hlast]
  rcases lt_trichotomy q inlen with hlt | rfl | hgt
  · rw [hkeep _ _ hlt.le, Function.update_of_ne hlt.ne, if_pos hlt,
      storeBytes_zero_of_lt _ _ (by rw [length_bytes]; exact hlt), getElem_bytes]
  · rw [hkeep _ _ le_rfl, Function.update_self, if_neg (lt_irrefl _), if_pos rfl]
  · rw [hzero _ _ hgt hq, if_neg (by omega), if_neg hgt.ne']

theorem keccakAbsorb_of_lt (perm : KeccakState → KeccakState) {rsiz : ℕ} (m : ByteMem)
    (st : KeccakState) (input : ℕ) {inlen : ℕ} (h : inlen < rsiz) :
    keccakAbsorb perm rsiz m st input inlen = (st, input, inlen) := by
  rw [keccakAbsorb, if_neg (by omega)]

/-- **An input shorter than a block** is padded and permuted once. -/
theorem keccak_of_lt (perm : KeccakState → KeccakState) (temp m : ByteMem) {input inlen : ℕ}
    (hlen : inlen < 136) : keccak1600 perm temp m input inlen
      = bytes (stateBytes (perm (xorWords (fun _ => 0) (keccakPad temp m input inlen 136) 0 17)))
          0 200 := by
  simp only [keccak1600, keccak, if_pos, keccakAbsorb_of_lt perm m _ input hlen]

/-! ### A header -/

/-- The state of a 76-byte input before the permutation: nine words and a half of
input, and the two ends of the padding. -/
def paddedHeader (m : ByteMem) (input : ℕ) : KeccakState := fun k =>
  if (k : ℕ) < 9 then load64 m (input + 8 * k)
  else if k = 9 then (1 : BitVec 32) ++ load32 m (input + 72)
  else if k = 16 then 0x8000000000000000 else 0

theorem paddedHeader_of_lt (m : ByteMem) (input : ℕ) {k : Fin 25} (hk : (k : ℕ) < 9) :
    paddedHeader m input k = load64 m (input + 8 * k) := if_pos hk

theorem paddedHeader_of_gt (m : ByteMem) (input : ℕ) {k : Fin 25} (hk : 9 < (k : ℕ)) :
    paddedHeader m input k = if k = 16 then 0x8000000000000000 else 0 := by
  have h9 : k ≠ 9 := by
    rintro rfl
    exact absurd hk (by decide)
  rw [paddedHeader, if_neg (by omega : ¬(k : ℕ) < 9), if_neg h9]

/-- The padding as a memory of its own. -/
def padTail : ByteMem := fun q => if q = 76 then 1 else if q = 135 then 0x80 else 0

theorem load64_padTail : ∀ k : Fin 25, 9 < (k : ℕ) → (k : ℕ) < 17 →
    load64 padTail (8 * k) = if k = 16 then 0x8000000000000000 else 0 := by decide

/-- Absorbing a padded header. -/
theorem xorWords_keccakPad (temp m : ByteMem) (input : ℕ) :
    xorWords (fun _ => 0) (keccakPad temp m input 76 136) 0 17 = paddedHeader m input := by
  have hin : ∀ q < 76, keccakPad temp m input 76 136 q = m (input + q) := fun q hq => by
    rw [keccakPad_apply temp m (by omega) (by omega), if_pos hq]
  have htail : ∀ q, 76 ≤ q → q < 136 → keccakPad temp m input 76 136 q = padTail q := by
    intro q h1 h2
    rw [keccakPad_apply temp m (by omega) h2, if_neg (by omega)]
    rfl
  generalize keccakPad temp m input 76 136 = t at hin htail ⊢
  funext k
  rw [xorWords_apply _ _ _ _ (by omega), Nat.zero_add]
  by_cases h17 : (k : ℕ) < 17
  · rw [if_pos h17, show (0 : BitVec 64) ^^^ load64 t (8 * k) = load64 t (8 * k) from
      BitVec.zero_xor]
    rcases lt_trichotomy (k : ℕ) 9 with h9 | h9 | h9
    · rw [paddedHeader_of_lt m input h9]
      refine load64_eq_of_bytes fun i hi => ?_
      rw [hin _ (by omega), Nat.add_assoc]
    · obtain rfl : k = 9 := Fin.ext h9
      have hhi : load32 t 76 = load32 padTail 76 :=
        load32_congr fun i hi => htail _ (by omega) (by omega)
      have hlo : load32 t 72 = load32 m (input + 72) := load32_eq_of_bytes fun i hi => by
        rw [hin _ (by omega), Nat.add_assoc]
      show load32 t 76 ++ load32 t 72 = 1 ++ load32 m (input + 72)
      rw [hhi, hlo]
      rfl
    · rw [load64_congr fun i hi => htail _ (by omega) (by omega), load64_padTail k h9 h17,
        paddedHeader_of_gt m input h9]
  · have h16 : k ≠ 16 := by
      rintro rfl
      exact h17 (by decide)
    rw [if_neg h17, paddedHeader_of_gt m input (by omega), if_neg h16]

/-- The hash of a header on the CPU. -/
theorem keccak1600_header (perm : KeccakState → KeccakState) (temp m : ByteMem) (input : ℕ) :
    keccak1600 perm temp m input 76 = bytes (stateBytes (perm (paddedHeader m input))) 0 200 := by
  rw [keccak_of_lt perm temp m (by omega), xorWords_keccakPad]

end XmrMiner
