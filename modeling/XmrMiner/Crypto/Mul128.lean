import Mathlib.Tactic.Ring
import XmrMiner.Lib.ByteMem

/-!
# The 64 by 64 bit multiplication

The CPU computes the 128-bit product from four products of halves, recovering
the carries of the wrapping additions by comparison; the device has the high
half as an instruction.

## Main definitions

* `mul128` — the CPU function, returning the low and the high word.
* `umul64hi`, `cudaMul128` — the device instruction and the function built on it.

## Main results

* `mul128_toNat` — the two words are the product.
* `mul128_eq` — the CPU and the device agree.
* `mul128_exact` — **both, and the halves of the product.**
-/

namespace XmrMiner

/-- The macro `hi_dword`. -/
def hiDword (x : BitVec 64) : BitVec 64 := x >>> 32

/-- The macro `lo_dword`. -/
def loDword (x : BitVec 64) : BitVec 64 := x &&& 0xFFFFFFFF

theorem toNat_hiDword (x : BitVec 64) : (hiDword x).toNat = x.toNat / 2 ^ 32 := by
  rw [hiDword, BitVec.toNat_ushiftRight, Nat.shiftRight_eq_div_pow]

theorem toNat_loDword (x : BitVec 64) : (loDword x).toNat = x.toNat % 2 ^ 32 := by
  exact ByteMem.toNat_and_mask x _ rfl

/-- `mul128`, as the pair of the returned low word and `*product_hi`. -/
def mul128 (multiplier multiplicand : BitVec 64) : BitVec 64 × BitVec 64 :=
  let a := hiDword multiplier
  let b := loDword multiplier
  let c := hiDword multiplicand
  let d := loDword multiplicand
  let ac := a * c
  let ad := a * d
  let bc := b * c
  let bd := b * d
  let adbc := ad + bc
  let adbcCarry : BitVec 64 := if adbc < ad then 1 else 0
  let productLo := bd + (adbc <<< 32)
  let productLoCarry : BitVec 64 := if productLo < bd then 1 else 0
  let productHi := ac + (adbc >>> 32) + (adbcCarry <<< 32) + productLoCarry
  (productLo, productHi)

/-- A product of two halves does not wrap. -/
theorem toNat_mul_of_lt {x y : BitVec 64} (hx : x.toNat < 2 ^ 32) (hy : y.toNat < 2 ^ 32) :
    (x * y).toNat = x.toNat * y.toNat ∧ (x * y).toNat ≤ (2 ^ 32 - 1) * (2 ^ 32 - 1) := by
  have h : x.toNat * y.toNat ≤ (2 ^ 32 - 1) * (2 ^ 32 - 1) :=
    Nat.mul_le_mul (by omega) (by omega)
  have hmul : (x * y).toNat = x.toNat * y.toNat := by
    rw [BitVec.toNat_mul, Nat.mod_eq_of_lt (by omega)]
  exact ⟨hmul, hmul ▸ h⟩

/-- **The carries are recovered.**  If the four half products add up to less than
`2 ^ 128`, comparing each wrapping sum with a summand loses nothing. -/
theorem carries_toNat (ac ad bc bd : BitVec 64)
    (had : ad.toNat ≤ (2 ^ 32 - 1) * (2 ^ 32 - 1))
    (hbc : bc.toNat ≤ (2 ^ 32 - 1) * (2 ^ 32 - 1))
    (hsum : ac.toNat * 2 ^ 64 + (ad.toNat + bc.toNat) * 2 ^ 32 + bd.toNat
      ≤ (2 ^ 64 - 1) * (2 ^ 64 - 1)) :
    (ac + ((ad + bc) >>> 32) + ((if ad + bc < ad then 1 else 0 : BitVec 64) <<< 32)
        + (if bd + ((ad + bc) <<< 32) < bd then 1 else 0 : BitVec 64)).toNat * 2 ^ 64
      + (bd + ((ad + bc) <<< 32)).toNat
      = ac.toNat * 2 ^ 64 + (ad.toNat + bc.toNat) * 2 ^ 32 + bd.toNat := by
  have hadbc : (ad + bc).toNat = (ad.toNat + bc.toNat) % 2 ^ 64 := BitVec.toNat_add _ _
  have hshl : ((ad + bc) <<< 32).toNat = (ad + bc).toNat * 2 ^ 32 % 2 ^ 64 := by
    rw [BitVec.toNat_shiftLeft, Nat.shiftLeft_eq]
  have hshr : ((ad + bc) >>> 32).toNat = (ad + bc).toNat / 2 ^ 32 := by
    rw [BitVec.toNat_ushiftRight, Nat.shiftRight_eq_div_pow]
  have hlo : (bd + ((ad + bc) <<< 32)).toNat = (bd.toNat + ((ad + bc) <<< 32).toNat) % 2 ^ 64 :=
    BitVec.toNat_add _ _
  have hcarry : ((if ad + bc < ad then 1 else 0 : BitVec 64) <<< 32).toNat
      = if (ad + bc).toNat < ad.toNat then 2 ^ 32 else 0 := by
    simp only [BitVec.lt_def]
    split <;> rfl
  have hcarry' : (if bd + ((ad + bc) <<< 32) < bd then 1 else 0 : BitVec 64).toNat
      = if (bd + ((ad + bc) <<< 32)).toNat < bd.toNat then 1 else 0 := by
    simp only [BitVec.lt_def]
    split <;> rfl
  -- each carry is set if and only if its sum has wrapped
  rw [BitVec.toNat_add, BitVec.toNat_add, BitVec.toNat_add, hcarry, hcarry', hshr, hlo, hshl,
    hadbc]
  split <;> split <;> omega

/-- **The CPU product is exact.** -/
theorem mul128_toNat (x y : BitVec 64) :
    (mul128 x y).2.toNat * 2 ^ 64 + (mul128 x y).1.toNat = x.toNat * y.toNat := by
  have hx := x.isLt
  have hy := y.isLt
  have ha := toNat_hiDword x
  have hb := toNat_loDword x
  have hc := toNat_hiDword y
  have hd := toNat_loDword y
  obtain ⟨hac, -⟩ := @toNat_mul_of_lt (hiDword x) (hiDword y) (by omega) (by omega)
  obtain ⟨had, lad⟩ := @toNat_mul_of_lt (hiDword x) (loDword y) (by omega) (by omega)
  obtain ⟨hbc, lbc⟩ := @toNat_mul_of_lt (loDword x) (hiDword y) (by omega) (by omega)
  obtain ⟨hbd, -⟩ := @toNat_mul_of_lt (loDword x) (loDword y) (by omega) (by omega)
  -- the schoolbook identity over the four half products
  have hschool : (hiDword x * hiDword y).toNat * 2 ^ 64
      + ((hiDword x * loDword y).toNat + (loDword x * hiDword y).toNat) * 2 ^ 32
      + (loDword x * loDword y).toNat = x.toNat * y.toNat := by
    rw [hac, had, hbc, hbd, ha, hb, hc, hd]
    conv_rhs => rw [← Nat.div_add_mod x.toNat (2 ^ 32), ← Nat.div_add_mod y.toNat (2 ^ 32)]
    ring
  have hle : x.toNat * y.toNat ≤ (2 ^ 64 - 1) * (2 ^ 64 - 1) :=
    Nat.mul_le_mul (by omega) (by omega)
  rw [← hschool] at hle ⊢
  exact carries_toNat _ _ _ _ lad lbc hle

/-- The device instruction `__umul64hi`: the high word of the product. -/
def umul64hi (x y : BitVec 64) : BitVec 64 := BitVec.ofNat 64 (x.toNat * y.toNat / 2 ^ 64)

/-- `cuda_mul128`, as the pair of the returned low word and `*product_hi`. -/
def cudaMul128 (multiplier multiplicand : BitVec 64) : BitVec 64 × BitVec 64 :=
  (multiplier * multiplicand, umul64hi multiplier multiplicand)

/-- The CPU and the device multiply alike. -/
theorem mul128_eq (x y : BitVec 64) : mul128 x y = cudaMul128 x y := by
  have h := mul128_toNat x y
  have hlo := (mul128 x y).1.isLt
  refine Prod.ext (BitVec.eq_of_toNat_eq ?_) (BitVec.eq_of_toNat_eq ?_)
  · rw [cudaMul128, BitVec.toNat_mul]
    omega
  · rw [cudaMul128, umul64hi, BitVec.toNat_ofNat]
    omega

/-- **The product is exact**: the two words are the product of the operands, on the
processor and on the device. -/
theorem mul128_exact (x y : BitVec 64) :
    (mul128 x y).2.toNat * 2 ^ 64 + (mul128 x y).1.toNat = x.toNat * y.toNat ∧
      mul128 x y = cudaMul128 x y ∧
      (cudaMul128 x y).2.toNat = x.toNat * y.toNat / 2 ^ 64 ∧
      (cudaMul128 x y).1.toNat = x.toNat * y.toNat % 2 ^ 64 := by
  have hprod := mul128_toNat x y
  have heq := mul128_eq x y
  have hlo := (mul128 x y).1.isLt
  refine ⟨hprod, heq, ?_, ?_⟩
  · rw [← heq]
    omega
  · rw [← heq]
    omega

end XmrMiner
