import XmrMiner.Crypto.Keccak
import XmrMiner.Lib.Blocks

/-!
# Keccak is a sponge

The loop of `keccak` takes full blocks off its input and adds them onto the state word
by word; what is left is padded in a buffer of its own and added in the same way.
What it computes is the sponge over the padded message, for a message of any length:
the padding is a one bit, zeros and a one bit, which fall into one byte when only one
is left.

The sponge adds all bytes of a block.  The loop leaves out those behind the last whole word,
so that the rate has to be a multiple of eight, and the length of the output one of four.

## Main definitions

* `padEnd`, `sponge` — the padding, and the state after all blocks of the padded
  message.

## Main results

* `keccakAbsorb_eq` — the loop folds over the blocks.
* `keccak1600_eq_sponge`, `keccak_eq_sponge` — **`keccak` is the sponge**, for every input,
  whatever is in its buffer before.
-/

namespace XmrMiner

open ByteMem Blocks

/-! ### The sponge -/

/-- What is put behind a message of which `r` bytes are left for the last block. -/
def padEnd (rate r : ℕ) : List (BitVec 8) :=
  if r + 1 = rate then [0x81] else 0x01 :: (List.replicate (rate - 2 - r) 0 ++ [0x80])

section Sponge

variable (perm : KeccakState → KeccakState)

/-- Add a block onto the state, all its bytes, and permute it. -/
def absorbBlock (s : KeccakState) (b : List (BitVec 8)) : KeccakState :=
  perm fun k => s k ^^^ load64 (memOf b) (8 * k)

/-- The state after the blocks of the padded message. -/
def sponge (rate : ℕ) (msg : List (BitVec 8)) : KeccakState :=
  (blocks rate (msg ++ padEnd rate (msg.length % rate))).foldl (absorbBlock perm) fun _ => 0

end Sponge

theorem length_padEnd {rate r : ℕ} (h : r < rate) : (padEnd rate r).length = rate - r := by
  unfold padEnd
  split
  · next hlast =>
    rw [List.length_singleton]
    omega
  · next hlast =>
    simp only [List.length_cons, List.length_append, List.length_replicate, List.length_nil]
    omega

/-! ### The loop -/

/-- There is nothing behind a block. -/
theorem load64_memOf_of_le {b : List (BitVec 8)} {p : ℕ} (h : b.length ≤ p) :
    load64 (memOf b) p = 0 := by
  have hzero : load64 (memOf b) p = load64 (fun _ => 0) p :=
    load64_eq_of_bytes fun i _ => List.getD_eq_default b 0 (by omega)
  rw [hzero, load64, load32_zero, load32_zero]
  rfl

theorem xorWords_eq_absorbBlock (perm : KeccakState → KeccakState) (st : KeccakState) (m : ByteMem)
    (p : ℕ) {rate : ℕ} (hrate : rate ≤ 200) (hwords : 8 ∣ rate) :
    perm (xorWords st m p (rate / 8)) = absorbBlock perm st (bytes m p rate) := by
  unfold absorbBlock
  congr 1
  funext k
  rw [xorWords_apply _ _ _ _ (Nat.div_le_of_le_mul hrate)]
  by_cases hk : (k : ℕ) < rate / 8
  · rw [if_pos hk]
    refine congrArg _ (load64_eq_of_bytes fun i hi => ?_)
    rw [memOf_bytes m p (by omega), Nat.add_assoc]
  · -- a word that is not added is one behind the block
    have hbehind : (bytes m p rate).length ≤ 8 * k := by
      rw [length_bytes]
      omega
    rw [if_neg hk, load64_memOf_of_le hbehind]
    exact (BitVec.xor_zero).symm

section Absorb

variable (perm : KeccakState → KeccakState) {rate : ℕ} (m : ByteMem)

theorem keccakAbsorb_of_ge (hpos : 0 < rate) (hrate : rate ≤ 200) (hwords : 8 ∣ rate)
    (st : KeccakState) (input : ℕ) {inlen : ℕ} (h : rate ≤ inlen) :
    keccakAbsorb perm rate m st input inlen
      = keccakAbsorb perm rate m (absorbBlock perm st (bytes m input rate)) (input + rate)
          (inlen - rate) := by
  rw [keccakAbsorb, if_pos ⟨hpos, h⟩, xorWords_eq_absorbBlock perm st m input hrate hwords]

/-- **The loop folds over the full blocks**, and stops in front of the rest. -/
theorem keccakAbsorb_eq (hpos : 0 < rate) (hrate : rate ≤ 200) (hwords : 8 ∣ rate)
    (st : KeccakState) (input inlen : ℕ) : keccakAbsorb perm rate m st input inlen
      = ((blocks rate (bytes m input (rate * (inlen / rate)))).foldl (absorbBlock perm) st,
          input + rate * (inlen / rate), inlen % rate) := by
  have hfold : takeBlocks rate (fun st input => absorbBlock perm st (bytes m input rate))
      (inlen / rate) st input
      = (blocks rate (bytes m input (rate * (inlen / rate)))).foldl (absorbBlock perm) st :=
    takeBlocks_eq_foldl hpos (fun _ _ => rfl) _ st input
  rw [← hfold]
  exact loop_eq_takeBlocks (keccakAbsorb perm rate m) (fun st input inlen => (st, input, inlen))
    hpos (fun st input _ h => keccakAbsorb_of_ge perm m hpos hrate hwords st input h)
    (fun st input _ h => keccakAbsorb_of_lt perm m st input h) st input inlen

end Absorb

/-! ### The last block -/

theorem memOf_padEnd {rate r q : ℕ} (hr : r + 1 < rate) (hq : r ≤ q) (hlt : q < rate) :
    memOf (padEnd rate r) (q - r) = if q = r then 1 else if q = rate - 1 then 0x80 else 0 := by
  rw [memOf, padEnd, if_neg hr.ne]
  obtain ⟨i, rfl⟩ := Nat.exists_eq_add_of_le hq
  rw [Nat.add_sub_cancel_left]
  cases i with
  | zero => simp
  | succ i =>
    rw [List.getD_cons_succ, if_neg (by omega)]
    by_cases hlast : r + (i + 1) = rate - 1
    · rw [if_pos hlast, List.getD_append_right _ _ _ _ (by rw [List.length_replicate]; omega),
        List.length_replicate, show i - (rate - 2 - r) = 0 by omega]
      rfl
    · rw [if_neg hlast, List.getD_append _ _ _ _ (by rw [List.length_replicate]; omega),
        List.getD_replicate _ (by omega)]

/-- The buffer of the last block when one byte is left for the padding. -/
theorem keccakPad_last (temp m : ByteMem) (input : ℕ) {inlen q : ℕ} (hq : q ≤ inlen) :
    keccakPad temp m input inlen (inlen + 1) q = if q < inlen then m (input + q) else 0x81 := by
  have hnone : ∀ t : ByteMem,
      storeBytes t (inlen + 1) (List.replicate (inlen + 1 - (inlen + 1)) 0) = t := by
    intro t
    funext i
    rw [Nat.sub_self, storeBytes, if_neg]
    simp only [List.replicate_zero, List.length_nil]
    omega
  unfold keccakPad
  simp only [hnone, Nat.add_sub_cancel]
  rcases hq.lt_or_eq with hlt | rfl
  · rw [Function.update_of_ne hlt.ne, Function.update_of_ne hlt.ne, if_pos hlt, storeBytes_bytes,
      if_pos (by omega), Nat.sub_zero]
  · rw [Function.update_self, Function.update_self, if_neg (lt_irrefl _)]
    rfl

/-- **The buffer of the last block**: what is left of the message, and the padding. -/
theorem bytes_keccakPad (temp m : ByteMem) (input : ℕ) {inlen rate : ℕ} (h : inlen < rate) :
    bytes (keccakPad temp m input inlen rate) 0 rate
      = bytes m input inlen ++ padEnd rate inlen := by
  have hlen : (bytes m input inlen ++ padEnd rate inlen).length = rate := by
    rw [List.length_append, length_bytes, length_padEnd h]
    omega
  refine List.ext_getElem (by rw [length_bytes, hlen]) fun q h₁ h₂ => ?_
  have hq : q < rate := hlen ▸ h₂
  rw [getElem_bytes, Nat.zero_add]
  rcases Nat.lt_or_ge q inlen with hlt | hge
  · rw [List.getElem_append_left (by rw [length_bytes]; exact hlt), getElem_bytes]
    rcases Nat.lt_or_ge (inlen + 1) rate with hgap | hlast
    · rw [keccakPad_apply temp m hgap hq, if_pos hlt]
    · obtain rfl : rate = inlen + 1 := by omega
      rw [keccakPad_last temp m input (by omega), if_pos hlt]
  · have hpad : (bytes m input inlen ++ padEnd rate inlen)[q] = memOf (padEnd rate inlen)
        (q - inlen) := by
      have hlt : q - inlen < (padEnd rate inlen).length := by
        rw [length_padEnd h]
        omega
      rw [List.getElem_append_right (by rw [length_bytes]; exact hge), memOf,
        List.getD_eq_getElem?_getD, List.getElem?_eq_getElem hlt, Option.getD_some]
      simp only [length_bytes]
    rw [hpad]
    rcases Nat.lt_or_ge (inlen + 1) rate with hgap | hlast
    · rw [keccakPad_apply temp m hgap hq, if_neg (by omega), memOf_padEnd hgap hge hq]
    · obtain rfl : rate = inlen + 1 := by omega
      obtain rfl : q = inlen := by omega
      rw [keccakPad_last temp m input le_rfl, if_neg (lt_irrefl _), Nat.sub_self, padEnd,
        if_pos rfl]
      rfl

/-! ### The whole function -/

theorem keccak_eq_sponge_of_rate (perm : KeccakState → KeccakState) (temp m : ByteMem)
    (input inlen : ℕ) {mdlen rate : ℕ}
    (hrate : (if mdlen = 200 then 136 else 200 - 2 * mdlen) = rate) (hpos : 0 < rate)
    (hle : rate ≤ 200) (hwords : 8 ∣ rate) :
    keccak perm temp m input inlen mdlen
      = bytes (stateBytes (sponge perm rate (bytes m input inlen))) 0 mdlen := by
  have hlt : inlen % rate < rate := Nat.mod_lt _ hpos
  unfold keccak
  dsimp only
  rw [hrate, keccakAbsorb_eq perm m hpos hle hwords (fun _ => 0) input inlen]
  dsimp only
  rw [← blocks_bytes hpos m input inlen]
  -- the buffer is one more block
  have hlast : (bytes m (input + rate * (inlen / rate)) (inlen % rate)
      ++ padEnd rate (inlen % rate)).length = rate := by
    rw [List.length_append, length_bytes, length_padEnd hlt]
    omega
  rw [xorWords_eq_absorbBlock perm _ _ 0 hle hwords, bytes_keccakPad temp m _ hlt, sponge,
    blocks_append_rest hpos, rest_bytes, length_bytes, blocks_self hpos hlast,
    List.foldl_append, List.foldl_cons, List.foldl_nil]

/-- `keccak1600` has a rate of 136 bytes, and the whole state as its output. -/
theorem keccak1600_eq_sponge (perm : KeccakState → KeccakState) (temp m : ByteMem)
    (input inlen : ℕ) : keccak1600 perm temp m input inlen
      = bytes (stateBytes (sponge perm 136 (bytes m input inlen))) 0 200 :=
  keccak_eq_sponge_of_rate perm temp m input inlen rfl (by decide) (by decide) (by decide)

/-- **`keccak` is the sponge** over its padded input, of any length, whatever its buffer
holds before.  The output lengths other than that of the state for which the blocks are whole
words and fit into the buffer are the multiples of four from 28 bytes on. -/
theorem keccak_eq_sponge (perm : KeccakState → KeccakState) (temp m : ByteMem)
    (input inlen : ℕ) {mdlen : ℕ} (hmdlen : mdlen = 200 ∨ 28 ≤ mdlen ∧ mdlen < 100 ∧ 4 ∣ mdlen) :
    keccak perm temp m input inlen mdlen
      = bytes (stateBytes (sponge perm (if mdlen = 200 then 136 else 200 - 2 * mdlen)
          (bytes m input inlen))) 0 mdlen := by
  refine keccak_eq_sponge_of_rate perm temp m input inlen rfl ?_ ?_ ?_
  · split <;> omega
  · split <;> omega
  · split <;> omega

/-- A message of one block, whose padding makes up a block of its own. -/
theorem keccak_eq_sponge_136 :
    let m : ByteMem := fun q => BitVec.ofNat 8 q
    keccak (fun s => keccakf s 24) (fun _ => 0xff) m 0 136 32
      = bytes (stateBytes (sponge (fun s => keccakf s 24) (if 32 = 200 then 136 else 200 - 2 * 32)
          (bytes m 0 136))) 0 32 := by
  intro m
  exact keccak_eq_sponge (fun s => keccakf s 24) (fun _ => 0xff) m 0 136
    (Or.inr ⟨by decide, by decide, by decide⟩)

end XmrMiner
