import XmrMiner.Crypto.Cryptonight
import XmrMiner.Crypto.Keccak

/-!
# The start of a hash on the CPU

`cryptonight_hash_ctx` begins with the Keccak hash of its input, which goes to the
state of the context.  The tweak of the variants and the registers `a` and `b` of
the main loop are sums of parts of it.

## Main definitions

* `hashProcess`, `variant1Init`, `xorHalves` — the steps.

## Main results

* `hashProcess_state` — the state after the hash of a header.
* `loadBlock_xorHalves` — the registers.
-/

namespace XmrMiner

open ByteMem

/-- `(int) count`.  A negative length, with which the copy of the rest of the input is not
defined, is taken as zero. -/
def intCount (count : ℕ) : ℕ := (BitVec.ofNat 32 count).toInt.toNat

theorem intCount_of_lt {count : ℕ} (h : count < 2 ^ 31) : intCount count = count := by
  have hnat : (BitVec.ofNat 32 count).toNat = count := Nat.mod_eq_of_lt (by omega)
  rw [intCount, BitVec.toInt_eq_toNat_of_lt (by omega), hnat, Int.toNat_natCast]

/-- `hash_process`, into the state of the context. -/
def hashProcess (perm : KeccakState → KeccakState) (temp m : ByteMem) (input len : ℕ)
    (ctx : ByteMem) : ByteMem :=
  storeBytes ctx Ctx.state (keccak1600 perm temp m input (intCount len))

/-- The macro `VARIANT1_INIT`: the tweak, unless the input is too short for it. -/
def variant1Init (variant : ℤ) (len : ℕ) (m : ByteMem) (input : ℕ) (ctx : ByteMem) :
    Option (BitVec 64) :=
  if variant > 0 ∧ len < 43 then none
  else some (if variant > 0 then load64 m (input + 35) ^^^ load64 ctx (Ctx.state + 8 * 24) else 0)

/-- The registers `a` and `b`. -/
def xorHalves (ctx : ByteMem) : ByteMem :=
  let ctx := xorBlocksDst ctx Ctx.state (Ctx.state + 32) Ctx.a
  xorBlocksDst ctx (Ctx.state + 16) (Ctx.state + 48) Ctx.b

/-! ### The context after the steps -/

theorem paddedHeader_congr {m m' : ByteMem} {input input' : ℕ}
    (h : ∀ q < 76, m' (input' + q) = m (input + q)) :
    paddedHeader m' input' = paddedHeader m input := by
  funext k
  by_cases hk : (k : ℕ) < 9
  · rw [paddedHeader_of_lt m' input' hk, paddedHeader_of_lt m input hk]
    refine load64_eq_of_bytes fun i hi => ?_
    rw [Nat.add_assoc, Nat.add_assoc]
    exact h _ (by omega)
  · have hlow : load32 m' (input' + 72) = load32 m (input + 72) :=
      load32_eq_of_bytes fun i hi => by
        rw [Nat.add_assoc, Nat.add_assoc]
        exact h _ (by omega)
    rw [paddedHeader, paddedHeader, if_neg hk, if_neg hk, hlow]

/-- The state after the hash of a header. -/
theorem hashProcess_state (perm : KeccakState → KeccakState) (temp m : ByteMem) (input : ℕ)
    (ctx : ByteMem) {q : ℕ} (hq : q < 200) :
    hashProcess perm temp m input 76 ctx (Ctx.state + q)
      = stateBytes (perm (paddedHeader m input)) q := by
  rw [hashProcess, intCount_of_lt (by decide), keccak1600_header, storeBytes_bytes,
    if_pos (by omega), Nat.zero_add, Nat.add_sub_cancel_left]

theorem loadBlock_xorHalves (ctx : ByteMem) :
    loadBlock (xorHalves ctx) Ctx.a
        = (loadBlock ctx Ctx.state).xor (loadBlock ctx (Ctx.state + 32))
      ∧ loadBlock (xorHalves ctx) Ctx.b
        = (loadBlock ctx (Ctx.state + 16)).xor (loadBlock ctx (Ctx.state + 48)) := by
  have hstate : Ctx.state = 2097152 := rfl
  have ha : Ctx.a = 2097480 := rfl
  have hb : Ctx.b = 2097496 := rfl
  -- the first sum goes to `a`, behind the state
  have hfirst : ∀ p, p + 16 ≤ Ctx.a →
      loadBlock (xorBlocksDst ctx Ctx.state (Ctx.state + 32) Ctx.a) p = loadBlock ctx p :=
    fun p hp => loadBlock_congr fun i hi => xorBlocksDst_of_disjoint ctx (by omega)
  refine ⟨?_, ?_⟩
  · rw [xorHalves, loadBlock_congr fun i hi => xorBlocksDst_of_disjoint _ (by omega),
      loadBlock_xorBlocksDst ctx (by omega) (by omega)]
  · rw [xorHalves, loadBlock_xorBlocksDst _ (by omega) (by omega), hfirst _ (by omega),
      hfirst _ (by omega)]

end XmrMiner
