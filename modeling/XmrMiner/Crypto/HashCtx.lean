import XmrMiner.Crypto.Init
import XmrMiner.Crypto.SlowHash

/-!
# A whole hash on the CPU

`cryptonight_hash_ctx` runs the parts one after the other on a context that its caller
has not initialized.  The expanded key lies on the heap, where the second import puts
its own; here both are at one place behind the context.

An input that is too short for the tweak ends the function before it has written its
output, and an allocation that fails leaves a null pointer for the key, which is read
without a check.  The context of `cryptonight_hash` is allocated without a check as well.

## Main definitions

* `HashAllocs`, `HashExit` — the outcomes of the allocations, and the other ends.
* `cryptonightHashCtx`, `cryptonightHash` — the functions.

## Main results

* `cryptonightRun_eq` — the last state, through all parts.
* `cryptonightHashCtx_eq` — **the function computes the slow hash**, in a context that
  holds anything, and otherwise ends in one of the two other ways.
-/

namespace XmrMiner

open ByteMem Blocks

/-! ### The function -/

/-- Whether the allocations of a hash succeed. -/
structure HashAllocs where
  /-- `oaes_alloc`. -/
  ctx : Bool
  /-- The three allocations of the first `oaes_key_import_data`. -/
  key1 : Bool × Bool × Bool
  /-- Those of the second one. -/
  key2 : Bool × Bool × Bool

/-- All of them succeed. -/
def HashAllocs.Succeed (al : HashAllocs) : Prop :=
  al.ctx = true ∧ al.key1 = (true, true, true) ∧ al.key2 = (true, true, true)

instance (al : HashAllocs) : Decidable al.Succeed :=
  inferInstanceAs (Decidable (_ ∧ _ ∧ _))

/-- How a hash ends without an output. -/
inductive HashExit
  /-- The message that the input is too short. -/
  | tooShort
  /-- A null pointer is read in place of the expanded key. -/
  | nullKey
  /-- A null pointer is written to in place of the context. -/
  | nullCtx
  deriving DecidableEq, Repr

/-- `oaes_key_import_data`, into the context, whose return value is ignored. -/
def importKey (alloc : Bool) (callocs : Bool × Bool × Bool) (ctx : ByteMem) (data : ℕ) :
    Except HashExit ByteMem :=
  if alloc then
    match oaesKeyImportData callocs.1 callocs.2.1 callocs.2.2 ctx data 32 with
    | .ok key => .ok (storeBytes ctx Ctx.expData (bytes key.expData 0 240))
    | .error _ => .error .nullKey
  else .error .nullKey

/-- The words of a state in memory. -/
def stateAt (m : ByteMem) (p : ℕ) : KeccakState := fun k => load64 m (p + 8 * k)

section Hash

-- the permutation is `keccakf` with 24 rounds, and `extra` the table `extra_hashes`
variable (perm : KeccakState → KeccakState) (extra : Fin 4 → List (BitVec 8) → List (BitVec 8))

/-- `hash_permutation`. -/
def hashPermutation (ctx : ByteMem) : ByteMem :=
  storeBytes ctx Ctx.state (bytes (stateBytes (perm (stateAt ctx Ctx.state))) 0 200)

/-- `cryptonight_hash_ctx`.  The copy of the text, with which `cryptonightFill` begins,
stands in front of `VARIANT1_INIT` in the source; neither that nor the key depends on it.
The array of `keccak` holds `temp` before. -/
def cryptonightHashCtx (al : HashAllocs) (temp m : ByteMem) (input len : ℕ) (variant : ℤ)
    (ctx : ByteMem) : Except HashExit (List (BitVec 8)) := do
  let ctx := hashProcess perm temp m input len ctx
  match variant1Init variant len m input ctx with
  | none => .error .tooShort
  | some tweak1_2 =>
    let ctx ← importKey al.ctx al.key1 ctx Ctx.state
    let ctx := cryptonightFill ctx
    let ctx := xorHalves ctx
    let ctx := cryptonightLoop variant.toNat tweak1_2 (1048576 / 4) ctx
    let ctx ← importKey al.ctx al.key2 ctx (Ctx.state + 32)
    let ctx := cryptonightFold ctx
    let ctx := hashPermutation perm ctx
    return extra (Fin.ofNat 4 (ctx Ctx.state &&& 3).toNat) (bytes ctx Ctx.state 200)

/-- `cryptonight_hash`, whose context is on the heap and holds `garbage`, if `malloc` has found
room for it. -/
def cryptonightHash (malloc : Bool) (al : HashAllocs) (temp garbage m : ByteMem) (input len : ℕ)
    (variant : ℤ) : Except HashExit (List (BitVec 8)) :=
  if malloc then cryptonightHashCtx perm extra al temp m input len variant garbage
  else .error .nullCtx

end Hash

/-! ### What the parts leave alone -/

/-- The fill writes the scratchpad, the text and the local array. -/
theorem cryptonightFill_of_disjoint (m : ByteMem) {q : ℕ} (hq : 2097152 ≤ q)
    (ht : q < Ctx.text ∨ Ctx.text + 128 ≤ q) (hb : q < Ctx.b1 ∨ Ctx.b1 + 16 ≤ q) :
    cryptonightFill m q = m q := by
  rw [cryptonightFill, (FillInv.loop _).frame q hq ht hb, copyText_of_disjoint m ht]

theorem xorHalves_of_disjoint (ctx : ByteMem) {q : ℕ} (h : q < Ctx.a ∨ Ctx.c ≤ q) :
    xorHalves ctx q = ctx q := by
  have ha : Ctx.a = 2097480 := rfl
  have hb : Ctx.b = 2097496 := rfl
  have hc : Ctx.c = 2097512 := rfl
  rw [xorHalves, xorBlocksDst_of_disjoint _ (by omega), xorBlocksDst_of_disjoint _ (by omega)]

/-- Half an iteration writes the scratchpad and the registers. -/
theorem cryptonightHalf_of_disjoint (variant : ℕ) (tweak1_2 : BitVec 64) (m : ByteMem)
    {out prev q : ℕ} (hreg : RegPair out prev) (hq : 2097152 ≤ q)
    (h : q < Ctx.a ∨ Ctx.c + 16 ≤ q) : cryptonightHalf variant tweak1_2 out prev m q = m q := by
  have ha : Ctx.a = 2097480 := rfl
  have hb : Ctx.b = 2097496 := rfl
  have hc : Ctx.c = 2097512 := rfl
  have hl : Ctx.longState = 0 := rfl
  have hout : q < out ∨ out + 16 ≤ q := by
    rcases hreg with ⟨rfl, -⟩ | ⟨rfl, -⟩ <;> omega
  -- both blocks lie in the scratchpad
  have hblock : ∀ m' p, q < Ctx.longState + e2i m' p * 16 ∨
      Ctx.longState + e2i m' p * 16 + 16 ≤ q := by
    intro m' p
    have := (blockIndex (loadBlock m' p)).isLt
    rw [e2i_eq]
    omega
  rw [cryptonightHalf_eq, mulSumXorDst_of_disjoint _ (by omega) (hblock _ _), encryptBlock,
    variant1_1_of_disjoint _ (hblock _ _), xorBlocksDst_of_disjoint _ (hblock _ _),
    aesbSingleRound_of_disjoint _ hout]

theorem cryptonightLoop_of_disjoint (variant : ℕ) (tweak1_2 : BitVec 64) {q : ℕ}
    (hq : 2097152 ≤ q) (h : q < Ctx.a ∨ Ctx.c + 16 ≤ q) :
    ∀ (n : ℕ) (m : ByteMem), cryptonightLoop variant tweak1_2 n m q = m q := by
  intro n
  induction n with
  | zero => intro m; rfl
  | succ n ih =>
    intro m
    have hiter : cryptonightIteration variant tweak1_2 m q = m q := by
      rw [cryptonightIteration_eq,
        cryptonightHalf_of_disjoint _ _ _ (Or.inr ⟨rfl, rfl⟩) hq h,
        cryptonightHalf_of_disjoint _ _ _ (Or.inl ⟨rfl, rfl⟩) hq h]
    rw [cryptonightLoop, Function.iterate_succ_apply, ← hiter]
    exact ih _

/-! ### The parts, on words -/

/-- The memory holds the state `ws` in the context. -/
def HoldsState (m : ByteMem) (ws : ℕ → BitVec 32) : Prop :=
  ∀ w < 50, load32 m (Ctx.state + 4 * w) = ws w

theorem HoldsState.congr {m m' : ByteMem} {ws : ℕ → BitVec 32} (h : HoldsState m ws)
    (hm : ∀ q, Ctx.state ≤ q → q < Ctx.state + 200 → m' q = m q) : HoldsState m' ws := by
  intro w hw
  rw [← h w hw]
  exact load32_congr fun i hi => hm _ (by omega) (by omega)

theorem HoldsState.blockAt {m : ByteMem} {ws : ℕ → BitVec 32} (h : HoldsState m ws) {p : ℕ}
    (hp : p + 4 ≤ 50) : loadBlock m (Ctx.state + 4 * p) = XmrMiner.blockAt ws p := by
  funext i
  rw [XmrMiner.blockAt, ← h _ (by omega), loadBlock]
  congr 1
  omega

/-- The state as the permutation finds it. -/
theorem HoldsState.stateAt {m : ByteMem} {ws : ℕ → BitVec 32} (h : HoldsState m ws) :
    XmrMiner.stateAt m Ctx.state = wordsState ws := by
  funext k
  have hlo := h (2 * k) (by omega)
  have hhi := h (2 * k + 1) (by omega)
  have haddr : Ctx.state + 8 * (k : ℕ) = Ctx.state + 4 * (2 * k) := by omega
  have haddr4 : Ctx.state + 8 * (k : ℕ) + 4 = Ctx.state + 4 * (2 * k + 1) := by omega
  rw [XmrMiner.stateAt, wordsState, load64, haddr4, hhi, haddr, hlo]

/-- The hash of the input goes to the state. -/
theorem holdsState_hashProcess (perm : KeccakState → KeccakState) (temp m : ByteMem)
    (input : ℕ) {len : ℕ} (hlen : len < 2 ^ 31) (ctx : ByteMem) :
    HoldsState (hashProcess perm temp m input len ctx)
      (stateWords (sponge perm 136 (bytes m input len))) := by
  intro w hw
  set s := sponge perm 136 (bytes m input len) with hs
  have hrun : keccak1600 perm temp m input len = bytes (stateBytes s) 0 200 :=
    keccak1600_eq_sponge perm temp m input len
  have hbyte : ∀ i < 4, hashProcess perm temp m input len ctx (Ctx.state + 4 * w + i)
      = stateBytes s (4 * w + i) := by
    intro i hi
    rw [hashProcess, intCount_of_lt hlen, hrun, storeBytes_bytes, if_pos (by omega)]
    exact congrArg (stateBytes s) (by omega)
  rw [← load32_stateBytes]
  exact load32_eq_of_bytes hbyte

/-- A key that has been imported, from word `p` of the state on. -/
theorem importKey_eq {ctx : ByteMem} {ws : ℕ → BitVec 32} (h : HoldsState ctx ws) {p : ℕ}
    (hp : p + 8 ≤ 50) :
    ∃ ctx', importKey true (true, true, true) ctx (Ctx.state + 4 * p) = .ok ctx' ∧
      (∀ n < 10, keyBlocks ctx' Ctx.expData n = expandedKey ws p n) ∧
      ∀ q, (q < Ctx.expData ∨ Ctx.expData + 240 ≤ q) → ctx' q = ctx q := by
  obtain ⟨key, hkey, hwords⟩ := load32_oaesKeyImportData ctx (Ctx.state + 4 * p)
  refine ⟨storeBytes ctx Ctx.expData (bytes key.expData 0 240), ?_, fun n hn => ?_, fun q hq => ?_⟩
  · simp only [importKey, if_true, hkey]
  · funext i
    have hbyte : ∀ j < 4, storeBytes ctx Ctx.expData (bytes key.expData 0 240)
        (Ctx.expData + 16 * n + 4 * i + j) = key.expData (4 * (4 * n + i) + j) := by
      intro j hj
      rw [storeBytes_bytes, if_pos (by omega)]
      exact congrArg key.expData (by omega)
    rw [keyBlocks, loadBlock, load32_eq_of_bytes hbyte, hwords _ (by omega), expandedKey]
    refine scheduleWord_congr _ (by decide) (fun j hj => ?_) _
    rw [← h _ (by omega)]
    congr 1
    omega
  · rw [storeBytes_bytes, if_neg (by omega)]

/-- The filled scratchpad. -/
theorem scratchOf_cryptonightFill {m : ByteMem} {ws : ℕ → BitVec 32} (h : HoldsState m ws)
    (hkey : ∀ n < 10, keyBlocks m Ctx.expData n = expandedKey ws 0 n) :
    scratchOf (cryptonightFill m) = filledPad ws := by
  funext k
  have hp : (k : ℕ) % 8 < 8 := Nat.mod_lt _ (by decide)
  have haddr : Ctx.longState + (k : ℕ) * 16
      = Ctx.longState + 128 * (k / 8) + 16 * (k % 8) := by omega
  have htext : Ctx.init + 16 * ((k : ℕ) % 8) = Ctx.state + 4 * (16 + 4 * (k % 8)) := by
    unfold Ctx.init Ctx.state
    omega
  rw [scratchOf, haddr, loadBlock_cryptonightFill m hp (by omega), fillText_congr hkey, htext,
    h.blockAt (by omega), filledPad]

/-- The main loop, from the filled scratchpad on. -/
theorem loopStateOf_xorHalves {m : ByteMem} {ws : ℕ → BitVec 32} (h : HoldsState m ws)
    (hpad : scratchOf m = filledPad ws) : loopStateOf (xorHalves m) Ctx.b = loopStart ws := by
  have hscratch : scratchOf (xorHalves m) = scratchOf m := by
    funext k
    refine loadBlock_congr fun i hi => xorHalves_of_disjoint m (Or.inl ?_)
    unfold Ctx.longState Ctx.a
    omega
  obtain ⟨ha, hb⟩ := loadBlock_xorHalves m
  have h0 := h.blockAt (p := 0) (by decide)
  have h4 := h.blockAt (p := 4) (by decide)
  have h8 := h.blockAt (p := 8) (by decide)
  have h12 := h.blockAt (p := 12) (by decide)
  refine LoopState.ext ?_ ?_ ?_
  · exact hscratch.trans hpad
  · exact ha.trans (congrArg₂ Block.xor h0 h8)
  · exact hb.trans (congrArg₂ Block.xor h4 h12)

/-- The folded state. -/
theorem holdsState_cryptonightFold {m : ByteMem} {ws : ℕ → BitVec 32} (h : HoldsState m ws)
    (hkey : ∀ n < 10, keyBlocks m Ctx.expData n = expandedKey ws 8 n) :
    HoldsState (cryptonightFold m) (foldedState ws (scratchOf m)) := by
  have hstate : Ctx.state = 2097152 := rfl
  have hinit : Ctx.init = 2097216 := rfl
  have htext : Ctx.text = 2097352 := rfl
  have hb1 : Ctx.b1 = 2097776 := rfl
  intro w hw
  unfold foldedState
  split
  · next hmid =>
    -- word `w` is word `w % 4` of its text block
    have hp : (w - 16) / 4 < 8 := by omega
    have hcol : ∀ j < 16384, padBlocks m ((w - 16) / 4) j = padColumn (scratchOf m) ((w - 16) / 4) j
        := by
      intro j hj
      rw [padBlocks, padColumn, scratchOf, val_padColumn hp hj]
      congr 1
      omega
    have hblock : Ctx.init + 16 * ((w - 16) / 4) = Ctx.state + 4 * (16 + 4 * ((w - 16) / 4)) := by
      omega
    have hfold := loadBlock_cryptonightFold m hp
    rw [foldText_congr hkey _ 16384 hcol, hblock, h.blockAt (by omega)] at hfold
    have hword := congrFun hfold (Fin.ofNat 4 w)
    have hlane : ((Fin.ofNat 4 w : Fin 4) : ℕ) = w % 4 := rfl
    have haddr : Ctx.state + 4 * (16 + 4 * ((w - 16) / 4)) + 4 * (w % 4) = Ctx.state + 4 * w := by
      omega
    rw [loadBlock, hlane, haddr] at hword
    exact hword
  · next hout =>
    rw [← h w hw]
    exact load32_congr fun i hi => cryptonightFold_of_disjoint m (by omega) (by omega) (by omega)

/-! ### The whole hash -/

/-- Without a variant the tweak is not looked at. -/
theorem mainLoop_zero (tweak1_2 tweak1_2' : BitVec 64) :
    mainLoop 0 tweak1_2 = mainLoop 0 tweak1_2' := rfl

section Hash

variable (perm : KeccakState → KeccakState) (extra : Fin 4 → List (BitVec 8) → List (BitVec 8))

/-- **The last state**, through all parts. -/
theorem cryptonightRun_eq {ctx : ByteMem} {ws : ℕ → BitVec 32} (h : HoldsState ctx ws)
    (variant : ℕ) (tweak1_2 : BitVec 64) :
    ∃ ctx₁ ctx₂, importKey true (true, true, true) ctx Ctx.state = .ok ctx₁ ∧
      importKey true (true, true, true)
        (cryptonightLoop variant tweak1_2 262144 (xorHalves (cryptonightFill ctx₁)))
        (Ctx.state + 32) = .ok ctx₂ ∧
      HoldsState (cryptonightFold ctx₂)
        (foldedState ws (mainLoop variant tweak1_2 262144 (loopStart ws)).scratch) := by
  have hstate : Ctx.state = 2097152 := rfl
  have hexp : Ctx.expData = 2097536 := rfl
  have htext : Ctx.text = 2097352 := rfl
  have hb1 : Ctx.b1 = 2097776 := rfl
  have ha : Ctx.a = 2097480 := rfl
  have hc : Ctx.c = 2097512 := rfl
  obtain ⟨ctx₁, himport₁, hkey₁, hframe₁⟩ := importKey_eq h (p := 0) (by decide)
  have h₁ : HoldsState ctx₁ ws := h.congr fun q _ _ => hframe₁ q (by omega)
  have hpad := scratchOf_cryptonightFill h₁ hkey₁
  set fill := cryptonightFill ctx₁
  have hfill : HoldsState fill ws := h₁.congr fun q _ _ =>
    cryptonightFill_of_disjoint ctx₁ (by omega) (by omega) (by omega)
  have hstart := loopStateOf_xorHalves hfill hpad
  have hxor : HoldsState (xorHalves fill) ws := hfill.congr fun q _ _ =>
    xorHalves_of_disjoint fill (by omega)
  have hloop := loopStateOf_cryptonightLoop variant tweak1_2 262144 (xorHalves fill)
  rw [hstart] at hloop
  set loop := cryptonightLoop variant tweak1_2 262144 (xorHalves fill)
  have hkept : HoldsState loop ws := hxor.congr fun q _ _ =>
    cryptonightLoop_of_disjoint variant tweak1_2 (by omega) (by omega) 262144 _
  obtain ⟨ctx₂, himport₂, hkey₂, hframe₂⟩ := importKey_eq hkept (p := 8) (by decide)
  have h₂ : HoldsState ctx₂ ws := hkept.congr fun q _ _ => hframe₂ q (by omega)
  -- the second key leaves the scratchpad of the loop
  have hscratch : scratchOf ctx₂ = (mainLoop variant tweak1_2 262144 (loopStart ws)).scratch := by
    rw [← hloop]
    funext k
    refine loadBlock_congr fun i hi => hframe₂ _ (Or.inl ?_)
    unfold Ctx.longState Ctx.expData
    omega
  refine ⟨ctx₁, ctx₂, himport₁, himport₂, ?_⟩
  rw [← hscratch]
  exact holdsState_cryptonightFold h₂ hkey₂

theorem importKey_of_fail {alloc : Bool} {callocs : Bool × Bool × Bool}
    (h : ¬ (alloc = true ∧ callocs = (true, true, true))) (ctx : ByteMem) (data : ℕ) :
    importKey alloc callocs ctx data = .error .nullKey := by
  obtain ⟨key, dat, exp⟩ := callocs
  unfold importKey
  cases alloc with
  | false => rfl
  | true =>
    have hlen : (32 : ℕ) = 16 ∨ 32 = 24 ∨ 32 = 32 := by decide
    rw [if_pos rfl, oaesKeyImportData, if_pos hlen]
    cases key with
    | false => rfl
    | true =>
      cases dat with
      | false => rfl
      | true =>
        cases exp with
        | false => rfl
        | true => exact absurd ⟨rfl, rfl⟩ h

/-- The tweak that the main loop is run with, if the input is long enough. -/
theorem variant1Init_eq (temp m : ByteMem) (input : ℕ) {len : ℕ} (hint : len < 2 ^ 31)
    (variant : ℤ) (ctx : ByteMem) (hlen : ¬ (variant > 0 ∧ len < 43)) :
    ∃ tweak1_2, variant1Init variant len m input (hashProcess perm temp m input len ctx)
        = some tweak1_2 ∧
      mainLoop variant.toNat tweak1_2 = mainLoop variant.toNat (messageTweak (bytes m input len)
        (sponge perm 136 (bytes m input len))) := by
  set s := sponge perm 136 (bytes m input len) with hs
  have hstate : load64 (hashProcess perm temp m input len ctx) (Ctx.state + 8 * 24) = s 24 := by
    have hwords := (holdsState_hashProcess perm temp m input hint ctx).stateAt
    rw [← hs, wordsState_stateWords] at hwords
    exact congrFun hwords 24
  rw [variant1Init, if_neg hlen]
  refine ⟨_, rfl, ?_⟩
  by_cases hv : variant > 0
  · have hinput : load64 (memOf (bytes m input len)) 35 = load64 m (input + 35) :=
      load64_eq_of_bytes fun i hi => by
        rw [memOf_bytes m input (by omega), Nat.add_assoc]
    rw [if_pos hv, hstate, messageTweak, hinput]
  · have hzero : variant.toNat = 0 := by omega
    rw [hzero]
    exact mainLoop_zero _ _

/-- The state after the permutation. -/
theorem hashPermutation_state {ctx : ByteMem} {ws : ℕ → BitVec 32} (h : HoldsState ctx ws)
    {q : ℕ} (hq : q < 200) :
    hashPermutation perm ctx (Ctx.state + q) = stateBytes (perm (wordsState ws)) q := by
  rw [hashPermutation, h.stateAt, storeBytes_bytes, if_pos (by omega), Nat.add_sub_cancel_left,
    Nat.zero_add]

/-- The end of the hash. -/
theorem hashPermutation_eq {ctx : ByteMem} {ws : ℕ → BitVec 32} (h : HoldsState ctx ws) :
    extra (Fin.ofNat 4 (hashPermutation perm ctx Ctx.state &&& 3).toNat)
        (bytes (hashPermutation perm ctx) Ctx.state 200)
      = finalHash extra (perm (wordsState ws)) := by
  have hfirst : hashPermutation perm ctx Ctx.state = stateBytes (perm (wordsState ws)) 0 := by
    have hzero := hashPermutation_state perm h (q := 0) (by decide)
    rwa [Nat.add_zero] at hzero
  have hbytes : bytes (hashPermutation perm ctx) Ctx.state 200
      = bytes (stateBytes (perm (wordsState ws))) 0 200 :=
    List.map_congr_left fun q hq => by
      rw [hashPermutation_state perm h (List.mem_range.mp hq), Nat.zero_add]
  rw [hbytes, hfirst]
  exact finalHash_eq extra _

/-- **The function computes the slow hash of its input**, in a context and with a buffer
that hold anything, or it ends without an output: for want of bytes for the tweak, or
of memory.  The length has to be an `int`. -/
theorem cryptonightHashCtx_eq (al : HashAllocs) (temp m : ByteMem) (input : ℕ) {len : ℕ}
    (hint : len < 2 ^ 31) (variant : ℤ) (ctx : ByteMem) :
    cryptonightHashCtx perm extra al temp m input len variant ctx
      = if variant > 0 ∧ len < 43 then .error .tooShort
        else if al.Succeed then .ok (cryptonight perm extra variant.toNat (bytes m input len))
        else .error .nullKey := by
  unfold cryptonightHashCtx
  by_cases hlen : variant > 0 ∧ len < 43
  · rw [if_pos hlen]
    simp only [variant1Init, if_pos hlen]
  obtain ⟨tweak1_2, hinit, hloop⟩ := variant1Init_eq perm temp m input hint variant ctx hlen
  obtain ⟨ctx₁, ctx₂, himport₁, himport₂, hfold⟩ := cryptonightRun_eq
    (holdsState_hashProcess perm temp m input hint ctx) variant.toNat tweak1_2
  have hiter : 1048576 / 4 = 262144 := rfl
  simp only [if_neg hlen, hinit, hiter]
  have hok : ∀ (x : ByteMem) (f : ByteMem → Except HashExit (List (BitVec 8))),
      (Except.ok x >>= f) = f x := fun _ _ => rfl
  have herror : ∀ f : ByteMem → Except HashExit (List (BitVec 8)),
      (Except.error HashExit.nullKey >>= f) = Except.error HashExit.nullKey := fun _ => rfl
  by_cases hkey1 : al.ctx = true ∧ al.key1 = (true, true, true)
  · rw [hkey1.1, hkey1.2, himport₁, hok]
    by_cases hkey2 : al.key2 = (true, true, true)
    · rw [hkey2, himport₂, hok, if_pos (show al.Succeed from ⟨hkey1.1, hkey1.2, hkey2⟩),
        hashPermutation_eq perm extra hfold, hloop]
      rfl
    · rw [importKey_of_fail fun h => hkey2 h.2, herror, if_neg fun h : al.Succeed => hkey2 h.2.2]
  · rw [importKey_of_fail hkey1, herror, if_neg fun h : al.Succeed => hkey1 ⟨h.1, h.2.1⟩]

end Hash

end XmrMiner
