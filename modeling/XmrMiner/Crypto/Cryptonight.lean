import XmrMiner.Crypto.MemoryLoop

/-!
# The CPU main loop

`cryptonight.c` keeps the whole context in one structure and works on it through
byte pointers cast to words.  Here the context is one byte memory, with the
fields of `struct cryptonight_ctx` at their offsets, and the functions take the
pointers the C functions take.

## Main definitions

* `Ctx` — the offsets of the fields.
* `e2i`, `xorBlocksDst`, `mulSumXorDst`, `variant1_1` — the steps of the loop.
* `cryptonightIteration`, `cryptonightLoop` — the main loop of
  `cryptonight_hash_ctx`.

## Main results

* `loopStateOf_cryptonightLoop` — the CPU loop is `mainLoop` on the blocks of the
  scratchpad.
-/

namespace XmrMiner

open ByteMem

/-! ### The context -/

namespace Ctx

/-- `long_state`, of 2 MiB. -/
def longState : ℕ := 0

/-- `state`, of 200 bytes. -/
def state : ℕ := 2097152

/-- `text`, of 128 bytes. -/
def text : ℕ := 2097352

/-- `a`, of 16 bytes. -/
def a : ℕ := 2097480

/-- `b`, of 16 bytes. -/
def b : ℕ := 2097496

/-- `c`, of 16 bytes. -/
def c : ℕ := 2097512

end Ctx

/-! ### The steps -/

/-- `e2i`: the block number an address register holds. -/
def e2i (m : ByteMem) (a : ℕ) : ℕ := ((load64 m a / 16) &&& (2097152 / 16 - 1)).toNat

/-- `xor_blocks_dst`. -/
def xorBlocksDst (m : ByteMem) (a b dst : ℕ) : ByteMem :=
  let m := store64 m dst (load64 m a ^^^ load64 m b)
  store64 m (dst + 8) (load64 m (a + 8) ^^^ load64 m (b + 8))

/-- `mul_sum_xor_dst`. -/
def mulSumXorDst (m : ByteMem) (a c dst : ℕ) (variant : ℕ) (tweak1_2 : BitVec 64) : ByteMem :=
  let product := mul128 (load64 m a) (load64 m dst)
  let lo := product.1 + load64 m (c + 8)
  let hi := product.2 + load64 m c
  let m := store64 m c (load64 m dst ^^^ hi)
  let m := store64 m (c + 8) (load64 m (dst + 8) ^^^ lo)
  let m := store64 m dst hi
  store64 m (dst + 8) (if variant > 0 then lo ^^^ tweak1_2 else lo)

/-- The macro `VARIANT1_1`. -/
def variant1_1 (m : ByteMem) (p : ℕ) (variant : ℕ) : ByteMem :=
  if variant > 0 then
    let tmp := m (p + 11)
    let index : BitVec 8 := (((tmp >>> 3) &&& 6) ||| (tmp &&& 1)) <<< 1
    let byte : BitVec 8 :=
      (tmp.setWidth 32 ^^^ (((0x75310 : BitVec 32) >>> index.toNat) &&& 0x30)).setWidth 8
    Function.update m (p + 11) byte
  else m

/-- One iteration of the main loop of `cryptonight_hash_ctx`. -/
def cryptonightIteration (variant : ℕ) (tweak1_2 : BitVec 64) (m : ByteMem) : ByteMem :=
  let j := e2i m Ctx.a * 16
  let m := aesbSingleRound m (Ctx.longState + j) Ctx.c Ctx.a
  let m := xorBlocksDst m Ctx.c Ctx.b (Ctx.longState + j)
  let m := variant1_1 m (Ctx.longState + j) variant
  let m := mulSumXorDst m Ctx.c Ctx.a (Ctx.longState + e2i m Ctx.c * 16) variant tweak1_2
  let j := e2i m Ctx.a * 16
  let m := aesbSingleRound m (Ctx.longState + j) Ctx.b Ctx.a
  let m := xorBlocksDst m Ctx.b Ctx.c (Ctx.longState + j)
  let m := variant1_1 m (Ctx.longState + j) variant
  mulSumXorDst m Ctx.b Ctx.a (Ctx.longState + e2i m Ctx.b * 16) variant tweak1_2

/-- `n` iterations of the main loop of `cryptonight_hash_ctx`. -/
def cryptonightLoop (variant : ℕ) (tweak1_2 : BitVec 64) (n : ℕ) (m : ByteMem) : ByteMem :=
  (cryptonightIteration variant tweak1_2)^[n] m

/-! ### What each step computes -/

theorem e2i_eq (m : ByteMem) (a : ℕ) : e2i m a = blockIndex (loadBlock m a) := by
  have hmask : e2i m a = (load64 m a).toNat / 16 % 2 ^ 17 := by
    rw [e2i, toNat_and_mask (k := 17) _ _ (by decide), BitVec.toNat_udiv]
    rfl
  have happ : (load64 m a).toNat = (load32 m (a + 4)).toNat * 2 ^ 32 + (load32 m a).toNat := by
    rw [load64, BitVec.toNat_append, ← Nat.shiftLeft_add_eq_or_of_lt (load32 m a).isLt,
      Nat.shiftLeft_eq]
  have hblk : loadBlock m a 0 = load32 m a := rfl
  rw [hmask, happ]
  simp only [blockIndex, hblk]
  omega

theorem xorBlocksDst_of_disjoint (m : ByteMem) {a b dst q : ℕ} (h : q < dst ∨ dst + 16 ≤ q) :
    xorBlocksDst m a b dst q = m q := by
  unfold xorBlocksDst
  rw [store64_of_disjoint _ _ (by omega), store64_of_disjoint _ _ (by omega)]

theorem loadBlock_xorBlocksDst (m : ByteMem) {a b dst : ℕ} (ha : a + 16 ≤ dst ∨ dst + 16 ≤ a)
    (hb : b + 16 ≤ dst ∨ dst + 16 ≤ b) :
    loadBlock (xorBlocksDst m a b dst) dst = (loadBlock m a).xor (loadBlock m b) := by
  unfold xorBlocksDst
  rw [loadBlock_storeHalves, load64_store64_of_disjoint _ _ (by omega),
    load64_store64_of_disjoint _ _ (by omega), ofHalves_xor_load64]

/-- The byte the macro stores is the tweaked one: a table entry has no bits above
the byte. -/
theorem setWidth_xor_table (tmp : BitVec 8) (t : BitVec 32) :
    (tmp.setWidth 32 ^^^ t).setWidth 8 = tmp ^^^ t.setWidth 8 := by
  rw [BitVec.setWidth_xor, BitVec.setWidth_setWidth_of_le _ (by decide), BitVec.setWidth_eq]

theorem variant1_1_eq (m : ByteMem) (p : ℕ) {variant : ℕ} (hv : variant > 0) :
    variant1_1 m p variant = Function.update m (p + 11) (variant1Byte (m (p + 11))) := by
  rw [variant1_1, if_pos hv]
  dsimp only
  rw [setWidth_xor_table]
  rfl

theorem variant1_1_of_disjoint (m : ByteMem) {p q variant : ℕ} (h : q < p ∨ p + 16 ≤ q) :
    variant1_1 m p variant q = m q := by
  by_cases hv : variant > 0
  · rw [variant1_1_eq m p hv, Function.update_of_ne (by omega)]
  · rw [variant1_1, if_neg hv]

theorem loadBlock_variant1_1 (m : ByteMem) (p variant : ℕ) :
    loadBlock (variant1_1 m p variant) p = variant1Block variant (loadBlock m p) := by
  unfold variant1Block
  by_cases hv : variant > 0
  · rw [if_pos hv, variant1_1_eq m p hv]
    funext k
    rcases eq_or_ne k 2 with rfl | hk
    · -- byte 11 is the top byte of the third word
      have hword : loadBlock m p 2 = load32 m (p + 8) := rfl
      rw [Function.update_self, variant1Word, hword, load32_top]
      exact load32_update_top m (p + 8) _
    · rw [Function.update_of_ne hk]
      refine load32_congr fun i hi => Function.update_of_ne ?_ _ _
      have : (k : ℕ) ≠ 2 := fun h => hk (Fin.ext h)
      omega
  · rw [if_neg hv, variant1_1, if_neg hv]

theorem mulSumXorDst_of_disjoint (m : ByteMem) {a c dst q variant : ℕ} {tweak1_2 : BitVec 64}
    (hc : q < c ∨ c + 16 ≤ q) (hd : q < dst ∨ dst + 16 ≤ q) :
    mulSumXorDst m a c dst variant tweak1_2 q = m q := by
  unfold mulSumXorDst
  rw [store64_of_disjoint _ _ (by omega), store64_of_disjoint _ _ (by omega),
    store64_of_disjoint _ _ (by omega), store64_of_disjoint _ _ (by omega)]

/-- `mul_sum_xor_dst` leaves the sum, tweaked, in the scratchpad block. -/
theorem loadBlock_mulSumXorDst_dst (m : ByteMem) {a c dst variant : ℕ} {tweak1_2 : BitVec 64} :
    loadBlock (mulSumXorDst m a c dst variant tweak1_2) dst
      = tweakHigh variant tweak1_2 (mulSum (loadBlock m c) (loadBlock m a) (loadBlock m dst)) := by
  unfold mulSumXorDst tweakHigh mulSum
  rw [loadBlock_storeHalves, mul128_eq, Block.lo_ofHalves, Block.hi_ofHalves]
  rfl

/-- `mul_sum_xor_dst` leaves the old block mixed with the sum in the accumulator. -/
theorem loadBlock_mulSumXorDst_acc (m : ByteMem) {a c dst variant : ℕ} {tweak1_2 : BitVec 64}
    (hcd : c + 16 ≤ dst ∨ dst + 16 ≤ c) :
    loadBlock (mulSumXorDst m a c dst variant tweak1_2) c
      = (loadBlock m dst).xor (mulSum (loadBlock m c) (loadBlock m a) (loadBlock m dst)) := by
  unfold mulSumXorDst mulSum
  rw [loadBlock_congr fun i hi => by
      rw [store64_of_disjoint _ _ (by omega), store64_of_disjoint _ _ (by omega)],
    loadBlock_storeHalves, load64_store64_of_disjoint _ _ (by omega), mul128_eq,
    ← Block.ofHalves_xor]
  rfl

/-! ### Half an iteration -/

/-- The blocks of the scratchpad. -/
def scratchOf (m : ByteMem) : Scratch := fun k => loadBlock m (Ctx.longState + k * 16)

/-- The state of the loop whose last AES output is at `prev`. -/
def loopStateOf (m : ByteMem) (prev : ℕ) : LoopState :=
  ⟨scratchOf m, loadBlock m Ctx.a, loadBlock m prev⟩

/-- Half an iteration, with the AES output going to `out`. -/
def cryptonightHalf (variant : ℕ) (tweak1_2 : BitVec 64) (out prev : ℕ) (m : ByteMem) : ByteMem :=
  let j := e2i m Ctx.a * 16
  let m := aesbSingleRound m (Ctx.longState + j) out Ctx.a
  let m := xorBlocksDst m out prev (Ctx.longState + j)
  let m := variant1_1 m (Ctx.longState + j) variant
  mulSumXorDst m out Ctx.a (Ctx.longState + e2i m out * 16) variant tweak1_2

theorem cryptonightIteration_eq (variant : ℕ) (tweak1_2 : BitVec 64) (m : ByteMem) :
    cryptonightIteration variant tweak1_2 m
      = cryptonightHalf variant tweak1_2 Ctx.b Ctx.c
          (cryptonightHalf variant tweak1_2 Ctx.c Ctx.b m) := rfl

/-- A step that changes one scratchpad block only. -/
theorem scratchOf_update {m m' : ByteMem} (j : Fin 131072)
    (h : ∀ q : ℕ, q < 2097152 → (q < j * 16 ∨ j * 16 + 16 ≤ q) → m' q = m q) :
    scratchOf m' = Function.update (scratchOf m) j (loadBlock m' (Ctx.longState + j * 16)) := by
  funext k
  rcases eq_or_ne k j with rfl | hk
  · rw [Function.update_self]; rfl
  · rw [Function.update_of_ne hk]
    have hkj : (k : ℕ) ≠ j := fun h => hk (Fin.ext h)
    refine loadBlock_congr fun i hi => h _ ?_ ?_ <;> unfold Ctx.longState <;> omega

/-- The register pairs of the two halves: the AES output goes to one of `b` and `c`,
and the previous one is in the other. -/
def RegPair (out prev : ℕ) : Prop := out = Ctx.c ∧ prev = Ctx.b ∨ out = Ctx.b ∧ prev = Ctx.c

theorem RegPair.bounds {out prev : ℕ} (h : RegPair out prev) :
    (out + 16 ≤ prev ∨ prev + 16 ≤ out) ∧ Ctx.a + 16 ≤ out ∧ 2097152 ≤ prev := by
  rcases h with ⟨rfl, rfl⟩ | ⟨rfl, rfl⟩ <;> decide

/-- The first part of half an iteration, up to the tweak of the stored block. -/
def encryptBlock (variant out prev : ℕ) (m : ByteMem) : ByteMem :=
  let j := e2i m Ctx.a * 16
  let m := aesbSingleRound m (Ctx.longState + j) out Ctx.a
  let m := xorBlocksDst m out prev (Ctx.longState + j)
  variant1_1 m (Ctx.longState + j) variant

theorem cryptonightHalf_eq (variant : ℕ) (tweak1_2 : BitVec 64) (out prev : ℕ) (m : ByteMem) :
    cryptonightHalf variant tweak1_2 out prev m
      = mulSumXorDst (encryptBlock variant out prev m) out Ctx.a
          (Ctx.longState + e2i (encryptBlock variant out prev m) out * 16) variant tweak1_2 := rfl

/-- What the first part does: the AES output is in its register, mixed with the
previous one in the scratchpad, and the accumulator is untouched. -/
theorem encryptBlock_spec (variant : ℕ) (m : ByteMem) {out prev : ℕ} (hreg : RegPair out prev) :
    let i := blockIndex (loadBlock m Ctx.a)
    let c := aesRound tFn (scratchOf m i) (loadBlock m Ctx.a)
    let m' := encryptBlock variant out prev m
    scratchOf m' =
      Function.update (scratchOf m) i (variant1Block variant (c.xor (loadBlock m prev)))
      ∧ loadBlock m' out = c ∧ loadBlock m' Ctx.a = loadBlock m Ctx.a := by
  intro i c m'
  obtain ⟨hdis, hout, hprev⟩ := hreg.bounds
  have ha : Ctx.a = 2097480 := rfl
  have hl : Ctx.longState = 0 := rfl
  have hi : (i : ℕ) < 131072 := i.isLt
  have hj : e2i m Ctx.a = i := e2i_eq m Ctx.a
  -- the block `p` lies in the scratchpad, and the registers behind it
  set p := Ctx.longState + i * 16 with hp
  set m1 := aesbSingleRound m p out Ctx.a with hm1
  set m2 := xorBlocksDst m1 out prev p with hm2
  have hm' : m' = variant1_1 m2 p variant := by
    simp only [m', encryptBlock, hj]
    rfl
  -- the AES output goes to a register, the two other steps to the block
  have off1 : ∀ q, (q < out ∨ out + 16 ≤ q) → m1 q = m q := by
    intro q hq
    exact aesbSingleRound_of_disjoint m hq
  have off2 : ∀ q, (q < p ∨ p + 16 ≤ q) → m' q = m1 q := by
    intro q hq
    rw [hm', variant1_1_of_disjoint m2 hq, hm2, xorBlocksDst_of_disjoint m1 hq]
  have hc : loadBlock m1 out = c := by
    rw [hm1, loadBlock_aesbSingleRound m (by omega) (by omega)]
    rfl
  have hb : loadBlock m1 prev = loadBlock m prev :=
    loadBlock_congr fun k hk => off1 _ (by omega)
  refine ⟨?_, ?_, ?_⟩
  · have hblk : loadBlock m' p = variant1Block variant (c.xor (loadBlock m prev)) := by
      rw [hm', loadBlock_variant1_1, hm2, loadBlock_xorBlocksDst m1 (by omega) (by omega), hc, hb]
    rw [scratchOf_update i fun q hq h => ?_, ← hp, hblk]
    rw [off2 q (by omega), off1 q (by omega)]
  · rw [loadBlock_congr fun k hk => off2 (out + k) (by omega), hc]
  · rw [loadBlock_congr fun k hk => off2 (Ctx.a + k) (by omega),
      loadBlock_congr fun k hk => off1 (Ctx.a + k) (by omega)]

/-- **Half an iteration of the CPU loop is `halfRound`**, whichever of the two
registers takes the AES output. -/
theorem loopStateOf_cryptonightHalf (variant : ℕ) (tweak1_2 : BitVec 64) (m : ByteMem)
    {out prev : ℕ} (hreg : RegPair out prev) :
    loopStateOf (cryptonightHalf variant tweak1_2 out prev m) out
      = halfRound variant tweak1_2 (loopStateOf m prev) := by
  obtain ⟨hscratch, hc, ha⟩ := encryptBlock_spec variant m hreg
  obtain ⟨-, hout, -⟩ := hreg.bounds
  have hva : Ctx.a = 2097480 := rfl
  have hl : Ctx.longState = 0 := rfl
  rw [cryptonightHalf_eq]
  set m' := encryptBlock variant out prev m
  rw [e2i_eq, hc]
  set c := aesRound tFn (scratchOf m (blockIndex (loadBlock m Ctx.a))) (loadBlock m Ctx.a)
  have hj : (blockIndex c : ℕ) < 131072 := (blockIndex c).isLt
  set p := Ctx.longState + blockIndex c * 16 with hp
  -- the second block is read after the first one is stored, so that they may coincide
  have hd : loadBlock m' p = scratchOf m' (blockIndex c) := rfl
  refine LoopState.ext ?_ ?_ ?_
  · show scratchOf _ = _
    rw [scratchOf_update (blockIndex c) fun q hq h =>
        mulSumXorDst_of_disjoint m' (by omega) (by omega),
      ← hp, loadBlock_mulSumXorDst_dst, hc, ha, hd, hscratch]
    rfl
  · show loadBlock _ Ctx.a = _
    rw [loadBlock_mulSumXorDst_acc m' (by omega), hc, ha, hd, hscratch]
    rfl
  · show loadBlock _ out = _
    rw [loadBlock_congr fun k hk => mulSumXorDst_of_disjoint m' (by omega) (by omega), hc]
    rfl

/-- **The CPU loop is `mainLoop`.** -/
theorem loopStateOf_cryptonightLoop (variant : ℕ) (tweak1_2 : BitVec 64) :
    ∀ (n : ℕ) (m : ByteMem), loopStateOf (cryptonightLoop variant tweak1_2 n m) Ctx.b
      = mainLoop variant tweak1_2 n (loopStateOf m Ctx.b) := by
  intro n
  induction n with
  | zero => intro m; rfl
  | succ n ih =>
    intro m
    -- the registers change roles between the halves, and are back after both
    have hiter : loopStateOf (cryptonightIteration variant tweak1_2 m) Ctx.b
        = fullRound variant tweak1_2 (loopStateOf m Ctx.b) := by
      rw [cryptonightIteration_eq, loopStateOf_cryptonightHalf _ _ _ (Or.inr ⟨rfl, rfl⟩),
        loopStateOf_cryptonightHalf _ _ _ (Or.inl ⟨rfl, rfl⟩), fullRound]
    rw [cryptonightLoop, mainLoop, Function.iterate_succ_apply, Function.iterate_succ_apply,
      ← hiter]
    exact ih _

end XmrMiner
