import XmrMiner.Lib.Blocks

/-!
# Skein-512

`Skein_512_Process_Block` runs the 72 rounds of Threefish in place: it leaves the words where
they are and renames them instead, so that they are back in their order after every four
rounds.  `Skein_512_Update` keeps the last block in the buffer even if it is full, since the
last block is tagged when it is processed.

The functions of the device are the same ones, for 256 bits, with the rotation of its
architecture.

## Main definitions

* `skeinBlock` — the block function.
* `SkeinCtxt`, `skein512Init`, `skein512Update`, `skein512Final`, `skeinHash` — the functions.
* `threefish` — the cipher, with its words in their order.
* `skeinUbi`, `skeinMessage`, `skeinDigest` — the chaining over a message.

## Main results

* `skeinBlock_eq` — **the rounds in place are the cipher.**
* `SkeinCtxt.Absorbed.update` — **a call of `Skein_512_Update` appends its data.**
* `X_skein512Init` — **the tables hold the chaining variables behind the config block.**
* `skeinHash_eq` — **the functions compute the chaining**, for a message of any number of bits.
-/

namespace XmrMiner

open ByteMem Blocks

/-- `SKEIN_512_STATE_WORDS`. -/
abbrev skein512StateWords : ℕ := 8

/-- The words `X0` to `X7`, and the chaining variables. -/
abbrev SkeinWords := Vector (BitVec 64) skein512StateWords

/-! ### Tables -/

/-- `SKEIN_512_IV_224`. -/
def skein512IV224 : SkeinWords := #v[
  0xCCD0616248677224, 0xCBA65CF3A92339EF, 0x8CCD69D652FF4B64, 0x398AED7B3AB890B4,
  0x0F59D1B1457D2BD0, 0x6776FE6575D4EB3D, 0x99FBC70E997413E9, 0x9E2CFCCFE1C41EF7]

/-- `SKEIN_512_IV_256`. -/
def skein512IV256 : SkeinWords := #v[
  0xCCD044A12FDB3E13, 0xE83590301A79A9EB, 0x55AEA0614F816E6F, 0x2A2767A4AE9B94DB,
  0xEC06025E74DD7683, 0xE7A436CDC4746251, 0xC36FBAF9393AD185, 0x3EEDBA1833EDFC13]

/-- `SKEIN_512_IV_384`. -/
def skein512IV384 : SkeinWords := #v[
  0xA3F6C6BF3A75EF5F, 0xB0FEF9CCFD84FAA4, 0x9D77DD663D770CFE, 0xD798CBF3B468FDDA,
  0x1BC4A6668A0E4465, 0x7ED7D434E5807407, 0x548FC1ACD4EC44D6, 0x266E17546AA18FF8]

/-- `SKEIN_512_IV_512`. -/
def skein512IV512 : SkeinWords := #v[
  0x4903ADFF749C51CE, 0x0D95DE399746DF03, 0x8FD1934127C79BCE, 0x9A255629FF352CB1,
  0x5DB62599DF6CA7B0, 0xEABE394CA9D5C3F4, 0x991112C71A75B523, 0xAE18A40B660FCC33]

/-- The rotations `R_512_0_0` to `R_512_7_3`. -/
def skeinR512 : Fin 8 → Fin 4 → ℕ := ![
  ![46, 36, 19, 37], ![33, 27, 14, 42], ![17, 49, 36, 39], ![44, 9, 54, 56],
  ![39, 30, 34, 24], ![13, 50, 10, 17], ![25, 29, 39, 43], ![8, 35, 56, 22]]

/-- `SKEIN_T1_FLAG_FIRST`. -/
def skeinT1FlagFirst : BitVec 64 := 1 <<< (126 - 64)

/-- `SKEIN_T1_FLAG_FINAL`. -/
def skeinT1FlagFinal : BitVec 64 := 1 <<< (127 - 64)

/-- `SKEIN_T1_FLAG_BIT_PAD`. -/
def skeinT1FlagBitPad : BitVec 64 := 1 <<< (119 - 64)

/-- `SKEIN_T1_BLK_TYPE`. -/
def skeinT1BlkType (type : BitVec 64) : BitVec 64 := type <<< (120 - 64)

/-- `SKEIN_BLK_TYPE_CFG`. -/
def skeinBlkTypeCfg : BitVec 64 := 4

/-- `SKEIN_BLK_TYPE_MSG`. -/
def skeinBlkTypeMsg : BitVec 64 := 48

/-- `SKEIN_BLK_TYPE_OUT`. -/
def skeinBlkTypeOut : BitVec 64 := 63

/-- `SKEIN_KS_PARITY`. -/
def skeinKsParity : BitVec 64 := 0x1BD11BDAA9FC1A22

/-! ### The block function -/

/-- `Skein_512_Ctxt_t`. -/
structure SkeinCtxt where
  /-- The size of the digest, in bits. -/
  hashBitLen : ℕ
  /-- The number of bytes in the buffer. -/
  bCnt : ℕ
  /-- The tweak word `T[0]`: the number of bytes. -/
  T0 : BitVec 64
  /-- The tweak word `T[1]`: the flags. -/
  T1 : BitVec 64
  /-- The chaining variables. -/
  X : SkeinWords
  /-- The buffer. -/
  b : ByteMem

/-- The words `ks`. -/
abbrev SkeinKeySchedule := Vector (BitVec 64) (skein512StateWords + 1)

/-- `ks`, the key with its parity word. -/
def skeinKs (X : SkeinWords) : SkeinKeySchedule :=
  X.push (X[0] ^^^ X[1] ^^^ X[2] ^^^ X[3] ^^^ X[4] ^^^ X[5] ^^^ X[6] ^^^ X[7] ^^^ skeinKsParity)

/-- `ts`, the tweak with its third word. -/
def skeinTs (T0 T1 : BitVec 64) : Vector (BitVec 64) 3 := #v[T0, T1, T0 ^^^ T1]

/-- `I512`. -/
def skeinI512 (ks : SkeinKeySchedule) (ts : Vector (BitVec 64) 3) (X : SkeinWords) (R : ℕ) :
    SkeinWords :=
  let k i := ks.getD ((R + i) % 9) 0
  let t i := ts.getD ((R + i) % 3) 0
  #v[X[0] + k 1, X[1] + k 2, X[2] + k 3, X[3] + k 4, X[4] + k 5, X[5] + (k 6 + t 1),
    X[6] + (k 7 + t 2), X[7] + (k 8 + BitVec.ofNat 64 R + 1)]

section Functions

-- the rotation of a word to the left: `RotL_64`, or `ROTL64`
variable (rot : BitVec 64 → ℕ → BitVec 64)

/-- A line of `Round512`. -/
def skeinMix (X : SkeinWords) (p q : Fin 8) (n : ℕ) : SkeinWords :=
  let X := X.set p (X[p] + X[q])
  let X := X.set q (rot X[q] n)
  X.set q (X[q] ^^^ X[p])

/-- `R512`, and `Round512`. -/
def skeinR512Round (X : SkeinWords) (p0 p1 p2 p3 p4 p5 p6 p7 : Fin 8) (R : Fin 4 → ℕ) :
    SkeinWords :=
  let X := skeinMix rot X p0 p1 (R 0)
  let X := skeinMix rot X p2 p3 (R 1)
  let X := skeinMix rot X p4 p5 (R 2)
  skeinMix rot X p6 p7 (R 3)

/-- `R512_8_rounds`. -/
def skeinR512Rounds8 (ks : SkeinKeySchedule) (ts : Vector (BitVec 64) 3) (X : SkeinWords)
    (R : ℕ) : SkeinWords :=
  let X := skeinR512Round rot X 0 1 2 3 4 5 6 7 (skeinR512 0)
  let X := skeinR512Round rot X 2 1 4 7 6 5 0 3 (skeinR512 1)
  let X := skeinR512Round rot X 4 1 6 3 0 5 2 7 (skeinR512 2)
  let X := skeinR512Round rot X 6 1 0 7 2 5 4 3 (skeinR512 3)
  let X := skeinI512 ks ts X (2 * R)
  let X := skeinR512Round rot X 0 1 2 3 4 5 6 7 (skeinR512 4)
  let X := skeinR512Round rot X 2 1 4 7 6 5 0 3 (skeinR512 5)
  let X := skeinR512Round rot X 4 1 6 3 0 5 2 7 (skeinR512 6)
  let X := skeinR512Round rot X 6 1 0 7 2 5 4 3 (skeinR512 7)
  skeinI512 ks ts X (2 * R + 1)

/-- The chaining variables behind a block of words `w`. -/
def skeinBlock (X : SkeinWords) (T0 T1 : BitVec 64) (w : SkeinWords) : SkeinWords :=
  let ks := skeinKs X
  let ts := skeinTs T0 T1
  let X : SkeinWords := #v[w[0] + ks[0], w[1] + ks[1], w[2] + ks[2], w[3] + ks[3], w[4] + ks[4],
    w[5] + ks[5] + ts[0], w[6] + ks[6] + ts[1], w[7] + ks[7]]
  let X := [0, 1, 2, 3, 4, 5, 6, 7, 8].foldl (skeinR512Rounds8 rot ks ts) X
  Vector.zipWith (· ^^^ ·) X w

/-- The input block, `Skein_Get64_LSB_First`. -/
def skeinWords (blk : ByteMem) (p : ℕ) : SkeinWords :=
  Vector.ofFn fun i : Fin 8 => load64 blk (p + 8 * i)

/-- The body of the loop of `Skein_512_Process_Block`. -/
def skeinTakeBlock (blk : ByteMem) (byteCntAdd : ℕ) (ctx : SkeinCtxt) (p : ℕ) : SkeinCtxt :=
  { ctx with
    T0 := ctx.T0 + BitVec.ofNat 64 byteCntAdd
    X := skeinBlock rot ctx.X (ctx.T0 + BitVec.ofNat 64 byteCntAdd) ctx.T1 (skeinWords blk p)
    T1 := ctx.T1 &&& ~~~skeinT1FlagFirst }

/-- `Skein_512_Process_Block`, and `cn_skein512_processblock`; the callers have a block. -/
def skeinProcessBlock (ctx : SkeinCtxt) (blk : ByteMem) (p : ℕ) : ℕ → ℕ → SkeinCtxt
  | 0, _ => ctx
  | blkCnt + 1, byteCntAdd =>
    skeinProcessBlock (skeinTakeBlock rot blk byteCntAdd ctx p) blk (p + 64) blkCnt byteCntAdd

/-! ### The functions -/

/-- `Skein_Start_New_Type`. -/
def skeinStartNewType (ctx : SkeinCtxt) (blkType : BitVec 64) : SkeinCtxt :=
  { ctx with T0 := 0, T1 := skeinT1FlagFirst ||| blkType, bCnt := 0 }

/-- The config block: the schema and its version, the size of the digest, and no tree. -/
def skeinCfg (hashBitLen : ℕ) : SkeinWords :=
  #v[0x33414853 + 1 <<< 32, BitVec.ofNat 64 hashBitLen, 0, 0, 0, 0, 0, 0]

/-- `Skein_512_Init`. -/
def skein512Init (ctx : SkeinCtxt) (hashBitLen : ℕ) : SkeinCtxt :=
  let ctx := { ctx with hashBitLen := hashBitLen }
  let ctx :=
    match hashBitLen with
    | 512 => { ctx with X := skein512IV512 }
    | 384 => { ctx with X := skein512IV384 }
    | 256 => { ctx with X := skein512IV256 }
    | 224 => { ctx with X := skein512IV224 }
    | _ =>
      let ctx := skeinStartNewType ctx (skeinT1BlkType skeinBlkTypeCfg ||| skeinT1FlagFinal)
      let cfg : ByteMem := fun q =>
        ((skeinCfg hashBitLen).getD (q / 8) 0 >>> (8 * (q % 8))).setWidth 8
      skeinProcessBlock rot { ctx with X := Vector.replicate 8 0 } cfg 0 1 (4 * 8)
  skeinStartNewType ctx (skeinT1BlkType skeinBlkTypeMsg)

/-- The end of `Skein_512_Update`: the remaining bytes go to the buffer. -/
def skeinKeep (msg : ByteMem) (ctx : SkeinCtxt) (p msgByteCnt : ℕ) : SkeinCtxt :=
  if msgByteCnt ≠ 0 then
    { ctx with
      b := storeBytes ctx.b ctx.bCnt (bytes msg p msgByteCnt)
      bCnt := ctx.bCnt + msgByteCnt }
  else ctx

/-- The full blocks in `Skein_512_Update`, but for the last one. -/
def skeinFull (msg : ByteMem) (ctx : SkeinCtxt) (p msgByteCnt : ℕ) : SkeinCtxt :=
  if msgByteCnt > 64 then
    let n := (msgByteCnt - 1) / 64
    skeinKeep msg (skeinProcessBlock rot ctx msg p n 64) (p + n * 64) (msgByteCnt - n * 64)
  else skeinKeep msg ctx p msgByteCnt

/-- `Skein_512_Update`, and `cn_skein512_update`. -/
def skein512Update (ctx : SkeinCtxt) (msg : ByteMem) (p msgByteCnt : ℕ) : SkeinCtxt :=
  if msgByteCnt + ctx.bCnt > 64 then
    if ctx.bCnt ≠ 0 then
      let n := 64 - ctx.bCnt
      -- `memcpy` of no bytes is no copy
      let ctx := { ctx with b := storeBytes ctx.b ctx.bCnt (bytes msg p n), bCnt := ctx.bCnt + n }
      let ctx := { skeinProcessBlock rot ctx ctx.b 0 1 64 with bCnt := 0 }
      skeinFull rot msg ctx (p + n) (msgByteCnt - n)
    else skeinFull rot msg ctx p msgByteCnt
  else skeinKeep msg ctx p msgByteCnt

/-- `Update`, and `cn_skein_update`: `databitlen` is a number of bits. -/
def skeinUpdate (ctx : SkeinCtxt) (data : ByteMem) (p databitlen : ℕ) : SkeinCtxt :=
  if databitlen &&& 7 = 0 then skein512Update rot ctx data p (databitlen >>> 3)
  else
    let bCnt := (databitlen >>> 3) + 1
    let mask := (1 : BitVec 8) <<< (7 - (databitlen &&& 7))
    let b := (data (p + (bCnt - 1)) &&& (0 - mask)) ||| mask
    let ctx := skein512Update rot ctx data p (bCnt - 1)
    let ctx := skein512Update rot ctx (memOf [b]) 0 1
    { ctx with T1 := ctx.T1 ||| skeinT1FlagBitPad }

/-- A turn of the loop over the output in `Skein_512_Final`: the counter is processed, and the
chaining variables are restored behind it. -/
def skeinOutput (ctx : SkeinCtxt) (byteCnt i : ℕ) : List (BitVec 8) :=
  let b : ByteMem := storeBytes (fun _ => 0) 0 ((bigEndian64 (BitVec.ofNat 64 i)).reverse)
  let ctx := skeinStartNewType ctx (skeinT1BlkType skeinBlkTypeOut ||| skeinT1FlagFinal)
  let ctx := skeinProcessBlock rot ctx b 0 1 8
  let n := min (byteCnt - i * 64) 64
  (List.range n).map fun j => (ctx.X.getD (j / 8) 0 >>> (8 * (j % 8))).setWidth 8

/-- The start of `Skein_512_Final`: the last block is filled up with zeros and processed. -/
def skeinLast (ctx : SkeinCtxt) : SkeinCtxt :=
  let ctx := { ctx with T1 := ctx.T1 ||| skeinT1FlagFinal }
  let ctx :=
    if ctx.bCnt < 64 then
      { ctx with b := storeBytes ctx.b ctx.bCnt (List.replicate (64 - ctx.bCnt) 0) }
    else ctx
  skeinProcessBlock rot ctx ctx.b 0 1 ctx.bCnt

/-- `Skein_512_Final`, and `cn_skein_final`. -/
def skein512Final (ctx : SkeinCtxt) : List (BitVec 8) :=
  let ctx := skeinLast rot ctx
  let byteCnt := (ctx.hashBitLen + 7) >>> 3
  (List.range ((byteCnt + 63) / 64)).flatMap (skeinOutput rot ctx byteCnt)

/-- `skein_hash`, of at most 512 bits; the state is on the stack and holds `garbage`. -/
def skeinHash (garbage : SkeinCtxt) (hashbitlen : ℕ) (data : ByteMem) (p databitlen : ℕ) :
    List (BitVec 8) :=
  skein512Final rot (skeinUpdate rot (skein512Init rot garbage hashbitlen) data p databitlen)

end Functions

/-- `RotL_64`. -/
def rotL64 (x : BitVec 64) (n : ℕ) : BitVec 64 := (x <<< n) ||| (x >>> (64 - n))

/-! ### Threefish -/

/-- The permutation of the words. -/
def threefishPi : Fin 8 → Fin 8 := ![2, 1, 4, 7, 6, 5, 0, 3]

/-- The words under other names. -/
def threefishRename (p : Fin 8 → Fin 8) (X : SkeinWords) : SkeinWords :=
  Vector.ofFn fun i : Fin 8 => X[p i]

/-- The addition of subkey `s`. -/
def threefishKey (ks : SkeinKeySchedule) (ts : Vector (BitVec 64) 3) (s : ℕ) (X : SkeinWords) :
    SkeinWords :=
  let k i := ks.getD ((s + i) % 9) 0
  #v[X[0] + k 0, X[1] + k 1, X[2] + k 2, X[3] + k 3, X[4] + k 4,
    X[5] + (k 5 + ts.getD (s % 3) 0), X[6] + (k 6 + ts.getD ((s + 1) % 3) 0),
    X[7] + (k 7 + BitVec.ofNat 64 s)]

section Threefish

variable (rot : BitVec 64 → ℕ → BitVec 64)

/-- The mixing of the pairs of words. -/
def threefishMix (R : Fin 4 → ℕ) (X : SkeinWords) : SkeinWords := #v[
  X[0] + X[1], rot X[1] (R 0) ^^^ (X[0] + X[1]), X[2] + X[3], rot X[3] (R 1) ^^^ (X[2] + X[3]),
  X[4] + X[5], rot X[5] (R 2) ^^^ (X[4] + X[5]), X[6] + X[7], rot X[7] (R 3) ^^^ (X[6] + X[7])]

/-- Round `d`, behind the subkey of every fourth one. -/
def threefishRound (ks : SkeinKeySchedule) (ts : Vector (BitVec 64) 3) (X : SkeinWords)
    (d : ℕ) : SkeinWords :=
  let X := if d % 4 = 0 then threefishKey ks ts (d / 4) X else X
  threefishRename threefishPi (threefishMix rot (skeinR512 (Fin.ofNat 8 d)) X)

/-- The cipher: 72 rounds, and the last subkey. -/
def threefish (ks : SkeinKeySchedule) (ts : Vector (BitVec 64) 3) (X : SkeinWords) :
    SkeinWords :=
  threefishKey ks ts 18 ((List.range 72).foldl (threefishRound rot ks ts) X)

variable {rot}

theorem getElem_skeinMix (X : SkeinWords) {p q : Fin 8} (h : p ≠ q) (n : ℕ) (r : Fin 8) :
    (skeinMix rot X p q n)[r] = if r = q then rot X[q] n ^^^ (X[p] + X[q])
      else if r = p then X[p] + X[q] else X[r] := by
  simp only [skeinMix, Fin.getElem_fin, Vector.getElem_set, Fin.val_inj, h, h.symm, if_true,
    if_false]
  by_cases hq : r = q
  · simp [hq]
  · by_cases hp : r = p
    · simp [hp, h, h.symm]
    · simp [hq, hp, Ne.symm hq, Ne.symm hp]

theorem getElem_threefishRename (p : Fin 8 → Fin 8) (X : SkeinWords) (i : Fin 8) :
    (threefishRename p X)[i] = X[p i] := by
  rw [threefishRename, Fin.getElem_fin, Vector.getElem_ofFn]

theorem skeinWords_ext {X Y : SkeinWords} (h : ∀ i : Fin 8, X[i] = Y[i]) : X = Y :=
  Vector.ext fun i hi => h ⟨i, hi⟩

/-- A round in place is a round under other names. -/
theorem rename_r512Round {p : Fin 8 → Fin 8} (hp : Function.Injective p) (R : Fin 4 → ℕ)
    (X : SkeinWords) :
    threefishRename p (skeinR512Round rot X (p 0) (p 1) (p 2) (p 3) (p 4) (p 5) (p 6) (p 7) R)
      = threefishMix rot R (threefishRename p X) := by
  have hne {i j : Fin 8} (h : i ≠ j) : p i ≠ p j := hp.ne h
  refine skeinWords_ext fun i => ?_
  rw [getElem_threefishRename, skeinR512Round]
  simp only [getElem_skeinMix _ (hne (show (6 : Fin 8) ≠ 7 by decide)),
    getElem_skeinMix _ (hne (show (4 : Fin 8) ≠ 5 by decide)),
    getElem_skeinMix _ (hne (show (2 : Fin 8) ≠ 3 by decide)),
    getElem_skeinMix _ (hne (show (0 : Fin 8) ≠ 1 by decide)), hp.eq_iff]
  fin_cases i <;> simp [threefishMix, threefishRename] <;> rfl

theorem rename_rename (p q : Fin 8 → Fin 8) (X : SkeinWords) :
    threefishRename q (threefishRename p X) = threefishRename (p ∘ q) X := by
  refine skeinWords_ext fun i => ?_
  rw [getElem_threefishRename, getElem_threefishRename, getElem_threefishRename]
  rfl

theorem rename_id (X : SkeinWords) : threefishRename id X = X :=
  skeinWords_ext fun i => getElem_threefishRename id X i

theorem i512_eq_key (ks : SkeinKeySchedule) (ts : Vector (BitVec 64) 3) (X : SkeinWords)
    (R : ℕ) : skeinI512 ks ts X R = threefishKey ks ts (R + 1) X := by
  have h1 (i : ℕ) : R + 1 + i = R + (i + 1) := by omega
  rw [skeinI512, threefishKey]
  simp only [h1, BitVec.ofNat_add, BitVec.add_assoc]
  rfl

/-- **Four rounds in place** bring the words back into their order. -/
theorem fourRounds_eq (R₀ R₁ R₂ R₃ : Fin 4 → ℕ) (X : SkeinWords) :
    skeinR512Round rot (skeinR512Round rot (skeinR512Round rot (skeinR512Round rot X
        0 1 2 3 4 5 6 7 R₀) 2 1 4 7 6 5 0 3 R₁) 4 1 6 3 0 5 2 7 R₂) 6 1 0 7 2 5 4 3 R₃
      = threefishRename threefishPi (threefishMix rot R₃ (threefishRename threefishPi
          (threefishMix rot R₂ (threefishRename threefishPi (threefishMix rot R₁
            (threefishRename threefishPi (threefishMix rot R₀ X))))))) := by
  have hpi : Function.Injective threefishPi := by
    unfold Function.Injective
    decide
  have h4 : (threefishPi ∘ threefishPi ∘ threefishPi) ∘ threefishPi = id := by decide
  set X₁ := skeinR512Round rot X 0 1 2 3 4 5 6 7 R₀
  set X₂ := skeinR512Round rot X₁ 2 1 4 7 6 5 0 3 R₁
  set X₃ := skeinR512Round rot X₂ 4 1 6 3 0 5 2 7 R₂
  set X₄ := skeinR512Round rot X₃ 6 1 0 7 2 5 4 3 R₃
  have h₁ : X₁ = threefishMix rot R₀ X := by
    have h : threefishRename id X₁ = threefishMix rot R₀ (threefishRename id X) :=
      rename_r512Round Function.injective_id R₀ X
    rwa [rename_id, rename_id] at h
  have h₂ : threefishRename threefishPi X₂
      = threefishMix rot R₁ (threefishRename threefishPi X₁) := rename_r512Round hpi R₁ X₁
  have h₃ : threefishRename (threefishPi ∘ threefishPi) X₃
      = threefishMix rot R₂ (threefishRename (threefishPi ∘ threefishPi) X₂) :=
    rename_r512Round (hpi.comp hpi) R₂ X₂
  have h₄ : threefishRename (threefishPi ∘ threefishPi ∘ threefishPi) X₄
      = threefishMix rot R₃ (threefishRename (threefishPi ∘ threefishPi ∘ threefishPi) X₃) :=
    rename_r512Round (hpi.comp (hpi.comp hpi)) R₃ X₃
  have hX₃ : threefishRename (threefishPi ∘ threefishPi ∘ threefishPi) X₃
      = threefishRename threefishPi (threefishRename (threefishPi ∘ threefishPi) X₃) := by
    rw [rename_rename]
    rfl
  have hX₄ : threefishRename threefishPi
      (threefishRename (threefishPi ∘ threefishPi ∘ threefishPi) X₄) = X₄ := by
    rw [rename_rename, h4, rename_id]
  rw [← h₁, ← h₂, rename_rename, ← h₃, ← hX₃, ← h₄, hX₄]

/-- Eight rounds in place, with the subkeys behind them. -/
theorem rounds8_eq (ks : SkeinKeySchedule) (ts : Vector (BitVec 64) 3) (X : SkeinWords)
    (R : ℕ) :
    skeinR512Rounds8 rot ks ts (threefishKey ks ts (2 * R) X) R
      = threefishKey ks ts (2 * (R + 1))
          ((List.range' (8 * R) 8).foldl (threefishRound rot ks ts) X) := by
  have hround (X : SkeinWords) {d : ℕ} (hd : d < 8) : threefishRound rot ks ts X (8 * R + d)
      = threefishRename threefishPi (threefishMix rot (skeinR512 ⟨d, hd⟩)
          (if d % 4 = 0 then threefishKey ks ts (2 * R + d / 4) X else X)) := by
    have hmod : (8 * R + d) % 4 = d % 4 := by omega
    have hdiv : (8 * R + d) / 4 = 2 * R + d / 4 := by omega
    have hrot : Fin.ofNat 8 (8 * R + d) = ⟨d, hd⟩ := by
      rw [Fin.ofNat, Fin.mk.injEq]
      omega
    rw [threefishRound, hmod, hdiv, hrot]
  have hrange : List.range' (8 * R) 8 = [8 * R + 0, 8 * R + 1, 8 * R + 2, 8 * R + 3, 8 * R + 4,
      8 * R + 5, 8 * R + 6, 8 * R + 7] := rfl
  rw [skeinR512Rounds8, fourRounds_eq, i512_eq_key, fourRounds_eq, i512_eq_key, hrange]
  simp only [List.foldl_cons, List.foldl_nil]
  rw [hround _ (show 0 < 8 by decide), hround _ (show 1 < 8 by decide),
    hround _ (show 2 < 8 by decide), hround _ (show 3 < 8 by decide),
    hround _ (show 4 < 8 by decide), hround _ (show 5 < 8 by decide),
    hround _ (show 6 < 8 by decide), hround _ (show 7 < 8 by decide)]
  rfl

theorem rounds8_foldl (ks : SkeinKeySchedule) (ts : Vector (BitVec 64) 3) (X : SkeinWords)
    (n : ℕ) :
    (List.range n).foldl (skeinR512Rounds8 rot ks ts) (threefishKey ks ts 0 X)
      = threefishKey ks ts (2 * n) ((List.range (8 * n)).foldl (threefishRound rot ks ts) X) := by
  induction n with
  | zero => rfl
  | succ n ih =>
    have hrange : List.range (8 * (n + 1)) = List.range (8 * n) ++ List.range' (8 * n) 8 := by
      rw [Nat.mul_succ, List.range_eq_range', List.range_eq_range', ← List.range'_append_1]
      simp
    rw [List.range_succ, List.foldl_concat, ih, rounds8_eq, hrange, List.foldl_append]

/-- **The block function** is the cipher. -/
theorem skeinBlock_eq (X : SkeinWords) (T0 T1 : BitVec 64) (w : SkeinWords) :
    skeinBlock rot X T0 T1 w
      = Vector.zipWith (· ^^^ ·) (threefish rot (skeinKs X) (skeinTs T0 T1) w) w := by
  have hstart (ks : SkeinKeySchedule) (ts : Vector (BitVec 64) 3) : (#v[w[0] + ks[0],
      w[1] + ks[1], w[2] + ks[2], w[3] + ks[3], w[4] + ks[4], w[5] + ks[5] + ts[0],
      w[6] + ks[6] + ts[1], w[7] + ks[7]] : SkeinWords) = threefishKey ks ts 0 w := by
    simp [threefishKey, Vector.getD, Array.getD, BitVec.add_assoc]
  rw [skeinBlock, hstart, threefish]
  exact congrArg (Vector.zipWith _ · w) (rounds8_foldl (skeinKs X) (skeinTs T0 T1) w 9)

end Threefish

/-! ### Chaining -/

/-- The second tweak word: the type of a block, and its flags. -/
def skeinFlags (type : BitVec 64) (first final pad : Bool) : BitVec 64 :=
  (((if first then skeinT1FlagFirst else 0) ||| skeinT1BlkType type) |||
    (if pad then skeinT1FlagBitPad else 0)) ||| (if final then skeinT1FlagFinal else 0)

/-- Unique block iteration: the chaining variables behind the block `b`, which ends at position
`T0`. -/
def skeinUbi (rot : BitVec 64 → ℕ → BitVec 64) (X : SkeinWords) (T0 : ℕ) (T1 : BitVec 64)
    (b : List (BitVec 8)) : SkeinWords :=
  let w := skeinWords (memOf b) 0
  Vector.zipWith (· ^^^ ·) (threefish rot (skeinKs X) (skeinTs (BitVec.ofNat 64 T0) T1) w) w

section Stream

variable (rot : BitVec 64 → ℕ → BitVec 64)

/-- The chaining variables after `msg`, which is a number of full blocks and not the whole
message. -/
def skeinChain (iv : SkeinWords) (msg : List (BitVec 8)) : SkeinWords :=
  foldNumbered (fun X i b => skeinUbi rot X (64 * (i + 1))
    (skeinFlags skeinBlkTypeMsg (i == 0) false false) b) iv (blocks 64 msg)

/-- What the state holds: full blocks of a message, which have been processed, and the bytes
in the buffer. -/
structure SkeinCtxt.Holds (ctx : SkeinCtxt) (H : ℕ) (iv : SkeinWords)
    (front back : List (BitVec 8)) : Prop where
  /-- The size of the digest. -/
  hashBitLen : ctx.hashBitLen = H
  /-- The chaining variables. -/
  X : ctx.X = skeinChain rot iv front
  /-- The bytes of the blocks are counted. -/
  T0 : ctx.T0 = BitVec.ofNat 64 front.length
  /-- The first block is tagged. -/
  T1 : ctx.T1 = skeinFlags skeinBlkTypeMsg (front.length == 0) false false
  /-- The bytes in the buffer are counted. -/
  bCnt : ctx.bCnt = back.length
  /-- The buffer. -/
  b : bytes ctx.b 0 back.length = back

variable {rot} {ctx : SkeinCtxt} {H : ℕ} {iv : SkeinWords} {front back : List (BitVec 8)}

theorem skeinWords_bytes (blk : ByteMem) (p : ℕ) :
    skeinWords blk p = skeinWords (memOf (bytes blk p 64)) 0 := by
  refine skeinWords_ext fun i => ?_
  rw [skeinWords, skeinWords, Fin.getElem_fin, Fin.getElem_fin, Vector.getElem_ofFn,
    Vector.getElem_ofFn]
  refine (load64_eq_of_bytes fun j hj => ?_).symm
  rw [memOf_bytes blk p (by dsimp only; omega)]
  congr 1
  dsimp only
  omega

theorem skeinBlock_eq_ubi (X : SkeinWords) (T0 : ℕ) (T1 : BitVec 64) (blk : ByteMem) (p : ℕ) :
    skeinBlock rot X (BitVec.ofNat 64 T0) T1 (skeinWords blk p)
      = skeinUbi rot X T0 T1 (bytes blk p 64) := by
  rw [skeinBlock_eq, skeinWords_bytes]
  rfl

theorem skeinChain_concat (hfront : 64 ∣ front.length) {b : List (BitVec 8)} (hb : b.length = 64) :
    skeinChain rot iv (front ++ b)
      = skeinUbi rot (skeinChain rot iv front) (front.length + 64)
          (skeinFlags skeinBlkTypeMsg (front.length == 0) false false) b := by
  have hlen : 64 * (front.length / 64 + 1) = front.length + 64 := by omega
  have hfirst : (front.length / 64 == 0) = (front.length == 0) := by
    rw [Bool.eq_iff_iff, beq_iff_eq, beq_iff_eq]
    omega
  rw [skeinChain, blocks_append (by decide) hfront, blocks_self (by decide) hb, foldNumbered_concat,
    length_blocks, hlen, hfirst]
  rfl

theorem skeinFlags_clear : ∀ first, skeinFlags skeinBlkTypeMsg first false false &&&
    ~~~skeinT1FlagFirst = skeinFlags skeinBlkTypeMsg false false false := by
  decide

/-- **A block** is processed from wherever it is. -/
theorem SkeinCtxt.Holds.takeBlock (hfront : 64 ∣ front.length) (h : ctx.Holds rot H iv front back)
    (blk : ByteMem) (p : ℕ) :
    (skeinTakeBlock rot blk 64 ctx p).Holds rot H iv (front ++ bytes blk p 64) back := by
  have hlen : (front ++ bytes blk p 64).length = front.length + 64 := by
    rw [List.length_append, length_bytes]
  have hT0 : ctx.T0 + BitVec.ofNat 64 64 = BitVec.ofNat 64 (front.length + 64) := by
    rw [h.T0, BitVec.ofNat_add]
  refine ⟨h.hashBitLen, ?_, ?_, ?_, h.bCnt, h.b⟩
  · rw [skeinTakeBlock, hT0, h.T1, h.X, skeinBlock_eq_ubi, skeinChain_concat hfront
      (length_bytes blk p 64)]
  · rw [hlen, skeinTakeBlock, hT0]
  · have hfirst : (front.length + 64 == 0) = false := rfl
    rw [hlen, skeinTakeBlock, h.T1, hfirst]
    exact skeinFlags_clear _

theorem skeinProcessBlock_eq (ctx : SkeinCtxt) (blk : ByteMem) (p k n : ℕ) :
    skeinProcessBlock rot ctx blk p k n = takeBlocks 64 (skeinTakeBlock rot blk n) k ctx p := by
  induction k generalizing ctx p with
  | zero => rfl
  | succ k ih => rw [skeinProcessBlock, ih, takeBlocks]

theorem SkeinCtxt.Holds.processBlock (hfront : 64 ∣ front.length)
    (h : ctx.Holds rot H iv front back) (blk : ByteMem) (p k : ℕ) :
    (skeinProcessBlock rot ctx blk p k 64).Holds rot H iv (front ++ bytes blk p (64 * k)) back := by
  rw [skeinProcessBlock_eq]
  exact takeBlocks_inv (fun (ctx : SkeinCtxt) front => ctx.Holds rot H iv front back)
    (fun ctx p front hfront h => h.takeBlock hfront blk p) k p hfront h

theorem SkeinCtxt.Holds.store (h : ctx.Holds rot H iv front back) (msg : ByteMem) (p n : ℕ) :
    ({ ctx with
      b := storeBytes ctx.b ctx.bCnt (bytes msg p n)
      bCnt := ctx.bCnt + n } : SkeinCtxt).Holds rot H iv front (back ++ bytes msg p n) := by
  have hlen : (back ++ bytes msg p n).length = back.length + n := by
    rw [List.length_append, length_bytes]
  have hbuf := bytes_storeBytes_append ctx.b back.length (bytes msg p n)
  rw [length_bytes, h.b] at hbuf
  refine ⟨h.hashBitLen, h.X, h.T0, h.T1, ?_, ?_⟩
  · rw [hlen, ← h.bCnt]
  · rw [hlen, h.bCnt]
    exact hbuf

theorem SkeinCtxt.Holds.keep (h : ctx.Holds rot H iv front back) (msg : ByteMem) (p n : ℕ) :
    (skeinKeep msg ctx p n).Holds rot H iv front (back ++ bytes msg p n) := by
  rw [skeinKeep]
  split
  · exact h.store msg p n
  · next hn =>
    obtain rfl : n = 0 := not_not.mp hn
    have hnil : bytes msg p 0 = [] := rfl
    rw [hnil, List.append_nil]
    exact h

/-- The buffer is processed, and is empty then. -/
theorem SkeinCtxt.Holds.clear (hfront : 64 ∣ front.length) (h : ctx.Holds rot H iv front back)
    (hback : back.length = 64) :
    ({ skeinProcessBlock rot ctx ctx.b 0 1 64 with bCnt := 0 } : SkeinCtxt).Holds rot H iv
      (front ++ back) [] := by
  have hblock := h.takeBlock hfront ctx.b 0
  have hb := h.b
  rw [hback] at hb
  rw [hb] at hblock
  exact ⟨hblock.hashBitLen, hblock.X, hblock.T0, hblock.T1, rfl, rfl⟩

/-! ### A call of `Skein_512_Update` -/

variable (rot) in
/-- The state when a message has been put in: its last block is in the buffer. -/
def SkeinCtxt.Absorbed (ctx : SkeinCtxt) (H : ℕ) (iv : SkeinWords) (msg : List (BitVec 8)) : Prop :=
  ∃ front back, front ++ back = msg ∧ 64 ∣ front.length ∧ back.length ≤ 64 ∧
    (back = [] → front = []) ∧ ctx.Holds rot H iv front back

theorem SkeinCtxt.Holds.full (hfront : 64 ∣ front.length) (h : ctx.Holds rot H iv front [])
    (msg : ByteMem) (p : ℕ) {n : ℕ} (hn : 0 < n) :
    (skeinFull rot msg ctx p n).Absorbed rot H iv (front ++ bytes msg p n) := by
  have hne {q k : ℕ} (hk : 0 < k) : bytes msg q k ≠ [] :=
    List.ne_nil_of_length_pos (by rwa [length_bytes])
  rw [skeinFull]
  split
  · next hmany =>
    set k := (n - 1) / 64 with hk
    have hsum : n = 64 * k + (n - 64 * k) := by omega
    have hrest := (h.processBlock hfront msg p k).keep msg (p + 64 * k) (n - 64 * k)
    rw [List.nil_append] at hrest
    dsimp only
    rw [Nat.mul_comm k]
    refine ⟨front ++ bytes msg p (64 * k), bytes msg (p + 64 * k) (n - 64 * k), ?_, ?_, ?_,
      fun hnil => absurd hnil (hne (by omega)), hrest⟩
    · conv_rhs => rw [hsum, bytes_add]
      rw [List.append_assoc]
    · rw [List.length_append, length_bytes]
      exact Nat.dvd_add hfront ⟨k, rfl⟩
    · rw [length_bytes]
      omega
  · next hfew =>
    refine ⟨front, bytes msg p n, rfl, hfront, ?_, fun hnil => absurd hnil (hne hn), ?_⟩
    · rw [length_bytes]
      omega
    · exact h.keep msg p n

/-- **A call of `Skein_512_Update` appends its data.** -/
theorem SkeinCtxt.Absorbed.update {m : List (BitVec 8)} (h : ctx.Absorbed rot H iv m)
    (msg : ByteMem) (p n : ℕ) :
    (skein512Update rot ctx msg p n).Absorbed rot H iv (m ++ bytes msg p n) := by
  obtain ⟨front, back, rfl, hfront, hback, hempty, h⟩ := h
  have hptr := h.bCnt
  rw [skein512Update]
  split
  · next hmany =>
    split
    · next hzero =>
      dsimp only
      set r := 64 - ctx.bCnt with hr
      have hsum : n = r + (n - r) := by omega
      have hlen : (back ++ bytes msg p r).length = 64 := by
        rw [List.length_append, length_bytes]
        omega
      have hmsg : front ++ back ++ bytes msg p n
          = front ++ (back ++ bytes msg p r) ++ bytes msg (p + r) (n - r) := by
        conv_lhs => rw [hsum, bytes_add]
        simp only [List.append_assoc]
      have hdvd : 64 ∣ (front ++ (back ++ bytes msg p r)).length := by
        rw [List.length_append, hlen]
        exact Nat.dvd_add hfront (Nat.dvd_refl 64)
      rw [hmsg]
      exact ((h.store msg p r).clear hfront hlen).full hdvd msg (p + r) (by omega)
    · next hzero =>
      obtain rfl : back = [] := List.eq_nil_of_length_eq_zero (by omega)
      rw [List.append_nil]
      exact h.full hfront msg p (by omega)
  · next hfew =>
    refine ⟨front, back ++ bytes msg p n, (List.append_assoc _ _ _).symm, hfront, ?_, ?_,
      h.keep msg p n⟩
    · rw [List.length_append, length_bytes]
      omega
    · intro hnil
      exact hempty (List.append_eq_nil_iff.mp hnil).1

/-! ### The end of a hash -/

variable (rot) in
/-- The chaining variables after the whole of `msg`.  Its last block is filled up with zeros
and tagged, also if its last byte is padded. -/
def skeinMessage (iv : SkeinWords) (msg : List (BitVec 8)) (pad : Bool) : SkeinWords :=
  let zeros := 64 * max 1 ((msg.length + 63) / 64) - msg.length
  let bs := blocks 64 (msg ++ List.replicate zeros 0)
  foldNumbered (fun X i b =>
    let final := i + 1 == bs.length
    skeinUbi rot X (min msg.length (64 * (i + 1)))
      (skeinFlags skeinBlkTypeMsg (i == 0) final (final && pad)) b) iv bs

theorem skeinMessage_append (hfront : 64 ∣ front.length) (hback : back.length ≤ 64)
    (hempty : back = [] → front = []) (pad : Bool) :
    skeinMessage rot iv (front ++ back) pad
      = skeinUbi rot (skeinChain rot iv front) (front ++ back).length
          (skeinFlags skeinBlkTypeMsg (front.length == 0) true pad)
          (back ++ List.replicate (64 - back.length) 0) := by
  set b := back ++ List.replicate (64 - back.length) 0 with hb
  have hmsg : (front ++ back).length = front.length + back.length := List.length_append
  have hlen : b.length = 64 := by
    rw [hb, List.length_append, List.length_replicate]
    omega
  have hzeros : 64 * max 1 (((front ++ back).length + 63) / 64) - (front ++ back).length
      = 64 - back.length := by
    rw [hmsg]
    rcases eq_or_ne back [] with rfl | hne
    · rw [hempty rfl]
      rfl
    · have := List.length_pos_of_ne_nil hne
      omega
  have hcount : (blocks 64 front).length = front.length / 64 := length_blocks 64 front
  have hblocks : blocks 64 (front ++ back ++ List.replicate (64 - back.length) 0)
      = blocks 64 front ++ [b] := by
    rw [List.append_assoc, ← hb, blocks_append (by decide) hfront, blocks_self (by decide) hlen]
  have hnumber : (blocks 64 front ++ [b]).length = front.length / 64 + 1 := by
    rw [List.length_append, hcount]
    rfl
  have hfirst : (front.length / 64 == 0) = (front.length == 0) := by
    rw [Bool.eq_iff_iff, beq_iff_eq, beq_iff_eq]
    omega
  have hpos : min (front ++ back).length (64 * (front.length / 64 + 1))
      = (front ++ back).length := by
    omega
  rw [skeinMessage]
  dsimp only
  rw [hzeros, hblocks, foldNumbered_concat, hcount, hnumber, hpos, hfirst, beq_self_eq_true,
    Bool.true_and, skeinChain]
  refine congrArg (skeinUbi rot · _ _ b) (foldNumbered_congr iv _ fun X i b hi => ?_)
  rw [hcount] at hi
  have hmin : min (front ++ back).length (64 * (i + 1)) = 64 * (i + 1) := by omega
  have hnot : (i + 1 == front.length / 64 + 1) = false := beq_false_of_ne (by omega)
  rw [hmin, hnot, Bool.false_and]

theorem skeinFlags_last : ∀ first pad, (skeinFlags skeinBlkTypeMsg first false false |||
    if pad then skeinT1FlagBitPad else 0) ||| skeinT1FlagFinal
      = skeinFlags skeinBlkTypeMsg first true pad := by
  decide

theorem X_processBlock_one (ctx : SkeinCtxt) (blk : ByteMem) (p n : ℕ) :
    (skeinProcessBlock rot ctx blk p 1 n).X
      = skeinBlock rot ctx.X (ctx.T0 + BitVec.ofNat 64 n) ctx.T1 (skeinWords blk p) := rfl

/-- **The last block** is processed. -/
theorem SkeinCtxt.Absorbed.last {msg : List (BitVec 8)} (h : ctx.Absorbed rot H iv msg)
    (pad : Bool) :
    (skeinLast rot { ctx with T1 := ctx.T1 ||| if pad then skeinT1FlagBitPad else 0 }).X
      = skeinMessage rot iv msg pad := by
  obtain ⟨front, back, rfl, hfront, hback, hempty, h⟩ := h
  have hflags : ctx.T1 ||| (if pad then skeinT1FlagBitPad else 0) ||| skeinT1FlagFinal
      = skeinFlags skeinBlkTypeMsg (front.length == 0) true pad := by
    rw [h.T1, skeinFlags_last]
  have hT0 : ctx.T0 + BitVec.ofNat 64 ctx.bCnt = BitVec.ofNat 64 (front ++ back).length := by
    rw [h.T0, h.bCnt, List.length_append, BitVec.ofNat_add]
  have hbuf : bytes (if ctx.bCnt < 64 then
      storeBytes ctx.b ctx.bCnt (List.replicate (64 - ctx.bCnt) 0) else ctx.b) 0 64
        = back ++ List.replicate (64 - back.length) 0 := by
    rw [h.bCnt]
    split
    · next hlt =>
      have hfill := bytes_storeBytes_append ctx.b back.length (List.replicate (64 - back.length) 0)
      have hlen : back.length + (64 - back.length) = 64 := by omega
      rwa [List.length_replicate, hlen, h.b] at hfill
    · next hge =>
      have hlen : back.length = 64 := by omega
      rw [← hlen, h.b, Nat.sub_self, List.replicate_zero, List.append_nil]
  rw [skeinLast, skeinMessage_append hfront hback hempty, ← hbuf, ← skeinBlock_eq_ubi]
  dsimp only
  rw [hflags, X_processBlock_one]
  split
  · dsimp only
    rw [hT0, h.X]
  · dsimp only
    rw [hT0, h.X]

/-! ### The output -/

/-- Words as bytes, the lowest one first. -/
def skeinBytes (X : SkeinWords) : List (BitVec 8) :=
  (List.range 64).map fun j => (X.getD (j / 8) 0 >>> (8 * (j % 8))).setWidth 8

variable (rot) in
/-- Block `i` of the output. -/
def skeinOut (X : SkeinWords) (i : ℕ) : List (BitVec 8) :=
  skeinBytes (skeinUbi rot X 8 (skeinFlags skeinBlkTypeOut true true false)
    ((bigEndian64 (BitVec.ofNat 64 i)).reverse ++ List.replicate 56 0))

variable (rot) in
/-- The digest of `hashBitLen` bits of a message, from the chaining variables `iv`. -/
def skeinDigest (hashBitLen : ℕ) (iv : SkeinWords) (msg : List (BitVec 8)) (pad : Bool) :
    List (BitVec 8) :=
  let byteCnt := (hashBitLen + 7) / 8
  ((List.range ((byteCnt + 63) / 64)).flatMap (skeinOut rot (skeinMessage rot iv msg pad))).take
    byteCnt

theorem length_skeinOut (X : SkeinWords) (i : ℕ) : (skeinOut rot X i).length = 64 := by
  rw [skeinOut, skeinBytes, List.length_map, List.length_range]

theorem skeinOutput_eq (ctx : SkeinCtxt) (byteCnt i : ℕ) :
    skeinOutput rot ctx byteCnt i = (skeinOut rot ctx.X i).take (byteCnt - i * 64) := by
  have hflags : skeinT1FlagFirst ||| (skeinT1BlkType skeinBlkTypeOut ||| skeinT1FlagFinal)
      = skeinFlags skeinBlkTypeOut true true false := by decide
  have hT0 : (0 : BitVec 64) + BitVec.ofNat 64 8 = BitVec.ofNat 64 8 := by decide
  have hbuf := bytes_storeBytes (fun _ => 0) 0 (bigEndian64 (BitVec.ofNat 64 i)).reverse 56
  rw [List.length_reverse, length_bigEndian64, bytes_zero, bytes_zero] at hbuf
  rw [skeinOutput, skeinOut, skeinBytes, ← List.map_take, List.take_range, X_processBlock_one,
    skeinStartNewType]
  dsimp only
  rw [hflags, hT0, skeinBlock_eq_ubi, hbuf]
  rfl

theorem hashBitLen_last (ctx : SkeinCtxt) : (skeinLast rot ctx).hashBitLen = ctx.hashBitLen := by
  rw [skeinLast]
  dsimp only
  split <;> rfl

theorem skein512Final_eq (ctx : SkeinCtxt) :
    skein512Final rot ctx
      = ((List.range (((ctx.hashBitLen + 7) / 8 + 63) / 64)).flatMap
          (skeinOut rot (skeinLast rot ctx).X)).take ((ctx.hashBitLen + 7) / 8) := by
  have hbyteCnt : (ctx.hashBitLen + 7) >>> 3 = (ctx.hashBitLen + 7) / 8 :=
    Nat.shiftRight_eq_div_pow _ 3
  have hout : skeinOutput rot (skeinLast rot ctx) ((ctx.hashBitLen + 7) / 8) = fun i =>
      (skeinOut rot (skeinLast rot ctx).X i).take ((ctx.hashBitLen + 7) / 8 - i * 64) :=
    funext fun i => skeinOutput_eq _ _ i
  rw [skein512Final, hashBitLen_last, hbyteCnt, hout, take_flatMap_range (length_skeinOut _)]

/-- **The digest**, when a message has been put in. -/
theorem SkeinCtxt.Absorbed.final {msg : List (BitVec 8)} (h : ctx.Absorbed rot H iv msg)
    (pad : Bool) :
    skein512Final rot { ctx with T1 := ctx.T1 ||| if pad then skeinT1FlagBitPad else 0 }
      = skeinDigest rot H iv msg pad := by
  have hX := h.last pad
  obtain ⟨front, back, -, -, -, -, h⟩ := h
  rw [skein512Final_eq, hX, h.hashBitLen, skeinDigest]

theorem SkeinCtxt.Absorbed.final_bytes {msg : List (BitVec 8)} (h : ctx.Absorbed rot H iv msg) :
    skein512Final rot ctx = skeinDigest rot H iv msg false := by
  have hsame : ctx.T1 ||| (if false then skeinT1FlagBitPad else 0) = ctx.T1 := BitVec.or_zero
  have hfinal := h.final false
  rwa [hsame] at hfinal

/-! ### The hash -/

/-- The byte behind the full ones of a message: `t` bits of `last`, and a one bit. -/
def skeinMarker (t : ℕ) (last : BitVec 8) : BitVec 8 :=
  (last &&& ((0xff : BitVec 8) <<< (8 - t))) ||| ((1 : BitVec 8) <<< (7 - t))

theorem skeinMarker_eq : ∀ t < 8, ∀ last : BitVec 8,
    (last &&& ((0 : BitVec 8) - (1 : BitVec 8) <<< (7 - t))) ||| ((1 : BitVec 8) <<< (7 - t))
      = skeinMarker t last := by
  decide +kernel

/-- A message of `databitlen` bits as bytes. -/
def skeinMsg (data : ByteMem) (p databitlen : ℕ) : List (BitVec 8) :=
  bytes data p (databitlen / 8) ++ if databitlen % 8 = 0 then []
    else [skeinMarker (databitlen % 8) (data (p + databitlen / 8))]

theorem hashBitLen_skein512Init (garbage : SkeinCtxt) (hashBitLen : ℕ) :
    (skein512Init rot garbage hashBitLen).hashBitLen = hashBitLen := by
  unfold skein512Init
  dsimp only [skeinStartNewType]
  split <;> rfl

/-- The initial state. -/
theorem absorbed_skein512Init (garbage : SkeinCtxt) (hashBitLen : ℕ) :
    (skein512Init rot garbage hashBitLen).Absorbed rot hashBitLen
      (skein512Init rot garbage hashBitLen).X [] := by
  have hflags : skeinT1FlagFirst ||| skeinT1BlkType skeinBlkTypeMsg
      = skeinFlags skeinBlkTypeMsg true false false := by decide
  exact ⟨[], [], rfl, dvd_zero 64, by decide, fun _ => rfl,
    hashBitLen_skein512Init garbage hashBitLen, rfl, rfl, hflags, rfl, rfl⟩

/-- **The last call of `Update`**, of any number of bits, and the digest. -/
theorem SkeinCtxt.Absorbed.update_final {msg : List (BitVec 8)} (h : ctx.Absorbed rot H iv msg)
    (data : ByteMem) (p databitlen : ℕ) :
    skein512Final rot (skeinUpdate rot ctx data p databitlen)
      = skeinDigest rot H iv (msg ++ skeinMsg data p databitlen) (databitlen % 8 != 0) := by
  have hbyte : databitlen >>> 3 = databitlen / 8 := Nat.shiftRight_eq_div_pow _ 3
  have hbits : databitlen &&& 7 = databitlen % 8 := Nat.and_two_pow_sub_one_eq_mod _ 3
  have hfront := h.update data p (databitlen / 8)
  rw [skeinUpdate, hbyte, hbits, skeinMsg, ← List.append_assoc]
  split
  · next hzero =>
    rw [List.append_nil, hfront.final_bytes, hzero]
    rfl
  · next hpos =>
    have hpad : (databitlen % 8 != 0) = true := bne_iff_ne.mpr hpos
    have hmarker := skeinMarker_eq (databitlen % 8) (Nat.mod_lt _ (by decide))
      (data (p + databitlen / 8))
    dsimp only
    rw [Nat.add_sub_cancel, hmarker, hpad]
    exact (hfront.update (memOf [skeinMarker (databitlen % 8) (data (p + databitlen / 8))]) 0
      1).final true

/-- **A hash is the digest of its data**, of any number of bits. -/
theorem skeinHash_eq_digest (garbage : SkeinCtxt) (hashbitlen : ℕ) (data : ByteMem)
    (p databitlen : ℕ) :
    skeinHash rot garbage hashbitlen data p databitlen
      = skeinDigest rot hashbitlen (skein512Init rot garbage hashbitlen).X
          (skeinMsg data p databitlen) (databitlen % 8 != 0) :=
  (absorbed_skein512Init garbage hashbitlen).update_final data p databitlen

/-! ### The initial chaining variables -/

variable (rot) in
/-- The chaining variables behind the config block. -/
def skeinIV (hashBitLen : ℕ) : SkeinWords :=
  skeinUbi rot (Vector.replicate 8 0) 32 (skeinFlags skeinBlkTypeCfg true true false)
    (skeinBytes (skeinCfg hashBitLen))

end Stream

theorem bytes_words (X : SkeinWords) :
    bytes (fun q => (X.getD (q / 8) 0 >>> (8 * (q % 8))).setWidth 8) 0 64 = skeinBytes X := by
  refine List.map_congr_left fun j _ => ?_
  rw [Nat.zero_add]

theorem skein512IV_eq : skein512IV512 = skeinIV rotL64 512 ∧ skein512IV384 = skeinIV rotL64 384 ∧
    skein512IV256 = skeinIV rotL64 256 ∧ skein512IV224 = skeinIV rotL64 224 := by
  decide +kernel

/-- **The tables hold the chaining variables behind the config block.** -/
theorem X_skein512Init (garbage : SkeinCtxt) (hashBitLen : ℕ) :
    (skein512Init rotL64 garbage hashBitLen).X = skeinIV rotL64 hashBitLen := by
  have hflags : skeinT1FlagFirst ||| (skeinT1BlkType skeinBlkTypeCfg ||| skeinT1FlagFinal)
      = skeinFlags skeinBlkTypeCfg true true false := by decide
  have hT0 : (0 : BitVec 64) + BitVec.ofNat 64 (4 * 8) = BitVec.ofNat 64 32 := by decide
  obtain ⟨h512, h384, h256, h224⟩ := skein512IV_eq
  unfold skein512Init
  dsimp only [skeinStartNewType]
  split
  · exact h512
  · exact h384
  · exact h256
  · exact h224
  · rw [X_processBlock_one, hflags, hT0, skeinBlock_eq_ubi, bytes_words, skeinIV]

/-- **`skein_hash` is the digest of its data**, of any number of bits. -/
theorem skeinHash_eq (garbage : SkeinCtxt) (hashbitlen : ℕ) (data : ByteMem) (p databitlen : ℕ) :
    skeinHash rotL64 garbage hashbitlen data p databitlen
      = skeinDigest rotL64 hashbitlen (skeinIV rotL64 hashbitlen) (skeinMsg data p databitlen)
          (databitlen % 8 != 0) := by
  rw [skeinHash_eq_digest, X_skein512Init]

/-- **It does not matter how a message is cut** into calls of `Update`, of which the last one
may end with some bits, nor whether there is a table for the size of the digest. -/
theorem skein512Final_calls (garbage : SkeinCtxt) (hashBitLen : ℕ) (cs : List Chunk)
    (data : ByteMem) (p databitlen : ℕ) :
    skein512Final rotL64 (skeinUpdate rotL64 (cs.foldl
        (fun ctx c => skein512Update rotL64 ctx c.mem c.start c.len)
        (skein512Init rotL64 garbage hashBitLen)) data p databitlen)
      = skeinDigest rotL64 hashBitLen (skeinIV rotL64 hashBitLen)
          (cs.flatMap Chunk.data ++ skeinMsg data p databitlen) (databitlen % 8 != 0) := by
  have hinit : (skein512Init rotL64 garbage hashBitLen).Absorbed rotL64 hashBitLen
      (skein512Init rotL64 garbage hashBitLen).X [] := absorbed_skein512Init garbage hashBitLen
  rw [X_skein512Init] at hinit
  have hbytes := foldl_chunks (fun _ _ => True)
    (fun ctx msg => SkeinCtxt.Absorbed rotL64 ctx hashBitLen (skeinIV rotL64 hashBitLen) msg)
    (fun ctx msg c _ hctx => hctx.update c.mem c.start c.len) cs []
    (allowed_of_forall cs (fun _ _ _ => trivial) 0) hinit
  exact hbytes.update_final data p databitlen

end XmrMiner
