import XmrMiner.Crypto.Init
import XmrMiner.Crypto.KeyExpand
import XmrMiner.Cuda.Keccak

/-!
# Preparing a hash on the device

`cryptonight_extra_gpu_prepare` is everything the CPU does before it fills the
scratchpad: it puts the nonce into the header, hashes it with Keccak, expands the
two AES keys, and adds up the halves of the state that become the registers `a`
and `b`, and, for the variants, the tweak.  One thread does this for one hash, and
writes the outcome to its slots in the arrays of all hashes.

## Main definitions

* `cryptonightAesSetKey` — the key expansion.
* `Prepared`, `prepareThread` — what one thread computes.
* `cryptonightExtraGpuPrepare` — the kernel, for one thread.

## Main results

* `exists_oaesKey_eq` — the expanded key is that of the CPU.
* `PrepareCtx.Holds.run` — a slot after the threads have run, in any order.
* `cryptonightExtraGpuPrepare_refines` — **the device prepares what the CPU does.**
-/

namespace XmrMiner

open ByteMem

/-! ### The key expansion -/

/-- `d_sub_byte`. -/
def dSubByte : List (List (BitVec 8)) := [
  [0x63, 0x7c, 0x77, 0x7b, 0xf2, 0x6b, 0x6f, 0xc5, 0x30, 0x01, 0x67, 0x2b, 0xfe, 0xd7, 0xab, 0x76],
  [0xca, 0x82, 0xc9, 0x7d, 0xfa, 0x59, 0x47, 0xf0, 0xad, 0xd4, 0xa2, 0xaf, 0x9c, 0xa4, 0x72, 0xc0],
  [0xb7, 0xfd, 0x93, 0x26, 0x36, 0x3f, 0xf7, 0xcc, 0x34, 0xa5, 0xe5, 0xf1, 0x71, 0xd8, 0x31, 0x15],
  [0x04, 0xc7, 0x23, 0xc3, 0x18, 0x96, 0x05, 0x9a, 0x07, 0x12, 0x80, 0xe2, 0xeb, 0x27, 0xb2, 0x75],
  [0x09, 0x83, 0x2c, 0x1a, 0x1b, 0x6e, 0x5a, 0xa0, 0x52, 0x3b, 0xd6, 0xb3, 0x29, 0xe3, 0x2f, 0x84],
  [0x53, 0xd1, 0x00, 0xed, 0x20, 0xfc, 0xb1, 0x5b, 0x6a, 0xcb, 0xbe, 0x39, 0x4a, 0x4c, 0x58, 0xcf],
  [0xd0, 0xef, 0xaa, 0xfb, 0x43, 0x4d, 0x33, 0x85, 0x45, 0xf9, 0x02, 0x7f, 0x50, 0x3c, 0x9f, 0xa8],
  [0x51, 0xa3, 0x40, 0x8f, 0x92, 0x9d, 0x38, 0xf5, 0xbc, 0xb6, 0xda, 0x21, 0x10, 0xff, 0xf3, 0xd2],
  [0xcd, 0x0c, 0x13, 0xec, 0x5f, 0x97, 0x44, 0x17, 0xc4, 0xa7, 0x7e, 0x3d, 0x64, 0x5d, 0x19, 0x73],
  [0x60, 0x81, 0x4f, 0xdc, 0x22, 0x2a, 0x90, 0x88, 0x46, 0xee, 0xb8, 0x14, 0xde, 0x5e, 0x0b, 0xdb],
  [0xe0, 0x32, 0x3a, 0x0a, 0x49, 0x06, 0x24, 0x5c, 0xc2, 0xd3, 0xac, 0x62, 0x91, 0x95, 0xe4, 0x79],
  [0xe7, 0xc8, 0x37, 0x6d, 0x8d, 0xd5, 0x4e, 0xa9, 0x6c, 0x56, 0xf4, 0xea, 0x65, 0x7a, 0xae, 0x08],
  [0xba, 0x78, 0x25, 0x2e, 0x1c, 0xa6, 0xb4, 0xc6, 0xe8, 0xdd, 0x74, 0x1f, 0x4b, 0xbd, 0x8b, 0x8a],
  [0x70, 0x3e, 0xb5, 0x66, 0x48, 0x03, 0xf6, 0x0e, 0x61, 0x35, 0x57, 0xb9, 0x86, 0xc1, 0x1d, 0x9e],
  [0xe1, 0xf8, 0x98, 0x11, 0x69, 0xd9, 0x8e, 0x94, 0x9b, 0x1e, 0x87, 0xe9, 0xce, 0x55, 0x28, 0xdf],
  [0x8c, 0xa1, 0x89, 0x0d, 0xbf, 0xe6, 0x42, 0x68, 0x41, 0x99, 0x2d, 0x0f, 0xb0, 0x54, 0xbb, 0x16]]

/-- `aes_gf`. -/
def aesGf : List (BitVec 32) := [0x01, 0x02, 0x04, 0x08, 0x10, 0x20, 0x40, 0x80, 0x1b, 0x36]

/-- The two implementations of `ROTR32`. -/
inductive Rotr32Impl
  /-- `__CUDA_ARCH__ < 350`: two plain shifts. -/
  | shifts
  /-- `__funnelshift_r`. -/
  | funnelShift
  deriving DecidableEq, Repr

/-- `__funnelshift_r`: the low word of `hi:lo`, shifted right by `shift` modulo 32. -/
def funnelshiftR (lo hi : BitVec 32) (shift : ℕ) : BitVec 32 :=
  ((hi ++ lo) >>> (shift % 32)).setWidth 32

/-- `ROTR32`. -/
def rotr32 (impl : Rotr32Impl) (x : BitVec 32) (n : ℕ) : BitVec 32 :=
  match impl with
  | .shifts => (x >>> n) ||| (x <<< (32 - n))
  | .funnelShift => funnelshiftR x x n

/-- The look-up of one byte of `temp`. -/
def cnSubByte (byte : BitVec 8) : BitVec 8 :=
  (dSubByte.getD ((byte >>> 4) &&& 0x0f).toNat []).getD (byte &&& 0x0f).toNat 0

/-- The transform of `temp`, for word `i`. -/
def cnTemp (impl : Rotr32Impl) (i : ℕ) (temp : Column) : Column :=
  if i % 8 = 0 then
    let temp := Column.ofWord (rotr32 impl temp.word 8)
    let temp : Column := fun j => cnSubByte (temp j)
    Column.ofWord (temp.word ^^^ aesGf.getD (i / 8 - 1) 0)
  else if i % 8 = 4 then fun j => cnSubByte (temp j)
  else temp

/-- The body of the loop of `cryptonight_aes_set_key`. -/
def aesSetKeyStep (impl : Rotr32Impl) (key : ByteMem) (i : ℕ) : ByteMem :=
  let temp := cnTemp impl i (Column.ofWord (load32 key (4 * (i - 1))))
  store32 key (4 * i) (load32 key (4 * (i - 8)) ^^^ temp.word)

/-- `MEMSET4`. -/
def memset4 (dst : ByteMem) (d : ℕ) (what : BitVec 32) (cnt : ℕ) : ByteMem :=
  (List.range cnt).foldl (fun dst i => store32 dst (d + 4 * i) what) dst

/-- `cryptonight_aes_set_key`. -/
def cryptonightAesSetKey (impl : Rotr32Impl) (key data : ByteMem) (p : ℕ) : ByteMem :=
  let key := memset4 key 0 0 40
  let key := memcpy4 key 0 data p 8
  (List.range' 8 32).foldl (aesSetKeyStep impl) key

/-! ### The kernel -/

/-- `XOR_BLOCKS_DST`. -/
def cudaXorBlocksDst (s : ByteMem) (x y : ℕ) (z : ByteMem) : ByteMem :=
  let z := store64 z 0 (load64 s x ^^^ load64 s y)
  store64 z 8 (load64 s (x + 8) ^^^ load64 s (y + 8))

/-- The local arrays of one thread. -/
structure Prepared where
  /-- `input`. -/
  input : ByteMem
  /-- `ctx_state`. -/
  ctxState : ByteMem
  /-- `ctx_a`. -/
  ctxA : ByteMem
  /-- `ctx_b`. -/
  ctxB : ByteMem
  /-- `ctx_key1`. -/
  ctxKey1 : ByteMem
  /-- `ctx_key2`. -/
  ctxKey2 : ByteMem
  /-- `tweak1_2`. -/
  tweak1_2 : ByteMem

/-- The header of `thread`: the nonce is written byte by byte, its place is not aligned. -/
def nonceHeader (dInput : ByteMem) (startNonce : BitVec 32) (thread : ℕ) : ByteMem :=
  store32 dInput 39 (startNonce + BitVec.ofNat 32 thread)

/-- What `thread` computes, where its arrays hold `u`, and the array of `cn_keccak` holds
`st`, before.  The permutation of the source is `cn_keccakf`. -/
def prepareThread (perm : KeccakState → KeccakState) (impl : Rotr32Impl) (u : Prepared)
    (st dInput : ByteMem) (startNonce : BitVec 32) (variant : ℤ) (thread : ℕ) : Prepared :=
  let input := memcpy4 u.input 0 dInput 0 19
  let nonce := startNonce + BitVec.ofNat 32 thread
  let input := store32 input 39 nonce
  let ctxState := cnKeccak perm st u.ctxState input 0
  let ctxKey1 := cryptonightAesSetKey impl u.ctxKey1 ctxState 0
  let ctxKey2 := cryptonightAesSetKey impl u.ctxKey2 ctxState (4 * 8)
  let ctxA := cudaXorBlocksDst ctxState 0 (4 * 8) u.ctxA
  let ctxB := cudaXorBlocksDst ctxState (4 * 4) (4 * 12) u.ctxB
  let tweak1_2 :=
    if variant > 0 then
      let tweak := store32 u.tweak1_2 0
        ((load32 input (4 * 8) >>> 24) ||| (load32 input (4 * 9) <<< 8))
      let tweak := store32 tweak 0 (load32 tweak 0 ^^^ load32 ctxState (4 * 48))
      let tweak := store32 tweak 4 nonce
      store32 tweak 4 (load32 tweak 4 ^^^ load32 ctxState (4 * 49))
    else u.tweak1_2
  ⟨input, ctxState, ctxA, ctxB, ctxKey1, ctxKey2, tweak1_2⟩

/-- The device arrays, with a slot for each hash. -/
structure PrepareCtx where
  /-- `d_ctx_state`, 50 words a hash. -/
  ctxState : ByteMem
  /-- `d_ctx_a`, 4 words a hash. -/
  ctxA : ByteMem
  /-- `d_ctx_b`, 4 words a hash. -/
  ctxB : ByteMem
  /-- `d_ctx_key1`, 40 words a hash. -/
  ctxKey1 : ByteMem
  /-- `d_ctx_key2`, 40 words a hash. -/
  ctxKey2 : ByteMem
  /-- `d_ctx_tweak1_2`, 2 words a hash. -/
  ctxTweak1_2 : ByteMem

/-- The copies to the slots of `thread`, at the end of the kernel. -/
def PrepareCtx.store (d : PrepareCtx) (variant : ℤ) (thread : ℕ) (p : Prepared) : PrepareCtx where
  ctxState := storeBytes d.ctxState (thread * 50 * 4) (bytes p.ctxState 0 (50 * 4))
  ctxA := storeBytes d.ctxA (thread * 4 * 4) (bytes p.ctxA 0 (4 * 4))
  ctxB := storeBytes d.ctxB (thread * 4 * 4) (bytes p.ctxB 0 (4 * 4))
  ctxKey1 := storeBytes d.ctxKey1 (thread * 40 * 4) (bytes p.ctxKey1 0 (40 * 4))
  ctxKey2 := storeBytes d.ctxKey2 (thread * 40 * 4) (bytes p.ctxKey2 0 (40 * 4))
  ctxTweak1_2 :=
    if variant > 0 then memcpy4 d.ctxTweak1_2 (thread * 2 * 4) p.tweak1_2 0 2 else d.ctxTweak1_2

/-- `cryptonight_extra_gpu_prepare`, as `thread` runs it. -/
def cryptonightExtraGpuPrepare (perm : KeccakState → KeccakState) (impl : Rotr32Impl)
    (u : ℕ → Prepared) (st : ℕ → ByteMem) (threads : ℕ) (dInput : ByteMem)
    (startNonce : BitVec 32) (variant : ℤ) (d : PrepareCtx) (thread : ℕ) : PrepareCtx :=
  if thread < threads then
    d.store variant thread
      (prepareThread perm impl (u thread) (st thread) dInput startNonce variant thread)
  else d

/-! ### The expanded key -/

/-- Turning a word by eight bits turns its bytes. -/
theorem rotr32_word (impl : Rotr32Impl) (c : Column) :
    rotr32 impl c.word 8 = (oaesWordRotLeft c).word := by
  have hbytes : (oaesWordRotLeft c).word = c 0 ++ c 3 ++ c 2 ++ c 1 := rfl
  rw [hbytes]
  apply BitVec.eq_of_getLsbD_eq
  intro i hi
  cases impl with
  | shifts =>
    simp only [rotr32, Column.word, BitVec.getLsbD_or, BitVec.getLsbD_ushiftRight,
      BitVec.getLsbD_shiftLeft, BitVec.getLsbD_append]
    grind
  | funnelShift =>
    simp only [rotr32, funnelshiftR, Column.word, BitVec.getLsbD_setWidth,
      BitVec.getLsbD_ushiftRight, BitVec.getLsbD_append]
    grind

/-- Adding a byte to a word adds it to the first byte. -/
theorem ofWord_word_xor (c : Column) (g : BitVec 8) :
    Column.ofWord (c.word ^^^ g.setWidth 32) = Function.update c 0 (c 0 ^^^ g) := by
  have hg : g.setWidth 32 = Column.word ![g, 0, 0, 0] := by
    apply BitVec.eq_of_getLsbD_eq
    intro i hi
    simp [Column.word]
    grind
  rw [hg, ← Column.word_xor, Column.ofWord_word]
  funext j
  fin_cases j <;> simp

theorem aesGf_getD (k : ℕ) : aesGf.getD k 0 = (oaesGf8.getD k 0).setWidth 32 := by
  have hmap : aesGf = oaesGf8.map (BitVec.setWidth 32) := rfl
  rw [hmap]
  exact List.getD_map oaesGf8 0 (BitVec.setWidth 32)

/-- **The transforms agree.** -/
theorem cnTemp_eq (impl : Rotr32Impl) (i : ℕ) (temp : Column) :
    cnTemp impl i temp = oaesTemp 8 i temp := by
  have hsub : cnSubByte = oaesSubByte := rfl
  simp only [cnTemp, oaesTemp, rotr32_word, Column.ofWord_word, aesGf_getD, ofWord_word_xor, hsub]
  simp

/-- **The expanded key of the device** holds the words of the schedule. -/
theorem load32_cryptonightAesSetKey (impl : Rotr32Impl) (key data : ByteMem) (p : ℕ) {w : ℕ}
    (hw : w < 40) : load32 (cryptonightAesSetKey impl key data p) (4 * w)
      = scheduleWord 8 (oaesTransform 8) (fun i => load32 data (p + 4 * i)) w := by
  have hstep : ∀ m i, 8 ≤ i → load32 (aesSetKeyStep impl m i) (4 * i)
      = load32 m (4 * (i - 8)) ^^^ oaesTransform 8 i (load32 m (4 * (i - 1))) := by
    intro m i _
    rw [aesSetKeyStep, load32_store32_self, cnTemp_eq]
    rfl
  have hframe : ∀ m i w, w < i → load32 (aesSetKeyStep impl m i) (4 * w) = load32 m (4 * w) :=
    fun m i w hw => load32_store32_of_disjoint _ _ (by omega)
  rw [cryptonightAesSetKey, load32_foldl_schedule (by decide) hstep hframe _ 32 w (by omega)]
  refine scheduleWord_congr _ (by decide) (fun i hi => load32_eq_of_bytes fun j hj => ?_) w
  rw [memcpy4_apply, if_pos (by omega)]
  congr 1
  omega

/-- **The expanded keys agree**, for the same 32 bytes. -/
theorem exists_oaesKey_eq (impl : Rotr32Impl) (key s ctx : ByteMem) {k p : ℕ}
    (h : ∀ q < 32, s (k + q) = ctx (p + q)) :
    ∃ key' : OaesKey, oaesKeyImportData true true true ctx p 32 = .ok key' ∧
      ∀ w < 40, load32 (cryptonightAesSetKey impl key s k) (4 * w)
        = load32 key'.expData (4 * w) := by
  obtain ⟨key', himport, hwords⟩ := load32_oaesKeyImportData ctx p
  refine ⟨key', himport, fun w hw => ?_⟩
  rw [load32_cryptonightAesSetKey impl key s k hw, hwords w (by omega)]
  refine scheduleWord_congr _ (by decide) (fun i hi => load32_eq_of_bytes fun j hj => ?_) w
  rw [Nat.add_assoc, Nat.add_assoc]
  exact h _ (by omega)

/-! ### The slots -/

/-- The slots of `thread` hold what it has computed. -/
structure PrepareCtx.Holds (d : PrepareCtx) (variant : ℤ) (thread : ℕ) (p : Prepared) :
    Prop where
  /-- The slot in `d_ctx_state`. -/
  ctxState : ∀ q < 200, d.ctxState (thread * 50 * 4 + q) = p.ctxState q
  /-- The slot in `d_ctx_a`. -/
  ctxA : ∀ q < 16, d.ctxA (thread * 4 * 4 + q) = p.ctxA q
  /-- The slot in `d_ctx_b`. -/
  ctxB : ∀ q < 16, d.ctxB (thread * 4 * 4 + q) = p.ctxB q
  /-- The slot in `d_ctx_key1`. -/
  ctxKey1 : ∀ q < 160, d.ctxKey1 (thread * 40 * 4 + q) = p.ctxKey1 q
  /-- The slot in `d_ctx_key2`. -/
  ctxKey2 : ∀ q < 160, d.ctxKey2 (thread * 40 * 4 + q) = p.ctxKey2 q
  /-- The slot in `d_ctx_tweak1_2`, which the variants use. -/
  ctxTweak1_2 : variant > 0 → ∀ q < 8, d.ctxTweak1_2 (thread * 2 * 4 + q) = p.tweak1_2 q

/-- A slot after the copy to it. -/
theorem storeBytes_slot_self (m src : ByteMem) (p n : ℕ) {q : ℕ} (hq : q < n) :
    storeBytes m p (bytes src 0 n) (p + q) = src q := by
  rw [storeBytes_bytes, if_pos (by omega), Nat.zero_add, Nat.add_sub_cancel_left]

/-- A slot after the copy to another one. -/
theorem storeBytes_slot_of_ne (m src : ByteMem) {k n t t' : ℕ} (hn : k * 4 = n) (ht : t ≠ t')
    {q : ℕ} (hq : q < n) :
    storeBytes m (t * k * 4) (bytes src 0 n) (t' * k * 4 + q) = m (t' * k * 4 + q) := by
  rw [storeBytes_bytes, if_neg]
  rw [Nat.mul_assoc, Nat.mul_assoc, hn]
  rcases Nat.lt_or_gt_of_ne ht with h | h
  · have := Nat.mul_le_mul_right n h
    rw [Nat.succ_mul] at this
    omega
  · have := Nat.mul_le_mul_right n h
    rw [Nat.succ_mul] at this
    omega

theorem PrepareCtx.holds_store (d : PrepareCtx) (variant : ℤ) (thread : ℕ) (p : Prepared) :
    (d.store variant thread p).Holds variant thread p where
  ctxState _ hq := storeBytes_slot_self _ _ _ _ hq
  ctxA _ hq := storeBytes_slot_self _ _ _ _ hq
  ctxB _ hq := storeBytes_slot_self _ _ _ _ hq
  ctxKey1 _ hq := storeBytes_slot_self _ _ _ _ hq
  ctxKey2 _ hq := storeBytes_slot_self _ _ _ _ hq
  ctxTweak1_2 hv q hq := by
    simp only [PrepareCtx.store, if_pos hv]
    rw [memcpy4_apply, if_pos (by omega), Nat.zero_add, Nat.add_sub_cancel_left]

/-- The slots of different threads are apart. -/
theorem PrepareCtx.Holds.store_of_ne {d : PrepareCtx} {variant : ℤ} {thread t : ℕ}
    {p : Prepared} (h : d.Holds variant thread p) (ht : t ≠ thread) (p' : Prepared) :
    (d.store variant t p').Holds variant thread p where
  ctxState q hq := (storeBytes_slot_of_ne _ _ rfl ht hq).trans (h.ctxState q hq)
  ctxA q hq := (storeBytes_slot_of_ne _ _ rfl ht hq).trans (h.ctxA q hq)
  ctxB q hq := (storeBytes_slot_of_ne _ _ rfl ht hq).trans (h.ctxB q hq)
  ctxKey1 q hq := (storeBytes_slot_of_ne _ _ rfl ht hq).trans (h.ctxKey1 q hq)
  ctxKey2 q hq := (storeBytes_slot_of_ne _ _ rfl ht hq).trans (h.ctxKey2 q hq)
  ctxTweak1_2 hv q hq := by
    simp only [PrepareCtx.store, if_pos hv]
    rw [memcpy4_apply, if_neg (by omega), h.ctxTweak1_2 hv q hq]

section Run

variable (perm : KeccakState → KeccakState) (impl : Rotr32Impl) (u : ℕ → Prepared)
  (st : ℕ → ByteMem) {threads thread : ℕ} (dInput : ByteMem) (startNonce : BitVec 32)
  (variant : ℤ)

/-- **After the kernel** the slots of every thread that ran hold what it has computed,
whatever the order in which they ran. -/
theorem PrepareCtx.Holds.run (hthread : thread < threads) : ∀ (order : List ℕ) (d : PrepareCtx),
    thread ∈ order ∨ d.Holds variant thread
      (prepareThread perm impl (u thread) (st thread) dInput startNonce variant thread) →
    (order.foldl (cryptonightExtraGpuPrepare perm impl u st threads dInput startNonce variant)
      d).Holds variant thread
        (prepareThread perm impl (u thread) (st thread) dInput startNonce variant thread) := by
  intro order
  induction order with
  | nil =>
    rintro d (hmem | hd)
    · exact absurd hmem List.not_mem_nil
    · exact hd
  | cons t order ih =>
    intro d hor
    rw [List.foldl_cons]
    refine ih _ ?_
    rcases eq_or_ne t thread with rfl | ht
    · right
      rw [cryptonightExtraGpuPrepare, if_pos hthread]
      exact PrepareCtx.holds_store _ _ _ _
    · rcases hor with hmem | hd
      · exact Or.inl ((List.mem_cons.mp hmem).resolve_left ht.symm)
      · right
        rw [cryptonightExtraGpuPrepare]
        split
        · exact hd.store_of_ne ht _
        · exact hd

end Run

/-! ### What a thread computes -/

theorem cnKeccak_apply (perm : KeccakState → KeccakState) (st md m : ByteMem) (input : ℕ) {q : ℕ}
    (hq : q < 200) :
    cnKeccak perm st md m input q = stateBytes (perm (paddedHeader m input)) q := by
  rw [cnKeccak, stateOf_cnKeccakBlock, memcpy8_apply, if_pos (by omega), Nat.zero_add,
    Nat.sub_zero]

theorem loadBlock_cudaXorBlocksDst (s : ByteMem) (x y : ℕ) (z : ByteMem) :
    loadBlock (cudaXorBlocksDst s x y z) 0 = (loadBlock s x).xor (loadBlock s y) := by
  rw [cudaXorBlocksDst, loadBlock_storeHalves, ofHalves_xor_load64]

/-- A word that is not aligned, from the two that it lies in. -/
theorem load32_unaligned (m : ByteMem) (p : ℕ) :
    (load32 m p >>> 24) ||| (load32 m (p + 4) <<< 8) = load32 m (p + 3) := by
  apply BitVec.eq_of_getLsbD_eq
  intro i hi
  simp only [load32, BitVec.getLsbD_or, BitVec.getLsbD_ushiftRight, BitVec.getLsbD_shiftLeft,
    BitVec.getLsbD_append, Nat.add_assoc]
  grind

section Thread

variable (perm : KeccakState → KeccakState) (impl : Rotr32Impl) (u : Prepared)
  (st dInput : ByteMem) (startNonce : BitVec 32) (variant : ℤ) (thread : ℕ)

/-- The header of the thread. -/
theorem prepareThread_input {q : ℕ} (hq : q < 76) :
    (prepareThread perm impl u st dInput startNonce variant thread).input q
      = nonceHeader dInput startNonce thread q := by
  refine store32_congr ?_ _ _
  rw [memcpy4_apply, if_pos (by omega), Nat.zero_add, Nat.sub_zero]

/-- The state is that of the CPU, for the header of the thread. -/
theorem prepareThread_ctxState (temp ctx : ByteMem) {m : ByteMem} {input : ℕ}
    (hheader : ∀ q < 76, m (input + q) = nonceHeader dInput startNonce thread q) {q : ℕ}
    (hq : q < 200) :
    (prepareThread perm impl u st dInput startNonce variant thread).ctxState q
      = hashProcess perm temp m input 76 ctx (Ctx.state + q) := by
  have hpad : paddedHeader (prepareThread perm impl u st dInput startNonce variant thread).input 0
      = paddedHeader m input := paddedHeader_congr fun q hq => by
    rw [Nat.zero_add, prepareThread_input _ _ _ _ _ _ _ _ hq, hheader q hq]
  rw [hashProcess_state perm temp m input ctx hq, ← hpad]
  exact cnKeccak_apply perm st u.ctxState _ 0 hq

/-- The tweak, for a header `m` whose nonce has been set. -/
theorem prepareThread_tweak (hv : variant > 0) :
    load64 (prepareThread perm impl u st dInput startNonce variant thread).tweak1_2 0
      = load64 (nonceHeader dInput startNonce thread) 35
        ^^^ load64 (prepareThread perm impl u st dInput startNonce variant thread).ctxState
          (8 * 24) := by
  set s := (prepareThread perm impl u st dInput startNonce variant thread).ctxState with hs
  set input := (prepareThread perm impl u st dInput startNonce variant thread).input with hinput
  have hheader : ∀ q < 76, input q = nonceHeader dInput startNonce thread q := fun q hq =>
    prepareThread_input perm impl u st dInput startNonce variant thread hq
  have hlow : load32 (nonceHeader dInput startNonce thread) 35
      = (load32 input (4 * 8) >>> 24) ||| (load32 input (4 * 9) <<< 8) := by
    rw [show 4 * 9 = 4 * 8 + 4 from rfl, load32_unaligned]
    exact load32_congr fun i hi => (hheader _ (by omega)).symm
  have hhigh : load32 (nonceHeader dInput startNonce thread) 39
      = startNonce + BitVec.ofNat 32 thread := load32_store32_self _ _ _
  have htweak : (prepareThread perm impl u st dInput startNonce variant thread).tweak1_2
      = store32 (store32 (store32 (store32 u.tweak1_2 0
          ((load32 input (4 * 8) >>> 24) ||| (load32 input (4 * 9) <<< 8))) 0
          (((load32 input (4 * 8) >>> 24) ||| (load32 input (4 * 9) <<< 8)) ^^^ load32 s (4 * 48)))
          4 (startNonce + BitVec.ofNat 32 thread)) 4
          ((startNonce + BitVec.ofNat 32 thread) ^^^ load32 s (4 * 49)) := by
    simp only [prepareThread, if_pos hv, load32_store32_self, hs, hinput]
  rw [htweak, load64, load64, load64, load32_store32_self,
    load32_store32_of_disjoint _ _ (by omega), load32_store32_of_disjoint _ _ (by omega),
    load32_store32_self, BitVec.xor_append, hlow, ← hhigh]

variable (temp ctx : ByteMem) {m : ByteMem} {input : ℕ}

/-- The registers are those of the CPU. -/
theorem prepareThread_registers
    (hheader : ∀ q < 76, m (input + q) = nonceHeader dInput startNonce thread q) :
    let p := prepareThread perm impl u st dInput startNonce variant thread
    let ctx' := hashProcess perm temp m input 76 ctx
    loadBlock p.ctxA 0 = loadBlock (xorHalves ctx') Ctx.a
      ∧ loadBlock p.ctxB 0 = loadBlock (xorHalves ctx') Ctx.b := by
  intro p ctx'
  have hblock : ∀ k, k + 16 ≤ 200 → loadBlock p.ctxState k = loadBlock ctx' (Ctx.state + k) :=
    fun k hk => loadBlock_eq_of_bytes fun i hi => by
      rw [prepareThread_ctxState perm impl u st dInput startNonce variant thread temp ctx hheader
        (by omega), Nat.add_assoc]
  have ha : loadBlock p.ctxA 0 = (loadBlock p.ctxState 0).xor (loadBlock p.ctxState 32) :=
    loadBlock_cudaXorBlocksDst _ _ _ _
  have hb : loadBlock p.ctxB 0 = (loadBlock p.ctxState 16).xor (loadBlock p.ctxState 48) :=
    loadBlock_cudaXorBlocksDst _ _ _ _
  obtain ⟨hsumA, hsumB⟩ := loadBlock_xorHalves ctx'
  refine ⟨?_, ?_⟩
  · rw [ha, hsumA, hblock 0 (by decide), hblock 32 (by decide)]
    rfl
  · rw [hb, hsumB, hblock 16 (by decide), hblock 48 (by decide)]

/-- The tweak is that of the CPU. -/
theorem prepareThread_variant1Init (hv : variant > 0)
    (hheader : ∀ q < 76, m (input + q) = nonceHeader dInput startNonce thread q) :
    variant1Init variant 76 m input (hashProcess perm temp m input 76 ctx)
      = some (load64 (prepareThread perm impl u st dInput startNonce variant thread).tweak1_2
        0) := by
  have hinput : load64 m (input + 35) = load64 (nonceHeader dInput startNonce thread) 35 :=
    load64_eq_of_bytes fun i hi => by rw [Nat.add_assoc, hheader _ (by omega)]
  have hword : load64 (hashProcess perm temp m input 76 ctx) (Ctx.state + 8 * 24)
      = load64 (prepareThread perm impl u st dInput startNonce variant thread).ctxState (8 * 24) :=
    load64_eq_of_bytes fun i hi => by
      rw [prepareThread_ctxState perm impl u st dInput startNonce variant thread temp ctx hheader
        (by omega), Nat.add_assoc]
  rw [variant1Init, if_neg (by omega), if_pos hv, hinput, hword,
    prepareThread_tweak perm impl u st dInput startNonce variant thread hv]

end Thread

/-- **The device prepares what the CPU does.**  Whatever the order in which the threads
run, the slots of a thread hold, for the header with its nonce, the state of the CPU,
the first 40 words of both expanded keys, the registers, and for the variants the
tweak. -/
theorem cryptonightExtraGpuPrepare_refines (perm : KeccakState → KeccakState) (impl : Rotr32Impl)
    (u : ℕ → Prepared) (st : ℕ → ByteMem) (dInput : ByteMem) (startNonce : BitVec 32)
    (variant : ℤ) {threads thread : ℕ} (hthread : thread < threads) {order : List ℕ}
    (horder : thread ∈ order) (d : PrepareCtx) (temp ctx m : ByteMem) (input : ℕ)
    (hheader : ∀ q < 76, m (input + q) = nonceHeader dInput startNonce thread q) :
    let d' := order.foldl
      (cryptonightExtraGpuPrepare perm impl u st threads dInput startNonce variant) d
    let ctx' := hashProcess perm temp m input 76 ctx
    (∃ key1 key2 : OaesKey,
      oaesKeyImportData true true true ctx' Ctx.state 32 = .ok key1
        ∧ oaesKeyImportData true true true ctx' (Ctx.state + 32) 32 = .ok key2
        ∧ (∀ w < 40, load32 d'.ctxKey1 (thread * 40 * 4 + 4 * w) = load32 key1.expData (4 * w))
        ∧ ∀ w < 40, load32 d'.ctxKey2 (thread * 40 * 4 + 4 * w) = load32 key2.expData (4 * w))
      ∧ (∀ q < 200, d'.ctxState (thread * 50 * 4 + q) = ctx' (Ctx.state + q))
      ∧ loadBlock d'.ctxA (thread * 4 * 4) = loadBlock (xorHalves ctx') Ctx.a
      ∧ loadBlock d'.ctxB (thread * 4 * 4) = loadBlock (xorHalves ctx') Ctx.b
      ∧ (variant > 0 → variant1Init variant 76 m input ctx'
        = some (load64 d'.ctxTweak1_2 (thread * 2 * 4))) := by
  intro d' ctx'
  set p := prepareThread perm impl (u thread) (st thread) dInput startNonce variant thread
  have hd : d'.Holds variant thread p :=
    PrepareCtx.Holds.run perm impl u st dInput startNonce variant hthread order d (Or.inl horder)
  have hstate : ∀ q < 200, p.ctxState q = ctx' (Ctx.state + q) := fun q hq =>
    prepareThread_ctxState perm impl (u thread) (st thread) dInput startNonce variant thread temp
      ctx hheader hq
  obtain ⟨ha, hb⟩ := prepareThread_registers perm impl (u thread) (st thread) dInput startNonce
    variant thread temp ctx hheader
  refine ⟨?_, fun q hq => (hd.ctxState q hq).trans (hstate q hq), ?_, ?_, fun hv => ?_⟩
  · obtain ⟨key1, himport1, hwords1⟩ := exists_oaesKey_eq impl (u thread).ctxKey1 p.ctxState ctx'
      (k := 0) (p := Ctx.state) fun q hq => by rw [Nat.zero_add, hstate q (by omega)]
    obtain ⟨key2, himport2, hwords2⟩ := exists_oaesKey_eq impl (u thread).ctxKey2 p.ctxState ctx'
      (k := 32) (p := Ctx.state + 32) fun q hq => by rw [hstate _ (by omega), Nat.add_assoc]
    refine ⟨key1, key2, himport1, himport2, fun w hw => ?_, fun w hw => ?_⟩
    · rw [← hwords1 w hw]
      refine load32_eq_of_bytes fun i hi => ?_
      rw [Nat.add_assoc]
      exact hd.ctxKey1 _ (by omega)
    · rw [← hwords2 w hw]
      refine load32_eq_of_bytes fun i hi => ?_
      rw [Nat.add_assoc]
      exact hd.ctxKey2 _ (by omega)
  · rw [← ha]
    exact loadBlock_eq_of_bytes fun i hi => by rw [hd.ctxA i hi, Nat.zero_add]
  · rw [← hb]
    exact loadBlock_eq_of_bytes fun i hi => by rw [hd.ctxB i hi, Nat.zero_add]
  · rw [prepareThread_variant1Init perm impl (u thread) (st thread) dInput startNonce variant
      thread temp ctx hv hheader]
    refine congrArg some (load64_eq_of_bytes fun i hi => ?_)
    rw [hd.ctxTweak1_2 hv i hi, Nat.zero_add]

/-- Thread 3 of four, whose nonce has wrapped around. -/
theorem cryptonightExtraGpuPrepare_refines_three :
    let zero : ByteMem := fun _ => 0
    let m := nonceHeader zero 0xfffffffe 3
    let d' := [0, 1, 2, 3].foldl (cryptonightExtraGpuPrepare (fun s => keccakf s 24) .funnelShift
      (fun _ => ⟨zero, zero, zero, zero, zero, zero, zero⟩) (fun _ => zero) 4 zero 0xfffffffe 1)
      ⟨zero, zero, zero, zero, zero, zero⟩
    let ctx' := hashProcess (fun s => keccakf s 24) zero m 0 76 zero
    (∃ key1 key2 : OaesKey,
      oaesKeyImportData true true true ctx' Ctx.state 32 = .ok key1
        ∧ oaesKeyImportData true true true ctx' (Ctx.state + 32) 32 = .ok key2
        ∧ (∀ w < 40, load32 d'.ctxKey1 (3 * 40 * 4 + 4 * w) = load32 key1.expData (4 * w))
        ∧ ∀ w < 40, load32 d'.ctxKey2 (3 * 40 * 4 + 4 * w) = load32 key2.expData (4 * w))
      ∧ (∀ q < 200, d'.ctxState (3 * 50 * 4 + q) = ctx' (Ctx.state + q))
      ∧ loadBlock d'.ctxA (3 * 4 * 4) = loadBlock (xorHalves ctx') Ctx.a
      ∧ loadBlock d'.ctxB (3 * 4 * 4) = loadBlock (xorHalves ctx') Ctx.b
      ∧ ((1 : ℤ) > 0 → variant1Init 1 76 m 0 ctx'
        = some (load64 d'.ctxTweak1_2 (3 * 2 * 4))) := by
  intro zero m
  exact cryptonightExtraGpuPrepare_refines (fun s => keccakf s 24) .funnelShift
    (fun _ => ⟨zero, zero, zero, zero, zero, zero, zero⟩) (fun _ => zero) zero 0xfffffffe 1
    (show 3 < 4 by decide) (by decide) ⟨zero, zero, zero, zero, zero, zero⟩ zero zero m 0
    fun q _ => by rw [Nat.zero_add]

end XmrMiner
