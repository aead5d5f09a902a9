import XmrMiner.Crypto.Blake256
import XmrMiner.Crypto.Groestl
import XmrMiner.Crypto.Jh
import XmrMiner.Crypto.Skein
import XmrMiner.Cuda.HashBatch

/-!
# The four hash functions at the end

The two lowest bits of the last state select one of four hash functions, which the
processor takes from the table `extra_hashes` and the device in a `switch`.  Both hash all
200 bytes of the state.  Their contexts lie on the stack and hold anything beforehand; the
device has its own rotations, and the two others differ in how they count the data.

## Main definitions

* `extraHashes`, `cnExtraHashes` — the four functions, on the processor and on the device.
* `extraDigest` — the four digests.

## Main results

* `extraHashes_eq`, `cnExtraHashes_eq` — **both compute the digests.**
-/

namespace XmrMiner

open ByteMem Blocks

/-! ### The functions -/

/-- What the contexts of the four functions hold beforehand. -/
structure HashStacks where
  /-- That of Blake-256. -/
  blake : BlakeState
  /-- That of Groestl. -/
  groestl : GroestlHashState
  /-- That of JH. -/
  jh : JhState
  /-- That of Skein. -/
  skein : SkeinCtxt

/-- `do_blake_hash`. -/
def doBlakeHash (u : HashStacks) (input : ByteMem) (p len : ℕ) : List (BitVec 8) :=
  blake256Hash u.blake input p len

/-- `do_groestl_hash`. -/
def doGroestlHash (u : HashStacks) (input : ByteMem) (p len : ℕ) : List (BitVec 8) :=
  groestl u.groestl input p (len * 8)

/-- `do_jh_hash`, which has no output if `jh_hash` fails. -/
def doJhHash (u : HashStacks) (input : ByteMem) (p len : ℕ) : List (BitVec 8) :=
  (jhHash u.jh (32 * 8) input p (8 * len)).getD []

/-- `do_skein_hash`. -/
def doSkeinHash (u : HashStacks) (input : ByteMem) (p len : ℕ) : List (BitVec 8) :=
  skeinHash rotL64 u.skein (8 * 32) input p (8 * len)

/-- `extra_hashes`. -/
def extraHashes (u : HashStacks) (k : Fin 4) (input : List (BitVec 8)) : List (BitVec 8) :=
  ![doBlakeHash u, doGroestlHash u, doJhHash u, doSkeinHash u] k (memOf input) 0 input.length

/-- `cn_blake`. -/
def cnBlake (rotr : Rotr32Impl) (u : HashStacks) (input : ByteMem) (p len : ℕ) :
    List (BitVec 8) :=
  blakeHash (rotr32 rotr) u.blake input p len

/-- `cn_groestl`. -/
def cnGroestl (u : HashStacks) (data : ByteMem) (p len : ℕ) : List (BitVec 8) :=
  groestl u.groestl data p (len <<< 3)

/-- `cn_jh`. -/
def cnJh (u : HashStacks) (data : ByteMem) (p len : ℕ) : List (BitVec 8) :=
  ((jhUpdate (jhInit u.jh 256) data p (len <<< 3)).map jhFinal).getD []

/-- `cn_skein_init`. -/
def cnSkeinInit (ctx : SkeinCtxt) (hashBitLen : ℕ) : SkeinCtxt :=
  skeinStartNewType { ctx with hashBitLen := hashBitLen, X := skein512IV256 }
    (skeinT1BlkType skeinBlkTypeMsg)

/-- `cn_skein`. -/
def cnSkein (rotl : Rotl64Impl) (u : HashStacks) (data : ByteMem) (p len : ℕ) :
    List (BitVec 8) :=
  skein512Final (rotl64_1 rotl)
    (skeinUpdate (rotl64_1 rotl) (cnSkeinInit u.skein 256) data p (len <<< 3))

/-- The `switch` of `cryptonight_extra_gpu_final`. -/
def cnExtraHashes (rotl : Rotl64Impl) (rotr : Rotr32Impl) (u : HashStacks) (k : Fin 4)
    (input : List (BitVec 8)) : List (BitVec 8) :=
  ![cnBlake rotr u, cnGroestl u, cnJh u, cnSkein rotl u] k (memOf input) 0 input.length

/-- The digests. -/
def extraDigest (k : Fin 4) (msg : List (BitVec 8)) : List (BitVec 8) :=
  match k with
  | 0 => blakeDigest blakeRot msg
  | 1 => groestlDigest msg 0 0
  | 2 => jhDigest 256 jh256H0 msg 0 0
  | 3 => skeinDigest rotL64 256 (skeinIV rotL64 256) msg false

/-! ### The rotations of the device -/

theorem rotr32_eq_blakeRot (rotr : Rotr32Impl) (x : BitVec 32) {n : ℕ} (hn : n < 32) :
    rotr32 rotr x n = blakeRot x n := by
  cases rotr with
  | shifts => exact BitVec.or_comm _ _
  | funnelShift =>
    refine BitVec.eq_of_getLsbD_eq fun i hi => ?_
    have hmod : n % 32 = n := Nat.mod_eq_of_lt hn
    simp only [rotr32, funnelshiftR, blakeRot, hmod, BitVec.getLsbD_setWidth,
      BitVec.getLsbD_ushiftRight, BitVec.getLsbD_append, BitVec.getLsbD_or,
      BitVec.getLsbD_shiftLeft]
    grind

/-- Blake-256 only rotates by less than the width of a word. -/
theorem blakeG_congr {rot rot' : BitVec 32 → ℕ → BitVec 32}
    (h : ∀ x, ∀ n < 32, rot x n = rot' x n) : blakeG rot = blakeG rot' := by
  funext m i v a b c d e
  simp only [blakeG, h _ 16 (by decide), h _ 12 (by decide), h _ 8 (by decide), h _ 7 (by decide)]

theorem blakeDigest_congr {rot rot' : BitVec 32 → ℕ → BitVec 32}
    (h : ∀ x, ∀ n < 32, rot x n = rot' x n) : blakeDigest rot = blakeDigest rot' := by
  have hround : blakeRound rot = blakeRound rot' := by
    funext m v i
    rw [blakeRound, blakeRound, blakeG_congr h]
  have hF : blakeF rot = blakeF rot' := by
    funext hs counter block
    rw [blakeF, blakeF, blakeCompress, blakeCompress, hround]
  funext msg
  rw [blakeDigest, blakeDigest, hF]

/-- So does Skein. -/
theorem threefishMix_congr {rot rot' : BitVec 64 → ℕ → BitVec 64}
    (h : ∀ x, ∀ n < 64, rot x n = rot' x n) {R : Fin 4 → ℕ} (hR : ∀ i, R i < 64) :
    threefishMix rot R = threefishMix rot' R := by
  funext X
  have h0 := h X[1] (R 0) (hR 0)
  have h1 := h X[3] (R 1) (hR 1)
  have h2 := h X[5] (R 2) (hR 2)
  have h3 := h X[7] (R 3) (hR 3)
  rw [threefishMix, threefishMix, h0, h1, h2, h3]

theorem skeinR512_lt : ∀ e i, skeinR512 e i < 64 := by
  decide

theorem skeinUbi_congr {rot rot' : BitVec 64 → ℕ → BitVec 64}
    (h : ∀ x, ∀ n < 64, rot x n = rot' x n) : skeinUbi rot = skeinUbi rot' := by
  have hround : threefishRound rot = threefishRound rot' := by
    funext ks ts X d
    rw [threefishRound, threefishRound,
      threefishMix_congr h (skeinR512_lt (Fin.ofNat 8 d))]
  funext X T0 T1 b
  rw [skeinUbi, skeinUbi, threefish, threefish, hround]

theorem skeinDigest_congr {rot rot' : BitVec 64 → ℕ → BitVec 64}
    (h : ∀ x, ∀ n < 64, rot x n = rot' x n) : skeinDigest rot = skeinDigest rot' := by
  have hmessage : skeinMessage rot = skeinMessage rot' := by
    funext iv msg pad
    rw [skeinMessage, skeinMessage, skeinUbi_congr h]
  have hout : skeinOut rot = skeinOut rot' := by
    funext X i
    rw [skeinOut, skeinOut, skeinUbi_congr h]
  funext hashBitLen iv msg pad
  rw [skeinDigest, skeinDigest, hmessage, hout]

/-! ### The digests -/

section Digests

variable (u : HashStacks) {msg : List (BitVec 8)}

/-- Without bits of a last byte it does not matter what this is. -/
theorem jhDigest_zero (hashbitlen : ℕ) (h0 msg : List (BitVec 8)) (last : BitVec 8) :
    jhDigest hashbitlen h0 msg 0 last = jhDigest hashbitlen h0 msg 0 0 := by
  rw [jhDigest, jhDigest, jhPad, jhPad, jhMarker_zero, jhMarker_zero]

theorem groestl_memOf (h : msg.length < 2 ^ 31) :
    groestl u.groestl (memOf msg) 0 (8 * msg.length) = groestlDigest msg 0 0 := by
  have hint : (BitVec.ofNat 32 msg.length).toInt.toNat = msg.length := by
    have hnat : (BitVec.ofNat 32 msg.length).toNat = msg.length := by
      rw [BitVec.toNat_ofNat]
      omega
    rw [BitVec.toInt_eq_toNat_of_lt (by omega), hnat, Int.toNat_natCast]
  rw [groestl_eq, hint, bytes_memOf]

theorem jhHash_memOf (h : msg.length < 2 ^ 31) :
    jhHash u.jh 256 (memOf msg) 0 (8 * msg.length) = some (jhDigest 256 jh256H0 msg 0 0) := by
  have hnat : (BitVec.ofNat 64 (8 * msg.length)).toNat = 8 * msg.length := by
    rw [BitVec.toNat_ofNat]
    omega
  have hhash := jhHash_eq u.jh 256 (memOf msg) 0 (BitVec.ofNat 64 (8 * msg.length))
    (Or.inl (by omega))
  rw [hnat, Nat.mul_div_cancel_left _ (by decide), Nat.mul_mod_right, bytes_memOf,
    jhH0, Option.map_some, jhDigest_zero] at hhash
  exact hhash

theorem skeinMsg_memOf (msg : List (BitVec 8)) : skeinMsg (memOf msg) 0 (8 * msg.length) = msg := by
  rw [skeinMsg, Nat.mul_div_cancel_left _ (by decide), Nat.mul_mod_right, if_pos rfl, bytes_memOf,
    List.append_nil]

theorem blakeHash_memOf (rot : BitVec 32 → ℕ → BitVec 32) (h : msg.length < 2 ^ 31) :
    blakeHash rot u.blake (memOf msg) 0 msg.length = blakeDigest rot msg := by
  rw [blakeHash_eq, Nat.mod_eq_of_lt (by omega), bytes_memOf]

/-- **The processor computes the digests.** -/
theorem extraHashes_eq (k : Fin 4) (h : msg.length < 2 ^ 31) :
    extraHashes u k msg = extraDigest k msg := by
  have hblake : doBlakeHash u (memOf msg) 0 msg.length = blakeDigest blakeRot msg :=
    blakeHash_memOf u blakeRot h
  have hgroestl : doGroestlHash u (memOf msg) 0 msg.length = groestlDigest msg 0 0 := by
    rw [doGroestlHash, Nat.mul_comm]
    exact groestl_memOf u h
  have hjh : doJhHash u (memOf msg) 0 msg.length = jhDigest 256 jh256H0 msg 0 0 := by
    rw [doJhHash, jhHash_memOf u h, Option.getD_some]
  have hskein : doSkeinHash u (memOf msg) 0 msg.length
      = skeinDigest rotL64 256 (skeinIV rotL64 256) msg false := by
    rw [doSkeinHash, skeinHash_eq, skeinMsg_memOf, Nat.mul_mod_right]
    rfl
  fin_cases k
  exacts [hblake, hgroestl, hjh, hskein]

theorem rotl64_1_eq_rotL64 (rotl : Rotl64Impl) (x : BitVec 64) {n : ℕ} (hn : n < 64) :
    rotl64_1 rotl x n = rotL64 x n :=
  rotl64_1_eq rotl x hn

/-- The initialisation of the device is the one for 256 bits. -/
theorem cnSkeinInit_eq (rot : BitVec 64 → ℕ → BitVec 64) (ctx : SkeinCtxt) :
    cnSkeinInit ctx 256 = skein512Init rot ctx 256 := rfl

theorem cnJh_eq (h : msg.length < 2 ^ 31) :
    cnJh u (memOf msg) 0 msg.length = jhDigest 256 jh256H0 msg 0 0 := by
  have hshift : msg.length <<< 3 = 8 * msg.length := by rw [Nat.shiftLeft_eq, Nat.mul_comm]
  have hhash := jhHash_memOf u h
  rw [jhHash, if_pos (by decide)] at hhash
  rw [cnJh, hshift, hhash, Option.getD_some]

/-- **The device computes the digests**, on every architecture. -/
theorem cnExtraHashes_eq (rotl : Rotl64Impl) (rotr : Rotr32Impl) (k : Fin 4)
    (h : msg.length < 2 ^ 31) : cnExtraHashes rotl rotr u k msg = extraDigest k msg := by
  have hshift : msg.length <<< 3 = 8 * msg.length := by rw [Nat.shiftLeft_eq, Nat.mul_comm]
  have hblake : cnBlake rotr u (memOf msg) 0 msg.length = blakeDigest blakeRot msg := by
    rw [cnBlake, blakeHash_memOf u _ h,
      blakeDigest_congr fun x n hn => rotr32_eq_blakeRot rotr x hn]
  have hgroestl : cnGroestl u (memOf msg) 0 msg.length = groestlDigest msg 0 0 := by
    rw [cnGroestl, hshift, groestl_memOf u h]
  have hskein : cnSkein rotl u (memOf msg) 0 msg.length
      = skeinDigest rotL64 256 (skeinIV rotL64 256) msg false := by
    have hhash : skeinHash (rotl64_1 rotl) u.skein 256 (memOf msg) 0 (8 * msg.length)
        = skeinDigest (rotl64_1 rotl) 256 (skein512Init (rotl64_1 rotl) u.skein 256).X
          (skeinMsg (memOf msg) 0 (8 * msg.length)) (8 * msg.length % 8 != 0) :=
      skeinHash_eq_digest u.skein 256 (memOf msg) 0 (8 * msg.length)
    have hiv : (skein512Init (rotl64_1 rotl) u.skein 256).X = skeinIV rotL64 256 :=
      skein512IV_eq.2.2.1
    rw [skeinHash, ← cnSkeinInit_eq, skeinMsg_memOf, Nat.mul_mod_right, cnSkeinInit_eq, hiv,
      skeinDigest_congr fun x n hn => rotl64_1_eq_rotL64 rotl x hn] at hhash
    rw [cnSkein, hshift, cnSkeinInit_eq (rotl64_1 rotl)]
    exact hhash
  fin_cases k
  exacts [hblake, hgroestl, cnJh_eq u h, hskein]

end Digests

/-! ### The whole hash -/

/-- The hash with its permutation and its four functions. -/
def cryptonightDigest (variant : ℕ) (msg : List (BitVec 8)) : List (BitVec 8) :=
  cryptonight (fun s => keccakf s 24) extraDigest variant msg

/-- Only the digests of states matter. -/
theorem cryptonight_congr {extra extra' : Fin 4 → List (BitVec 8) → List (BitVec 8)}
    (h : ∀ k msg, msg.length < 2 ^ 31 → extra k msg = extra' k msg)
    (perm : KeccakState → KeccakState) (variant : ℕ) (msg : List (BitVec 8)) :
    cryptonight perm extra variant msg = cryptonight perm extra' variant msg := by
  have hfinal (s : KeccakState) : finalHash extra s = finalHash extra' s :=
    h _ _ (by rw [length_bytes]; decide)
  rw [cryptonight, cryptonight, slowHash, slowHash, hfinal]

/-- **What `cryptonight_hash` computes**, in a context and with stacks that hold anything, or
how it ends without an output. -/
theorem cryptonightHash_eq_digest (u : HashStacks) (malloc : Bool) (al : HashAllocs)
    (temp garbage m : ByteMem) (input : ℕ) {len : ℕ} (hlen : len < 2 ^ 31) (variant : ℤ) :
    cryptonightHash (fun s => keccakf s 24) (extraHashes u) malloc al temp garbage m input len
        variant
      = if malloc then
          if variant > 0 ∧ len < 43 then .error .tooShort
          else if al.Succeed then .ok (cryptonightDigest variant.toNat (bytes m input len))
          else .error .nullKey
        else .error .nullCtx := by
  cases malloc with
  | false => rfl
  | true =>
    rw [cryptonightHash, if_pos rfl, if_pos rfl, cryptonightHashCtx_eq _ _ _ _ _ _ hlen,
      cryptonightDigest, cryptonight_congr fun k _ h => extraHashes_eq u k h]

/-- A header, for the first variant. -/
theorem cryptonightHash_eq_digest_header :
    let st : ByteMem := fun q => BitVec.ofNat 8 q
    let u : HashStacks := ⟨⟨blake256H, #v[1, 2, 3, 4], 5, 6, 7, true, st⟩,
      ⟨Vector.replicate 16 1, 2, 3, st, 4, 5⟩, ⟨1, 2, 3, Vector.replicate 16 4, st⟩,
      ⟨1, 2, 3, 4, skein512IV512, st⟩⟩
    cryptonightHash (fun s => keccakf s 24) (extraHashes u) true
        ⟨true, (true, true, true), (true, true, true)⟩ st st st 0 76 1
      = .ok (cryptonightDigest 1 (bytes st 0 76)) := by
  intro st u
  rw [cryptonightHash_eq_digest u true _ st st st 0 (by decide) 1, if_pos rfl,
    if_neg (by decide), if_pos ⟨rfl, rfl, rfl⟩]
  rfl

/-- What a thread of the device compares with the target. -/
theorem Device.hash_eq_digest (dev : Device) (u : HashStacks) (hthreads : 0 < dev.threads)
    (hf : dev.bfactor ≤ 10) (hfits : dev.Fits) {r : BatchRun} (hr : r.Fair dev) (dInput : ByteMem)
    (startNonce : BitVec 32) (variant : ℕ) {thread : ℕ} (hthread : thread < dev.throughput) :
    dev.hash (cnExtraHashes dev.rotl dev.rotr u) r dInput startNonce variant thread
      = some (digestWords (cryptonightDigest variant
          (bytes (nonceHeader dInput startNonce thread) 0 76))) := by
  rw [Device.hash_eq dev _ hthreads hf hfits hr dInput startNonce variant hthread,
    cryptonightDigest, cryptonight_congr fun k _ h => cnExtraHashes_eq u dev.rotl dev.rotr k h]

/-- **Every thread computes what `cryptonight_hash` computes** for the header with its nonce,
however the batch goes. -/
theorem Device.hash_eq_cryptonightHash (dev : Device) (u u' : HashStacks)
    (hthreads : 0 < dev.threads) (hf : dev.bfactor ≤ 10) (hfits : dev.Fits) {r : BatchRun}
    (hr : r.Fair dev) (dInput : ByteMem) (startNonce : BitVec 32) (variant : ℕ) {thread : ℕ}
    (hthread : thread < dev.throughput) (malloc : Bool) (al : HashAllocs) (temp garbage : ByteMem)
    {out : List (BitVec 8)}
    (hout : cryptonightHash (fun s => keccakf s 24) (extraHashes u') malloc al temp garbage
      (nonceHeader dInput startNonce thread) 0 76 variant = .ok out) :
    dev.hash (cnExtraHashes dev.rotl dev.rotr u) r dInput startNonce variant thread
      = some (digestWords out) := by
  rw [cryptonightHash_eq_digest u' malloc al temp garbage _ 0 (by decide)] at hout
  cases malloc with
  | false => cases hout
  | true =>
    rw [if_pos rfl, if_neg (by omega)] at hout
    split at hout
    · obtain rfl := Except.ok.inj hout
      exact dev.hash_eq_digest u hthreads hf hfits hr dInput startNonce variant hthread
    · cases hout

/-- A thread of the second block of two. -/
theorem Device.hash_eq_cryptonightHash_of_lockstep :
    let dev : Device := ⟨.funnelShift, .shifts, .shfl, .int, 2, 2, 6⟩
    let st : ByteMem := fun q => BitVec.ofNat 8 q
    let u : HashStacks := ⟨⟨blake256H, #v[1, 2, 3, 4], 5, 6, 7, true, st⟩,
      ⟨Vector.replicate 16 1, 2, 3, st, 4, 5⟩, ⟨1, 2, 3, Vector.replicate 16 4, st⟩,
      ⟨1, 2, 3, 4, skein512IV512, st⟩⟩
    ∃ out, cryptonightHash (fun s => keccakf s 24) (extraHashes u) true
        ⟨true, (true, true, true), (true, true, true)⟩ st st (nonceHeader st 7 3) 0 76 (1 : ℕ)
          = .ok out ∧
      dev.hash (cnExtraHashes dev.rotl dev.rotr u) (lockstepRun dev) st 7 1 3
        = some (digestWords out) := by
  intro dev st u
  have hout : cryptonightHash (fun s => keccakf s 24) (extraHashes u) true
      ⟨true, (true, true, true), (true, true, true)⟩ st st (nonceHeader st 7 3) 0 76 (1 : ℕ)
        = .ok (cryptonightDigest 1 (bytes (nonceHeader st 7 3) 0 76)) := by
    rw [cryptonightHash_eq_digest u true _ st st _ 0 (by decide), if_pos rfl,
      if_neg (by decide), if_pos ⟨rfl, rfl, rfl⟩]
    rfl
  exact ⟨_, hout, dev.hash_eq_cryptonightHash u u (by decide) (by decide) (by decide)
    (lockstepRun_fair dev) st 7 1 (by decide) true _ st st hout⟩

end XmrMiner
