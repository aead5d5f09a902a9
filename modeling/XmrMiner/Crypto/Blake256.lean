import XmrMiner.Lib.Blocks

/-!
# Blake-256

`blake256_update` compresses the full blocks of its data and keeps the rest in a buffer,
and `blake256_final_h` brings in the padding through calls of `blake256_update`.  The
counter of the message bits, which every compression adds a block to beforehand, it sets
back by what it is about to put in, so that it stands at the length of the message when
the last block with a bit of the message is compressed; a block without any is compressed
with `nullt` set.

The functions of the device are the same ones, with the rotation of its architecture.

## Main definitions

* `blakeCompress`, `blakeUpdate`, `blakeFinalH`, `blakeHash` — the functions.
* `blakePad`, `blakeCounter`, `blakeDigest` — the padded message, the counter of each of
  its blocks, and the fold over them.

## Main results

* `BlakeState.Absorbed.update` — **when a call of `blake256_update` appends its data.**
* `blakeHash_eq` — **the functions compute the fold**, for a message of any length.
-/

namespace XmrMiner

open ByteMem Blocks

/-! ### The functions -/

/-- `U8TO32`. -/
def u8to32 (m : ByteMem) (p : ℕ) : BitVec 32 := m p ++ m (p + 1) ++ m (p + 2) ++ m (p + 3)

/-- `U32TO8`. -/
def u32to8 (v : BitVec 32) : List (BitVec 8) :=
  [v.extractLsb' 24 8, v.extractLsb' 16 8, v.extractLsb' 8 8, v.extractLsb' 0 8]

/-- `sigma`, and `d_blake_sigma`. -/
def blakeSigma : List (List (Fin 16)) := [
  [0, 1, 2, 3, 4, 5, 6, 7, 8, 9, 10, 11, 12, 13, 14, 15],
  [14, 10, 4, 8, 9, 15, 13, 6, 1, 12, 0, 2, 11, 7, 5, 3],
  [11, 8, 12, 0, 5, 2, 15, 13, 10, 14, 3, 6, 7, 1, 9, 4],
  [7, 9, 3, 1, 13, 12, 11, 14, 2, 6, 5, 10, 4, 0, 15, 8],
  [9, 0, 5, 7, 2, 4, 10, 15, 14, 1, 11, 12, 6, 8, 3, 13],
  [2, 12, 6, 10, 0, 11, 8, 3, 4, 13, 7, 5, 15, 14, 1, 9],
  [12, 5, 1, 15, 14, 13, 4, 10, 0, 7, 6, 3, 9, 2, 8, 11],
  [13, 11, 7, 14, 12, 1, 3, 9, 5, 0, 15, 4, 8, 6, 2, 10],
  [6, 15, 14, 9, 11, 3, 0, 8, 12, 2, 13, 7, 1, 4, 10, 5],
  [10, 2, 8, 4, 7, 6, 1, 5, 15, 11, 9, 14, 3, 12, 13, 0],
  [0, 1, 2, 3, 4, 5, 6, 7, 8, 9, 10, 11, 12, 13, 14, 15],
  [14, 10, 4, 8, 9, 15, 13, 6, 1, 12, 0, 2, 11, 7, 5, 3],
  [11, 8, 12, 0, 5, 2, 15, 13, 10, 14, 3, 6, 7, 1, 9, 4],
  [7, 9, 3, 1, 13, 12, 11, 14, 2, 6, 5, 10, 4, 0, 15, 8]]

/-- `cst`, and `d_blake_cst`. -/
def blakeCst : Vector (BitVec 32) 16 := #v[
  0x243F6A88, 0x85A308D3, 0x13198A2E, 0x03707344,
  0xA4093822, 0x299F31D0, 0x082EFA98, 0xEC4E6C89,
  0x452821E6, 0x38D01377, 0xBE5466CF, 0x34E90C6C,
  0xC0AC29B7, 0xC97C50DD, 0x3F84D5B5, 0xB5470917]

/-- `state`, and `blake_state`. -/
structure BlakeState where
  /-- The chaining value. -/
  h : Vector (BitVec 32) 8
  /-- The salt. -/
  s : Vector (BitVec 32) 4
  /-- The low word of the counter, `t[0]`. -/
  t0 : BitVec 32
  /-- The high word, `t[1]`. -/
  t1 : BitVec 32
  /-- The number of bits in the buffer. -/
  buflen : ℕ
  /-- Whether the counter is left out. -/
  nullt : Bool
  /-- The buffer. -/
  buf : ByteMem

section Functions

-- the rotation of a word to the right: `ROT`, or `BLAKE_ROT`
variable (rot : BitVec 32 → ℕ → BitVec 32)

/-- `G`, in round `i`. -/
def blakeG (m : Vector (BitVec 32) 16) (i : ℕ) (v : Vector (BitVec 32) 16) (a b c d : Fin 16)
    (e : ℕ) : Vector (BitVec 32) 16 :=
  let sigma j := (blakeSigma.getD i []).getD j 0
  let v := v.set a (v[a] + ((m[sigma e] ^^^ blakeCst[sigma (e + 1)]) + v[b]))
  let v := v.set d (rot (v[d] ^^^ v[a]) 16)
  let v := v.set c (v[c] + v[d])
  let v := v.set b (rot (v[b] ^^^ v[c]) 12)
  let v := v.set a (v[a] + ((m[sigma (e + 1)] ^^^ blakeCst[sigma e]) + v[b]))
  let v := v.set d (rot (v[d] ^^^ v[a]) 8)
  let v := v.set c (v[c] + v[d])
  v.set b (rot (v[b] ^^^ v[c]) 7)

/-- The body of the loop over the rounds. -/
def blakeRound (m v : Vector (BitVec 32) 16) (i : ℕ) : Vector (BitVec 32) 16 :=
  let v := blakeG rot m i v 0 4 8 12 0
  let v := blakeG rot m i v 1 5 9 13 2
  let v := blakeG rot m i v 2 6 10 14 4
  let v := blakeG rot m i v 3 7 11 15 6
  let v := blakeG rot m i v 3 4 9 14 14
  let v := blakeG rot m i v 2 7 8 13 12
  let v := blakeG rot m i v 0 5 10 15 8
  blakeG rot m i v 1 6 11 12 10

/-- `v` before the rounds. -/
def blakeStart (S : BlakeState) : Vector (BitVec 32) 16 :=
  let v : Vector (BitVec 32) 16 := S.h ++ #v[
    S.s[0] ^^^ 0x243F6A88, S.s[1] ^^^ 0x85A308D3, S.s[2] ^^^ 0x13198A2E, S.s[3] ^^^ 0x03707344,
    0xA4093822, 0x299F31D0, 0x082EFA98, 0xEC4E6C89]
  if S.nullt = false then
    let v := v.set 12 (v[12] ^^^ S.t0)
    let v := v.set 13 (v[13] ^^^ S.t0)
    let v := v.set 14 (v[14] ^^^ S.t1)
    v.set 15 (v[15] ^^^ S.t1)
  else v

/-- `blake256_compress`, and `cn_blake_compress`, of the block at `p`. -/
def blakeCompress (S : BlakeState) (block : ByteMem) (p : ℕ) : BlakeState :=
  let m := Vector.ofFn fun i : Fin 16 => u8to32 block (p + i * 4)
  let v := (List.range 14).foldl (blakeRound rot m) (blakeStart S)
  let h := Vector.ofFn fun i : Fin 8 => S.h[i] ^^^ v[(i : ℕ)] ^^^ v[(i : ℕ) + 8]
  { S with h := Vector.ofFn fun i : Fin 8 => h[i] ^^^ S.s[(i : ℕ) % 4] }

/-- Count the bits of a block. -/
def BlakeState.count (S : BlakeState) : BlakeState :=
  { S with
    t0 := S.t0 + 512
    t1 := if S.t0 + 512 = 0 then S.t1 + 1 else S.t1 }

/-- The loop of `blake256_update`. -/
def blakeBlocks (data : ByteMem) (S : BlakeState) (p datalen : ℕ) : BlakeState × ℕ × ℕ :=
  if datalen ≥ 512 then
    blakeBlocks data (blakeCompress rot S.count data p) (p + 64) (datalen - 512)
  else (S, p, datalen)
termination_by datalen
decreasing_by omega

/-- The end of `blake256_update`: the rest goes to the buffer. -/
def blakeKeep (data : ByteMem) (left : ℕ) (s : BlakeState × ℕ × ℕ) : BlakeState :=
  if s.2.2 > 0 then
    { s.1 with
      buf := storeBytes s.1.buf left (bytes data s.2.1 (s.2.2 >>> 3))
      buflen := (left <<< 3) + s.2.2 }
  else { s.1 with buflen := 0 }

/-- `blake256_update`, and `cn_blake_update`: `datalen` is a number of bits. -/
def blakeUpdate (S : BlakeState) (data : ByteMem) (p datalen : ℕ) : BlakeState :=
  let left := S.buflen >>> 3
  let fill := 64 - left
  if left ≠ 0 ∧ (datalen >>> 3) &&& 0x3F ≥ fill then
    let S := { S with buf := storeBytes S.buf left (bytes data p fill) }
    let S := blakeCompress rot S.count S.buf 0
    blakeKeep data 0 (blakeBlocks rot data S (p + fill) (datalen - (fill <<< 3)))
  else blakeKeep data left (blakeBlocks rot data S p datalen)

/-- `S->t[0] -= n`. -/
def BlakeState.back (S : BlakeState) (n : ℕ) : BlakeState :=
  { S with t0 := S.t0 - BitVec.ofNat 32 n }

/-- `padding`. -/
def blakePadding : ByteMem := memOf (0x80 :: List.replicate 63 0)

/-- `msglen`. -/
def blakeMsglen (S : BlakeState) : List (BitVec 8) :=
  let buflen := BitVec.ofNat 32 S.buflen
  let lo := S.t0 + buflen
  let hi := if lo < buflen then S.t1 + 1 else S.t1
  u32to8 hi ++ u32to8 lo

/-- The padding in front of the length. -/
def blakePadded (pa pb : BitVec 8) (S : BlakeState) : BlakeState :=
  if S.buflen = 440 then blakeUpdate rot (S.back 8) (memOf [pa]) 0 8
  else
    let S :=
      if S.buflen < 440 then
        let S' := if S.buflen = 0 then { S with nullt := true } else S
        blakeUpdate rot (S'.back (440 - S.buflen)) blakePadding 0 (440 - S.buflen)
      else
        let S := blakeUpdate rot (S.back (512 - S.buflen)) blakePadding 0 (512 - S.buflen)
        let S := blakeUpdate rot (S.back 440) blakePadding 1 440
        { S with nullt := true }
    (blakeUpdate rot S (memOf [pb]) 0 8).back 8

/-- `blake256_final_h`, and `cn_blake_final`, whose two bytes are those of Blake-256. -/
def blakeFinalH (pa pb : BitVec 8) (S : BlakeState) : List (BitVec 8) :=
  let msglen := blakeMsglen S
  let S := blakePadded rot pa pb S
  let S := blakeUpdate rot (S.back 64) (memOf msglen) 0 64
  S.h.toList.flatMap u32to8

/-- The initial chaining value. -/
def blake256H : Vector (BitVec 32) 8 := #v[
  0x6A09E667, 0xBB67AE85, 0x3C6EF372, 0xA54FF53A, 0x510E527F, 0x9B05688C, 0x1F83D9AB, 0x5BE0CD19]

/-- `blake256_init`, which leaves the buffer as it is. -/
def blake256Init (S : BlakeState) : BlakeState :=
  { S with
    h := blake256H
    s := #v[0, 0, 0, 0]
    t0 := 0
    t1 := 0
    buflen := 0
    nullt := false }

/-- `blake256_hash`, and `cn_blake`, whose state is on the stack and holds `garbage`. -/
def blakeHash (garbage : BlakeState) (input : ByteMem) (p inlen : ℕ) : List (BitVec 8) :=
  let S := blake256Init garbage
  let S := blakeUpdate rot S input p (inlen * 8 % 2 ^ 64)
  blakeFinalH rot 0x81 0x01 S

end Functions

/-- `ROT`. -/
def blakeRot (x : BitVec 32) (n : ℕ) : BitVec 32 := (x <<< (32 - n)) ||| (x >>> n)

/-- `blake256_hash`. -/
def blake256Hash (garbage : BlakeState) (input : ByteMem) (p inlen : ℕ) : List (BitVec 8) :=
  blakeHash blakeRot garbage input p inlen

/-! ### The padded message -/

/-- What is put behind a message of `len` bytes, in front of the length: a one bit, zeros
and a one bit, which fall into one byte if it is the only one. -/
def blakePadEnd (len : ℕ) : List (BitVec 8) :=
  if len % 64 = 55 then [0x81] else 0x80 :: (List.replicate ((118 - len % 64) % 64) 0 ++ [0x01])

/-- What is put behind a message of `len` bytes. -/
def blakePad (len : ℕ) : List (BitVec 8) :=
  blakePadEnd len ++ bigEndian64 (BitVec.ofNat 64 (8 * len))

/-- The counter of block `i`: the bits of the message up to its end, and zero if it has
none of them. -/
def blakeCounter (len i : ℕ) : BitVec 64 :=
  if 64 * i < len then BitVec.ofNat 64 (8 * min (64 * (i + 1)) len) else 0

section Digest

variable (rot : BitVec 32 → ℕ → BitVec 32)

/-- The chaining value after one more block, without a salt. -/
def blakeF (h : Vector (BitVec 32) 8) (counter : BitVec 64) (block : List (BitVec 8)) :
    Vector (BitVec 32) 8 :=
  let S : BlakeState := {
    h := h
    s := #v[0, 0, 0, 0]
    t0 := counter.extractLsb' 0 32
    t1 := counter.extractLsb' 32 32
    buflen := 0
    nullt := false
    buf := memOf [] }
  (blakeCompress rot S (memOf block) 0).h

/-- The digest of a message. -/
def blakeDigest (msg : List (BitVec 8)) : List (BitVec 8) :=
  let h := foldNumbered (fun h i b => blakeF rot h (blakeCounter msg.length i) b) blake256H
    (blocks 64 (msg ++ blakePad msg.length))
  h.toList.flatMap u32to8

end Digest

/-! ### One block -/

theorem u8to32_congr {m m' : ByteMem} {p p' : ℕ} (h : ∀ i < 4, m' (p' + i) = m (p + i)) :
    u8to32 m' p' = u8to32 m p := by
  have h0 : m' p' = m p := h 0 (by omega)
  simp only [u8to32, h0, h 1 (by omega), h 2 (by omega), h 3 (by omega)]

/-- The counter of the next compression. -/
def BlakeState.counter (S : BlakeState) : BitVec 64 := if S.nullt then 0 else S.t1 ++ S.t0

section Block

variable (rot : BitVec 32 → ℕ → BitVec 32)

/-- Without a counter the words are those for a counter of zero. -/
theorem blakeStart_eq (S : BlakeState) : blakeStart S = blakeStart {
    h := S.h
    s := S.s
    t0 := S.counter.extractLsb' 0 32
    t1 := S.counter.extractLsb' 32 32
    buflen := 0
    nullt := false
    buf := memOf [] } := by
  cases hnullt : S.nullt with
  | false =>
    have hlo : (S.t1 ++ S.t0).extractLsb' 0 32 = S.t0 := BitVec.extractLsb'_append_eq_right
    have hhi : (S.t1 ++ S.t0).extractLsb' 32 32 = S.t1 := BitVec.extractLsb'_append_eq_left
    simp only [blakeStart, BlakeState.counter, hnullt, Bool.false_eq_true, if_false, hlo, hhi]
  | true =>
    simp only [blakeStart, BlakeState.counter, hnullt, if_true]
    simp

/-- **What a compression does**: it only changes the chaining value. -/
theorem blakeCompress_eq {S : BlakeState} (hs : S.s = #v[0, 0, 0, 0]) (m : ByteMem) (p : ℕ) :
    blakeCompress rot S m p = { S with h := blakeF rot S.h S.counter (bytes m p 64) } := by
  have hwords : (Vector.ofFn fun i : Fin 16 => u8to32 (memOf (bytes m p 64)) (0 + i * 4))
      = Vector.ofFn fun i : Fin 16 => u8to32 m (p + i * 4) := by
    refine congrArg Vector.ofFn (funext fun i => u8to32_congr fun j hj => ?_)
    rw [memOf_bytes m p (by omega)]
    exact congrArg m (by omega)
  rw [blakeF, blakeCompress, blakeCompress, blakeStart_eq S]
  simp only [hwords, hs]

end Block

/-! ### The counter -/

/-- Counting a block is an addition of 64 bits, for a counter of full blocks. -/
theorem BlakeState.count_append (S : BlakeState) (h : S.t0.toNat % 512 = 0) :
    S.count.t1 ++ S.count.t0 = (S.t1 ++ S.t0 : BitVec 64) + 512 := by
  have hlt := S.t0.isLt
  have hcount := append_add_carry S.t1 S.t0 (n := 512) (by decide) (by omega)
  simp only [BlakeState.count]
  exact hcount

@[simp] theorem BlakeState.count_h (S : BlakeState) : S.count.h = S.h := by rw [BlakeState.count]

@[simp] theorem BlakeState.count_s (S : BlakeState) : S.count.s = S.s := by rw [BlakeState.count]

@[simp] theorem BlakeState.count_nullt (S : BlakeState) : S.count.nullt = S.nullt := by
  rw [BlakeState.count]

section Absorb

variable (rot : BitVec 32 → ℕ → BitVec 32)

/-- The chaining value after `msg`, which is a number of full blocks. -/
def blakeChain (msg : List (BitVec 8)) : Vector (BitVec 32) 8 :=
  foldNumbered (fun h i b => blakeF rot h (BitVec.ofNat 64 (512 * (i + 1))) b) blake256H
    (blocks 64 msg)

/-- The state when the full blocks of a message have been compressed. -/
structure BlakeState.Chained (S : BlakeState) (msg : List (BitVec 8)) : Prop where
  /-- The chaining value. -/
  h : S.h = blakeChain rot msg
  /-- There is no salt. -/
  s : S.s = #v[0, 0, 0, 0]
  /-- The counter stands at the bits of these blocks. -/
  t : S.t1 ++ S.t0 = BitVec.ofNat 64 (512 * (msg.length / 64))
  /-- The counter is not left out. -/
  nullt : S.nullt = false

/-- The state when a message has been put in. -/
structure BlakeState.Absorbed (S : BlakeState) (msg : List (BitVec 8)) : Prop
    extends S.Chained rot msg where
  /-- The bits of the rest are counted, -/
  buflen : S.buflen = 8 * (msg.length % 64)
  /-- and it is in the buffer. -/
  buf : bytes S.buf 0 (msg.length % 64) = rest 64 msg

variable {rot} {S : BlakeState} {msg : List (BitVec 8)}

theorem blakeChain_concat (hmsg : 64 ∣ msg.length) {b : List (BitVec 8)} (hb : b.length = 64) :
    blakeChain rot (msg ++ b)
      = blakeF rot (blakeChain rot msg) (BitVec.ofNat 64 (512 * (msg.length / 64 + 1))) b := by
  rw [blakeChain, blocks_append (by decide) hmsg, blocks_self (by decide) hb, foldNumbered_concat,
    length_blocks]
  rfl

theorem BlakeState.Chained.t0_mod (h : S.Chained rot msg) : S.t0.toNat % 512 = 0 := by
  have ht := congrArg BitVec.toNat h.t
  have := S.t0.isLt
  rw [toNat_append_eq, BitVec.toNat_ofNat] at ht
  omega

/-- The counter when the next block is compressed. -/
theorem BlakeState.Chained.count (h : S.Chained rot msg) :
    S.count.counter = BitVec.ofNat 64 (512 * (msg.length / 64 + 1)) := by
  rw [BlakeState.counter, S.count_nullt, h.nullt, if_neg Bool.false_ne_true,
    S.count_append h.t0_mod, h.t, Nat.mul_succ, BitVec.ofNat_add]
  rfl

/-- **A step of the loop** takes one more block. -/
theorem BlakeState.Chained.step (hmsg : 64 ∣ msg.length) (h : S.Chained rot msg) (m : ByteMem)
    (p : ℕ) : (blakeCompress rot S.count m p).Chained rot (msg ++ bytes m p 64) := by
  have hlen : (msg ++ bytes m p 64).length / 64 = msg.length / 64 + 1 := by
    rw [List.length_append, length_bytes]
    omega
  have hcount := h.count
  rw [blakeCompress_eq rot (S.count_s.trans h.s), S.count_h, h.h, hcount,
    ← blakeChain_concat hmsg (length_bytes m p 64)]
  rw [BlakeState.counter, S.count_nullt, h.nullt, if_neg Bool.false_ne_true] at hcount
  constructor <;> dsimp only
  · rw [S.count_s, h.s]
  · rw [hlen, hcount]
  · rw [S.count_nullt, h.nullt]

/-- The loop takes all full blocks. -/
theorem blakeBlocks_eq (rot : BitVec 32 → ℕ → BitVec 32) (data : ByteMem) (S : BlakeState)
    (p n : ℕ) : blakeBlocks rot data S p (8 * n)
      = (takeBlocks 64 (fun S p => blakeCompress rot S.count data p) (n / 64) S p,
          p + 64 * (n / 64), 8 * (n % 64)) := by
  refine loop_eq_takeBlocks (fun S p n => blakeBlocks rot data S p (8 * n))
    (fun S p n => (S, p, 8 * n)) (by decide) (fun S p n hn => ?_) (fun S p n hn => ?_) S p n
  · rw [blakeBlocks, if_pos (by omega), Nat.mul_sub]
  · rw [blakeBlocks, if_neg (by omega)]

/-! ### A call of `blake256_update` -/

/-- Less than a block does not count. -/
theorem BlakeState.Chained.append (hmsg : 64 ∣ msg.length) {b : List (BitVec 8)}
    (hb : b.length < 64) : S.Chained rot (msg ++ b) ↔ S.Chained rot msg := by
  have hchain : blakeChain rot (msg ++ b) = blakeChain rot msg := by
    rw [blakeChain, blocks_append (by decide) hmsg, blocks_of_lt hb, List.append_nil, blakeChain]
  have hlen : (msg ++ b).length / 64 = msg.length / 64 := by
    rw [List.length_append]
    omega
  constructor
  · rintro ⟨h, s, t, nullt⟩
    exact ⟨hchain ▸ h, s, hlen ▸ t, nullt⟩
  · rintro ⟨h, s, t, nullt⟩
    exact ⟨hchain ▸ h, s, hlen ▸ t, nullt⟩

/-- From an empty buffer on, the loop and what is behind it put the data in. -/
theorem BlakeState.Chained.keep (hmsg : 64 ∣ msg.length) (h : S.Chained rot msg) (data : ByteMem)
    (p n : ℕ) :
    (blakeKeep data 0 (blakeBlocks rot data S p (8 * n))).Absorbed rot (msg ++ bytes data p n) := by
  rw [blakeBlocks_eq]
  set T := takeBlocks 64 (fun S p => blakeCompress rot S.count data p) (n / 64) S p
  have hT : T.Chained rot (msg ++ bytes data p (64 * (n / 64))) :=
    takeBlocks_inv (BlakeState.Chained rot)
      (fun S p msg hmsg h => h.step hmsg data p) (n / 64) p hmsg h
  have hfull : 64 ∣ (msg ++ bytes data p (64 * (n / 64))).length := by
    rw [List.length_append, length_bytes]
    omega
  have hshort : (bytes data (p + 64 * (n / 64)) (n % 64)).length < 64 := by
    rw [length_bytes]
    exact Nat.mod_lt _ (by decide)
  have hsplit : msg ++ bytes data p n = msg ++ bytes data p (64 * (n / 64)) ++
      bytes data (p + 64 * (n / 64)) (n % 64) := by
    rw [List.append_assoc, ← bytes_add, Nat.div_add_mod]
  have hlen : (msg ++ bytes data p n).length % 64 = n % 64 := by
    rw [List.length_append, length_bytes]
    omega
  have hrest : rest 64 (msg ++ bytes data p n) = bytes data (p + 64 * (n / 64)) (n % 64) := by
    rw [hsplit, rest_append (by decide) hfull, rest_of_lt hshort]
  have hchained := (Chained.append hfull hshort).mpr hT
  rw [← hsplit] at hchained
  rw [blakeKeep]
  dsimp only
  split
  · next hpos =>
    refine ⟨⟨hchained.h, hchained.s, hchained.t, hchained.nullt⟩, ?_, ?_⟩
    · rw [hlen]
      exact Nat.zero_add _
    · have hbuf := bytes_storeBytes_append T.buf 0 (bytes data (p + 64 * (n / 64)) (n % 64))
      rw [hlen, hrest, Nat.shiftRight_eq_div_pow, Nat.mul_div_cancel_left _ (by decide)]
      rwa [length_bytes, Nat.zero_add] at hbuf
  · next hzero =>
    have hnone : n % 64 = 0 := by omega
    refine ⟨⟨hchained.h, hchained.s, hchained.t, hchained.nullt⟩, ?_, ?_⟩
    · rw [hlen, hnone]
    · rw [hlen, hrest, hnone]
      rfl

end Absorb

section Update

variable {rot : BitVec 32 → ℕ → BitVec 32} {S : BlakeState} {msg : List (BitVec 8)}
  (data : ByteMem) (p : ℕ)

theorem bits_and_mask (n : ℕ) : (8 * n) >>> 3 &&& 0x3F = n % 64 := by
  rw [Nat.shiftRight_eq_div_pow, Nat.mul_div_cancel_left n (by decide),
    Nat.and_two_pow_sub_one_eq_mod n 6]

theorem blakeUpdate_of_empty (rot : BitVec 32 → ℕ → BitVec 32) (hempty : S.buflen = 0)
    (datalen : ℕ) :
    blakeUpdate rot S data p datalen = blakeKeep data 0 (blakeBlocks rot data S p datalen) := by
  rw [blakeUpdate, hempty]
  exact if_neg fun h => h.1 rfl

variable {r n : ℕ}

theorem blakeUpdate_of_fill (rot : BitVec 32 → ℕ → BitVec 32) (hbuflen : S.buflen = 8 * r)
    (hpos : 0 < r) (hfill : 64 - r ≤ n % 64) :
    ∃ S', S' = { S with buf := storeBytes S.buf r (bytes data p (64 - r)) } ∧
      blakeUpdate rot S data p (8 * n) = blakeKeep data 0 (blakeBlocks rot data
        (blakeCompress rot S'.count S'.buf 0) (p + (64 - r)) (8 * (n - (64 - r)))) := by
  have hleft : S.buflen >>> 3 = r := by
    rw [hbuflen, Nat.shiftRight_eq_div_pow, Nat.mul_div_cancel_left r (by decide)]
  have hbits : 8 * n - (64 - r) <<< 3 = 8 * (n - (64 - r)) := by
    rw [Nat.shiftLeft_eq]
    omega
  refine ⟨_, rfl, ?_⟩
  rw [blakeUpdate, hleft]
  dsimp only
  rw [if_pos ⟨hpos.ne', by rw [bits_and_mask]; exact hfill⟩, hbits]

theorem blakeUpdate_of_short (rot : BitVec 32 → ℕ → BitVec 32) (hbuflen : S.buflen = 8 * r)
    (hn : 0 < n) (hshort : r + n < 64) : blakeUpdate rot S data p (8 * n) = { S with
      buf := storeBytes S.buf r (bytes data p n)
      buflen := 8 * (r + n) } := by
  have hleft : S.buflen >>> 3 = r := by
    rw [hbuflen, Nat.shiftRight_eq_div_pow, Nat.mul_div_cancel_left r (by decide)]
  have hbytes : (8 * n) >>> 3 = n := by
    rw [Nat.shiftRight_eq_div_pow, Nat.mul_div_cancel_left n (by decide)]
  have hsum : (r <<< 3) + 8 * n = 8 * (r + n) := by
    rw [Nat.shiftLeft_eq]
    omega
  rw [blakeUpdate, hleft]
  dsimp only
  rw [if_neg, blakeBlocks, if_neg (by omega), blakeKeep]
  · dsimp only
    rw [if_pos (by omega), hbytes, hsum]
  · rw [bits_and_mask]
    omega

/-- The buffer when it has been filled up. -/
theorem bytes_fill (buf : ByteMem) (hr : r ≤ 64) :
    bytes (storeBytes buf r (bytes data p (64 - r))) 0 64
      = bytes buf 0 r ++ bytes data p (64 - r) := by
  have h := bytes_storeBytes_append buf r (bytes data p (64 - r))
  rwa [length_bytes, Nat.add_sub_cancel' hr] at h

/-- **A call of `blake256_update` appends its data** if the buffer is empty, if what is left
of the data behind its full blocks fills the buffer up, or if the data do not fill it up
and there are any.  The callers make no other calls; one without data empties the buffer. -/
theorem BlakeState.Absorbed.update (h : S.Absorbed rot msg)
    (hn : msg.length % 64 = 0 ∨ 64 - msg.length % 64 ≤ n % 64 ∨
      0 < n ∧ msg.length % 64 + n < 64) :
    (blakeUpdate rot S data p (8 * n)).Absorbed rot (msg ++ bytes data p n) := by
  have hlt : msg.length % 64 < 64 := Nat.mod_lt _ (by decide)
  -- the full blocks in front of what is in the buffer
  set full := msg.take (64 * (msg.length / 64)) with hfull
  have hmsg : full ++ rest 64 msg = msg := take_append_rest 64 msg
  have hlen : full.length = 64 * (msg.length / 64) :=
    List.length_take_of_le (Nat.mul_div_le _ _)
  have hdvd : 64 ∣ full.length := hlen ▸ Nat.dvd_mul_right 64 _
  have hshort : (rest 64 msg).length < 64 := (length_rest 64 msg).trans_lt hlt
  have hchained : S.Chained rot full := by
    rw [← Chained.append hdvd hshort, hmsg]
    exact h.toChained
  rcases Nat.eq_zero_or_pos (msg.length % 64) with hzero | hpos
  · have hnone : rest 64 msg = [] := List.eq_nil_of_length_eq_zero (by rw [length_rest, hzero])
    have hall : full = msg := by rw [← hmsg, hnone, List.append_nil]
    rw [blakeUpdate_of_empty data p rot (by rw [h.buflen, hzero])]
    rw [hall] at hchained hdvd
    exact hchained.keep hdvd data p n
  · by_cases hfill : 64 - msg.length % 64 ≤ n % 64
    · obtain ⟨S', rfl, hrun⟩ := blakeUpdate_of_fill data p rot h.buflen hpos hfill
      have hbuf := bytes_fill data p S.buf hlt.le
      rw [h.buf] at hbuf
      have hstep := BlakeState.Chained.step (S := { S with
        buf := storeBytes S.buf (msg.length % 64) (bytes data p (64 - msg.length % 64)) }) hdvd
        ⟨hchained.h, hchained.s, hchained.t, hchained.nullt⟩
        (storeBytes S.buf (msg.length % 64) (bytes data p (64 - msg.length % 64))) 0
      rw [hbuf, ← List.append_assoc, hmsg] at hstep
      have hblock : 64 ∣ (msg ++ bytes data p (64 - msg.length % 64)).length := by
        rw [List.length_append, length_bytes]
        omega
      have hkeep := hstep.keep hblock data (p + (64 - msg.length % 64))
        (n - (64 - msg.length % 64))
      have hle : 64 - msg.length % 64 ≤ n := hfill.trans (Nat.mod_le _ _)
      rwa [List.append_assoc, ← bytes_add, Nat.add_sub_cancel' hle, ← hrun] at hkeep
    · obtain ⟨hn, hless⟩ : 0 < n ∧ msg.length % 64 + n < 64 := by omega
      rw [blakeUpdate_of_short data p rot h.buflen hn hless]
      have hmod : (msg ++ bytes data p n).length % 64 = msg.length % 64 + n := by
        rw [List.length_append, length_bytes]
        omega
      have hrest : rest 64 (msg ++ bytes data p n) = rest 64 msg ++ bytes data p n := by
        conv_lhs => rw [← hmsg, List.append_assoc, rest_append (by decide) hdvd]
        apply rest_of_lt
        rw [List.length_append, length_rest, length_bytes]
        exact hless
      have hsum : (rest 64 msg ++ bytes data p n).length < 64 := by
        rw [List.length_append, length_rest, length_bytes]
        exact hless
      have hc := (Chained.append hdvd hsum).mpr hchained
      rw [← List.append_assoc, hmsg] at hc
      refine ⟨⟨hc.h, hc.s, hc.t, hc.nullt⟩, ?_, ?_⟩
      · rw [hmod]
      · have hbuf := bytes_storeBytes_append S.buf (msg.length % 64) (bytes data p n)
        rw [length_bytes, h.buf] at hbuf
        rw [hmod, hrest, hbuf]

end Update

/-! ### The padding -/

/-- What the state holds while the padding is put in, with `l` in the buffer. -/
structure BlakeState.Holds (S : BlakeState) (h : Vector (BitVec 32) 8) (t0 t1 : BitVec 32)
    (nullt : Bool) (l : List (BitVec 8)) : Prop where
  /-- The chaining value. -/
  h : S.h = h
  /-- There is no salt. -/
  s : S.s = #v[0, 0, 0, 0]
  /-- The low word of the counter. -/
  t0 : S.t0 = t0
  /-- The high word. -/
  t1 : S.t1 = t1
  /-- Whether the counter is left out. -/
  nullt : S.nullt = nullt
  /-- The bits in the buffer are counted. -/
  buflen : S.buflen = 8 * l.length
  /-- The buffer. -/
  buf : bytes S.buf 0 l.length = l

section Final

variable (rot : BitVec 32 → ℕ → BitVec 32) {S : BlakeState} {h : Vector (BitVec 32) 8}
  {t0 t1 : BitVec 32} {nullt : Bool} {l : List (BitVec 8)} {n : ℕ}

theorem BlakeState.Holds.back (hS : S.Holds h t0 t1 nullt l) (n : ℕ) :
    (S.back n).Holds h (t0 - BitVec.ofNat 32 n) t1 nullt l :=
  ⟨hS.h, hS.s, congrArg (· - BitVec.ofNat 32 n) hS.t0, hS.t1, hS.nullt, hS.buflen, hS.buf⟩

theorem BlakeState.Holds.setNullt (hS : S.Holds h t0 t1 nullt l) :
    ({ S with nullt := true } : BlakeState).Holds h t0 t1 true l :=
  ⟨hS.h, hS.s, hS.t0, hS.t1, rfl, hS.buflen, hS.buf⟩

/-- A call that does not fill the buffer up. -/
theorem BlakeState.Holds.short (hS : S.Holds h t0 t1 nullt l) (data : ByteMem) (p : ℕ)
    (hn : 0 < n) (hshort : l.length + n < 64) :
    (blakeUpdate rot S data p (8 * n)).Holds h t0 t1 nullt (l ++ bytes data p n) := by
  have hlen : (l ++ bytes data p n).length = l.length + n := by
    rw [List.length_append, length_bytes]
  have hbuf := bytes_storeBytes_append S.buf l.length (bytes data p n)
  rw [length_bytes, hS.buf] at hbuf
  rw [blakeUpdate_of_short data p rot hS.buflen hn hshort]
  exact ⟨hS.h, hS.s, hS.t0, hS.t1, hS.nullt, by rw [hlen], by rw [hlen, hbuf]⟩

/-- A call that fills the buffer up: it is compressed. -/
theorem BlakeState.Holds.fill (hS : S.Holds h t0 t1 nullt l) (data : ByteMem) (p : ℕ)
    (hpos : 0 < l.length) (hn : 0 < n) (hfill : l.length + n = 64) :
    (blakeUpdate rot S data p (8 * n)).Holds
      (blakeF rot h
        (if nullt then 0 else (if t0 + 512 = 0 then t1 + 1 else t1) ++ (t0 + 512))
        (l ++ bytes data p n))
      (t0 + 512) (if t0 + 512 = 0 then t1 + 1 else t1) nullt [] := by
  obtain rfl : n = 64 - l.length := by omega
  obtain ⟨S', rfl, hrun⟩ := blakeUpdate_of_fill (n := 64 - l.length) data p rot hS.buflen hpos
    (by rw [Nat.mod_eq_of_lt (by omega)])
  have hbuf := bytes_fill data p S.buf (r := l.length) (by omega)
  rw [hS.buf] at hbuf
  rw [hrun, Nat.sub_self, blakeBlocks, if_neg (by omega), blakeKeep, if_neg (by simp),
    blakeCompress_eq]
  · have hc : BlakeState.counter (BlakeState.count { S with
        buf := storeBytes S.buf l.length (bytes data p (64 - l.length)) })
        = if nullt then 0 else (if t0 + 512 = 0 then t1 + 1 else t1) ++ (t0 + 512) := by
      simp only [BlakeState.counter, BlakeState.count, hS.t0, hS.t1, hS.nullt]
    constructor <;> dsimp only
    · rw [BlakeState.count_h, hc, hbuf, hS.h]
    · rw [BlakeState.count_s, hS.s]
    · rw [BlakeState.count, hS.t0]
    · simp only [BlakeState.count, hS.t0, hS.t1]
    · rw [BlakeState.count_nullt, hS.nullt]
    · rfl
    · rfl
  · rw [BlakeState.count_s, hS.s]

end Final

/-! ### The digest -/

theorem bigEndian64_append (hi lo : BitVec 32) :
    bigEndian64 (hi ++ lo) = u32to8 hi ++ u32to8 lo := by
  have hlow : ∀ i, i + 8 ≤ 32 → (hi ++ lo).extractLsb' i 8 = lo.extractLsb' i 8 := by
    intro i hi'
    apply BitVec.eq_of_getLsbD_eq
    intro j hj
    simp only [BitVec.getLsbD_extractLsb', BitVec.getLsbD_append]
    grind
  have hhigh : ∀ i, (hi ++ lo).extractLsb' (32 + i) 8 = hi.extractLsb' i 8 := by
    intro i
    apply BitVec.eq_of_getLsbD_eq
    intro j hj
    simp only [BitVec.getLsbD_extractLsb', BitVec.getLsbD_append]
    grind
  show [(hi ++ lo).extractLsb' (32 + 24) 8, (hi ++ lo).extractLsb' (32 + 16) 8,
    (hi ++ lo).extractLsb' (32 + 8) 8, (hi ++ lo).extractLsb' (32 + 0) 8,
    (hi ++ lo).extractLsb' 24 8, (hi ++ lo).extractLsb' 16 8,
    (hi ++ lo).extractLsb' 8 8, (hi ++ lo).extractLsb' 0 8] = _
  rw [hhigh, hhigh, hhigh, hhigh, hlow _ (by omega), hlow _ (by omega), hlow _ (by omega),
    hlow _ (by omega)]
  rfl

theorem bytes_blakePadding {n : ℕ} (hn : n < 64) :
    bytes blakePadding 0 (n + 1) = 0x80 :: List.replicate n 0 := by
  rw [blakePadding, bytes_memOf_range _ (by simp; omega), List.drop_zero, List.take_succ_cons,
    List.take_replicate, min_eq_left (by omega)]

theorem bytes_blakePadding_one : bytes blakePadding 1 55 = List.replicate 55 0 := by
  rw [blakePadding, bytes_memOf_range _ (by simp), List.drop_succ_cons, List.drop_zero,
    List.take_replicate]
  rfl

/-- Setting the counter back by what is behind the message in its last block. -/
theorem sub_add_block (x : BitVec 32) {a b : ℕ} (h : a + b = 512) :
    x - BitVec.ofNat 32 a + 512 = x + BitVec.ofNat 32 b := by
  have hb : BitVec.ofNat 32 a + BitVec.ofNat 32 b = 512 := by
    rw [← BitVec.ofNat_add, h]
    rfl
  rw [← hb, ← BitVec.add_assoc, BitVec.sub_add_cancel]

section Digest

variable {rot : BitVec 32 → ℕ → BitVec 32} {S : BlakeState} {msg : List (BitVec 8)}

theorem blakeCounter_of_le {len i : ℕ} (h : 64 * (i + 1) ≤ len) :
    blakeCounter len i = BitVec.ofNat 64 (512 * (i + 1)) := by
  rw [blakeCounter, if_pos (by omega), min_eq_left h, ← Nat.mul_assoc]

/-- The full blocks of the message are not changed by the padding. -/
theorem blakeDigest_eq (rot : BitVec 32 → ℕ → BitVec 32) (msg : List (BitVec 8))
    {bs : List (List (BitVec 8))} (hbs : blocks 64 (rest 64 msg ++ blakePad msg.length) = bs) :
    blakeDigest rot msg = ((bs.zipIdx (msg.length / 64)).foldl
      (fun h b => blakeF rot h (blakeCounter msg.length b.2) b.1)
      (blakeChain rot msg)).toList.flatMap u32to8 := by
  have hchain : foldNumbered (fun h i b => blakeF rot h (blakeCounter msg.length i) b) blake256H
      (blocks 64 msg) = blakeChain rot msg := by
    refine foldNumbered_congr _ _ fun h i b hi => ?_
    rw [length_blocks] at hi
    rw [blakeCounter_of_le (by omega)]
  rw [blakeDigest, blocks_append_rest (by decide), hbs, ← hchain]
  dsimp only [foldNumbered]
  rw [List.zipIdx_append, List.foldl_append, length_blocks, Nat.zero_add]

/-- The counter, and the length, at the end of a message. -/
theorem BlakeState.Absorbed.lengths (h : S.Absorbed rot msg) :
    let lo := S.t0 + BitVec.ofNat 32 S.buflen
    S.t1 ++ lo = BitVec.ofNat 64 (8 * msg.length) ∧ ¬ lo < BitVec.ofNat 32 S.buflen ∧
      (msg.length % 64 ≠ 0 → lo ≠ 0) := by
  intro lo
  have hmod := h.toChained.t0_mod
  have hlt := S.t0.isLt
  have ht := congrArg BitVec.toNat h.t
  rw [toNat_append_eq, BitVec.toNat_ofNat] at ht
  have hbuflen : (BitVec.ofNat 32 S.buflen).toNat = 8 * (msg.length % 64) := by
    rw [h.buflen, BitVec.toNat_ofNat]
    omega
  have hlo : lo.toNat = S.t0.toNat + 8 * (msg.length % 64) := by
    rw [BitVec.toNat_add, hbuflen]
    omega
  refine ⟨BitVec.eq_of_toNat_eq ?_, ?_, fun hpos hzero => ?_⟩
  · rw [toNat_append_eq, hlo, BitVec.toNat_ofNat]
    omega
  · rw [BitVec.lt_def, hlo, hbuflen]
    omega
  · rw [hzero] at hlo
    have : (0 : BitVec 32).toNat = 0 := rfl
    omega

/-- The state in front of the padding. -/
theorem BlakeState.Absorbed.holds (h : S.Absorbed rot msg) :
    S.Holds (blakeChain rot msg) S.t0 S.t1 false (rest 64 msg) := by
  have hlen := length_rest 64 msg
  exact ⟨h.h, h.s, rfl, rfl, h.nullt, by rw [h.buflen, hlen], by rw [hlen, h.buf]⟩

/-- What the last call brings in. -/
theorem BlakeState.Absorbed.msglen (h : S.Absorbed rot msg) :
    blakeMsglen S = bigEndian64 (BitVec.ofNat 64 (8 * msg.length)) := by
  obtain ⟨hlen, hcarry, -⟩ := h.lengths
  rw [blakeMsglen, if_neg hcarry, ← hlen, bigEndian64_append]

end Digest

section Hash

variable {rot : BitVec 32 → ℕ → BitVec 32} {S : BlakeState} {msg : List (BitVec 8)}

/-- The counter of the last block with a bit of the message, set back by what is behind it. -/
theorem BlakeState.Absorbed.counter (h : S.Absorbed rot msg) {t0 : BitVec 32}
    (ht0 : t0 = S.t0 - BitVec.ofNat 32 (512 - 8 * (msg.length % 64))) :
    (if decide (msg.length % 64 = 0) then 0
      else (if t0 + 512 = 0 then S.t1 + 1 else S.t1) ++ (t0 + 512))
      = blakeCounter msg.length (msg.length / 64) := by
  obtain ⟨hlen, -, hne⟩ := h.lengths
  have hlo : t0 + 512 = S.t0 + BitVec.ofNat 32 S.buflen := by
    rw [ht0, h.buflen, sub_add_block S.t0 (b := 8 * (msg.length % 64)) (by omega)]
  rcases eq_or_ne (msg.length % 64) 0 with hzero | hpos
  · rw [hzero, decide_eq_true rfl, if_pos rfl, blakeCounter, if_neg (by omega)]
  · rw [decide_eq_false hpos, if_neg Bool.false_ne_true, hlo, if_neg (hne hpos), hlen, blakeCounter,
      if_pos (by omega), min_eq_right (by omega)]

/-- The padding when more than one byte of it fits into the block. -/
theorem BlakeState.Absorbed.padded_of_lt (h : S.Absorbed rot msg) (hr : msg.length % 64 < 55) :
    ((blakePadded rot 0x81 0x01 S).back 64).Holds (blakeChain rot msg)
      (S.t0 - BitVec.ofNat 32 (512 - 8 * (msg.length % 64))) S.t1
      (decide (msg.length % 64 = 0)) (rest 64 msg ++ blakePadEnd msg.length) := by
  have hlen : (rest 64 msg).length = msg.length % 64 := length_rest 64 msg
  have hbits : 440 - S.buflen = 8 * (55 - msg.length % 64) := by
    rw [h.buflen]
    omega
  have hstart : (if S.buflen = 0 then { S with nullt := true } else S : BlakeState).Holds
      (blakeChain rot msg) S.t0 S.t1 (decide (msg.length % 64 = 0)) (rest 64 msg) := by
    rcases eq_or_ne (msg.length % 64) 0 with hzero | hpos
    · rw [if_pos (by rw [h.buflen, hzero]), decide_eq_true hzero]
      exact h.holds.setNullt
    · rw [if_neg (by rw [h.buflen]; omega), decide_eq_false hpos]
      exact h.holds
  have hpad := (hstart.back (440 - S.buflen)).short rot blakePadding 0
    (n := 55 - msg.length % 64) (by omega) (by omega)
  rw [← hbits] at hpad
  have hone := (hpad.short rot (memOf [0x01]) 0 (n := 1) (by decide) (by
    rw [List.length_append, length_bytes]
    omega)).back 8
  have hend := hone.back 64
  have hcount : S.t0 - BitVec.ofNat 32 (440 - S.buflen) - BitVec.ofNat 32 8 - BitVec.ofNat 32 64
      = S.t0 - BitVec.ofNat 32 (512 - 8 * (msg.length % 64)) := by
    have hsum : 512 - 8 * (msg.length % 64) = 440 - S.buflen + (8 + 64) := by omega
    rw [hsum, BitVec.ofNat_add, BitVec.ofNat_add, sub_sub, sub_sub]
  have hbytes : rest 64 msg ++ bytes blakePadding 0 (55 - msg.length % 64)
      ++ bytes (memOf [0x01]) 0 1 = rest 64 msg ++ blakePadEnd msg.length := by
    have hzeros : (118 - msg.length % 64) % 64 = 54 - msg.length % 64 := by omega
    rw [show 55 - msg.length % 64 = 54 - msg.length % 64 + 1 by omega,
      bytes_blakePadding (by omega), blakePadEnd, if_neg (by omega), hzeros, List.append_assoc]
    rfl
  rw [hcount, hbytes] at hend
  rw [blakePadded, if_neg (by rw [h.buflen]; omega), if_pos (by rw [h.buflen]; omega)]
  exact hend

/-- The padding when one byte of it fits into the block. -/
theorem BlakeState.Absorbed.padded_of_eq (h : S.Absorbed rot msg) (hr : msg.length % 64 = 55) :
    ((blakePadded rot 0x81 0x01 S).back 64).Holds (blakeChain rot msg)
      (S.t0 - BitVec.ofNat 32 (512 - 8 * (msg.length % 64))) S.t1
      (decide (msg.length % 64 = 0)) (rest 64 msg ++ blakePadEnd msg.length) := by
  have hlen : (rest 64 msg).length = msg.length % 64 := length_rest 64 msg
  have hone := ((h.holds.back 8).short rot (memOf [0x81]) 0 (n := 1) (by decide)
    (by omega)).back 64
  have hcount : S.t0 - BitVec.ofNat 32 8 - BitVec.ofNat 32 64
      = S.t0 - BitVec.ofNat 32 (512 - 8 * (msg.length % 64)) := by
    rw [hr, sub_sub, ← BitVec.ofNat_add]
  have hpad : blakePadEnd msg.length = bytes (memOf [0x81]) 0 1 := by
    rw [blakePadEnd, if_pos hr]
    rfl
  have hfalse : decide (msg.length % 64 = 0) = false := decide_eq_false (by omega)
  rw [hcount] at hone
  rw [blakePadded, if_pos (by rw [h.buflen, hr]), hpad, hfalse]
  exact hone

/-- The padding when the length does not fit behind it: the block is compressed, and the
counter is left out from then on. -/
theorem BlakeState.Absorbed.padded_of_gt (h : S.Absorbed rot msg) (hr : 55 < msg.length % 64) :
    ∃ t0 t1, ((blakePadded rot 0x81 0x01 S).back 64).Holds
      (blakeF rot (blakeChain rot msg) (blakeCounter msg.length (msg.length / 64))
        (rest 64 msg ++ 0x80 :: List.replicate (63 - msg.length % 64) 0))
      t0 t1 true (List.replicate 55 0 ++ [0x01]) := by
  have hlt : msg.length % 64 < 64 := Nat.mod_lt _ (by decide)
  have hlen : (rest 64 msg).length = msg.length % 64 := length_rest 64 msg
  have hbits : 512 - S.buflen = 8 * (64 - msg.length % 64) := by
    rw [h.buflen]
    omega
  have hcounter := h.counter (congrArg (fun b => S.t0 - BitVec.ofNat 32 (512 - b)) h.buflen)
  have hpad := (h.holds.back (512 - S.buflen)).fill rot blakePadding 0
    (n := 64 - msg.length % 64) (by omega) (by omega) (by omega)
  have hfalse : decide (msg.length % 64 = 0) = false := decide_eq_false (by omega)
  rw [hfalse] at hcounter
  rw [← hbits, hcounter, show 64 - msg.length % 64 = 63 - msg.length % 64 + 1 by omega,
    bytes_blakePadding (by omega)] at hpad
  have hzeros := ((hpad.back 440).short rot blakePadding 1 (n := 55) (by decide)
    (by decide)).setNullt
  rw [bytes_blakePadding_one, List.nil_append] at hzeros
  have hone := ((hzeros.short rot (memOf [0x01]) 0 (n := 1) (by decide)
    (by decide)).back 8).back 64
  rw [blakePadded, if_neg (by rw [h.buflen]; omega), if_neg (by rw [h.buflen]; omega)]
  exact ⟨_, _, hone⟩

/-- **The end of a hash**: the digest of what has been put in. -/
theorem BlakeState.Absorbed.final (h : S.Absorbed rot msg) :
    blakeFinalH rot 0x81 0x01 S = blakeDigest rot msg := by
  have hlen : (rest 64 msg).length = msg.length % 64 := length_rest 64 msg
  have hlt : msg.length % 64 < 64 := Nat.mod_lt _ (by decide)
  set len8 := bigEndian64 (BitVec.ofNat 64 (8 * msg.length)) with hlen8
  have hbytes : bytes (memOf len8) 0 8 = len8 := bytes_memOf len8
  rw [blakeFinalH, h.msglen]
  rcases Nat.lt_or_ge 55 (msg.length % 64) with hgt | hle
  · obtain ⟨t0, t1, hpad⟩ := h.padded_of_gt hgt
    have hlast := (hpad.fill rot (memOf len8) 0 (n := 8) (by decide) (by decide)
      (by decide)).h
    -- two blocks: the zeros are cut
    set b₁ := rest 64 msg ++ 0x80 :: List.replicate (63 - msg.length % 64) 0 with hb₁
    set b₂ := List.replicate 55 0 ++ [0x01] ++ len8 with hb₂
    have hlen₁ : b₁.length = 64 := by
      rw [hb₁, List.length_append, List.length_cons, List.length_replicate]
      omega
    have hlen₂ : b₂.length = 64 := by
      simp only [hb₂, hlen8, List.length_append, List.length_replicate, List.length_singleton,
        length_bigEndian64]
    have hzeros : (118 - msg.length % 64) % 64 = 63 - msg.length % 64 + 55 := by omega
    have hblocks : rest 64 msg ++ blakePad msg.length = b₁ ++ b₂ := by
      rw [blakePad, blakePadEnd, if_neg (by omega), hzeros, List.replicate_add, hb₁, hb₂,
        hlen8]
      simp only [List.append_assoc, List.cons_append]
    have hcounter : blakeCounter msg.length (msg.length / 64 + 1) = 0 := by
      rw [blakeCounter, if_neg (by omega)]
    have htwo : blocks 64 (rest 64 msg ++ blakePad msg.length) = [b₁, b₂] := by
      rw [hblocks, blocks_cons (by decide) hlen₁, blocks_self (by decide) hlen₂]
    rw [blakeDigest_eq rot msg htwo, hlast, hbytes]
    simp only [List.zipIdx_cons, List.zipIdx_nil, List.foldl_cons, List.foldl_nil, hcounter,
      if_true, hb₂]
  · have hpad : ((blakePadded rot 0x81 0x01 S).back 64).Holds (blakeChain rot msg)
        (S.t0 - BitVec.ofNat 32 (512 - 8 * (msg.length % 64))) S.t1
        (decide (msg.length % 64 = 0)) (rest 64 msg ++ blakePadEnd msg.length) := by
      rcases Nat.lt_or_eq_of_le hle with hlt | heq
      · exact h.padded_of_lt hlt
      · exact h.padded_of_eq heq
    have hend : (rest 64 msg ++ blakePadEnd msg.length).length = 56 := by
      rw [List.length_append, blakePadEnd]
      split
      · rw [List.length_singleton]
        omega
      · simp only [List.length_cons, List.length_append, List.length_replicate, List.length_nil]
        omega
    have hlast := (hpad.fill rot (memOf len8) 0 (n := 8) (by omega) (by decide)
      (by omega)).h
    have hblock : rest 64 msg ++ blakePad msg.length
        = rest 64 msg ++ blakePadEnd msg.length ++ len8 := by rw [blakePad, List.append_assoc]
    have hone : blocks 64 (rest 64 msg ++ blakePad msg.length)
        = [rest 64 msg ++ blakePadEnd msg.length ++ len8] := by
      rw [hblock]
      refine blocks_self (by decide) ?_
      rw [List.length_append, hend, hlen8, length_bigEndian64]
    rw [blakeDigest_eq rot msg hone, hlast, hbytes, h.counter rfl]
    rfl

theorem blake256Init_absorbed (rot : BitVec 32 → ℕ → BitVec 32) (garbage : BlakeState) :
    (blake256Init garbage).Absorbed rot [] := by
  have ht : (0 : BitVec 32) ++ (0 : BitVec 32) = BitVec.ofNat 64 0 := by decide
  exact ⟨⟨rfl, rfl, ht, rfl⟩, rfl, rfl⟩

end Hash

/-- **A hash is the fold over the padded message**, of any length: the number of bits is kept
in 64 bits. -/
theorem blakeHash_eq (rot : BitVec 32 → ℕ → BitVec 32) (garbage : BlakeState) (input : ByteMem)
    (p inlen : ℕ) :
    blakeHash rot garbage input p inlen = blakeDigest rot (bytes input p (inlen % 2 ^ 61)) := by
  have hbits : inlen * 8 % 2 ^ 64 = 8 * (inlen % 2 ^ 61) := by omega
  have h := (blake256Init_absorbed rot garbage).update input p (n := inlen % 2 ^ 61)
    (Or.inl rfl)
  rw [blakeHash, hbits]
  exact h.final

/-- When a call appends its `n` bytes behind `k` that are there. -/
def blakeAllowed (k n : ℕ) : Prop :=
  k % 64 = 0 ∨ 64 - k % 64 ≤ n % 64 ∨ 0 < n ∧ k % 64 + n < 64

instance (k n : ℕ) : Decidable (blakeAllowed k n) := inferInstanceAs (Decidable (_ ∨ _ ∨ _))

/-- **It does not matter how a message is cut** into allowed calls of `blake256_update`. -/
theorem blakeFinalH_calls (rot : BitVec 32 → ℕ → BitVec 32) (garbage : BlakeState)
    (cs : List Chunk) (hcs : Allowed blakeAllowed 0 cs) :
    blakeFinalH rot 0x81 0x01
        (cs.foldl (fun S c => blakeUpdate rot S c.mem c.start (8 * c.len)) (blake256Init garbage))
      = blakeDigest rot (cs.flatMap Chunk.data) := by
  have h := foldl_chunks blakeAllowed (fun S msg => BlakeState.Absorbed rot S msg)
    (fun S msg c hc hS => hS.update c.mem c.start hc) cs [] hcs
    (blake256Init_absorbed rot garbage)
  exact h.final

/-- 100 bytes in two calls. -/
theorem blakeFinalH_two_calls :
    let data : ByteMem := fun q => BitVec.ofNat 8 q
    let garbage : BlakeState := ⟨blake256H, #v[1, 2, 3, 4], 5, 6, 7, true, data⟩
    blakeFinalH blakeRot 0x81 0x01 ([⟨data, 0, 70⟩, ⟨data, 70, 30⟩].foldl
        (fun S (c : Chunk) => blakeUpdate blakeRot S c.mem c.start (8 * c.len))
          (blake256Init garbage))
      = blakeDigest blakeRot ([(⟨data, 0, 70⟩ : Chunk), ⟨data, 70, 30⟩].flatMap Chunk.data) := by
  intro data garbage
  exact blakeFinalH_calls blakeRot garbage [⟨data, 0, 70⟩, ⟨data, 70, 30⟩]
    (by simp [Allowed, blakeAllowed])

end XmrMiner
