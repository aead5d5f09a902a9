import XmrMiner.Crypto.Aesb
import XmrMiner.Lib.Blocks

/-!
# Groestl

`groestl` computes a round with a table of 512 words, which holds for every byte the column
that the S-box and the mixing make of it: a column of the next state is a sum of eight such
columns, turned by the row of their byte.  The shifting of the rows is in the choice of the
bytes.

`Update` counts the bytes of its data in an `int`.

The functions of the device are the same ones.

## Main definitions

* `groestlRnd512P`, `groestlRnd512Q`, `groestlF512` — the rounds by the table, and the
  compression function.
* `GroestlHashState`, `groestlUpdate`, `groestlFinal`, `groestl` — the functions.
* `groestlRoundP`, `groestlRoundQ` — the rounds on a matrix of bytes.
* `groestlPad`, `groestlDigest` — what is put behind a message, and the fold over the blocks.

## Main results

* `groestlTable_eq` — the table holds a column of the mixing for every byte.
* `groestlMatrix_rnd512P`, `groestlMatrix_F512` — **the table computes the rounds on bytes.**
* `GroestlHashState.Absorbed.update` — **a call of `Update` appends its data.**
* `groestl_eq` — **the functions compute the fold**, for any number of bytes.
-/

namespace XmrMiner

open ByteMem Blocks

/-! ### The table -/

/-- `T`, and `d_groestl_T`. -/
def groestlTable : List ℕ := [
  0xa5f432c6, 0xc6a597f4, 0x84976ff8, 0xf884eb97, 0x99b05eee, 0xee99c7b0, 0x8d8c7af6, 0xf68df78c,
  0x0d17e8ff, 0xff0de517, 0xbddc0ad6, 0xd6bdb7dc, 0xb1c816de, 0xdeb1a7c8, 0x54fc6d91, 0x915439fc,
  0x50f09060, 0x6050c0f0, 0x03050702, 0x02030405, 0xa9e02ece, 0xcea987e0, 0x7d87d156, 0x567dac87,
  0x192bcce7, 0xe719d52b, 0x62a613b5, 0xb56271a6, 0xe6317c4d, 0x4de69a31, 0x9ab559ec, 0xec9ac3b5,
  0x45cf408f, 0x8f4505cf, 0x9dbca31f, 0x1f9d3ebc, 0x40c04989, 0x894009c0, 0x879268fa, 0xfa87ef92,
  0x153fd0ef, 0xef15c53f, 0xeb2694b2, 0xb2eb7f26, 0xc940ce8e, 0x8ec90740, 0x0b1de6fb, 0xfb0bed1d,
  0xec2f6e41, 0x41ec822f, 0x67a91ab3, 0xb3677da9, 0xfd1c435f, 0x5ffdbe1c, 0xea256045, 0x45ea8a25,
  0xbfdaf923, 0x23bf46da, 0xf7025153, 0x53f7a602, 0x96a145e4, 0xe496d3a1, 0x5bed769b, 0x9b5b2ded,
  0xc25d2875, 0x75c2ea5d, 0x1c24c5e1, 0xe11cd924, 0xaee9d43d, 0x3dae7ae9, 0x6abef24c, 0x4c6a98be,
  0x5aee826c, 0x6c5ad8ee, 0x41c3bd7e, 0x7e41fcc3, 0x0206f3f5, 0xf502f106, 0x4fd15283, 0x834f1dd1,
  0x5ce48c68, 0x685cd0e4, 0xf4075651, 0x51f4a207, 0x345c8dd1, 0xd134b95c, 0x0818e1f9, 0xf908e918,
  0x93ae4ce2, 0xe293dfae, 0x73953eab, 0xab734d95, 0x53f59762, 0x6253c4f5, 0x3f416b2a, 0x2a3f5441,
  0x0c141c08, 0x080c1014, 0x52f66395, 0x955231f6, 0x65afe946, 0x46658caf, 0x5ee27f9d, 0x9d5e21e2,
  0x28784830, 0x30286078, 0xa1f8cf37, 0x37a16ef8, 0x0f111b0a, 0x0a0f1411, 0xb5c4eb2f, 0x2fb55ec4,
  0x091b150e, 0x0e091c1b, 0x365a7e24, 0x2436485a, 0x9bb6ad1b, 0x1b9b36b6, 0x3d4798df, 0xdf3da547,
  0x266aa7cd, 0xcd26816a, 0x69bbf54e, 0x4e699cbb, 0xcd4c337f, 0x7fcdfe4c, 0x9fba50ea, 0xea9fcfba,
  0x1b2d3f12, 0x121b242d, 0x9eb9a41d, 0x1d9e3ab9, 0x749cc458, 0x5874b09c, 0x2e724634, 0x342e6872,
  0x2d774136, 0x362d6c77, 0xb2cd11dc, 0xdcb2a3cd, 0xee299db4, 0xb4ee7329, 0xfb164d5b, 0x5bfbb616,
  0xf601a5a4, 0xa4f65301, 0x4dd7a176, 0x764decd7, 0x61a314b7, 0xb76175a3, 0xce49347d, 0x7dcefa49,
  0x7b8ddf52, 0x527ba48d, 0x3e429fdd, 0xdd3ea142, 0x7193cd5e, 0x5e71bc93, 0x97a2b113, 0x139726a2,
  0xf504a2a6, 0xa6f55704, 0x68b801b9, 0xb96869b8, 0x00000000, 0x00000000, 0x2c74b5c1, 0xc12c9974,
  0x60a0e040, 0x406080a0, 0x1f21c2e3, 0xe31fdd21, 0xc8433a79, 0x79c8f243, 0xed2c9ab6, 0xb6ed772c,
  0xbed90dd4, 0xd4beb3d9, 0x46ca478d, 0x8d4601ca, 0xd9701767, 0x67d9ce70, 0x4bddaf72, 0x724be4dd,
  0xde79ed94, 0x94de3379, 0xd467ff98, 0x98d42b67, 0xe82393b0, 0xb0e87b23, 0x4ade5b85, 0x854a11de,
  0x6bbd06bb, 0xbb6b6dbd, 0x2a7ebbc5, 0xc52a917e, 0xe5347b4f, 0x4fe59e34, 0x163ad7ed, 0xed16c13a,
  0xc554d286, 0x86c51754, 0xd762f89a, 0x9ad72f62, 0x55ff9966, 0x6655ccff, 0x94a7b611, 0x119422a7,
  0xcf4ac08a, 0x8acf0f4a, 0x1030d9e9, 0xe910c930, 0x060a0e04, 0x0406080a, 0x819866fe, 0xfe81e798,
  0xf00baba0, 0xa0f05b0b, 0x44ccb478, 0x7844f0cc, 0xbad5f025, 0x25ba4ad5, 0xe33e754b, 0x4be3963e,
  0xf30eaca2, 0xa2f35f0e, 0xfe19445d, 0x5dfeba19, 0xc05bdb80, 0x80c01b5b, 0x8a858005, 0x058a0a85,
  0xadecd33f, 0x3fad7eec, 0xbcdffe21, 0x21bc42df, 0x48d8a870, 0x7048e0d8, 0x040cfdf1, 0xf104f90c,
  0xdf7a1963, 0x63dfc67a, 0xc1582f77, 0x77c1ee58, 0x759f30af, 0xaf75459f, 0x63a5e742, 0x426384a5,
  0x30507020, 0x20304050, 0x1a2ecbe5, 0xe51ad12e, 0x0e12effd, 0xfd0ee112, 0x6db708bf, 0xbf6d65b7,
  0x4cd45581, 0x814c19d4, 0x143c2418, 0x1814303c, 0x355f7926, 0x26354c5f, 0x2f71b2c3, 0xc32f9d71,
  0xe13886be, 0xbee16738, 0xa2fdc835, 0x35a26afd, 0xcc4fc788, 0x88cc0b4f, 0x394b652e, 0x2e395c4b,
  0x57f96a93, 0x93573df9, 0xf20d5855, 0x55f2aa0d, 0x829d61fc, 0xfc82e39d, 0x47c9b37a, 0x7a47f4c9,
  0xacef27c8, 0xc8ac8bef, 0xe73288ba, 0xbae76f32, 0x2b7d4f32, 0x322b647d, 0x95a442e6, 0xe695d7a4,
  0xa0fb3bc0, 0xc0a09bfb, 0x98b3aa19, 0x199832b3, 0xd168f69e, 0x9ed12768, 0x7f8122a3, 0xa37f5d81,
  0x66aaee44, 0x446688aa, 0x7e82d654, 0x547ea882, 0xabe6dd3b, 0x3bab76e6, 0x839e950b, 0x0b83169e,
  0xca45c98c, 0x8cca0345, 0x297bbcc7, 0xc729957b, 0xd36e056b, 0x6bd3d66e, 0x3c446c28, 0x283c5044,
  0x798b2ca7, 0xa779558b, 0xe23d81bc, 0xbce2633d, 0x1d273116, 0x161d2c27, 0x769a37ad, 0xad76419a,
  0x3b4d96db, 0xdb3bad4d, 0x56fa9e64, 0x6456c8fa, 0x4ed2a674, 0x744ee8d2, 0x1e223614, 0x141e2822,
  0xdb76e492, 0x92db3f76, 0x0a1e120c, 0x0c0a181e, 0x6cb4fc48, 0x486c90b4, 0xe4378fb8, 0xb8e46b37,
  0x5de7789f, 0x9f5d25e7, 0x6eb20fbd, 0xbd6e61b2, 0xef2a6943, 0x43ef862a, 0xa6f135c4, 0xc4a693f1,
  0xa8e3da39, 0x39a872e3, 0xa4f7c631, 0x31a462f7, 0x37598ad3, 0xd337bd59, 0x8b8674f2, 0xf28bff86,
  0x325683d5, 0xd532b156, 0x43c54e8b, 0x8b430dc5, 0x59eb856e, 0x6e59dceb, 0xb7c218da, 0xdab7afc2,
  0x8c8f8e01, 0x018c028f, 0x64ac1db1, 0xb16479ac, 0xd26df19c, 0x9cd2236d, 0xe03b7249, 0x49e0923b,
  0xb4c71fd8, 0xd8b4abc7, 0xfa15b9ac, 0xacfa4315, 0x0709faf3, 0xf307fd09, 0x256fa0cf, 0xcf25856f,
  0xafea20ca, 0xcaaf8fea, 0x8e897df4, 0xf48ef389, 0xe9206747, 0x47e98e20, 0x18283810, 0x10182028,
  0xd5640b6f, 0x6fd5de64, 0x888373f0, 0xf088fb83, 0x6fb1fb4a, 0x4a6f94b1, 0x7296ca5c, 0x5c72b896,
  0x246c5438, 0x3824706c, 0xf1085f57, 0x57f1ae08, 0xc7522173, 0x73c7e652, 0x51f36497, 0x975135f3,
  0x2365aecb, 0xcb238d65, 0x7c8425a1, 0xa17c5984, 0x9cbf57e8, 0xe89ccbbf, 0x21635d3e, 0x3e217c63,
  0xdd7cea96, 0x96dd377c, 0xdc7f1e61, 0x61dcc27f, 0x86919c0d, 0x0d861a91, 0x85949b0f, 0x0f851e94,
  0x90ab4be0, 0xe090dbab, 0x42c6ba7c, 0x7c42f8c6, 0xc4572671, 0x71c4e257, 0xaae529cc, 0xccaa83e5,
  0xd873e390, 0x90d83b73, 0x050f0906, 0x06050c0f, 0x0103f4f7, 0xf701f503, 0x12362a1c, 0x1c123836,
  0xa3fe3cc2, 0xc2a39ffe, 0x5fe18b6a, 0x6a5fd4e1, 0xf910beae, 0xaef94710, 0xd06b0269, 0x69d0d26b,
  0x91a8bf17, 0x17912ea8, 0x58e87199, 0x995829e8, 0x2769533a, 0x3a277469, 0xb9d0f727, 0x27b94ed0,
  0x384891d9, 0xd938a948, 0x1335deeb, 0xeb13cd35, 0xb3cee52b, 0x2bb356ce, 0x33557722, 0x22334455,
  0xbbd604d2, 0xd2bbbfd6, 0x709039a9, 0xa9704990, 0x89808707, 0x07890e80, 0xa7f2c133, 0x33a766f2,
  0xb6c1ec2d, 0x2db65ac1, 0x22665a3c, 0x3c227866, 0x92adb815, 0x15922aad, 0x2060a9c9, 0xc9208960,
  0x49db5c87, 0x874915db, 0xff1ab0aa, 0xaaff4f1a, 0x7888d850, 0x5078a088, 0x7a8e2ba5, 0xa57a518e,
  0x8f8a8903, 0x038f068a, 0xf8134a59, 0x59f8b213, 0x809b9209, 0x0980129b, 0x1739231a, 0x1a173439,
  0xda751065, 0x65daca75, 0x315384d7, 0xd731b553, 0xc651d584, 0x84c61351, 0xb8d303d0, 0xd0b8bbd3,
  0xc35edc82, 0x82c31f5e, 0xb0cbe229, 0x29b052cb, 0x7799c35a, 0x5a77b499, 0x11332d1e, 0x1e113c33,
  0xcb463d7b, 0x7bcbf646, 0xfc1fb7a8, 0xa8fc4b1f, 0xd6610c6d, 0x6dd6da61, 0x3a4e622c, 0x2c3a584e]

/-- `T[i]`. -/
def groestlT (i : ℕ) : BitVec 32 := BitVec.ofNat 32 (groestlTable.getD i 0)

/-! ### The compression function -/

/-- `COLS512`. -/
abbrev groestlCols512 : ℕ := 8

/-- A state of `2*COLS512` words, two for each column. -/
abbrev GroestlWords := Vector (BitVec 32) (2 * groestlCols512)

/-- The words as bytes, `((uint8_t*)x)[k]`. -/
def groestlByte (x : GroestlWords) (k : ℕ) : BitVec 8 :=
  (x.getD (k / 4) 0).extractLsb' (8 * (k % 4)) 8

/-- `ROTATE_COLUMN_DOWN`, of `(v1, v2)`. -/
def rotateColumnDown (v : BitVec 32 × BitVec 32) (amountBytes : ℕ) : BitVec 32 × BitVec 32 :=
  ((v.1 <<< (8 * amountBytes)) ||| (v.2 >>> (8 * (4 - amountBytes))),
    (v.2 <<< (8 * amountBytes)) ||| (v.1 >>> (8 * (4 - amountBytes))))

/-- The two words of the table for a byte. -/
def groestlEntry (b : BitVec 8) : BitVec 32 × BitVec 32 :=
  (groestlT (2 * b.toNat), groestlT (2 * b.toNat + 1))

/-- `COLUMN`: the words `y[i]` and `y[i+1]`. -/
def groestlColumn (x : GroestlWords) (c0 c1 c2 c3 c4 c5 c6 c7 : ℕ) : BitVec 32 × BitVec 32 :=
  let tu := (groestlEntry (groestlByte x (4 * c0 + 0))).1
  let tl := (groestlEntry (groestlByte x (4 * c0 + 0))).2
  let tv := rotateColumnDown (groestlEntry (groestlByte x (4 * c1 + 1))) 1
  let tu := tu ^^^ tv.1
  let tl := tl ^^^ tv.2
  let tv := rotateColumnDown (groestlEntry (groestlByte x (4 * c2 + 2))) 2
  let tu := tu ^^^ tv.1
  let tl := tl ^^^ tv.2
  let tv := rotateColumnDown (groestlEntry (groestlByte x (4 * c3 + 3))) 3
  let tu := tu ^^^ tv.1
  let tl := tl ^^^ tv.2
  let tl := tl ^^^ (groestlEntry (groestlByte x (4 * c4 + 0))).1
  let tu := tu ^^^ (groestlEntry (groestlByte x (4 * c4 + 0))).2
  let tv := rotateColumnDown (groestlEntry (groestlByte x (4 * c5 + 1))) 1
  let tl := tl ^^^ tv.1
  let tu := tu ^^^ tv.2
  let tv := rotateColumnDown (groestlEntry (groestlByte x (4 * c6 + 2))) 2
  let tl := tl ^^^ tv.1
  let tu := tu ^^^ tv.2
  let tv := rotateColumnDown (groestlEntry (groestlByte x (4 * c7 + 3))) 3
  let tl := tl ^^^ tv.1
  let tu := tu ^^^ tv.2
  (tu, tl)

/-- The words of eight columns. -/
def groestlWords (v : Fin 8 → BitVec 32 × BitVec 32) : GroestlWords :=
  Vector.ofFn fun k : Fin 16 =>
    let column := v (Fin.ofNat 8 (k / 2))
    if (k : ℕ) % 2 = 0 then column.1 else column.2

/-- The constants of `RND512P`. -/
def groestlConstantP (x : GroestlWords) (r : BitVec 32) : GroestlWords := #v[
  x[0] ^^^ (0x00000000 ^^^ r), x[1], x[2] ^^^ (0x00000010 ^^^ r), x[3],
  x[4] ^^^ (0x00000020 ^^^ r), x[5], x[6] ^^^ (0x00000030 ^^^ r), x[7],
  x[8] ^^^ (0x00000040 ^^^ r), x[9], x[10] ^^^ (0x00000050 ^^^ r), x[11],
  x[12] ^^^ (0x00000060 ^^^ r), x[13], x[14] ^^^ (0x00000070 ^^^ r), x[15]]

/-- The constants of `RND512Q`. -/
def groestlConstantQ (x : GroestlWords) (r : BitVec 32) : GroestlWords := #v[
  ~~~x[0], x[1] ^^^ (0xffffffff ^^^ r), ~~~x[2], x[3] ^^^ (0xefffffff ^^^ r),
  ~~~x[4], x[5] ^^^ (0xdfffffff ^^^ r), ~~~x[6], x[7] ^^^ (0xcfffffff ^^^ r),
  ~~~x[8], x[9] ^^^ (0xbfffffff ^^^ r), ~~~x[10], x[11] ^^^ (0xafffffff ^^^ r),
  ~~~x[12], x[13] ^^^ (0x9fffffff ^^^ r), ~~~x[14], x[15] ^^^ (0x8fffffff ^^^ r)]

/-- The uses of `COLUMN` in `RND512P`. -/
def groestlColumnsP (x : GroestlWords) : Fin 8 → BitVec 32 × BitVec 32 := ![
  groestlColumn x 0 2 4 6 9 11 13 15, groestlColumn x 2 4 6 8 11 13 15 1,
  groestlColumn x 4 6 8 10 13 15 1 3, groestlColumn x 6 8 10 12 15 1 3 5,
  groestlColumn x 8 10 12 14 1 3 5 7, groestlColumn x 10 12 14 0 3 5 7 9,
  groestlColumn x 12 14 0 2 5 7 9 11, groestlColumn x 14 0 2 4 7 9 11 13]

/-- The uses of `COLUMN` in `RND512Q`. -/
def groestlColumnsQ (x : GroestlWords) : Fin 8 → BitVec 32 × BitVec 32 := ![
  groestlColumn x 2 6 10 14 1 5 9 13, groestlColumn x 4 8 12 0 3 7 11 15,
  groestlColumn x 6 10 14 2 5 9 13 1, groestlColumn x 8 12 0 4 7 11 15 3,
  groestlColumn x 10 14 2 6 9 13 1 5, groestlColumn x 12 0 4 8 11 15 3 7,
  groestlColumn x 14 2 6 10 13 1 5 9, groestlColumn x 0 4 8 12 15 3 7 11]

/-- `RND512P`, and `cn_groestl_RND512P`: the words of `y`. -/
def groestlRnd512P (x : GroestlWords) (r : BitVec 32) : GroestlWords :=
  groestlWords (groestlColumnsP (groestlConstantP x r))

/-- `RND512Q`, and `cn_groestl_RND512Q`: the words of `y`. -/
def groestlRnd512Q (x : GroestlWords) (r : BitVec 32) : GroestlWords :=
  groestlWords (groestlColumnsQ (groestlConstantQ x r))

/-- The calls of `RND512P` in `F512` and `OutputTransformation`. -/
def groestlP (x : GroestlWords) : GroestlWords :=
  [0x00000000, 0x00000001, 0x00000002, 0x00000003, 0x00000004, 0x00000005, 0x00000006, 0x00000007,
    0x00000008, 0x00000009].foldl groestlRnd512P x

/-- The calls of `RND512Q` in `F512`. -/
def groestlQ (x : GroestlWords) : GroestlWords :=
  [0x00000000, 0x01000000, 0x02000000, 0x03000000, 0x04000000, 0x05000000, 0x06000000, 0x07000000,
    0x08000000, 0x09000000].foldl groestlRnd512Q x

/-- `F512`, and `cn_groestl_F512`, with the block `m` at `p`. -/
def groestlF512 (h : GroestlWords) (m : ByteMem) (p : ℕ) : GroestlWords :=
  let z : GroestlWords := Vector.ofFn fun i : Fin 16 => load32 m (p + 4 * i)
  let ptmp := Vector.zipWith (· ^^^ ·) h z
  let qtmp := groestlQ z
  let ptmp := groestlP ptmp
  Vector.zipWith (· ^^^ ·) h (Vector.zipWith (· ^^^ ·) ptmp qtmp)

/-! ### The functions -/

/-- `groestlHashState`. -/
structure GroestlHashState where
  /-- The state. -/
  chaining : GroestlWords
  /-- The low word of the block counter. -/
  blockCounter1 : BitVec 32
  /-- The high word. -/
  blockCounter2 : BitVec 32
  /-- The buffer. -/
  buffer : ByteMem
  /-- The number of bytes in the buffer. -/
  bufPtr : ℕ
  /-- The number of message bits in the last of them, if not all. -/
  bitsInLastByte : ℕ

/-- `block_counter1++`, with its carry. -/
def GroestlHashState.count (ctx : GroestlHashState) : GroestlHashState :=
  { ctx with
    blockCounter1 := ctx.blockCounter1 + 1
    blockCounter2 :=
      if ctx.blockCounter1 + 1 = 0 then ctx.blockCounter2 + 1 else ctx.blockCounter2 }

/-- The body of the loop of `Transform`. -/
def groestlTakeBlock (input : ByteMem) (ctx : GroestlHashState) (p : ℕ) : GroestlHashState :=
  GroestlHashState.count { ctx with chaining := groestlF512 ctx.chaining input p }

/-- `Transform`, and `cn_groestl_transform`; `msglen` is an `int`. -/
def groestlTransform (input : ByteMem) (ctx : GroestlHashState) (p : ℕ) (msglen : ℤ) :
    GroestlHashState :=
  if msglen ≥ 64 then
    groestlTransform input (groestlTakeBlock input ctx p) (p + 64) (msglen - 64)
  else ctx
termination_by msglen.toNat
decreasing_by omega

/-- `OutputTransformation`, and `cn_groestl_outputtransformation`. -/
def groestlOutputTransformation (ctx : GroestlHashState) : GroestlHashState :=
  { ctx with chaining := Vector.zipWith (· ^^^ ·) ctx.chaining (groestlP ctx.chaining) }

/-- `u32BIG`. -/
def u32Big (a : BitVec 32) : BitVec 32 :=
  let rotl32 (v : BitVec 32) (n : ℕ) := (v <<< n ||| v >>> (32 - n)) &&& 0xffffffff
  (rotl32 a 8 &&& 0x00FF00FF) ||| (rotl32 a 24 &&& 0xFF00FF00)

/-- `Init`, and `cn_groestl_init`; the buffer keeps what it holds. -/
def groestlInit (ctx : GroestlHashState) : GroestlHashState :=
  { ctx with
    chaining := (Vector.replicate (2 * groestlCols512) 0).set (2 * groestlCols512 - 1) (u32Big 256)
    bufPtr := 0
    blockCounter1 := 0
    blockCounter2 := 0
    bitsInLastByte := 0 }

/-- `buffer[buf_ptr++] = b`. -/
def GroestlHashState.put (ctx : GroestlHashState) (b : BitVec 8) : GroestlHashState :=
  { ctx with buffer := storeBytes ctx.buffer ctx.bufPtr [b], bufPtr := ctx.bufPtr + 1 }

/-- The first loop of `Update`, which fills up the buffer. -/
def groestlFill (input : ByteMem) (p : ℕ) (msglen : ℤ) (ctx : GroestlHashState) (index : ℤ) :
    GroestlHashState × ℤ :=
  if ctx.bufPtr < 64 ∧ index < msglen then
    groestlFill input p msglen (ctx.put (input (p + index).toNat)) (index + 1)
  else (ctx, index)
termination_by (msglen - index).toNat
decreasing_by omega

/-- The second loop of `Update`, which stores the remaining data. -/
def groestlKeep (input : ByteMem) (p : ℕ) (msglen : ℤ) (ctx : GroestlHashState) (index : ℤ) :
    GroestlHashState × ℤ :=
  if index < msglen then
    groestlKeep input p msglen (ctx.put (input (p + index).toNat)) (index + 1)
  else (ctx, index)
termination_by (msglen - index).toNat
decreasing_by omega

/-- The remaining bits. -/
def groestlPutBits (ctx : GroestlHashState) (rem : ℕ) (b : BitVec 8) : GroestlHashState :=
  if rem ≠ 0 then ({ ctx with bitsInLastByte := rem } : GroestlHashState).put b else ctx

/-- The end of `Update`: the bulk of the message, and what remains. -/
def groestlBulk (input : ByteMem) (p : ℕ) (msglen : ℤ) (rem : ℕ) (ctx : GroestlHashState)
    (index : ℤ) : GroestlHashState :=
  let ctx := groestlTransform input ctx (p + index).toNat (msglen - index)
  let index := index + (msglen - index).tdiv 64 * 64
  let s := groestlKeep input p msglen ctx index
  groestlPutBits s.1 rem (input (p + s.2).toNat)

/-- `Update`, and `cn_groestl_update`: `databitlen` is a number of bits, `msglen` an `int`. -/
def groestlUpdate (ctx : GroestlHashState) (input : ByteMem) (p databitlen : ℕ) :
    GroestlHashState :=
  let msglen := (BitVec.ofNat 32 (databitlen / 8)).toInt
  let rem := databitlen % 8
  if ctx.bufPtr ≠ 0 then
    let s := groestlFill input p msglen ctx 0
    if s.1.bufPtr < 64 then groestlPutBits s.1 rem (input (p + s.2).toNat)
    else
      let ctx := { s.1 with bufPtr := 0 }
      groestlBulk input p msglen rem (groestlTransform ctx.buffer ctx 0 64) s.2
  else groestlBulk input p msglen rem ctx 0

/-- The `1`-bit of the padding in `Final`. -/
def groestlPutOne (ctx : GroestlHashState) : GroestlHashState :=
  if ctx.bitsInLastByte ≠ 0 then
    let mask := BitVec.ofNat 8 ((1 <<< ctx.bitsInLastByte - 1) <<< (8 - ctx.bitsInLastByte))
    let last := (ctx.buffer (ctx.bufPtr - 1) &&& mask) ^^^
      BitVec.ofNat 8 (1 <<< (7 - ctx.bitsInLastByte))
    { ctx with buffer := storeBytes ctx.buffer (ctx.bufPtr - 1) [last], bitsInLastByte := 0 }
  else ctx.put 0x80

/-- The zeros of the padding in `Final`: the loop up to `limit`. -/
def groestlPutZeros (ctx : GroestlHashState) (limit : ℕ) : GroestlHashState :=
  { ctx with
    buffer := storeBytes ctx.buffer ctx.bufPtr (List.replicate (limit - ctx.bufPtr) 0)
    bufPtr := max ctx.bufPtr limit }

/-- The length padding in `Final`; the two loops that store the counter leave it at zero. -/
def groestlPutLength (ctx : GroestlHashState) : GroestlHashState :=
  let ctx := ctx.count
  { ctx with
    buffer := storeBytes ctx.buffer (64 - 8) (bigEndian64 (ctx.blockCounter2 ++ ctx.blockCounter1))
    bufPtr := 64 - 8
    blockCounter1 := 0
    blockCounter2 := 0 }

/-- `Final`, and `cn_groestl_final`: the state in front of the output. -/
def groestlFinalState (ctx : GroestlHashState) : GroestlHashState :=
  let ctx := groestlPutOne ctx
  let ctx :=
    if ctx.bufPtr > 64 - 8 then
      let ctx := groestlPutZeros ctx 64
      { groestlTransform ctx.buffer ctx 0 64 with bufPtr := 0 }
    else ctx
  let ctx := groestlPutLength (groestlPutZeros ctx (64 - 8))
  groestlOutputTransformation (groestlTransform ctx.buffer ctx 0 64)

/-- `Final`, and `cn_groestl_final`; what they clear at the end is not used again. -/
def groestlFinal (ctx : GroestlHashState) : List (BitVec 8) :=
  (List.range 32).map fun j => groestlByte (groestlFinalState ctx).chaining (64 - 32 + j)

/-- `groestl`, whose state is on the stack and holds `garbage`. -/
def groestl (garbage : GroestlHashState) (data : ByteMem) (p databitlen : ℕ) : List (BitVec 8) :=
  groestlFinal (groestlUpdate (groestlInit garbage) data p databitlen)

/-! ### The round on bytes -/

/-- A state as a matrix of bytes, by rows. -/
abbrev GroestlMatrix := Fin 8 → Fin 8 → BitVec 8

/-- The matrix of the words: byte `i` of column `j`. -/
def groestlMatrix (x : GroestlWords) : GroestlMatrix := fun i j => groestlByte x (8 * j + i)

/-- The S-box, which is that of AES. -/
def groestlS (b : BitVec 8) : BitVec 8 := BitVec.ofNat 8 (sbData.getD b.toNat 0)

/-- Multiplication by two in the AES field. -/
def groestlDouble (b : BitVec 8) : BitVec 8 := (b <<< 1) ^^^ (if b.msb then 0x1b else 0)

/-- Multiplication by a polynomial of degree at most two. -/
def groestlTimes (c : BitVec 3) (b : BitVec 8) : BitVec 8 :=
  (if c.getLsbD 0 then b else 0) ^^^ (if c.getLsbD 1 then groestlDouble b else 0) ^^^
    (if c.getLsbD 2 then groestlDouble (groestlDouble b) else 0)

/-- The first row of the circulant matrix of `MixBytes`. -/
def groestlB : Fin 8 → BitVec 3 := ![2, 2, 3, 4, 5, 3, 5, 7]

/-- `MixBytes`, on a column. -/
def groestlMixBytes (a : Fin 8 → BitVec 8) : Fin 8 → BitVec 8 := fun i =>
  let t k := groestlTimes (groestlB (k - i)) (a k)
  t 0 ^^^ t 1 ^^^ t 2 ^^^ t 3 ^^^ t 4 ^^^ t 5 ^^^ t 6 ^^^ t 7

/-- `SubBytes`, `ShiftBytes` by `σ`, and `MixBytes`. -/
def groestlMix (σ : Fin 8 → Fin 8) (M : GroestlMatrix) : GroestlMatrix := fun i j =>
  groestlMixBytes (fun k => groestlS (M k (j + σ k))) i

/-- Round `r` of the permutation `P`. -/
def groestlRoundP (M : GroestlMatrix) (r : ℕ) : GroestlMatrix :=
  groestlMix (fun k => k) fun i j =>
    if i = 0 then M i j ^^^ (BitVec.ofNat 8 (16 * j) ^^^ BitVec.ofNat 8 r) else M i j

/-- The shifts of `Q`. -/
def groestlShiftQ : Fin 8 → Fin 8 := ![1, 3, 5, 7, 0, 2, 4, 6]

/-- Round `r` of the permutation `Q`. -/
def groestlRoundQ (M : GroestlMatrix) (r : ℕ) : GroestlMatrix :=
  groestlMix groestlShiftQ fun i j =>
    if i = 7 then M i j ^^^ (~~~BitVec.ofNat 8 (16 * j) ^^^ BitVec.ofNat 8 r) else ~~~M i j

/-! ### A round by the table -/

/-- Byte `i` of two words. -/
def pairByte (v : BitVec 32 × BitVec 32) (i : Fin 8) : BitVec 8 :=
  if (i : ℕ) < 4 then v.1.extractLsb' (8 * i) 8 else v.2.extractLsb' (8 * (i - 4 : ℕ)) 8

theorem extractLsb_rotate (v w : BitVec 32) {n i : ℕ} (hn : n < 4) (hi : i < 4) :
    ((v <<< (8 * n)) ||| (w >>> (8 * (4 - n)))).extractLsb' (8 * i) 8
      = if n ≤ i then v.extractLsb' (8 * (i - n)) 8 else w.extractLsb' (8 * (4 + i - n)) 8 := by
  refine BitVec.eq_of_getLsbD_eq fun j hj => ?_
  split
  · next h =>
    have hw : w.getLsbD (8 * (4 - n) + (8 * i + j)) = false := BitVec.getLsbD_of_ge w _ (by omega)
    have hv : 8 * i + j - 8 * n = 8 * (i - n) + j := by omega
    simp only [BitVec.getLsbD_extractLsb', BitVec.getLsbD_or, BitVec.getLsbD_shiftLeft,
      BitVec.getLsbD_ushiftRight, hw, hv, Bool.or_false]
    simp only [show 8 * i + j < 32 by omega, show ¬ 8 * i + j < 8 * n by omega, decide_true,
      decide_false, Bool.not_false, Bool.true_and]
  · next h =>
    have hw : 8 * (4 - n) + (8 * i + j) = 8 * (4 + i - n) + j := by omega
    simp only [BitVec.getLsbD_extractLsb', BitVec.getLsbD_or, BitVec.getLsbD_shiftLeft,
      BitVec.getLsbD_ushiftRight, hw]
    simp only [show 8 * i + j < 8 * n by omega, decide_true, Bool.not_true, Bool.and_false,
      Bool.false_and, Bool.false_or]

theorem val_sub_eight (i n : Fin 8) : ((i - n : Fin 8) : ℕ)
    = if (n : ℕ) ≤ i then (i - n : ℕ) else 8 + i - n := by
  rw [Fin.sub_def]
  dsimp only
  split
  · next h => omega
  · next h => omega

/-- Turning a column turns its bytes. -/
theorem pairByte_rotateColumnDown (v : BitVec 32 × BitVec 32) {n : Fin 8} (hn : (n : ℕ) < 4)
    (i : Fin 8) : pairByte (rotateColumnDown v n) i = pairByte v (i - n) := by
  have hi := i.isLt
  rw [pairByte, pairByte, val_sub_eight]
  split
  · next h =>
    rw [rotateColumnDown, extractLsb_rotate _ _ hn h]
    by_cases hle : (n : ℕ) ≤ i
    · rw [if_pos hle, if_pos hle, if_pos (by omega)]
    · rw [if_neg hle, if_neg hle, if_neg (by omega), show 8 + (i : ℕ) - n - 4 = 4 + i - n by omega]
  · next h =>
    rw [rotateColumnDown, extractLsb_rotate _ _ hn (by omega), if_pos (show (n : ℕ) ≤ i by omega)]
    by_cases hle : (n : ℕ) ≤ i - 4
    · rw [if_pos hle, if_neg (by omega), show (i : ℕ) - 4 - n = i - n - 4 by omega]
    · rw [if_neg hle, if_pos (by omega), show 4 + ((i : ℕ) - 4) - n = i - n by omega]

theorem pairByte_swap (v : BitVec 32 × BitVec 32) (i : Fin 8) :
    pairByte (v.2, v.1) i = pairByte v (i - 4) := by
  have hi := i.isLt
  rw [pairByte, pairByte, val_sub_eight]
  by_cases h : (i : ℕ) < 4
  · rw [if_pos h, if_neg (show ¬ ((4 : Fin 8) : ℕ) ≤ i by simpa using h), if_neg (by omega)]
    congr 2
    omega
  · rw [if_neg h, if_pos (show ((4 : Fin 8) : ℕ) ≤ i by simpa using h), if_pos (by omega)]
    rfl

theorem pairByte_xor (v w : BitVec 32 × BitVec 32) (i : Fin 8) :
    pairByte (v.1 ^^^ w.1, v.2 ^^^ w.2) i = pairByte v i ^^^ pairByte w i := by
  rw [pairByte, pairByte, pairByte]
  split <;> exact BitVec.extractLsb'_xor

/-- The column of `MixBytes` for a byte. -/
def groestlMixColumn (s : BitVec 8) : List (BitVec 8) :=
  (List.finRange 8).map fun i => groestlTimes (groestlB (-i)) s

/-- **The table** holds such a column for every byte of the S-box. -/
theorem groestlTable_eq : groestlTable = sbData.flatMap fun s =>
    let m := memOf (groestlMixColumn (BitVec.ofNat 8 s))
    [(load32 m 0).toNat, (load32 m 4).toNat] := by
  decide +kernel

theorem getD_flatMap_pair {f g : ℕ → ℕ} (l : List ℕ) {k : ℕ} (hk : k < l.length) :
    (l.flatMap fun s => [f s, g s]).getD (2 * k) 0 = f (l.getD k 0) ∧
      (l.flatMap fun s => [f s, g s]).getD (2 * k + 1) 0 = g (l.getD k 0) := by
  induction l generalizing k with
  | nil => simp at hk
  | cons s l ih =>
    cases k with
    | zero => exact ⟨rfl, rfl⟩
    | succ k => exact ih (by simpa using hk)

theorem load32_byte (m : ByteMem) (p : ℕ) {i : ℕ} (hi : i < 4) :
    (load32 m p).extractLsb' (8 * i) 8 = m (p + i) := by
  obtain ⟨h0, h1, h2⟩ := load32_low m p
  interval_cases i
  exacts [h0, h1, h2, load32_top m p]

/-- The bytes of the words of the table. -/
theorem pairByte_groestlEntry (b : BitVec 8) (i : Fin 8) :
    pairByte (groestlEntry b) i = groestlTimes (groestlB (-i)) (groestlS b) := by
  have hb : b.toNat < sbData.length := lt_of_lt_of_eq b.isLt (by decide +kernel)
  obtain ⟨hlow, hhigh⟩ := getD_flatMap_pair
    (f := fun s => (load32 (memOf (groestlMixColumn (BitVec.ofNat 8 s))) 0).toNat)
    (g := fun s => (load32 (memOf (groestlMixColumn (BitVec.ofNat 8 s))) 4).toNat) sbData hb
  have hcol (k : ℕ) (hk : k < 8) : memOf (groestlMixColumn (groestlS b)) k
      = groestlTimes (groestlB (-⟨k, hk⟩)) (groestlS b) := by
    rw [memOf, groestlMixColumn, List.getD_eq_getElem?_getD, List.getElem?_map,
      List.getElem?_eq_getElem (by simpa using hk), Option.map_some, Option.getD_some,
      List.getElem_finRange]
    rfl
  have hi := i.isLt
  rw [pairByte, groestlEntry, groestlT, groestlT, groestlTable_eq]
  dsimp only
  rw [hlow, hhigh, BitVec.ofNat_toNat, BitVec.ofNat_toNat, BitVec.setWidth_eq, BitVec.setWidth_eq]
  split
  · next h => rw [load32_byte _ _ h, Nat.zero_add]; exact hcol i hi
  · next h =>
    rw [load32_byte _ _ (by omega), Nat.add_sub_cancel' (by omega)]
    exact hcol i hi

/-- The sum of two columns. -/
def xorPair (v w : BitVec 32 × BitVec 32) : BitVec 32 × BitVec 32 := (v.1 ^^^ w.1, v.2 ^^^ w.2)

/-- **A column by the table** is one of `MixBytes`. -/
theorem pairByte_groestlColumn (x : GroestlWords) (c0 c1 c2 c3 c4 c5 c6 c7 : ℕ) (i : Fin 8) :
    pairByte (groestlColumn x c0 c1 c2 c3 c4 c5 c6 c7) i
      = groestlMixBytes (fun k => groestlS (![groestlByte x (4 * c0 + 0),
          groestlByte x (4 * c1 + 1), groestlByte x (4 * c2 + 2), groestlByte x (4 * c3 + 3),
          groestlByte x (4 * c4 + 0), groestlByte x (4 * c5 + 1), groestlByte x (4 * c6 + 2),
          groestlByte x (4 * c7 + 3)] k)) i := by
  have h1 (v i) : pairByte (rotateColumnDown v 1) i = pairByte v (i - 1) :=
    pairByte_rotateColumnDown v (n := 1) (by decide) i
  have h2 (v i) : pairByte (rotateColumnDown v 2) i = pairByte v (i - 2) :=
    pairByte_rotateColumnDown v (n := 2) (by decide) i
  have h3 (v i) : pairByte (rotateColumnDown v 3) i = pairByte v (i - 3) :=
    pairByte_rotateColumnDown v (n := 3) (by decide) i
  have hxor (v w i) : pairByte (xorPair v w) i = pairByte v i ^^^ pairByte w i :=
    pairByte_xor v w i
  have hcolumn : groestlColumn x c0 c1 c2 c3 c4 c5 c6 c7
      = xorPair (xorPair (xorPair (xorPair (xorPair (xorPair (xorPair
          (groestlEntry (groestlByte x (4 * c0 + 0)))
          (rotateColumnDown (groestlEntry (groestlByte x (4 * c1 + 1))) 1))
          (rotateColumnDown (groestlEntry (groestlByte x (4 * c2 + 2))) 2))
          (rotateColumnDown (groestlEntry (groestlByte x (4 * c3 + 3))) 3))
          (groestlEntry (groestlByte x (4 * c4 + 0))).swap)
          (rotateColumnDown (groestlEntry (groestlByte x (4 * c5 + 1))) 1).swap)
          (rotateColumnDown (groestlEntry (groestlByte x (4 * c6 + 2))) 2).swap)
          (rotateColumnDown (groestlEntry (groestlByte x (4 * c7 + 3))) 3).swap := rfl
  have hswap (v i) : pairByte v.swap i = pairByte v (i - 4) := pairByte_swap v i
  simp only [hcolumn, hxor, hswap, h1, h2, h3, pairByte_groestlEntry, groestlMixBytes, sub_sub,
    neg_sub]
  rw [← zero_sub i]
  rfl

theorem getD_ofFn (f : Fin 16 → BitVec 32) {k : ℕ} (hk : k < 16) :
    (Vector.ofFn f).getD k 0 = f ⟨k, hk⟩ := by
  simp [Vector.getD, Array.getD, hk]

/-- The matrix of the columns. -/
theorem groestlMatrix_words (v : Fin 8 → BitVec 32 × BitVec 32) (i j : Fin 8) :
    groestlMatrix (groestlWords v) i j = pairByte (v j) i := by
  have hi := i.isLt
  have hj := j.isLt
  have hword : (8 * (j : ℕ) + i) / 4 < 16 := by omega
  have hcolumn : Fin.ofNat 8 (j : ℕ) = j := Fin.ofNat_val_eq_self j
  rw [groestlMatrix, groestlByte, pairByte, groestlWords, getD_ofFn _ hword]
  by_cases h : (i : ℕ) < 4
  · have hmod : (8 * (j : ℕ) + i) / 4 % 2 = 0 := by omega
    have hdiv : (8 * (j : ℕ) + i) / 4 / 2 = j := by omega
    have hbyte : (8 * (j : ℕ) + i) % 4 = i := by omega
    simp only [h, hmod, hdiv, hbyte, hcolumn, if_true]
  · have hmod : ¬ (8 * (j : ℕ) + i) / 4 % 2 = 0 := by omega
    have hdiv : (8 * (j : ℕ) + i) / 4 / 2 = j := by omega
    have hbyte : (8 * (j : ℕ) + i) % 4 = i - 4 := by omega
    simp only [h, hmod, hdiv, hbyte, hcolumn, if_false]

theorem pairByte_groestlColumnsP (x : GroestlWords) (i j : Fin 8) :
    pairByte (groestlColumnsP x j) i
      = groestlMixBytes (fun k => groestlS (groestlMatrix x k (j + k))) i := by
  fin_cases j
  all_goals
    refine (pairByte_groestlColumn x _ _ _ _ _ _ _ _ i).trans ?_
    congr 1
    funext k
    fin_cases k <;> rfl

theorem pairByte_groestlColumnsQ (x : GroestlWords) (i j : Fin 8) :
    pairByte (groestlColumnsQ x j) i
      = groestlMixBytes (fun k => groestlS (groestlMatrix x k (j + groestlShiftQ k))) i := by
  fin_cases j
  all_goals
    refine (pairByte_groestlColumn x _ _ _ _ _ _ _ _ i).trans ?_
    congr 1
    funext k
    fin_cases k <;> rfl

/-- **A round of `P` by the table** is the round on bytes, behind the constants. -/
theorem groestlMatrix_rnd512P (x : GroestlWords) (r : BitVec 32) :
    groestlMatrix (groestlRnd512P x r)
      = groestlMix (fun k => k) (groestlMatrix (groestlConstantP x r)) := by
  funext i j
  rw [groestlRnd512P, groestlMatrix_words, pairByte_groestlColumnsP, groestlMix]

theorem groestlMatrix_rnd512Q (x : GroestlWords) (r : BitVec 32) :
    groestlMatrix (groestlRnd512Q x r)
      = groestlMix groestlShiftQ (groestlMatrix (groestlConstantQ x r)) := by
  funext i j
  rw [groestlRnd512Q, groestlMatrix_words, pairByte_groestlColumnsQ, groestlMix]

/-! ### The constants -/

theorem extractLsb_setWidth (b : BitVec 8) {i : ℕ} (hi : i < 4) :
    (b.setWidth 32).extractLsb' (8 * i) 8 = if i = 0 then b else 0 := by
  refine BitVec.eq_of_getLsbD_eq fun j hj => ?_
  rw [BitVec.getLsbD_extractLsb', BitVec.getLsbD_setWidth]
  split
  · next h => simp [h, hj, show j < 32 by omega]
  · next h => simp [BitVec.getLsbD_of_ge b (8 * i + j) (by omega)]

theorem extractLsb_shiftLeft (b : BitVec 8) {i : ℕ} (hi : i < 4) :
    (b.setWidth 32 <<< 24).extractLsb' (8 * i) 8 = if i = 3 then b else 0 := by
  refine BitVec.eq_of_getLsbD_eq fun j hj => ?_
  rw [BitVec.getLsbD_extractLsb', BitVec.getLsbD_shiftLeft, BitVec.getLsbD_setWidth]
  split
  · next h =>
    have hlt : ¬ 8 * i + j < 24 := by omega
    have hback : 8 * i + j - 24 = j := by omega
    simp [hj, hlt, hback, show 8 * i + j < 32 by omega, show j < 32 by omega]
  · next h => simp [show 8 * i + j < 24 by omega]

theorem extractLsb_not (w : BitVec 32) {i : ℕ} (hi : i < 4) :
    (~~~w).extractLsb' (8 * i) 8 = ~~~w.extractLsb' (8 * i) 8 := by
  refine BitVec.eq_of_getLsbD_eq fun j hj => ?_
  simp [hj, show 8 * i + j < 32 by omega]

/-- The words of a column. -/
def groestlPair (x : GroestlWords) (j : Fin groestlCols512) : BitVec 32 × BitVec 32 :=
  (x[2 * (j : ℕ)], x[2 * (j : ℕ) + 1])

theorem groestlWords_pair (x : GroestlWords) : groestlWords (groestlPair x) = x := by
  refine Vector.ext fun k (hk : k < 16) => ?_
  rw [groestlWords, Vector.getElem_ofFn]
  dsimp only
  split
  · next h =>
    have hback : 2 * (k / 2 % 8) = k := by omega
    simp [groestlPair, hback]
  · next h =>
    have hback : 2 * (k / 2 % 8) + 1 = k := by omega
    simp [groestlPair, hback]

theorem groestlMatrix_pair (x : GroestlWords) (i j : Fin 8) :
    groestlMatrix x i j = pairByte (groestlPair x j) i := by
  conv_lhs => rw [← groestlWords_pair x]
  rw [groestlMatrix_words]

theorem groestlMatrix_constantP (x : GroestlWords) (b : BitVec 8) :
    groestlMatrix (groestlConstantP x (b.setWidth 32)) = fun i j =>
      if i = 0 then groestlMatrix x i j ^^^ (BitVec.ofNat 8 (16 * j) ^^^ b)
      else groestlMatrix x i j := by
  funext i j
  have hpair : groestlPair (groestlConstantP x (b.setWidth 32)) j
      = ((groestlPair x j).1 ^^^ ((BitVec.ofNat 8 (16 * j)).setWidth 32 ^^^ b.setWidth 32),
        (groestlPair x j).2) := by
    fin_cases j <;> rfl
  rw [groestlMatrix_pair, groestlMatrix_pair, hpair, pairByte, pairByte]
  have hzero : i = 0 ↔ (i : ℕ) = 0 := Fin.ext_iff
  split
  · next h =>
    rw [BitVec.extractLsb'_xor, BitVec.extractLsb'_xor, extractLsb_setWidth _ h,
      extractLsb_setWidth _ h]
    by_cases hi : (i : ℕ) = 0
    · simp [hzero, hi]
    · simp [hzero, hi]
  · next h => simp [hzero, show (i : ℕ) ≠ 0 by omega]

theorem groestlMatrix_constantQ (x : GroestlWords) (b : BitVec 8) :
    groestlMatrix (groestlConstantQ x (b.setWidth 32 <<< 24)) = fun i j =>
      if i = 7 then groestlMatrix x i j ^^^ (~~~BitVec.ofNat 8 (16 * j) ^^^ b)
      else ~~~groestlMatrix x i j := by
  funext i j
  have hpair : groestlPair (groestlConstantQ x (b.setWidth 32 <<< 24)) j
      = (~~~(groestlPair x j).1, (groestlPair x j).2 ^^^
        (~~~((BitVec.ofNat 8 (16 * j)).setWidth 32 <<< 24) ^^^ b.setWidth 32 <<< 24)) := by
    fin_cases j <;> rfl
  have hi := i.isLt
  rw [groestlMatrix_pair, groestlMatrix_pair, hpair, pairByte, pairByte]
  have hseven : i = 7 ↔ (i : ℕ) = 7 := Fin.ext_iff
  split
  · next h => simp [hseven, show (i : ℕ) ≠ 7 by omega, extractLsb_not _ h]
  · next h =>
    rw [BitVec.extractLsb'_xor, BitVec.extractLsb'_xor, extractLsb_not _ (by omega),
      extractLsb_shiftLeft _ (by omega), extractLsb_shiftLeft _ (by omega)]
    by_cases hi : (i : ℕ) = 7
    · simp [hseven, hi]
    · rw [if_neg (mt hseven.mp hi), if_neg (by omega), if_neg (by omega)]
      exact BitVec.xor_allOnes

/-! ### The permutations -/

/-- The permutation `P`. -/
def groestlPermP (M : GroestlMatrix) : GroestlMatrix := (List.range 10).foldl groestlRoundP M

/-- The permutation `Q`. -/
def groestlPermQ (M : GroestlMatrix) : GroestlMatrix := (List.range 10).foldl groestlRoundQ M

theorem groestlMatrix_P (x : GroestlWords) :
    groestlMatrix (groestlP x) = groestlPermP (groestlMatrix x) := by
  have hround (x : GroestlWords) (r : ℕ) :
      groestlMatrix (groestlRnd512P x ((BitVec.ofNat 8 r).setWidth 32))
        = groestlRoundP (groestlMatrix x) r := by
    rw [groestlMatrix_rnd512P, groestlMatrix_constantP, groestlRoundP]
  have hrs : ([0x00000000, 0x00000001, 0x00000002, 0x00000003, 0x00000004, 0x00000005, 0x00000006,
      0x00000007, 0x00000008, 0x00000009] : List (BitVec 32))
      = (List.range 10).map fun r => (BitVec.ofNat 8 r).setWidth 32 := by decide
  rw [groestlP, groestlPermP, hrs, List.foldl_map]
  exact (List.foldl_hom groestlMatrix fun x r => (hround x r).symm).symm

theorem groestlMatrix_Q (x : GroestlWords) :
    groestlMatrix (groestlQ x) = groestlPermQ (groestlMatrix x) := by
  have hround (x : GroestlWords) (r : ℕ) :
      groestlMatrix (groestlRnd512Q x ((BitVec.ofNat 8 r).setWidth 32 <<< 24))
        = groestlRoundQ (groestlMatrix x) r := by
    rw [groestlMatrix_rnd512Q, groestlMatrix_constantQ, groestlRoundQ]
  have hrs : ([0x00000000, 0x01000000, 0x02000000, 0x03000000, 0x04000000, 0x05000000, 0x06000000,
      0x07000000, 0x08000000, 0x09000000] : List (BitVec 32))
      = (List.range 10).map fun r => (BitVec.ofNat 8 r).setWidth 32 <<< 24 := by decide
  rw [groestlQ, groestlPermQ, hrs, List.foldl_map]
  exact (List.foldl_hom groestlMatrix fun x r => (hround x r).symm).symm

/-! ### The compression function -/

/-- A block as a matrix. -/
def groestlBlock (b : List (BitVec 8)) : GroestlMatrix := fun i j => b.getD (8 * j + i) 0

/-- The compression function. -/
def groestlF (H : GroestlMatrix) (b : List (BitVec 8)) : GroestlMatrix := fun i j =>
  H i j ^^^ (groestlPermP (fun i j => H i j ^^^ groestlBlock b i j) i j ^^^
    groestlPermQ (groestlBlock b) i j)

/-- The output transformation. -/
def groestlOmega (H : GroestlMatrix) : GroestlMatrix := fun i j => H i j ^^^ groestlPermP H i j

theorem groestlMatrix_xor (x y : GroestlWords) (i j : Fin 8) :
    groestlMatrix (Vector.zipWith (· ^^^ ·) x y) i j
      = groestlMatrix x i j ^^^ groestlMatrix y i j := by
  rw [groestlMatrix_pair, groestlMatrix_pair, groestlMatrix_pair, ← pairByte_xor]
  simp [groestlPair]

theorem groestlMatrix_load (m : ByteMem) (p : ℕ) :
    groestlMatrix (Vector.ofFn fun i : Fin 16 => load32 m (p + 4 * i))
      = groestlBlock (bytes m p 64) := by
  funext i j
  have hi := i.isLt
  have hj := j.isLt
  have hbyte : groestlBlock (bytes m p 64) i j = m (p + (8 * j + i)) :=
    memOf_bytes m p (by omega)
  rw [groestlMatrix_pair, hbyte, groestlPair, pairByte, Vector.getElem_ofFn, Vector.getElem_ofFn]
  split
  · next h =>
    rw [load32_byte _ _ h]
    congr 1
    dsimp only
    omega
  · next h =>
    rw [load32_byte _ _ (by omega)]
    congr 1
    dsimp only
    omega

/-- **The compression function by the table** is the one on bytes. -/
theorem groestlMatrix_F512 (h : GroestlWords) (m : ByteMem) (p : ℕ) :
    groestlMatrix (groestlF512 h m p) = groestlF (groestlMatrix h) (bytes m p 64) := by
  funext i j
  rw [groestlF512, groestlMatrix_xor, groestlMatrix_xor, groestlMatrix_P, groestlMatrix_Q,
    groestlMatrix_load, groestlF]
  congr 3
  funext i j
  rw [groestlMatrix_xor, groestlMatrix_load]

/-! ### The digest -/

/-- The initial value: the size of the digest. -/
def groestlIV : GroestlMatrix := fun i j => if i = 6 ∧ j = 7 then 0x01 else 0

/-- The state after `msg`, which is a number of full blocks. -/
def groestlChain (msg : List (BitVec 8)) : GroestlMatrix :=
  (blocks 64 msg).foldl groestlF groestlIV

/-- The byte behind a message: what there is of a last byte of `t` bits, and a one bit. -/
def groestlMarker (t : ℕ) (last : BitVec 8) : BitVec 8 :=
  if t = 0 then 0x80
  else (last &&& BitVec.ofNat 8 ((1 <<< t - 1) <<< (8 - t))) ^^^ BitVec.ofNat 8 (1 <<< (7 - t))

/-- What is put behind `len` bytes of a message that has `t` more bits, in `last`: a one bit,
zeros, and the number of blocks. -/
def groestlPad (len t : ℕ) (last : BitVec 8) : List (BitVec 8) :=
  groestlMarker t last :: (List.replicate ((119 - len % 64) % 64) 0 ++
    bigEndian64 (BitVec.ofNat 64 ((len + 72) / 64)))

/-- The digest of a message of bytes, and `t` bits of a last one: the last four columns. -/
def groestlDigest (msg : List (BitVec 8)) (t : ℕ) (last : BitVec 8) : List (BitVec 8) :=
  let state := groestlOmega (groestlChain (msg ++ groestlPad msg.length t last))
  (List.range 32).map fun k => state (Fin.ofNat 8 k) (Fin.ofNat 8 (4 + k / 8))

/-! ### The buffer -/

/-- What the state holds: a matrix, the number of blocks, the bits of the last byte, and the
bytes in the buffer. -/
structure GroestlHashState.Holds (ctx : GroestlHashState) (H : GroestlMatrix) (c t : ℕ)
    (l : List (BitVec 8)) : Prop where
  /-- The state. -/
  chaining : groestlMatrix ctx.chaining = H
  /-- The blocks are counted. -/
  counter : ctx.blockCounter2 ++ ctx.blockCounter1 = BitVec.ofNat 64 c
  /-- The bits of the last byte. -/
  bits : ctx.bitsInLastByte = t
  /-- The bytes in the buffer are counted. -/
  bufPtr : ctx.bufPtr = l.length
  /-- The buffer. -/
  buffer : bytes ctx.buffer 0 l.length = l

section Stream

variable {ctx : GroestlHashState} {H : GroestlMatrix} {c t : ℕ} {l msg : List (BitVec 8)}

theorem GroestlHashState.Holds.put (h : ctx.Holds H c t l) (b : BitVec 8) :
    (ctx.put b).Holds H c t (l ++ [b]) := by
  have hlen : (l ++ [b]).length = l.length + [b].length := List.length_append
  refine ⟨h.chaining, h.counter, h.bits, ?_, ?_⟩
  · rw [hlen, List.length_singleton, ← h.bufPtr]
    rfl
  · have hbuf := bytes_storeBytes_append ctx.buffer l.length [b]
    rw [h.buffer] at hbuf
    rw [hlen, GroestlHashState.put, h.bufPtr]
    exact hbuf

/-- The second loop of `Update`. -/
theorem GroestlHashState.Holds.keep (h : ctx.Holds H c t l) (input : ByteMem) (p i k : ℕ) :
    (groestlKeep input p (i + k : ℕ) ctx i).1.Holds H c t (l ++ bytes input (p + i) k) ∧
      (groestlKeep input p (i + k : ℕ) ctx i).2 = (i + k : ℕ) := by
  induction k generalizing ctx l i with
  | zero =>
    rw [groestlKeep, if_neg (by simp)]
    exact ⟨by simpa [bytes] using h, rfl⟩
  | succ k ih =>
    have hnext := ih (h.put (input (p + i))) (i + 1)
    have hadd : i + 1 + k = i + (k + 1) := by omega
    have hbytes : bytes input (p + i) (k + 1)
        = [input (p + i)] ++ bytes input (p + (i + 1)) k := by
      rw [Nat.add_comm k, bytes_add]
      rfl
    rw [hadd, List.append_assoc, ← hbytes] at hnext
    rw [groestlKeep, if_pos (by push_cast; omega)]
    exact hnext

/-- The first loop of `Update`. -/
theorem GroestlHashState.Holds.fill (h : ctx.Holds H c t l) (input : ByteMem) (p i k : ℕ)
    (hl : l.length ≤ 64) :
    (groestlFill input p (i + k : ℕ) ctx i).1.Holds H c t
        (l ++ bytes input (p + i) (min k (64 - l.length))) ∧
      (groestlFill input p (i + k : ℕ) ctx i).2 = (i + min k (64 - l.length) : ℕ) := by
  induction k generalizing ctx l i with
  | zero =>
    rw [groestlFill, if_neg (by simp), Nat.zero_min]
    exact ⟨by simpa [bytes] using h, rfl⟩
  | succ k ih =>
    rcases Nat.eq_or_lt_of_le hl with hfull | hlt
    · rw [groestlFill, if_neg (by rw [h.bufPtr]; omega), hfull, Nat.sub_self, Nat.min_zero]
      exact ⟨by simpa [bytes] using h, rfl⟩
    · have hnext := ih (h.put (input (p + i))) (i + 1)
        (by rw [List.length_append, List.length_singleton]; omega)
      have hadd : i + 1 + k = i + (k + 1) := by omega
      have hmin : min (k + 1) (64 - l.length) = 1 + min k (64 - (l.length + 1)) := by omega
      have hsum : i + 1 + min k (64 - (l.length + 1)) = i + (1 + min k (64 - (l.length + 1))) := by
        omega
      rw [hadd, List.append_assoc, List.length_append, List.length_singleton, hsum] at hnext
      rw [groestlFill, if_pos (by rw [h.bufPtr]; push_cast; omega), hmin, bytes_add]
      exact hnext

/-- A block of the message. -/
theorem GroestlHashState.Holds.block (h : ctx.Holds H c t l) (input : ByteMem) (p : ℕ) :
    (groestlTakeBlock input ctx p).Holds (groestlF H (bytes input p 64)) (c + 1) t l := by
  have hlt := ctx.blockCounter1.isLt
  have hcount := append_add_carry ctx.blockCounter2 ctx.blockCounter1 (n := 1) (by decide) hlt
  rw [h.counter, ← BitVec.ofNat_add] at hcount
  exact ⟨by rw [← h.chaining]; exact groestlMatrix_F512 _ _ _, hcount, h.bits, h.bufPtr, h.buffer⟩

theorem groestlTransform_one (input : ByteMem) (ctx : GroestlHashState) (p : ℕ) :
    groestlTransform input ctx p 64 = groestlTakeBlock input ctx p := by
  rw [groestlTransform, if_pos (by decide), groestlTransform, if_neg (by decide)]

/-- The loop of `Transform`. -/
theorem groestlTransform_eq (input : ByteMem) (ctx : GroestlHashState) (p n : ℕ) :
    groestlTransform input ctx p n = takeBlocks 64 (groestlTakeBlock input) (n / 64) ctx p := by
  refine loop_eq_takeBlocks (fun ctx p n => groestlTransform input ctx p (n : ℕ))
    (fun ctx _ _ => ctx) (by decide) (fun ctx p n hn => ?_) (fun ctx p n hn => ?_) ctx p n
  · have hsub : (n : ℤ) - 64 = (n - 64 : ℕ) := by omega
    rw [groestlTransform, if_pos (by omega), hsub]
  · rw [groestlTransform, if_neg (by omega)]

theorem groestlChain_concat (hmsg : 64 ∣ msg.length) {b : List (BitVec 8)} (hb : b.length = 64) :
    groestlChain (msg ++ b) = groestlF (groestlChain msg) b := by
  rw [groestlChain, blocks_append (by decide) hmsg, blocks_self (by decide) hb, List.foldl_concat,
    groestlChain]

theorem groestlChain_append_of_lt (hmsg : 64 ∣ msg.length) {b : List (BitVec 8)}
    (hb : b.length < 64) : groestlChain (msg ++ b) = groestlChain msg := by
  rw [groestlChain, blocks_append (by decide) hmsg, blocks_of_lt hb, List.append_nil, groestlChain]

/-! ### A call of `Update` -/

/-- The state when a message has been put in: bytes, and `t` bits of a last one. -/
def GroestlHashState.Absorbed (ctx : GroestlHashState) (msg : List (BitVec 8)) (t : ℕ)
    (last : BitVec 8) : Prop :=
  ctx.Holds (groestlChain msg) (msg.length / 64) t (rest 64 msg ++ if t = 0 then [] else [last])

/-- The bits at the end of `Update`. -/
theorem GroestlHashState.Holds.putBits (h : ctx.Holds H c 0 l) (t : ℕ) (b : BitVec 8) :
    (groestlPutBits ctx t b).Holds H c t (l ++ if t = 0 then [] else [b]) := by
  rw [groestlPutBits]
  by_cases ht : t = 0
  · rw [if_neg (not_not.mpr ht), if_pos ht, List.append_nil, ht]
    exact h
  · rw [if_pos ht, if_neg ht]
    have hset : ({ ctx with bitsInLastByte := t } : GroestlHashState).Holds H c t l :=
      ⟨h.chaining, h.counter, rfl, h.bufPtr, h.buffer⟩
    exact hset.put b

/-- From an empty buffer on, the data are put in. -/
theorem GroestlHashState.Holds.bulk (hmsg : 64 ∣ msg.length)
    (h : ctx.Holds (groestlChain msg) (msg.length / 64) 0 []) (input : ByteMem) (p i n t : ℕ) :
    (groestlBulk input p (i + n : ℕ) t ctx i).Absorbed (msg ++ bytes input (p + i) n) t
      (input (p + (i + n))) := by
  have hsub : ((i + n : ℕ) : ℤ) - (i : ℕ) = (n : ℕ) := by omega
  have haddr (k : ℕ) : ((p : ℤ) + (k : ℕ)).toNat = p + k := by omega
  have hindex : ((i : ℕ) : ℤ) + ((n : ℕ) : ℤ).tdiv 64 * 64 = (i + 64 * (n / 64) : ℕ) := by
    rw [Int.tdiv_eq_ediv_of_nonneg (Int.natCast_nonneg n)]
    omega
  have hend : i + 64 * (n / 64) + n % 64 = i + n := by omega
  rw [groestlBulk, hsub, hindex, haddr, groestlTransform_eq]
  set T := takeBlocks 64 (groestlTakeBlock input) (n / 64) ctx (p + i)
  set full := bytes input (p + i) (64 * (n / 64)) with hfull
  have hT : T.Holds (groestlChain (msg ++ full)) ((msg ++ full).length / 64) 0 [] := by
    refine takeBlocks_inv (fun (ctx : GroestlHashState) msg =>
      ctx.Holds (groestlChain msg) (msg.length / 64) 0 []) (fun ctx p msg hmsg h => ?_)
      (n / 64) (p + i) hmsg h
    have hlen : (msg ++ bytes input p 64).length / 64 = msg.length / 64 + 1 := by
      rw [List.length_append, length_bytes]
      omega
    rw [groestlChain_concat hmsg (length_bytes input p 64), hlen]
    exact h.block input p
  have hdvd : 64 ∣ (msg ++ full).length := by
    rw [List.length_append, hfull, length_bytes]
    omega
  have hshort : (bytes input (p + (i + 64 * (n / 64))) (n % 64)).length < 64 := by
    rw [length_bytes]
    exact Nat.mod_lt _ (by decide)
  have hsplit : msg ++ bytes input (p + i) n
      = msg ++ full ++ bytes input (p + (i + 64 * (n / 64))) (n % 64) := by
    rw [List.append_assoc, hfull, ← Nat.add_assoc, ← bytes_add, Nat.div_add_mod]
  obtain ⟨hkeep, hstop⟩ := hT.keep input p (i + 64 * (n / 64)) (n % 64)
  rw [hend] at hkeep hstop
  have hbits := hkeep.putBits t (input (p + (i + n)))
  have hlen : (msg ++ bytes input (p + i) n).length / 64 = (msg ++ full).length / 64 := by
    rw [List.length_append, List.length_append, hfull, length_bytes, length_bytes]
    omega
  rw [hstop, haddr, GroestlHashState.Absorbed, hlen, hsplit, groestlChain_append_of_lt hdvd hshort,
    rest_append (by decide) hdvd, rest_of_lt hshort]
  exact hbits

/-- **A call of `Update` appends its data**, if their bytes are counted in an `int`. -/
theorem GroestlHashState.Absorbed.update {b : BitVec 8} (h : ctx.Absorbed msg 0 b)
    (input : ByteMem) (p n : ℕ) (ht : t < 8) (hn : n < 2 ^ 31) :
    (groestlUpdate ctx input p (8 * n + t)).Absorbed (msg ++ bytes input p n) t
      (input (p + n)) := by
  have hmsglen : (BitVec.ofNat 32 ((8 * n + t) / 8)).toInt = (n : ℕ) := by
    rw [show (8 * n + t) / 8 = n by omega, BitVec.toInt_eq_toNat_of_lt, BitVec.toNat_ofNat,
      Nat.mod_eq_of_lt (by omega)]
    rw [BitVec.toNat_ofNat]
    omega
  have hrem : (8 * n + t) % 8 = t := by omega
  have hlt : msg.length % 64 < 64 := Nat.mod_lt _ (by decide)
  have h : ctx.Holds (groestlChain msg) (msg.length / 64) 0 (rest 64 msg) := by
    rw [GroestlHashState.Absorbed, if_pos rfl, List.append_nil] at h
    exact h
  have hptr : ctx.bufPtr = msg.length % 64 := h.bufPtr.trans (length_rest 64 msg)
  -- the full blocks in front of what is in the buffer
  set full := msg.take (64 * (msg.length / 64)) with hfull
  have hmsg : full ++ rest 64 msg = msg := take_append_rest 64 msg
  have hflen : full.length = 64 * (msg.length / 64) := List.length_take_of_le (Nat.mul_div_le _ _)
  have hdvd : 64 ∣ full.length := hflen ▸ Nat.dvd_mul_right 64 _
  have hshort : (rest 64 msg).length < 64 := (length_rest 64 msg).trans_lt hlt
  have hchain : groestlChain msg = groestlChain full := by
    rw [← groestlChain_append_of_lt hdvd hshort, hmsg]
  rw [groestlUpdate, hmsglen, hrem]
  dsimp only
  rcases Nat.eq_zero_or_pos (msg.length % 64) with hzero | hpos
  · have hnone : rest 64 msg = [] := List.eq_nil_of_length_eq_zero (by rw [length_rest, hzero])
    rw [hnone] at h
    have hbulk := h.bulk (Nat.dvd_of_mod_eq_zero hzero) input p 0 n t
    rw [Nat.zero_add, Nat.add_zero] at hbulk
    rw [if_neg (by rw [hptr, hzero]; simp)]
    exact hbulk
  · rw [if_pos (by rw [hptr]; omega)]
    obtain ⟨hfill, hindex⟩ := h.fill input p 0 n hshort.le
    rw [Nat.zero_add, Nat.add_zero, length_rest] at hfill
    rw [Nat.zero_add, Nat.zero_add, length_rest] at hindex
    rw [Nat.cast_zero] at hfill hindex
    have hfptr := hfill.bufPtr
    rw [List.length_append, length_rest, length_bytes] at hfptr
    by_cases hfill64 : 64 ≤ msg.length % 64 + n
    · -- the buffer is full: it is a block, and the bulk follows
      rw [min_eq_right (by omega)] at hfill hindex hfptr
      rw [if_neg (by omega), hindex, groestlTransform_one]
      set s := groestlFill input p n ctx 0
      set l := rest 64 msg ++ bytes input p (64 - msg.length % 64) with hl
      have hllen : l.length = 64 := by
        rw [hl, List.length_append, length_rest, length_bytes]
        omega
      have hbuf : bytes s.1.buffer 0 64 = l := hllen ▸ hfill.buffer
      have happ : full ++ l = msg ++ bytes input p (64 - msg.length % 64) := by
        rw [hl, ← List.append_assoc, hmsg]
      have hempty : ({ s.1 with bufPtr := 0 } : GroestlHashState).Holds (groestlChain msg)
          (msg.length / 64) 0 [] := ⟨hfill.chaining, hfill.counter, hfill.bits, rfl, rfl⟩
      have hblock := hempty.block s.1.buffer 0
      have hcount : msg.length / 64 + 1 = (full ++ l).length / 64 := by
        rw [List.length_append, hflen, hllen]
        omega
      rw [hbuf, hchain, ← groestlChain_concat hdvd hllen, hcount] at hblock
      have hdvd' : 64 ∣ (full ++ l).length := by
        rw [List.length_append, hllen]
        exact (Nat.dvd_add_right hdvd).mpr (dvd_refl 64)
      have hbulk := hblock.bulk hdvd' input p (64 - msg.length % 64)
        (n - (64 - msg.length % 64)) t
      have hsum : 64 - msg.length % 64 + (n - (64 - msg.length % 64)) = n := by omega
      rw [happ, List.append_assoc, ← bytes_add, hsum] at hbulk
      exact hbulk
    · rw [min_eq_left (by omega)] at hfill hindex hfptr
      have haddr : ((p : ℤ) + (n : ℕ)).toNat = p + n := by omega
      have hsum : (rest 64 msg ++ bytes input p n).length < 64 := by
        rw [List.length_append, length_rest, length_bytes]
        omega
      have happ : full ++ (rest 64 msg ++ bytes input p n) = msg ++ bytes input p n := by
        rw [← List.append_assoc, hmsg]
      have hcount : (msg ++ bytes input p n).length / 64 = msg.length / 64 := by
        rw [List.length_append, length_bytes]
        omega
      rw [if_pos (by omega), hindex, haddr, GroestlHashState.Absorbed, hcount, ← happ,
        groestlChain_append_of_lt hdvd hsum, ← hchain, rest_append (by decide) hdvd,
        rest_of_lt hsum]
      exact hfill.putBits t (input (p + n))

/-! ### The end of a hash -/

theorem GroestlHashState.Absorbed.putOne {last : BitVec 8} (h : ctx.Absorbed msg t last) :
    (groestlPutOne ctx).Holds (groestlChain msg) (msg.length / 64) 0
      (rest 64 msg ++ [groestlMarker t last]) := by
  rw [GroestlHashState.Absorbed] at h
  rw [groestlPutOne, h.bits, groestlMarker]
  by_cases ht : t = 0
  · rw [if_neg (not_not.mpr ht), if_pos ht]
    rw [if_pos ht, List.append_nil, ht] at h
    exact h.put 0x80
  · rw [if_pos ht, if_neg ht]
    rw [if_neg ht] at h
    have hlen : (rest 64 msg ++ [last]).length = (rest 64 msg).length + 1 := by
      rw [List.length_append, List.length_singleton]
    have hbuf := h.buffer
    rw [hlen, bytes_add, Nat.zero_add] at hbuf
    obtain ⟨hfront, hlast⟩ := List.append_inj hbuf (length_bytes _ _ _)
    have hlast : ctx.buffer (rest 64 msg).length = last := List.singleton_inj.mp hlast
    have hptr : ctx.bufPtr - 1 = (rest 64 msg).length := by rw [h.bufPtr, hlen, Nat.add_sub_cancel]
    rw [hptr, hlast]
    refine ⟨h.chaining, h.counter, rfl, ?_, ?_⟩
    · rw [List.length_append, List.length_singleton, ← hlen]
      exact h.bufPtr
    · have hstore := bytes_storeBytes_append ctx.buffer (rest 64 msg).length
        [(last &&& BitVec.ofNat 8 ((1 <<< t - 1) <<< (8 - t))) ^^^ BitVec.ofNat 8 (1 <<< (7 - t))]
      rw [hfront] at hstore
      rw [List.length_append]
      exact hstore

theorem GroestlHashState.Holds.putZeros (h : ctx.Holds H c t l) {limit : ℕ}
    (hl : l.length ≤ limit) :
    (groestlPutZeros ctx limit).Holds H c t (l ++ List.replicate (limit - l.length) 0) := by
  have hlen : (l ++ List.replicate (limit - l.length) (0 : BitVec 8)).length = limit := by
    rw [List.length_append, List.length_replicate]
    omega
  have hstore := bytes_storeBytes_append ctx.buffer l.length (List.replicate (limit - l.length) 0)
  rw [List.length_replicate, Nat.add_sub_cancel' hl, h.buffer] at hstore
  refine ⟨h.chaining, h.counter, h.bits, ?_, ?_⟩
  · rw [hlen, groestlPutZeros, h.bufPtr]
    exact max_eq_right hl
  · rw [hlen, groestlPutZeros, h.bufPtr]
    exact hstore

/-- The last block, which holds the number of blocks. -/
theorem GroestlHashState.Holds.last (h : ctx.Holds H c t l) (hl : l.length ≤ 56) :
    let ctx := groestlPutLength (groestlPutZeros ctx (64 - 8))
    groestlMatrix (groestlOutputTransformation (groestlTransform ctx.buffer ctx 0 64)).chaining
      = groestlOmega (groestlF H (l ++ List.replicate (56 - l.length) 0 ++
          bigEndian64 (BitVec.ofNat 64 (c + 1)))) := by
  intro ctx'
  have hzeros := h.putZeros hl
  set z := groestlPutZeros ctx 56
  have hlt := z.blockCounter1.isLt
  have hcount := append_add_carry z.blockCounter2 z.blockCounter1 (n := 1) (by decide) hlt
  rw [hzeros.counter, ← BitVec.ofNat_add] at hcount
  have hlen : (l ++ List.replicate (56 - l.length) (0 : BitVec 8)).length = 56 := by
    rw [List.length_append, List.length_replicate]
    omega
  have hfront := hzeros.buffer
  rw [hlen] at hfront
  have hbuf : bytes ctx'.buffer 0 64 = l ++ List.replicate (56 - l.length) 0 ++
      bigEndian64 (BitVec.ofNat 64 (c + 1)) := by
    have hstore := bytes_storeBytes_append z.buffer 56 (bigEndian64 (BitVec.ofNat 64 (c + 1)))
    rw [hfront, ← hcount] at hstore
    rw [← hcount]
    exact hstore
  have hmatrix : groestlMatrix ctx'.chaining = H := hzeros.chaining
  rw [groestlTransform_one]
  funext i j
  rw [groestlOutputTransformation, groestlMatrix_xor, groestlMatrix_P, groestlOmega]
  have hblock : groestlMatrix (groestlTakeBlock ctx'.buffer ctx' 0).chaining
      = groestlF H (l ++ List.replicate (56 - l.length) 0 ++
          bigEndian64 (BitVec.ofNat 64 (c + 1))) := by
    rw [← hbuf, ← hmatrix]
    exact groestlMatrix_F512 _ _ _
  rw [hblock]

/-- The full blocks of the message are not changed by the padding. -/
theorem groestlChain_pad (pad : List (BitVec 8)) {bs : List (List (BitVec 8))}
    (hbs : blocks 64 (rest 64 msg ++ pad) = bs) :
    groestlChain (msg ++ pad) = bs.foldl groestlF (groestlChain msg) := by
  rw [groestlChain, blocks_append_rest (by decide), hbs, List.foldl_append, groestlChain]

/-- **The end of a hash**: the state in front of the output. -/
theorem GroestlHashState.Absorbed.finalState {last : BitVec 8} (h : ctx.Absorbed msg t last) :
    groestlMatrix (groestlFinalState ctx).chaining
      = groestlOmega (groestlChain (msg ++ groestlPad msg.length t last)) := by
  have hlt : msg.length % 64 < 64 := Nat.mod_lt _ (by decide)
  have hone := h.putOne
  set l := rest 64 msg ++ [groestlMarker t last] with hl
  have hlen : l.length = msg.length % 64 + 1 := by
    rw [hl, List.length_append, length_rest, List.length_singleton]
  rw [groestlFinalState]
  dsimp only
  rcases Nat.lt_or_ge 55 (msg.length % 64) with hgt | hle
  · -- the length does not fit into the block of the message
    rw [if_pos (by rw [hone.bufPtr, hlen]; omega)]
    have hzeros := hone.putZeros (show l.length ≤ 64 by omega)
    set z := groestlPutZeros (groestlPutOne ctx) 64
    rw [groestlTransform_one z.buffer]
    set b₁ := l ++ List.replicate (64 - l.length) 0 with hb₁
    have hlen₁ : b₁.length = 64 := by
      rw [hb₁, List.length_append, List.length_replicate]
      omega
    have hbuf : bytes z.buffer 0 64 = b₁ := hlen₁ ▸ hzeros.buffer
    have hblock := hzeros.block z.buffer 0
    rw [hbuf] at hblock
    have hempty : ({ groestlTakeBlock z.buffer z 0 with bufPtr := 0 } : GroestlHashState).Holds
        (groestlF (groestlChain msg) b₁) (msg.length / 64 + 1) 0 [] :=
      ⟨hblock.chaining, hblock.counter, hblock.bits, rfl, rfl⟩
    have hlast := hempty.last (by decide)
    have hcount : msg.length / 64 + 1 + 1 = (msg.length + 72) / 64 := by omega
    have hfill : (119 - msg.length % 64) % 64 = 64 - l.length + 56 := by omega
    have hpad : blocks 64 (rest 64 msg ++ groestlPad msg.length t last) = [b₁,
        List.replicate 56 0 ++ bigEndian64 (BitVec.ofNat 64 ((msg.length + 72) / 64))] := by
      have hsplit : rest 64 msg ++ groestlPad msg.length t last = b₁ ++ (List.replicate 56 0 ++
          bigEndian64 (BitVec.ofNat 64 ((msg.length + 72) / 64))) := by
        rw [groestlPad, hfill, List.replicate_add, hb₁, hl]
        simp only [List.append_assoc, List.cons_append, List.nil_append]
      rw [hsplit, blocks_cons (by decide) hlen₁]
      exact congrArg (List.cons b₁) (blocks_self (by decide) rfl)
    refine hlast.trans ?_
    rw [hcount, groestlChain_pad _ hpad]
    rfl
  · rw [if_neg (by rw [hone.bufPtr, hlen]; omega)]
    have hcount : msg.length / 64 + 1 = (msg.length + 72) / 64 := by omega
    have hfill : (119 - msg.length % 64) % 64 = 56 - l.length := by omega
    have hpad : blocks 64 (rest 64 msg ++ groestlPad msg.length t last)
        = [l ++ List.replicate (56 - l.length) 0 ++
          bigEndian64 (BitVec.ofNat 64 ((msg.length + 72) / 64))] := by
      have hsplit : rest 64 msg ++ groestlPad msg.length t last
          = l ++ List.replicate (56 - l.length) 0 ++
            bigEndian64 (BitVec.ofNat 64 ((msg.length + 72) / 64)) := by
        rw [groestlPad, hfill, hl]
        simp only [List.append_assoc, List.cons_append, List.nil_append]
      rw [hsplit]
      refine blocks_self (by decide) ?_
      rw [List.length_append, List.length_append, List.length_replicate, length_bigEndian64]
      omega
    refine (hone.last (by omega)).trans ?_
    rw [hcount, groestlChain_pad _ hpad]
    rfl

end Stream

theorem GroestlHashState.Absorbed.final {ctx : GroestlHashState} {msg : List (BitVec 8)} {t : ℕ}
    {last : BitVec 8} (h : ctx.Absorbed msg t last) :
    groestlFinal ctx = groestlDigest msg t last := by
  rw [groestlFinal, groestlDigest, ← h.finalState]
  refine List.map_congr_left fun k hk => ?_
  have hk := List.mem_range.mp hk
  rw [groestlMatrix]
  congr 1
  simp only [Fin.val_ofNat]
  omega

theorem groestlInit_absorbed (garbage : GroestlHashState) (b : BitVec 8) :
    (groestlInit garbage).Absorbed [] 0 b := by
  have hmatrix : ∀ i j, groestlMatrix ((Vector.replicate (2 * groestlCols512) 0).set
      (2 * groestlCols512 - 1) (u32Big 256)) i j = groestlIV i j := by decide
  have hcounter : (0 : BitVec 32) ++ (0 : BitVec 32) = BitVec.ofNat 64 0 := by decide
  exact ⟨funext fun i => funext fun j => hmatrix i j, hcounter, rfl, rfl, rfl⟩

/-- A hash of any number of bits, if its bytes are counted in an `int`. -/
theorem groestl_eq_of_lt (garbage : GroestlHashState) (data : ByteMem) (p : ℕ) {databitlen : ℕ}
    (h : databitlen < 2 ^ 34) :
    groestl garbage data p databitlen
      = groestlDigest (bytes data p (databitlen / 8)) (databitlen % 8)
          (data (p + databitlen / 8)) := by
  have hbits : 8 * (databitlen / 8) + databitlen % 8 = databitlen := Nat.div_add_mod _ 8
  have hput := (groestlInit_absorbed garbage 0).update data p (databitlen / 8)
    (t := databitlen % 8) (Nat.mod_lt _ (by decide)) (by omega)
  rw [hbits] at hput
  exact hput.final

/-- The number of bytes is taken as an `int`. -/
theorem groestl_mod (garbage : GroestlHashState) (data : ByteMem) (p n : ℕ) :
    groestl garbage data p (8 * n) = groestl garbage data p (8 * (n % 2 ^ 32)) := by
  have hint : BitVec.ofNat 32 n = BitVec.ofNat 32 (n % 2 ^ 32) :=
    BitVec.eq_of_toNat_eq (by simp)
  rw [groestl, groestl, groestlUpdate, groestlUpdate, Nat.mul_div_cancel_left n (by decide),
    Nat.mul_div_cancel_left (n % 2 ^ 32) (by decide), Nat.mul_mod_right, Nat.mul_mod_right, hint]

/-- When it is negative, there is no message. -/
theorem groestl_of_neg (garbage : GroestlHashState) (data : ByteMem) (p : ℕ) {n : ℕ}
    (h : (BitVec.ofNat 32 n).toInt < 0) :
    groestl garbage data p (8 * n) = groestlDigest [] 0 0 := by
  have hptr : ¬ (groestlInit garbage).bufPtr ≠ 0 := not_not.mpr rfl
  have hindex : ¬ (0 : ℤ) + ((BitVec.ofNat 32 n).toInt - 0).tdiv 64 * 64
      < (BitVec.ofNat 32 n).toInt := by
    have hsign : Int.sign 64 = 1 := rfl
    rw [sub_zero, Int.tdiv_eq_ediv, hsign]
    omega
  rw [groestl, groestlUpdate, if_neg hptr, Nat.mul_div_cancel_left n (by decide), Nat.mul_mod_right,
    groestlBulk, groestlTransform, if_neg (by omega), groestlKeep, if_neg hindex, groestlPutBits,
    if_neg (not_not.mpr rfl)]
  exact (groestlInit_absorbed garbage 0).final

/-- **A hash is the fold over the padded message**, for any number of bytes: an `int` counts
them, and what it cannot count is not hashed. -/
theorem groestl_eq (garbage : GroestlHashState) (data : ByteMem) (p n : ℕ) :
    groestl garbage data p (8 * n)
      = groestlDigest (bytes data p (BitVec.ofNat 32 n).toInt.toNat) 0 0 := by
  have hnat : (BitVec.ofNat 32 n).toNat = n % 2 ^ 32 := BitVec.toNat_ofNat n 32
  rcases lt_or_ge (BitVec.ofNat 32 n).toInt 0 with hneg | hpos
  · rw [groestl_of_neg garbage data p hneg, Int.toNat_of_nonpos hneg.le]
    rfl
  · have hlt : n % 2 ^ 32 < 2 ^ 31 := by
      rw [BitVec.toInt_eq_toNat_cond, hnat] at hpos
      split at hpos <;> omega
    have hint : (BitVec.ofNat 32 n).toInt.toNat = n % 2 ^ 32 := by
      rw [BitVec.toInt_eq_toNat_of_lt (by omega), hnat, Int.toNat_natCast]
    rw [hint, groestl_mod, groestl_eq_of_lt garbage data p (by omega),
      Nat.mul_div_cancel_left (n % 2 ^ 32) (by decide), Nat.mul_mod_right]
    rfl

/-- **It does not matter how a message is cut** into calls of `Update`, of which the last one
may end with some bits. -/
theorem groestlFinal_calls (garbage : GroestlHashState) (cs : List Chunk)
    (hcs : ∀ c ∈ cs, c.len < 2 ^ 31) (data : ByteMem) (p : ℕ) {n t : ℕ} (hn : n < 2 ^ 31)
    (ht : t < 8) :
    groestlFinal (groestlUpdate (cs.foldl (fun ctx c => groestlUpdate ctx c.mem c.start (8 * c.len))
        (groestlInit garbage)) data p (8 * n + t))
      = groestlDigest (cs.flatMap Chunk.data ++ bytes data p n) t (data (p + n)) := by
  have hput (ctx : GroestlHashState) (msg : List (BitVec 8)) (c : Chunk) (hc : c.len < 2 ^ 31)
      (hctx : ∃ last, ctx.Absorbed msg 0 last) :
      ∃ last, (groestlUpdate ctx c.mem c.start (8 * c.len)).Absorbed (msg ++ c.data) 0 last := by
    obtain ⟨last, hctx⟩ := hctx
    exact ⟨_, hctx.update c.mem c.start c.len (t := 0) (by decide) hc⟩
  obtain ⟨last, hbytes⟩ := foldl_chunks (fun _ n => n < 2 ^ 31)
    (fun ctx msg => ∃ last, GroestlHashState.Absorbed ctx msg 0 last) hput cs []
    (allowed_of_forall cs (fun c hc _ => hcs c hc) 0) ⟨0, groestlInit_absorbed garbage 0⟩
  rw [List.nil_append] at hbytes
  exact (hbytes.update data p n ht hn).final

/-- 100 bytes in two calls, and three bits. -/
theorem groestlFinal_two_calls :
    let data : ByteMem := fun q => BitVec.ofNat 8 q
    let garbage : GroestlHashState := ⟨Vector.replicate 16 1, 2, 3, data, 4, 5⟩
    groestlFinal (groestlUpdate ([⟨data, 0, 70⟩, ⟨data, 70, 30⟩].foldl
        (fun ctx (c : Chunk) => groestlUpdate ctx c.mem c.start (8 * c.len)) (groestlInit garbage))
          data 100 (8 * 0 + 3))
      = groestlDigest
          ([(⟨data, 0, 70⟩ : Chunk), ⟨data, 70, 30⟩].flatMap Chunk.data ++ bytes data 100 0) 3
          (data (100 + 0)) := by
  intro data garbage
  exact groestlFinal_calls garbage [⟨data, 0, 70⟩, ⟨data, 70, 30⟩] (by simp) data 100 (by decide)
    (by decide)

end XmrMiner
