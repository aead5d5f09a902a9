import XmrMiner.Crypto.Aesb
import XmrMiner.Crypto.Mul128

/-!
# The memory-hard loop, on blocks

Half an iteration of the CryptoNight main loop reads one scratchpad block,
encrypts it with one AES round under the register `a`, writes the result back
mixed with the previous one, multiplies it with a second block and writes the
sum over that block.  The CPU and the device lay this out very differently; here
it is stated once on a scratchpad of 16-byte blocks, as what both compute.

## Main definitions

* `LoopState` — scratchpad, register `a` and the last AES output `b`.
* `halfRound`, `mainLoop` — half an iteration, and a number of iterations.
* `variant1Word`, `variant1Block` — the tweak of byte 11.
-/

namespace XmrMiner

open ByteMem

/-- The 2 MiB scratchpad, as blocks. -/
abbrev Scratch := Fin 131072 → Block

/-- What half an iteration works on. -/
@[ext] structure LoopState where
  /-- The scratchpad. -/
  scratch : Scratch
  /-- The accumulator. -/
  a : Block
  /-- The AES output of the half iteration before. -/
  b : Block

/-- The block a register points to: its low bits, less the offset in the block. -/
def blockIndex (x : Block) : Fin 131072 :=
  ⟨(x 0).toNat / 16 % 131072, Nat.mod_lt _ (by decide)⟩

/-- The tweak of one byte: a two-bit entry of the table, selected by three of its
bits, is added onto bits 4 and 5. -/
def variant1Byte (tmp : BitVec 8) : BitVec 8 :=
  let index : BitVec 8 := (((tmp >>> 3) &&& 6) ||| (tmp &&& 1)) <<< 1
  tmp ^^^ (((0x75310 : BitVec 32) >>> index.toNat) &&& 0x30).setWidth 8

/-- The tweak of the top byte of a word. -/
def variant1Word (w : BitVec 32) : BitVec 32 :=
  variant1Byte (w.extractLsb' 24 8) ++ w.extractLsb' 0 24

/-- The tweak of byte 11 of a block. -/
def variant1Block (variant : ℕ) (x : Block) : Block :=
  if variant > 0 then Function.update x 2 (variant1Word (x 2)) else x

/-- The 128-bit product of the low halves of `c` and `d`, added by halves onto `a`:
the high word of the product goes onto the low half of `a`. -/
def mulSum (a c d : Block) : Block :=
  Block.ofHalves (umul64hi c.lo d.lo + a.lo) (c.lo * d.lo + a.hi)

/-- The tweak of the high half of a block. -/
def tweakHigh (variant : ℕ) (tweak1_2 : BitVec 64) (x : Block) : Block :=
  Block.ofHalves x.lo (if variant > 0 then x.hi ^^^ tweak1_2 else x.hi)

/-- Half an iteration of the main loop. -/
def halfRound (variant : ℕ) (tweak1_2 : BitVec 64) (s : LoopState) : LoopState :=
  let i := blockIndex s.a
  let c := aesRound tFn (s.scratch i) s.a
  let scratch := Function.update s.scratch i (variant1Block variant (c.xor s.b))
  let j := blockIndex c
  let d := scratch j
  let res := mulSum s.a c d
  { scratch := Function.update scratch j (tweakHigh variant tweak1_2 res)
    a := d.xor res
    b := c }

/-- One iteration is two halves. -/
def fullRound (variant : ℕ) (tweak1_2 : BitVec 64) (s : LoopState) : LoopState :=
  halfRound variant tweak1_2 (halfRound variant tweak1_2 s)

/-- `n` iterations of the main loop. -/
def mainLoop (variant : ℕ) (tweak1_2 : BitVec 64) (n : ℕ) (s : LoopState) : LoopState :=
  (fullRound variant tweak1_2)^[n] s

end XmrMiner
