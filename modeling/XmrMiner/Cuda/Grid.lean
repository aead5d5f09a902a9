import XmrMiner.Cuda.Core
import XmrMiner.Cuda.Prepare
import XmrMiner.Lib.Slices

/-!
# The phases of a batch

The host launches `cn_blocks` blocks for a batch of `cn_blocks * cn_threads` hashes, whose
scratchpads, states and keys lie one behind the other in the arrays of the device.  The threads
of all blocks take turns in any order.  A turn is an iteration of the loop of a thread, and the
copy of its registers behind the loop is one of its own; the first turn begins with the loads in
front of the loop.  The tables of a block are there before its threads take turns, which
`__syncthreads` sees to; that they wait for each other once more, when they have their texts, is
left out, so that there are more orders here than on the device.  In phase 2 the four threads of a
hash go in lockstep, so that a turn is one of all four.

The arrays are indexed as in the source: with products of type `int`, and with `IndexType`.  A
negative index is in front of the array, and such an access makes the launch fail.

## Main definitions

* `IndexType`, `Device` — a device, with what its architecture selects.
* `GridMem` — the arrays of all hashes, and `GridMem.core`, the slices of one of them.
* `grid1Turn`, `grid2Turn`, `grid3Turn` — a turn in each of the kernels.
* `GridRun`, `gridCoreCpuHash` — how the launches of a batch go, and all of them.
-/

namespace XmrMiner

open ByteMem Slices

/-! ### Devices -/

/-- `IndexType`, in which the kernels of phases 2 and 3 count the words of `d_long_state`. -/
inductive IndexType
  /-- `int`, without the option `LARGEGRID` or on an architecture below 3.0. -/
  | int
  /-- `uint64_t`. -/
  | uint64
  deriving DecidableEq, Repr

/-- A device: what its architecture selects, and its options. -/
structure Device where
  /-- Which rotation of 64 bits it has. -/
  rotl : Rotl64Impl
  /-- Which rotation of 32 bits it has. -/
  rotr : Rotr32Impl
  /-- Which `shuffle` it has. -/
  shuffle : ShuffleImpl
  /-- Which `IndexType` it has. -/
  index : IndexType
  /-- `cn_blocks`. -/
  blocks : ℕ
  /-- `cn_threads`. -/
  threads : ℕ
  /-- The option `--bfactor`. -/
  bfactor : ℕ

/-- `throughput`, the number of hashes of a batch. -/
def Device.throughput (dev : Device) : ℕ := dev.threads * dev.blocks

/-- `block4`, the size of a block in phase 2. -/
def Device.block4 (dev : Device) : ℕ := dev.threads <<< 2

/-- `block8`, the size of a block in phases 1 and 3. -/
def Device.block8 (dev : Device) : ℕ := dev.threads <<< 3

/-- The indices fit: no product of type `int` overflows, nor does `(IndexType) thread << 19`. -/
def Device.Fits (dev : Device) : Prop :=
  dev.throughput * 50 ≤ 2 ^ 31 ∧ (dev.index = .uint64 ∨ dev.throughput ≤ 4096)

instance Device.decidableFits (dev : Device) : Decidable dev.Fits :=
  inferInstanceAs (Decidable (_ ∧ (_ ∨ _)))

/-- A value of type `int` as an index of an array: a negative one is in front of it. -/
def intIndex (x : ℕ) : Option ℕ :=
  if x % 2 ^ 32 < 2 ^ 31 then some (x % 2 ^ 32) else none

/-- `(IndexType) thread << 19`, as an index. -/
def IndexType.scratchpad : IndexType → ℕ → Option ℕ
  | .int, thread => intIndex (thread <<< 19)
  | .uint64, thread => some ((thread <<< 19) % 2 ^ 64)

/-- An index that was added up in `IndexType` and words of 32 bits without sign, as in phase 3. -/
def IndexType.sum : IndexType → ℕ → ℕ
  | .int, x => x % 2 ^ 32
  | .uint64, x => x % 2 ^ 64

/-- The arrays of the device, for all hashes of a batch. -/
structure GridMem where
  /-- `d_long_state`, `2^19` words a hash. -/
  longState : ℕ → BitVec 32
  /-- `d_ctx_state`, 50 words a hash. -/
  ctxState : ℕ → BitVec 32
  /-- `d_ctx_a`, 4 words a hash. -/
  ctxA : ℕ → BitVec 32
  /-- `d_ctx_b`, 4 words a hash. -/
  ctxB : ℕ → BitVec 32
  /-- `d_ctx_key1`, 40 words a hash. -/
  ctxKey1 : ℕ → BitVec 32
  /-- `d_ctx_key2`, 40 words a hash. -/
  ctxKey2 : ℕ → BitVec 32
  /-- `d_ctx_tweak1_2`, 2 words a hash. -/
  tweak1_2 : ℕ → BitVec 32

/-- The slices of hash `thread`. -/
def GridMem.core (m : GridMem) (thread : ℕ) : CoreCtx where
  longState := slice (2 ^ 19) (thread * 2 ^ 19) m.longState
  ctxState := slice 50 (thread * 50) m.ctxState
  ctxA := loadWords m.ctxA (thread * 4)
  ctxB := loadWords m.ctxB (thread * 4)
  ctxKey1 := slice 40 (thread * 40) m.ctxKey1
  ctxKey2 := slice 40 (thread * 40) m.ctxKey2
  tweak1_2 i := m.tweak1_2 (thread * 2 + i)

/-- A launch of `blocks` blocks, whose threads take turns as in `es`: an event names a block and
a thread of it. -/
def launch {S : Type} (blocks blockDim : ℕ) (turn : S → ℕ → ℕ → Option S) (es : List (ℕ × ℕ))
    (s : S) : Option S :=
  es.foldlM (fun s e => if e.1 < blocks ∧ e.2 < blockDim then turn s e.1 e.2 else some s) s

/-! ### Phase 1 -/

/-- What the threads work on in phase 1. -/
structure Grid1State where
  /-- `long_state`. -/
  longState : ℕ → BitVec 32
  /-- `text` and `i` of each thread of the grid that has taken a turn. -/
  regs : ℕ → Option (Block × ℕ)

/-- What a thread loads before its loop. -/
def grid1Load (ctxState longState : ℕ → BitVec 32) (partidx start thread sub : ℕ) :
    Option (Block × ℕ) := do
  if partidx = 0 then
    let p ← intIndex (thread * 50)
    return (loadWords ctxState (p + sub + 16), start)
  else
    return (loadWords longState ((thread <<< 19) + sub + start - 32), start)

/-- A turn in `cryptonight_core_gpu_phase1`. -/
def grid1Turn (dev : Device) (sharedMemory : ℕ → ℕ → BitVec 32) (ctxState ctxKey1 : ℕ → BitVec 32)
    (partidx start stop : ℕ) (s : Grid1State) (blockIdx threadIdx : ℕ) : Option Grid1State := do
  let r := dev.block8 * blockIdx + threadIdx
  let thread := (r % 2 ^ 32) >>> 3
  let sub := (threadIdx &&& 7) <<< 2
  if thread < dev.throughput then
    let p ← intIndex (thread * 40)
    let key := slice 40 p ctxKey1
    let (text, i) ← s.regs r <|> grid1Load ctxState s.longState partidx start thread sub
    if i < stop then
      let text := cnAesPseudoRoundMut (sharedMemory blockIdx) text key
      return {
        longState := storeWords s.longState ((thread <<< 19) + sub + i) text
        regs := Function.update s.regs r (some (text, i + 32)) }
    else return s
  else return s

/-- `cryptonight_core_gpu_phase1`: part `partidx`.  Shared memory of a block is `u` before the
tables are copied. -/
def gridPhase1 (dev : Device) (bfactor : ℕ) (u : ℕ → ℕ → BitVec 32) (es : List (ℕ × ℕ))
    (partidx : ℕ) (m : GridMem) : Option GridMem := do
  let sharedMemory blockIdx := cnAesGpuInit dev.block8 (u blockIdx)
  let batchsize := 0x80000 >>> bfactor
  let start := partidx * batchsize
  let stop := start + batchsize
  let s ← launch dev.blocks dev.block8
    (grid1Turn dev sharedMemory m.ctxState m.ctxKey1 partidx start stop) es
    ⟨m.longState, fun _ => none⟩
  return { m with longState := s.longState }

/-! ### Phase 2 -/

/-- The registers of the four threads of a hash in phase 2. -/
structure Phase2Regs where
  /-- `a`. -/
  a : Lanes (BitVec 32)
  /-- `d`. -/
  d : Fin 2 → Lanes (BitVec 32)
  /-- The loop variable. -/
  i : ℕ

/-- What the four threads of a hash work on in phase 2. -/
structure Phase2State where
  /-- The slices of the hash. -/
  ctx : Phase2Ctx
  /-- The four words of `shuffleMem`. -/
  sPtr : Lanes (BitVec 32)
  /-- The registers, from the first turn on. -/
  regs : Option Phase2Regs
  /-- Whether they are saved. -/
  saved : Bool

/-- A turn of the four threads of a hash: an iteration if there is one left, and else the copy
of the registers, once. -/
def phase2Turn (l : Launch) (sharedMemory : ℕ → BitVec 32) (d_0 : Lanes (BitVec 32))
    (start stop : ℕ) (s : Phase2State) : Option Phase2State := do
  let r := s.regs.getD ⟨s.ctx.ctxA, ![d_0, s.ctx.ctxB], start⟩
  if r.i < stop then
    let ((a, d), w) ← (phase2Loop l.impl sharedMemory l.variant s.ctx.tweak1_2 1 r.a r.d).run
      ⟨s.ctx.longState, s.sPtr⟩
    return { s with
      ctx := { s.ctx with longState := w.longState }
      sPtr := w.sPtr
      regs := some ⟨a, d, r.i + 1⟩ }
  else if s.saved then return s
  else if l.bfactor > 0 then
    return { s with ctx := { s.ctx with ctxA := r.a, ctxB := r.d 1 }, saved := true }
  else return { s with saved := true }

/-- What the threads work on in phase 2. -/
structure Grid2State where
  /-- `d_long_state`. -/
  longState : ℕ → BitVec 32
  /-- `d_ctx_a`. -/
  ctxA : ℕ → BitVec 32
  /-- `d_ctx_b`. -/
  ctxB : ℕ → BitVec 32
  /-- `shuffleMem` of each block. -/
  shuffleMem : ℕ → ℕ → BitVec 32
  /-- The registers of each hash. -/
  regs : ℕ → Option Phase2Regs
  /-- The hashes whose registers are saved. -/
  saved : ℕ → Bool

/-- A turn in `cryptonight_core_gpu_phase2`, of the threads `4 * quad` and the three behind it. -/
def grid2Turn (dev : Device) (l : Launch) (sharedMemory : ℕ → ℕ → BitVec 32)
    (d_0 : ℕ → Lanes (BitVec 32)) (tweak1_2 : ℕ → BitVec 32) (start stop : ℕ) (s : Grid2State)
    (blockIdx quad : ℕ) : Option Grid2State := do
  let thread := ((dev.block4 * blockIdx + 4 * quad) % 2 ^ 32) >>> 2
  if thread < dev.throughput then
    let t ← intIndex (thread * 2)
    let p ← dev.index.scratchpad thread
    let q ← intIndex (thread * 4)
    let h ← phase2Turn l (sharedMemory blockIdx) (d_0 thread) start stop {
      ctx := {
        longState := slice (2 ^ 19) p s.longState
        ctxA := loadWords s.ctxA q
        ctxB := loadWords s.ctxB q
        tweak1_2 := fun i => tweak1_2 (t + i) }
      sPtr := loadWords (s.shuffleMem blockIdx) (4 * quad)
      regs := s.regs thread
      saved := s.saved thread }
    return {
      longState := setSlice (2 ^ 19) p h.ctx.longState s.longState
      ctxA := storeWords s.ctxA q h.ctx.ctxA
      ctxB := storeWords s.ctxB q h.ctx.ctxB
      shuffleMem := Function.update s.shuffleMem blockIdx
        (storeWords (s.shuffleMem blockIdx) (4 * quad) h.sPtr)
      regs := Function.update s.regs thread h.regs
      saved := Function.update s.saved thread h.saved }
  else return s

/-- What a launch of phase 2 finds where it writes before it reads. -/
structure Grid2Uninit where
  /-- The table array of each block. -/
  sharedMemory : ℕ → ℕ → BitVec 32
  /-- `shuffleMem` of each block. -/
  shuffleMem : ℕ → ℕ → BitVec 32
  /-- The slot `d[0]` of the four threads of each hash. -/
  d_0 : ℕ → Lanes (BitVec 32)

/-- `cryptonight_core_gpu_phase2`: part `partidx`. -/
def gridPhase2 (dev : Device) (variant : ℕ) (u : Grid2Uninit) (es : List (ℕ × ℕ)) (partidx : ℕ)
    (m : GridMem) : Option GridMem := do
  let l := Launch.ofHost dev.shuffle variant dev.block4 dev.bfactor
  let sharedMemory blockIdx := cnAesGpuInit dev.block4 (u.sharedMemory blockIdx)
  let batchsize := 1048576 >>> (2 + dev.bfactor)
  let start := partidx * batchsize
  let stop := start + batchsize
  let s ← launch dev.blocks dev.threads
    (grid2Turn dev l sharedMemory u.d_0 m.tweak1_2 start stop) es
    ⟨m.longState, m.ctxA, m.ctxB, u.shuffleMem, fun _ => none, fun _ => false⟩
  return { m with longState := s.longState, ctxA := s.ctxA, ctxB := s.ctxB }

/-! ### Phase 3 -/

/-- What the threads work on in phase 3. -/
structure Grid3State where
  /-- `d_ctx_state`. -/
  ctxState : ℕ → BitVec 32
  /-- `text` and `i` of each thread of the grid that has taken a turn. -/
  regs : ℕ → Option (Block × ℕ)
  /-- The threads that have put their text back. -/
  stored : ℕ → Bool

/-- A turn in `cryptonight_core_gpu_phase3`. -/
def grid3Turn (dev : Device) (sharedMemory : ℕ → ℕ → BitVec 32) (longState ctxKey2 : ℕ → BitVec 32)
    (start stop : ℕ) (s : Grid3State) (blockIdx threadIdx : ℕ) : Option Grid3State := do
  let r := dev.block8 * blockIdx + threadIdx
  let thread := (r % 2 ^ 32) >>> 3
  let sub := (threadIdx &&& 7) <<< 2
  if thread < dev.throughput then
    let p ← intIndex (thread * 40)
    let q ← intIndex (thread * 50)
    let key := slice 40 p ctxKey2
    let (text, i) := (s.regs r).getD (loadWords s.ctxState (q + sub + 16), start)
    if i < stop then
      let text : Block := fun j =>
        text j ^^^ longState (dev.index.sum ((thread <<< 19) + (sub + i + j)))
      let text := cnAesPseudoRoundMut (sharedMemory blockIdx) text key
      return { s with regs := Function.update s.regs r (some (text, i + 32)) }
    else if s.stored r then return s
    else
      return { s with
        ctxState := storeWords s.ctxState (q + sub + 16) text
        stored := Function.update s.stored r true }
  else return s

/-- `cryptonight_core_gpu_phase3`: part `partidx`.  Shared memory of a block is `u` before the
tables are copied. -/
def gridPhase3 (dev : Device) (bfactor : ℕ) (u : ℕ → ℕ → BitVec 32) (es : List (ℕ × ℕ))
    (partidx : ℕ) (m : GridMem) : Option GridMem := do
  let sharedMemory blockIdx := cnAesGpuInit dev.block8 (u blockIdx)
  let batchsize := 0x80000 >>> bfactor
  let start := partidx * batchsize
  let stop := start + batchsize
  let s ← launch dev.blocks dev.block8
    (grid3Turn dev sharedMemory m.longState m.ctxKey2 start stop) es
    ⟨m.ctxState, fun _ => none, fun _ => false⟩
  return { m with ctxState := s.ctxState }

/-! ### All launches -/

/-- How the launches for a batch go: what they find where they write before they read, and in
which order the threads take turns. -/
structure GridRun where
  /-- Shared memory of each block, at each launch of phase 1. -/
  sharedMemory1 : ℕ → ℕ → ℕ → BitVec 32
  /-- The threads at each launch of phase 1. -/
  turns1 : ℕ → List (ℕ × ℕ)
  /-- What each launch of phase 2 finds. -/
  uninit2 : ℕ → Grid2Uninit
  /-- The hashes of each block, at each launch of phase 2. -/
  turns2 : ℕ → List (ℕ × ℕ)
  /-- Shared memory of each block, at each launch of phase 3. -/
  sharedMemory3 : ℕ → ℕ → ℕ → BitVec 32
  /-- The threads at each launch of phase 3. -/
  turns3 : ℕ → List (ℕ × ℕ)

/-- Every thread of every block gets to its end. -/
structure GridRun.Fair (r : GridRun) (dev : Device) : Prop where
  /-- In phase 1. -/
  phase1 : ∀ i < 1 <<< (dev.bfactor - 4), ∀ blockIdx < dev.blocks, ∀ threadIdx < dev.block8,
    (0x80000 >>> (dev.bfactor - 4)) / 32 ≤ (r.turns1 i).count (blockIdx, threadIdx)
  /-- In phase 2. -/
  phase2 : ∀ i < 1 <<< dev.bfactor, ∀ blockIdx < dev.blocks, ∀ quad < dev.threads,
    1048576 >>> (2 + dev.bfactor) + 1 ≤ (r.turns2 i).count (blockIdx, quad)
  /-- In phase 3. -/
  phase3 : ∀ i < 1 <<< (dev.bfactor - 4), ∀ blockIdx < dev.blocks, ∀ threadIdx < dev.block8,
    (0x80000 >>> (dev.bfactor - 4)) / 32 + 1 ≤ (r.turns3 i).count (blockIdx, threadIdx)

/-- `cryptonight_core_cpu_hash`. -/
def gridCoreCpuHash (dev : Device) (variant : ℕ) (r : GridRun) (m : GridMem) : Option GridMem := do
  let bfactor2 := dev.bfactor - 4
  let partcount := 1 <<< dev.bfactor
  let partcount2 := 1 <<< bfactor2
  let m ← (List.range partcount2).foldlM
    (fun m i => gridPhase1 dev bfactor2 (r.sharedMemory1 i) (r.turns1 i) i m) m
  let m ← (List.range partcount).foldlM
    (fun m i => gridPhase2 dev variant (r.uninit2 i) (r.turns2 i) i m) m
  (List.range partcount2).foldlM
    (fun m i => gridPhase3 dev bfactor2 (r.sharedMemory3 i) (r.turns3 i) i m) m

end XmrMiner
