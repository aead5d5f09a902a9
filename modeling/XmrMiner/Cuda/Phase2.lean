import XmrMiner.Crypto.MemoryLoop

/-!
# The device main loop

`cryptonight_core_gpu_phase2` gives four lanes to each hash.  Lane `sub` holds
word `sub` of the register `a` and of the two-slot array `d`, whose slots take
turns as the AES output of this half iteration and of the one before.  The lanes
exchange words with `shuffle`, which is a store and a load in shared memory on
old devices and a register exchange on new ones.

The lanes run in lockstep: a value is a function of the lane, and a statement is
carried out by all four lanes before the next one starts.  The scratchpad is the
part of `d_long_state` that belongs to the hash; an access outside of its `2^19`
words makes the run fail, so that a run that ends has stayed inside.

## Main definitions

* `Warp`, `Kernel` — the memory of the four lanes and lockstep programs over it.
* `shuffle`, `loadGlobal32`, `loadGlobal64`, `storeGlobal32` — the primitives.
* `phase2Half`, `phase2Loop` — the body of the inner loop, and the outer loop.
* `cryptonightCoreGpuPhase2` — one launch of the kernel.
-/

namespace XmrMiner

open ByteMem

/-! ### Lockstep programs -/

/-- A value of each lane. -/
abbrev Lanes (α : Type) := Fin 4 → α

/-- The memory the four lanes of one hash share. -/
structure Warp where
  /-- The words of the scratchpad. -/
  longState : ℕ → BitVec 32
  /-- The four words of `shuffleMem`, used by old devices. -/
  sPtr : Lanes (BitVec 32)

/-- A lockstep program; it fails on an access outside of the scratchpad. -/
abbrev Kernel := StateT Warp Option

/-- Lane number `sub & 3`, as a word. -/
def lane (sub : Fin 4) : BitVec 32 := BitVec.ofNat 32 sub

/-- The lane a word names, modulo four. -/
def laneOf (src : BitVec 32) : Fin 4 := ⟨src.toNat % 4, Nat.mod_lt _ (by decide)⟩

/-- The two implementations of `shuffle`. -/
inductive ShuffleImpl
  /-- `__CUDA_ARCH__ < 300`: through shared memory. -/
  | sharedMemory
  /-- `__shfl(val, src, 4)`. -/
  | shfl
  deriving DecidableEq, Repr

/-- `shuffle(sPtr, sub, val, src)`, by all lanes. -/
def shuffle (impl : ShuffleImpl) (val src : Lanes (BitVec 32)) : Kernel (Lanes (BitVec 32)) :=
  match impl with
  | .sharedMemory => do
    -- every lane stores to its own word of `ptr`, and then reads `ptr[src & 3]`
    modify fun w => { w with sPtr := fun sub => val sub }
    let w ← get
    return fun sub => w.sPtr (laneOf (src sub &&& 3))
  | .shfl => return fun sub => val (laneOf (src sub))

/-- `loadGlobal32(long_state + j)`, by all lanes. -/
def loadGlobal32 (j : Lanes (BitVec 32)) : Kernel (Lanes (BitVec 32)) := do
  let w ← get
  if ∀ sub, (j sub).toNat < 2 ^ 19 then
    return fun sub => w.longState (j sub).toNat
  else failure

/-- `loadGlobal64(((uint64_t *) long_state) + j)`, by all lanes, as the two words
`yy[0]` and `yy[1]`. -/
def loadGlobal64 (j : Lanes (BitVec 32)) :
    Kernel (Lanes (BitVec 32) × Lanes (BitVec 32)) := do
  let w ← get
  if ∀ sub, 2 * (j sub).toNat + 1 < 2 ^ 19 then
    return (fun sub => w.longState (2 * (j sub).toNat),
      fun sub => w.longState (2 * (j sub).toNat + 1))
  else failure

/-- `storeGlobal32(long_state + j, val)`, by all lanes. -/
def storeGlobal32 (j val : Lanes (BitVec 32)) : Kernel Unit := do
  let w ← get
  if ∀ sub, (j sub).toNat < 2 ^ 19 then
    set { w with
      longState := (List.finRange 4).foldl
        (fun m sub => Function.update m (j sub).toNat (val sub)) w.longState }
  else failure

/-! ### The kernel -/

/-- `variant1_1` of the device: the tweak of the top byte of a word. -/
def cudaVariant1_1 (src : BitVec 32) : BitVec 32 :=
  let tmp : BitVec 8 := (src >>> 24).setWidth 8
  let table : BitVec 32 := 0x75310
  let index : BitVec 8 := (((tmp >>> 3) &&& 6) ||| (tmp &&& 1)) <<< 1
  (src &&& (0x00ffffff : BitVec 32)) |||
    ((tmp.setWidth 32 ^^^ ((table >>> index.toNat) &&& 0x30)) <<< 24)

/-- The body of the inner loop, for slot `x` of `d`. -/
def phase2Half (impl : ShuffleImpl) (sharedMemory : ℕ → BitVec 32) (variant : ℕ)
    (tweak1_2 : Fin 2 → BitVec 32) (x : Fin 2) (a : Lanes (BitVec 32))
    (d : Fin 2 → Lanes (BitVec 32)) :
    Kernel (Lanes (BitVec 32) × (Fin 2 → Lanes (BitVec 32))) := do
  let sub2 : Fin 4 → BitVec 32 := fun sub => lane sub &&& 2
  let a_0 ← shuffle impl a (fun _ => 0)
  let j : Lanes (BitVec 32) := fun sub => ((a_0 sub &&& 0x1FFFF0) >>> 2) + lane sub
  let x_0 ← loadGlobal32 j
  let x_1 ← shuffle impl x_0 (fun sub => lane sub + 1)
  let x_2 ← shuffle impl x_0 (fun sub => lane sub + 2)
  let x_3 ← shuffle impl x_0 (fun sub => lane sub + 3)
  let d := Function.update d x fun sub =>
    a sub ^^^ sharedMemory (x_0 sub &&& 0xff).toNat ^^^
      sharedMemory (256 + ((x_1 sub >>> 8) &&& 0xff).toNat) ^^^
      sharedMemory (512 + ((x_2 sub >>> 16) &&& 0xff).toNat) ^^^
      sharedMemory (768 + (x_3 sub >>> 24).toNat)
  -- XOR_BLOCKS_DST(c, b, &long_state[j])
  let t1_0 ← shuffle impl (d x) (fun _ => 0)
  let z : Lanes (BitVec 32) := fun sub => d 0 sub ^^^ d 1 sub
  storeGlobal32 j fun sub => if variant > 0 ∧ sub = 2 then cudaVariant1_1 (z sub) else z sub
  -- MUL_SUM_XOR_DST(c, a, &long_state[((uint32_t *)c)[0] & 0x1FFFF0])
  let j : Lanes (BitVec 32) := fun sub => ((t1_0 sub &&& 0x1FFFF0) >>> 2) + lane sub
  let yy ← loadGlobal64 fun sub => j sub >>> 1
  let zz_0 ← shuffle impl yy.1 (fun _ => 0)
  let zz_1 ← shuffle impl yy.2 (fun _ => 0)
  let t1_1 ← shuffle impl (d x) (fun _ => 1)
  let t2_0 ← shuffle impl a (fun sub => 0 + sub2 sub)
  let t2_1 ← shuffle impl a (fun sub => 1 + sub2 sub)
  let t1 : Lanes (BitVec 64) := fun sub => t1_1 sub ++ t1_0 sub
  let zz : Lanes (BitVec 64) := fun sub => zz_1 sub ++ zz_0 sub
  let t2 : Lanes (BitVec 64) := fun sub => (t2_1 sub ++ t2_0 sub) +
    (if sub2 sub ≠ 0 then t1 sub * zz sub else umul64hi (t1 sub) (zz sub))
  let res : Lanes (BitVec 32) := fun sub =>
    (t2 sub >>> (if lane sub &&& 1 ≠ 0 then 32 else 0)).setWidth 32
  storeGlobal32 j fun sub =>
    if variant > 0 ∧ sub2 sub ≠ 0 then
      (if lane sub &&& 1 ≠ 0 then tweak1_2 1 else tweak1_2 0) ^^^ res sub
    else res sub
  return (fun sub => (if lane sub &&& 1 ≠ 0 then yy.2 sub else yy.1 sub) ^^^ res sub, d)

/-- `n` iterations of the outer loop, each of them both halves. -/
def phase2Loop (impl : ShuffleImpl) (sharedMemory : ℕ → BitVec 32) (variant : ℕ)
    (tweak1_2 : Fin 2 → BitVec 32) :
    ℕ → Lanes (BitVec 32) → (Fin 2 → Lanes (BitVec 32)) →
      Kernel (Lanes (BitVec 32) × (Fin 2 → Lanes (BitVec 32)))
  | 0, a, d => return (a, d)
  | n + 1, a, d => do
    let (a, d) ← phase2Half impl sharedMemory variant tweak1_2 0 a d
    let (a, d) ← phase2Half impl sharedMemory variant tweak1_2 1 a d
    phase2Loop impl sharedMemory variant tweak1_2 n a d

/-- The device memory of one hash that the kernel reads and writes: its slices of
`d_long_state`, `d_ctx_a`, `d_ctx_b` and `d_ctx_tweak1_2`. -/
structure Phase2Ctx where
  /-- The words of the scratchpad. -/
  longState : ℕ → BitVec 32
  /-- `ctx_a`. -/
  ctxA : Lanes (BitVec 32)
  /-- `ctx_b`. -/
  ctxB : Lanes (BitVec 32)
  /-- `d_tweak1_2`. -/
  tweak1_2 : Fin 2 → BitVec 32

/-- How the kernel is built and launched. -/
structure Launch where
  /-- Which `shuffle` the device has. -/
  impl : ShuffleImpl
  /-- The template argument. -/
  variant : ℕ
  /-- The number of threads of a block. -/
  blockDim : ℕ
  /-- The option `--bfactor`. -/
  bfactor : ℕ

/-- What a launch finds where it writes before it reads: shared memory, the words
of `shuffleMem` and the slot `d[0]`. -/
structure Uninit where
  /-- The table array. -/
  sharedMemory : ℕ → BitVec 32
  /-- The words of `shuffleMem`. -/
  sPtr : Lanes (BitVec 32)
  /-- The slot `d[0]`. -/
  d_0 : Lanes (BitVec 32)

/-- One part of the loop, from `start` to `stop`: the registers are loaded from the
context, and saved to it only when the loop is cut into parts. -/
def phase2Part (l : Launch) (u : Uninit) (start stop : ℕ) (ctx : Phase2Ctx) :
    Option Phase2Ctx := do
  let sharedMemory := cnAesGpuInit l.blockDim u.sharedMemory
  let ((a, d), w) ← (phase2Loop l.impl sharedMemory l.variant ctx.tweak1_2 (stop - start) ctx.ctxA
    ![u.d_0, ctx.ctxB]).run ⟨ctx.longState, u.sPtr⟩
  if l.bfactor > 0 then
    return { ctx with longState := w.longState, ctxA := a, ctxB := d 1 }
  else
    return { ctx with longState := w.longState }

/-- `cryptonight_core_gpu_phase2`: part `partidx` of the `ITER / 4` iterations. -/
def cryptonightCoreGpuPhase2 (l : Launch) (u : Uninit) (partidx : ℕ) (ctx : Phase2Ctx) :
    Option Phase2Ctx :=
  let batchsize := 1048576 >>> (2 + l.bfactor)
  let start := partidx * batchsize
  let stop := start + batchsize
  phase2Part l u start stop ctx

/-- Consecutive parts, each given by its number of iterations and by what its launch
finds, the first of them beginning at `start`. -/
def phase2Parts (l : Launch) : ℕ → List (ℕ × Uninit) → Phase2Ctx → Option Phase2Ctx
  | _, [], ctx => some ctx
  | start, (n, u) :: parts, ctx => do
    let ctx ← phase2Part l u start (start + n) ctx
    phase2Parts l (start + n) parts ctx

/-- The launch `cryptonight_core_cpu_hash` makes: it has an instance of the template
for variant 0, and one for all the others. -/
def Launch.ofHost (impl : ShuffleImpl) (variant blockDim bfactor : ℕ) : Launch :=
  ⟨impl, if variant = 0 then 0 else 1, blockDim, bfactor⟩

/-- The phase 2 loop of `cryptonight_core_cpu_hash_template`: the launches for the
part numbers from `i` on, `n` of them. -/
def cryptonightCoreCpuHashPhase2 (l : Launch) (u : ℕ → Uninit) : ℕ → ℕ → Phase2Ctx →
    Option Phase2Ctx
  | _, 0, ctx => some ctx
  | i, n + 1, ctx => do
    let ctx ← cryptonightCoreGpuPhase2 l (u i) i ctx
    cryptonightCoreCpuHashPhase2 l u (i + 1) n ctx

end XmrMiner
