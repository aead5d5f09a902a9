import XmrMiner.Crypto.HashCtx
import XmrMiner.Cuda.GridRefine
import XmrMiner.Cuda.Scan

/-!
# A batch of hashes on the device

A batch is four steps: `cryptonight_extra_gpu_prepare` starts every hash of it,
`cryptonight_core_cpu_hash` launches the parts of the three phases one after the other,
and `cryptonight_extra_gpu_final` permutes each state and applies the hash function that
it selects.  The kernels share arrays in which every hash has its slices.

What is in the arrays, in shared memory and in the registers before is anything, the threads of
the first kernel run in any order, and those of the phases take turns as they like, so long as
each of them gets to its end.

## Main definitions

* `PrepareCtx.grid` — the arrays that the first kernel hands to the phases.
* `BatchRun`, `Device.hash` — the four steps.

## Main results

* `Device.hash_eq` — **every thread computes the hash of the CPU**, of the header with
  its nonce, on a device whose indices fit.
-/

namespace XmrMiner

open ByteMem Blocks Slices

/-! ### The four steps -/

/-- The arrays after the first kernel. -/
def PrepareCtx.grid (d : PrepareCtx) (longState : ℕ → BitVec 32) : GridMem where
  longState := longState
  ctxState w := load32 d.ctxState (4 * w)
  ctxA w := load32 d.ctxA (4 * w)
  ctxB w := load32 d.ctxB (4 * w)
  ctxKey1 w := load32 d.ctxKey1 (4 * w)
  ctxKey2 w := load32 d.ctxKey2 (4 * w)
  tweak1_2 w := load32 d.ctxTweak1_2 (4 * w)

/-- The hash in `cryptonight_extra_gpu_final`, with the four hash functions `extra`. -/
def cnFinalHash (impl : Rotl64Impl) (extra : Fin 4 → List (BitVec 8) → List (BitVec 8))
    (ctxState : ℕ → BitVec 32) : Fin 8 → BitVec 32 :=
  let state := cnKeccakf2 impl (wordsState ctxState)
  digestWords (extra (Fin.ofNat 4 (stateBytes state 0 &&& 3).toNat)
    (bytes (stateBytes state) 0 200))

/-- How a batch goes. -/
structure BatchRun where
  /-- The local arrays of each thread of the first kernel. -/
  locals : ℕ → Prepared
  /-- The array of `cn_keccak` in each of these threads. -/
  keccakSt : ℕ → ByteMem
  /-- The order in which they run. -/
  order : List ℕ
  /-- The arrays of the device before. -/
  arrays : PrepareCtx
  /-- The scratchpads before. -/
  longState : ℕ → BitVec 32
  /-- The launches of the phases. -/
  core : GridRun

/-- Every thread runs, and gets to its end. -/
structure BatchRun.Fair (r : BatchRun) (dev : Device) : Prop where
  /-- The threads of the first kernel. -/
  order : ∀ thread < dev.throughput, thread ∈ r.order
  /-- The threads of the phases. -/
  core : r.core.Fair dev

/-- All threads of a launch, `n` times one after the other. -/
def lockstepTurns (blocks blockDim n : ℕ) : List (ℕ × ℕ) :=
  (List.replicate n (List.range blocks ×ˢ List.range blockDim)).flatten

theorem le_count_lockstepTurns {blocks blockDim b x : ℕ} (n : ℕ) (hb : b < blocks)
    (hx : x < blockDim) : n ≤ (lockstepTurns blocks blockDim n).count (b, x) := by
  have hmem : (b, x) ∈ List.range blocks ×ˢ List.range blockDim :=
    List.pair_mem_product.mpr ⟨List.mem_range.mpr hb, List.mem_range.mpr hx⟩
  have hone : 1 ≤ (List.range blocks ×ˢ List.range blockDim).count (b, x) :=
    List.one_le_count_iff.mpr hmem
  rw [lockstepTurns, List.count_flatten, List.map_replicate, List.sum_replicate_nat]
  exact Nat.le_mul_of_pos_right n hone

/-- A batch in which all arrays hold zeros before, the threads of the first kernel run one after
the other, and those of the phases in lockstep. -/
def lockstepRun (dev : Device) : BatchRun where
  locals _ := ⟨fun _ => 0, fun _ => 0, fun _ => 0, fun _ => 0, fun _ => 0, fun _ => 0, fun _ => 0⟩
  keccakSt _ _ := 0
  order := List.range dev.throughput
  arrays := ⟨fun _ => 0, fun _ => 0, fun _ => 0, fun _ => 0, fun _ => 0, fun _ => 0⟩
  longState _ := 0
  core := {
    sharedMemory1 := fun _ _ _ => 0
    turns1 := fun _ => lockstepTurns dev.blocks dev.block8 ((0x80000 >>> (dev.bfactor - 4)) / 32)
    uninit2 := fun _ => ⟨fun _ _ => 0, fun _ _ => 0, fun _ _ => 0⟩
    turns2 := fun _ => lockstepTurns dev.blocks dev.threads (1048576 >>> (2 + dev.bfactor) + 1)
    sharedMemory3 := fun _ _ _ => 0
    turns3 := fun _ => lockstepTurns dev.blocks dev.block8
      ((0x80000 >>> (dev.bfactor - 4)) / 32 + 1) }

theorem lockstepRun_fair (dev : Device) : (lockstepRun dev).Fair dev where
  order _ h := List.mem_range.mpr h
  core := ⟨fun _ _ _ hb _ hx => le_count_lockstepTurns _ hb hx,
    fun _ _ _ hb _ hx => le_count_lockstepTurns _ hb hx,
    fun _ _ _ hb _ hx => le_count_lockstepTurns _ hb hx⟩

/-- What `thread` compares with the target, in the batch that starts at `startNonce`. -/
def Device.hash (dev : Device) (extra : Fin 4 → List (BitVec 8) → List (BitVec 8)) (r : BatchRun)
    (dInput : ByteMem) (startNonce : BitVec 32) (variant thread : ℕ) :
    Option (Fin 8 → BitVec 32) := do
  let d := r.order.foldl (cryptonightExtraGpuPrepare (cnKeccakf dev.rotl) dev.rotr r.locals
    r.keccakSt dev.throughput dInput startNonce variant) r.arrays
  let m ← gridCoreCpuHash dev variant r.core (d.grid r.longState)
  let p ← intIndex (thread * 50)
  return cnFinalHash dev.rotl extra (slice 50 p m.ctxState)

/-! ### What a thread hands to the phases -/

/-- The device permutes the padded header as the CPU does. -/
theorem prepareThread_cnKeccakf (rotl : Rotl64Impl) (rotr : Rotr32Impl) (u : Prepared)
    (st dInput : ByteMem) (startNonce : BitVec 32) (variant : ℤ) (thread : ℕ) :
    prepareThread (cnKeccakf rotl) rotr u st dInput startNonce variant thread
      = prepareThread (fun s => keccakf s 24) rotr u st dInput startNonce variant thread := by
  have hkeccak : ∀ m, cnKeccak (cnKeccakf rotl) st u.ctxState m 0
      = cnKeccak (fun s => keccakf s 24) st u.ctxState m 0 := fun m =>
    cnKeccak_congr _ _ st u.ctxState m 0 (cnKeccakf_eq rotl (headerLanes_paddedHeader m 0))
  simp only [prepareThread, hkeccak]

/-- A word of a slot. -/
theorem slice_words (m : ByteMem) (thread : ℕ) {k w : ℕ} (hw : w < k) :
    slice k (thread * k) (fun q => load32 m (4 * q)) w = load32 m (thread * k * 4 + 4 * w) := by
  rw [slice_apply hw, Nat.mul_add, Nat.mul_comm 4 (thread * k)]

/-- A slot of four words. -/
theorem loadWords_words (m : ByteMem) (thread : ℕ) :
    loadWords (fun q => load32 m (4 * q)) (thread * 4) = loadBlock m (thread * 4 * 4) := by
  funext i
  rw [loadWords, loadBlock, Nat.mul_add, Nat.mul_comm 4 (thread * 4)]

section Prepare

variable (rotr : Rotr32Impl) (u : Prepared) (st dInput : ByteMem) (startNonce : BitVec 32)
  (variant thread : ℕ)

/-- The first state of a thread: that of the sponge over the header with its nonce. -/
theorem prepareThread_sponge {q : ℕ} (hq : q < 200) :
    (prepareThread (fun s => keccakf s 24) rotr u st dInput startNonce variant thread).ctxState q
      = stateBytes (sponge (fun s => keccakf s 24) 136
          (bytes (nonceHeader dInput startNonce thread) 0 76)) q := by
  set p := prepareThread (fun s => keccakf s 24) rotr u st dInput startNonce variant thread with hp
  have hpad : paddedHeader p.input 0 = paddedHeader (nonceHeader dInput startNonce thread) 0 :=
    paddedHeader_congr fun q hq => by
      rw [Nat.zero_add, hp, prepareThread_input _ _ _ _ _ _ _ _ hq]
  rw [sponge_header, ← hpad]
  exact cnKeccak_apply (fun s => keccakf s 24) st u.ctxState p.input 0 hq

/-- **The slices are ready** when the first kernel has put into them what it computes. -/
theorem PrepareCtx.Holds.ready {d : PrepareCtx} (longState : ℕ → BitVec 32)
    (h : d.Holds variant thread
      (prepareThread (fun s => keccakf s 24) rotr u st dInput startNonce variant thread)) :
    let msg := bytes (nonceHeader dInput startNonce thread) 0 76
    let s := sponge (fun s => keccakf s 24) 136 msg
    ((d.grid longState).core thread).Ready variant (messageTweak msg s) (stateWords s) := by
  intro msg s
  set p := prepareThread (fun s => keccakf s 24) rotr u st dInput startNonce variant thread with hp
  have hbyte : ∀ q < 200, p.ctxState q = stateBytes s q := fun q hq =>
    prepareThread_sponge rotr u st dInput startNonce variant thread hq
  have hword : ∀ w < 50, load32 p.ctxState (4 * w) = stateWords s w := by
    intro w hw
    rw [← load32_stateBytes]
    exact load32_congr fun i hi => hbyte _ (by omega)
  have hblock : ∀ k, k + 4 ≤ 50 → loadBlock p.ctxState (4 * k) = blockAt (stateWords s) k := by
    intro k hk
    funext i
    rw [loadBlock, blockAt, ← hword _ (by omega), Nat.mul_add]
  have ha : loadBlock p.ctxA 0 = (loadBlock p.ctxState 0).xor (loadBlock p.ctxState (4 * 8)) :=
    loadBlock_cudaXorBlocksDst _ _ _ _
  have hb : loadBlock p.ctxB 0
      = (loadBlock p.ctxState (4 * 4)).xor (loadBlock p.ctxState (4 * 12)) :=
    loadBlock_cudaXorBlocksDst _ _ _ _
  have hkey : ∀ (key : ByteMem) (k : ℕ), k + 8 ≤ 50 → ∀ n < 10, ∀ i : Fin 4,
      load32 (cryptonightAesSetKey rotr key p.ctxState (4 * k)) (4 * (4 * n + i))
        = expandedKey (stateWords s) k n i := by
    intro key k hk n hn i
    rw [load32_cryptonightAesSetKey rotr key p.ctxState (4 * k) (by omega), expandedKey]
    refine scheduleWord_congr _ (by decide) (fun j hj => ?_) _
    rw [← hword _ (by omega), Nat.mul_add]
  refine ⟨fun w hw => ?_, ?_, ?_, fun n hn => ?_, fun n hn => ?_, fun hv i => ?_⟩
  · rw [← hword w hw]
    refine (slice_words d.ctxState thread hw).trans (load32_eq_of_bytes fun i hi => ?_)
    rw [Nat.add_assoc]
    exact h.ctxState _ (by omega)
  · rw [← hblock 0 (by decide), ← hblock 8 (by decide), Nat.mul_zero, ← ha]
    exact (loadWords_words d.ctxA thread).trans
      (loadBlock_eq_of_bytes fun i hi => by rw [h.ctxA i hi, Nat.zero_add])
  · rw [← hblock 4 (by decide), ← hblock 12 (by decide), ← hb]
    exact (loadWords_words d.ctxB thread).trans
      (loadBlock_eq_of_bytes fun i hi => by rw [h.ctxB i hi, Nat.zero_add])
  · funext i
    rw [← hkey u.ctxKey1 0 (by decide) n hn i]
    refine (slice_words d.ctxKey1 thread (by omega)).trans (load32_eq_of_bytes fun j hj => ?_)
    rw [Nat.add_assoc]
    exact h.ctxKey1 _ (by omega)
  · funext i
    rw [← hkey u.ctxKey2 8 (by decide) n hn i]
    refine (slice_words d.ctxKey2 thread (by omega)).trans (load32_eq_of_bytes fun j hj => ?_)
    rw [Nat.add_assoc]
    exact h.ctxKey2 _ (by omega)
  · have hpos : (variant : ℤ) > 0 := by omega
    have hword64 : load64 p.ctxState (8 * 24) = s 24 := by
      rw [← congrFun (wordsState_stateWords s) 24]
      exact congrArg₂ (· ++ ·) (hword 49 (by decide)) (hword 48 (by decide))
    have hinput : load64 (nonceHeader dInput startNonce thread) 35 = load64 (memOf msg) 35 :=
      load64_eq_of_bytes fun j hj => by rw [memOf_bytes _ _ (by omega), Nat.zero_add]
    have htweak := prepareThread_tweak (fun s => keccakf s 24) rotr u st dInput startNonce variant
      thread hpos
    rw [← hp, hinput, hword64] at htweak
    rw [messageTweak, ← htweak]
    have hslot : load32 d.ctxTweak1_2 (4 * (thread * 2 + i)) = load32 p.tweak1_2 (4 * i) := by
      refine load32_eq_of_bytes fun j hj => ?_
      rw [Nat.mul_add, Nat.mul_comm 4 (thread * 2), Nat.add_assoc]
      exact h.ctxTweak1_2 hpos _ (by omega)
    refine hslot.trans ?_
    obtain rfl | rfl : i = 0 ∨ i = 1 := Fin.exists_fin_two.mp ⟨i, rfl⟩
    · exact (BitVec.extractLsb'_append_eq_right (a := load32 p.tweak1_2 4)).symm
    · exact (BitVec.extractLsb'_append_eq_left (b := load32 p.tweak1_2 0)).symm

end Prepare

/-! ### What a thread computes -/

/-- **Every thread computes the slow hash** of the header with its nonce, however the batch
goes. -/
theorem Device.hash_eq (dev : Device) (extra : Fin 4 → List (BitVec 8) → List (BitVec 8))
    (hthreads : 0 < dev.threads) (hf : dev.bfactor ≤ 10) (hfits : dev.Fits) {r : BatchRun}
    (hr : r.Fair dev) (dInput : ByteMem) (startNonce : BitVec 32) (variant : ℕ) {thread : ℕ}
    (hthread : thread < dev.throughput) :
    dev.hash extra r dInput startNonce variant thread
      = some (digestWords (cryptonight (fun s => keccakf s 24) extra variant
          (bytes (nonceHeader dInput startNonce thread) 0 76))) := by
  set d := r.order.foldl (cryptonightExtraGpuPrepare (cnKeccakf dev.rotl) dev.rotr r.locals
    r.keccakSt dev.throughput dInput startNonce variant) r.arrays with hd
  -- the state of every hash after the first kernel
  set msg : ℕ → List (BitVec 8) := fun t => bytes (nonceHeader dInput startNonce t) 0 76
  set s : ℕ → KeccakState := fun t => sponge (fun s => keccakf s 24) 136 (msg t)
  have hready : ∀ t < dev.throughput, ((d.grid r.longState).core t).Ready variant
      (messageTweak (msg t) (s t)) (stateWords (s t)) := by
    intro t ht
    have hholds := PrepareCtx.Holds.run (cnKeccakf dev.rotl) dev.rotr r.locals r.keccakSt dInput
      startNonce variant ht r.order r.arrays (Or.inl (hr.order t ht))
    rw [prepareThread_cnKeccakf, ← hd] at hholds
    exact hholds.ready dev.rotr (r.locals t) (r.keccakSt t) dInput startNonce variant t r.longState
  -- and after the phases
  have hphases : ∀ t < dev.throughput, ∃ c, cryptonightCoreCpuHash dev.shuffle dev.threads
      dev.bfactor variant (r.core.core dev t) ((d.grid r.longState).core t) = some c ∧
        ∀ w < 50, c.ctxState w = foldedState (stateWords (s t)) (mainLoop variant
          (messageTweak (msg t) (s t)) 262144 (loopStart (stateWords (s t)))).scratch w :=
    fun t ht => cryptonightCoreCpuHash_eq dev.shuffle hthreads hf (hr.core.core ht) (hready t ht)
  have : Nonempty CoreCtx := ⟨(d.grid r.longState).core 0⟩
  choose! c hc using hphases
  obtain ⟨m, hrun, hm⟩ := gridCoreCpuHash_core hfits hf variant hr.core (d.grid r.longState)
    fun t ht => (hc t ht).1
  have hstate : ∀ w < 50, slice 50 (thread * 50) m.ctxState w = _ := fun w hw =>
    (congrFun (congrArg CoreCtx.ctxState (hm thread hthread)) w).trans ((hc thread hthread).2 w hw)
  have hfinal : cnFinalHash dev.rotl extra (slice 50 (thread * 50) m.ctxState)
      = digestWords (finalHash extra (slowState (fun s => keccakf s 24) variant
          (messageTweak (msg thread) (s thread)) (s thread))) := by
    rw [cnFinalHash, wordsState_congr hstate, cnKeccakf2_eq]
    exact congrArg digestWords (finalHash_eq extra _)
  rw [Device.hash, ← hd]
  simp only [hrun, hfits.intIndex hthread (le_refl 50), Option.bind_eq_bind, Option.bind_some]
  exact congrArg some hfinal

end XmrMiner
