import XmrMiner.Crypto.SlowHash
import XmrMiner.Cuda.Phase1
import XmrMiner.Cuda.Phase2Refine
import XmrMiner.Cuda.Phase3

/-!
# The phases of one hash

`cryptonight_core_cpu_hash` launches the parts of the three phases one after the other.  Here
they are seen from one hash, which has slices of the arrays that the kernels share.

What a hash finds in shared memory and in the registers is anything, and its lanes take turns
as they like, so long as each of them gets to the end of its loop.

## Main definitions

* `CoreCtx` — the slices of a hash.
* `CoreRun` — how its launches go.
* `cryptonightCoreCpuHash` — the phases.

## Main results

* `cryptonightCoreCpuHash_eq` — **the phases compute the folded state.**
-/

namespace XmrMiner

open ByteMem Blocks

/-! ### The three phases -/

/-- The slices of one hash in the arrays of the device. -/
structure CoreCtx where
  /-- The scratchpad, in `d_long_state`. -/
  longState : ℕ → BitVec 32
  /-- The 50 words in `d_ctx_state`. -/
  ctxState : ℕ → BitVec 32
  /-- The register `a`, in `d_ctx_a`. -/
  ctxA : Lanes (BitVec 32)
  /-- The register `b`, in `d_ctx_b`. -/
  ctxB : Lanes (BitVec 32)
  /-- The 40 words in `d_ctx_key1`. -/
  ctxKey1 : ℕ → BitVec 32
  /-- The 40 words in `d_ctx_key2`. -/
  ctxKey2 : ℕ → BitVec 32
  /-- The tweak, in `d_ctx_tweak1_2`. -/
  tweak1_2 : Fin 2 → BitVec 32

/-- How the launches for one hash go: what they find in shared memory and in the
registers, and in which order the lanes take turns. -/
structure CoreRun where
  /-- Shared memory at each launch of phase 1. -/
  sharedMemory1 : ℕ → ℕ → BitVec 32
  /-- The lanes at each launch of phase 1. -/
  sched1 : ℕ → List (Fin 8)
  /-- What each launch of phase 2 finds. -/
  uninit2 : ℕ → Uninit
  /-- Shared memory at each launch of phase 3. -/
  sharedMemory3 : ℕ → ℕ → BitVec 32
  /-- The lanes at each launch of phase 3. -/
  sched3 : ℕ → List (Fin 8)

/-- Every lane gets to the end of its loop, and in phase 3 to the copy of its text. -/
structure CoreRun.Fair (r : CoreRun) (bfactor : ℕ) : Prop where
  /-- In phase 1. -/
  phase1 : ∀ i < 1 <<< (bfactor - 4), ∀ lane,
    (0x80000 >>> (bfactor - 4)) / 32 ≤ (r.sched1 i).count lane
  /-- In phase 3. -/
  phase3 : ∀ i < 1 <<< (bfactor - 4), ∀ lane,
    (0x80000 >>> (bfactor - 4)) / 32 + 1 ≤ (r.sched3 i).count lane

/-- `cryptonight_core_cpu_hash`, for one hash: blocks have `threads` hashes each. -/
def cryptonightCoreCpuHash (impl : ShuffleImpl) (threads bfactor variant : ℕ) (r : CoreRun)
    (c : CoreCtx) : Option CoreCtx := do
  let p1 := cryptonightCoreCpuHashPhase1 (threads <<< 3) bfactor r.sharedMemory1 r.sched1
    ⟨c.longState, c.ctxState, c.ctxKey1, []⟩
  let p2 ← cryptonightCoreCpuHashPhase2 (Launch.ofHost impl variant (threads <<< 2) bfactor)
    r.uninit2 0 (1 <<< bfactor) ⟨p1.longState, c.ctxA, c.ctxB, c.tweak1_2⟩
  let p3 := cryptonightCoreCpuHashPhase3 (threads <<< 3) bfactor r.sharedMemory3 r.sched3
    ⟨p2.longState, c.ctxState, c.ctxKey2⟩
  return { c with
    longState := p3.longState
    ctxState := p3.ctxState
    ctxA := p2.ctxA
    ctxB := p2.ctxB }

/-! ### Each phase on words -/

section Phases

variable {blockDim bfactor : ℕ} {ws : ℕ → BitVec 32}

/-- The scratchpad that phase 1 leaves. -/
theorem warpScratch_phase1 (hdim : 0 < blockDim) (hf : bfactor ≤ 10) (u : ℕ → ℕ → BitVec 32)
    {sched : ℕ → List (Fin 8)}
    (hsched : ∀ i < 1 <<< (bfactor - 4), ∀ lane,
      (0x80000 >>> (bfactor - 4)) / 32 ≤ (sched i).count lane)
    (ctx : Phase1Ctx) (hwritten : ctx.written = []) (hstate : ∀ w < 50, ctx.ctxState w = ws w)
    (hkey : ∀ n < 10, loadWords ctx.ctxKey1 (4 * n) = expandedKey ws 0 n) :
    warpScratch (cryptonightCoreCpuHashPhase1 blockDim bfactor u sched ctx).longState
      = filledPad ws := by
  obtain ⟨n, hn, hbatch, hparts⟩ := batchsize_eq hf
  rw [hbatch, Nat.mul_div_cancel_left n (by decide)] at hsched
  have hstart : Phase1Ctx.Filled ctx.ctxState ctx.ctxKey1 0 ctx :=
    ⟨rfl, rfl, fun _ j hj => absurd hj j.not_lt_zero, fun w => by simp [hwritten]⟩
  have hfilled := hstart.parts hdim hn hbatch u hsched
  rw [hparts] at hfilled
  funext k
  -- block `k` is the one that lane `k % 8` has stored in iteration `k / 8`
  have hpad := hfilled.pad (Fin.ofNat 8 k) (k / 8) (by omega)
  have hlane : ((Fin.ofNat 8 (k : ℕ) : Fin 8) : ℕ) = k % 8 := rfl
  have htext : loadWords ctx.ctxState (4 * (k % 8) + 16) = blockAt ws (16 + 4 * (k % 8)) := by
    funext i
    rw [loadWords, hstate _ (by omega), blockAt, Nat.add_comm 16]
  have haddr : 32 * ((k : ℕ) / 8) + 4 * (k % 8) = 4 * k := by omega
  rw [fillText_congr hkey, hlane, htext, haddr] at hpad
  exact hpad

/-- The state that phase 3 leaves. -/
theorem ctxState_phase3 (hdim : 0 < blockDim) (hf : bfactor ≤ 10) (u : ℕ → ℕ → BitVec 32)
    {sched : ℕ → List (Fin 8)}
    (hsched : ∀ i < 1 <<< (bfactor - 4), ∀ lane,
      (0x80000 >>> (bfactor - 4)) / 32 + 1 ≤ (sched i).count lane)
    (ctx : Phase3Ctx) (hstate : ∀ w < 50, ctx.ctxState w = ws w)
    (hkey : ∀ n < 10, loadWords ctx.ctxKey2 (4 * n) = expandedKey ws 8 n) :
    ∀ w < 50, (cryptonightCoreCpuHashPhase3 blockDim bfactor u sched ctx).ctxState w
      = foldedState ws (warpScratch ctx.longState) w := by
  obtain ⟨n, -, hbatch, hparts⟩ := batchsize_eq hf
  rw [hbatch, Nat.mul_div_cancel_left n (by decide)] at hsched
  have hfolded := ctx.folded_parts hdim hbatch u hsched
  rw [hparts] at hfolded
  intro w hw
  unfold foldedState
  split
  · next hmid =>
    -- word `w` is word `w % 4` of the text of its lane
    have hlane : (w - 16) / 4 < 8 := by omega
    have htext := hfolded.text ⟨(w - 16) / 4, hlane⟩
    have hcol : ∀ j < 16384, padWords ctx.longState ⟨(w - 16) / 4, hlane⟩ j
        = padColumn (warpScratch ctx.longState) ((w - 16) / 4) j := by
      intro j hj
      funext i
      rw [padWords, loadWords, padColumn, warpScratch, val_padColumn hlane hj]
      exact congrArg ctx.longState (by simp only; omega)
    have hblock : loadWords ctx.ctxState (4 * ((w - 16) / 4) + 16)
        = blockAt ws (16 + 4 * ((w - 16) / 4)) := by
      funext i
      rw [loadWords, hstate _ (by omega), blockAt, Nat.add_comm 16]
    simp only [foldText_congr hkey _ 16384 hcol, hblock] at htext
    have hword := congrFun htext (Fin.ofNat 4 w)
    have hval : ((Fin.ofNat 4 w : Fin 4) : ℕ) = w % 4 := rfl
    have haddr : 4 * ((w - 16) / 4) + 16 + w % 4 = w := by omega
    rw [loadWords, hval, haddr] at hword
    exact hword
  · next hout => exact (hfolded.frame w (by omega)).trans (hstate w hw)

end Phases

/-! ### The phases together -/

/-- The slices hold what the first kernel puts there for the state `ws`. -/
structure CoreCtx.Ready (c : CoreCtx) (variant : ℕ) (tweak1_2 : BitVec 64)
    (ws : ℕ → BitVec 32) : Prop where
  /-- The state. -/
  ctxState : ∀ w < 50, c.ctxState w = ws w
  /-- The accumulator. -/
  ctxA : c.ctxA = (blockAt ws 0).xor (blockAt ws 8)
  /-- What stands for the last AES output. -/
  ctxB : c.ctxB = (blockAt ws 4).xor (blockAt ws 12)
  /-- The first key. -/
  ctxKey1 : ∀ n < 10, loadWords c.ctxKey1 (4 * n) = expandedKey ws 0 n
  /-- The second key. -/
  ctxKey2 : ∀ n < 10, loadWords c.ctxKey2 (4 * n) = expandedKey ws 8 n
  /-- The tweak, which only the tweaked variants read. -/
  tweak : variant > 0 → ∀ i : Fin 2, c.tweak1_2 i = tweak1_2.extractLsb' (32 * i) 32

/-- **The phases compute the folded state** of the hash, for every value of `--bfactor` that
the miner accepts. -/
theorem cryptonightCoreCpuHash_eq (impl : ShuffleImpl) {threads bfactor variant : ℕ}
    (hthreads : 0 < threads) (hf : bfactor ≤ 10) {r : CoreRun} (hr : r.Fair bfactor)
    {tweak1_2 : BitVec 64} {ws : ℕ → BitVec 32} {c : CoreCtx}
    (hc : c.Ready variant tweak1_2 ws) :
    ∃ c', cryptonightCoreCpuHash impl threads bfactor variant r c = some c' ∧
      ∀ w < 50, c'.ctxState w
        = foldedState ws (mainLoop variant tweak1_2 262144 (loopStart ws)).scratch w := by
  have hdim2 : 0 < threads <<< 2 := by
    rw [Nat.shiftLeft_eq]
    omega
  have hdim3 : 0 < threads <<< 3 := by
    rw [Nat.shiftLeft_eq]
    omega
  have hfill := warpScratch_phase1 hdim3 hf r.sharedMemory1 hr.phase1
    ⟨c.longState, c.ctxState, c.ctxKey1, []⟩ rfl hc.ctxState hc.ctxKey1
  set p1 := cryptonightCoreCpuHashPhase1 (threads <<< 3) bfactor r.sharedMemory1 r.sched1
    ⟨c.longState, c.ctxState, c.ctxKey1, []⟩
  have hstart : (⟨p1.longState, c.ctxA, c.ctxB, c.tweak1_2⟩ : Phase2Ctx).Holds variant tweak1_2
      (loopStart ws) := ⟨hfill, hc.ctxA, hc.ctxB, hc.tweak⟩
  obtain ⟨p2, hrun, hscratch⟩ := exists_cryptonightCoreCpuHashPhase2 impl hdim2 hf r.uninit2 hstart
  have hfold := ctxState_phase3 hdim3 hf r.sharedMemory3 hr.phase3
    ⟨p2.longState, c.ctxState, c.ctxKey2⟩ hc.ctxState hc.ctxKey2
  rw [hscratch] at hfold
  set p3 := cryptonightCoreCpuHashPhase3 (threads <<< 3) bfactor r.sharedMemory3 r.sched3
    ⟨p2.longState, c.ctxState, c.ctxKey2⟩ with hp3
  refine ⟨{ c with
    longState := p3.longState
    ctxState := p3.ctxState
    ctxA := p2.ctxA
    ctxB := p2.ctxB }, ?_, hfold⟩
  rw [cryptonightCoreCpuHash, hrun, hp3]
  rfl

end XmrMiner
