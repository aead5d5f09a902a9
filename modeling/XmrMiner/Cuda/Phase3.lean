import XmrMiner.Cuda.Phase1

/-!
# The device fold of the scratchpad

`cryptonight_core_gpu_phase3` folds the scratchpad back into the text bytes of the
state, with the eight lanes and the parts of phase 1.  A part takes its text from
the state, and each lane puts its own back there when it has left its loop, while
others may still be in theirs.  Where the scratchpad of a hash lies in the array of all
scratchpads is left to `XmrMiner.Cuda.Grid`.

## Main definitions

* `Phase3State`, `phase3Step` — a turn of one lane.
* `cryptonightCoreGpuPhase3`, `cryptonightCoreCpuHashPhase3` — one launch, and the
  loop of the host over all parts.

## Main results

* `Phase3Inv.step` — what a turn of a lane adds, in any order of the lanes.
* `cryptonightCoreCpuHashPhase3_refines` — **the device folds the scratchpad as the CPU
  does.**
-/

namespace XmrMiner

open ByteMem

/-! ### The kernel -/

/-- What the eight lanes of one hash work on. -/
structure Phase3State where
  /-- The words of `ctx_state`. -/
  ctxState : ℕ → BitVec 32
  /-- `text` of each lane. -/
  text : Fin 8 → Block
  /-- The loop variable of each lane. -/
  i : Fin 8 → ℕ
  /-- The lanes that have put their text back. -/
  stored : Fin 8 → Bool

/-- A turn of one lane: an iteration if it has one left, and else the copy of its text
to the state, once. -/
def phase3Step (sharedMemory key longState : ℕ → BitVec 32) (stop : ℕ) (s : Phase3State)
    (lane : Fin 8) : Phase3State :=
  if s.i lane < stop then
    let text : Block := fun j => s.text lane j ^^^ longState (subOf lane + s.i lane + j)
    let text := cnAesPseudoRoundMut sharedMemory text key
    { s with
      text := Function.update s.text lane text
      i := Function.update s.i lane (s.i lane + 32) }
  else if s.stored lane then s
  else
    { s with
      ctxState := storeWords s.ctxState (subOf lane + 16) (s.text lane)
      stored := Function.update s.stored lane true }

/-- The device memory of one hash that the kernel reads and writes. -/
structure Phase3Ctx where
  /-- Its part of `long_state`. -/
  longState : ℕ → BitVec 32
  /-- The 50 words of `d_ctx_state`. -/
  ctxState : ℕ → BitVec 32
  /-- The 40 words of `d_ctx_key2`. -/
  ctxKey2 : ℕ → BitVec 32

/-- The lanes before the loop; they wait for each other once they have their text. -/
def phase3Start (start : ℕ) (ctx : Phase3Ctx) : Phase3State where
  ctxState := ctx.ctxState
  text lane := loadWords ctx.ctxState (subOf lane + 16)
  i _ := start
  stored _ := false

/-- `cryptonight_core_gpu_phase3`: part `partidx`, whose lanes take turns as in `sched`.
Shared memory is `u` before the tables are copied. -/
def cryptonightCoreGpuPhase3 (blockDim bfactor : ℕ) (u : ℕ → BitVec 32) (sched : List (Fin 8))
    (partidx : ℕ) (ctx : Phase3Ctx) : Phase3Ctx :=
  let sharedMemory := cnAesGpuInit blockDim u
  let batchsize := 0x80000 >>> bfactor
  let start := partidx * batchsize
  let stop := start + batchsize
  let s := sched.foldl (phase3Step sharedMemory ctx.ctxKey2 ctx.longState stop)
    (phase3Start start ctx)
  { ctx with ctxState := s.ctxState }

/-- The phase 3 loop of `cryptonight_core_cpu_hash_template`, for the option `--bfactor`. -/
def cryptonightCoreCpuHashPhase3 (blockDim bfactor : ℕ) (u : ℕ → ℕ → BitVec 32)
    (sched : ℕ → List (Fin 8)) (ctx : Phase3Ctx) : Phase3Ctx :=
  let bfactor2 := bfactor - 4
  let partcount2 := 1 <<< bfactor2
  (List.range partcount2).foldl
    (fun ctx i => cryptonightCoreGpuPhase3 blockDim bfactor2 (u i) (sched i) i ctx) ctx

/-! ### Any schedule -/

/-- The blocks of the scratchpad that a lane meets. -/
def padWords (longState : ℕ → BitVec 32) (lane : Fin 8) : ℕ → Block := fun j =>
  loadWords longState (32 * j + 4 * lane)

/-- Lane `lane` has taken `c lane` turns of the whole fold, where a part ends after
iteration `n` and turn `n + 1` is the copy of the text; `x lane` is the text it began
with, and `state` the state at the start of the part. -/
structure Phase3Inv (k : ℕ → Block) (pad : Fin 8 → ℕ → Block) (x : Fin 8 → Block)
    (state : ℕ → BitVec 32) (n : ℕ) (c : Fin 8 → ℕ) (s : Phase3State) : Prop where
  /-- The loop variable. -/
  i : ∀ lane, s.i lane = 32 * min n (c lane)
  /-- The text. -/
  text : ∀ lane, s.text lane = foldText k (pad lane) (x lane) (min n (c lane))
  /-- Who has finished. -/
  stored : ∀ lane, s.stored lane = decide (n < c lane)
  /-- The text bytes of the state. -/
  ctxState : ∀ lane : Fin 8, n < c lane →
    loadWords s.ctxState (4 * lane + 16) = foldText k (pad lane) (x lane) n
  /-- The other words of the state. -/
  frame : ∀ w, (w < 16 ∨ 48 ≤ w) → s.ctxState w = state w

section Schedule

variable {sharedMemory key longState : ℕ → BitVec 32} {x : Fin 8 → Block} {n : ℕ}
  {state : ℕ → BitVec 32}

/-- **A turn** of a lane counts for that lane, whatever the others have done. -/
theorem Phase3Inv.step (hsm : HasTables sharedMemory) {c : Fin 8 → ℕ} {s : Phase3State}
    (h : Phase3Inv (fun n => loadWords key (4 * n)) (padWords longState) x state n c s)
    (lane : Fin 8) (hc : c lane < n + 1) :
    Phase3Inv (fun n => loadWords key (4 * n)) (padWords longState) x state n
      (Function.update c lane (c lane + 1))
      (phase3Step sharedMemory key longState (32 * n) s lane) := by
  have hi := h.i lane
  rcases Nat.lt_or_ge (c lane) n with hlt | hge
  · -- an iteration
    have hmin : min n (c lane) = c lane := Nat.min_eq_right hlt.le
    have hxor : (fun j => s.text lane j ^^^ longState (subOf lane + s.i lane + j))
        = (s.text lane).xor (padWords longState lane (c lane)) := by
      funext j
      rw [Block.xor_apply, padWords, loadWords, subOf_eq, hi, hmin, Nat.add_comm (4 * _)]
    have hround : cnAesPseudoRoundMut sharedMemory
        (fun j => s.text lane j ^^^ longState (subOf lane + s.i lane + j)) key
          = foldText (fun n => loadWords key (4 * n)) (padWords longState lane) (x lane)
              (c lane + 1) := by
      rw [hxor, cnAesPseudoRoundMut_eq hsm, h.text lane, hmin, foldText]
    have hpos : s.i lane < 32 * n := by omega
    simp only [phase3Step, if_pos hpos, hround]
    refine ⟨fun l => ?_, fun l => ?_, fun l => ?_, fun l hl => ?_, h.frame⟩
    · rcases eq_or_ne l lane with rfl | hl
      · simp only [Function.update_self]
        omega
      · simp only [Function.update_of_ne hl, h.i l]
    · rcases eq_or_ne l lane with rfl | hl
      · simp only [Function.update_self]
        rw [Nat.min_eq_right (by omega)]
      · simp only [Function.update_of_ne hl, h.text l]
    · rcases eq_or_ne l lane with rfl | hl
      · rw [Function.update_self, h.stored l]
        exact decide_eq_decide.mpr (by omega)
      · rw [Function.update_of_ne hl, h.stored l]
    · rcases eq_or_ne l lane with rfl | hne
      · rw [Function.update_self] at hl
        omega
      · rw [Function.update_of_ne hne] at hl
        exact h.ctxState l hl
  · -- the copy
    have hcn : c lane = n := by omega
    have hmin : min n (c lane) = n := Nat.min_eq_left hge
    rw [hmin] at hi
    have hnot : s.stored lane = false := by
      rw [h.stored lane, hcn]
      exact decide_eq_false (lt_irrefl n)
    rw [phase3Step, if_neg (by omega), if_neg (by rw [hnot]; exact Bool.false_ne_true), subOf_eq]
    refine ⟨fun l => ?_, fun l => ?_, fun l => ?_, fun l hl => ?_, fun w hw => ?_⟩
    · rcases eq_or_ne l lane with rfl | hl
      · rw [Function.update_self, h.i l]
        omega
      · rw [Function.update_of_ne hl, h.i l]
    · rcases eq_or_ne l lane with rfl | hl
      · rw [Function.update_self, h.text l, hmin, Nat.min_eq_left (by omega)]
      · rw [Function.update_of_ne hl, h.text l]
    · rcases eq_or_ne l lane with rfl | hl
      · simp only [Function.update_self]
        exact (decide_eq_true (by omega)).symm
      · simp only [Function.update_of_ne hl, h.stored l]
    · rcases eq_or_ne l lane with rfl | hne
      · rw [loadWords_storeWords_self, h.text l, hmin]
      · have hval : (l : ℕ) ≠ lane := fun e => hne (Fin.ext e)
        rw [Function.update_of_ne hne] at hl
        rw [loadWords_storeWords_of_disjoint _ _ (by omega), h.ctxState l hl]
    · show storeWords _ _ _ w = state w
      rw [storeWords_apply, dif_neg (by omega), h.frame w hw]

/-- The turns of the lanes, up to the end of a part. -/
theorem interleaved_phase3Step (hsm : HasTables sharedMemory) :
    Interleaved (phase3Step sharedMemory key longState (32 * n)) (n + 1)
      (Phase3Inv (fun n => loadWords key (4 * n)) (padWords longState) x state n) where
  advance _ _ lane h hc := h.step hsm lane hc
  stop c s lane h hc := by
    have hi := h.i lane
    rw [phase3Step, if_neg (by omega), if_pos]
    rw [h.stored lane, hc]
    exact decide_eq_true n.lt_succ_self

end Schedule

/-! ### All parts -/

/-- The first `n` iterations of the fold are done, by all lanes, from the context
`ctx₀`. -/
structure Phase3Ctx.Folded (ctx₀ : Phase3Ctx) (n : ℕ) (ctx : Phase3Ctx) : Prop where
  /-- The scratchpad is read only. -/
  longState : ctx.longState = ctx₀.longState
  /-- The key is read only. -/
  ctxKey2 : ctx.ctxKey2 = ctx₀.ctxKey2
  /-- The text bytes of the state. -/
  text : ∀ lane : Fin 8, loadWords ctx.ctxState (4 * lane + 16)
    = foldText (fun n => loadWords ctx₀.ctxKey2 (4 * n)) (padWords ctx₀.longState lane)
        (loadWords ctx₀.ctxState (4 * lane + 16)) n
  /-- The other words of the state. -/
  frame : ∀ w, (w < 16 ∨ 48 ≤ w) → ctx.ctxState w = ctx₀.ctxState w

/-- A lane takes its text up from the state. -/
theorem Phase3Ctx.Folded.start {ctx₀ ctx : Phase3Ctx} {n b : ℕ} (h : Phase3Ctx.Folded ctx₀ b ctx)
    (hb : b ≤ n) :
    Phase3Inv (fun n => loadWords ctx₀.ctxKey2 (4 * n)) (padWords ctx₀.longState)
      (fun lane => loadWords ctx₀.ctxState (4 * lane + 16)) ctx₀.ctxState n (fun _ => b)
      (phase3Start (32 * b) ctx) := by
  have hmin : min n b = b := Nat.min_eq_right hb
  refine ⟨fun lane => ?_, fun lane => ?_, fun lane => ?_, fun lane hlt => ?_, h.frame⟩
  · rw [hmin]
    rfl
  · rw [hmin, ← h.text lane]
    simp only [phase3Start, subOf_eq]
  · exact (decide_eq_false (Nat.not_lt.mpr hb)).symm
  · omega

/-- A launch goes on where the one before has stopped. -/
theorem Phase3Ctx.Folded.launch {ctx₀ ctx : Phase3Ctx} {blockDim bfactor n partidx : ℕ}
    (h : Phase3Ctx.Folded ctx₀ (partidx * n) ctx) (hdim : 0 < blockDim)
    (hbatch : 0x80000 >>> bfactor = 32 * n) (u : ℕ → BitVec 32) {sched : List (Fin 8)}
    (hsched : ∀ lane, n + 1 ≤ sched.count lane) :
    Phase3Ctx.Folded ctx₀ ((partidx + 1) * n)
      (cryptonightCoreGpuPhase3 blockDim bfactor u sched partidx ctx) := by
  have hstart : partidx * (32 * n) = 32 * (partidx * n) := Nat.mul_left_comm _ _ _
  have hstop : 32 * (partidx * n) + 32 * n = 32 * ((partidx + 1) * n) := by ring
  have hle : partidx * n ≤ (partidx + 1) * n := Nat.mul_le_mul_right n partidx.le_succ
  -- every lane gets to the copy of its text
  have hturns : ∀ lane, (partidx + 1) * n + 1 ≤ partidx * n + sched.count lane := by
    intro lane
    have := hsched lane
    rw [Nat.succ_mul]
    omega
  have hrun := (interleaved_phase3Step (hasTables_cnAesGpuInit hdim u)).complete
    (fun _ => Nat.le_succ_of_le hle) (h.start hle) hturns
  simp only [cryptonightCoreGpuPhase3, hbatch, hstart, hstop, h.ctxKey2, h.longState]
  exact ⟨rfl, rfl, fun lane => hrun.ctxState lane (Nat.lt_succ_self _), hrun.frame⟩

/-- The parts, one after the other. -/
theorem Phase3Ctx.folded_parts (ctx : Phase3Ctx) {blockDim bfactor n : ℕ} (hdim : 0 < blockDim)
    (hbatch : 0x80000 >>> bfactor = 32 * n) (u : ℕ → ℕ → BitVec 32) {sched : ℕ → List (Fin 8)}
    {total : ℕ} (hsched : ∀ i < total, ∀ lane, n + 1 ≤ (sched i).count lane) :
    Phase3Ctx.Folded ctx (total * n) ((List.range total).foldl
      (fun ctx i => cryptonightCoreGpuPhase3 blockDim bfactor (u i) (sched i) i ctx) ctx) := by
  refine foldl_range_invariant (P := fun i => Phase3Ctx.Folded ctx (i * n)) ?_ total ?_
  · rw [Nat.zero_mul]
    exact ⟨rfl, rfl, fun _ => rfl, fun _ _ => rfl⟩
  · intro i hi t ht
    exact ht.launch hdim hbatch (u i) (hsched i hi)

/-- The scratchpad of the device is the scratchpad of the CPU. -/
theorem padWords_eq {longState : ℕ → BitVec 32} {m : ByteMem}
    (h : ∀ w < 2 ^ 19, longState w = load32 m (Ctx.longState + 4 * w)) (lane : Fin 8) {j : ℕ}
    (hj : j < 16384) : padWords longState lane j = padBlocks m lane j := by
  funext i
  rw [padWords, loadWords, h _ (by omega), padBlocks, loadBlock]
  congr 1
  omega

/-- **The device folds the scratchpad as the CPU does**, for every value of `--bfactor`
that the miner accepts and whatever the order of the lanes, and leaves the other
bytes of the state alone. -/
theorem cryptonightCoreCpuHashPhase3_refines {blockDim bfactor : ℕ} (hdim : 0 < blockDim)
    (hf : bfactor ≤ 10) (u : ℕ → ℕ → BitVec 32) (sched : ℕ → List (Fin 8))
    (hsched : ∀ i < 1 <<< (bfactor - 4), ∀ lane,
      (0x80000 >>> (bfactor - 4)) / 32 + 1 ≤ (sched i).count lane)
    (m : ByteMem) (ctx : Phase3Ctx)
    (hlong : ∀ w < 2 ^ 19, ctx.longState w = load32 m (Ctx.longState + 4 * w))
    (hstate : ∀ i < 50, ctx.ctxState i = load32 m (Ctx.state + 4 * i))
    (hkey : ∀ i < 40, ctx.ctxKey2 i = load32 m (Ctx.expData + 4 * i)) :
    let ctx' := cryptonightCoreCpuHashPhase3 blockDim bfactor u sched ctx
    (∀ w, 16 ≤ w → w < 48 → ctx'.ctxState w = load32 (cryptonightFold m) (Ctx.state + 4 * w)) ∧
      ∀ w, (w < 16 ∨ 48 ≤ w) → ctx'.ctxState w = ctx.ctxState w := by
  intro ctx'
  obtain ⟨n, hn, hbatch, hparts⟩ := batchsize_eq hf
  rw [hbatch, Nat.mul_div_cancel_left n (by decide)] at hsched
  have hfolded : Phase3Ctx.Folded ctx (1 <<< (bfactor - 4) * n) ctx' :=
    ctx.folded_parts hdim hbatch u hsched
  rw [hparts] at hfolded
  refine ⟨fun w h16 h48 => ?_, hfolded.frame⟩
  -- word `w` is word `w % 4` of the text of its lane
  have hlane : (w - 16) / 4 < 8 := by omega
  have htext := hfolded.text ⟨(w - 16) / 4, hlane⟩
  rw [foldText_congr (loadWords_ctxKey hkey) _ 16384 fun j hj => padWords_eq hlong _ hj,
    loadWords_ctxState hstate, ← loadBlock_cryptonightFold m hlane] at htext
  have hword := congrFun htext ⟨w % 4, Nat.mod_lt _ (by decide)⟩
  have hw4 : 4 * ((w - 16) / 4) + 16 + w % 4 = w := by omega
  have hb4 : Ctx.init + 16 * ((w - 16) / 4) + 4 * (w % 4) = Ctx.state + 4 * w := by
    unfold Ctx.init Ctx.state
    omega
  rwa [loadWords, loadBlock, hw4, hb4] at hword

/-- Four parts in lockstep, from an empty context. -/
theorem cryptonightCoreCpuHashPhase3_refines_six :
    let m : ByteMem := fun _ => 0
    let ctx : Phase3Ctx := ⟨fun _ => 0, fun _ => 0, fun _ => 0⟩
    let ctx' := cryptonightCoreCpuHashPhase3 256 6 (fun _ _ => 0) (fun _ => lockstep 4097) ctx
    (∀ w, 16 ≤ w → w < 48 → ctx'.ctxState w = load32 (cryptonightFold m) (Ctx.state + 4 * w)) ∧
      ∀ w, (w < 16 ∨ 48 ≤ w) → ctx'.ctxState w = ctx.ctxState w :=
  cryptonightCoreCpuHashPhase3_refines (by decide) (by decide) _ _
    (fun _ _ lane => (count_lockstep 4097 lane).ge) (fun _ => 0) _
    (fun _ _ => (load32_zero _).symm) (fun _ _ => (load32_zero _).symm)
    fun _ _ => (load32_zero _).symm

end XmrMiner
