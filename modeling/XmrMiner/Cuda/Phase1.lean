import XmrMiner.Crypto.Scratchpad
import XmrMiner.Lib.Schedule

/-!
# The device fill of the scratchpad

`cryptonight_core_gpu_phase1` gives eight lanes to each hash, lane `sub / 4` one
of the eight text blocks.  The fill is cut into parts, each a launch of its own;
a part finds its text in the last 32 words that the part before has written.

Within a launch the lanes are on their own: which of them takes its next
iteration is up to the device, and a schedule is the list of the lanes in the
order in which they do.  `written` is no memory of the device.  It lists the
words of the scratchpad in the order in which they are stored.

## Main definitions

* `cnAesPseudoRoundMut` — the ten rounds, with the tables in shared memory.
* `Phase1State`, `phase1Step` — an iteration of one lane.
* `cryptonightCoreGpuPhase1`, `cryptonightCoreCpuHashPhase1` — one launch, and the
  loop of the host over all parts.

## Main results

* `Phase1Inv.step` — what an iteration of a lane adds, in any order of the lanes.
* `cryptonightCoreCpuHashPhase1_refines` — **the device fills the scratchpad as the CPU
  does.**
-/

namespace XmrMiner

open ByteMem

/-! ### The kernel -/

/-- Four words of an array, from word `p` on. -/
def loadWords (a : ℕ → BitVec 32) (p : ℕ) : Block := fun i => a (p + i)

/-- `MEMCPY8` of two words of 64 bits. -/
def storeWords (a : ℕ → BitVec 32) (p : ℕ) (x : Block) : ℕ → BitVec 32 :=
  let a := Function.update a p (x 0)
  let a := Function.update a (p + 1) (x 1)
  let a := Function.update a (p + 2) (x 2)
  Function.update a (p + 3) (x 3)

/-- The macro `round`, on words. -/
def cnRound (sharedMemory : ℕ → BitVec 32) (x k : Block) : Block := ![
  k 0 ^^^ (sharedMemory (x 0 &&& 0xff).toNat ^^^
    sharedMemory (256 + ((x 1 >>> 8) &&& 0xff).toNat) ^^^
    sharedMemory (512 + ((x 2 >>> 16) &&& 0xff).toNat) ^^^
    sharedMemory (768 + (x 3 >>> 24).toNat)),
  k 1 ^^^ (sharedMemory (x 1 &&& 0xff).toNat ^^^
    sharedMemory (256 + ((x 2 >>> 8) &&& 0xff).toNat) ^^^
    sharedMemory (512 + ((x 3 >>> 16) &&& 0xff).toNat) ^^^
    sharedMemory (768 + (x 0 >>> 24).toNat)),
  k 2 ^^^ (sharedMemory (x 2 &&& 0xff).toNat ^^^
    sharedMemory (256 + ((x 3 >>> 8) &&& 0xff).toNat) ^^^
    sharedMemory (512 + ((x 0 >>> 16) &&& 0xff).toNat) ^^^
    sharedMemory (768 + (x 1 >>> 24).toNat)),
  k 3 ^^^ (sharedMemory (x 3 &&& 0xff).toNat ^^^
    sharedMemory (256 + ((x 0 >>> 8) &&& 0xff).toNat) ^^^
    sharedMemory (512 + ((x 1 >>> 16) &&& 0xff).toNat) ^^^
    sharedMemory (768 + (x 2 >>> 24).toNat))]

/-- `cn_aes_pseudo_round_mut`. -/
def cnAesPseudoRoundMut (sharedMemory : ℕ → BitVec 32) (val : Block)
    (expandedKey : ℕ → BitVec 32) : Block :=
  let b1 := cnRound sharedMemory val (loadWords expandedKey 0)
  let val := cnRound sharedMemory b1 (loadWords expandedKey (1 * 4))
  let b1 := cnRound sharedMemory val (loadWords expandedKey (2 * 4))
  let val := cnRound sharedMemory b1 (loadWords expandedKey (3 * 4))
  let b1 := cnRound sharedMemory val (loadWords expandedKey (4 * 4))
  let val := cnRound sharedMemory b1 (loadWords expandedKey (5 * 4))
  let b1 := cnRound sharedMemory val (loadWords expandedKey (6 * 4))
  let val := cnRound sharedMemory b1 (loadWords expandedKey (7 * 4))
  let b1 := cnRound sharedMemory val (loadWords expandedKey (8 * 4))
  cnRound sharedMemory b1 (loadWords expandedKey (9 * 4))

/-- `sub`, the first word of the lane's text block. -/
def subOf (lane : Fin 8) : ℕ := (lane : ℕ) <<< 2

/-- What the eight lanes of one hash work on. -/
structure Phase1State where
  /-- The words of the scratchpad. -/
  longState : ℕ → BitVec 32
  /-- `text` of each lane. -/
  text : Fin 8 → Block
  /-- The loop variable of each lane. -/
  i : Fin 8 → ℕ
  /-- The words stored so far. -/
  written : List ℕ

/-- An iteration of one lane, if it has one left. -/
def phase1Step (sharedMemory key : ℕ → BitVec 32) (stop : ℕ) (s : Phase1State) (lane : Fin 8) :
    Phase1State :=
  if s.i lane < stop then
    let text := cnAesPseudoRoundMut sharedMemory (s.text lane) key
    let p := subOf lane + s.i lane
    { longState := storeWords s.longState p text
      text := Function.update s.text lane text
      i := Function.update s.i lane (s.i lane + 32)
      written := s.written ++ [p, p + 1, p + 2, p + 3] }
  else s

/-- The device memory of one hash that the kernel reads and writes. -/
structure Phase1Ctx where
  /-- Its part of `long_state`. -/
  longState : ℕ → BitVec 32
  /-- The 50 words of `ctx_state`. -/
  ctxState : ℕ → BitVec 32
  /-- The 40 words of `ctx_key1`. -/
  ctxKey1 : ℕ → BitVec 32
  /-- The words of the scratchpad stored so far. -/
  written : List ℕ

/-- The lanes before the loop of part `partidx`; they wait for each other once they have
their text. -/
def phase1Start (partidx start : ℕ) (ctx : Phase1Ctx) : Phase1State where
  longState := ctx.longState
  text lane :=
    if partidx = 0 then loadWords ctx.ctxState (subOf lane + 16)
    else loadWords ctx.longState (subOf lane + start - 32)
  i _ := start
  written := ctx.written

/-- `cryptonight_core_gpu_phase1`: part `partidx`, whose lanes take turns as in `sched`.
Shared memory is `u` before the tables are copied. -/
def cryptonightCoreGpuPhase1 (blockDim bfactor : ℕ) (u : ℕ → BitVec 32) (sched : List (Fin 8))
    (partidx : ℕ) (ctx : Phase1Ctx) : Phase1Ctx :=
  let sharedMemory := cnAesGpuInit blockDim u
  let batchsize := 0x80000 >>> bfactor
  let start := partidx * batchsize
  let stop := start + batchsize
  let s := sched.foldl (phase1Step sharedMemory ctx.ctxKey1 stop) (phase1Start partidx start ctx)
  { ctx with longState := s.longState, written := s.written }

/-- The phase 1 loop of `cryptonight_core_cpu_hash_template`, for the option `--bfactor`. -/
def cryptonightCoreCpuHashPhase1 (blockDim bfactor : ℕ) (u : ℕ → ℕ → BitVec 32)
    (sched : ℕ → List (Fin 8)) (ctx : Phase1Ctx) : Phase1Ctx :=
  let bfactor2 := bfactor - 4
  let partcount2 := 1 <<< bfactor2
  (List.range partcount2).foldl
    (fun ctx i => cryptonightCoreGpuPhase1 blockDim bfactor2 (u i) (sched i) i ctx) ctx

/-! ### Ten rounds -/

theorem cnRound_eq {sharedMemory : ℕ → BitVec 32} (hsm : HasTables sharedMemory) (x k : Block) :
    cnRound sharedMemory x k = aesRound tFn x k := by
  funext i
  rw [← aesRound_lane hsm x k i]
  fin_cases i <;> simp [cnRound, BitVec.xor_assoc]

/-- **The ten rounds are those of the CPU.** -/
theorem cnAesPseudoRoundMut_eq {sharedMemory : ℕ → BitVec 32} (hsm : HasTables sharedMemory)
    (val : Block) (key : ℕ → BitVec 32) :
    cnAesPseudoRoundMut sharedMemory val key
      = aesPseudoRound tFn (fun n => loadWords key (4 * n)) val := by
  simp only [cnAesPseudoRoundMut, cnRound_eq hsm]
  rfl

/-! ### Any schedule -/

theorem subOf_eq (lane : Fin 8) : subOf lane = 4 * lane := by
  rw [subOf, Nat.shiftLeft_eq, Nat.mul_comm]

/-- The lane that word `w` of the scratchpad belongs to. -/
def laneOfWord (w : ℕ) : Fin 8 := ⟨w / 4 % 8, Nat.mod_lt _ (by decide)⟩

theorem storeWords_apply (a : ℕ → BitVec 32) (p : ℕ) (x : Block) (w : ℕ) :
    storeWords a p x w = if h : p ≤ w ∧ w < p + 4 then x ⟨w - p, by omega⟩ else a w := by
  split
  · next h =>
    obtain ⟨i, rfl⟩ := Nat.exists_eq_add_of_le h.1
    have hi : i < 4 := by omega
    interval_cases i <;> simp [storeWords]
  · next h =>
    unfold storeWords
    rw [Function.update_of_ne (by omega), Function.update_of_ne (by omega),
      Function.update_of_ne (by omega), Function.update_of_ne (by omega)]

theorem loadWords_storeWords_self (a : ℕ → BitVec 32) (p : ℕ) (x : Block) :
    loadWords (storeWords a p x) p = x := by
  funext i
  have hi : p ≤ p + (i : ℕ) ∧ p + (i : ℕ) < p + 4 := by omega
  simp [loadWords, storeWords_apply, hi]

theorem loadWords_storeWords_of_disjoint (a : ℕ → BitVec 32) {p q : ℕ} (x : Block)
    (h : q + 4 ≤ p ∨ p + 4 ≤ q) : loadWords (storeWords a p x) q = loadWords a q := by
  funext i
  rw [loadWords, loadWords, storeWords_apply, dif_neg (by omega)]

/-- Lane `lane` has carried out `b lane` iterations of the whole fill, counted over all
parts: this is all there is to know about the lanes. -/
structure Phase1Inv (k : ℕ → Block) (x : Fin 8 → Block) (b : Fin 8 → ℕ) (s : Phase1State) :
    Prop where
  /-- The loop variable. -/
  i : ∀ lane, s.i lane = 32 * b lane
  /-- The text. -/
  text : ∀ lane, s.text lane = fillText k (x lane) (b lane)
  /-- The lane's own blocks of the scratchpad. -/
  pad : ∀ lane, ∀ j < b lane,
    loadWords s.longState (32 * j + 4 * lane) = fillText k (x lane) (j + 1)
  /-- Every word that a lane has passed is stored once, and no other one. -/
  written : ∀ w, s.written.count w = if w / 32 < b (laneOfWord w) then 1 else 0

section Schedule

variable {sharedMemory key : ℕ → BitVec 32} {x : Fin 8 → Block} {b : Fin 8 → ℕ} {s : Phase1State}

/-- **One iteration** of a lane counts for that lane, whatever the others have done. -/
theorem Phase1Inv.step (hsm : HasTables sharedMemory) {n : ℕ}
    (h : Phase1Inv (fun n => loadWords key (4 * n)) x b s) (lane : Fin 8) (hb : b lane < n) :
    Phase1Inv (fun n => loadWords key (4 * n)) x (Function.update b lane (b lane + 1))
      (phase1Step sharedMemory key (32 * n) s lane) := by
  have hi : s.i lane = 32 * b lane := h.i lane
  have hp : subOf lane + s.i lane = 32 * b lane + 4 * lane := by rw [subOf_eq, hi]; omega
  rw [phase1Step, if_pos (by omega), cnAesPseudoRoundMut_eq hsm, hp, h.text lane, ← fillText_succ]
  refine ⟨fun l => ?_, fun l => ?_, fun l j hj => ?_, fun w => ?_⟩
  · rcases eq_or_ne l lane with rfl | hl
    · simp only [Function.update_self, hi, Nat.mul_succ]
    · simp only [Function.update_of_ne hl, h.i l]
  · rcases eq_or_ne l lane with rfl | hl
    · simp only [Function.update_self]
    · simp only [Function.update_of_ne hl, h.text l]
  · rcases eq_or_ne l lane with rfl | hl
    · rw [Function.update_self] at hj
      rcases eq_or_ne j (b l) with rfl | hjb
      · exact loadWords_storeWords_self _ _ _
      · rw [loadWords_storeWords_of_disjoint _ _ (by omega), h.pad l j (by omega)]
    · -- another lane's blocks are at other words of every 32
      have hne : (l : ℕ) ≠ lane := fun e => hl (Fin.ext e)
      rw [Function.update_of_ne hl] at hj
      rw [loadWords_storeWords_of_disjoint _ _ (by omega), h.pad l j hj]
  · have hmem : List.count w [32 * b lane + 4 * (lane : ℕ), 32 * b lane + 4 * lane + 1,
        32 * b lane + 4 * lane + 2, 32 * b lane + 4 * lane + 3]
        = if w / 4 = 8 * b lane + lane then 1 else 0 := by
      simp only [List.count_cons, List.count_nil, beq_iff_eq]
      split_ifs <;> omega
    rw [List.count_append, h.written w, hmem]
    rcases eq_or_ne (laneOfWord w) lane with hl | hl
    · have hval : w / 4 % 8 = lane := congrArg Fin.val hl
      rw [hl, Function.update_self]
      split_ifs <;> omega
    · have hval : w / 4 % 8 ≠ lane := fun e => hl (Fin.ext e)
      rw [Function.update_of_ne hl, if_neg (by omega : ¬w / 4 = 8 * b lane + lane), Nat.add_zero]

/-- The loops of the lanes, up to iteration `n` of the fill. -/
theorem interleaved_phase1Step (hsm : HasTables sharedMemory) (n : ℕ) :
    Interleaved (phase1Step sharedMemory key (32 * n)) n
      (Phase1Inv (fun n => loadWords key (4 * n)) x) where
  advance _ _ lane h hb := h.step hsm lane hb
  stop b s lane h hb := by
    rw [phase1Step, if_neg (by rw [h.i lane, hb]; exact Nat.lt_irrefl _)]

end Schedule

/-! ### All parts -/

/-- The first `n` iterations of the fill are done, by all lanes; the state and the key
are still `state` and `key`. -/
structure Phase1Ctx.Filled (state key : ℕ → BitVec 32) (n : ℕ) (ctx : Phase1Ctx) : Prop where
  /-- The state is read only. -/
  ctxState : ctx.ctxState = state
  /-- The key is read only. -/
  ctxKey1 : ctx.ctxKey1 = key
  /-- The filled blocks. -/
  pad : ∀ lane : Fin 8, ∀ j < n, loadWords ctx.longState (32 * j + 4 * lane)
    = fillText (fun n => loadWords key (4 * n)) (loadWords state (4 * lane + 16)) (j + 1)
  /-- The words stored. -/
  written : ∀ w, ctx.written.count w = if w / 32 < n then 1 else 0

/-- A lane finds its text where the part before has left it. -/
theorem Phase1Ctx.Filled.start {state key : ℕ → BitVec 32} {ctx : Phase1Ctx} {n partidx : ℕ}
    (h : Phase1Ctx.Filled state key (partidx * n) ctx) (hn : 0 < n) :
    Phase1Inv (fun n => loadWords key (4 * n)) (fun lane => loadWords state (4 * lane + 16))
      (fun _ => partidx * n) (phase1Start partidx (32 * (partidx * n)) ctx) := by
  refine ⟨fun _ => rfl, fun lane => ?_, h.pad, h.written⟩
  simp only [phase1Start, subOf_eq]
  split
  · next h0 =>
    rw [h.ctxState, h0, Nat.zero_mul]
    rfl
  · next h0 =>
    have hpos : 0 < partidx * n := Nat.mul_pos (Nat.pos_of_ne_zero h0) hn
    have hprev := h.pad lane (partidx * n - 1) (by omega)
    rw [Nat.sub_add_cancel hpos] at hprev
    rw [← hprev]
    congr 1
    omega

/-- A launch goes on where the one before has stopped. -/
theorem Phase1Ctx.Filled.launch {state key : ℕ → BitVec 32} {ctx : Phase1Ctx}
    {blockDim bfactor n partidx : ℕ} (h : Phase1Ctx.Filled state key (partidx * n) ctx)
    (hdim : 0 < blockDim) (hn : 0 < n) (hbatch : 0x80000 >>> bfactor = 32 * n)
    (u : ℕ → BitVec 32) {sched : List (Fin 8)} (hsched : ∀ lane, n ≤ sched.count lane) :
    Phase1Ctx.Filled state key ((partidx + 1) * n)
      (cryptonightCoreGpuPhase1 blockDim bfactor u sched partidx ctx) := by
  have hstart : partidx * (32 * n) = 32 * (partidx * n) := Nat.mul_left_comm _ _ _
  have hstop : 32 * (partidx * n) + 32 * n = 32 * ((partidx + 1) * n) := by ring
  -- every lane gets to the end of the part
  have hturns : ∀ lane, (partidx + 1) * n ≤ partidx * n + sched.count lane := by
    intro lane
    have := hsched lane
    rw [Nat.succ_mul]
    omega
  have hrun := (interleaved_phase1Step (hasTables_cnAesGpuInit hdim u)
    ((partidx + 1) * n)).complete (fun _ => Nat.mul_le_mul_right n partidx.le_succ) (h.start hn)
    hturns
  simp only [cryptonightCoreGpuPhase1, hbatch, hstart, hstop, h.ctxKey1]
  exact ⟨h.ctxState, rfl, hrun.pad, hrun.written⟩

/-- The parts, one after the other. -/
theorem Phase1Ctx.Filled.parts {state key : ℕ → BitVec 32} {ctx : Phase1Ctx}
    {blockDim bfactor n : ℕ} (h : Phase1Ctx.Filled state key 0 ctx) (hdim : 0 < blockDim)
    (hn : 0 < n) (hbatch : 0x80000 >>> bfactor = 32 * n) (u : ℕ → ℕ → BitVec 32)
    {sched : ℕ → List (Fin 8)} {total : ℕ}
    (hsched : ∀ i < total, ∀ lane, n ≤ (sched i).count lane) :
    Phase1Ctx.Filled state key (total * n) ((List.range total).foldl
      (fun ctx i => cryptonightCoreGpuPhase1 blockDim bfactor (u i) (sched i) i ctx) ctx) := by
  refine foldl_range_invariant (P := fun i => Phase1Ctx.Filled state key (i * n)) ?_ total ?_
  · rw [Nat.zero_mul]
    exact h
  · intro i hi t ht
    exact ht.launch hdim hn hbatch (u i) (hsched i hi)

/-- How many iterations a part has, for every value of `--bfactor` that the miner
accepts. -/
theorem batchsize_eq {bfactor : ℕ} (hf : bfactor ≤ 10) :
    ∃ n, 0 < n ∧ 0x80000 >>> (bfactor - 4) = 32 * n ∧ (1 <<< (bfactor - 4)) * n = 16384 := by
  refine ⟨16384 >>> (bfactor - 4), ?_⟩
  interval_cases bfactor <;> decide

/-- Eight lanes in lockstep, for `n` iterations. -/
def lockstep : ℕ → List (Fin 8)
  | 0 => []
  | n + 1 => List.finRange 8 ++ lockstep n

theorem count_lockstep (n : ℕ) (lane : Fin 8) : (lockstep n).count lane = n := by
  induction n with
  | zero => rfl
  | succ n ih =>
    have hone : (List.finRange 8).count lane = 1 :=
      List.count_eq_one_of_mem (List.nodup_finRange 8) (List.mem_finRange lane)
    rw [lockstep, List.count_append, ih, hone, Nat.add_comm]

/-- The text of the device is the text of the CPU. -/
theorem loadWords_ctxState {state : ℕ → BitVec 32} {m : ByteMem}
    (h : ∀ i < 50, state i = load32 m (Ctx.state + 4 * i)) (lane : Fin 8) :
    loadWords state (4 * lane + 16) = loadBlock m (Ctx.init + 16 * lane) := by
  funext i
  rw [loadWords, h _ (by omega), loadBlock]
  congr 1
  unfold Ctx.state Ctx.init
  omega

/-- The key of the device is the key of the CPU. -/
theorem loadWords_ctxKey {key : ℕ → BitVec 32} {m : ByteMem}
    (h : ∀ i < 40, key i = load32 m (Ctx.expData + 4 * i)) :
    ∀ n < 10, loadWords key (4 * n) = keyBlocks m Ctx.expData n := by
  intro n hn
  funext i
  rw [loadWords, h _ (by omega), keyBlocks, loadBlock]
  congr 1
  omega

/-- **The device fills the scratchpad as the CPU does**, for every value of `--bfactor`
that the miner accepts and whatever the order of the lanes, and stores every word of
it exactly once. -/
theorem cryptonightCoreCpuHashPhase1_refines {blockDim bfactor : ℕ} (hdim : 0 < blockDim)
    (hf : bfactor ≤ 10) (u : ℕ → ℕ → BitVec 32) (sched : ℕ → List (Fin 8))
    (hsched : ∀ i < 1 <<< (bfactor - 4), ∀ lane,
      (0x80000 >>> (bfactor - 4)) / 32 ≤ (sched i).count lane)
    (m : ByteMem) (ctx : Phase1Ctx) (hwritten : ctx.written = [])
    (hstate : ∀ i < 50, ctx.ctxState i = load32 m (Ctx.state + 4 * i))
    (hkey : ∀ i < 40, ctx.ctxKey1 i = load32 m (Ctx.expData + 4 * i)) :
    let ctx' := cryptonightCoreCpuHashPhase1 blockDim bfactor u sched ctx
    (∀ w < 2 ^ 19, ctx'.longState w = load32 (cryptonightFill m) (Ctx.longState + 4 * w)) ∧
      ∀ w, ctx'.written.count w = if w < 2 ^ 19 then 1 else 0 := by
  intro ctx'
  obtain ⟨n, hn, hbatch, hparts⟩ := batchsize_eq hf
  rw [hbatch, Nat.mul_div_cancel_left n (by decide)] at hsched
  have hstart : Phase1Ctx.Filled ctx.ctxState ctx.ctxKey1 0 ctx :=
    ⟨rfl, rfl, fun _ j hj => absurd hj j.not_lt_zero, fun w => by simp [hwritten]⟩
  have hfilled : Phase1Ctx.Filled ctx.ctxState ctx.ctxKey1 (1 <<< (bfactor - 4) * n) ctx' :=
    hstart.parts hdim hn hbatch u hsched
  rw [hparts] at hfilled
  refine ⟨fun w hw => ?_, fun w => ?_⟩
  · -- word `w` is word `w % 4` of the lane's block in the 32 words around it
    have hlane : (laneOfWord w : ℕ) = w / 4 % 8 := rfl
    have hpad := hfilled.pad (laneOfWord w) (w / 32) (by omega)
    rw [fillText_congr (loadWords_ctxKey hkey), loadWords_ctxState hstate,
      ← loadBlock_cryptonightFill m (laneOfWord w).isLt (by omega)] at hpad
    have hword := congrFun hpad ⟨w % 4, Nat.mod_lt _ (by decide)⟩
    have hw4 : 32 * (w / 32) + 4 * (laneOfWord w : ℕ) + w % 4 = w := by omega
    have hb4 : Ctx.longState + 128 * (w / 32) + 16 * (laneOfWord w : ℕ) + 4 * (w % 4)
        = Ctx.longState + 4 * w := by omega
    rwa [loadWords, loadBlock, hw4, hb4] at hword
  · rw [hfilled.written w]
    exact if_congr (by omega) rfl rfl

/-- Four parts in lockstep, from an empty context. -/
theorem cryptonightCoreCpuHashPhase1_refines_six :
    let m : ByteMem := fun _ => 0
    let ctx' := cryptonightCoreCpuHashPhase1 256 6 (fun _ _ => 0) (fun _ => lockstep 4096)
      ⟨fun _ => 0, fun _ => 0, fun _ => 0, []⟩
    (∀ w < 2 ^ 19, ctx'.longState w = load32 (cryptonightFill m) (Ctx.longState + 4 * w)) ∧
      ∀ w, ctx'.written.count w = if w < 2 ^ 19 then 1 else 0 :=
  cryptonightCoreCpuHashPhase1_refines (by decide) (by decide) _ _
    (fun _ _ lane => (count_lockstep 4096 lane).ge) (fun _ => 0) _ rfl
    (fun _ _ => (load32_zero _).symm) fun _ _ => (load32_zero _).symm

end XmrMiner
