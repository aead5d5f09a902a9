import XmrMiner.Crypto.Cryptonight
import XmrMiner.Cuda.Phase2
import Mathlib.Tactic.IntervalCases

/-!
# The device main loop computes `mainLoop`

The four lanes of a hash hold one block between them, lane `sub` its word `sub`.
Read this way, half an iteration of the kernel is `halfRound`: each of its
exchanges between lanes hands every lane the word of the block that the round
function asks for.

## Main definitions

* `Runs` — a lockstep program ends, with this value and this scratchpad.
* `warpScratch` — the blocks of the device scratchpad.

## Main results

* `runs_phase2Half` — half an iteration is `halfRound`.
* `phase2Parts_eq` — parts of any lengths run to the end of `mainLoop`.
-/

namespace XmrMiner

open ByteMem

/-! ### Running lockstep programs -/

/-- From scratchpad `L` the program ends with value `v` and scratchpad `L'`, whatever
`shuffleMem` holds. -/
def Runs {α : Type} (p : Kernel α) (L : ℕ → BitVec 32) (v : α) (L' : ℕ → BitVec 32) : Prop :=
  ∀ sPtr, ∃ sPtr', p.run ⟨L, sPtr⟩ = some (v, ⟨L', sPtr'⟩)

theorem Runs.pure {α : Type} {v v' : α} {L : ℕ → BitVec 32} (h : v = v') :
    Runs (Pure.pure v) L v' L := fun sPtr => ⟨sPtr, by rw [h]; rfl⟩

theorem Runs.bind {α β : Type} {p : Kernel α} {f : α → Kernel β} {L L' L'' : ℕ → BitVec 32}
    {v : α} {w : β} (hp : Runs p L v L') (hf : Runs (f v) L' w L'') :
    Runs (p >>= f) L w L'' := by
  intro sPtr
  obtain ⟨sPtr', hp⟩ := hp sPtr
  obtain ⟨sPtr'', hf⟩ := hf sPtr'
  exact ⟨sPtr'', by rw [StateT.run_bind, hp]; exact hf⟩

/-- Both implementations of `shuffle` hand lane `sub` the value of the lane it names. -/
theorem runs_shuffle {impl : ShuffleImpl} {val src v : Lanes (BitVec 32)} {L : ℕ → BitVec 32}
    (h : ∀ sub, val (laneOf (src sub)) = v sub) : Runs (shuffle impl val src) L v L := by
  intro sPtr
  obtain rfl : v = fun sub => val (laneOf (src sub)) := funext fun sub => (h sub).symm
  cases impl with
  | sharedMemory =>
    refine ⟨val, ?_⟩
    -- `shfl` takes the lane modulo the width, the other implementation masks it
    have hmask : ∀ s : BitVec 32, laneOf (s &&& 3) = laneOf s := by
      intro s
      have hand : (s &&& 3).toNat = s.toNat % 2 ^ 2 := toNat_and_mask s _ rfl
      simp only [laneOf, hand, Nat.reducePow, Nat.mod_mod]
    simp only [← hmask (src _)]
    rfl
  | shfl => exact ⟨sPtr, rfl⟩

/-! ### Blocks of words -/

/-- The blocks of the device scratchpad. -/
def warpScratch (L : ℕ → BitVec 32) : Scratch := fun k i => L (4 * k + i)

theorem runs_loadGlobal32 {j : Lanes (BitVec 32)} {L : ℕ → BitVec 32} (p : Fin 131072)
    (hj : ∀ sub, (j sub).toNat = 4 * p + sub) :
    Runs (loadGlobal32 j) L (warpScratch L p) L := by
  intro sPtr
  have hbound : ∀ sub, (j sub).toNat < 2 ^ 19 := by
    intro sub
    rw [hj]
    omega
  refine ⟨sPtr, ?_⟩
  have hval : (fun sub => L (j sub).toNat) = warpScratch L p := by
    funext sub
    rw [hj]
    rfl
  simp only [loadGlobal32, StateT.run_bind, StateT.run_get, Option.pure_def, Option.bind_eq_bind,
    Option.bind_some, hbound, implies_true, if_true, StateT.run_pure, hval]

/-- The aligned pair of words that a lane reads. -/
theorem runs_loadGlobal64 {j : Lanes (BitVec 32)} {L : ℕ → BitVec 32} (p : Fin 131072)
    (hj : ∀ sub, (j sub).toNat = 2 * p + sub / 2) :
    Runs (loadGlobal64 j) L (fun sub => L (4 * p + 2 * (sub / 2 : ℕ)),
      fun sub => L (4 * p + (2 * (sub / 2 : ℕ) + 1))) L := by
  intro sPtr
  have hbound : ∀ sub, 2 * (j sub).toNat + 1 < 2 ^ 19 := by
    intro sub
    rw [hj]
    omega
  refine ⟨sPtr, ?_⟩
  have hlo : ∀ sub, 2 * (j sub).toNat = 4 * p + 2 * ((sub : ℕ) / 2) := by
    intro sub
    rw [hj]
    ring
  simp only [loadGlobal64, StateT.run_bind, StateT.run_get, Option.pure_def, Option.bind_eq_bind,
    Option.bind_some]
  rw [if_pos hbound]
  simp only [StateT.run_pure, hlo, Nat.add_assoc]
  rfl

/-- Four lanes that store the words of one block store the block. -/
theorem runs_storeGlobal32 {j : Lanes (BitVec 32)} (L : ℕ → BitVec 32) (val : Block)
    (p : Fin 131072)
    (hj : ∀ sub, (j sub).toNat = 4 * p + sub) :
    ∃ L', Runs (storeGlobal32 j val) L () L' ∧
      warpScratch L' = Function.update (warpScratch L) p val := by
  have hbound : ∀ sub, (j sub).toNat < 2 ^ 19 := by
    intro sub
    rw [hj]
    omega
  refine ⟨(List.finRange 4).foldl
    (fun m sub => Function.update m (j sub).toNat (val sub)) L, fun sPtr => ⟨sPtr, ?_⟩, ?_⟩
  · simp only [storeGlobal32, StateT.run_bind, StateT.run_get, Option.pure_def,
      Option.bind_eq_bind, Option.bind_some, hbound, implies_true, if_true, StateT.run_set]
  · funext k i
    have hlanes : List.finRange 4 = [0, 1, 2, 3] := rfl
    simp only [hj, hlanes, List.foldl_cons, List.foldl_nil]
    rcases eq_or_ne k p with rfl | hk
    · rw [Function.update_self]
      fin_cases i <;> simp [warpScratch]
    · have hkp : (k : ℕ) ≠ p := fun h => hk (Fin.ext h)
      rw [Function.update_of_ne hk]
      have hne : ∀ sub : Fin 4, 4 * (k : ℕ) + i ≠ 4 * p + sub := by
        intro sub
        omega
      simp only [warpScratch]
      rw [Function.update_of_ne (hne 3), Function.update_of_ne (hne 2),
        Function.update_of_ne (hne 1), Function.update_of_ne (hne 0)]

/-! ### The words of a round -/

/-- The address a lane computes from the first word of a register. -/
theorem toNat_address (x : Block) (sub : Fin 4) :
    (((x 0 &&& 0x1FFFF0) >>> 2) + lane sub).toNat = 4 * (blockIndex x : ℕ) + sub := by
  -- the masked word is the byte offset of the block
  have hmask : (x 0 &&& (0x1FFFF0 : BitVec 32)).toNat = (x 0).toNat / 16 % 2 ^ 17 * 16 := by
    have h : x 0 &&& (0x1FFFF0 : BitVec 32) = ((x 0 >>> 4) &&& 0x1FFFF) <<< 4 := by
      apply BitVec.eq_of_getLsbD_eq
      intro i hi
      interval_cases i <;> simp
    rw [h, BitVec.toNat_shiftLeft, toNat_and_mask (k := 17) _ _ rfl, BitVec.toNat_ushiftRight,
      Nat.shiftRight_eq_div_pow, Nat.shiftLeft_eq]
    omega
  have hlane : (lane sub).toNat = sub := by
    fin_cases sub <;> rfl
  rw [BitVec.toNat_add, BitVec.toNat_ushiftRight, hmask, hlane, Nat.shiftRight_eq_div_pow]
  simp only [blockIndex]
  omega

/-- The word-wise tweak is the tweak of the top byte. -/
theorem cudaVariant1_1_eq (w : BitVec 32) : cudaVariant1_1 w = variant1Word w := by
  have htop : (w >>> 24).setWidth 8 = w.extractLsb' 24 8 := by
    apply BitVec.eq_of_getLsbD_eq
    intro i hi
    simp [hi]
  unfold cudaVariant1_1 variant1Word variant1Byte
  simp only [htop]
  generalize w.extractLsb' 24 8 = tmp
  generalize ((0x75310 : BitVec 32) >>> ((((tmp >>> 3) &&& 6) ||| (tmp &&& 1)) <<< 1).toNat)
    &&& 0x30 = t
  apply BitVec.eq_of_getLsbD_eq
  intro i hi
  -- the three low bytes stay, the top byte takes the table entry
  have happ : BitVec.getLsbD (w := 32) ((tmp ^^^ t.setWidth 8) ++ w.extractLsb' 0 24) i
      = if i < 24 then (w.extractLsb' 0 24).getLsbD i
        else (tmp ^^^ t.setWidth 8).getLsbD (i - 24) := BitVec.getLsbD_append
  rw [happ, BitVec.getLsbD_or, BitVec.getLsbD_and, BitVec.getLsbD_shiftLeft]
  by_cases h : i < 24
  · have hmask : (0x00ffffff : BitVec 32).getLsbD i = true := by
      interval_cases i <;> rfl
    rw [hmask]
    simp [h]
  · have hmask : (0x00ffffff : BitVec 32).getLsbD i = false := by
      interval_cases i <;> rfl
    have h8 : i - 24 < 8 := by omega
    rw [hmask, if_neg h, BitVec.getLsbD_xor, BitVec.getLsbD_xor, BitVec.getLsbD_setWidth,
      BitVec.getLsbD_setWidth]
    simp [h, hi, h8]
    omega

theorem setWidth_ushiftRight (v : BitVec 64) (s : ℕ) :
    (v >>> s).setWidth 32 = v.extractLsb' s 32 := by
  apply BitVec.eq_of_getLsbD_eq
  intro i hi
  simp [hi]

/-- The lane's share of the sum: the low lanes add the high word of the product onto
the low half of `a`, and the other way round. -/
theorem mulSum_lane (a c d : Block) (sub : Fin 4) :
    ((((if lane sub &&& 2 ≠ 0 then a 3 else a 1) ++ (if lane sub &&& 2 ≠ 0 then a 2 else a 0)
          : BitVec 64) +
        (if lane sub &&& 2 ≠ 0 then c.lo * d.lo else umul64hi c.lo d.lo)) >>>
          (if lane sub &&& 1 ≠ 0 then 32 else 0)).setWidth 32 = mulSum a c d sub := by
  rw [setWidth_ushiftRight, mulSum, BitVec.add_comm _ a.lo, BitVec.add_comm _ a.hi]
  fin_cases sub <;> rfl

/-- The lane's share of the tweaked sum. -/
theorem tweakHigh_lane {variant : ℕ} {tweak1_2 : BitVec 64} {tw : Fin 2 → BitVec 32}
    (htw : variant > 0 → ∀ i : Fin 2, tw i = tweak1_2.extractLsb' (32 * i) 32) (x : Block)
    (sub : Fin 4) :
    (if variant > 0 ∧ lane sub &&& 2 ≠ 0 then
      (if lane sub &&& 1 ≠ 0 then tw 1 else tw 0) ^^^ x sub else x sub)
      = tweakHigh variant tweak1_2 x sub := by
  -- lanes 2 and 3 hold the high half
  obtain ⟨l, h, rfl⟩ : ∃ l h, x = Block.ofHalves l h := ⟨x.lo, x.hi, (Block.ofHalves_lo_hi x).symm⟩
  rw [tweakHigh, Block.lo_ofHalves, Block.hi_ofHalves]
  by_cases hv : variant > 0
  · have hxor : ∀ s : ℕ, (h ^^^ tweak1_2).extractLsb' s 32
        = tweak1_2.extractLsb' s 32 ^^^ h.extractLsb' s 32 := by
      intro s
      rw [BitVec.extractLsb'_xor, BitVec.xor_comm]
    rw [if_pos hv, htw hv 0, htw hv 1]
    simp only [hv, true_and, Block.ofHalves, hxor]
    fin_cases sub <;> rfl
  · rw [if_neg hv, if_neg fun h => hv h.1]

/-! ### Half an iteration -/

/-- The lane's share of the block that is stored first. -/
theorem variant1Block_lane (variant : ℕ) (z : Block) (sub : Fin 4) :
    (if variant > 0 ∧ sub = 2 then cudaVariant1_1 (z sub) else z sub)
      = variant1Block variant z sub := by
  unfold variant1Block
  by_cases hv : variant > 0
  · rcases eq_or_ne sub 2 with rfl | hsub
    · rw [if_pos ⟨hv, rfl⟩, if_pos hv, Function.update_self, cudaVariant1_1_eq]
    · rw [if_neg fun h => hsub h.2, if_pos hv, Function.update_of_ne hsub]
  · rw [if_neg fun h => hv h.1, if_neg hv]

/-- The two slots of `d` are the AES output and the one before, in some order. -/
theorem xor_slots (x : Fin 2) (d : Fin 2 → Block) (c : Block) (sub : Fin 4) :
    Function.update d x c 0 sub ^^^ Function.update d x c 1 sub = c.xor (d (x + 1)) sub := by
  fin_cases x
  · rfl
  · exact BitVec.xor_comm _ _

/-- **Half an iteration of the kernel is `halfRound`**: slot `x` of `d` takes the AES
output, and the other slot holds the one before. -/
theorem runs_phase2Half (impl : ShuffleImpl) {sharedMemory : ℕ → BitVec 32}
    (hsm : HasTables sharedMemory) {variant : ℕ} {tweak1_2 : BitVec 64} {tw : Fin 2 → BitVec 32}
    (htw : variant > 0 → ∀ i : Fin 2, tw i = tweak1_2.extractLsb' (32 * i) 32) (x : Fin 2)
    (a : Block) (d : Fin 2 → Block) (L : ℕ → BitVec 32) :
    let s := halfRound variant tweak1_2 ⟨warpScratch L, a, d (x + 1)⟩
    ∃ L', Runs (phase2Half impl sharedMemory variant tw x a d) L
        (s.a, Function.update d x s.b) L' ∧ warpScratch L' = s.scratch := by
  intro s
  set i := blockIndex a with hi
  set c := aesRound tFn (warpScratch L i) a with hc
  set j := blockIndex c with hj
  have hlane : ∀ sub n : Fin 4, laneOf (lane sub + BitVec.ofNat 32 n) = sub + n := by
    decide
  have hslot : (fun sub : Fin 4 => a sub ^^^
      sharedMemory (warpScratch L i sub &&& 0xff).toNat ^^^
      sharedMemory (256 + ((warpScratch L i (sub + 1) >>> 8) &&& 0xff).toNat) ^^^
      sharedMemory (512 + ((warpScratch L i (sub + 2) >>> 16) &&& 0xff).toNat) ^^^
      sharedMemory (768 + (warpScratch L i (sub + 3) >>> 24).toNat)) = c :=
    funext fun sub => aesRound_lane hsm _ _ sub
  -- the scratchpad after the first store is the one the second block is read from
  obtain ⟨L₁, hstore₁, hL₁⟩ := runs_storeGlobal32 L
    (variant1Block variant (c.xor (d (x + 1)))) i (toNat_address a)
  obtain ⟨L₂, hstore₂, hL₂⟩ := runs_storeGlobal32 L₁
    (tweakHigh variant tweak1_2 (mulSum a c (warpScratch L₁ j))) j (toNat_address c)
  refine ⟨L₂, ?_, ?_⟩
  · -- the AES round
    refine Runs.bind (runs_shuffle (v := fun _ => a 0) fun _ => rfl) ?_
    refine Runs.bind (runs_loadGlobal32 i (toNat_address a)) ?_
    refine Runs.bind (runs_shuffle fun sub => congrArg _ (hlane sub 1)) ?_
    refine Runs.bind (runs_shuffle fun sub => congrArg _ (hlane sub 2)) ?_
    refine Runs.bind (runs_shuffle fun sub => congrArg _ (hlane sub 3)) ?_
    rw [hslot]
    simp only [Function.update_self, xor_slots, variant1Block_lane]
    -- the store of the mixed block
    refine Runs.bind (runs_shuffle (v := fun _ => c 0) fun _ => rfl) ?_
    refine Runs.bind hstore₁ ?_
    -- the multiplication
    refine Runs.bind (runs_loadGlobal64 j fun sub => ?_) ?_
    · rw [BitVec.toNat_ushiftRight, toNat_address, Nat.shiftRight_eq_div_pow]
      omega
    refine Runs.bind (runs_shuffle (v := fun _ => warpScratch L₁ j 0) fun _ => rfl) ?_
    refine Runs.bind (runs_shuffle (v := fun _ => warpScratch L₁ j 1) fun _ => rfl) ?_
    refine Runs.bind (runs_shuffle (v := fun _ => c 1) fun _ => rfl) ?_
    refine Runs.bind (runs_shuffle (v := fun sub => if lane sub &&& 2 ≠ 0 then a 2 else a 0)
      fun sub => ?_) ?_
    · fin_cases sub <;> rfl
    refine Runs.bind (runs_shuffle (v := fun sub => if lane sub &&& 2 ≠ 0 then a 3 else a 1)
      fun sub => ?_) ?_
    · fin_cases sub <;> rfl
    -- the store of the sum, and the registers of the next half
    have hres := mulSum_lane a c (warpScratch L₁ j)
    simp only [Block.lo] at hres
    simp only [hres, tweakHigh_lane htw]
    refine Runs.bind hstore₂ (Runs.pure ?_)
    rw [Prod.mk.injEq]
    refine ⟨funext ?_, rfl⟩
    intro sub
    have ha : s.a = (warpScratch L₁ j).xor (mulSum a c (warpScratch L₁ j)) := by
      rw [hL₁]
      rfl
    rw [ha]
    fin_cases sub <;> rfl
  · rw [hL₂, hL₁]
    rfl

/-! ### The loop and its parts -/

theorem mainLoop_add (variant : ℕ) (tweak1_2 : BitVec 64) (m n : ℕ) (s : LoopState) :
    mainLoop variant tweak1_2 (m + n) s
      = mainLoop variant tweak1_2 n (mainLoop variant tweak1_2 m s) := by
  rw [mainLoop, Nat.add_comm, Function.iterate_add_apply]
  rfl

theorem runs_phase2Loop (impl : ShuffleImpl) {sharedMemory : ℕ → BitVec 32}
    (hsm : HasTables sharedMemory) {variant : ℕ} {tweak1_2 : BitVec 64} {tw : Fin 2 → BitVec 32}
    (htw : variant > 0 → ∀ i : Fin 2, tw i = tweak1_2.extractLsb' (32 * i) 32) :
    ∀ (n : ℕ) (a : Block) (d : Fin 2 → Block) (L : ℕ → BitVec 32),
      let s := mainLoop variant tweak1_2 n ⟨warpScratch L, a, d 1⟩
      ∃ d' L', Runs (phase2Loop impl sharedMemory variant tw n a d) L (s.a, d') L' ∧
        warpScratch L' = s.scratch ∧ d' 1 = s.b := by
  intro n
  induction n with
  | zero => exact fun a d L => ⟨d, L, Runs.pure rfl, rfl, rfl⟩
  | succ n ih =>
    intro a d L s
    -- the first half reads slot 1 and fills slot 0, the second the other way round
    obtain ⟨L₁, h₁, hL₁⟩ := runs_phase2Half impl hsm htw 0 a d L
    set s₁ := halfRound variant tweak1_2 ⟨warpScratch L, a, d 1⟩
    set d₁ := Function.update d 0 s₁.b with hd₁
    have hb₁ : d₁ (1 + 1) = s₁.b := Function.update_self _ _ _
    obtain ⟨L₂, h₂, hL₂⟩ := runs_phase2Half impl hsm htw 1 s₁.a d₁ L₁
    rw [hb₁, hL₁] at h₂ hL₂
    set s₂ := halfRound variant tweak1_2 s₁
    obtain ⟨d', L', h, hL', hd'⟩ := ih s₂.a (Function.update d₁ 1 s₂.b) L₂
    rw [hL₂, Function.update_self] at h hL' hd'
    exact ⟨d', L', Runs.bind h₁ (Runs.bind h₂ h), hL', hd'⟩

/-- The device memory of a hash holds the state `s` of the loop. -/
structure Phase2Ctx.Holds (ctx : Phase2Ctx) (variant : ℕ) (tweak1_2 : BitVec 64)
    (s : LoopState) : Prop where
  /-- The scratchpad. -/
  scratch : warpScratch ctx.longState = s.scratch
  /-- The accumulator. -/
  ctxA : ctx.ctxA = s.a
  /-- The last AES output. -/
  ctxB : ctx.ctxB = s.b
  /-- The tweak, which only the tweaked variants read. -/
  tweak : variant > 0 → ∀ i : Fin 2, ctx.tweak1_2 i = tweak1_2.extractLsb' (32 * i) 32

/-- One part of `n` iterations.  It leaves the scratchpad of `mainLoop`, and if parts
are in use the whole state. -/
theorem phase2Part_eq (l : Launch) (hb : 0 < l.blockDim) (u : Uninit) {tweak1_2 : BitVec 64}
    (start n : ℕ) {ctx : Phase2Ctx} {s : LoopState} (hctx : ctx.Holds l.variant tweak1_2 s) :
    ∃ ctx', phase2Part l u start (start + n) ctx = some ctx' ∧
      warpScratch ctx'.longState = (mainLoop l.variant tweak1_2 n s).scratch ∧
      (l.bfactor > 0 → ctx'.Holds l.variant tweak1_2 (mainLoop l.variant tweak1_2 n s)) := by
  obtain ⟨d', L', hrun, hL', hd'⟩ := runs_phase2Loop l.impl
    (hasTables_cnAesGpuInit hb u.sharedMemory) hctx.tweak n ctx.ctxA ![u.d_0, ctx.ctxB]
    ctx.longState
  have hs : (⟨warpScratch ctx.longState, ctx.ctxA, ctx.ctxB⟩ : LoopState) = s :=
    LoopState.ext hctx.scratch hctx.ctxA hctx.ctxB
  have hslot : (![u.d_0, ctx.ctxB] : Fin 2 → Block) 1 = ctx.ctxB := rfl
  rw [hslot, hs] at hrun hL' hd'
  obtain ⟨sPtr', hrun⟩ := hrun u.sPtr
  unfold phase2Part
  rw [Nat.add_sub_cancel_left]
  simp only [hrun, Option.bind_eq_bind, Option.bind_some]
  by_cases hf : l.bfactor > 0
  · rw [if_pos hf]
    exact ⟨_, rfl, hL', fun _ => ⟨hL', rfl, hd', hctx.tweak⟩⟩
  · rw [if_neg hf]
    exact ⟨_, rfl, hL', fun h => absurd h hf⟩

/-- **Consecutive parts run `mainLoop` to its end**, whatever their lengths.  A launch
that saves nothing has to be the only one. -/
theorem phase2Parts_eq (l : Launch) (hb : 0 < l.blockDim) {tweak1_2 : BitVec 64} :
    ∀ (parts : List (ℕ × Uninit)) (start : ℕ) (ctx : Phase2Ctx) (s : LoopState),
      (l.bfactor = 0 → parts.length ≤ 1) → ctx.Holds l.variant tweak1_2 s →
      let s' := mainLoop l.variant tweak1_2 (parts.map Prod.fst).sum s
      ∃ ctx', phase2Parts l start parts ctx = some ctx' ∧
        warpScratch ctx'.longState = s'.scratch ∧
        (l.bfactor > 0 → ctx'.Holds l.variant tweak1_2 s') := by
  intro parts
  induction parts with
  | nil => exact fun start ctx s _ hctx => ⟨ctx, rfl, hctx.scratch, fun _ => hctx⟩
  | cons part parts ih =>
    obtain ⟨n, u⟩ := part
    intro start ctx s hlen hctx
    obtain ⟨ctx₁, hpart, hL, hholds⟩ := phase2Part_eq l hb u start n hctx
    simp only [phase2Parts, hpart, Option.bind_eq_bind, Option.bind_some, List.map_cons,
      List.sum_cons, mainLoop_add]
    by_cases hf : l.bfactor > 0
    · exact ih _ ctx₁ _ (fun h => by omega) (hholds hf)
    · -- without saved registers this was the last part
      have hnil : parts = [] := by
        have := hlen (by omega)
        exact List.length_eq_zero_iff.mp (by simpa using this)
      subst hnil
      exact ⟨ctx₁, rfl, hL, hholds⟩

/-! ### Both loops -/

theorem mainLoop_congr_variant {v v' : ℕ} (h : v > 0 ↔ v' > 0) (tweak1_2 : BitVec 64) :
    mainLoop v tweak1_2 = mainLoop v' tweak1_2 := by
  have hhalf : halfRound v tweak1_2 = halfRound v' tweak1_2 := by
    funext s
    simp only [halfRound, variant1Block, tweakHigh, h]
  have hfull : fullRound v tweak1_2 = fullRound v' tweak1_2 := by
    funext s
    simp only [fullRound, hhalf]
  funext n s
  rw [mainLoop, mainLoop, hfull]

/-- The words of the device scratchpad and those of the context. -/
theorem warpScratch_eq_iff (L : ℕ → BitVec 32) (m : ByteMem) :
    warpScratch L = scratchOf m ↔ ∀ w < 2 ^ 19, L w = load32 m (Ctx.longState + 4 * w) := by
  have haddr : ∀ k i : ℕ, Ctx.longState + k * 16 + 4 * i = Ctx.longState + 4 * (4 * k + i) := by
    intro k i
    ring
  constructor
  · intro h w hw
    have hword := congrFun (congrFun h ⟨w / 4, by omega⟩) ⟨w % 4, by omega⟩
    simp only [warpScratch, scratchOf, loadBlock, haddr, Nat.div_add_mod] at hword
    exact hword
  · intro h
    funext k i
    simp only [warpScratch, scratchOf, loadBlock, haddr]
    exact h _ (by omega)

/-- The device memory of a hash, as the host sees the same context. -/
def deviceCtx (m : ByteMem) (tweak1_2 : BitVec 64) : Phase2Ctx where
  longState w := load32 m (Ctx.longState + 4 * w)
  ctxA := loadBlock m Ctx.a
  ctxB := loadBlock m Ctx.b
  tweak1_2 i := tweak1_2.extractLsb' (32 * i) 32

theorem holds_deviceCtx (m : ByteMem) (variant : ℕ) (tweak1_2 : BitVec 64) :
    (deviceCtx m tweak1_2).Holds variant tweak1_2 (loopStateOf m Ctx.b) :=
  ⟨(warpScratch_eq_iff _ m).mpr fun _ _ => rfl, rfl, rfl, fun _ _ => rfl⟩

theorem Launch.ofHost_variant (impl : ShuffleImpl) (variant blockDim bfactor : ℕ) :
    (Launch.ofHost impl variant blockDim bfactor).variant > 0 ↔ variant > 0 := by
  simp only [Launch.ofHost]
  split <;> omega

/-- The parts of a host launch. -/
theorem phase2Parts_ofHost (impl : ShuffleImpl) {variant blockDim bfactor : ℕ}
    (hb : 0 < blockDim) {parts : List (ℕ × Uninit)} (hparts : bfactor = 0 → parts.length ≤ 1)
    (start : ℕ) {tweak1_2 : BitVec 64} {ctx : Phase2Ctx} {s : LoopState}
    (hctx : ctx.Holds variant tweak1_2 s) :
    let s' := mainLoop variant tweak1_2 (parts.map Prod.fst).sum s
    ∃ ctx', phase2Parts (Launch.ofHost impl variant blockDim bfactor) start parts ctx = some ctx' ∧
      warpScratch ctx'.longState = s'.scratch ∧
      (bfactor > 0 → ctx'.Holds variant tweak1_2 s') := by
  intro s'
  set l := Launch.ofHost impl variant blockDim bfactor
  have hv : l.variant > 0 ↔ variant > 0 := Launch.ofHost_variant impl variant blockDim bfactor
  obtain ⟨ctx', hrun, hL, hsave⟩ := phase2Parts_eq l hb parts start ctx s hparts
    ⟨hctx.scratch, hctx.ctxA, hctx.ctxB, fun h => hctx.tweak (hv.mp h)⟩
  rw [mainLoop_congr_variant hv] at hL hsave
  exact ⟨ctx', hrun, hL, fun hf =>
    ⟨(hsave hf).scratch, (hsave hf).ctxA, (hsave hf).ctxB, fun h => (hsave hf).tweak (hv.mpr h)⟩⟩

/-- **The device loop refines the CPU loop.**  Any number of iterations, cut into any
consecutive parts, leaves the scratchpad the CPU loop leaves, and the registers saved
after the last part are those of the CPU.  No access leaves the scratchpad, since the
run does not fail. -/
theorem phase2Parts_refines_cryptonightLoop (impl : ShuffleImpl) (variant blockDim bfactor : ℕ)
    (hb : 0 < blockDim) (tweak1_2 : BitVec 64) (m : ByteMem) (parts : List (ℕ × Uninit))
    (hparts : bfactor = 0 → parts.length ≤ 1) (start : ℕ) (ctx : Phase2Ctx)
    (hscratch : ∀ w < 2 ^ 19, ctx.longState w = load32 m (Ctx.longState + 4 * w))
    (hctxA : ctx.ctxA = loadBlock m Ctx.a) (hctxB : ctx.ctxB = loadBlock m Ctx.b)
    (htweak : variant > 0 → ∀ i : Fin 2, ctx.tweak1_2 i = tweak1_2.extractLsb' (32 * i) 32) :
    let m' := cryptonightLoop variant tweak1_2 (parts.map Prod.fst).sum m
    ∃ ctx', phase2Parts (Launch.ofHost impl variant blockDim bfactor) start parts ctx = some ctx' ∧
      (∀ w < 2 ^ 19, ctx'.longState w = load32 m' (Ctx.longState + 4 * w)) ∧
      (bfactor > 0 → ctx'.ctxA = loadBlock m' Ctx.a ∧ ctx'.ctxB = loadBlock m' Ctx.b) := by
  have hctx : ctx.Holds variant tweak1_2 (loopStateOf m Ctx.b) :=
    ⟨(warpScratch_eq_iff _ m).mpr hscratch, hctxA, hctxB, htweak⟩
  obtain ⟨ctx', hrun, hL, hsave⟩ := phase2Parts_ofHost impl hb hparts start hctx
  rw [← loopStateOf_cryptonightLoop] at hL hsave
  exact ⟨ctx', hrun, (warpScratch_eq_iff _ _).mp hL, fun hf => ⟨(hsave hf).ctxA, (hsave hf).ctxB⟩⟩

/-- Parts of three and five iterations of variant 1, from an empty context. -/
theorem phase2Parts_refines_cryptonightLoop_three_five :
    let m : ByteMem := fun _ => 0
    let u : Uninit := ⟨fun _ => 0, fun _ => 0, fun _ => 0⟩
    let m' := cryptonightLoop 1 0x0123456789abcdef 8 m
    ∃ ctx', phase2Parts (Launch.ofHost .shfl 1 32 2) 0 [(3, u), (5, u)]
        (deviceCtx m 0x0123456789abcdef) = some ctx' ∧
      (∀ w < 2 ^ 19, ctx'.longState w = load32 m' (Ctx.longState + 4 * w)) ∧
      (2 > 0 → ctx'.ctxA = loadBlock m' Ctx.a ∧ ctx'.ctxB = loadBlock m' Ctx.b) := by
  intro m u
  exact phase2Parts_refines_cryptonightLoop .shfl 1 32 2 (by decide) 0x0123456789abcdef m
    [(3, u), (5, u)] (by decide) 0 (deviceCtx m 0x0123456789abcdef) (fun _ _ => rfl) rfl rfl
    fun _ _ => rfl

/-! ### The host loop -/

theorem cryptonightCoreCpuHashPhase2_eq (l : Launch) (u : ℕ → Uninit) :
    ∀ (n i : ℕ) (ctx : Phase2Ctx), cryptonightCoreCpuHashPhase2 l u i n ctx
      = phase2Parts l (i * (1048576 >>> (2 + l.bfactor)))
          ((List.range' i n).map fun k => (1048576 >>> (2 + l.bfactor), u k)) ctx := by
  intro n
  induction n with
  | zero => exact fun i ctx => rfl
  | succ n ih =>
    intro i ctx
    simp only [cryptonightCoreCpuHashPhase2, cryptonightCoreGpuPhase2, List.range'_succ,
      List.map_cons, phase2Parts, ih, Nat.succ_mul]

/-- The launches of phase 2 go through the whole loop. -/
theorem exists_cryptonightCoreCpuHashPhase2 (impl : ShuffleImpl) {variant blockDim bfactor : ℕ}
    (hb : 0 < blockDim) (hf : bfactor ≤ 10) (u : ℕ → Uninit) {tweak1_2 : BitVec 64}
    {ctx : Phase2Ctx} {s : LoopState} (hctx : ctx.Holds variant tweak1_2 s) :
    ∃ ctx', cryptonightCoreCpuHashPhase2 (Launch.ofHost impl variant blockDim bfactor) u 0
        (1 <<< bfactor) ctx = some ctx' ∧
      warpScratch ctx'.longState = (mainLoop variant tweak1_2 (1048576 / 4) s).scratch := by
  rw [cryptonightCoreCpuHashPhase2_eq]
  set parts := (List.range' 0 (1 <<< bfactor)).map fun k => (1048576 >>> (2 + bfactor), u k)
    with hparts
  have hsum : (parts.map Prod.fst).sum = 1048576 / 4 := by
    rw [hparts, List.map_map, Function.comp_def]
    simp only [List.map_const', List.length_range', List.sum_replicate_nat]
    interval_cases bfactor <;> rfl
  have hone : bfactor = 0 → parts.length ≤ 1 := by
    rintro rfl
    simp [hparts]
  obtain ⟨ctx', hrun, hscratch, -⟩ := phase2Parts_ofHost impl hb hone
    (0 * (1048576 >>> (2 + bfactor))) hctx
  rw [hsum] at hscratch
  exact ⟨ctx', hrun, hscratch⟩

/-- **All launches of phase 2 together** run the `ITER / 4` iterations of the CPU loop,
for every value of the option `--bfactor` that the miner accepts. -/
theorem cryptonightCoreCpuHashPhase2_refines (impl : ShuffleImpl) (variant : ℕ)
    {blockDim bfactor : ℕ} (hb : 0 < blockDim) (hf : bfactor ≤ 10) (tweak1_2 : BitVec 64)
    (m : ByteMem) (u : ℕ → Uninit) :
    ∃ ctx', cryptonightCoreCpuHashPhase2 (Launch.ofHost impl variant blockDim bfactor) u 0
        (1 <<< bfactor) (deviceCtx m tweak1_2) = some ctx' ∧
      warpScratch ctx'.longState
        = scratchOf (cryptonightLoop variant tweak1_2 (1048576 / 4) m) := by
  obtain ⟨ctx', hrun, hL⟩ := exists_cryptonightCoreCpuHashPhase2 impl hb hf u
    (holds_deviceCtx m variant tweak1_2)
  rw [← loopStateOf_cryptonightLoop] at hL
  exact ⟨ctx', hrun, hL⟩

end XmrMiner
