import XmrMiner.Cuda.Grid

/-!
# Each hash of a batch goes as if it were alone

Where the indices fit, the slices of two hashes have no word in common, and neither do their
words of `shuffleMem`.

## Main definitions

* `Device.turn8`, `Device.turn4` — the hash, and the lane of it, whose turn an event is.
* `GridRun.core` — how the launches go for one hash.

## Main results

* `gridCoreCpuHash_core` — **each hash of a batch ends with what it computes alone**, with its lanes
  in the order of their turns, on a device whose indices fit.
* `gridCoreCpuHash_eq_none` — and the limit for an index of type `int`.
-/

namespace XmrMiner

open ByteMem Slices

/-! ### Indices -/

theorem intIndex_eq {x : ℕ} (h : x < 2 ^ 31) : intIndex x = some x := by
  have hx : x % 2 ^ 32 = x := Nat.mod_eq_of_lt (by omega)
  rw [intIndex, hx, if_pos h]

section Indices

variable {dev : Device} {t : ℕ}

theorem Device.Fits.intIndex (h : dev.Fits) (ht : t < dev.throughput) {n : ℕ} (hn : n ≤ 50) :
    intIndex (t * n) = some (t * n) := by
  have hle : t * n ≤ t * 50 := Nat.mul_le_mul_left t hn
  exact intIndex_eq (by have := h.1; omega)

theorem Device.Fits.scratchpad (h : dev.Fits) (ht : t < dev.throughput) :
    dev.index.scratchpad t = some (t * 2 ^ 19) := by
  obtain ⟨h50, hindex⟩ := h
  cases hdev : dev.index with
  | int =>
    have h4096 : dev.throughput ≤ 4096 := hindex.resolve_left (by simp [hdev])
    rw [IndexType.scratchpad, Nat.shiftLeft_eq, intIndex_eq (by omega)]
  | uint64 => rw [IndexType.scratchpad, Nat.shiftLeft_eq, Nat.mod_eq_of_lt (by omega)]

theorem Device.Fits.sum (h : dev.Fits) (ht : t < dev.throughput) {k : ℕ} (hk : k < 2 ^ 19) :
    dev.index.sum ((t <<< 19) + k) = t * 2 ^ 19 + k := by
  obtain ⟨h50, hindex⟩ := h
  cases hdev : dev.index with
  | int =>
    have h4096 : dev.throughput ≤ 4096 := hindex.resolve_left (by simp [hdev])
    rw [IndexType.sum, Nat.shiftLeft_eq, Nat.mod_eq_of_lt (by omega)]
  | uint64 => rw [IndexType.sum, Nat.shiftLeft_eq, Nat.mod_eq_of_lt (by omega)]

end Indices

/-! ### Words of a slice -/

theorem loadWords_slice {n p q : ℕ} (L : ℕ → BitVec 32) (h : q + 4 ≤ n) :
    loadWords (slice n p L) q = loadWords L (p + q) := by
  funext i
  rw [loadWords, loadWords, slice_apply (by omega), Nat.add_assoc]

theorem slice_storeWords {n p q : ℕ} (L : ℕ → BitVec 32) (x : Block) (h : q + 4 ≤ n) :
    slice n p (storeWords L (p + q) x) = storeWords (slice n p L) q x := by
  simp only [storeWords, Nat.add_assoc p q]
  rw [slice_update (by omega), slice_update (by omega), slice_update (by omega),
    slice_update (by omega)]

theorem slice_storeWords_of_outside {n p q : ℕ} (L : ℕ → BitVec 32) (x : Block)
    (h : q + 4 ≤ p ∨ p + n ≤ q) : slice n p (storeWords L q x) = slice n p L := by
  unfold storeWords
  rw [slice_update_of_outside (by omega), slice_update_of_outside (by omega),
    slice_update_of_outside (by omega), slice_update_of_outside (by omega)]

theorem subOf_le (lane : Fin 8) : subOf lane ≤ 28 := by
  rw [subOf_eq]
  omega

/-- Two lanes of a hash have registers of their own. -/
theorem lane_ne (t : ℕ) {l lane : Fin 8} (h : l ≠ lane) : 8 * t + (l : ℕ) ≠ 8 * t + lane :=
  fun e => h (Fin.ext (by omega))

/-! ### The threads of a hash -/

theorem Device.block8_eq (dev : Device) : dev.block8 = 8 * dev.threads := by
  rw [Device.block8, Nat.shiftLeft_eq, Nat.mul_comm]

theorem Device.block4_eq (dev : Device) : dev.block4 = 4 * dev.threads := by
  rw [Device.block4, Nat.shiftLeft_eq, Nat.mul_comm]

/-- The hash and the lane of a thread, in phases 1 and 3. -/
def Device.turn8 (dev : Device) (e : ℕ × ℕ) : Option (ℕ × Fin 8) :=
  if e.1 < dev.blocks ∧ e.2 < dev.block8 then
    some (dev.threads * e.1 + e.2 / 8, Fin.ofNat 8 e.2)
  else none

/-- The hash of four threads, in phase 2. -/
def Device.turn4 (dev : Device) (e : ℕ × ℕ) : Option (ℕ × Unit) :=
  if e.1 < dev.blocks ∧ e.2 < dev.threads then some (dev.threads * e.1 + e.2, ()) else none

section Threads

variable {dev : Device} {b x k t : ℕ} {lane : Fin 8}

/-- A hash of a block. -/
theorem Device.hash_lt (hb : b < dev.blocks) (hk : k < dev.threads) :
    dev.threads * b + k < dev.throughput := by
  have hle : dev.threads * (b + 1) ≤ dev.threads * dev.blocks := Nat.mul_le_mul_left _ hb
  rw [Device.throughput]
  rw [Nat.mul_succ] at hle
  omega

theorem Device.block_of_hash (b : ℕ) (hk : k < dev.threads) :
    (dev.threads * b + k) / dev.threads = b := by
  rw [Nat.mul_add_div (by omega), Nat.div_eq_of_lt hk, Nat.add_zero]

/-- What the kernels compute from the numbers of a thread. -/
theorem Device.turn8_eq_some (hfits : dev.Fits) (h : dev.turn8 (b, x) = some (t, lane)) :
    (b < dev.blocks ∧ x < dev.block8) ∧ t < dev.throughput ∧ t / dev.threads = b ∧
      dev.block8 * b + x = 8 * t + lane ∧ ((dev.block8 * b + x) % 2 ^ 32) >>> 3 = t ∧
      (x &&& 7) <<< 2 = subOf lane := by
  simp only [Device.turn8] at h
  split at h
  · next hin =>
    obtain ⟨rfl, rfl⟩ := Prod.mk.inj (Option.some.inj h)
    have h8 := dev.block8_eq
    have hk : x / 8 < dev.threads := by omega
    have hlt := Device.hash_lt hin.1 hk
    have hsum : dev.block8 * b + x = 8 * (dev.threads * b + x / 8) + (Fin.ofNat 8 x : Fin 8) := by
      rw [h8, Nat.mul_assoc, Fin.val_ofNat]
      omega
    refine ⟨hin, hlt, Device.block_of_hash b hk, hsum, ?_, ?_⟩
    · have h32 := hfits.1
      rw [Nat.mod_eq_of_lt (by omega), Nat.shiftRight_eq_div_pow]
      omega
    · rw [subOf, Nat.and_two_pow_sub_one_eq_mod x 3]
      rfl
  · cases h

theorem Device.turn8_eq_none {e : ℕ × ℕ} (h : dev.turn8 e = none) :
    ¬(e.1 < dev.blocks ∧ e.2 < dev.block8) := by
  intro hin
  rw [Device.turn8, if_pos hin] at h
  cases h

/-- What phase 2 computes from the numbers of four threads. -/
theorem Device.turn4_eq_some (hfits : dev.Fits) {u : Unit} (h : dev.turn4 (b, x) = some (t, u)) :
    (b < dev.blocks ∧ x < dev.threads) ∧ t < dev.throughput ∧ t = dev.threads * b + x ∧
      ((dev.block4 * b + 4 * x) % 2 ^ 32) >>> 2 = t := by
  simp only [Device.turn4] at h
  split at h
  · next hin =>
    obtain ⟨rfl, -⟩ := Prod.mk.inj (Option.some.inj h)
    have hlt := Device.hash_lt hin.1 hin.2
    have hsum : dev.block4 * b + 4 * x = 4 * (dev.threads * b + x) := by
      rw [dev.block4_eq]
      ring
    refine ⟨hin, hlt, rfl, ?_⟩
    have h32 := hfits.1
    rw [hsum, Nat.mod_eq_of_lt (by omega), Nat.shiftRight_eq_div_pow]
    omega
  · cases h

theorem Device.turn4_eq_none {e : ℕ × ℕ} (h : dev.turn4 e = none) :
    ¬(e.1 < dev.blocks ∧ e.2 < dev.threads) := by
  intro hin
  rw [Device.turn4, if_pos hin] at h
  cases h

/-- The event of a lane. -/
theorem Device.turn8_lane (ht : t < dev.throughput) (lane : Fin 8) :
    (t / dev.threads < dev.blocks ∧ 8 * (t % dev.threads) + (lane : ℕ) < dev.block8) ∧
      dev.turn8 (t / dev.threads, 8 * (t % dev.threads) + lane) = some (t, lane) := by
  have hpos : 0 < dev.threads := Nat.pos_of_mul_pos_right (Nat.zero_lt_of_lt ht)
  have hb : t / dev.threads < dev.blocks := Nat.div_lt_of_lt_mul ht
  have hk := Nat.mod_lt t hpos
  have hx : 8 * (t % dev.threads) + (lane : ℕ) < dev.block8 := by
    rw [dev.block8_eq]
    omega
  refine ⟨⟨hb, hx⟩, ?_⟩
  have hdiv : (8 * (t % dev.threads) + (lane : ℕ)) / 8 = t % dev.threads := by omega
  have hlane : Fin.ofNat 8 (8 * (t % dev.threads) + (lane : ℕ)) = lane :=
    Fin.ext (by rw [Fin.val_ofNat]; omega)
  rw [Device.turn8, if_pos ⟨hb, hx⟩, hdiv, hlane, Nat.div_add_mod]

/-- The event of a hash. -/
theorem Device.turn4_hash (ht : t < dev.throughput) :
    (t / dev.threads < dev.blocks ∧ t % dev.threads < dev.threads) ∧
      dev.turn4 (t / dev.threads, t % dev.threads) = some (t, ()) := by
  have hpos : 0 < dev.threads := Nat.pos_of_mul_pos_right (Nat.zero_lt_of_lt ht)
  have hin : t / dev.threads < dev.blocks ∧ t % dev.threads < dev.threads :=
    ⟨Nat.div_lt_of_lt_mul ht, Nat.mod_lt t hpos⟩
  exact ⟨hin, by rw [Device.turn4, if_pos hin, Nat.div_add_mod]⟩

end Threads

/-- How the launches go for hash `t`. -/
def GridRun.core (r : GridRun) (dev : Device) (t : ℕ) : CoreRun where
  sharedMemory1 i := r.sharedMemory1 i (t / dev.threads)
  sched1 i := turnsOf dev.turn8 t (r.turns1 i)
  uninit2 i :=
    ⟨(r.uninit2 i).sharedMemory (t / dev.threads),
      loadWords ((r.uninit2 i).shuffleMem (t / dev.threads)) (4 * (t % dev.threads)),
      (r.uninit2 i).d_0 t⟩
  sharedMemory3 i := r.sharedMemory3 i (t / dev.threads)
  sched3 i := turnsOf dev.turn8 t (r.turns3 i)

/-! ### Phase 1 -/

/-- The grid carries the lanes of hash `t` in the state `p`.  A thread that has taken no turn yet
will load the text of its lane. -/
structure Grid1State.Carries (t partidx start : ℕ) (ctxState : ℕ → BitVec 32) (s : Grid1State)
    (p : Phase1State) : Prop where
  /-- The scratchpad. -/
  longState : p.longState = slice (2 ^ 19) (t * 2 ^ 19) s.longState
  /-- The registers. -/
  regs : ∀ lane : Fin 8, s.regs (8 * t + lane) = some (p.text lane, p.i lane) ∨
    s.regs (8 * t + lane) = none ∧ p.i lane = start ∧ p.text lane =
      if partidx = 0 then loadWords (slice 50 (t * 50) ctxState) (subOf lane + 16)
      else loadWords p.longState (subOf lane + start - 32)
  /-- The loop variables. -/
  i : ∀ lane, start ≤ p.i lane ∧ 32 ∣ p.i lane

section Phase1

variable {dev : Device} {sharedMemory : ℕ → ℕ → BitVec 32} {ctxState ctxKey1 : ℕ → BitVec 32}
  {partidx start stop t : ℕ} {s : Grid1State} {p : Phase1State}

/-- What a thread has or loads is what its lane has. -/
theorem Grid1State.Carries.load (h : s.Carries t partidx start ctxState p) (hfits : dev.Fits)
    (ht : t < dev.throughput) (hstart : partidx ≠ 0 → 32 ≤ start) (hle : start ≤ 2 ^ 19)
    (lane : Fin 8) :
    (s.regs (8 * t + lane) <|> grid1Load ctxState s.longState partidx start t (subOf lane))
      = some (p.text lane, p.i lane) := by
  have hsub := subOf_le lane
  rcases h.regs lane with hregs | ⟨hregs, hi, htext⟩
  · rw [hregs]
    rfl
  · rw [hregs, hi, htext, grid1Load]
    by_cases h0 : partidx = 0
    · rw [if_pos h0, if_pos h0, hfits.intIndex ht (by decide), loadWords_slice _ (by omega),
        ← Nat.add_assoc]
      rfl
    · have h32 := hstart h0
      rw [if_neg h0, if_neg h0, h.longState, loadWords_slice _ (by omega), Nat.shiftLeft_eq,
        Nat.add_sub_assoc (by omega), Nat.add_assoc, ← Nat.add_sub_assoc (by omega)]
      rfl

/-- An iteration of a lane. -/
theorem Grid1State.Carries.iterate (h : s.Carries t partidx start ctxState p)
    (hstart : partidx ≠ 0 → 32 ≤ start) (h32 : 32 ∣ stop) (hstop : stop ≤ 2 ^ 19)
    (sm key : ℕ → BitVec 32) (lane : Fin 8) (hi : p.i lane < stop) :
    Grid1State.Carries t partidx start ctxState
      ⟨storeWords s.longState ((t <<< 19) + subOf lane + p.i lane)
        (cnAesPseudoRoundMut sm (p.text lane) key),
        Function.update s.regs (8 * t + lane)
          (some (cnAesPseudoRoundMut sm (p.text lane) key, p.i lane + 32))⟩
      (phase1Step sm key stop p lane) := by
  have hsub := subOf_le lane
  have hpos := h.i lane
  rw [phase1Step, if_pos hi]
  refine ⟨?_, fun l => ?_, (Function.forall_update_iff p.i fun _ i => start ≤ i ∧ 32 ∣ i).mpr
    ⟨by omega, fun l _ => h.i l⟩⟩
  · rw [Nat.shiftLeft_eq, Nat.add_assoc, slice_storeWords _ _ (by omega), h.longState]
  · rcases eq_or_ne l lane with rfl | hl
    · left
      simp only [Function.update_self]
    · have hval : (l : ℕ) ≠ lane := fun e => hl (Fin.ext e)
      simp only [Function.update_of_ne hl, Function.update_of_ne (lane_ne t hl)]
      refine (h.regs l).imp_right ?_
      rintro ⟨hregs, hfirst, htext⟩
      refine ⟨hregs, hfirst, ?_⟩
      -- what another lane has still to load is behind the part or at other words
      rw [htext]
      split
      · rfl
      · next h0 =>
        have hge := hstart h0
        have hsub' := subOf_le l
        rw [loadWords_storeWords_of_disjoint _ _ (by omega)]

/-- An iteration for another hash. -/
theorem Grid1State.Carries.elsewhere (h : s.Carries t partidx start ctxState p) {t' : ℕ}
    (ht : t' ≠ t) (lane : Fin 8) {i : ℕ} (hi : i + 32 ≤ 2 ^ 19) (x : Block) (regs : Block × ℕ) :
    Grid1State.Carries t partidx start ctxState
      ⟨storeWords s.longState ((t' <<< 19) + subOf lane + i) x,
        Function.update s.regs (8 * t' + lane) (some regs)⟩ p := by
  have hsub := subOf_le lane
  refine ⟨?_, fun l => ?_, h.i⟩
  · have hout : t' * 2 ^ 19 + subOf lane + i + 4 ≤ t * 2 ^ 19 ∨
        t * 2 ^ 19 + 2 ^ 19 ≤ t' * 2 ^ 19 + subOf lane + i := by
      have hparts := parts_disjoint (2 ^ 19) ht
      omega
    rw [Nat.shiftLeft_eq, slice_storeWords_of_outside _ _ hout]
    exact h.longState
  · have hne : 8 * t + (l : ℕ) ≠ 8 * t' + lane := by omega
    simp only [Function.update_of_ne hne]
    exact h.regs l

/-- **The grid carries all hashes along** in phase 1. -/
theorem follows_grid1Turn (sharedMemory : ℕ → ℕ → BitVec 32) (ctxState ctxKey1 : ℕ → BitVec 32)
    (hfits : dev.Fits) (hstart : partidx ≠ 0 → 32 ≤ start)
    (hlt : start < stop) (h32 : 32 ∣ stop) (hstop : stop ≤ 2 ^ 19) :
    Follows (fun s e => if e.1 < dev.blocks ∧ e.2 < dev.block8 then
        grid1Turn dev sharedMemory ctxState ctxKey1 partidx start stop s e.1 e.2 else some s)
      dev.turn8
      (fun t p lane => some (phase1Step (sharedMemory (t / dev.threads))
        (slice 40 (t * 40) ctxKey1) stop p lane))
      fun s p => ∀ t < dev.throughput, s.Carries t partidx start ctxState (p t) := by
  refine Follows.of_forall ?_ fun s e hturn => if_neg (Device.turn8_eq_none hturn)
  rintro s p ⟨b, x⟩ t lane p' hturn hR hp'
  obtain ⟨hin, ht, hb, hr, hthread, hsub⟩ := Device.turn8_eq_some hfits hturn
  obtain rfl := Option.some.inj hp'
  have hload := (hR t ht).load hfits ht hstart (by omega) lane
  have hdvd := ((hR t ht).i lane).2
  rw [hr] at hthread
  rw [if_pos hin]
  simp only [grid1Turn, hthread, if_pos ht, hfits.intIndex ht (by decide : 40 ≤ 50), hsub, hr,
    hload, Option.bind_eq_bind, Option.bind_some]
  by_cases hi : (p t).i lane < stop
  · rw [if_pos hi, hb]
    exact ⟨_, rfl, (hR t ht).iterate hstart h32 hstop _ _ lane hi,
      fun t' hne ht' => (hR t' ht').elsewhere hne.symm lane (by omega) _ _⟩
  · rw [if_neg hi, phase1Step, if_neg hi]
    exact ⟨_, rfl, hR t ht, fun t' _ => hR t'⟩

/-- No thread has taken a turn. -/
theorem Grid1State.carries_start (h32 : 32 ∣ start) {longState : ℕ → BitVec 32} {ctx : Phase1Ctx}
    (hlong : ctx.longState = slice (2 ^ 19) (t * 2 ^ 19) longState)
    (hstate : ctx.ctxState = slice 50 (t * 50) ctxState) :
    Grid1State.Carries t partidx start ctxState ⟨longState, fun _ => none⟩
      (phase1Start partidx start ctx) := by
  refine ⟨hlong, fun lane => Or.inr ⟨rfl, rfl, ?_⟩, fun _ => ⟨le_rfl, h32⟩⟩
  rw [← hstate]
  rfl

/-- A launch of phase 1. -/
theorem gridPhase1_core (hfits : dev.Fits) {bfactor n : ℕ} (hn : 0 < n)
    (hbatch : 0x80000 >>> bfactor = 32 * n) (hpart : (partidx + 1) * n ≤ 16384)
    (u : ℕ → ℕ → BitVec 32) (es : List (ℕ × ℕ)) (m : GridMem) (ctx : ℕ → Phase1Ctx)
    (hctx : ∀ t < dev.throughput, (ctx t).longState = (m.core t).longState ∧
      (ctx t).ctxState = (m.core t).ctxState ∧ (ctx t).ctxKey1 = (m.core t).ctxKey1) :
    ∃ m', gridPhase1 dev bfactor u es partidx m = some m' ∧
      ∀ t < dev.throughput, m'.core t = { m.core t with
        longState := (cryptonightCoreGpuPhase1 dev.block8 bfactor (u (t / dev.threads))
          (turnsOf dev.turn8 t es) partidx (ctx t)).longState } := by
  rw [Nat.succ_mul] at hpart
  have hstart : partidx * (32 * n) = 32 * (partidx * n) := Nat.mul_left_comm _ _ _
  have hpos : partidx ≠ 0 → 32 ≤ partidx * (32 * n) := by
    intro h0
    have := Nat.mul_pos (Nat.pos_of_ne_zero h0) hn
    omega
  have hfollows := follows_grid1Turn (fun b => cnAesGpuInit dev.block8 (u b)) m.ctxState m.ctxKey1
    hfits hpos (by omega : partidx * (32 * n) < partidx * (32 * n) + 32 * n) (by omega) (by omega)
  obtain ⟨s, hrun, hcarries⟩ := hfollows.run es (fun t ht =>
    Grid1State.carries_start (by omega) (hctx t ht).1 (hctx t ht).2.1) fun t => List.foldlM_pure
  refine ⟨{ m with longState := s.longState }, ?_, fun t ht => ?_⟩
  · rw [gridPhase1, hbatch, launch, hrun]
    rfl
  · obtain ⟨-, -, hkey⟩ := hctx t ht
    have hlong := (hcarries t ht).longState
    rw [cryptonightCoreGpuPhase1, hbatch, hkey]
    exact congrArg (fun L => { m.core t with longState := L }) hlong.symm

/-- The launches of phase 1. -/
theorem gridPhase1_parts (hfits : dev.Fits) (hf : dev.bfactor ≤ 10) (r : GridRun) (m : GridMem) :
    ∃ m', (List.range (1 <<< (dev.bfactor - 4))).foldlM (fun m i =>
        gridPhase1 dev (dev.bfactor - 4) (r.sharedMemory1 i) (r.turns1 i) i m) m = some m' ∧
      ∀ t < dev.throughput, m'.core t = { m.core t with
        longState := (cryptonightCoreCpuHashPhase1 dev.block8 dev.bfactor
          (r.core dev t).sharedMemory1 (r.core dev t).sched1
          ⟨(m.core t).longState, (m.core t).ctxState, (m.core t).ctxKey1, []⟩).longState } := by
  obtain ⟨n, hn, hbatch, hparts⟩ := batchsize_eq hf
  obtain ⟨m', hrun, hm'⟩ := foldlM_range_family (s := m)
    (g := fun t ctx i => cryptonightCoreGpuPhase1 dev.block8 (dev.bfactor - 4)
      ((r.core dev t).sharedMemory1 i) ((r.core dev t).sched1 i) i ctx)
    (R := fun m' ctx => ∀ t < dev.throughput,
      m'.core t = { m.core t with longState := (ctx t).longState } ∧
        (ctx t).ctxState = (m.core t).ctxState ∧ (ctx t).ctxKey1 = (m.core t).ctxKey1)
    (x := fun t => ⟨(m.core t).longState, (m.core t).ctxState, (m.core t).ctxKey1, []⟩)
    (fun t _ => ⟨rfl, rfl, rfl⟩) (1 <<< (dev.bfactor - 4)) fun i hi m' ctx hm' => by
      have hpart : (i + 1) * n ≤ 16384 := hparts ▸ Nat.mul_le_mul_right n hi
      obtain ⟨m'', hlaunch, hm''⟩ := gridPhase1_core hfits hn hbatch hpart (r.sharedMemory1 i)
        (r.turns1 i) m' ctx fun t ht => by
          obtain ⟨hcore, hstate, hkey⟩ := hm' t ht
          rw [hcore]
          exact ⟨rfl, hstate, hkey⟩
      refine ⟨m'', hlaunch, fun t ht => ?_⟩
      obtain ⟨hcore, hstate, hkey⟩ := hm' t ht
      rw [hm'' t ht, hcore]
      exact ⟨rfl, hstate, hkey⟩
  exact ⟨m', hrun, fun t ht => (hm' t ht).1⟩

end Phase1

/-! ### Phase 2 -/

/-- The program leaves alone what is behind the scratchpad. -/
def KeepsRest {α : Type} (p : Kernel α) : Prop :=
  ∀ w v w', p.run w = some (v, w') → ∀ k, 2 ^ 19 ≤ k → w'.longState k = w.longState k

section KeepsRest

variable {α β : Type}

theorem KeepsRest.pure (v : α) : KeepsRest (Pure.pure v) := by
  intro w v' w' h k _
  obtain ⟨-, rfl⟩ := Prod.mk.inj (Option.some.inj h)
  rfl

theorem KeepsRest.bind {p : Kernel α} {f : α → Kernel β} (hp : KeepsRest p)
    (hf : ∀ v, KeepsRest (f v)) : KeepsRest (p >>= f) := by
  intro w v' w'' h k hk
  rw [StateT.run_bind] at h
  obtain ⟨⟨v, w'⟩, hfirst, hrest⟩ := Option.bind_eq_some_iff.mp h
  exact (hf v w' v' w'' hrest k hk).trans (hp w v w' hfirst k hk)

theorem keepsRest_shuffle (impl : ShuffleImpl) (val src : Lanes (BitVec 32)) :
    KeepsRest (shuffle impl val src) := by
  intro w v w' h k _
  cases impl <;>
  · obtain ⟨-, rfl⟩ := Prod.mk.inj (Option.some.inj h)
    rfl

/-- A program that reads only. -/
theorem keepsRest_read (bound : Prop) [Decidable bound] (f : Warp → α) :
    KeepsRest (get >>= fun w => if bound then (Pure.pure (f w) : Kernel α) else failure) := by
  intro w v w' h k _
  simp only [StateT.run_bind, StateT.run_get, Option.pure_def, Option.bind_eq_bind,
    Option.bind_some] at h
  split at h
  · obtain ⟨-, rfl⟩ := Prod.mk.inj (Option.some.inj h)
    rfl
  · cases h

theorem keepsRest_loadGlobal32 (j : Lanes (BitVec 32)) : KeepsRest (loadGlobal32 j) :=
  keepsRest_read _ fun w sub => w.longState (j sub).toNat

theorem keepsRest_loadGlobal64 (j : Lanes (BitVec 32)) : KeepsRest (loadGlobal64 j) :=
  keepsRest_read _ fun w => (fun sub => w.longState (2 * (j sub).toNat),
    fun sub => w.longState (2 * (j sub).toNat + 1))

theorem keepsRest_storeGlobal32 (j val : Lanes (BitVec 32)) : KeepsRest (storeGlobal32 j val) := by
  intro w v w' h k hk
  simp only [storeGlobal32, StateT.run_bind, StateT.run_get, Option.pure_def, Option.bind_eq_bind,
    Option.bind_some] at h
  split at h
  · next hbound =>
    obtain ⟨-, rfl⟩ := Prod.mk.inj (Option.some.inj h)
    have hne : ∀ sub, k ≠ (j sub).toNat := fun sub => by
      have := hbound sub
      omega
    have hlanes : List.finRange 4 = [0, 1, 2, 3] := rfl
    simp only [hlanes, List.foldl_cons, List.foldl_nil, Function.update_of_ne (hne _)]
  · cases h

theorem keepsRest_phase2Half (impl : ShuffleImpl) (sharedMemory : ℕ → BitVec 32) (variant : ℕ)
    (tweak1_2 : Fin 2 → BitVec 32) (x : Fin 2) (a : Lanes (BitVec 32))
    (d : Fin 2 → Lanes (BitVec 32)) :
    KeepsRest (phase2Half impl sharedMemory variant tweak1_2 x a d) :=
  (keepsRest_shuffle impl _ _).bind fun _ => (keepsRest_loadGlobal32 _).bind fun _ =>
    (keepsRest_shuffle impl _ _).bind fun _ => (keepsRest_shuffle impl _ _).bind fun _ =>
    (keepsRest_shuffle impl _ _).bind fun _ => (keepsRest_shuffle impl _ _).bind fun _ =>
    (keepsRest_storeGlobal32 _ _).bind fun _ => (keepsRest_loadGlobal64 _).bind fun _ =>
    (keepsRest_shuffle impl _ _).bind fun _ => (keepsRest_shuffle impl _ _).bind fun _ =>
    (keepsRest_shuffle impl _ _).bind fun _ => (keepsRest_shuffle impl _ _).bind fun _ =>
    (keepsRest_shuffle impl _ _).bind fun _ => (keepsRest_storeGlobal32 _ _).bind fun _ =>
    KeepsRest.pure _

theorem keepsRest_phase2Loop (impl : ShuffleImpl) (sharedMemory : ℕ → BitVec 32) (variant : ℕ)
    (tweak1_2 : Fin 2 → BitVec 32) : ∀ (n : ℕ) (a : Lanes (BitVec 32))
      (d : Fin 2 → Lanes (BitVec 32)),
      KeepsRest (phase2Loop impl sharedMemory variant tweak1_2 n a d)
  | 0, _, _ => KeepsRest.pure _
  | n + 1, _, _ => (keepsRest_phase2Half _ _ _ _ _ _ _).bind fun _ =>
      (keepsRest_phase2Half _ _ _ _ _ _ _).bind fun _ => keepsRest_phase2Loop _ _ _ _ n _ _

end KeepsRest

/-- What a turn leaves alone. -/
theorem phase2Turn_keeps {l : Launch} {sharedMemory : ℕ → BitVec 32} {d_0 : Lanes (BitVec 32)}
    {start stop : ℕ} {p p' : Phase2State}
    (h : phase2Turn l sharedMemory d_0 start stop p = some p') :
    p'.ctx.tweak1_2 = p.ctx.tweak1_2 ∧
      ∀ k, 2 ^ 19 ≤ k → p'.ctx.longState k = p.ctx.longState k := by
  unfold phase2Turn at h
  dsimp only at h
  split at h
  · obtain ⟨⟨⟨a, d⟩, w⟩, hrun, hp'⟩ := Option.bind_eq_some_iff.mp h
    obtain rfl := Option.some.inj hp'
    exact ⟨rfl, keepsRest_phase2Loop _ _ _ _ _ _ _ _ _ _ hrun⟩
  · split at h
    · obtain rfl := Option.some.inj h
      exact ⟨rfl, fun _ _ => rfl⟩
    · split at h <;>
      · obtain rfl := Option.some.inj h
        exact ⟨rfl, fun _ _ => rfl⟩

/-- What the grid carries for hash `t`. -/
def Grid2State.hash (dev : Device) (tweak1_2 : ℕ → BitVec 32) (s : Grid2State) (t : ℕ) :
    Phase2State where
  ctx :=
    { longState := slice (2 ^ 19) (t * 2 ^ 19) s.longState
      ctxA := loadWords s.ctxA (t * 4)
      ctxB := loadWords s.ctxB (t * 4)
      tweak1_2 := fun i => tweak1_2 (t * 2 + i) }
  sPtr := loadWords (s.shuffleMem (t / dev.threads)) (4 * (t % dev.threads))
  regs := s.regs t
  saved := s.saved t

/-- The grid after a turn of hash `t` that ends with `h`. -/
def Grid2State.put (dev : Device) (s : Grid2State) (t : ℕ) (h : Phase2State) : Grid2State where
  longState := setSlice (2 ^ 19) (t * 2 ^ 19) h.ctx.longState s.longState
  ctxA := storeWords s.ctxA (t * 4) h.ctx.ctxA
  ctxB := storeWords s.ctxB (t * 4) h.ctx.ctxB
  shuffleMem := Function.update s.shuffleMem (t / dev.threads)
    (storeWords (s.shuffleMem (t / dev.threads)) (4 * (t % dev.threads)) h.sPtr)
  regs := Function.update s.regs t h.regs
  saved := Function.update s.saved t h.saved

section Phase2

variable {dev : Device} {tweak1_2 : ℕ → BitVec 32} {start stop t : ℕ} {s : Grid2State}

/-- What was put there, -/
theorem Grid2State.hash_put {h : Phase2State} (hends : Ends (2 ^ 19) h.ctx.longState)
    (htweak : h.ctx.tweak1_2 = fun i : Fin 2 => tweak1_2 (t * 2 + i)) :
    (s.put dev t h).hash dev tweak1_2 t = h := by
  obtain ⟨⟨longState, ctxA, ctxB, tw⟩, sPtr, regs, saved⟩ := h
  obtain rfl : tw = fun i : Fin 2 => tweak1_2 (t * 2 + i) := htweak
  simp only [Grid2State.hash, Grid2State.put, slice_setSlice hends, loadWords_storeWords_self,
    Function.update_self]

/-- and for the other hashes. -/
theorem Grid2State.hash_put_of_ne {t' : ℕ} (ht : t ≠ t') (h : Phase2State) :
    (s.put dev t h).hash dev tweak1_2 t' = s.hash dev tweak1_2 t' := by
  have hlong := parts_disjoint (2 ^ 19) ht
  have hctx := parts_disjoint 4 ht
  have hshuffle : loadWords (Function.update s.shuffleMem (t / dev.threads)
      (storeWords (s.shuffleMem (t / dev.threads)) (4 * (t % dev.threads)) h.sPtr)
        (t' / dev.threads)) (4 * (t' % dev.threads))
      = loadWords (s.shuffleMem (t' / dev.threads)) (4 * (t' % dev.threads)) := by
    by_cases hb : t' / dev.threads = t / dev.threads
    · -- two hashes of one block
      have hne : t' % dev.threads ≠ t % dev.threads := fun hmod =>
        ht (by rw [← Nat.div_add_mod t dev.threads, ← Nat.div_add_mod t' dev.threads, hb, hmod])
      rw [hb, Function.update_self, loadWords_storeWords_of_disjoint _ _ (by omega)]
    · rw [Function.update_of_ne hb]
  simp only [Grid2State.hash, Grid2State.put, hshuffle, Function.update_of_ne ht.symm]
  rw [slice_setSlice_of_disjoint (by omega), loadWords_storeWords_of_disjoint _ _ (by omega),
    loadWords_storeWords_of_disjoint _ _ (by omega)]

/-- **The grid carries all hashes along** in phase 2. -/
theorem follows_grid2Turn (l : Launch) (sharedMemory : ℕ → ℕ → BitVec 32)
    (d_0 : ℕ → Lanes (BitVec 32)) (tweak1_2 : ℕ → BitVec 32) (hfits : dev.Fits) :
    Follows (fun s e => if e.1 < dev.blocks ∧ e.2 < dev.threads then
        grid2Turn dev l sharedMemory d_0 tweak1_2 start stop s e.1 e.2 else some s)
      dev.turn4
      (fun t p _ => phase2Turn l (sharedMemory (t / dev.threads)) (d_0 t) start stop p)
      fun s p => ∀ t < dev.throughput, s.hash dev tweak1_2 t = p t := by
  refine Follows.of_forall ?_ fun s e hturn => if_neg (Device.turn4_eq_none hturn)
  rintro s p ⟨b, x⟩ t _ p' hturn hR hp'
  obtain ⟨hin, ht, rfl, hthread⟩ := Device.turn4_eq_some hfits hturn
  have hb : (dev.threads * b + x) / dev.threads = b := Device.block_of_hash b hin.2
  have hx : (dev.threads * b + x) % dev.threads = x := by
    rw [Nat.mul_add_mod, Nat.mod_eq_of_lt hin.2]
  set t := dev.threads * b + x
  have hhash := hR t ht
  obtain ⟨htweak, hkeeps⟩ := phase2Turn_keeps hp'
  rw [← hhash] at hp' htweak hkeeps
  refine ⟨s.put dev t p', ?_, ?_, fun t' hne ht' => ?_⟩
  · rw [Grid2State.hash, hb, hx] at hp'
    rw [if_pos hin]
    simp only [grid2Turn, hthread, if_pos ht, hfits.intIndex ht (by decide : 2 ≤ 50),
      hfits.intIndex ht (by decide : 4 ≤ 50), hfits.scratchpad ht, Option.bind_eq_bind,
      Option.bind_some, hp']
    rw [Grid2State.put, hb, hx]
    rfl
  · refine Grid2State.hash_put (fun k hk => ?_) htweak
    rw [hkeeps k hk]
    exact ends_slice _ _ _ k hk
  · rw [Grid2State.hash_put_of_ne hne.symm]
    exact hR t' ht'

/-! ### The turns of one hash in phase 2 -/

section Turns

variable {l : Launch} {sharedMemory : ℕ → BitVec 32} {d_0 : Lanes (BitVec 32)} {p : Phase2State}

theorem phase2Loop_succ (impl : ShuffleImpl) (sharedMemory : ℕ → BitVec 32) (variant : ℕ)
    (tweak1_2 : Fin 2 → BitVec 32) (n : ℕ) (a : Lanes (BitVec 32)) (d : Fin 2 → Lanes (BitVec 32)) :
    phase2Loop impl sharedMemory variant tweak1_2 (n + 1) a d
      = phase2Loop impl sharedMemory variant tweak1_2 1 a d >>= fun r =>
          phase2Loop impl sharedMemory variant tweak1_2 n r.1 r.2 := by
  simp only [phase2Loop, bind_assoc, pure_bind]

/-- The registers, which are loaded in the first turn. -/
def Phase2State.current (d_0 : Lanes (BitVec 32)) (start : ℕ) (p : Phase2State) : Phase2Regs :=
  p.regs.getD ⟨p.ctx.ctxA, ![d_0, p.ctx.ctxB], start⟩

/-- The slices when the registers are saved. -/
def Phase2Ctx.save (l : Launch) (ctx : Phase2Ctx) (a : Lanes (BitVec 32))
    (d : Fin 2 → Lanes (BitVec 32)) : Phase2Ctx :=
  if l.bfactor > 0 then { ctx with ctxA := a, ctxB := d 1 } else ctx

theorem phase2Turn_of_lt {a : Lanes (BitVec 32)} {d : Fin 2 → Lanes (BitVec 32)} {w : Warp}
    (hi : (p.current d_0 start).i < stop)
    (hrun : (phase2Loop l.impl sharedMemory l.variant p.ctx.tweak1_2 1 (p.current d_0 start).a
      (p.current d_0 start).d).run ⟨p.ctx.longState, p.sPtr⟩ = some ((a, d), w)) :
    phase2Turn l sharedMemory d_0 start stop p = some
      { p with
        ctx := { p.ctx with longState := w.longState }
        sPtr := w.sPtr
        regs := some ⟨a, d, (p.current d_0 start).i + 1⟩ } := by
  unfold phase2Turn
  unfold Phase2State.current at hi hrun ⊢
  simp only [if_pos hi, hrun, Option.bind_eq_bind, Option.bind_some]
  rfl

theorem phase2Turn_of_ge (hi : ¬(p.current d_0 start).i < stop) :
    phase2Turn l sharedMemory d_0 start stop p = some (if p.saved then p else
      { p with
        ctx := p.ctx.save l (p.current d_0 start).a (p.current d_0 start).d
        saved := true }) := by
  unfold phase2Turn Phase2Ctx.save
  unfold Phase2State.current at hi ⊢
  simp only [if_neg hi]
  split
  · rfl
  · split <;> rfl

/-- When the registers are saved, nothing is left to do. -/
theorem phase2Turns_of_saved (hi : ¬(p.current d_0 start).i < stop) (hsaved : p.saved = true)
    (us : List Unit) :
    us.foldlM (fun p _ => phase2Turn l sharedMemory d_0 start stop p) p = some p := by
  induction us with
  | nil => rfl
  | cons _ us ih =>
    rw [List.foldlM_cons, phase2Turn_of_ge hi, if_pos hsaved]
    exact ih

/-- **The turns of a hash** run the rest of its loop and save its registers. -/
theorem phase2Turns {a' : Lanes (BitVec 32)} {d' : Fin 2 → Lanes (BitVec 32)} {w : Warp} :
    ∀ (n : ℕ) (p : Phase2State), p.saved = false → (p.current d_0 start).i + n = stop →
      (phase2Loop l.impl sharedMemory l.variant p.ctx.tweak1_2 n (p.current d_0 start).a
        (p.current d_0 start).d).run ⟨p.ctx.longState, p.sPtr⟩ = some ((a', d'), w) →
      ∀ us : List Unit, n + 1 ≤ us.length →
        ∃ p', us.foldlM (fun p _ => phase2Turn l sharedMemory d_0 start stop p) p = some p' ∧
          p'.ctx = Phase2Ctx.save l { p.ctx with longState := w.longState } a' d' := by
  intro n
  induction n with
  | zero =>
    intro p hsaved hi hrun us hus
    obtain ⟨⟨rfl, rfl⟩, rfl⟩ : ((p.current d_0 start).a = a' ∧ (p.current d_0 start).d = d') ∧
        (⟨p.ctx.longState, p.sPtr⟩ : Warp) = w := by
      simpa [phase2Loop] using hrun
    obtain ⟨_, us, rfl⟩ := List.exists_cons_of_length_pos (Nat.lt_of_lt_of_le Nat.one_pos hus)
    have hnot : ¬(p.current d_0 start).i < stop := by omega
    rw [List.foldlM_cons, phase2Turn_of_ge hnot, hsaved]
    refine ⟨_, phase2Turns_of_saved (fun hlt => hnot ?_) rfl us, rfl⟩
    -- the loop variable is not saved
    unfold Phase2State.current at hlt ⊢
    cases hregs : p.regs with
    | none => simpa [hregs] using hlt
    | some r => simpa [hregs] using hlt
  | succ n ih =>
    intro p hsaved hi hrun us hus
    rw [phase2Loop_succ, StateT.run_bind] at hrun
    obtain ⟨⟨⟨a, d⟩, w₁⟩, hone, hrest⟩ := Option.bind_eq_some_iff.mp hrun
    obtain ⟨_, us, rfl⟩ := List.exists_cons_of_length_pos (by omega : 0 < us.length)
    rw [List.foldlM_cons, phase2Turn_of_lt (by omega) hone]
    have hnext : (p.current d_0 start).i + 1 + n = stop := by omega
    exact ih ⟨{ p.ctx with longState := w₁.longState }, w₁.sPtr,
      some ⟨a, d, (p.current d_0 start).i + 1⟩, p.saved⟩ hsaved hnext hrest us
      (Nat.le_of_succ_le_succ hus)

end Turns

/-- The tweak is read only. -/
theorem cryptonightCoreGpuPhase2_tweak1_2 {l : Launch} {u : Uninit} {partidx : ℕ}
    {ctx ctx' : Phase2Ctx} (h : cryptonightCoreGpuPhase2 l u partidx ctx = some ctx') :
    ctx'.tweak1_2 = ctx.tweak1_2 := by
  rw [cryptonightCoreGpuPhase2, phase2Part] at h
  obtain ⟨⟨⟨a, d⟩, w⟩, -, hsave⟩ := Option.bind_eq_some_iff.mp h
  dsimp only at hsave
  split at hsave <;>
  · obtain rfl := Option.some.inj hsave
    rfl

/-- A launch of phase 2. -/
theorem gridPhase2_core (hfits : dev.Fits) (variant : ℕ) (u : Grid2Uninit) (es : List (ℕ × ℕ))
    (hturns : ∀ blockIdx < dev.blocks, ∀ quad < dev.threads,
      1048576 >>> (2 + dev.bfactor) + 1 ≤ es.count (blockIdx, quad))
    (partidx : ℕ) (m : GridMem) {ctx' : ℕ → Phase2Ctx}
    (hctx : ∀ t < dev.throughput, cryptonightCoreGpuPhase2
      (Launch.ofHost dev.shuffle variant dev.block4 dev.bfactor)
      ⟨u.sharedMemory (t / dev.threads),
        loadWords (u.shuffleMem (t / dev.threads)) (4 * (t % dev.threads)), u.d_0 t⟩ partidx
      ⟨(m.core t).longState, (m.core t).ctxA, (m.core t).ctxB, (m.core t).tweak1_2⟩
        = some (ctx' t)) :
    ∃ m', gridPhase2 dev variant u es partidx m = some m' ∧
      ∀ t < dev.throughput, m'.core t = { m.core t with
        longState := (ctx' t).longState
        ctxA := (ctx' t).ctxA
        ctxB := (ctx' t).ctxB } := by
  set l := Launch.ofHost dev.shuffle variant dev.block4 dev.bfactor
  set n := 1048576 >>> (2 + dev.bfactor)
  set s₀ : Grid2State :=
    ⟨m.longState, m.ctxA, m.ctxB, u.shuffleMem, fun _ => none, fun _ => false⟩ with hs₀
  -- where each hash ends
  have hends : ∀ t, ∃ h, (turnsOf dev.turn4 t es).foldlM (fun p _ => phase2Turn l
      (cnAesGpuInit dev.block4 (u.sharedMemory (t / dev.threads))) (u.d_0 t) (partidx * n)
        (partidx * n + n) p) (s₀.hash dev m.tweak1_2 t) = some h ∧
          (t < dev.throughput → h.ctx = ctx' t) := by
    intro t
    by_cases ht : t < dev.throughput
    · have hpart := hctx t ht
      rw [cryptonightCoreGpuPhase2, phase2Part, Nat.add_sub_cancel_left] at hpart
      obtain ⟨⟨⟨a, d⟩, w⟩, hrun, hsave⟩ := Option.bind_eq_some_iff.mp hpart
      obtain ⟨hin, hturn⟩ := Device.turn4_hash ht
      have hcount : n + 1 ≤ (turnsOf dev.turn4 t es).length := by
        have hunit := List.count_eq_length.mpr fun (u : Unit) (_ : u ∈ turnsOf dev.turn4 t es) =>
          (rfl : () = u)
        rw [← hunit]
        exact (hturns _ hin.1 _ hin.2).trans (count_le_count_turnsOf hturn)
      obtain ⟨h, hfold, hh⟩ := phase2Turns n (s₀.hash dev m.tweak1_2 t) rfl rfl hrun _ hcount
      refine ⟨h, hfold, fun _ => hh.trans ?_⟩
      rw [Phase2Ctx.save]
      split
      · next hpos =>
        dsimp only at hsave
        rw [if_pos hpos] at hsave
        exact Option.some.inj hsave
      · next hzero =>
        dsimp only at hsave
        rw [if_neg hzero] at hsave
        exact Option.some.inj hsave
    · have hnil : turnsOf dev.turn4 t es = [] := turnsOf_eq_nil fun e _ hturn =>
        ht (Device.turn4_eq_some hfits hturn).2.1
      rw [hnil]
      exact ⟨_, rfl, fun h => absurd h ht⟩
  choose h hfold hh using hends
  obtain ⟨s, hrun, hs⟩ := (follows_grid2Turn l (fun b => cnAesGpuInit dev.block4 (u.sharedMemory b))
    u.d_0 m.tweak1_2 hfits).run es (fun _ _ => rfl) hfold
  refine ⟨{ m with longState := s.longState, ctxA := s.ctxA, ctxB := s.ctxB }, ?_, fun t ht => ?_⟩
  · rw [gridPhase2, launch, hrun]
    rfl
  · have hctx' := (congrArg Phase2State.ctx (hs t ht)).trans (hh t ht)
    rw [← hctx']
    rfl

/-- The launches of phase 2. -/
theorem gridPhase2_parts (hfits : dev.Fits) (variant : ℕ) {r : GridRun}
    (hturns : ∀ i < 1 <<< dev.bfactor, ∀ blockIdx < dev.blocks, ∀ quad < dev.threads,
      1048576 >>> (2 + dev.bfactor) + 1 ≤ (r.turns2 i).count (blockIdx, quad))
    {ctx' : ℕ → Phase2Ctx} :
    ∀ (n i : ℕ) (m : GridMem), i + n ≤ 1 <<< dev.bfactor →
      (∀ t < dev.throughput, cryptonightCoreCpuHashPhase2
        (Launch.ofHost dev.shuffle variant dev.block4 dev.bfactor) (r.core dev t).uninit2 i n
        ⟨(m.core t).longState, (m.core t).ctxA, (m.core t).ctxB, (m.core t).tweak1_2⟩
          = some (ctx' t)) →
      ∃ m', (List.range' i n).foldlM
          (fun m i => gridPhase2 dev variant (r.uninit2 i) (r.turns2 i) i m) m = some m' ∧
        ∀ t < dev.throughput, m'.core t = { m.core t with
          longState := (ctx' t).longState
          ctxA := (ctx' t).ctxA
          ctxB := (ctx' t).ctxB } := by
  intro n
  induction n with
  | zero =>
    intro i m _ hctx
    refine ⟨m, rfl, fun t ht => ?_⟩
    rw [← Option.some.inj (hctx t ht)]
  | succ n ih =>
    intro i m hi hctx
    have hfirst : ∀ t < dev.throughput, ∃ c, cryptonightCoreGpuPhase2
        (Launch.ofHost dev.shuffle variant dev.block4 dev.bfactor) ((r.core dev t).uninit2 i) i
        ⟨(m.core t).longState, (m.core t).ctxA, (m.core t).ctxB, (m.core t).tweak1_2⟩ = some c ∧
          cryptonightCoreCpuHashPhase2 (Launch.ofHost dev.shuffle variant dev.block4 dev.bfactor)
            (r.core dev t).uninit2 (i + 1) n c = some (ctx' t) :=
      fun t ht => Option.bind_eq_some_iff.mp (hctx t ht)
    have : Nonempty Phase2Ctx := ⟨ctx' 0⟩
    choose! c hc using hfirst
    obtain ⟨m₁, hlaunch, hm₁⟩ := gridPhase2_core hfits variant (r.uninit2 i) (r.turns2 i)
      (hturns i (by omega)) i m fun t ht => (hc t ht).1
    obtain ⟨m', hrun, hm'⟩ := ih (i + 1) m₁ (by omega) fun t ht => by
      have htweak : (c t).tweak1_2 = (m.core t).tweak1_2 :=
        cryptonightCoreGpuPhase2_tweak1_2 (hc t ht).1
      rw [hm₁ t ht, ← (hc t ht).2]
      exact congrArg (fun tw => cryptonightCoreCpuHashPhase2 _ _ (i + 1) n
        ⟨(c t).longState, (c t).ctxA, (c t).ctxB, tw⟩) htweak.symm
    refine ⟨m', ?_, fun t ht => ?_⟩
    · rw [List.range'_succ, List.foldlM_cons, hlaunch]
      exact hrun
    · rw [hm' t ht, hm₁ t ht]

end Phase2

/-! ### Phase 3 -/

/-- The grid carries the lanes of hash `t` in the state `p`.  A thread that has taken no turn yet
will load the text of its lane. -/
structure Grid3State.Carries (t start : ℕ) (s : Grid3State) (p : Phase3State) : Prop where
  /-- The state. -/
  ctxState : p.ctxState = slice 50 (t * 50) s.ctxState
  /-- The registers. -/
  regs : ∀ lane : Fin 8, s.regs (8 * t + lane) = some (p.text lane, p.i lane) ∨
    s.regs (8 * t + lane) = none ∧ p.i lane = start ∧
      p.text lane = loadWords p.ctxState (subOf lane + 16)
  /-- Who has put the text back. -/
  stored : ∀ lane : Fin 8, p.stored lane = s.stored (8 * t + lane)
  /-- The loop variables. -/
  i : ∀ lane, 32 ∣ p.i lane

section Phase3

variable {dev : Device} {longState : ℕ → BitVec 32} {start stop t : ℕ} {s : Grid3State}
  {p : Phase3State}

/-- What a thread has or loads is what its lane has. -/
theorem Grid3State.Carries.load (h : s.Carries t start p) (lane : Fin 8) :
    (s.regs (8 * t + lane)).getD (loadWords s.ctxState (t * 50 + subOf lane + 16), start)
      = (p.text lane, p.i lane) := by
  have hsub := subOf_le lane
  rcases h.regs lane with hregs | ⟨hregs, hi, htext⟩
  · rw [hregs]
    rfl
  · rw [hregs, hi, htext, h.ctxState, loadWords_slice _ (by omega), ← Nat.add_assoc]
    rfl

/-- The words of the scratchpad that a lane reads. -/
theorem padWord_eq (hfits : dev.Fits) (ht : t < dev.throughput) (lane : Fin 8) {i : ℕ}
    (hi : i + 32 ≤ 2 ^ 19) (j : Fin 4) :
    longState (dev.index.sum ((t <<< 19) + (subOf lane + i + j)))
      = slice (2 ^ 19) (t * 2 ^ 19) longState (subOf lane + i + j) := by
  have hsub := subOf_le lane
  have hk : subOf lane + i + (j : ℕ) < 2 ^ 19 := by omega
  rw [hfits.sum ht hk, slice_apply hk]

/-- An iteration of a lane. -/
theorem Grid3State.Carries.iterate (h : s.Carries t start p) (sm key pad : ℕ → BitVec 32)
    (lane : Fin 8) (hi : p.i lane < stop) :
    Grid3State.Carries t start
      { s with
        regs := Function.update s.regs (8 * t + lane) (some (cnAesPseudoRoundMut sm
          (fun j => p.text lane j ^^^ pad (subOf lane + p.i lane + j)) key, p.i lane + 32)) }
      (phase3Step sm key pad stop p lane) := by
  have hdvd := h.i lane
  rw [phase3Step, if_pos hi]
  refine ⟨h.ctxState, fun l => ?_, h.stored, (Function.forall_update_iff p.i fun _ i => 32 ∣ i).mpr
    ⟨by omega, fun l _ => h.i l⟩⟩
  rcases eq_or_ne l lane with rfl | hl
  · left
    simp only [Function.update_self]
  · simp only [Function.update_of_ne hl, Function.update_of_ne (lane_ne t hl)]
    exact h.regs l

/-- A lane puts its text back. -/
theorem Grid3State.Carries.store (h : s.Carries t start p) (hlt : start < stop)
    (sm key pad : ℕ → BitVec 32) (lane : Fin 8) (hi : ¬p.i lane < stop)
    (hstored : ¬p.stored lane = true) :
    Grid3State.Carries t start
      { s with
        ctxState := storeWords s.ctxState (t * 50 + subOf lane + 16) (p.text lane)
        stored := Function.update s.stored (8 * t + lane) true }
      (phase3Step sm key pad stop p lane) := by
  have hsub := subOf_le lane
  rw [phase3Step, if_neg hi, if_neg hstored]
  refine ⟨?_, fun l => ?_, fun l => ?_, h.i⟩
  · rw [Nat.add_assoc, slice_storeWords _ _ (by omega), h.ctxState]
  · refine (h.regs l).imp_right ?_
    rintro ⟨hregs, hfirst, htext⟩
    refine ⟨hregs, hfirst, ?_⟩
    -- a lane that has not loaded its text is not at its end, so it is another one
    have hl : (l : ℕ) ≠ lane := fun e => hi (by rw [← Fin.ext e, hfirst]; exact hlt)
    rw [htext, loadWords_storeWords_of_disjoint]
    rw [subOf_eq, subOf_eq]
    omega
  · rcases eq_or_ne l lane with rfl | hl
    · simp only [Function.update_self]
    · simp only [Function.update_of_ne hl, Function.update_of_ne (lane_ne t hl)]
      exact h.stored l

/-- A turn for another hash. -/
theorem Grid3State.Carries.elsewhere (h : s.Carries t start p) {s' : Grid3State}
    (hstate : slice 50 (t * 50) s'.ctxState = slice 50 (t * 50) s.ctxState)
    (hregs : ∀ l : Fin 8, s'.regs (8 * t + l) = s.regs (8 * t + l))
    (hstored : ∀ l : Fin 8, s'.stored (8 * t + l) = s.stored (8 * t + l)) :
    s'.Carries t start p where
  ctxState := h.ctxState.trans hstate.symm
  regs l := by
    rw [hregs]
    exact h.regs l
  stored l := (h.stored l).trans (hstored l).symm
  i := h.i

/-- **The grid carries all hashes along** in phase 3. -/
theorem follows_grid3Turn (sharedMemory : ℕ → ℕ → BitVec 32) (longState ctxKey2 : ℕ → BitVec 32)
    (hfits : dev.Fits) (hlt : start < stop) (h32 : 32 ∣ stop) (hstop : stop ≤ 2 ^ 19) :
    Follows (fun s e => if e.1 < dev.blocks ∧ e.2 < dev.block8 then
        grid3Turn dev sharedMemory longState ctxKey2 start stop s e.1 e.2 else some s)
      dev.turn8
      (fun t p lane => some (phase3Step (sharedMemory (t / dev.threads))
        (slice 40 (t * 40) ctxKey2) (slice (2 ^ 19) (t * 2 ^ 19) longState) stop p lane))
      fun s p => ∀ t < dev.throughput, s.Carries t start (p t) := by
  refine Follows.of_forall ?_ fun s e hturn => if_neg (Device.turn8_eq_none hturn)
  rintro s p ⟨b, x⟩ t lane p' hturn hR hp'
  obtain ⟨hin, ht, hb, hr, hthread, hsub⟩ := Device.turn8_eq_some hfits hturn
  obtain rfl := Option.some.inj hp'
  have hload := (hR t ht).load lane
  have hdvd := (hR t ht).i lane
  have hreg : ∀ t', t' ≠ t → ∀ l : Fin 8, 8 * t' + (l : ℕ) ≠ 8 * t + lane := fun t' _ l => by omega
  rw [hr] at hthread
  rw [if_pos hin]
  simp only [grid3Turn, hthread, if_pos ht, hfits.intIndex ht (by decide : 40 ≤ 50),
    hfits.intIndex ht (le_refl 50), hsub, hr, hload, Option.bind_eq_bind, Option.bind_some]
  by_cases hi : (p t).i lane < stop
  · rw [if_pos hi]
    refine ⟨_, rfl, ?_, fun t' hne ht' =>
      (hR t' ht').elsewhere rfl (fun l => Function.update_of_ne (hreg t' hne l) _ _) fun _ => rfl⟩
    simp only [padWord_eq hfits ht lane (by omega : (p t).i lane + 32 ≤ 2 ^ 19), ← hb]
    exact (hR t ht).iterate _ _ _ lane hi
  · rw [if_neg hi, ← (hR t ht).stored]
    by_cases hstored : (p t).stored lane = true
    · rw [if_pos hstored, phase3Step, if_neg hi, if_pos hstored]
      exact ⟨s, rfl, hR t ht, fun t' _ => hR t'⟩
    · rw [if_neg hstored]
      refine ⟨_, rfl, (hR t ht).store hlt _ _ _ lane hi hstored, fun t' hne ht' => ?_⟩
      have hsub' := subOf_le lane
      have hparts := parts_disjoint 50 hne
      exact (hR t' ht').elsewhere (slice_storeWords_of_outside _ _ (by omega)) (fun _ => rfl)
        fun l => Function.update_of_ne (hreg t' hne l) _ _

/-- No thread has taken a turn. -/
theorem Grid3State.carries_start (h32 : 32 ∣ start) {ctxState : ℕ → BitVec 32} {ctx : Phase3Ctx}
    (hstate : ctx.ctxState = slice 50 (t * 50) ctxState) :
    Grid3State.Carries t start ⟨ctxState, fun _ => none, fun _ => false⟩ (phase3Start start ctx) :=
  ⟨hstate, fun _ => Or.inr ⟨rfl, rfl, rfl⟩, fun _ => rfl, fun _ => h32⟩

/-- A launch of phase 3. -/
theorem gridPhase3_core (hfits : dev.Fits) {bfactor n partidx : ℕ} (hn : 0 < n)
    (hbatch : 0x80000 >>> bfactor = 32 * n) (hpart : (partidx + 1) * n ≤ 16384)
    (u : ℕ → ℕ → BitVec 32) (es : List (ℕ × ℕ)) (m : GridMem) (ctx : ℕ → Phase3Ctx)
    (hctx : ∀ t < dev.throughput, (ctx t).longState = (m.core t).longState ∧
      (ctx t).ctxState = (m.core t).ctxState ∧ (ctx t).ctxKey2 = (m.core t).ctxKey2) :
    ∃ m', gridPhase3 dev bfactor u es partidx m = some m' ∧
      ∀ t < dev.throughput, m'.core t = { m.core t with
        ctxState := (cryptonightCoreGpuPhase3 dev.block8 bfactor (u (t / dev.threads))
          (turnsOf dev.turn8 t es) partidx (ctx t)).ctxState } := by
  rw [Nat.succ_mul] at hpart
  have hstart : partidx * (32 * n) = 32 * (partidx * n) := Nat.mul_left_comm _ _ _
  have hfollows := follows_grid3Turn (fun b => cnAesGpuInit dev.block8 (u b)) m.longState m.ctxKey2
    hfits (by omega : partidx * (32 * n) < partidx * (32 * n) + 32 * n) (by omega) (by omega)
  obtain ⟨s, hrun, hcarries⟩ := hfollows.run es (fun t ht =>
    Grid3State.carries_start (by omega) (hctx t ht).2.1) fun t => List.foldlM_pure
  refine ⟨{ m with ctxState := s.ctxState }, ?_, fun t ht => ?_⟩
  · rw [gridPhase3, hbatch, launch, hrun]
    rfl
  · obtain ⟨hlong, -, hkey⟩ := hctx t ht
    have hstate := (hcarries t ht).ctxState
    rw [cryptonightCoreGpuPhase3, hbatch, hkey, hlong]
    exact congrArg (fun w => { m.core t with ctxState := w }) hstate.symm

/-- The launches of phase 3. -/
theorem gridPhase3_parts (hfits : dev.Fits) (hf : dev.bfactor ≤ 10) (r : GridRun) (m : GridMem) :
    ∃ m', (List.range (1 <<< (dev.bfactor - 4))).foldlM (fun m i =>
        gridPhase3 dev (dev.bfactor - 4) (r.sharedMemory3 i) (r.turns3 i) i m) m = some m' ∧
      ∀ t < dev.throughput, m'.core t = { m.core t with
        ctxState := (cryptonightCoreCpuHashPhase3 dev.block8 dev.bfactor
          (r.core dev t).sharedMemory3 (r.core dev t).sched3
          ⟨(m.core t).longState, (m.core t).ctxState, (m.core t).ctxKey2⟩).ctxState } := by
  obtain ⟨n, hn, hbatch, hparts⟩ := batchsize_eq hf
  obtain ⟨m', hrun, hm'⟩ := foldlM_range_family (s := m)
    (g := fun t ctx i => cryptonightCoreGpuPhase3 dev.block8 (dev.bfactor - 4)
      ((r.core dev t).sharedMemory3 i) ((r.core dev t).sched3 i) i ctx)
    (R := fun m' ctx => ∀ t < dev.throughput,
      m'.core t = { m.core t with ctxState := (ctx t).ctxState } ∧
        (ctx t).longState = (m.core t).longState ∧ (ctx t).ctxKey2 = (m.core t).ctxKey2)
    (x := fun t => ⟨(m.core t).longState, (m.core t).ctxState, (m.core t).ctxKey2⟩)
    (fun t _ => ⟨rfl, rfl, rfl⟩) (1 <<< (dev.bfactor - 4)) fun i hi m' ctx hm' => by
      have hpart : (i + 1) * n ≤ 16384 := hparts ▸ Nat.mul_le_mul_right n hi
      obtain ⟨m'', hlaunch, hm''⟩ := gridPhase3_core hfits hn hbatch hpart (r.sharedMemory3 i)
        (r.turns3 i) m' ctx fun t ht => by
          obtain ⟨hcore, hlong, hkey⟩ := hm' t ht
          rw [hcore]
          exact ⟨hlong, rfl, hkey⟩
      refine ⟨m'', hlaunch, fun t ht => ?_⟩
      obtain ⟨hcore, hlong, hkey⟩ := hm' t ht
      rw [hm'' t ht, hcore]
      exact ⟨rfl, hlong, hkey⟩
  exact ⟨m', hrun, fun t ht => (hm' t ht).1⟩

end Phase3

/-! ### All phases -/

/-- Phase 3 reads the scratchpad only. -/
theorem cryptonightCoreCpuHashPhase3_longState (blockDim bfactor : ℕ) (u : ℕ → ℕ → BitVec 32)
    (sched : ℕ → List (Fin 8)) (ctx : Phase3Ctx) :
    (cryptonightCoreCpuHashPhase3 blockDim bfactor u sched ctx).longState = ctx.longState := by
  unfold cryptonightCoreCpuHashPhase3
  exact foldl_range_invariant (P := fun _ (ctx' : Phase3Ctx) => ctx'.longState = ctx.longState)
    rfl _ fun _ _ _ h => h

section Phases

variable {dev : Device} {r : GridRun}

/-- The lanes of a hash get to their ends. -/
theorem GridRun.Fair.core (h : r.Fair dev) {t : ℕ} (ht : t < dev.throughput) :
    (r.core dev t).Fair dev.bfactor where
  phase1 i hi lane := by
    obtain ⟨hin, hturn⟩ := Device.turn8_lane ht lane
    exact (h.phase1 i hi _ hin.1 _ hin.2).trans (count_le_count_turnsOf hturn)
  phase3 i hi lane := by
    obtain ⟨hin, hturn⟩ := Device.turn8_lane ht lane
    exact (h.phase3 i hi _ hin.1 _ hin.2).trans (count_le_count_turnsOf hturn)

/-- **Each hash of a batch ends with what it computes alone**, whatever the order in which the
threads take turns, on a device whose indices fit. -/
theorem gridCoreCpuHash_core (hfits : dev.Fits) (hf : dev.bfactor ≤ 10) (variant : ℕ)
    (hr : r.Fair dev) (m : GridMem) {c : ℕ → CoreCtx}
    (hc : ∀ t < dev.throughput, cryptonightCoreCpuHash dev.shuffle dev.threads dev.bfactor variant
      (r.core dev t) (m.core t) = some (c t)) :
    ∃ m', gridCoreCpuHash dev variant r m = some m' ∧
      ∀ t < dev.throughput, m'.core t = c t := by
  obtain ⟨m₁, hrun₁, hm₁⟩ := gridPhase1_parts hfits hf r m
  -- what phase 2 computes for each hash
  have hphase2 : ∀ t < dev.throughput, ∃ p2, cryptonightCoreCpuHashPhase2
      (Launch.ofHost dev.shuffle variant dev.block4 dev.bfactor) (r.core dev t).uninit2 0
      (1 <<< dev.bfactor)
      ⟨(m₁.core t).longState, (m₁.core t).ctxA, (m₁.core t).ctxB, (m₁.core t).tweak1_2⟩
        = some p2 ∧
      c t = { m.core t with
        longState := p2.longState
        ctxState := (cryptonightCoreCpuHashPhase3 dev.block8 dev.bfactor
          (r.core dev t).sharedMemory3 (r.core dev t).sched3
          ⟨p2.longState, (m.core t).ctxState, (m.core t).ctxKey2⟩).ctxState
        ctxA := p2.ctxA
        ctxB := p2.ctxB } := by
    intro t ht
    obtain ⟨p2, hrun, hend⟩ := Option.bind_eq_some_iff.mp (hc t ht)
    refine ⟨p2, ?_, ?_⟩
    · rw [hm₁ t ht]
      exact hrun
    · rw [← Option.some.inj hend, cryptonightCoreCpuHashPhase3_longState]
      rfl
  have : Nonempty Phase2Ctx := ⟨⟨fun _ => 0, fun _ => 0, fun _ => 0, fun _ => 0⟩⟩
  choose! p2 hp2 using hphase2
  obtain ⟨m₂, hrun₂, hm₂⟩ := gridPhase2_parts hfits variant hr.phase2 (1 <<< dev.bfactor) 0 m₁
    (by omega) fun t ht => (hp2 t ht).1
  obtain ⟨m₃, hrun₃, hm₃⟩ := gridPhase3_parts hfits hf r m₂
  refine ⟨m₃, ?_, fun t ht => ?_⟩
  · rw [gridCoreCpuHash, hrun₁]
    rw [← List.range_eq_range'] at hrun₂
    exact (congrArg (· >>= _) hrun₂).trans hrun₃
  · rw [hm₃ t ht, hm₂ t ht, hm₁ t ht, (hp2 t ht).2]

/-- **The limit for an index of type `int`**: with more than 4096 hashes, the scratchpad of the
next one is in front of the array, and phase 2 fails in every order of the threads. -/
theorem gridCoreCpuHash_eq_none (hindex : dev.index = .int) (hlt : 4096 < dev.throughput)
    (variant : ℕ) (hr : r.Fair dev) (m : GridMem) : gridCoreCpuHash dev variant r m = none := by
  obtain ⟨hin, -⟩ := Device.turn4_hash hlt
  set b := 4096 / dev.threads
  set x := 4096 % dev.threads
  have hparts : 0 < 1 <<< dev.bfactor := by rw [Nat.one_shiftLeft]; exact Nat.two_pow_pos _
  have hthread : ((dev.block4 * b + 4 * x) % 2 ^ 32) >>> 2 = 4096 := by
    rw [dev.block4_eq, Nat.mul_assoc, ← Nat.mul_add, Nat.div_add_mod]
    rfl
  have hnone : dev.index.scratchpad 4096 = none := by rw [hindex]; rfl
  -- the turns of that hash
  have hmem : (b, x) ∈ r.turns2 0 :=
    List.count_pos_iff.mp (Nat.zero_lt_of_lt (hr.phase2 0 hparts b hin.1 x hin.2))
  have hlaunch : ∀ m, gridPhase2 dev variant (r.uninit2 0) (r.turns2 0) 0 m = none := by
    intro m
    rw [gridPhase2, launch, foldlM_eq_none (fun s => ?_) hmem]
    · rfl
    · rw [if_pos hin]
      simp only [grid2Turn, hthread, if_pos hlt, hnone]
      rfl
  have hloop : ∀ m, (List.range (1 <<< dev.bfactor)).foldlM
      (fun m i => gridPhase2 dev variant (r.uninit2 i) (r.turns2 i) i m) m = none :=
    foldlM_eq_none (e := 0) (f := fun m i => gridPhase2 dev variant (r.uninit2 i) (r.turns2 i) i m)
      hlaunch (List.mem_range.mpr hparts)
  simp only [gridCoreCpuHash, hloop, Option.bind_eq_bind, Option.bind_none, Option.bind_fun_none]

end Phases

end XmrMiner
