import XmrMiner.Crypto.Cryptonight

/-!
# Filling and folding the scratchpad on the CPU

Before its main loop `cryptonight_hash_ctx` fills the scratchpad with an AES key
stream started from bytes 64 to 191 of the Keccak state, and after the loop it
folds the scratchpad back into the same bytes.  Both loops carry eight text
blocks, each of which goes its own way: block `p` of the text meets only block
`p` of every 128 bytes of the scratchpad.

## Main definitions

* `aesPseudoRound` — ten AES rounds on a block.
* `fillText`, `foldText` — what becomes of one text block.
* `aesbPseudoRoundMut`, `xorBlocks` — the steps of the loops.
* `cryptonightFill`, `cryptonightFold` — the two loops.

## Main results

* `loadBlock_cryptonightFill` — a block of the filled scratchpad.
* `loadBlock_cryptonightFold`, `cryptonightFold_of_disjoint` — the folded bytes of
  the state, and that the others keep their values.
-/

namespace XmrMiner

open ByteMem

/-! ### One text block -/

/-- Ten AES rounds, round `n` with the key block `k n`. -/
def aesPseudoRound (t : Fin 4 → ℕ → BitVec 32) (k : ℕ → Block) (x : Block) : Block :=
  (List.range 10).foldl (fun x n => aesRound t x (k n)) x

/-- A text block after `n` iterations of the fill loop. -/
def fillText (k : ℕ → Block) (x : Block) (n : ℕ) : Block := (aesPseudoRound tFn k)^[n] x

/-- A text block after `n` iterations of the fold loop, over the blocks `pad`. -/
def foldText (k pad : ℕ → Block) (x : Block) : ℕ → Block
  | 0 => x
  | n + 1 => aesPseudoRound tFn k ((foldText k pad x n).xor (pad n))

theorem fillText_succ (k : ℕ → Block) (x : Block) (n : ℕ) :
    fillText k x (n + 1) = aesPseudoRound tFn k (fillText k x n) :=
  Function.iterate_succ_apply' _ n x

/-! ### The loops of the source -/

namespace Ctx

/-- `state.init`, the text bytes of the state. -/
def init : ℕ := 2097216

/-- `aes_ctx->key->exp_data`, of 240 bytes, on the heap. -/
def expData : ℕ := 2097536

/-- The local array `b1` of `aesb_pseudo_round_mut`, of 16 bytes, on the stack. -/
def b1 : ℕ := 2097776

end Ctx

/-- `aesb_pseudo_round_mut`. -/
def aesbPseudoRoundMut (m : ByteMem) (val expandedKey b1 : ℕ) : ByteMem :=
  let m := aesbRound m b1 val expandedKey
  let m := aesbRound m val b1 (expandedKey + 16 * 1)
  let m := aesbRound m b1 val (expandedKey + 16 * 2)
  let m := aesbRound m val b1 (expandedKey + 16 * 3)
  let m := aesbRound m b1 val (expandedKey + 16 * 4)
  let m := aesbRound m val b1 (expandedKey + 16 * 5)
  let m := aesbRound m b1 val (expandedKey + 16 * 6)
  let m := aesbRound m val b1 (expandedKey + 16 * 7)
  let m := aesbRound m b1 val (expandedKey + 16 * 8)
  aesbRound m val b1 (expandedKey + 16 * 9)

/-- `xor_blocks`. -/
def xorBlocks (m : ByteMem) (a b : ℕ) : ByteMem :=
  let m := store64 m a (load64 m a ^^^ load64 m b)
  store64 m (a + 8) (load64 m (a + 8) ^^^ load64 m (b + 8))

/-- `RND(p)` of the fill loop. -/
def fillRnd (m : ByteMem) (p : ℕ) : ByteMem :=
  aesbPseudoRoundMut m (Ctx.text + 16 * p) Ctx.expData Ctx.b1

/-- One iteration of the fill loop. -/
def fillIteration (m : ByteMem) (i : ℕ) : ByteMem :=
  let m := (List.range 8).foldl fillRnd m
  storeBytes m (Ctx.longState + i) (bytes m Ctx.text 128)

/-- The fill loop, from the copy of the text on. -/
def cryptonightFill (m : ByteMem) : ByteMem :=
  let m := storeBytes m Ctx.text (bytes m Ctx.init 128)
  (List.range 16384).foldl (fun m n => fillIteration m (128 * n)) m

/-- `RND(p)` of the fold loop. -/
def foldRnd (i : ℕ) (m : ByteMem) (p : ℕ) : ByteMem :=
  let m := xorBlocks m (Ctx.text + 16 * p) (Ctx.longState + i + 16 * p)
  aesbPseudoRoundMut m (Ctx.text + 16 * p) Ctx.expData Ctx.b1

/-- One iteration of the fold loop. -/
def foldIteration (m : ByteMem) (i : ℕ) : ByteMem := (List.range 8).foldl (foldRnd i) m

/-- The fold loop, between the two copies of the text. -/
def cryptonightFold (m : ByteMem) : ByteMem :=
  let m := storeBytes m Ctx.text (bytes m Ctx.init 128)
  let m := (List.range 16384).foldl (fun m n => foldIteration m (128 * n)) m
  storeBytes m Ctx.init (bytes m Ctx.text 128)

/-! ### Ten rounds -/

/-- The first `2 * n` rounds of `aesb_pseudo_round_mut`: odd rounds go to `b1`, and
even ones back to `val`. -/
def aesbRoundPairs (m : ByteMem) (val expandedKey b1 : ℕ) : ℕ → ByteMem
  | 0 => m
  | n + 1 =>
    let m := aesbRoundPairs m val expandedKey b1 n
    let m := aesbRound m b1 val (expandedKey + 16 * (2 * n))
    aesbRound m val b1 (expandedKey + 16 * (2 * n + 1))

theorem aesbPseudoRoundMut_eq (m : ByteMem) (val expandedKey b1 : ℕ) :
    aesbPseudoRoundMut m val expandedKey b1 = aesbRoundPairs m val expandedKey b1 5 := rfl

/-- The key blocks at `p`. -/
def keyBlocks (m : ByteMem) (p : ℕ) : ℕ → Block := fun n => loadBlock m (p + 16 * n)

theorem aesbRound_of_disjoint (m : ByteMem) {y x k q : ℕ} (h : q < y ∨ y + 16 ≤ q) :
    aesbRound m y x k q = m q := aesbSingleRound_of_disjoint m h

theorem loadBlock_aesbRound (m : ByteMem) {y x k : ℕ} (hx : x + 16 ≤ y ∨ y + 16 ≤ x)
    (hk : k + 16 ≤ y ∨ y + 16 ≤ k) :
    loadBlock (aesbRound m y x k) y = aesRound tFn (loadBlock m x) (loadBlock m k) :=
  loadBlock_aesbSingleRound m hx hk

theorem aesbRoundPairs_of_disjoint (m : ByteMem) {val key b1 q : ℕ}
    (hval : q < val ∨ val + 16 ≤ q) (hb : q < b1 ∨ b1 + 16 ≤ q) :
    ∀ n : ℕ, aesbRoundPairs m val key b1 n q = m q := by
  intro n
  induction n with
  | zero => rfl
  | succ n ih =>
    rw [aesbRoundPairs, aesbRound_of_disjoint _ hval, aesbRound_of_disjoint _ hb, ih]

/-- The blocks `val`, `b1` and the key do not overlap. -/
structure RoundBuffers (val key b1 : ℕ) : Prop where
  /-- The two blocks. -/
  val_b1 : val + 16 ≤ b1 ∨ b1 + 16 ≤ val
  /-- The key and the text. -/
  key_val : key + 160 ≤ val ∨ val + 16 ≤ key
  /-- The key and the local array. -/
  key_b1 : key + 160 ≤ b1 ∨ b1 + 16 ≤ key

theorem loadBlock_aesbRoundPairs (m : ByteMem) {val key b1 : ℕ} (hbuf : RoundBuffers val key b1) :
    ∀ n ≤ 5, loadBlock (aesbRoundPairs m val key b1 n) val
      = (List.range (2 * n)).foldl (fun x n => aesRound tFn x (keyBlocks m key n))
          (loadBlock m val) := by
  obtain ⟨hvb, hkv, hkb⟩ := hbuf
  intro n
  induction n with
  | zero => intro _; rfl
  | succ n ih =>
    intro hn
    -- the key blocks of both rounds are still those of `m`
    have hkey : ∀ i < 10, loadBlock (aesbRoundPairs m val key b1 n) (key + 16 * i)
        = keyBlocks m key i := fun i hi =>
      loadBlock_congr fun q hq => aesbRoundPairs_of_disjoint m (by omega) (by omega) n
    set m' := aesbRoundPairs m val key b1 n
    have hodd : loadBlock (aesbRound m' b1 val (key + 16 * (2 * n))) b1
        = aesRound tFn (loadBlock m' val) (keyBlocks m key (2 * n)) := by
      rw [loadBlock_aesbRound m' hvb (by omega), hkey _ (by omega)]
    have heven : loadBlock (aesbRound m' b1 val (key + 16 * (2 * n))) (key + 16 * (2 * n + 1))
        = keyBlocks m key (2 * n + 1) := by
      rw [loadBlock_congr fun q hq => aesbRound_of_disjoint m' (by omega), hkey _ (by omega)]
    rw [aesbRoundPairs, loadBlock_aesbRound _ (by omega) (by omega), hodd, heven, ih (by omega),
      Nat.mul_succ, List.range_succ, List.range_succ, List.foldl_append, List.foldl_append]
    rfl

/-- **`aesb_pseudo_round_mut` is ten rounds.** -/
theorem loadBlock_aesbPseudoRoundMut (m : ByteMem) {val key b1 : ℕ}
    (hbuf : RoundBuffers val key b1) :
    loadBlock (aesbPseudoRoundMut m val key b1) val
      = aesPseudoRound tFn (keyBlocks m key) (loadBlock m val) := by
  rw [aesbPseudoRoundMut_eq, loadBlock_aesbRoundPairs m hbuf 5 le_rfl]
  rfl

theorem aesbPseudoRoundMut_of_disjoint (m : ByteMem) {val key b1 q : ℕ}
    (hval : q < val ∨ val + 16 ≤ q) (hb : q < b1 ∨ b1 + 16 ≤ q) :
    aesbPseudoRoundMut m val key b1 q = m q := by
  rw [aesbPseudoRoundMut_eq, aesbRoundPairs_of_disjoint m hval hb 5]

theorem xorBlocks_of_disjoint (m : ByteMem) {a b q : ℕ} (h : q < a ∨ a + 16 ≤ q) :
    xorBlocks m a b q = m q := by
  unfold xorBlocks
  rw [store64_of_disjoint _ _ (by omega), store64_of_disjoint _ _ (by omega)]

theorem loadBlock_xorBlocks (m : ByteMem) {a b : ℕ} (hab : a + 16 ≤ b ∨ b + 16 ≤ a) :
    loadBlock (xorBlocks m a b) a = (loadBlock m a).xor (loadBlock m b) := by
  unfold xorBlocks
  rw [loadBlock_storeHalves, load64_store64_of_disjoint _ _ (by omega),
    load64_store64_of_disjoint _ _ (by omega), ofHalves_xor_load64]

/-! ### The eight text blocks -/

/-- Whether `q` is behind the eight text blocks and in front of the local array, or
before both: what `RND` reads besides its own text block, and never writes. -/
def Outside (q : ℕ) : Prop := q < Ctx.text ∨ Ctx.text + 128 ≤ q ∧ q < Ctx.b1

/-- A step on text block `p`, whose new value is `g p` of the old one and of bytes
outside of the text. -/
structure TextStep (f : ByteMem → ℕ → ByteMem) (g : ByteMem → ℕ → Block → Block) : Prop where
  /-- The new value of the block. -/
  block : ∀ m, ∀ p < 8, loadBlock (f m p) (Ctx.text + 16 * p)
    = g m p (loadBlock m (Ctx.text + 16 * p))
  /-- Only the block and the local array change. -/
  frame : ∀ m, ∀ p < 8, ∀ q, (q < Ctx.text + 16 * p ∨ Ctx.text + 16 * p + 16 ≤ q) →
    (q < Ctx.b1 ∨ Ctx.b1 + 16 ≤ q) → f m p q = m q
  /-- The value depends on nothing that the steps write. -/
  congr : ∀ m m', (∀ q, Outside q → m' q = m q) → ∀ p < 8, g m' p = g m p

section TextStep

variable {f : ByteMem → ℕ → ByteMem} {g : ByteMem → ℕ → Block → Block}

theorem TextStep.foldl_of_outside (hf : TextStep f g) (m : ByteMem) {n q : ℕ} (hn : n ≤ 8)
    (hq : q < Ctx.text ∨ Ctx.text + 128 ≤ q) (hb : q < Ctx.b1 ∨ Ctx.b1 + 16 ≤ q) :
    (List.range n).foldl f m q = m q :=
  foldl_range_invariant (P := fun _ (t : ByteMem) => t q = m q) rfl n fun i hi t ht => by
    rw [hf.frame t i (by omega) q (by omega) hb, ht]

/-- **The blocks do not meet**: each of them is what its own step makes of it. -/
theorem TextStep.loadBlock_foldl (hf : TextStep f g) (m : ByteMem) {p : ℕ} (hp : p < 8) :
    ∀ n ≤ 8, loadBlock ((List.range n).foldl f m) (Ctx.text + 16 * p)
      = if p < n then g m p (loadBlock m (Ctx.text + 16 * p))
        else loadBlock m (Ctx.text + 16 * p) := by
  have htext : Ctx.text = 2097352 := rfl
  have hb1 : Ctx.b1 = 2097776 := rfl
  intro n
  induction n with
  | zero => intro _; rfl
  | succ n ih =>
    intro hn
    rw [List.range_succ, List.foldl_append, List.foldl_cons, List.foldl_nil]
    rcases eq_or_ne p n with rfl | hne
    · have hout : ∀ q, Outside q → (List.range p).foldl f m q = m q := by
        intro q hq
        unfold Outside at hq
        exact hf.foldl_of_outside m (by omega) (by omega) (by omega)
      rw [hf.block _ p hp, hf.congr m _ hout p hp, ih (by omega), if_neg (lt_irrefl p),
        if_pos p.lt_succ_self]
    · rw [loadBlock_congr fun i hi => hf.frame _ n (by omega) _ (by omega) (by omega),
        ih (by omega)]
      grind

end TextStep

theorem aesPseudoRound_congr {t : Fin 4 → ℕ → BitVec 32} {k k' : ℕ → Block}
    (h : ∀ n < 10, k' n = k n) : aesPseudoRound t k' = aesPseudoRound t k := by
  funext x
  refine List.foldl_ext _ _ _ fun y n hn => ?_
  rw [h n (List.mem_range.mp hn)]

theorem fillText_congr {k k' : ℕ → Block} (h : ∀ n < 10, k' n = k n) :
    fillText k' = fillText k := by
  unfold fillText
  rw [aesPseudoRound_congr h]

/-- The key stays in place while the text changes. -/
theorem keyBlocks_congr {m m' : ByteMem} (h : ∀ q, Outside q → m' q = m q) {n : ℕ} (hn : n < 10) :
    keyBlocks m' Ctx.expData n = keyBlocks m Ctx.expData n := by
  refine loadBlock_congr fun i hi => h _ (Or.inr ?_)
  unfold Ctx.text Ctx.expData Ctx.b1
  omega

theorem roundBuffers_text {p : ℕ} (hp : p < 8) :
    RoundBuffers (Ctx.text + 16 * p) Ctx.expData Ctx.b1 := by
  unfold Ctx.text Ctx.expData Ctx.b1
  exact ⟨by omega, by omega, by omega⟩

theorem textStep_fillRnd :
    TextStep fillRnd fun m _ x => aesPseudoRound tFn (keyBlocks m Ctx.expData) x where
  block m _ hp := loadBlock_aesbPseudoRoundMut m (roundBuffers_text hp)
  frame m _ _ _ hq hb := aesbPseudoRoundMut_of_disjoint m hq hb
  congr _ _ h _ _ := aesPseudoRound_congr fun _ hn => keyBlocks_congr h hn

theorem textStep_foldRnd {i : ℕ} (hi : i + 128 ≤ 2097152) :
    TextStep (foldRnd i) fun m p x => aesPseudoRound tFn (keyBlocks m Ctx.expData)
      (x.xor (loadBlock m (Ctx.longState + i + 16 * p))) where
  block m p hp := by
    have htext : Ctx.text = 2097352 := rfl
    have hl : Ctx.longState = 0 := rfl
    have hkey : ∀ n < 10, keyBlocks (xorBlocks m (Ctx.text + 16 * p)
        (Ctx.longState + i + 16 * p)) Ctx.expData n = keyBlocks m Ctx.expData n := by
      intro n hn
      refine loadBlock_congr fun j hj => xorBlocks_of_disjoint m ?_
      unfold Ctx.text Ctx.expData
      omega
    rw [foldRnd, loadBlock_aesbPseudoRoundMut _ (roundBuffers_text hp),
      loadBlock_xorBlocks m (by omega), aesPseudoRound_congr hkey]
  frame m _ _ _ hq hb := by
    rw [foldRnd, aesbPseudoRoundMut_of_disjoint _ hq hb, xorBlocks_of_disjoint m hq]
  congr m m' h p hp := by
    have hpad : loadBlock m' (Ctx.longState + i + 16 * p)
        = loadBlock m (Ctx.longState + i + 16 * p) := by
      refine loadBlock_congr fun j hj => h _ (Or.inl ?_)
      unfold Ctx.text Ctx.longState
      omega
    rw [hpad, aesPseudoRound_congr fun _ hn => keyBlocks_congr h hn]

/-! ### The fill loop -/

/-- After `n` iterations of the fill loop from `m`, the memory is `m'`. -/
structure FillInv (m : ByteMem) (n : ℕ) (m' : ByteMem) : Prop where
  /-- The text is `n` steps on. -/
  text : ∀ p < 8, loadBlock m' (Ctx.text + 16 * p)
    = fillText (keyBlocks m Ctx.expData) (loadBlock m (Ctx.text + 16 * p)) n
  /-- The scratchpad has the text of every step. -/
  pad : ∀ p < 8, ∀ j < n, loadBlock m' (Ctx.longState + 128 * j + 16 * p)
    = fillText (keyBlocks m Ctx.expData) (loadBlock m (Ctx.text + 16 * p)) (j + 1)
  /-- Nothing else has changed behind the filled part. -/
  frame : ∀ q, Ctx.longState + 128 * n ≤ q → (q < Ctx.text ∨ Ctx.text + 128 ≤ q) →
    (q < Ctx.b1 ∨ Ctx.b1 + 16 ≤ q) → m' q = m q

theorem FillInv.step {m m' : ByteMem} {n : ℕ} (h : FillInv m n m') (hn : n < 16384) :
    FillInv m (n + 1) (fillIteration m' (128 * n)) := by
  have htext : Ctx.text = 2097352 := rfl
  have hb1 : Ctx.b1 = 2097776 := rfl
  have hl : Ctx.longState = 0 := rfl
  set m₁ := (List.range 8).foldl fillRnd m' with hm₁
  have hiter : ∀ q, fillIteration m' (128 * n) q
      = if Ctx.longState + 128 * n ≤ q ∧ q < Ctx.longState + 128 * n + 128 then
          m₁ (Ctx.text + (q - (Ctx.longState + 128 * n))) else m₁ q :=
    fun q => storeBytes_bytes m₁ m₁ _ _ _ q
  -- the eight steps use the key that was there at the start
  have hkey : aesPseudoRound tFn (keyBlocks m' Ctx.expData)
      = aesPseudoRound tFn (keyBlocks m Ctx.expData) := by
    refine aesPseudoRound_congr fun i hi => loadBlock_congr fun q hq => h.frame _ ?_ ?_ ?_ <;>
      unfold Ctx.expData <;> omega
  have hnew : ∀ p < 8, loadBlock m₁ (Ctx.text + 16 * p)
      = fillText (keyBlocks m Ctx.expData) (loadBlock m (Ctx.text + 16 * p)) (n + 1) := by
    intro p hp
    rw [hm₁, textStep_fillRnd.loadBlock_foldl m' hp 8 le_rfl, if_pos hp, hkey, h.text p hp,
      fillText_succ]
  have hout : ∀ q, (q < Ctx.text ∨ Ctx.text + 128 ≤ q) → (q < Ctx.b1 ∨ Ctx.b1 + 16 ≤ q) →
      m₁ q = m' q := fun q hq hb => textStep_fillRnd.foldl_of_outside m' le_rfl hq hb
  refine ⟨fun p hp => ?_, fun p hp j hj => ?_, fun q hq ht hb => ?_⟩
  · rw [loadBlock_congr fun i hi => (hiter _).trans (if_neg (by omega)), hnew p hp]
  · rcases eq_or_ne j n with rfl | hne
    · rw [← hnew p hp]
      refine loadBlock_eq_of_bytes fun i hi => ?_
      rw [hiter, if_pos (by omega)]
      congr 1
      omega
    · rw [loadBlock_congr fun i hi => (hiter _).trans (if_neg (by omega)),
        loadBlock_congr fun i hi => hout _ (by omega) (by omega), h.pad p hp j (by omega)]
  · rw [hiter, if_neg (by omega), hout q ht hb, h.frame q (by omega) ht hb]

theorem FillInv.loop (m : ByteMem) : FillInv m 16384
    ((List.range 16384).foldl (fun m n => fillIteration m (128 * n)) m) :=
  foldl_range_invariant (P := FillInv m)
    ⟨fun _ _ => rfl, fun _ _ _ hj => absurd hj (Nat.not_lt_zero _), fun _ _ _ _ => rfl⟩
    16384 fun _ hn _ h => h.step hn

/-- The copy of the text at the start of both loops. -/
theorem loadBlock_copyText (m : ByteMem) {p : ℕ} (hp : p < 8) :
    loadBlock (storeBytes m Ctx.text (bytes m Ctx.init 128)) (Ctx.text + 16 * p)
      = loadBlock m (Ctx.init + 16 * p) := loadBlock_storeBytes_bytes m m (by omega)

theorem copyText_of_disjoint (m : ByteMem) {q : ℕ} (h : q < Ctx.text ∨ Ctx.text + 128 ≤ q) :
    storeBytes m Ctx.text (bytes m Ctx.init 128) q = m q := by
  rw [storeBytes_bytes, if_neg (by omega)]

theorem keyBlocks_copyText (m : ByteMem) :
    keyBlocks (storeBytes m Ctx.text (bytes m Ctx.init 128)) Ctx.expData
      = keyBlocks m Ctx.expData := by
  funext n
  refine loadBlock_congr fun i hi => copyText_of_disjoint m ?_
  unfold Ctx.text Ctx.expData
  omega

/-- **The filled scratchpad**: block `p` of the `j`-th 128 bytes is the text block `p`
after `j + 1` steps. -/
theorem loadBlock_cryptonightFill (m : ByteMem) {p j : ℕ} (hp : p < 8) (hj : j < 16384) :
    loadBlock (cryptonightFill m) (Ctx.longState + 128 * j + 16 * p)
      = fillText (keyBlocks m Ctx.expData) (loadBlock m (Ctx.init + 16 * p)) (j + 1) := by
  rw [cryptonightFill, (FillInv.loop _).pad p hp j hj, keyBlocks_copyText,
    loadBlock_copyText m hp]

/-! ### The fold loop -/

/-- The blocks of the scratchpad that text block `p` meets. -/
def padBlocks (m : ByteMem) (p : ℕ) : ℕ → Block := fun j =>
  loadBlock m (Ctx.longState + 128 * j + 16 * p)

/-- After `n` iterations of the fold loop from `m`, the memory is `m'`. -/
structure FoldInv (m : ByteMem) (n : ℕ) (m' : ByteMem) : Prop where
  /-- The text is `n` steps on. -/
  text : ∀ p < 8, loadBlock m' (Ctx.text + 16 * p)
    = foldText (keyBlocks m Ctx.expData) (padBlocks m p) (loadBlock m (Ctx.text + 16 * p)) n
  /-- Nothing else has changed. -/
  frame : ∀ q, (q < Ctx.text ∨ Ctx.text + 128 ≤ q) → (q < Ctx.b1 ∨ Ctx.b1 + 16 ≤ q) →
    m' q = m q

theorem FoldInv.step {m m' : ByteMem} {n : ℕ} (h : FoldInv m n m') (hn : n < 16384) :
    FoldInv m (n + 1) (foldIteration m' (128 * n)) := by
  have htext : Ctx.text = 2097352 := rfl
  have hb1 : Ctx.b1 = 2097776 := rfl
  have hl : Ctx.longState = 0 := rfl
  have hstep := textStep_foldRnd (show 128 * n + 128 ≤ 2097152 by omega)
  have hkey : ∀ i < 10, keyBlocks m' Ctx.expData i = keyBlocks m Ctx.expData i := by
    intro i hi
    refine loadBlock_congr fun q hq => h.frame _ ?_ ?_ <;> unfold Ctx.expData <;> omega
  refine ⟨fun p hp => ?_, fun q hq hb => ?_⟩
  · have hpad : loadBlock m' (Ctx.longState + 128 * n + 16 * p) = padBlocks m p n :=
      loadBlock_congr fun i hi => h.frame _ (by omega) (by omega)
    rw [foldIteration, hstep.loadBlock_foldl m' hp 8 le_rfl, if_pos hp,
      aesPseudoRound_congr hkey, hpad, h.text p hp, foldText]
  · rw [foldIteration, hstep.foldl_of_outside m' le_rfl hq hb, h.frame q hq hb]

theorem FoldInv.loop (m : ByteMem) : FoldInv m 16384
    ((List.range 16384).foldl (fun m n => foldIteration m (128 * n)) m) :=
  foldl_range_invariant (P := FoldInv m) ⟨fun _ _ => rfl, fun _ _ _ => rfl⟩ 16384
    fun _ hn _ h => h.step hn

theorem padBlocks_copyText (m : ByteMem) {p : ℕ} (hp : p < 8) {j : ℕ} (hj : j < 16384) :
    padBlocks (storeBytes m Ctx.text (bytes m Ctx.init 128)) p j = padBlocks m p j := by
  refine loadBlock_congr fun i hi => copyText_of_disjoint m ?_
  unfold Ctx.text Ctx.longState
  omega

theorem foldText_congr {k k' pad pad' : ℕ → Block} (hk : ∀ n < 10, k' n = k n) (x : Block) :
    ∀ n : ℕ, (∀ j < n, pad' j = pad j) → foldText k' pad' x n = foldText k pad x n := by
  intro n
  induction n with
  | zero => exact fun _ => rfl
  | succ n ih =>
    intro h
    rw [foldText, foldText, ih fun j hj => h j (by omega), h n n.lt_succ_self,
      aesPseudoRound_congr hk]

/-- **The folded text**, in the state. -/
theorem loadBlock_cryptonightFold (m : ByteMem) {p : ℕ} (hp : p < 8) :
    loadBlock (cryptonightFold m) (Ctx.init + 16 * p)
      = foldText (keyBlocks m Ctx.expData) (padBlocks m p)
          (loadBlock m (Ctx.init + 16 * p)) 16384 := by
  have hloop := (FoldInv.loop (storeBytes m Ctx.text (bytes m Ctx.init 128))).text p hp
  rw [keyBlocks_copyText, loadBlock_copyText m hp,
    foldText_congr (fun _ _ => rfl) _ 16384 fun j hj => padBlocks_copyText m hp hj] at hloop
  rw [← hloop, cryptonightFold, loadBlock_storeBytes_bytes _ _ (by omega)]

/-- The fold changes the text bytes of the state, the text and the local array. -/
theorem cryptonightFold_of_disjoint (m : ByteMem) {q : ℕ}
    (hi : q < Ctx.init ∨ Ctx.init + 128 ≤ q) (ht : q < Ctx.text ∨ Ctx.text + 128 ≤ q)
    (hb : q < Ctx.b1 ∨ Ctx.b1 + 16 ≤ q) : cryptonightFold m q = m q := by
  rw [cryptonightFold, storeBytes_bytes, if_neg (by omega),
    (FoldInv.loop _).frame q ht hb, copyText_of_disjoint m ht]

end XmrMiner
