import XmrMiner.Crypto.KeyExpand
import XmrMiner.Crypto.Scratchpad
import XmrMiner.Crypto.Sponge

/-!
# The slow hash, on words

What a CryptoNight hash is, apart from how its parts are laid out: a sponge over the
input makes the first state; half of the state is expanded to a key under which the
text in its middle fills a scratchpad; the main loop works on the scratchpad; under
the key of the other half the scratchpad is folded back into the text; and two bits
of the permuted state select the hash function that has the last word.

The state is 50 words of 32 bits here, which is how the device sees it; the CPU works
on its bytes.

## Main definitions

* `stateWords`, `wordsState` — the state as words of 32 bits, and back.
* `expandedKey`, `filledPad`, `loopStart`, `foldedState` — the parts.
* `slowState`, `slowHash` — from the first state on.
* `cryptonight` — the hash of a message.
-/

namespace XmrMiner

open ByteMem Blocks

/-! ### The state as words -/

/-- The words of the state. -/
def stateWords (s : KeccakState) : ℕ → BitVec 32 := fun w =>
  (s (Fin.ofNat 25 (w / 2))).extractLsb' (32 * (w % 2)) 32

/-- The state of 50 words. -/
def wordsState (ws : ℕ → BitVec 32) : KeccakState := fun k => ws (2 * k + 1) ++ ws (2 * k)

/-- Four words, as a block. -/
def blockAt (ws : ℕ → BitVec 32) (p : ℕ) : Block := fun i => ws (p + i)

theorem wordsState_congr {ws ws' : ℕ → BitVec 32} (h : ∀ w < 50, ws w = ws' w) :
    wordsState ws = wordsState ws' := by
  funext k
  rw [wordsState, wordsState, h _ (by omega), h _ (by omega)]

/-- A word of which all bytes are known. -/
theorem load32_of_bytes {m : ByteMem} {p : ℕ} {v : BitVec 32}
    (h : ∀ i < 4, m (p + i) = v.extractLsb' (8 * i) 8) : load32 m p = v := by
  have h0 : m p = v.extractLsb' 0 8 := h 0 (by decide)
  rw [load32, h0, h 1 (by decide), h 2 (by decide), h 3 (by decide)]
  exact append_bytes_eq v

/-- The words of the bytes of a state. -/
theorem load32_stateBytes (s : KeccakState) (w : ℕ) :
    load32 (stateBytes s) (4 * w) = stateWords s w := by
  refine load32_of_bytes fun i hi => ?_
  have hlane : (4 * w + i) / 8 = w / 2 := by omega
  have hbyte : 8 * ((4 * w + i) % 8) = 32 * (w % 2) + 8 * i := by omega
  rw [stateBytes, stateWords, hlane, hbyte]
  apply BitVec.eq_of_getLsbD_eq
  intro j hj
  have hj32 : 8 * i + j < 32 := by omega
  simp [hj, hj32, Nat.add_assoc]

theorem wordsState_stateWords (s : KeccakState) : wordsState (stateWords s) = s := by
  funext k
  have hlo : Fin.ofNat 25 (2 * (k : ℕ) / 2) = k := by
    rw [Nat.mul_div_cancel_left _ (by decide)]
    exact Fin.ofNat_val_eq_self k
  have hhi : (2 * (k : ℕ) + 1) / 2 = 2 * k / 2 := by omega
  have hmod : (2 * (k : ℕ) + 1) % 2 = 1 := by omega
  rw [wordsState, stateWords, stateWords, hhi, hlo, hmod, Nat.mul_mod_right]
  exact append_halves_eq (s k)

/-- A state is known by its bytes. -/
theorem eq_of_stateBytes {s s' : KeccakState} (h : ∀ q < 200, stateBytes s q = stateBytes s' q) :
    s = s' := by
  rw [← wordsState_stateWords s, ← wordsState_stateWords s']
  refine wordsState_congr fun w hw => ?_
  rw [← load32_stateBytes, ← load32_stateBytes]
  exact load32_congr fun i hi => h _ (by omega)

/-- The sponge over a header. -/
theorem sponge_header (perm : KeccakState → KeccakState) (m : ByteMem) (input : ℕ) :
    sponge perm 136 (bytes m input 76) = perm (paddedHeader m input) := by
  have hheader := keccak1600_header perm (fun _ => 0) m input
  rw [keccak1600_eq_sponge perm _ m input 76] at hheader
  refine eq_of_stateBytes fun q hq => ?_
  have hbyte := congrArg (fun l => memOf l q) hheader
  simpa only [memOf_bytes _ _ hq, Nat.zero_add] using hbyte

/-! ### The parts of the hash -/

/-- The round keys that the words from `p` on are expanded to. -/
def expandedKey (ws : ℕ → BitVec 32) (p : ℕ) : ℕ → Block := fun n i =>
  scheduleWord 8 (oaesTransform 8) (fun w => ws (p + w)) (4 * n + i)

/-- The scratchpad under the first key: block `p` of every eight is a text block that
has gone once more through the rounds. -/
def filledPad (ws : ℕ → BitVec 32) : Scratch := fun k =>
  fillText (expandedKey ws 0) (blockAt ws (16 + 4 * (k % 8))) (k / 8 + 1)

/-- The main loop starts from the filled scratchpad and two sums of blocks. -/
def loopStart (ws : ℕ → BitVec 32) : LoopState where
  scratch := filledPad ws
  a := (blockAt ws 0).xor (blockAt ws 8)
  b := (blockAt ws 4).xor (blockAt ws 12)

/-- Block `8 * j + p` of a scratchpad, which text block `p` meets. -/
def padColumn (pad : Scratch) (p : ℕ) : ℕ → Block := fun j => pad (Fin.ofNat 131072 (8 * j + p))

theorem val_padColumn {p j : ℕ} (hp : p < 8) (hj : j < 16384) :
    ((Fin.ofNat 131072 (8 * j + p) : Fin 131072) : ℕ) = 8 * j + p :=
  Nat.mod_eq_of_lt (by omega)

/-- A text block, folded with the scratchpad under the second key. -/
def foldedBlock (ws : ℕ → BitVec 32) (pad : Scratch) (p : ℕ) : Block :=
  foldText (expandedKey ws 8) (padColumn pad p) (blockAt ws (16 + 4 * p)) 16384

/-- The state with the folded text. -/
def foldedState (ws : ℕ → BitVec 32) (pad : Scratch) : ℕ → BitVec 32 := fun w =>
  if 16 ≤ w ∧ w < 48 then foldedBlock ws pad ((w - 16) / 4) (Fin.ofNat 4 w) else ws w

section Hash

-- the permutation, and the four hash functions of the state
variable (perm : KeccakState → KeccakState) (extra : Fin 4 → List (BitVec 8) → List (BitVec 8))

/-- The last state. -/
def slowState (variant : ℕ) (tweak1_2 : BitVec 64) (s : KeccakState) : KeccakState :=
  let ws := stateWords s
  let pad := (mainLoop variant tweak1_2 262144 (loopStart ws)).scratch
  perm (wordsState (foldedState ws pad))

/-- The two low bits of the first byte select the hash function. -/
def finalHash (s : KeccakState) : List (BitVec 8) :=
  extra (Fin.ofNat 4 (stateBytes s 0).toNat) (bytes (stateBytes s) 0 200)

/-- As it is computed, with a mask. -/
theorem finalHash_eq (s : KeccakState) :
    extra (Fin.ofNat 4 (stateBytes s 0 &&& 3).toNat) (bytes (stateBytes s) 0 200)
      = finalHash extra s := by
  have hmask : Fin.ofNat 4 (stateBytes s 0 &&& 3).toNat = Fin.ofNat 4 (stateBytes s 0).toNat := by
    rw [toNat_and_mask (k := 2) _ 3 rfl]
    exact Fin.ext (Nat.mod_mod _ _)
  rw [hmask, finalHash]

/-- The hash, from the first state on. -/
def slowHash (variant : ℕ) (tweak1_2 : BitVec 64) (s : KeccakState) : List (BitVec 8) :=
  finalHash extra (slowState perm variant tweak1_2 s)

/-- The tweak: eight bytes of the message, the nonce among them, added onto the last word
of the state. -/
def messageTweak (msg : List (BitVec 8)) (s : KeccakState) : BitVec 64 :=
  load64 (memOf msg) 35 ^^^ s 24

/-- The hash of a message. -/
def cryptonight (variant : ℕ) (msg : List (BitVec 8)) : List (BitVec 8) :=
  let s := sponge perm 136 msg
  slowHash perm extra variant (messageTweak msg s) s

end Hash

/-- An output of 32 bytes as eight words. -/
def digestWords (digest : List (BitVec 8)) : Fin 8 → BitVec 32 := fun i =>
  load32 (memOf digest) (4 * i)

end XmrMiner
