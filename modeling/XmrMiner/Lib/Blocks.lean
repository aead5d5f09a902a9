import Mathlib.Data.List.Basic
import XmrMiner.Lib.ByteMem

/-!
# Cutting a message into blocks

An iterated hash function cuts its message into blocks of one length, folds its
compression function over the full ones, and keeps what is behind them for the
padding.  A program does the first part in a loop, which takes block after block off
the front of what is left.

## Main definitions

* `blocks`, `rest` — the full blocks of a list, and what is behind them.
* `memOf` — a list as a memory.
* `foldNumbered` — a fold over blocks that counts them.
* `takeBlocks` — a loop over the blocks of a memory.
* `Chunk`, `Allowed` — the data of calls, and when a number of calls is allowed.

## Main results

* `blocks_append` — a message whose length is a multiple of that of a block.
* `loop_eq_takeBlocks` — **such a loop takes the full blocks.**
* `takeBlocks_inv`, `takeBlocks_eq_foldl` — what holds of it then.
* `append_add_carry` — a counter of two words.
* `foldl_chunks` — **calls that append their data one by one** append them all.
-/

namespace Blocks

open ByteMem

variable {α : Type*} {n : ℕ}

/-- The full blocks of `n` entries at the front of a list. -/
def blocks (n : ℕ) (l : List α) : List (List α) :=
  (List.range (l.length / n)).map fun i => (l.drop (n * i)).take n

/-- What is behind the full blocks. -/
def rest (n : ℕ) (l : List α) : List α := l.drop (n * (l.length / n))

@[simp] theorem length_blocks (n : ℕ) (l : List α) : (blocks n l).length = l.length / n := by
  simp [blocks]

theorem length_rest (n : ℕ) (l : List α) : (rest n l).length = l.length % n := by
  have := Nat.mod_add_div l.length n
  rw [rest, List.length_drop]
  omega

theorem blocks_of_lt {l : List α} (h : l.length < n) : blocks n l = [] := by
  rw [blocks, Nat.div_eq_of_lt h]
  rfl

theorem rest_of_lt {l : List α} (h : l.length < n) : rest n l = l := by
  rw [rest, Nat.div_eq_of_lt h]
  rfl

/-- Behind a multiple of the block length the blocks start anew. -/
theorem blocks_append {l : List α} (hn : 0 < n) (hl : n ∣ l.length) (l' : List α) :
    blocks n (l ++ l') = blocks n l ++ blocks n l' := by
  obtain ⟨k, hk⟩ := hl
  have hdiv : l.length / n = k := by rw [hk, Nat.mul_div_cancel_left k hn]
  have hlen : (l ++ l').length / n = k + l'.length / n := by
    rw [List.length_append, hk, Nat.mul_add_div hn]
  rw [blocks, blocks, blocks, hlen, hdiv, List.range_add, List.map_append, List.map_map]
  congr 1
  · refine List.map_congr_left fun i hi => ?_
    have hmul : n * (i + 1) ≤ n * k := Nat.mul_le_mul_left n (List.mem_range.mp hi)
    rw [Nat.mul_succ] at hmul
    rw [List.drop_append_of_le_length (by omega), List.take_append_of_le_length]
    rw [List.length_drop]
    omega
  · refine List.map_congr_left fun i _ => ?_
    rw [Function.comp_apply, Nat.mul_add, ← hk, List.drop_append, List.drop_eq_nil_of_le (by omega),
      List.nil_append, Nat.add_sub_cancel_left]

theorem rest_append {l : List α} (hn : 0 < n) (hl : n ∣ l.length) (l' : List α) :
    rest n (l ++ l') = rest n l' := by
  obtain ⟨k, hk⟩ := hl
  rw [rest, rest, List.length_append, hk, Nat.mul_add_div hn, Nat.mul_add, ← hk, List.drop_append,
    List.drop_eq_nil_of_le (by omega), List.nil_append, Nat.add_sub_cancel_left]

theorem blocks_self {b : List α} (hn : 0 < n) (hb : b.length = n) : blocks n b = [b] := by
  rw [blocks, hb, Nat.div_self hn]
  simp [← hb]

theorem blocks_cons {b : List α} (hn : 0 < n) (hb : b.length = n) (l : List α) :
    blocks n (b ++ l) = b :: blocks n l := by
  rw [blocks_append hn (dvd_of_eq hb.symm), blocks_self hn hb, List.singleton_append]

/-- The blocks and the rest make up the list. -/
theorem take_append_rest (n : ℕ) (l : List α) : l.take (n * (l.length / n)) ++ rest n l = l :=
  List.take_append_drop _ l

/-- The blocks of a list and what is put behind it. -/
theorem blocks_append_rest (hn : 0 < n) (l l' : List α) :
    blocks n (l ++ l') = blocks n l ++ blocks n (rest n l ++ l') := by
  have hlen : (l.take (n * (l.length / n))).length = n * (l.length / n) :=
    List.length_take_of_le (Nat.mul_div_le _ _)
  have hdvd : n ∣ (l.take (n * (l.length / n))).length := by
    rw [hlen]
    exact Nat.dvd_mul_right n _
  have hshort : blocks n (rest n l) = [] := by
    apply blocks_of_lt
    rw [length_rest]
    exact Nat.mod_lt _ hn
  have hfull := blocks_append hn hdvd (rest n l)
  rw [take_append_rest, hshort, List.append_nil] at hfull
  conv_lhs => rw [← take_append_rest n l, List.append_assoc]
  rw [blocks_append hn hdvd, hfull]

/-- Blocks that are cut where `len` entries end. -/
theorem take_flatMap_range {f : ℕ → List α} (hf : ∀ i, (f i).length = n)
    (k len : ℕ) : (List.range k).flatMap (fun i => (f i).take (len - i * n))
      = ((List.range k).flatMap f).take len := by
  induction k with
  | zero => simp
  | succ k ih =>
    have hlen : ((List.range k).flatMap f).length = k * n := by
      simp [List.length_flatMap, hf]
    rw [List.range_succ, List.flatMap_append, List.flatMap_append, List.take_append, hlen, ih]
    simp

/-! ### Ranges of a memory -/

/-- A list as a memory. -/
def memOf (l : List (BitVec 8)) : ByteMem := fun q => l.getD q 0

theorem memOf_bytes (m : ByteMem) (p : ℕ) {len q : ℕ} (hq : q < len) :
    memOf (bytes m p len) q = m (p + q) := by
  have hlen : q < (bytes m p len).length := by rwa [length_bytes]
  rw [memOf, List.getD_eq_getElem?_getD, List.getElem?_eq_getElem hlen, Option.getD_some,
    getElem_bytes]

theorem bytes_memOf (l : List (BitVec 8)) : bytes (memOf l) 0 l.length = l := by
  refine List.ext_getElem (by simp) fun i h₁ h₂ => ?_
  rw [getElem_bytes, Nat.zero_add, memOf, List.getD_eq_getElem?_getD, List.getElem?_eq_getElem h₂,
    Option.getD_some]

theorem bytes_add (m : ByteMem) (p n k : ℕ) :
    bytes m p (n + k) = bytes m p n ++ bytes m (p + n) k := by
  simp [bytes, List.range_add, Nat.add_assoc]

theorem take_bytes (m : ByteMem) (p : ℕ) {len k : ℕ} (hk : k ≤ len) :
    (bytes m p len).take k = bytes m p k := by
  obtain ⟨j, rfl⟩ := Nat.exists_eq_add_of_le hk
  rw [bytes_add, List.take_left' (length_bytes m p k)]

theorem drop_bytes (m : ByteMem) (p : ℕ) {len k : ℕ} (hk : k ≤ len) :
    (bytes m p len).drop k = bytes m (p + k) (len - k) := by
  obtain ⟨j, rfl⟩ := Nat.exists_eq_add_of_le hk
  rw [bytes_add, List.drop_left' (length_bytes m p k), Nat.add_sub_cancel_left]

theorem bytes_memOf_range (l : List (BitVec 8)) {p k : ℕ} (h : p + k ≤ l.length) :
    bytes (memOf l) p k = (l.drop p).take k := by
  have hp : p ≤ l.length := by omega
  have hdrop := drop_bytes (memOf l) 0 hp
  rw [bytes_memOf, Nat.zero_add] at hdrop
  rw [hdrop, take_bytes _ _ (by omega)]

/-- A range that is partly overwritten. -/
theorem bytes_storeBytes (m : ByteMem) (k : ℕ) (bs : List (BitVec 8)) (j : ℕ) :
    bytes (storeBytes m k bs) 0 (k + bs.length + j)
      = bytes m 0 k ++ bs ++ bytes m (k + bs.length) j := by
  have hlow : bytes (storeBytes m k bs) 0 k = bytes m 0 k :=
    bytes_congr fun i hi => by rw [storeBytes, if_neg (by omega)]
  have hmid : bytes (storeBytes m k bs) (0 + k) bs.length = bs := by
    refine List.ext_getElem (length_bytes _ _ _) fun i h₁ h₂ => ?_
    rw [getElem_bytes, Nat.zero_add, storeBytes_of_lt _ _ _ h₂]
  have hhigh : bytes (storeBytes m k bs) (0 + (k + bs.length)) j = bytes m (k + bs.length) j := by
    rw [Nat.zero_add]
    exact bytes_congr fun i hi => by rw [storeBytes, if_neg (by omega)]
  rw [bytes_add, bytes_add, hlow, hmid, hhigh]

/-- Writing behind a range makes it longer. -/
theorem bytes_storeBytes_append (m : ByteMem) (k : ℕ) (bs : List (BitVec 8)) :
    bytes (storeBytes m k bs) 0 (k + bs.length) = bytes m 0 k ++ bs := by
  have h := bytes_storeBytes m k bs 0
  rwa [Nat.add_zero, show bytes m (k + bs.length) 0 = [] from rfl, List.append_nil] at h

/-- Reading back the front of what has been stored behind `r` bytes. -/
theorem bytes_storeBytes_bytes (m data : ByteMem) (r p : ℕ) {n k : ℕ} (hn : n ≤ k) :
    bytes (storeBytes m r (bytes data p k)) 0 (r + n) = bytes m 0 r ++ bytes data p n := by
  have h := congrArg (List.take (r + n)) (bytes_storeBytes_append m r (bytes data p k))
  rwa [length_bytes, take_bytes _ _ (Nat.add_le_add_left hn r), List.take_append, length_bytes,
    List.take_of_length_le (by rw [length_bytes]; omega), Nat.add_sub_cancel_left,
    take_bytes _ _ hn] at h

theorem bytes_zero (p n : ℕ) : bytes (fun _ => (0 : BitVec 8)) p n = List.replicate n 0 :=
  List.ext_getElem (by rw [length_bytes, List.length_replicate]) fun i h₁ h₂ => by
    rw [getElem_bytes, List.getElem_replicate]

/-- Zeros that have been stored. -/
theorem bytes_zeros (m : ByteMem) {p n q k : ℕ} (hp : p ≤ q) (hk : q + k ≤ p + n) :
    bytes (storeBytes m p (List.replicate n 0)) q k = List.replicate k 0 := by
  refine List.ext_getElem (by simp) fun i h₁ h₂ => ?_
  rw [length_bytes] at h₁
  rw [getElem_bytes, storeBytes, if_pos (by rw [List.length_replicate]; omega),
    List.getElem_replicate, List.getD_eq_getElem?_getD, List.getElem?_replicate, if_pos (by omega),
    Option.getD_some]

/-- The bytes of a word, the most significant one first. -/
def bigEndian64 (v : BitVec 64) : List (BitVec 8) :=
  (List.range 8).map fun i => v.extractLsb' (56 - 8 * i) 8

@[simp] theorem length_bigEndian64 (v : BitVec 64) : (bigEndian64 v).length = 8 := rfl

/-! ### Counters in two words -/

theorem toNat_append_eq (hi lo : BitVec 32) :
    (hi ++ lo).toNat = hi.toNat * 2 ^ 32 + lo.toNat := by
  rw [BitVec.toNat_append, ← Nat.shiftLeft_add_eq_or_of_lt lo.isLt, Nat.shiftLeft_eq]

/-- A counter that carries when its low word is zero afterwards, if `n` does not step over it. -/
theorem append_add_carry (hi lo : BitVec 32) {n : ℕ} (hn : 0 < n) (h : lo.toNat + n ≤ 2 ^ 32) :
    ((if lo + BitVec.ofNat 32 n = 0 then hi + 1 else hi) ++ (lo + BitVec.ofNat 32 n) : BitVec 64)
      = (hi ++ lo : BitVec 64) + BitVec.ofNat 64 n := by
  have hlt := lo.isLt
  have hadd : (lo + BitVec.ofNat 32 n).toNat = (lo.toNat + n) % 2 ^ 32 := by
    rw [BitVec.toNat_add, BitVec.toNat_ofNat, Nat.add_mod_mod]
  have hcarry : (hi + 1).toNat = (hi.toNat + 1) % 2 ^ 32 := BitVec.toNat_add _ _
  have hzero : lo + BitVec.ofNat 32 n = 0 ↔ (lo + BitVec.ofNat 32 n).toNat = 0 := BitVec.toNat_eq
  have hsum : ((hi ++ lo : BitVec 64) + BitVec.ofNat 64 n).toNat
      = (hi.toNat * 2 ^ 32 + lo.toNat + n) % 2 ^ 64 := by
    rw [BitVec.toNat_add, BitVec.toNat_ofNat, Nat.add_mod_mod, ← toNat_append_eq]
  apply BitVec.eq_of_toNat_eq
  rw [hsum, toNat_append_eq]
  split
  · next hc =>
    have := hzero.mp hc
    omega
  · next hc =>
    have := mt hzero.mpr hc
    omega

/-! ### Blocks of a memory -/

theorem rest_bytes (m : ByteMem) (p len : ℕ) :
    rest n (bytes m p len) = bytes m (p + n * (len / n)) (len % n) := by
  have hdiv := Nat.mod_add_div len n
  rw [rest, length_bytes, drop_bytes m p (by omega), show len - n * (len / n) = len % n by omega]

theorem blocks_bytes (hn : 0 < n) (m : ByteMem) (p len : ℕ) :
    blocks n (bytes m p len) = blocks n (bytes m p (n * (len / n))) := by
  have hdvd : n ∣ (bytes m p (n * (len / n))).length := by
    rw [length_bytes]
    exact Nat.dvd_mul_right n _
  have hshort : (bytes m (p + n * (len / n)) (len % n)).length < n := by
    rw [length_bytes]
    exact Nat.mod_lt _ hn
  conv_lhs => rw [← Nat.div_add_mod len n, bytes_add]
  rw [blocks_append hn hdvd, blocks_of_lt hshort, List.append_nil]

/-! ### Blocks with their numbers -/

section Numbered

variable {σ : Type*} {f g : σ → ℕ → List α → σ}

/-- Fold over blocks, each with its number. -/
def foldNumbered (f : σ → ℕ → List α → σ) (s : σ) (bs : List (List α)) : σ :=
  bs.zipIdx.foldl (fun s b => f s b.2 b.1) s

theorem foldNumbered_concat (f : σ → ℕ → List α → σ) (s : σ) (bs : List (List α)) (b : List α) :
    foldNumbered f s (bs ++ [b]) = f (foldNumbered f s bs) bs.length b := by
  rw [foldNumbered, List.zipIdx_append, List.foldl_append, Nat.zero_add]
  rfl

/-- Only the blocks that there are count. -/
theorem foldNumbered_congr (s : σ) (bs : List (List α))
    (h : ∀ s i b, i < bs.length → f s i b = g s i b) :
    foldNumbered f s bs = foldNumbered g s bs := by
  induction bs using List.reverseRecOn with
  | nil => rfl
  | append_singleton bs b ih =>
    have hlen : (bs ++ [b]).length = bs.length + 1 := List.length_append
    rw [foldNumbered_concat, foldNumbered_concat, ih fun s i b hi => h s i b (by omega),
      h _ _ _ (by omega)]

end Numbered

/-! ### Loops -/

section Loops

variable {S R : Type*} {step : S → ℕ → S}

/-- Take `k` blocks of `n` bytes, from `p` on. -/
def takeBlocks (n : ℕ) (step : S → ℕ → S) : ℕ → S → ℕ → S
  | 0, s, _ => s
  | k + 1, s, p => takeBlocks n step k (step s p) (p + n)

/-- **A loop that takes block after block** takes all the full ones, and stops at the rest. -/
theorem loop_eq_takeBlocks (loop ret : S → ℕ → ℕ → R) (hn : 0 < n)
    (hgo : ∀ s p len, n ≤ len → loop s p len = loop (step s p) (p + n) (len - n))
    (hstop : ∀ s p len, len < n → loop s p len = ret s p len) (s : S) (p len : ℕ) :
    loop s p len = ret (takeBlocks n step (len / n) s p) (p + n * (len / n)) (len % n) := by
  induction len using Nat.strong_induction_on generalizing s p with
  | _ len ih =>
    rcases Nat.lt_or_ge len n with hlt | hge
    · rw [hstop s p len hlt, Nat.div_eq_of_lt hlt, Nat.mod_eq_of_lt hlt]
      rfl
    · obtain ⟨k, rfl⟩ := Nat.exists_eq_add_of_le hge
      rw [hgo s p _ hge, Nat.add_sub_cancel_left, ih k (by omega), Nat.add_mod_left,
        Nat.add_div_left k hn, takeBlocks, Nat.mul_succ, Nat.add_assoc, Nat.add_comm n]

/-- What a step keeps, such a loop keeps. -/
theorem takeBlocks_inv (Inv : S → List (BitVec 8) → Prop) {m : ByteMem}
    (hstep : ∀ s p msg, n ∣ msg.length → Inv s msg → Inv (step s p) (msg ++ bytes m p n))
    (k : ℕ) {s : S} (p : ℕ) {msg : List (BitVec 8)} (hmsg : n ∣ msg.length) (hs : Inv s msg) :
    Inv (takeBlocks n step k s p) (msg ++ bytes m p (n * k)) := by
  induction k generalizing s p msg with
  | zero =>
    have hnil : bytes m p (n * 0) = [] := rfl
    rwa [hnil, List.append_nil]
  | succ k ih =>
    have hdvd : n ∣ (msg ++ bytes m p n).length := by
      rw [List.length_append, length_bytes]
      exact (Nat.dvd_add_right hmsg).mpr (dvd_refl n)
    have hmul : n + n * k = n * (k + 1) := by rw [Nat.mul_succ, Nat.add_comm]
    have hrest := ih (p + n) hdvd (hstep s p msg hmsg hs)
    rwa [List.append_assoc, ← bytes_add, hmul] at hrest

/-- A loop whose step only looks at the block is a fold. -/
theorem takeBlocks_eq_foldl {f : S → List (BitVec 8) → S} {m : ByteMem} (hn : 0 < n)
    (hstep : ∀ s p, step s p = f s (bytes m p n)) (k : ℕ) (s : S) (p : ℕ) :
    takeBlocks n step k s p = (blocks n (bytes m p (n * k))).foldl f s := by
  have hnil : s = (blocks n ([] : List (BitVec 8))).foldl f s := by
    rw [blocks_of_lt hn, List.foldl_nil]
  refine takeBlocks_inv (fun t msg => t = (blocks n msg).foldl f s)
    (fun t p msg hmsg ht => ?_) k p (dvd_zero n) hnil
  rw [hstep, ht, blocks_append hn hmsg, blocks_self hn (length_bytes m p n), List.foldl_append]
  rfl

end Loops

/-! ### Calls -/

section Calls

/-- The data of a call: bytes of a memory. -/
structure Chunk where
  /-- The memory. -/
  mem : ByteMem
  /-- Where they start. -/
  start : ℕ
  /-- Their number. -/
  len : ℕ

/-- They themselves. -/
def Chunk.data (c : Chunk) : List (BitVec 8) := bytes c.mem c.start c.len

/-- Each call is allowed, which depends on how much the calls before have put in. -/
def Allowed (ok : ℕ → ℕ → Prop) : ℕ → List Chunk → Prop
  | _, [] => True
  | k, c :: cs => ok k c.len ∧ Allowed ok (k + c.len) cs

variable {S : Type*}

theorem allowed_of_forall {ok : ℕ → ℕ → Prop} (cs : List Chunk) (h : ∀ c ∈ cs, ∀ k, ok k c.len)
    (k : ℕ) : Allowed ok k cs := by
  induction cs generalizing k with
  | nil => trivial
  | cons c cs ih =>
    rw [List.forall_mem_cons] at h
    exact ⟨h.1 k, ih h.2 _⟩

/-- **Calls that append their data one by one** append them all. -/
theorem foldl_chunks (ok : ℕ → ℕ → Prop) (Inv : S → List (BitVec 8) → Prop) {put : S → Chunk → S}
    (hput : ∀ s msg c, ok msg.length c.len → Inv s msg → Inv (put s c) (msg ++ c.data))
    (cs : List Chunk) {s : S} (msg : List (BitVec 8)) (hcs : Allowed ok msg.length cs)
    (hs : Inv s msg) : Inv (cs.foldl put s) (msg ++ cs.flatMap Chunk.data) := by
  induction cs generalizing s msg with
  | nil =>
    rw [List.flatMap_nil, List.append_nil]
    exact hs
  | cons c cs ih =>
    obtain ⟨hc, hcs⟩ := hcs
    have hlen : (msg ++ c.data).length = msg.length + c.len := by
      rw [List.length_append, Chunk.data, length_bytes]
    rw [← hlen] at hcs
    have hrest := ih _ hcs (hput s msg c hc hs)
    rwa [List.append_assoc, ← List.flatMap_cons] at hrest

end Calls

end Blocks
