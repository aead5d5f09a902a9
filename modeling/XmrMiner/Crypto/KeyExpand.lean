import XmrMiner.Lib.ByteMem

/-!
# AES key expansion

`oaes_lib.c` expands a key byte by byte, for any key length it knows; the device
does it word by word, for 32 bytes.  A word of the schedule is the sum of the word
one key length before it and a transform of the word just before it, and so a loop
that goes through the words in order has no choice: two loops with the same
transform leave the same words.

## Main definitions

* `scheduleWord` — the words of a schedule, for any transform.
* `OaesKey`, `oaesKeyExpand`, `oaesKeyImportData` — the functions of `oaes_lib.c`.

## Main results

* `load32_foldl_schedule` — a loop that fills in the words one by one.
* `load32_oaesKeyExpand` — the expanded key holds the words of the schedule.
-/

namespace XmrMiner

open ByteMem

/-! ### Schedules -/

/-- Word `i` of the schedule of a key of `nk` words, with `t i` the transform of the word
before. -/
def scheduleWord (nk : ℕ) (t : ℕ → BitVec 32 → BitVec 32) (key : ℕ → BitVec 32) (i : ℕ) :
    BitVec 32 :=
  if i < nk ∨ nk = 0 then key i
  else scheduleWord nk t key (i - nk) ^^^ t i (scheduleWord nk t key (i - 1))
termination_by i
decreasing_by all_goals omega

theorem scheduleWord_of_lt {nk i : ℕ} (t : ℕ → BitVec 32 → BitVec 32) (key : ℕ → BitVec 32)
    (h : i < nk) : scheduleWord nk t key i = key i := by
  rw [scheduleWord, if_pos (Or.inl h)]

theorem scheduleWord_of_le {nk i : ℕ} (t : ℕ → BitVec 32 → BitVec 32) (key : ℕ → BitVec 32)
    (hnk : 0 < nk) (h : nk ≤ i) : scheduleWord nk t key i
      = scheduleWord nk t key (i - nk) ^^^ t i (scheduleWord nk t key (i - 1)) := by
  rw [scheduleWord, if_neg (by omega)]

/-- A schedule depends on the words of its key only. -/
theorem scheduleWord_congr {nk : ℕ} (t : ℕ → BitVec 32 → BitVec 32) {key key' : ℕ → BitVec 32}
    (hnk : 0 < nk) (h : ∀ i < nk, key i = key' i) (w : ℕ) :
    scheduleWord nk t key w = scheduleWord nk t key' w := by
  induction w using Nat.strong_induction_on with
  | _ w ih =>
    rcases Nat.lt_or_ge w nk with hlt | hge
    · rw [scheduleWord_of_lt t key hlt, scheduleWord_of_lt t key' hlt, h w hlt]
    · rw [scheduleWord_of_le t key hnk hge, scheduleWord_of_le t key' hnk hge,
        ih (w - nk) (by omega), ih (w - 1) (by omega)]

/-- **A loop that fills in word after word** leaves the schedule of the words it began
with. -/
theorem load32_foldl_schedule {nk : ℕ} (hnk : 0 < nk) {t : ℕ → BitVec 32 → BitVec 32}
    {f : ByteMem → ℕ → ByteMem}
    (hself : ∀ m i, nk ≤ i → load32 (f m i) (4 * i)
      = load32 m (4 * (i - nk)) ^^^ t i (load32 m (4 * (i - 1))))
    (hframe : ∀ m i w, w < i → load32 (f m i) (4 * w) = load32 m (4 * w)) (m : ByteMem) :
    ∀ n w : ℕ, w < nk + n → load32 ((List.range' nk n).foldl f m) (4 * w)
      = scheduleWord nk t (fun i => load32 m (4 * i)) w := by
  intro n
  induction n with
  | zero =>
    intro w hw
    rw [scheduleWord_of_lt _ _ (by omega)]
    rfl
  | succ n ih =>
    intro w hw
    rw [List.range'_concat, Nat.one_mul, List.foldl_append, List.foldl_cons, List.foldl_nil]
    rcases Nat.lt_or_ge w (nk + n) with hlt | hge
    · rw [hframe _ _ _ hlt, ih w hlt]
    · obtain rfl : w = nk + n := by omega
      rw [hself _ _ (by omega), ih _ (by omega), ih _ (by omega),
        ← scheduleWord_of_le _ _ hnk (by omega)]

/-! ### Four bytes -/

/-- The four bytes of a word. -/
abbrev Column := Fin 4 → BitVec 8

namespace Column

/-- The bytes as a word. -/
def word (c : Column) : BitVec 32 := c 3 ++ c 2 ++ c 1 ++ c 0

/-- The bytes of a word. -/
def ofWord (w : BitVec 32) : Column :=
  ![w.extractLsb' 0 8, w.extractLsb' 8 8, w.extractLsb' 16 8, w.extractLsb' 24 8]

/-- The bytes at `p`. -/
def load (m : ByteMem) (p : ℕ) : Column := fun j => m (p + j)

theorem word_load (m : ByteMem) (p : ℕ) : (load m p).word = load32 m p := rfl

theorem ofWord_word (c : Column) : ofWord c.word = c := by
  obtain ⟨h0, h1, h2⟩ := load32_low (fun q => c (Fin.ofNat 4 q)) 0
  have h3 := load32_top (fun q => c (Fin.ofNat 4 q)) 0
  funext j
  fin_cases j
  · exact h0
  · exact h1
  · exact h2
  · exact h3

theorem word_xor (c c' : Column) : (Column.word fun j => c j ^^^ c' j) = c.word ^^^ c'.word := by
  show _ = (c 3 ++ c 2 ++ c 1 ++ c 0 : BitVec (8 + 8 + 8 + 8)) ^^^ (c' 3 ++ c' 2 ++ c' 1 ++ c' 0)
  rw [BitVec.xor_append, BitVec.xor_append, BitVec.xor_append]
  rfl

end Column

/-! ### The tables of `oaes_lib.c` -/

/-- `oaes_gf_8`. -/
def oaesGf8 : List (BitVec 8) := [0x01, 0x02, 0x04, 0x08, 0x10, 0x20, 0x40, 0x80, 0x1b, 0x36]

/-- `oaes_sub_byte_value`. -/
def oaesSubByteValue : List (List (BitVec 8)) := [
  [0x63, 0x7c, 0x77, 0x7b, 0xf2, 0x6b, 0x6f, 0xc5, 0x30, 0x01, 0x67, 0x2b, 0xfe, 0xd7, 0xab, 0x76],
  [0xca, 0x82, 0xc9, 0x7d, 0xfa, 0x59, 0x47, 0xf0, 0xad, 0xd4, 0xa2, 0xaf, 0x9c, 0xa4, 0x72, 0xc0],
  [0xb7, 0xfd, 0x93, 0x26, 0x36, 0x3f, 0xf7, 0xcc, 0x34, 0xa5, 0xe5, 0xf1, 0x71, 0xd8, 0x31, 0x15],
  [0x04, 0xc7, 0x23, 0xc3, 0x18, 0x96, 0x05, 0x9a, 0x07, 0x12, 0x80, 0xe2, 0xeb, 0x27, 0xb2, 0x75],
  [0x09, 0x83, 0x2c, 0x1a, 0x1b, 0x6e, 0x5a, 0xa0, 0x52, 0x3b, 0xd6, 0xb3, 0x29, 0xe3, 0x2f, 0x84],
  [0x53, 0xd1, 0x00, 0xed, 0x20, 0xfc, 0xb1, 0x5b, 0x6a, 0xcb, 0xbe, 0x39, 0x4a, 0x4c, 0x58, 0xcf],
  [0xd0, 0xef, 0xaa, 0xfb, 0x43, 0x4d, 0x33, 0x85, 0x45, 0xf9, 0x02, 0x7f, 0x50, 0x3c, 0x9f, 0xa8],
  [0x51, 0xa3, 0x40, 0x8f, 0x92, 0x9d, 0x38, 0xf5, 0xbc, 0xb6, 0xda, 0x21, 0x10, 0xff, 0xf3, 0xd2],
  [0xcd, 0x0c, 0x13, 0xec, 0x5f, 0x97, 0x44, 0x17, 0xc4, 0xa7, 0x7e, 0x3d, 0x64, 0x5d, 0x19, 0x73],
  [0x60, 0x81, 0x4f, 0xdc, 0x22, 0x2a, 0x90, 0x88, 0x46, 0xee, 0xb8, 0x14, 0xde, 0x5e, 0x0b, 0xdb],
  [0xe0, 0x32, 0x3a, 0x0a, 0x49, 0x06, 0x24, 0x5c, 0xc2, 0xd3, 0xac, 0x62, 0x91, 0x95, 0xe4, 0x79],
  [0xe7, 0xc8, 0x37, 0x6d, 0x8d, 0xd5, 0x4e, 0xa9, 0x6c, 0x56, 0xf4, 0xea, 0x65, 0x7a, 0xae, 0x08],
  [0xba, 0x78, 0x25, 0x2e, 0x1c, 0xa6, 0xb4, 0xc6, 0xe8, 0xdd, 0x74, 0x1f, 0x4b, 0xbd, 0x8b, 0x8a],
  [0x70, 0x3e, 0xb5, 0x66, 0x48, 0x03, 0xf6, 0x0e, 0x61, 0x35, 0x57, 0xb9, 0x86, 0xc1, 0x1d, 0x9e],
  [0xe1, 0xf8, 0x98, 0x11, 0x69, 0xd9, 0x8e, 0x94, 0x9b, 0x1e, 0x87, 0xe9, 0xce, 0x55, 0x28, 0xdf],
  [0x8c, 0xa1, 0x89, 0x0d, 0xbf, 0xe6, 0x42, 0x68, 0x41, 0x99, 0x2d, 0x0f, 0xb0, 0x54, 0xbb, 0x16]]

/-! ### The expansion -/

/-- What the functions return when they fail. -/
inductive OaesRet
  /-- `OAES_RET_UNKNOWN`. -/
  | unknown
  /-- `OAES_RET_ARG3`. -/
  | arg3
  /-- `OAES_RET_NOKEY`. -/
  | noKey
  /-- `OAES_RET_MEM`. -/
  | mem
  deriving DecidableEq, Repr

/-- `oaes_key`. -/
structure OaesKey where
  /-- The length of the key. -/
  dataLen : ℕ
  /-- The key. -/
  data : ByteMem
  /-- The length of the expanded key. -/
  expDataLen : ℕ
  /-- The expanded key. -/
  expData : ByteMem
  /-- The number of round keys. -/
  numKeys : ℕ
  /-- The number of words of the key. -/
  keyBase : ℕ

/-- `oaes_sub_byte`. -/
def oaesSubByte (byte : BitVec 8) : BitVec 8 :=
  let y := ((byte >>> 4) &&& 0x0f).toNat
  let x := (byte &&& 0x0f).toNat
  (oaesSubByteValue.getD y []).getD x 0

/-- `oaes_word_rot_left`. -/
def oaesWordRotLeft (word : Column) : Column := ![word 1, word 2, word 3, word 0]

/-- The transform of `_temp`, for word `i`. -/
def oaesTemp (keyBase i : ℕ) (temp : Column) : Column :=
  if i % keyBase = 0 then
    let temp := oaesWordRotLeft temp
    let temp : Column := fun j => oaesSubByte (temp j)
    Function.update temp 0 (temp 0 ^^^ oaesGf8.getD (i / keyBase - 1) 0)
  else if keyBase > 6 ∧ i % keyBase = 4 then fun j => oaesSubByte (temp j)
  else temp

/-- The body of the loop of `oaes_key_expand`. -/
def oaesExpandStep (keyBase : ℕ) (expData : ByteMem) (i : ℕ) : ByteMem :=
  let temp := oaesTemp keyBase i (Column.load expData ((i - 1) * 4))
  (List.finRange 4).foldl (fun expData (j : Fin 4) =>
    Function.update expData (i * 4 + j) (expData ((i - keyBase) * 4 + j) ^^^ temp j)) expData

/-- `oaes_key_expand`, for a context that is there; `calloc` tells whether the allocation
of the expanded key succeeds. -/
def oaesKeyExpand (calloc : Bool) (key : Option OaesKey) : Except OaesRet OaesKey :=
  match key with
  | none => .error .noKey
  | some key =>
    let keyBase := key.dataLen / 4
    let numKeys := keyBase + 7
    if calloc then
      let expData := storeBytes (fun _ => 0) 0 (bytes key.data 0 key.dataLen)
      .ok { key with
        keyBase := keyBase
        numKeys := numKeys
        expDataLen := numKeys * 4 * 4
        expData := (List.range' keyBase (numKeys * 4 - keyBase)).foldl
          (oaesExpandStep keyBase) expData }
    else .error .mem

/-- `oaes_key_import_data`, for a context and data that are there, with the outcome of
its three allocations. -/
def oaesKeyImportData (callocKey callocData callocExp : Bool) (m : ByteMem) (data dataLen : ℕ) :
    Except OaesRet OaesKey :=
  if dataLen = 16 ∨ dataLen = 24 ∨ dataLen = 32 then
    if callocKey && callocData then
      match oaesKeyExpand callocExp (some
        { dataLen := dataLen
          data := storeBytes (fun _ => 0) 0 (bytes m data dataLen)
          expDataLen := 0
          expData := fun _ => 0
          numKeys := 0
          keyBase := 0 }) with
      | .ok key => .ok key
      -- `_rc || oaes_key_expand( ctx )` is 1, whatever the error
      | .error _ => .error .unknown
    else .error .mem
  else .error .arg3

/-! ### The expanded key -/

theorem oaesExpandStep_of_disjoint (keyBase : ℕ) (m : ByteMem) {i q : ℕ}
    (h : q < 4 * i ∨ 4 * i + 4 ≤ q) : oaesExpandStep keyBase m i q = m q := by
  have hne : ∀ j : Fin 4, q ≠ i * 4 + j := fun j => by omega
  have hrange : List.finRange 4 = [0, 1, 2, 3] := rfl
  simp only [oaesExpandStep, hrange, List.foldl_cons, List.foldl_nil,
    Function.update_of_ne (hne _)]

/-- The four bytes that an iteration writes. -/
theorem load_oaesExpandStep {keyBase i : ℕ} (hkey : 0 < keyBase) (hi : keyBase ≤ i) (m : ByteMem) :
    Column.load (oaesExpandStep keyBase m i) (4 * i) = fun j =>
      Column.load m (4 * (i - keyBase)) j
        ^^^ oaesTemp keyBase i (Column.load m (4 * (i - 1))) j := by
  have hrange : List.finRange 4 = [0, 1, 2, 3] := rfl
  -- what is read lies in front of what is written
  have hread : ∀ j j' : Fin 4, (i - keyBase) * 4 + (j : ℕ) ≠ i * 4 + j' := fun j j' => by omega
  have hwrite : ∀ j j' : Fin 4, j ≠ j' → i * 4 + (j : ℕ) ≠ i * 4 + j' := fun j j' hj h =>
    hj (Fin.ext (Nat.add_left_cancel h))
  funext j
  simp only [Column.load, oaesExpandStep, hrange, List.foldl_cons, List.foldl_nil,
    Function.update_of_ne (hread _ _), Nat.mul_comm 4]
  obtain rfl | rfl | rfl | rfl : j = 0 ∨ j = 1 ∨ j = 2 ∨ j = 3 := by
    revert j
    decide
  · rw [Function.update_of_ne (hwrite 0 3 (by decide)),
      Function.update_of_ne (hwrite 0 2 (by decide)),
      Function.update_of_ne (hwrite 0 1 (by decide)), Function.update_self]
  · rw [Function.update_of_ne (hwrite 1 3 (by decide)),
      Function.update_of_ne (hwrite 1 2 (by decide)), Function.update_self]
  · rw [Function.update_of_ne (hwrite 2 3 (by decide)), Function.update_self]
  · rw [Function.update_self]

/-- The transform of a word of the schedule. -/
def oaesTransform (keyBase i : ℕ) (x : BitVec 32) : BitVec 32 :=
  (oaesTemp keyBase i (Column.ofWord x)).word

theorem load32_oaesExpandStep {keyBase i : ℕ} (hkey : 0 < keyBase) (hi : keyBase ≤ i)
    (m : ByteMem) : load32 (oaesExpandStep keyBase m i) (4 * i)
      = load32 m (4 * (i - keyBase)) ^^^ oaesTransform keyBase i (load32 m (4 * (i - 1))) := by
  rw [← Column.word_load, load_oaesExpandStep hkey hi m, Column.word_xor, Column.word_load,
    oaesTransform, ← Column.word_load m (4 * (i - 1)), Column.ofWord_word]

/-- **The expanded key holds the words of the schedule.** -/
theorem load32_oaesKeyExpand {key : OaesKey} (hlen : 4 ≤ key.dataLen) :
    ∃ key', oaesKeyExpand true (some key) = .ok key' ∧
      ∀ w < 4 * (key.dataLen / 4 + 7), load32 key'.expData (4 * w)
        = scheduleWord (key.dataLen / 4) (oaesTransform (key.dataLen / 4))
            (fun i => load32 (storeBytes (fun _ => 0) 0 (bytes key.data 0 key.dataLen)) (4 * i))
            w := by
  have hkey : 0 < key.dataLen / 4 := Nat.div_pos hlen (by decide)
  refine ⟨_, rfl, fun w hw => ?_⟩
  exact load32_foldl_schedule hkey (fun m i hi => load32_oaesExpandStep hkey hi m)
    (fun m i w hw => load32_congr fun j hj => oaesExpandStep_of_disjoint _ m (by omega)) _ _ w
    (by omega)

/-- The schedule of a key of 32 bytes, imported from `data`. -/
theorem load32_oaesKeyImportData (m : ByteMem) (data : ℕ) :
    ∃ key, oaesKeyImportData true true true m data 32 = .ok key ∧
      ∀ w < 60, load32 key.expData (4 * w)
        = scheduleWord 8 (oaesTransform 8) (fun i => load32 m (data + 4 * i)) w := by
  set imported : OaesKey :=
    { dataLen := 32
      data := storeBytes (fun _ => 0) 0 (bytes m data 32)
      expDataLen := 0
      expData := fun _ => 0
      numKeys := 0
      keyBase := 0 } with himported
  have hlen : imported.dataLen = 32 := rfl
  have hdata : imported.data = storeBytes (fun _ => 0) 0 (bytes m data 32) := rfl
  obtain ⟨key, hkey, hwords⟩ := load32_oaesKeyExpand (show 4 ≤ imported.dataLen from
    hlen ▸ by decide)
  have himport : oaesKeyImportData true true true m data 32 = .ok key := by
    simp only [oaesKeyImportData, or_true, if_true, Bool.and_self, ← himported, hkey]
  rw [hlen] at hwords
  refine ⟨key, himport, fun w hw => (hwords w hw).trans ?_⟩
  refine scheduleWord_congr _ (show 0 < 8 by decide) (fun i hi => load32_eq_of_bytes ?_) w
  intro j hj
  rw [storeBytes_bytes, if_pos (by omega), hdata, storeBytes_bytes, if_pos (by omega)]
  congr 1
  omega

end XmrMiner
