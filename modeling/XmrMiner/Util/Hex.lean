import XmrMiner.Lib.CString

/-!
# Hexadecimal strings

`bin2hex` writes two digits a byte.  `hex2bin` reads the string two characters at a
time with `strtol`, and so takes for a byte whatever `strtol` takes for a number of
base sixteen in two characters: next to two digits these are a blank or a sign and a
digit.

## Main definitions

* `strtolHex` — `strtol` with base sixteen.
* `bin2hex`, `hex2bin`.
* `hexBytes` — what pairs of digits stand for.
* `DigitPair`, `SkipPair` — the pairs of characters that are read.

## Main results

* `hex2bin_eq_true` — the lengths of what `hex2bin` accepts and writes.
* `hex2bin_of_hexBytes` — it reads pairs of digits.
* `hex2bin_bin2hex` — it reads what `bin2hex` writes.
* `hex2bin_grammar_iff` — **for which strings it accepts pairs of digits only.**
-/

namespace XmrMiner

open CString

/-- The characters of a string literal. -/
def ascii (s : String) : List Byte := s.toList.map fun c => BitVec.ofNat 8 c.toNat

/-- The digit of a value below sixteen. -/
def hexDigit (v : ℕ) : Byte := BitVec.ofNat 8 (if v < 10 then 48 + v else 87 + v)

/-- The value of a digit, of either case. -/
def hexValue (c : Byte) : Option ℕ :=
  if 48 ≤ c.toNat ∧ c.toNat ≤ 57 then some (c.toNat - 48)
  else if 97 ≤ c.toNat ∧ c.toNat ≤ 102 then some (c.toNat - 87)
  else if 65 ≤ c.toNat ∧ c.toNat ≤ 70 then some (c.toNat - 55)
  else none

/-- `isspace`. -/
def isspace (c : Byte) : Bool := c = 32 || decide (9 ≤ c.toNat ∧ c.toNat ≤ 13)

/-- `tolower`. -/
def tolower (c : Byte) : Byte := if 65 ≤ c.toNat ∧ c.toNat ≤ 90 then c + 32 else c

/-- The number in front, read on from `acc`, and the rest. -/
def readHex (acc : ℕ) : List Byte → ℕ × List Byte
  | [] => (acc, [])
  | c :: s =>
    match hexValue c with
    | some v => readHex (16 * acc + v) s
    | none => (acc, c :: s)

/-- `strtol` with base sixteen: blanks, a sign, and `0x` if a digit follows are skipped.
The second component is what `ep` points to; without a digit it is the string. -/
def strtolHex (s : List Byte) : ℤ × List Byte :=
  let t := s.dropWhile isspace
  let (neg, u) := match t with
    | c :: u => if c = 45 then (true, u) else if c = 43 then (false, u) else (false, t)
    | [] => (false, [])
  let v := match u with
    | z :: x :: d :: _ =>
      if z = 48 ∧ (x = 120 ∨ x = 88) ∧ (hexValue d).isSome then u.drop 2 else u
    | _ => u
  if (v.head?.bind hexValue).isSome then
    let (value, rest) := readHex 0 v
    (if neg then -value else value, rest)
  else (0, s)

/-- `bin2hex`: the string that is returned for one byte at least and `2 ^ 31` at most. -/
def bin2hex (bs : List Byte) : List Byte :=
  bs.flatMap fun b => [hexDigit (b.toNat / 16), hexDigit (b.toNat % 16)]

/-- `hex2bin`: the bytes written to `p`, and the value returned.  A byte is written
before it is known whether both characters were read. -/
def hex2bin : List Byte → ℕ → List Byte × Bool
  | [], len => ([], len == 0)
  | _ :: _, 0 => ([], false)
  | [_], _ + 1 => ([], false)
  | a :: b :: s, len + 1 =>
    let (value, ep) := strtolHex [a, b]
    if ep ≠ [] then ([BitVec.ofInt 8 value], false)
    else
      let (bs, ret) := hex2bin s len
      (BitVec.ofInt 8 value :: bs, ret)

@[simp] theorem length_bin2hex (bs : List Byte) : (bin2hex bs).length = 2 * bs.length := by
  induction bs with
  | nil => rfl
  | cons b bs ih =>
    rw [bin2hex, List.flatMap_cons, List.length_append, ← bin2hex, ih, List.length_cons,
      List.length_cons, List.length_cons, List.length_nil]
    omega

/-- What is accepted has two characters for each byte that is written. -/
theorem hex2bin_eq_true : ∀ {s bs : List Byte} {len : ℕ}, hex2bin s len = (bs, true) →
    bs.length = len ∧ s.length = 2 * len := by
  intro s bs len h
  induction s, len using hex2bin.induct generalizing bs with
  | case1 len =>
    simp only [hex2bin, Prod.mk.injEq, beq_iff_eq] at h
    obtain ⟨rfl, rfl⟩ := h
    exact ⟨rfl, rfl⟩
  | case2 => simp [hex2bin] at h
  | case3 => simp [hex2bin] at h
  | case4 a b s len value ep hread hep =>
    simp [hex2bin, hread, hep] at h
  | case5 a b s len value ep hread hep bs' ret hrest ih =>
    simp only [hex2bin, hread, hep, hrest, if_false, Prod.mk.injEq] at h
    obtain ⟨rfl, rfl⟩ := h
    obtain ⟨hlen, hs⟩ := ih hrest
    refine ⟨by rw [List.length_cons, hlen], ?_⟩
    rw [List.length_cons, List.length_cons, hs]
    omega

/-! ### Pairs of digits -/

/-- The bytes that pairs of digits stand for; none if there is another character, or a
digit is left over. -/
def hexBytes : List Byte → Option (List Byte)
  | [] => some []
  | [_] => none
  | a :: b :: s =>
    match hexValue a, hexValue b with
    | some u, some v => (hexBytes s).map (BitVec.ofNat 8 (16 * u + v) :: ·)
    | _, _ => none

/-- A digit is neither a blank nor a sign. -/
theorem hexValue_eq_some {c : Byte} {v : ℕ} (h : hexValue c = some v) :
    isspace c = false ∧ c ≠ 45#8 ∧ c ≠ 43#8 := by
  have hc : 48 ≤ c.toNat := by
    unfold hexValue at h
    split at h
    · next hdigit => exact hdigit.1
    split at h
    · next hlow => omega
    split at h
    · next hhigh => omega
    · cases h
  refine ⟨?_, ?_, ?_⟩
  · have hblank : c ≠ 32 := by
      rintro rfl
      exact absurd hc (by decide)
    simp only [isspace, hblank, decide_false, Bool.false_or, decide_eq_false_iff_not]
    omega
  · rintro rfl
    exact absurd hc (by decide)
  · rintro rfl
    exact absurd hc (by decide)

/-- Two digits are read as the byte that they stand for. -/
theorem strtolHex_pair {a b : Byte} {u v : ℕ} (ha : hexValue a = some u)
    (hb : hexValue b = some v) : strtolHex [a, b] = (((16 * u + v : ℕ) : ℤ), []) := by
  obtain ⟨hspace, hminus, hplus⟩ := hexValue_eq_some ha
  simp [strtolHex, hspace, hminus, hplus, ha, hb, readHex]

/-- **`hex2bin` reads pairs of digits.** -/
theorem hex2bin_of_hexBytes {s bs : List Byte} (h : hexBytes s = some bs) :
    hex2bin s bs.length = (bs, true) := by
  induction s using hexBytes.induct generalizing bs with
  | case1 =>
    obtain rfl : [] = bs := Option.some.inj h
    rfl
  | case2 => cases h
  | case3 a b s u v hb ha ih =>
    rw [hexBytes, ha, hb] at h
    obtain ⟨bs', hrest, rfl⟩ := Option.map_eq_some_iff.mp h
    rw [List.length_cons, hex2bin, strtolHex_pair ha hb, ih hrest]
    simp only [ne_eq, not_true_eq_false, if_false, BitVec.ofInt_natCast]
  | case4 a b s hdigits =>
    rw [hexBytes] at h
    split at h
    · next u v ha hb => exact absurd hb (hdigits u v ha)
    · cases h

/-- Two digits are read as a byte. -/
theorem strtolHex_digits (b : Byte) :
    strtolHex [hexDigit (b.toNat / 16), hexDigit (b.toNat % 16)] = ((b.toNat : ℤ), []) := by
  revert b
  decide +kernel

/-- **What `bin2hex` writes is read back.** -/
theorem hex2bin_bin2hex (bs : List Byte) : hex2bin (bin2hex bs) bs.length = (bs, true) := by
  induction bs with
  | nil => rfl
  | cons b bs ih =>
    have hcons : bin2hex (b :: bs) =
        hexDigit (b.toNat / 16) :: hexDigit (b.toNat % 16) :: bin2hex bs := rfl
    -- the conversion to a byte loses nothing of two digits
    have hbyte : BitVec.ofInt 8 (b.toNat : ℤ) = b := by
      rw [BitVec.ofInt_natCast, BitVec.ofNat_toNat, BitVec.setWidth_eq]
    rw [hcons, List.length_cons, hex2bin, strtolHex_digits, ih]
    simp only [ne_eq, not_true_eq_false, if_false, hbyte]

/-! ### What is accepted -/

/-- A digit of base sixteen, of either case. -/
def IsHexDigit (c : Byte) : Prop := (hexValue c).isSome = true

instance : DecidablePred IsHexDigit := fun _ => inferInstanceAs (Decidable (_ = _))

/-- The pairs of characters of a string. -/
def charPairs : List Byte → List (Byte × Byte)
  | a :: b :: s => (a, b) :: charPairs s
  | _ => []

/-- Two digits. -/
def DigitPair (p : Byte × Byte) : Prop := IsHexDigit p.1 ∧ IsHexDigit p.2

/-- A blank or a sign, which `strtol` skips, and a digit. -/
def SkipPair (p : Byte × Byte) : Prop :=
  (isspace p.1 = true ∨ p.1 = 43 ∨ p.1 = 45) ∧ IsHexDigit p.2

/-- A blank or a sign is not a digit. -/
theorem SkipPair.not_digit {p : Byte × Byte} (h : SkipPair p) : ¬ IsHexDigit p.1 := by
  intro hdigit
  obtain ⟨v, hv⟩ := Option.isSome_iff_exists.mp hdigit
  obtain ⟨hspace, hminus, hplus⟩ := hexValue_eq_some hv
  rcases h.1 with h | h | h
  · rw [h] at hspace
    cases hspace
  · exact hplus h
  · exact hminus h

/-- One digit is read to its end. -/
theorem readHex_singleton (acc : ℕ) (b : Byte) :
    (readHex acc [b]).2 = [] ↔ IsHexDigit b := by
  unfold IsHexDigit
  cases h : hexValue b <;> simp [readHex, h]

/-- A character alone, behind what was skipped. -/
theorem strtolHex_skip {a b : Byte} (h : isspace a = true ∨ a = 43#8 ∨ a = 45#8) :
    (strtolHex [a, b]).2 = [] ↔ IsHexDigit b := by
  unfold IsHexDigit
  cases hb : hexValue b with
  | none =>
    rcases h with hspace | rfl | rfl
    · rcases Bool.eq_false_or_eq_true (isspace b) with hblank | hblank
      · simp [strtolHex, hspace, hblank]
      · -- neither a second sign nor another character is read
        by_cases hminus : b = 45#8
        · subst hminus
          simp [strtolHex, hspace, hblank]
        · by_cases hplus : b = 43#8
          · subst hplus
            simp [strtolHex, hspace, hblank]
          · simp [strtolHex, hspace, hblank, hminus, hplus, hb]
    · simp [strtolHex, isspace, hb]
    · simp [strtolHex, isspace, hb]
  | some v =>
    obtain ⟨hblank, hminus, hplus⟩ := hexValue_eq_some hb
    rcases h with hspace | rfl | rfl
    · simp [strtolHex, hspace, hblank, hminus, hplus, hb, readHex]
    · simp [strtolHex, isspace, hb, readHex]
    · simp [strtolHex, isspace, hb, readHex]

/-- **A pair that `strtol` reads to its end** is two digits, or a blank or a sign and a
digit. -/
theorem strtolHex_pair_iff (a b : Byte) :
    (strtolHex [a, b]).2 = [] ↔ DigitPair (a, b) ∨ SkipPair (a, b) := by
  by_cases hskip : isspace a = true ∨ a = 43#8 ∨ a = 45#8
  · rw [strtolHex_skip hskip]
    constructor
    · intro hb
      exact Or.inr ⟨hskip, hb⟩
    · rintro (h | h)
      · exact h.2
      · exact h.2
  · have hpair : DigitPair (a, b) ∨ SkipPair (a, b) ↔ IsHexDigit a ∧ IsHexDigit b :=
      or_iff_left fun h => hskip h.1
    rw [hpair]
    obtain ⟨hspace, hplus, hminus⟩ : isspace a = false ∧ a ≠ 43#8 ∧ a ≠ 45#8 := by
      simpa only [not_or, Bool.not_eq_true] using hskip
    cases ha : hexValue a with
    | none => simp [strtolHex, hspace, hplus, hminus, ha, IsHexDigit]
    | some u =>
      have hread : (strtolHex [a, b]).2 = (readHex 0 [a, b]).2 := by
        simp [strtolHex, hspace, hplus, hminus, ha]
      rw [hread, readHex, ha]
      simp only [readHex_singleton, IsHexDigit, ha, Option.isSome_some, true_and]

/-- The string is read up to its end if each of its pairs is. -/
theorem hex2bin_snd_iff (s : List Byte) (len : ℕ) :
    (hex2bin s len).2 = true ↔
      s.length = 2 * len ∧ ∀ p ∈ charPairs s, DigitPair p ∨ SkipPair p := by
  induction s, len using hex2bin.induct with
  | case1 len =>
    simp only [hex2bin, charPairs, beq_iff_eq, List.length_nil, List.not_mem_nil, false_imp_iff,
      implies_true, and_true]
    omega
  | case2 a s => simp [hex2bin]
  | case3 a len =>
    simp only [hex2bin, List.length_singleton, Bool.false_eq_true, false_iff, not_and]
    omega
  | case4 a b s len value ep hread hep =>
    have hpair : ¬ (DigitPair (a, b) ∨ SkipPair (a, b)) := by
      rwa [← strtolHex_pair_iff, hread]
    simp only [hex2bin, hread, hep, ne_eq, not_false_eq_true, if_true, charPairs,
      List.forall_mem_cons, hpair, false_and, and_false, Bool.false_eq_true]
  | case5 a b s len value ep hread hep bs' ret hrest ih =>
    have hpair : DigitPair (a, b) ∨ SkipPair (a, b) := by
      rw [← strtolHex_pair_iff, hread]
      exact not_not.mp hep
    simp only [hex2bin, hread, hep, hrest, if_false, charPairs, List.forall_mem_cons, hpair,
      true_and, List.length_cons]
    rw [hrest] at ih
    rw [ih]
    exact and_congr_left' (by omega)

/-- All pairs are digits if all characters are. -/
theorem digitPairs_iff {len : ℕ} {s : List Byte} (h : s.length = 2 * len) :
    (∀ p ∈ charPairs s, DigitPair p) ↔ ∀ c ∈ s, IsHexDigit c := by
  induction s using charPairs.induct generalizing len with
  | case1 a b s ih =>
    have hs : s.length = 2 * (len - 1) := by
      simp only [List.length_cons] at h
      omega
    rw [charPairs, List.forall_mem_cons, List.forall_mem_cons, List.forall_mem_cons, ih hs,
      DigitPair, and_assoc]
  | case2 s hs =>
    match s with
    | [] => simp [charPairs]
    | [_] =>
      simp only [List.length_singleton] at h
      omega
    | a :: b :: s => exact absurd rfl (hs a b s)

/-- Then they stand for as many bytes as there are pairs. -/
theorem exists_hexBytes {len : ℕ} {s : List Byte} (h : s.length = 2 * len)
    (hdigits : ∀ c ∈ s, IsHexDigit c) : ∃ bs, hexBytes s = some bs ∧ bs.length = len := by
  induction len generalizing s with
  | zero =>
    obtain rfl := List.length_eq_zero_iff.mp h
    exact ⟨[], rfl, rfl⟩
  | succ len ih =>
    match s with
    | [] => cases h
    | [_] =>
      simp only [List.length_singleton] at h
      omega
    | a :: b :: s =>
      simp only [List.length_cons] at h
      obtain ⟨bs, hbs, hlen⟩ := ih (s := s) (by omega) fun c hc =>
        hdigits c (List.mem_cons_of_mem _ (List.mem_cons_of_mem _ hc))
      obtain ⟨u, hu⟩ := Option.isSome_iff_exists.mp (hdigits a List.mem_cons_self)
      obtain ⟨v, hv⟩ := Option.isSome_iff_exists.mp
        (hdigits b (List.mem_cons_of_mem _ List.mem_cons_self))
      refine ⟨BitVec.ofNat 8 (16 * u + v) :: bs, ?_, by rw [List.length_cons, hlen]⟩
      rw [hexBytes, hu, hv, hbs]
      rfl

/-- **`hex2bin` accepts the pairs of digits**, as many as there are bytes, and writes what
they stand for, if and only if the string has another length, or a pair that `strtol`
does not read to its end, or no blank and no sign. -/
theorem hex2bin_grammar_iff (s : List Byte) (len : ℕ) :
    (((hex2bin s len).2 = true ↔ s.length = 2 * len ∧ ∀ c ∈ s, IsHexDigit c) ∧
        ((hex2bin s len).2 = true → hexBytes s = some (hex2bin s len).1)) ↔
      s.length ≠ 2 * len ∨ (∃ p ∈ charPairs s, ¬ DigitPair p ∧ ¬ SkipPair p) ∨
        ∀ p ∈ charPairs s, ¬ SkipPair p := by
  rw [hex2bin_snd_iff]
  by_cases hlen : s.length = 2 * len
  · simp only [hlen, true_and, ne_eq, not_true_eq_false, false_or, ← digitPairs_iff hlen]
    constructor
    · rintro ⟨hiff, -⟩
      by_cases hread : ∀ p ∈ charPairs s, DigitPair p ∨ SkipPair p
      · exact Or.inr fun p hp hskip => hskip.not_digit (hiff.mp hread p hp).1
      · left
        push Not at hread
        exact hread
    · intro h
      have hdigits : (∀ p ∈ charPairs s, DigitPair p ∨ SkipPair p) →
          ∀ p ∈ charPairs s, DigitPair p := by
        intro hread p hp
        rcases h with ⟨q, hq, hdigit, hskip⟩ | hnone
        · exact ((hread q hq).elim hdigit hskip).elim
        · exact (hread p hp).resolve_right (hnone p hp)
      refine ⟨⟨hdigits, fun hall p hp => Or.inl (hall p hp)⟩, fun hread => ?_⟩
      obtain ⟨bs, hbs, rfl⟩ := exists_hexBytes hlen ((digitPairs_iff hlen).mp (hdigits hread))
      rw [hbs, hex2bin_of_hexBytes hbs]
  · simp [hlen]

/-- A blank and a plus sign are taken for a digit zero, a minus sign changes the byte. -/
theorem hex2bin_accepts_signs :
    hex2bin (ascii " 1+1-1") 3 = ([1, 1, 255], true) ∧
      ¬ ∀ c ∈ ascii " 1+1-1", IsHexDigit c := by
  decide +kernel

end XmrMiner
