import XmrMiner.Util.Hex

/-!
# Hexadecimal strings in memory

`bin2hex` allocates two bytes for each byte and one for the terminator, and has `sprintf`
write the digits of one byte after the other, with a terminator behind them that the next
digits overwrite.  Its counter is an `unsigned int`, though the number of bytes is a
`size_t`, and so is the offset that is computed from it: the offset wraps around behind
`2 ^ 31` bytes, and the counter behind `2 ^ 32`.  For no bytes at all nothing is written.

## Main definitions

* `bin2hexLoop`, `bin2hexBuf` — `bin2hex` in memory.
* `EncodeDecode`, `DecodeEncode` — what is encoded is decoded again, and conversely.

## Main results

* `bin2hexLoop_rounds` — what the rounds up to the wrap of the offset write.
* `bin2hexBuf_of_fits`, `length_ne_of_not_fits` — the string that is returned.
* `hexRoundTrips_iff` — **when encoding and decoding undo each other.**
-/

namespace XmrMiner

open CString

/-! ### The loop -/

/-- `malloc`: the contents are what lies there. -/
def malloc (fresh : ℕ → Byte) (size : ℕ) : List Byte := (List.range size).map fresh

/-- The loop of `bin2hex` from the counter `i` on.  None if it is not left within so many
rounds, or writes behind the allocation. -/
def bin2hexLoop (p : List Byte) : ℕ → BitVec 32 → List Byte → Option (List Byte)
  | 0, _, _ => none
  | rounds + 1, i, s =>
    match p[i.toNat]? with
    | some b => (strcpy s (i * 2).toNat (bin2hex [b])).bind (bin2hexLoop p rounds (i + 1))
    | none => some s

/-- `bin2hex` in memory: the allocation that is returned after so many rounds. -/
def bin2hexBuf (fresh : ℕ → Byte) (p : List Byte) (rounds : ℕ) : Option (List Byte) :=
  bin2hexLoop p rounds 0 (malloc fresh (2 * p.length + 1))

/-- What `bin2hex` returns for `p` is read by `hex2bin` as `p`. -/
def EncodeDecode (fresh : ℕ → Byte) (p : List Byte) : Prop :=
  ∃ rounds s, bin2hexBuf fresh p rounds = some s ∧ hex2bin (str s) p.length = (p, true)

/-- The bytes that `hex2bin` reads from `s` are written by `bin2hex` as `s`. -/
def DecodeEncode (fresh : ℕ → Byte) (s : List Byte) (len : ℕ) : Prop :=
  ∃ bs, hex2bin s len = (bs, true) ∧ ∃ rounds t, bin2hexBuf fresh bs rounds = some t ∧ str t = s

/-- A number of bytes for which `bin2hex` works: the offset does not wrap around, and there
is a byte, or a terminator in the allocation from the start. -/
def HexFits (fresh : ℕ → Byte) (len : ℕ) : Prop := (0 < len ∨ fresh 0 = nul) ∧ len ≤ 2 ^ 31

/-- A digit as `bin2hex` writes it. -/
def IsLowerHexDigit (c : Byte) : Prop :=
  48 ≤ c.toNat ∧ c.toNat ≤ 57 ∨ 97 ≤ c.toNat ∧ c.toNat ≤ 102

/-! ### The rounds -/

@[simp] theorem length_malloc (fresh : ℕ → Byte) (size : ℕ) :
    (malloc fresh size).length = size := by
  simp [malloc]

@[simp] theorem bin2hex_nil : bin2hex [] = [] := rfl

theorem bin2hex_append (p q : List Byte) : bin2hex (p ++ q) = bin2hex p ++ bin2hex q :=
  List.flatMap_append

theorem nul_notMem_bin2hex (p : List Byte) : nul ∉ bin2hex p := by
  have hdigit : ∀ v < 16, hexDigit v ≠ nul := by decide
  intro h
  obtain ⟨b, -, hb⟩ := List.mem_flatMap.mp h
  have hb' := b.isLt
  simp only [List.mem_cons, List.not_mem_nil, or_false] at hb
  rcases hb with hb | hb
  · exact hdigit _ (by omega) hb.symm
  · exact hdigit _ (by omega) hb.symm

/-- Digits behind those of `q`, with their terminator. -/
theorem strcpy_bin2hex (q : List Byte) (b : Byte) {rest : List Byte} (h : 3 ≤ rest.length) :
    strcpy (bin2hex q ++ rest) (2 * q.length) (bin2hex [b]) =
      some (bin2hex (q ++ [b]) ++ nul :: rest.drop 3) := by
  have hlen : (bin2hex [b] ++ [nul]).length = 3 := by simp
  rw [strcpy, ← length_bin2hex, store_append _ _ _ (by omega), hlen, bin2hex_append]
  simp

/-- The offset, in units of two bytes: it starts again from zero behind `2 ^ 31` rounds. -/
theorem toNat_offset {base k : ℕ} (hbase : base % 2 ^ 31 = 0) (hk : k < 2 ^ 31) :
    (BitVec.ofNat 32 (base + k) * 2).toNat = 2 * k := by
  rw [BitVec.toNat_mul, BitVec.toNat_ofNat]
  have htwo : (2 : BitVec 32).toNat = 2 := rfl
  rw [htwo]
  omega

section Loop

variable {p : List Byte} {base : ℕ}

/-- One round: the digits of the next byte. -/
theorem bin2hexLoop_succ (hbase : base % 2 ^ 31 = 0) (hp : p.length < 2 ^ 32) {q rest : List Byte}
    (hq : q.length < 2 ^ 31) (hlt : base + q.length < p.length) (hrest : 3 ≤ rest.length)
    (n : ℕ) :
    bin2hexLoop p (n + 1) (BitVec.ofNat 32 (base + q.length)) (bin2hex q ++ rest) =
      bin2hexLoop p n (BitVec.ofNat 32 (base + q.length + 1))
        (bin2hex (q ++ [p[base + q.length]]) ++ nul :: rest.drop 3) := by
  have hread : p[(BitVec.ofNat 32 (base + q.length)).toNat]? = some p[base + q.length] := by
    rw [BitVec.toNat_ofNat, Nat.mod_eq_of_lt (by omega), List.getElem?_eq_getElem hlt]
  have hnext : BitVec.ofNat 32 (base + q.length) + 1 = BitVec.ofNat 32 (base + q.length + 1) :=
    (BitVec.ofNat_add _ 1).symm
  rw [bin2hexLoop, hread]
  simp only [toNat_offset hbase hq, strcpy_bin2hex q _ hrest, Option.bind_some, hnext]

/-- **Some rounds**: as long as the offset does not wrap around, the digits of the bytes from
`base` on stand in a row, and are terminated. -/
theorem bin2hexLoop_rounds (hbase : base % 2 ^ 31 = 0) (hp : p.length < 2 ^ 32) (n : ℕ) :
    ∀ (m : ℕ) (q rest : List Byte), q.length + m ≤ 2 ^ 31 → base + q.length + m ≤ p.length →
      2 * m < rest.length →
      ∃ rest', bin2hexLoop p (m + n) (BitVec.ofNat 32 (base + q.length)) (bin2hex q ++ rest) =
          bin2hexLoop p n (BitVec.ofNat 32 (base + q.length + m))
            (bin2hex (q ++ (p.drop (base + q.length)).take m) ++ rest') ∧
        rest'.length + 2 * m = rest.length ∧
        rest'.head? = if m = 0 then rest.head? else some nul := by
  intro m
  induction m with
  | zero => exact fun q rest _ _ _ => ⟨rest, by simp, rfl, rfl⟩
  | succ m ih =>
    intro q rest hq hlen hrest
    have hlt : base + q.length < p.length := by omega
    have hsnoc : (q ++ [p[base + q.length]]).length = q.length + 1 := by simp
    have hdrop : (nul :: rest.drop 3).length + 2 = rest.length := by
      rw [List.length_cons, List.length_drop]
      omega
    obtain ⟨rest', hrun, hlen', hhead⟩ := ih (q ++ [p[base + q.length]]) (nul :: rest.drop 3)
      (by omega) (by omega) (by omega)
    rw [hsnoc] at hrun
    refine ⟨rest', ?_, by omega, ?_⟩
    · have hround := bin2hexLoop_succ hbase hp (by omega) hlt (by omega : 3 ≤ rest.length) (m + n)
      rw [Nat.add_right_comm m 1 n, hround, Nat.add_assoc, hrun, List.drop_eq_getElem_cons hlt,
        List.take_succ_cons, List.append_assoc, List.singleton_append]
      congr 2
      omega
    · rw [hhead]
      split <;> simp

/-- **The last rounds**, in which the offset starts from zero and does not wrap around: the
digits of the bytes from `base` on are the string that is left. -/
theorem bin2hexLoop_last (hbase : base % 2 ^ 31 = 0) (hp : p.length < 2 ^ 32)
    (hlt : base < p.length) (hup : p.length ≤ base + 2 ^ 31) {s : List Byte}
    (hs : 2 * (p.length - base) < s.length) :
    ∃ s', bin2hexLoop p (p.length - base + 1) (BitVec.ofNat 32 base) s = some s' ∧
      str s' = bin2hex (p.drop base) := by
  obtain ⟨rest, hrun, -, hhead⟩ := bin2hexLoop_rounds hbase hp 1 (p.length - base) [] s
    (by rw [List.length_nil]; omega) (by rw [List.length_nil]; omega) hs
  obtain ⟨rest, rfl⟩ : ∃ rest', rest = nul :: rest' := by
    rw [if_neg (by omega)] at hhead
    cases rest with
    | nil => cases hhead
    | cons b rest => exact ⟨rest, by rw [Option.some.inj hhead]⟩
  refine ⟨bin2hex (p.drop base) ++ nul :: rest, ?_, str_append (nul_notMem_bin2hex _) _⟩
  have hend : base + (p.length - base) = p.length := by omega
  have hall : (p.drop base).take (p.length - base) = p.drop base :=
    List.take_of_length_le (by rw [List.length_drop])
  have hlast : p[(BitVec.ofNat 32 p.length).toNat]? = none := by
    rw [BitVec.toNat_ofNat, Nat.mod_eq_of_lt hp, List.getElem?_eq_none_iff]
  simp only [List.length_nil, Nat.add_zero, bin2hex_nil, List.nil_append, hend, hall] at hrun
  rw [hrun, bin2hexLoop, hlast]

/-- The loop is left in one way only. -/
theorem bin2hexLoop_unique : ∀ (m n : ℕ) (i : BitVec 32) (s t t' : List Byte),
    bin2hexLoop p m i s = some t → bin2hexLoop p n i s = some t' → t = t' := by
  intro m
  induction m with
  | zero => exact fun _ _ _ _ _ h => by cases h
  | succ m ih =>
    intro n i s t t' h h'
    cases n with
    | zero => cases h'
    | succ n =>
      rw [bin2hexLoop] at h h'
      cases hread : p[i.toNat]? with
      | none =>
        simp only [hread, Option.some.injEq] at h h'
        rw [← h, ← h']
      | some b =>
        simp only [hread] at h h'
        obtain ⟨s₁, hs₁, h⟩ := Option.bind_eq_some_iff.mp h
        obtain ⟨s₂, hs₂, h'⟩ := Option.bind_eq_some_iff.mp h'
        obtain rfl := Option.some.inj (hs₁.symm.trans hs₂)
        exact ih n _ _ _ _ h h'

/-- Of `2 ^ 32` bytes there is always a next one. -/
theorem bin2hexLoop_endless (hp : 2 ^ 32 ≤ p.length) (n : ℕ) : ∀ (i : BitVec 32) (s : List Byte),
    bin2hexLoop p n i s = none := by
  induction n with
  | zero => exact fun _ _ => rfl
  | succ n ih =>
    intro i s
    have hi := i.isLt
    rw [bin2hexLoop, List.getElem?_eq_getElem (by omega)]
    simp only [Option.bind_eq_none_iff]
    exact fun s' _ => ih _ s'

end Loop

/-! ### What is returned -/

section Buffer

variable {fresh : ℕ → Byte} {p s : List Byte} {rounds : ℕ}

/-- The digits of the bytes behind the last wrap of the offset, at most `2 ^ 31` of them. -/
theorem bin2hexBuf_spec (fresh : ℕ → Byte) (hpos : 0 < p.length) (hp : p.length < 2 ^ 32) :
    ∃ s, bin2hexBuf fresh p (p.length + 1) = some s ∧
      str s = bin2hex (p.drop (if p.length ≤ 2 ^ 31 then 0 else 2 ^ 31)) := by
  generalize hbase : (if p.length ≤ 2 ^ 31 then 0 else 2 ^ 31) = base
  have hbounds :
      base % 2 ^ 31 = 0 ∧ base ≤ 2 ^ 31 ∧ base < p.length ∧ p.length ≤ base + 2 ^ 31 := by
    subst hbase
    split <;> omega
  obtain ⟨hmod, hle, hlt, hup⟩ := hbounds
  -- the rounds up to the wrap, and those behind it
  have hzero : 0 % 2 ^ 31 = 0 := rfl
  obtain ⟨rest, hfirst, hlen, -⟩ := bin2hexLoop_rounds hzero hp (p.length - base + 1) base []
    (malloc fresh (2 * p.length + 1)) (by rw [List.length_nil]; omega)
    (by rw [List.length_nil]; omega) (by rw [length_malloc]; omega)
  rw [length_malloc] at hlen
  obtain ⟨s, hlast, hstr⟩ := bin2hexLoop_last hmod hp hlt hup
    (show _ < (bin2hex (p.take base) ++ rest).length by
      rw [List.length_append, length_bin2hex, List.length_take]; omega)
  refine ⟨s, ?_, hstr⟩
  have hcount : base + (p.length - base + 1) = p.length + 1 := by omega
  simp only [List.length_nil, Nat.zero_add, bin2hex_nil, List.nil_append, List.drop_zero,
    hcount] at hfirst
  exact hfirst.trans hlast

/-- For no bytes nothing is written. -/
theorem bin2hexBuf_nil (h : bin2hexBuf fresh [] rounds = some s) : s = [fresh 0] := by
  cases rounds with
  | zero => cases h
  | succ rounds => exact (Option.some.inj h).symm

/-- **The string is returned** for a number of bytes that fits. -/
theorem bin2hexBuf_of_fits (hfits : HexFits fresh p.length) :
    ∃ rounds s, bin2hexBuf fresh p rounds = some s ∧ str s = bin2hex p := by
  obtain ⟨hsome, hle⟩ := hfits
  rcases Nat.eq_zero_or_pos p.length with hzero | hpos
  · obtain rfl := List.length_eq_zero_iff.mp hzero
    have hterm := hsome.resolve_left (lt_irrefl 0)
    exact ⟨1, [fresh 0], rfl, by simp [str, hterm]⟩
  · obtain ⟨s, hs, hstr⟩ := bin2hexBuf_spec fresh hpos (by omega)
    rw [if_pos hle] at hstr
    exact ⟨_, s, hs, hstr⟩

/-- Otherwise the string that is returned, if any, is too long or too short. -/
theorem length_ne_of_not_fits (hfits : ¬ HexFits fresh p.length)
    (h : bin2hexBuf fresh p rounds = some s) : (str s).length ≠ 2 * p.length := by
  rcases Nat.eq_zero_or_pos p.length with hzero | hpos
  · obtain rfl := List.length_eq_zero_iff.mp hzero
    have hterm : fresh 0 ≠ nul := fun hterm => hfits ⟨Or.inr hterm, Nat.zero_le _⟩
    rw [bin2hexBuf_nil h]
    simp [str, hterm]
  · have hlong : 2 ^ 31 < p.length := not_le.mp fun hle => hfits ⟨Or.inl hpos, hle⟩
    rcases Nat.lt_or_ge p.length (2 ^ 32) with hlt | hge
    · obtain ⟨t, ht, hstr⟩ := bin2hexBuf_spec fresh hpos hlt
      obtain rfl := bin2hexLoop_unique _ _ _ _ _ _ h ht
      rw [hstr, if_neg (not_le.mpr hlong), length_bin2hex, List.length_drop]
      omega
    · rw [bin2hexBuf, bin2hexLoop_endless hge] at h
      cases h

end Buffer

/-! ### The digits of what was read -/

/-- A digit as `bin2hex` writes it is the digit of its value. -/
theorem hexDigit_of_lower {c : Byte} (hc : IsLowerHexDigit c) :
    ∃ v < 16, hexValue c = some v ∧ hexDigit v = c := by
  rcases hc with hdigit | hletter
  · refine ⟨c.toNat - 48, by omega, if_pos hdigit, ?_⟩
    apply BitVec.eq_of_toNat_eq
    rw [hexDigit, if_pos (by omega), BitVec.toNat_ofNat]
    omega
  · refine ⟨c.toNat - 87, by omega, ?_, ?_⟩
    · rw [hexValue, if_neg (by omega), if_pos hletter]
    · apply BitVec.eq_of_toNat_eq
      rw [hexDigit, if_neg (by omega), BitVec.toNat_ofNat]
      omega

/-- The byte that two digits stand for has these digits. -/
theorem bin2hex_pair {u v : ℕ} (hu : u < 16) (hv : v < 16) (bs : List Byte) :
    bin2hex (BitVec.ofNat 8 (16 * u + v) :: bs) = hexDigit u :: hexDigit v :: bin2hex bs := by
  have hbyte : (BitVec.ofNat 8 (16 * u + v)).toNat = 16 * u + v := by
    rw [BitVec.toNat_ofNat]
    omega
  have hhigh : (16 * u + v) / 16 = u := by omega
  have hlow : (16 * u + v) % 16 = v := by omega
  rw [bin2hex, List.flatMap_cons, hbyte, hhigh, hlow]
  rfl

/-- **The digits are those that the bytes were read from.** -/
theorem bin2hex_of_hexBytes {s bs : List Byte} (hs : hexBytes s = some bs)
    (hlower : ∀ c ∈ s, IsLowerHexDigit c) : bin2hex bs = s := by
  induction s using hexBytes.induct generalizing bs with
  | case1 =>
    obtain rfl := Option.some.inj hs
    rfl
  | case2 => cases hs
  | case3 a b s u v hv hu ih =>
    simp only [List.forall_mem_cons] at hlower
    obtain ⟨u', hu16, hu', ha⟩ := hexDigit_of_lower hlower.1
    obtain ⟨v', hv16, hv', hb⟩ := hexDigit_of_lower hlower.2.1
    obtain rfl := Option.some.inj (hu.symm.trans hu')
    obtain rfl := Option.some.inj (hv.symm.trans hv')
    rw [hexBytes, hu, hv] at hs
    obtain ⟨bs', hbs', rfl⟩ := Option.map_eq_some_iff.mp hs
    rw [bin2hex_pair hu16 hv16, ha, hb, ih hbs' hlower.2.2]
  | case4 a b s hdigits =>
    rw [hexBytes] at hs
    split at hs
    · next u v hu hv => exact absurd hv (hdigits u v hu)
    · cases hs

/-- A lower-case digit is a digit. -/
theorem IsLowerHexDigit.isHexDigit {c : Byte} (hc : IsLowerHexDigit c) : IsHexDigit c := by
  obtain ⟨v, -, hv, -⟩ := hexDigit_of_lower hc
  rw [IsHexDigit, hv]
  rfl

/-- **Encoding and decoding undo each other** if and only if the number of bytes fits: it is at
most `2 ^ 31`, and not zero, unless a zero byte lies in the allocation. -/
theorem hexRoundTrips_iff (fresh : ℕ → Byte) :
    (∀ p, EncodeDecode fresh p ↔ HexFits fresh p.length) ∧
      ∀ s len, s.length = 2 * len → (∀ c ∈ s, IsLowerHexDigit c) →
        (DecodeEncode fresh s len ↔ HexFits fresh len) := by
  refine ⟨fun p => ⟨?_, fun hfits => ?_⟩, fun s len hlen hlower => ⟨?_, fun hfits => ?_⟩⟩
  · rintro ⟨rounds, s, hs, hread⟩
    by_contra hfits
    exact length_ne_of_not_fits hfits hs (hex2bin_eq_true hread).2
  · obtain ⟨rounds, s, hs, hstr⟩ := bin2hexBuf_of_fits hfits
    exact ⟨rounds, s, hs, by rw [hstr, hex2bin_bin2hex]⟩
  · rintro ⟨bs, hread, rounds, t, ht, rfl⟩
    obtain ⟨rfl, -⟩ := hex2bin_eq_true hread
    by_contra hfits
    exact length_ne_of_not_fits hfits ht hlen
  · obtain ⟨bs, hbs, rfl⟩ := exists_hexBytes hlen fun c hc => (hlower c hc).isHexDigit
    obtain ⟨rounds, t, ht, hstr⟩ := bin2hexBuf_of_fits hfits
    exact ⟨bs, hex2bin_of_hexBytes hbs, rounds, t, ht, by rw [hstr, bin2hex_of_hexBytes hbs hlower]⟩

/-- Two bytes, and their digits. -/
theorem hexRoundTrips_two :
    EncodeDecode (fun _ => 7) [0x0a, 0xf1] ∧ DecodeEncode (fun _ => 7) (ascii "0af1") 2 := by
  have htrips := hexRoundTrips_iff fun _ => 7
  have hfits : HexFits (fun _ => 7) 2 := ⟨Or.inl (by decide), by decide⟩
  exact ⟨(htrips.1 [0x0a, 0xf1]).mpr hfits,
    (htrips.2 (ascii "0af1") 2 rfl (by simp only [IsLowerHexDigit]; decide +kernel)).mpr hfits⟩

/-- No byte: the string is not terminated. -/
theorem empty_not_terminated : ¬ ∀ (fresh : ℕ → Byte) (p : List Byte), EncodeDecode fresh p := by
  intro h
  obtain ⟨rounds, s, hs, hread⟩ := h (fun _ => 7) []
  rw [bin2hexBuf_nil hs] at hread
  exact absurd hread (by decide)

end XmrMiner
