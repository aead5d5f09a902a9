import XmrMiner.Stratum.Json
import XmrMiner.Util.Hex

/-!
# Texts of JSON values

The decoder is that of the JSON library, with the flag that refuses an object in which a key
occurs twice.  A text has to be an object or an array, with blanks only behind it.  A string
must not contain a control character; a byte from 128 on stands for itself, as the strings
in question are UTF-8 already.  A number with a fraction or an exponent is the number it
denotes, before it is rounded.

Each call uses up a character, so that the length of the text is enough fuel.

## Main definitions

* `scanString` — the characters of a string up to the quotation mark.
* `jsonValue`, `decodeText`.
* `Plain` — the characters that stand for themselves.

## Main results

* `scanString_plain` — a plain string is read as it is.
* `plain_of_scanString` — no other string is.
-/

namespace XmrMiner

/-! ### Characters -/

/-- The quotation mark. -/
def quote : Byte := 34

/-- The backslash. -/
def backslash : Byte := 92

/-- The blank. -/
def space : Byte := 32

/-- The comma. -/
def comma : Byte := 44

/-- The colon. -/
def colon : Byte := 58

/-- The brace that opens an object. -/
def openBrace : Byte := 123

/-- The brace that closes it. -/
def closeBrace : Byte := 125

/-- The bracket that opens an array. -/
def openBracket : Byte := 91

/-- The bracket that closes it. -/
def closeBracket : Byte := 93

/-- The blanks between tokens. -/
def isBlank (c : Byte) : Bool := c = 32 || c = 9 || c = 10 || c = 13

/-- `l_isdigit`. -/
def isDigit (c : Byte) : Bool := 48 ≤ c.toNat && c.toNat ≤ 57

/-- `l_isalpha`. -/
def isAlpha (c : Byte) : Bool :=
  65 ≤ c.toNat && c.toNat ≤ 90 || 97 ≤ c.toNat && c.toNat ≤ 122

/-- The text from the next token on. -/
def skipBlanks (text : List Byte) : List Byte := text.dropWhile isBlank

/-- The text behind a token of one character. -/
def expect (b : Byte) (text : List Byte) : Option (List Byte) :=
  match skipBlanks text with
  | [] => none
  | c :: rest => if c = b then some rest else none

/-! ### Strings -/

/-- `utf8_encode`, for a code point in its range. -/
def utf8Encode (codepoint : ℕ) : List Byte :=
  if codepoint < 0x80 then [BitVec.ofNat 8 codepoint]
  else if codepoint < 0x800 then
    [BitVec.ofNat 8 (0xC0 + codepoint / 0x40), BitVec.ofNat 8 (0x80 + codepoint % 0x40)]
  else if codepoint < 0x10000 then
    [BitVec.ofNat 8 (0xE0 + codepoint / 0x1000), BitVec.ofNat 8 (0x80 + codepoint / 0x40 % 0x40),
      BitVec.ofNat 8 (0x80 + codepoint % 0x40)]
  else
    [BitVec.ofNat 8 (0xF0 + codepoint / 0x40000),
      BitVec.ofNat 8 (0x80 + codepoint / 0x1000 % 0x40),
      BitVec.ofNat 8 (0x80 + codepoint / 0x40 % 0x40), BitVec.ofNat 8 (0x80 + codepoint % 0x40)]

/-- `decode_unicode_escape`: four digits, and the rest. -/
def scanHex4 : List Byte → Option (ℕ × List Byte)
  | a :: b :: c :: d :: rest =>
    match hexValue a, hexValue b, hexValue c, hexValue d with
    | some a, some b, some c, some d => some (((a * 16 + b) * 16 + c) * 16 + d, rest)
    | _, _, _, _ => none
  | _ => none

/-- The second half of a surrogate pair. -/
def scanSurrogate (value : ℕ) : List Byte → Option (List Byte × List Byte)
  | s :: u :: rest =>
    if s = backslash ∧ u = 117 then
      (scanHex4 rest).bind fun r =>
        if 0xDC00 ≤ r.1 ∧ r.1 ≤ 0xDFFF then
          some (utf8Encode ((value - 0xD800) * 0x400 + (r.1 - 0xDC00) + 0x10000), r.2)
        else none
    else none
  | _ => none

/-- What follows `\u`. -/
def scanUnicode (text : List Byte) : Option (List Byte × List Byte) :=
  (scanHex4 text).bind fun r =>
    if 0xD800 ≤ r.1 ∧ r.1 ≤ 0xDBFF then scanSurrogate r.1 r.2
    else if 0xDC00 ≤ r.1 ∧ r.1 ≤ 0xDFFF then none
    else if r.1 = 0 then none
    else some (utf8Encode r.1, r.2)

/-- The escapes of one letter. -/
def shortEscape (c : Byte) : Option Byte :=
  if c = quote ∨ c = backslash ∨ c = 47 then some c
  else if c = 98 then some 8
  else if c = 102 then some 12
  else if c = 110 then some 10
  else if c = 114 then some 13
  else if c = 116 then some 9
  else none

/-- What follows a backslash: the bytes that are meant, and the rest. -/
def scanEscape : List Byte → Option (List Byte × List Byte)
  | [] => none
  | c :: rest =>
    if c = 117 then scanUnicode rest else (shortEscape c).map fun b => ([b], rest)

/-- `lex_scan_string`, with fuel: the bytes of the string, and the text behind it. -/
def scanChars : ℕ → List Byte → Option (List Byte × List Byte)
  | 0, _ => none
  | _ + 1, [] => none
  | n + 1, c :: rest =>
    if c = quote then some ([], rest)
    else if c.toNat ≤ 0x1F then none
    else if c = backslash then
      (scanEscape rest).bind fun r => (scanChars n r.2).map fun q => (r.1 ++ q.1, q.2)
    else (scanChars n rest).map fun q => (c :: q.1, q.2)

/-- `lex_scan_string`. -/
def scanString (text : List Byte) : Option (List Byte × List Byte) := scanChars text.length text

/-! ### Values -/

/-- The number that digits denote. -/
def digitsValue (ds : List Byte) : ℕ := ds.foldl (fun v c => 10 * v + (c.toNat - 48)) 0

/-- The digits behind a point; none if there is a point and no digit. -/
def scanFraction : List Byte → Option (List Byte × List Byte)
  | [] => some ([], [])
  | c :: rest =>
    if c = 46 then
      let r := rest.span isDigit
      if r.1 = [] then none else some r
    else some ([], c :: rest)

/-- The exponent; none if it has no digit. -/
def scanExponent : List Byte → Option (Option ℤ × List Byte)
  | [] => some (none, [])
  | c :: rest =>
    if c = 69 ∨ c = 101 then
      let (neg, rest) := match rest with
        | s :: rest' =>
          if s = 45 then (true, rest') else if s = 43 then (false, rest') else (false, rest)
        | [] => (false, [])
      let r := rest.span isDigit
      if r.1 = [] then none
      else some (some (if neg then -digitsValue r.1 else digitsValue r.1), r.2)
    else some (none, c :: rest)

/-- `lex_scan_number`. -/
def scanNumber (text : List Byte) : Option (Json × List Byte) :=
  let (neg, text) := match text with
    | c :: rest => if c = 45 then (true, rest) else (false, text)
    | [] => (false, [])
  let r := text.span isDigit
  if r.1 = [] ∨ r.1.head? = some 48 ∧ r.1 ≠ [48] then none
  else
    (scanFraction r.2).bind fun f => (scanExponent f.2).bind fun e =>
      let sign : ℤ := if neg then -1 else 1
      if f.1 = [] ∧ e.1 = none then
        let value := sign * digitsValue r.1
        if -2 ^ 63 ≤ value ∧ value < 2 ^ 63 then some (.integer value, e.2) else none
      else
        let value : ℚ := (sign * digitsValue (r.1 ++ f.1) : ℤ)
        some (.real (value * 10 ^ (e.1.getD 0 - f.1.length)), e.2)

/-- The three words. -/
def scanWord (text : List Byte) : Option (Json × List Byte) :=
  let r := text.span isAlpha
  if r.1 = ascii "true" then some (.bool true, r.2)
  else if r.1 = ascii "false" then some (.bool false, r.2)
  else if r.1 = ascii "null" then some (.null, r.2)
  else none

mutual

/-- `parse_value`, with fuel: the value at the beginning of the text, and the rest. -/
def jsonValue : ℕ → List Byte → Option (Json × List Byte)
  | 0, _ => none
  | n + 1, text =>
    match skipBlanks text with
    | [] => none
    | c :: rest =>
      if c = quote then (scanString rest).map fun r => (.string r.1, r.2)
      else if c = openBrace then
        match expect closeBrace rest with
        | some rest => some (.object [], rest)
        | none => (jsonMembers n rest).bind fun r =>
            if (r.1.map Prod.fst).Nodup then some (.object r.1, r.2) else none
      else if c = openBracket then
        match expect closeBracket rest with
        | some rest => some (.array [], rest)
        | none => (jsonElements n rest).map fun r => (.array r.1, r.2)
      else if isDigit c || c = 45 then scanNumber (c :: rest)
      else if isAlpha c then scanWord (c :: rest)
      else none

/-- The members of an object, from the first key on. -/
def jsonMembers : ℕ → List Byte → Option (List (List Byte × Json) × List Byte)
  | 0, _ => none
  | n + 1, text =>
    (expect quote text).bind fun rest => (scanString rest).bind fun key =>
      (expect colon key.2).bind fun rest => (jsonValue n rest).bind fun value =>
        match expect comma value.2 with
        | some rest => (jsonMembers n rest).map fun r => ((key.1, value.1) :: r.1, r.2)
        | none => (expect closeBrace value.2).map fun rest => ([(key.1, value.1)], rest)

/-- The elements of an array, from the first one on. -/
def jsonElements : ℕ → List Byte → Option (List Json × List Byte)
  | 0, _ => none
  | n + 1, text =>
    (jsonValue n text).bind fun value =>
      match expect comma value.2 with
      | some rest => (jsonElements n rest).map fun r => (value.1 :: r.1, r.2)
      | none => (expect closeBracket value.2).map fun rest => ([value.1], rest)

end

/-- `json_loads`: the whole text is an object or an array. -/
def decodeText (text : List Byte) : Option Json :=
  if (expect openBrace text).isSome || (expect openBracket text).isSome then
    (jsonValue text.length text).bind fun r => if skipBlanks r.2 = [] then some r.1 else none
  else none

/-! ### Plain strings -/

/-- The characters stand for themselves. -/
def Plain (s : List Byte) : Prop := ∀ c ∈ s, c ≠ quote ∧ c ≠ backslash ∧ 0x1F < c.toNat

instance (s : List Byte) : Decidable (Plain s) := inferInstanceAs (Decidable (∀ _ ∈ s, _))

theorem scanChars_plain {s : List Byte} (h : Plain s) (rest : List Byte) {n : ℕ}
    (hn : s.length < n) : scanChars n (s ++ quote :: rest) = some (s, rest) := by
  induction s generalizing n with
  | nil =>
    obtain ⟨m, rfl⟩ := Nat.exists_eq_add_of_lt hn
    rfl
  | cons c s ih =>
    obtain ⟨hquote, hbackslash, hcontrol⟩ := h c List.mem_cons_self
    have hplain : Plain s := fun b hb => h b (List.mem_cons_of_mem c hb)
    cases n with
    | zero => cases hn
    | succ n =>
      rw [List.cons_append, scanChars, if_neg hquote, if_neg (by omega), if_neg hbackslash,
        ih hplain (by simpa using hn)]
      rfl

/-- **A plain string is read as it is.** -/
theorem scanString_plain {s : List Byte} (h : Plain s) (rest : List Byte) :
    scanString (s ++ quote :: rest) = some (s, rest) :=
  scanChars_plain h rest (by simp)

/-- What an escape uses up: at least as many characters as it stands for, and a quotation
mark only if it stands for one. -/
structure Escapes (text ds rest used : List Byte) : Prop where
  /-- The characters. -/
  split : text = used ++ rest
  /-- There are enough of them. -/
  length : ds.length ≤ used.length
  /-- The quotation mark. -/
  mark : quote ∈ used → used = [quote] ∧ ds = [quote]

theorem length_utf8Encode (codepoint : ℕ) : (utf8Encode codepoint).length ≤ 4 := by
  unfold utf8Encode
  split_ifs <;> simp

theorem scanHex4_spec {text rest : List Byte} {v : ℕ} (h : scanHex4 text = some (v, rest)) :
    ∃ used, text = used ++ rest ∧ used.length = 4 ∧ quote ∉ used := by
  have hdigit : ∀ {c : Byte} {u : ℕ}, hexValue c = some u → quote ≠ c := by
    rintro c u hc rfl
    cases hc
  unfold scanHex4 at h
  split at h
  · next a b c d rest' =>
    split at h
    · next ha hb hc hd =>
      obtain rfl := congrArg Prod.snd (Option.some.inj h)
      refine ⟨[a, b, c, d], rfl, rfl, ?_⟩
      simp [hdigit ha, hdigit hb, hdigit hc, hdigit hd]
    · cases h
  · cases h

theorem scanSurrogate_spec {text ds rest : List Byte} {value : ℕ}
    (h : scanSurrogate value text = some (ds, rest)) :
    ∃ used, text = used ++ rest ∧ ds.length ≤ used.length ∧ quote ∉ used := by
  unfold scanSurrogate at h
  split at h
  · next b u rest' =>
    split at h
    · next hboth =>
      obtain ⟨rfl, rfl⟩ := hboth
      obtain ⟨⟨low, rest₂⟩, hhex, hlow⟩ := Option.bind_eq_some_iff.mp h
      obtain ⟨used, rfl, hlen, hnot⟩ := scanHex4_spec hhex
      split at hlow
      · obtain ⟨rfl, rfl⟩ : utf8Encode _ = ds ∧ rest₂ = rest := by simpa using hlow
        refine ⟨backslash :: 117#8 :: used, rfl, ?_, ?_⟩
        · apply (length_utf8Encode _).trans
          simp [hlen]
        · have hbackslash : quote ≠ backslash := by decide
          have hu : quote ≠ 117#8 := by decide
          simp [hnot, hbackslash, hu]
      · cases hlow
    · cases h
  · cases h

theorem scanUnicode_spec {text ds rest : List Byte} (h : scanUnicode text = some (ds, rest)) :
    ∃ used, text = used ++ rest ∧ ds.length ≤ used.length ∧ quote ∉ used := by
  obtain ⟨⟨v, rest'⟩, hfirst, hrest⟩ := Option.bind_eq_some_iff.mp h
  obtain ⟨used, rfl, hlen, hnot⟩ := scanHex4_spec hfirst
  split at hrest
  · obtain ⟨used', hsplit, hlen', hnot'⟩ := scanSurrogate_spec hrest
    obtain rfl : rest' = used' ++ rest := hsplit
    refine ⟨used ++ used', (List.append_assoc _ _ _).symm, ?_, ?_⟩
    · rw [List.length_append]
      omega
    · simp [hnot, hnot']
  · split at hrest
    · cases hrest
    split at hrest
    · cases hrest
    obtain ⟨rfl, rfl⟩ : utf8Encode v = ds ∧ rest' = rest := by simpa using hrest
    exact ⟨used, rfl, (length_utf8Encode v).trans hlen.ge, hnot⟩

theorem scanEscape_spec {text ds rest : List Byte} (h : scanEscape text = some (ds, rest)) :
    ∃ used, Escapes text ds rest used := by
  unfold scanEscape at h
  split at h
  · cases h
  · next c rest' =>
    by_cases hu : c = 117
    · subst hu
      obtain ⟨used, rfl, hlen, hnot⟩ := scanUnicode_spec h
      have hu : quote ≠ 117#8 := by decide
      refine ⟨117#8 :: used, rfl, hlen.trans (Nat.le_succ _), ?_⟩
      intro hmem
      exact absurd hmem (by simp [hnot, hu])
    · rw [if_neg hu] at h
      obtain ⟨b, hshort, hpair⟩ := Option.map_eq_some_iff.mp h
      obtain ⟨rfl, rfl⟩ : [b] = ds ∧ rest' = rest := by simpa using hpair
      refine ⟨[c], rfl, le_rfl, ?_⟩
      intro hmem
      obtain rfl := List.mem_singleton.mp hmem
      obtain rfl : quote = b := Option.some.inj hshort
      exact ⟨rfl, rfl⟩

/-- An escape before a quotation mark lies in front of it, or consists of it. -/
theorem Escapes.of_quote {s tail ds rest used : List Byte}
    (h : Escapes (s ++ quote :: tail) ds rest used) :
    (∃ s', s = used ++ s' ∧ rest = s' ++ quote :: tail) ∨
      s = [] ∧ ds = [quote] ∧ rest = tail := by
  rcases List.append_eq_append_iff.mp h.split with ⟨a, hused, htail⟩ | ⟨s', hs, hrest⟩
  · cases a with
    | nil =>
      refine Or.inl ⟨[], ?_, htail.symm⟩
      rw [hused, List.append_nil, List.append_nil]
    | cons b a =>
      obtain ⟨rfl, htail'⟩ : quote = b ∧ tail = a ++ rest := by simpa using htail
      obtain ⟨hone, hds⟩ := h.mark (by simp [hused])
      rw [hone] at hused
      have hlen := congrArg List.length hused
      simp only [List.length_append, List.length_cons, List.length_nil] at hlen
      obtain rfl := List.length_eq_zero_iff.mp (show s.length = 0 by omega)
      obtain rfl := List.length_eq_zero_iff.mp (show a.length = 0 by omega)
      exact Or.inr ⟨rfl, hds, htail'.symm⟩
  · exact Or.inl ⟨s', hs, hrest⟩

/-- The steps of the loop that do not fail. -/
inductive CharStep (n : ℕ) (c : Byte) (text d r : List Byte) : Prop
  | close (hc : c = quote) (hd : d = []) (hr : r = text)
  | escape {ds rest d' : List Byte} (hc : c = backslash)
      (hescape : scanEscape text = some (ds, rest))
      (hrest : scanChars n rest = some (d', r)) (hd : d = ds ++ d')
  | char {d' : List Byte} (hc : c ≠ quote ∧ c ≠ backslash ∧ 0x1F < c.toNat)
      (hrest : scanChars n text = some (d', r)) (hd : d = c :: d')

theorem charStep_of_scanChars {n : ℕ} {c : Byte} {text d r : List Byte}
    (h : scanChars (n + 1) (c :: text) = some (d, r)) : CharStep n c text d r := by
  rw [scanChars] at h
  by_cases hquote : c = quote
  · rw [if_pos hquote] at h
    obtain ⟨rfl, rfl⟩ : [] = d ∧ text = r := by simpa using h
    exact .close hquote rfl rfl
  rw [if_neg hquote] at h
  by_cases hcontrol : c.toNat ≤ 0x1F
  · rw [if_pos hcontrol] at h
    cases h
  rw [if_neg hcontrol] at h
  by_cases hbackslash : c = backslash
  · rw [if_pos hbackslash] at h
    obtain ⟨⟨ds, rest⟩, hescape, hmap⟩ := Option.bind_eq_some_iff.mp h
    obtain ⟨⟨d', r'⟩, hrest, hpair⟩ := Option.map_eq_some_iff.mp hmap
    obtain ⟨rfl, rfl⟩ : ds ++ d' = d ∧ r' = r := by simpa using hpair
    exact .escape hbackslash hescape hrest rfl
  · rw [if_neg hbackslash] at h
    obtain ⟨⟨d', r'⟩, hrest, hpair⟩ := Option.map_eq_some_iff.mp h
    obtain ⟨rfl, rfl⟩ : c :: d' = d ∧ r' = r := by simpa using hpair
    exact .char ⟨hquote, hbackslash, by omega⟩ hrest rfl

/-- A plain string that is read is read as it is. -/
theorem eq_of_scanChars {n : ℕ} {s text d r : List Byte} (hs : Plain s)
    (h : scanChars n (s ++ quote :: text) = some (d, r)) : d = s := by
  induction n generalizing s d with
  | zero => cases h
  | succ n ih =>
    cases s with
    | nil =>
      obtain ⟨rfl, -⟩ : [] = d ∧ text = r := by simpa [scanChars] using h
      rfl
    | cons c s =>
      obtain ⟨hquote, hbackslash, -⟩ := hs c List.mem_cons_self
      cases charStep_of_scanChars h with
      | close hc => exact absurd hc hquote
      | escape hc => exact absurd hc hbackslash
      | char _ hrest hd => rw [hd, ih (fun b hb => hs b (List.mem_cons_of_mem c hb)) hrest]

/-- **The three ways to read a string** with a comma, a blank and another string behind it:
the string is plain, or it ends early, or its last character is a backslash, so that the
quotation mark belongs to it and it goes on up to the next one. -/
theorem scanChars_cases {n : ℕ} {s text d r : List Byte}
    (h : scanChars n (s ++ quote :: comma :: space :: quote :: text) = some (d, r)) :
    (Plain s ∧ d = s) ∨ d.length < s.length ∨
      ∃ d₀, d = d₀ ++ [quote, comma, space] ∧ d₀.length < s.length ∧
        s.getLast? = some backslash := by
  induction n generalizing s d with
  | zero => cases h
  | succ n ih =>
    cases s with
    | nil =>
      obtain ⟨rfl, -⟩ : [] = d ∧ comma :: space :: quote :: text = r := by
        simpa [scanChars] using h
      exact Or.inl ⟨fun c hc => absurd hc List.not_mem_nil, rfl⟩
    | cons c s =>
      cases charStep_of_scanChars h with
      | close hc hd =>
        rw [hd]
        exact Or.inr (Or.inl (Nat.succ_pos _))
      | @escape ds rest d' hc hescape hrest hd =>
        obtain ⟨used, hused⟩ := scanEscape_spec hescape
        have hlen := hused.length
        rcases hused.of_quote with ⟨s', rfl, rfl⟩ | ⟨rfl, rfl, rfl⟩
        · -- the escape is shorter than what it is written with
          refine Or.inr ?_
          rcases ih hrest with ⟨-, hd'⟩ | hshort | ⟨d₀, hd', hshort, hlast⟩
          · left
            simp only [hd, hd', List.length_append, List.length_cons]
            omega
          · left
            simp only [hd, List.length_append, List.length_cons]
            omega
          · right
            refine ⟨ds ++ d₀, by rw [hd, hd', List.append_assoc], ?_, ?_⟩
            · simp only [List.length_append, List.length_cons]
              omega
            · rw [← List.cons_append, List.getLast?_append, hlast]
              rfl
        · -- the quotation mark is escaped
          have htail : d' = [comma, space] := eq_of_scanChars (by decide) hrest
          refine Or.inr (Or.inr ⟨[], ?_, Nat.zero_lt_one, by rw [hc]; rfl⟩)
          rw [hd, htail]
          rfl
      | @char d' hc hrest hd =>
        rcases ih hrest with ⟨hplain, hd'⟩ | hshort | ⟨d₀, hd', hshort, hlast⟩
        · refine Or.inl ⟨fun b hb => ?_, by rw [hd, hd']⟩
          cases List.mem_cons.mp hb with
          | inl heq => rwa [heq]
          | inr hmem => exact hplain b hmem
        · refine Or.inr (Or.inl ?_)
          rw [hd]
          exact Nat.succ_lt_succ hshort
        · refine Or.inr (Or.inr ⟨c :: d₀, by rw [hd, hd']; rfl, Nat.succ_lt_succ hshort, ?_⟩)
          rw [List.getLast?_cons, hlast]
          rfl

/-- **A string that is read as itself, or as something that it is the beginning of, is
plain.** -/
theorem plain_of_scanString {s text d r : List Byte}
    (h : scanString (s ++ quote :: comma :: space :: quote :: text) = some (d, r))
    (hbegins : s <+: d) : Plain s ∧ d = s := by
  rcases scanChars_cases h with hplain | hshort | ⟨d₀, rfl, hshort, hlast⟩
  · exact hplain
  · exact absurd hbegins.length_le (by omega)
  · -- the backslash would be one of the last three characters
    exfalso
    obtain ⟨t, ht⟩ := hbegins
    obtain ⟨s', rfl⟩ := List.getLast?_eq_some_iff.mp hlast
    rw [List.append_assoc] at ht
    rcases List.append_eq_append_iff.mp ht with ⟨a, hd₀, hrest⟩ | ⟨a, hs', hrest⟩
    · cases a with
      | nil =>
        obtain ⟨heq, -⟩ : backslash = quote ∧ t = [comma, space] := by simpa using hrest
        revert heq
        decide
      | cons b a =>
        simp only [hd₀, List.length_append, List.length_cons, List.length_nil] at hshort
        omega
    · have hmem : backslash ∈ [quote, comma, space] := by
        rw [hrest]
        simp
      revert hmem
      decide

/-- A string without a quotation mark behind it is not read to its end. -/
theorem length_lt_of_scanString {n : ℕ} {s text d r : List Byte} (htext : quote ∉ text)
    (h : scanChars n (s ++ text) = some (d, r)) : d.length < s.length := by
  induction n generalizing s text d with
  | zero => cases h
  | succ n ih =>
    cases s with
    | nil =>
      exfalso
      cases text with
      | nil => cases h
      | cons c text =>
        have hc : quote ≠ c := fun heq => htext (by simp [heq])
        have hrest : quote ∉ text := fun hmem => htext (List.mem_cons_of_mem c hmem)
        cases charStep_of_scanChars h with
        | close hc' => exact hc hc'.symm
        | @escape ds rest d' _ hescape hread _ =>
          obtain ⟨used, hused⟩ := scanEscape_spec hescape
          have hnot : quote ∉ rest := fun hmem => hrest (by rw [hused.split]; simp [hmem])
          exact absurd (ih (s := []) hnot hread) (Nat.not_lt_zero _)
        | char _ hread _ => exact absurd (ih (s := []) hrest hread) (Nat.not_lt_zero _)
    | cons c s =>
      cases charStep_of_scanChars h with
      | close _ hd =>
        rw [hd]
        exact Nat.succ_pos _
      | @escape ds rest d' _ hescape hread hd =>
        obtain ⟨used, hused⟩ := scanEscape_spec hescape
        have hlen := hused.length
        rcases List.append_eq_append_iff.mp hused.split with ⟨a, hbeyond, rfl⟩ | ⟨s', rfl, rfl⟩
        · have hnot : quote ∉ rest := fun hmem => htext (by simp [hmem])
          exact absurd (ih (s := []) hnot hread) (Nat.not_lt_zero _)
        · have hshort := ih htext hread
          rw [hd]
          simp only [List.length_append, List.length_cons]
          omega
      | char _ hread hd =>
        rw [hd]
        exact Nat.succ_lt_succ (ih htext hread)

/-! ### Members -/

/-- A member up to its value, with a blank behind the colon. -/
def member (key text : List Byte) : List Byte :=
  quote :: (key ++ quote :: colon :: space :: text)

/-- A string between quotation marks. -/
def stringText (s text : List Byte) : List Byte := quote :: (s ++ quote :: text)

/-- The members that follow the first one. -/
def moreMembers (n : ℕ) (m : List Byte × Json) (text : List Byte) :
    Option (List (List Byte × Json) × List Byte) :=
  match expect comma text with
  | some rest => (jsonMembers n rest).map fun r => (m :: r.1, r.2)
  | none => (expect closeBrace text).map fun rest => ([m], rest)

theorem jsonMembers_space (n : ℕ) (text : List Byte) :
    jsonMembers n (space :: text) = jsonMembers n text := by
  cases n with
  | zero => rfl
  | succ n => rfl

theorem jsonMembers_member {key : List Byte} (hkey : Plain key) (n : ℕ) (text : List Byte) :
    jsonMembers (n + 1) (member key text) =
      (jsonValue n text).bind fun r => moreMembers n (key, r.1) r.2 := by
  have hquote : expect quote (member key text) =
      some (key ++ quote :: colon :: space :: text) := rfl
  have hcolon : expect colon (colon :: space :: text) = some (space :: text) := rfl
  have hspace : jsonValue n (space :: text) = jsonValue n text := by
    cases n with
    | zero => rfl
    | succ n => rfl
  rw [jsonMembers, hquote, Option.bind_some, scanString_plain hkey, Option.bind_some, hcolon,
    Option.bind_some, hspace]
  rfl

theorem jsonValue_quote (n : ℕ) (text : List Byte) : jsonValue (n + 1) (quote :: text) =
    (scanString text).map fun r => (.string r.1, r.2) := rfl

theorem jsonValue_stringText {s : List Byte} (hs : Plain s) (n : ℕ) (text : List Byte) :
    jsonValue (n + 1) (stringText s text) = some (.string s, text) := by
  rw [stringText, jsonValue_quote, scanString_plain hs]
  rfl

theorem moreMembers_comma (n : ℕ) (m : List Byte × Json) (text : List Byte) :
    moreMembers n m (comma :: text) = (jsonMembers n text).map fun r => (m :: r.1, r.2) := rfl

theorem moreMembers_close (n : ℕ) (m : List Byte × Json) (text : List Byte) :
    moreMembers n m (closeBrace :: text) = some ([m], text) := rfl

theorem jsonMembers_string {key s : List Byte} (hkey : Plain key) (hs : Plain s) (n : ℕ)
    (text : List Byte) : jsonMembers (n + 2) (member key (stringText s (comma :: space :: text))) =
      (jsonMembers (n + 1) text).map fun r => ((key, .string s) :: r.1, r.2) := by
  rw [jsonMembers_member hkey, jsonValue_stringText hs, Option.bind_some, moreMembers_comma,
    jsonMembers_space]

theorem jsonValue_object {n : ℕ} {text rest : List Byte} {ms : List (List Byte × Json)}
    (hmembers : jsonMembers n text = some (ms, rest)) (hne : expect closeBrace text = none)
    (hnodup : (ms.map Prod.fst).Nodup) :
    jsonValue (n + 1) (openBrace :: text) = some (.object ms, rest) := by
  have hunfold : jsonValue (n + 1) (openBrace :: text) =
      match expect closeBrace text with
      | some rest => some (.object [], rest)
      | none => (jsonMembers n text).bind fun r =>
          if (r.1.map Prod.fst).Nodup then some (.object r.1, r.2) else none := rfl
  rw [hunfold, hne, hmembers, Option.bind_some, if_pos hnodup]

theorem decodeText_object {n : ℕ} {text rest : List Byte} {value : Json}
    (hlen : text.length + 1 = n) (hvalue : jsonValue n (openBrace :: text) = some (value, rest))
    (hrest : skipBlanks rest = []) : decodeText (openBrace :: text) = some value := by
  subst hlen
  have hunfold : decodeText (openBrace :: text) =
      (jsonValue (text.length + 1) (openBrace :: text)).bind fun r =>
        if skipBlanks r.2 = [] then some r.1 else none := rfl
  rw [hunfold, hvalue, Option.bind_some, if_pos hrest]

/-- There is a member after each comma. -/
theorem jsonMembers_ne_nil {n : ℕ} {text rest : List Byte} {ms : List (List Byte × Json)}
    (h : jsonMembers n text = some (ms, rest)) : ms ≠ [] := by
  cases n with
  | zero => cases h
  | succ n =>
    rw [jsonMembers] at h
    obtain ⟨_, -, h⟩ := Option.bind_eq_some_iff.mp h
    obtain ⟨key, -, h⟩ := Option.bind_eq_some_iff.mp h
    obtain ⟨_, -, h⟩ := Option.bind_eq_some_iff.mp h
    obtain ⟨value, -, h⟩ := Option.bind_eq_some_iff.mp h
    split at h
    · obtain ⟨r, -, heq⟩ := Option.map_eq_some_iff.mp h
      obtain rfl : (key.1, value.1) :: r.1 = ms := congrArg Prod.fst heq
      exact List.cons_ne_nil _ _
    · obtain ⟨r, -, heq⟩ := Option.map_eq_some_iff.mp h
      obtain rfl : [(key.1, value.1)] = ms := congrArg Prod.fst heq
      exact List.cons_ne_nil _ _

/-- The last member, or one that others follow. -/
theorem moreMembers_cases {n : ℕ} {m : List Byte × Json} {ms : List (List Byte × Json)}
    {text rest : List Byte} (h : moreMembers n m text = some (ms, rest)) :
    (ms = [m] ∧ expect closeBrace text = some rest) ∨
      ∃ ms' rest', ms' ≠ [] ∧ ms = m :: ms' ∧ expect comma text = some rest' ∧
        jsonMembers n rest' = some (ms', rest) := by
  unfold moreMembers at h
  split at h
  · next rest' hcomma =>
    obtain ⟨⟨ms', rest''⟩, hrest, heq⟩ := Option.map_eq_some_iff.mp h
    obtain ⟨rfl, rfl⟩ : m :: ms' = ms ∧ rest'' = rest := by simpa using heq
    exact Or.inr ⟨ms', rest', jsonMembers_ne_nil hrest, rfl, hcomma, hrest⟩
  · obtain ⟨rest', hclose, heq⟩ := Option.map_eq_some_iff.mp h
    obtain ⟨rfl, rfl⟩ : [m] = ms ∧ rest' = rest := by simpa using heq
    exact Or.inl ⟨rfl, hclose⟩

/-- A member that is read. -/
theorem jsonMembers_member_cases {n : ℕ} {key text rest : List Byte} (hkey : Plain key)
    {ms : List (List Byte × Json)} (h : jsonMembers n (member key text) = some (ms, rest)) :
    ∃ m value rest', jsonValue m text = some (value, rest') ∧
      moreMembers m (key, value) rest' = some (ms, rest) := by
  cases n with
  | zero => cases h
  | succ n =>
    rw [jsonMembers_member hkey] at h
    obtain ⟨⟨value, rest'⟩, hvalue, hmore⟩ := Option.bind_eq_some_iff.mp h
    exact ⟨n, value, rest', hvalue, hmore⟩

/-- A value that begins with a quotation mark is a string. -/
theorem jsonValue_string_cases {n : ℕ} {text rest : List Byte} {value : Json}
    (h : jsonValue n (quote :: text) = some (value, rest)) :
    ∃ d, value = .string d ∧ scanString text = some (d, rest) := by
  cases n with
  | zero => cases h
  | succ n =>
    rw [jsonValue_quote] at h
    obtain ⟨⟨d, rest'⟩, hscan, heq⟩ := Option.map_eq_some_iff.mp h
    obtain ⟨rfl, rfl⟩ : Json.string d = value ∧ rest' = rest := by simpa using heq
    exact ⟨d, rfl, hscan⟩

/-- The first of the members is the one that was read first. -/
theorem moreMembers_head {n : ℕ} {m m' : List Byte × Json} {ms : List (List Byte × Json)}
    {text rest : List Byte} (h : moreMembers n m text = some (m' :: ms, rest)) : m' = m := by
  rcases moreMembers_cases h with ⟨heq, -⟩ | ⟨ms', rest', -, heq, -⟩
  · exact (List.cons.inj heq).1
  · exact (List.cons.inj heq).1

/-- A plain string that is read. -/
theorem jsonValue_stringText_cases {n : ℕ} {s text rest : List Byte} {value : Json} (hs : Plain s)
    (h : jsonValue n (stringText s text) = some (value, rest)) :
    value = .string s ∧ rest = text := by
  cases n with
  | zero => cases h
  | succ n =>
    rw [jsonValue_stringText hs] at h
    obtain ⟨rfl, rfl⟩ : Json.string s = value ∧ text = rest := by simpa using h
    exact ⟨rfl, rfl⟩

/-- A member with a plain string, and others that follow it. -/
theorem jsonMembers_string_cases {n : ℕ} {key s text rest : List Byte} {m : List Byte × Json}
    {ms : List (List Byte × Json)} (hkey : Plain key) (hs : Plain s)
    (h : jsonMembers n (member key (stringText s (comma :: space :: text))) =
      some (m :: ms, rest)) :
    m = (key, .string s) ∧ ∃ k, jsonMembers k text = some (ms, rest) := by
  obtain ⟨k, value, rest', hvalue, hmore⟩ := jsonMembers_member_cases hkey h
  obtain ⟨rfl, rfl⟩ := jsonValue_stringText_cases hs hvalue
  refine ⟨moreMembers_head hmore, k, ?_⟩
  rw [moreMembers_comma, jsonMembers_space] at hmore
  obtain ⟨⟨ms', rest'⟩, hrest, heq⟩ := Option.map_eq_some_iff.mp hmore
  obtain ⟨⟨-, rfl⟩, rfl⟩ : (_ ∧ ms' = ms) ∧ rest' = rest := by simpa using heq
  exact hrest

/-- The same for a string that is read as something that it is the beginning of. -/
theorem jsonMembers_prefix_cases {n : ℕ} {key s d text rest : List Byte}
    {ms : List (List Byte × Json)} (hkey : Plain key) (hbegins : s <+: d)
    (h : jsonMembers n (member key (stringText s (comma :: space :: quote :: text))) =
      some ((key, .string d) :: ms, rest)) :
    Plain s ∧ d = s ∧ ∃ k, jsonMembers k (quote :: text) = some (ms, rest) := by
  have hread : Plain s ∧ d = s := by
    obtain ⟨k, value, rest', hvalue, hmore⟩ := jsonMembers_member_cases hkey h
    obtain ⟨d', rfl, hscan⟩ := jsonValue_string_cases hvalue
    obtain rfl : d = d' := by simpa using moreMembers_head hmore
    exact plain_of_scanString hscan hbegins
  obtain ⟨hplain, rfl⟩ := hread
  exact ⟨hplain, rfl, (jsonMembers_string_cases hkey hplain h).2⟩

/-- An object that is not empty. -/
theorem jsonValue_object_cases {n : ℕ} {text rest : List Byte} {m : List Byte × Json}
    {ms : List (List Byte × Json)}
    (h : jsonValue n (openBrace :: text) = some (.object (m :: ms), rest)) :
    ∃ k, jsonMembers k text = some (m :: ms, rest) := by
  cases n with
  | zero => cases h
  | succ n =>
    have hunfold : jsonValue (n + 1) (openBrace :: text) =
        match expect closeBrace text with
        | some rest => some (.object [], rest)
        | none => (jsonMembers n text).bind fun r =>
            if (r.1.map Prod.fst).Nodup then some (.object r.1, r.2) else none := rfl
    rw [hunfold] at h
    split at h
    · cases h
    · obtain ⟨⟨ms', rest'⟩, hmembers, hnodup⟩ := Option.bind_eq_some_iff.mp h
      split at hnodup
      · obtain ⟨rfl, rfl⟩ : ms' = m :: ms ∧ rest' = rest := by simpa using hnodup
        exact ⟨n, hmembers⟩
      · cases hnodup

end XmrMiner
