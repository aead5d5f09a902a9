import Mathlib.Data.BitVec
import Mathlib.Data.List.TakeWhile

/-!
# C strings in allocated memory

An allocation is a list of bytes, and a C string in it is what comes before the
first NUL byte.  The functions of `string.h` read and write allocations; an
access beyond the end of one fails.

## Main definitions

* `str` — the string at the start of an allocation.
* `store`, `strcpy`, `memmove` — writes, which fail out of bounds.
* `strchr`, `strrchr`, `strstr` — searches.
* `strtok` — the first call on a string, for a single delimiter.
* `tokens` — the tokens that it and the calls behind it return.
* `lines` — the terminated lines of a stream.

## Main results

* `strcpy_end` — writing a string over the terminator of another appends it.
* `exists_of_terminator`, `memmove_front`, `strtok_cases` — terminators, and what becomes of
  them.
* `strtok_line`, `memmove_line` — taking the first line off a buffer.
-/

/-- A byte. -/
abbrev Byte := BitVec 8

namespace CString

/-- The byte that ends a string. -/
def nul : Byte := 0

/-! ### Strings -/

/-- The C string at the start of an allocation. -/
def str (buf : List Byte) : List Byte := buf.takeWhile (· ≠ nul)

/-- Its length. -/
def strlen (buf : List Byte) : ℕ := (str buf).length

theorem str_append {s : List Byte} (hs : nul ∉ s) (rest : List Byte) :
    str (s ++ nul :: rest) = s := by
  induction s with
  | nil => rfl
  | cons b s ih =>
    have hb : b ≠ nul := fun h => hs (by simp [h])
    have hs' : nul ∉ s := fun h => hs (by simp [h])
    rw [List.cons_append, str, List.takeWhile_cons_of_pos (by simp [hb])]
    exact congrArg _ (ih hs')

/-- What lies behind the terminator is not read. -/
theorem str_append_of_mem {buf : List Byte} (h : nul ∈ buf) (rest : List Byte) :
    str (buf ++ rest) = str buf := by
  induction buf with
  | nil => cases h
  | cons b buf ih =>
    by_cases hb : b = nul
    · simp [str, hb]
    · have hmem : nul ∈ buf := (List.mem_cons.mp h).resolve_left fun heq => hb heq.symm
      rw [List.cons_append, str, str, List.takeWhile_cons_of_pos (by simp [hb]),
        List.takeWhile_cons_of_pos (by simp [hb])]
      exact congrArg _ (ih hmem)

theorem nul_notMem_str (buf : List Byte) : nul ∉ str buf := by
  intro h
  simpa using List.mem_takeWhile_imp h

/-- A terminator ends the string, if there is none before it. -/
theorem exists_of_terminator {buf : List Byte} {i : ℕ} (h : buf[i]? = some nul) :
    (str buf).length ≤ i ∧ ∃ rest, buf = str buf ++ nul :: rest := by
  induction buf generalizing i with
  | nil => cases h
  | cons b buf ih =>
    by_cases hb : b = nul
    · subst hb
      exact ⟨by simp [str], buf, by simp [str]⟩
    · have hstr : str (b :: buf) = b :: str buf := List.takeWhile_cons_of_pos (by simpa using hb)
      cases i with
      | zero => exact absurd (Option.some.inj h) hb
      | succ i =>
        obtain ⟨hlen, rest, hrest⟩ := ih (by simpa using h)
        refine ⟨by simpa [hstr] using hlen, rest, ?_⟩
        rw [hstr, List.cons_append, ← hrest]

/-! ### Writing -/

/-- Write `bs` at offset `off`. -/
def store (buf : List Byte) (off : ℕ) (bs : List Byte) : Option (List Byte) :=
  if off + bs.length ≤ buf.length then
    some (buf.take off ++ bs ++ buf.drop (off + bs.length))
  else none

/-- `strcpy(buf + off, s)`. -/
def strcpy (buf : List Byte) (off : ℕ) (s : List Byte) : Option (List Byte) :=
  store buf off (s ++ [nul])

/-- `memmove(buf + dst, buf + src, n)`. -/
def memmove (buf : List Byte) (dst src n : ℕ) : Option (List Byte) :=
  if src + n ≤ buf.length then store buf dst ((buf.drop src).take n) else none

/-- A move to the front within the allocation. -/
theorem memmove_front {buf : List Byte} {src n : ℕ} (h : src + n ≤ buf.length) :
    ∃ buf', memmove buf 0 src n = some buf' ∧ buf'.length = buf.length ∧
      ∀ i < n, buf'[i]? = buf[src + i]? := by
  have hlen : ((buf.drop src).take n).length = n := by
    rw [List.length_take, List.length_drop]
    omega
  refine ⟨(buf.drop src).take n ++ buf.drop n, ?_, ?_, fun i hi => ?_⟩
  · rw [memmove, if_pos h, store, hlen, if_pos (by omega)]
    simp
  · rw [List.length_append, hlen, List.length_drop]
    omega
  · rw [List.getElem?_append_left (by omega), List.getElem?_take_of_lt hi, List.getElem?_drop]

theorem store_append (a b bs : List Byte) (h : bs.length ≤ b.length) :
    store (a ++ b) a.length bs = some (a ++ bs ++ b.drop bs.length) := by
  rw [store, if_pos (by simpa using h), List.take_left, List.drop_append, List.drop_of_length_le
    (Nat.le_add_right _ _), Nat.add_sub_cancel_left, List.nil_append]

theorem store_zero (b bs : List Byte) (h : bs.length ≤ b.length) :
    store b 0 bs = some (bs ++ b.drop bs.length) := store_append [] b bs h

/-- Writing a string over the terminator of another. -/
theorem strcpy_end (a s rest : List Byte) (h : s.length ≤ rest.length) :
    strcpy (a ++ nul :: rest) a.length s = some ((a ++ s) ++ nul :: rest.drop s.length) := by
  rw [strcpy, store_append _ _ _ (by simpa using h), List.length_append, List.length_singleton,
    List.drop_succ_cons]
  simp

/-! ### Searching -/

/-- `strchr(s, c)`, as an offset; none is the null pointer. -/
def strchr (s : List Byte) (c : Byte) : Option ℕ := s.idxOf? c

/-- `strrchr(s, c)`. -/
def strrchr (s : List Byte) (c : Byte) : Option ℕ :=
  (s.reverse.idxOf? c).map (s.length - 1 - ·)

/-- `strstr(s, sub)`. -/
def strstr (s sub : List Byte) : Option ℕ := s.tails.findIdx? (sub.isPrefixOf ·)

/-- What is before the character that was found, and what is behind it. -/
theorem strchr_eq_some {s : List Byte} {c : Byte} {i : ℕ} (h : strchr s c = some i) :
    s.take i ++ c :: s.drop (i + 1) = s := by
  obtain ⟨hi, hc, -⟩ := List.idxOf?_eq_some_iff.mp h
  rw [← hc, ← List.drop_eq_getElem_cons hi, List.take_append_drop]

theorem strrchr_eq_some {s : List Byte} {c : Byte} {i : ℕ} (h : strrchr s c = some i) :
    s[i]? = some c := by
  obtain ⟨j, hj, rfl⟩ := Option.map_eq_some_iff.mp h
  obtain ⟨hlt, hc, -⟩ := List.idxOf?_eq_some_iff.mp hj
  rw [List.getElem_reverse] at hc
  rw [← hc, List.getElem?_eq_getElem]

theorem strstr_isSome_iff {s sub : List Byte} : (strstr s sub).isSome ↔ sub <:+: s := by
  simp only [strstr, List.findIdx?_isSome, List.any_eq_true, List.mem_tails,
    List.isPrefixOf_iff_prefix, List.infix_iff_prefix_suffix, and_comm]

/-! ### Tokens -/

/-- The first call `strtok(buf, delim)`: leading delimiters are skipped, and the one
after the token is overwritten.  Without a token nothing is written. -/
def strtok (delim : Byte) (buf : List Byte) : Option (List Byte) × List Byte :=
  let s := str buf
  let skip := (s.takeWhile (· = delim)).length
  let tok := (s.drop skip).takeWhile (· ≠ delim)
  if tok = [] then (none, buf)
  else if skip + tok.length < s.length then (some tok, buf.set (skip + tok.length) nul)
  else (some tok, buf)

/-- Whatever the string is: without a token nothing is written, and with one at most a
terminator. -/
theorem strtok_cases (delim : Byte) (buf : List Byte) :
    strtok delim buf = (none, buf) ∨
      ∃ tok buf', strtok delim buf = (some tok, buf') ∧ buf'.length = buf.length ∧
        ∀ i : ℕ, buf[i]? = some nul → buf'[i]? = some nul := by
  unfold strtok
  dsimp only
  split
  · exact Or.inl rfl
  · right
    split
    · refine ⟨_, _, rfl, List.length_set, fun i hi => ?_⟩
      obtain ⟨hlt, -⟩ := List.getElem?_eq_some_iff.mp hi
      rw [List.getElem?_set]
      split
      next heq => rw [if_pos (heq ▸ hlt)]
      next => exact hi
    · exact ⟨_, _, rfl, rfl, fun _ hi => hi⟩

/-- A token at the start of the string, with a delimiter behind it. -/
theorem strtok_line {delim : Byte} {l r : List Byte} (hl : l ≠ [])
    (hld : delim ∉ l) (hs : nul ∉ l ++ delim :: r) (rest : List Byte) :
    strtok delim ((l ++ delim :: r) ++ nul :: rest) = (some l, l ++ nul :: (r ++ nul :: rest)) := by
  have hskip : (l ++ delim :: r).takeWhile (· = delim) = [] := by
    cases l with
    | nil => exact absurd rfl hl
    | cons b l =>
      have hb : b ≠ delim := fun h => hld (by simp [h])
      rw [List.cons_append, List.takeWhile_cons_of_neg (by simpa using hb)]
  have htok : (l ++ delim :: r).takeWhile (· ≠ delim) = l := by
    rw [List.takeWhile_append_of_pos fun b hb => by
      simpa using fun h : b = delim => hld (h ▸ hb)]
    simp
  -- nothing is skipped, the token is `l`, and its delimiter is within the string
  simp only [strtok, str_append hs, hskip, List.length_nil, List.drop_zero, htok, if_neg hl,
    Nat.zero_add]
  rw [if_pos (by simp), List.append_assoc, List.cons_append, List.set_append_right _ _ le_rfl,
    Nat.sub_self]
  rfl

/-- Delimiters only. -/
theorem strtok_delim {delim : Byte} (hdelim : delim ≠ nul) (rest : List Byte) :
    strtok delim (delim :: nul :: rest) = (none, delim :: nul :: rest) := by
  have hs : str (delim :: nul :: rest) = [delim] := by
    simp [str, hdelim]
  simp [strtok, hs]

/-- The tokens from `tok` on, the characters read of the current one. -/
def tokensFrom (delim : Byte) (tok : List Byte) : List Byte → List (List Byte)
  | [] => if tok = [] then [] else [tok]
  | c :: s =>
    if c = delim then
      if tok = [] then tokensFrom delim [] s else tok :: tokensFrom delim [] s
    else tokensFrom delim (tok ++ [c]) s

/-- The tokens of a string: what `strtok(s, delim)` and the calls `strtok(NULL, delim)` after
it return, up to the first that returns `NULL`. -/
def tokens (delim : Byte) (s : List Byte) : List (List Byte) := tokensFrom delim [] s

/-- Moving what follows a line to the front, with its terminator and one more byte. -/
theorem memmove_line (l r : List Byte) (x : Byte) (rest : List Byte) :
    ∃ rest', memmove (l ++ nul :: (r ++ nul :: x :: rest)) 0 (l.length + 1) (r.length + 2)
      = some (r ++ nul :: x :: rest') ∧
      (r ++ nul :: x :: rest').length = (l ++ nul :: (r ++ nul :: x :: rest)).length := by
  have hsrc :
      (l ++ nul :: (r ++ nul :: x :: rest)).drop (l.length + 1) = r ++ nul :: x :: rest := by
    rw [List.drop_append, List.drop_of_length_le (Nat.le_succ _), Nat.add_sub_cancel_left,
      List.nil_append]
    rfl
  have htake : (r ++ nul :: x :: rest).take (r.length + 2) = r ++ [nul, x] := by
    rw [List.take_append, List.take_of_length_le (Nat.le_add_right _ _), Nat.add_sub_cancel_left]
    rfl
  rw [memmove, if_pos (by simp; omega), hsrc, htake, store_zero _ _ (by simp; omega)]
  refine ⟨_, by rw [List.append_assoc]; rfl, ?_⟩
  simp
  omega

/-! ### Lines -/

/-- The terminated lines of a stream, without their terminators. -/
def lines (nl : Byte) (s : List Byte) : List (List Byte) := (s.splitOn nl).dropLast

theorem lines_of_notMem {nl : Byte} {s : List Byte} (h : nl ∉ s) : lines nl s = [] := by
  rw [lines, List.splitOn_eq_singleton h]
  rfl

theorem lines_append {nl : Byte} {l : List Byte} (h : nl ∉ l) (r : List Byte) :
    lines nl (l ++ nl :: r) = l :: lines nl r := by
  rw [lines, List.splitOn_append_cons_self, List.splitOn_eq_singleton h, List.singleton_append,
    List.dropLast_cons_of_ne_nil (List.splitOn_ne_nil _ _)]
  rfl

end CString
