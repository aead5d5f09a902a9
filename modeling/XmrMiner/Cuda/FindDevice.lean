import Mathlib.Data.List.Infix
import XmrMiner.Util.Hex

/-!
# A device by its name

A device may be named by a part of its name, in which blanks and the case of letters do not
count; `#k` behind the part asks for the `k`-th device of which it is a part.

## Main definitions

* `matchFrom`, `substringsearch`, `cudaFinddevice` — the search.
* `NameContains` — a name contains a part, in that sense.

## Main results

* `substringsearch_eq`, `substringsearch_hash` — what the search makes of one name.
* `cudaFinddevice_spec` — **the device that is found.**
-/

namespace XmrMiner

open CString

/-- A blank. -/
def blank : Byte := 32

/-- The character `#`. -/
def numberSign : Byte := 35

/-! ### The search -/

/-- The end of an attempt to match: the part is used up, its `#` is reached, with the
character behind it, or the characters differ. -/
inductive MatchEnd
  | whole
  | hash (next : Byte)
  | differ
  deriving DecidableEq

/-- The inner loop of `substringsearch`, from a character of the name and one of the part on.
Behind the name it reads its terminator, which is no character of the part. -/
def matchFrom : List Byte → List Byte → MatchEnd
  | _, [] => .whole
  | h, b :: n =>
    let h' := h.dropWhile (· == blank)
    if b = blank then matchFrom h' n
    else if b = numberSign then .hash (n.headD nul)
    else
      match h' with
      | [] => .differ
      | c :: h'' => if tolower c ≠ tolower b then .differ else matchFrom h'' n

/-- `substringsearch`: the value returned, and `match`. -/
def substringsearch (needle : List Byte) : List Byte → ℤ → Bool × ℤ
  | [], m => (false, m)
  | c :: h, m =>
    if c = blank then substringsearch needle h m
    else
      match matchFrom (c :: h) needle with
      | .whole => (true, m)
      | .hash next => (m + 1 == next.toInt - 48, m + 1)
      | .differ => substringsearch needle h m

/-- The loop of `cuda_finddevice`, from the device `i` on. -/
def finddeviceFrom (name : List Byte) : List (List Byte) → ℕ → ℤ → ℤ
  | [], _, _ => -1
  | props :: devices, i, m =>
    let (found, m') := substringsearch name props m
    if found then i else finddeviceFrom name devices (i + 1) m'

/-- `cuda_finddevice`, for the names of the devices. -/
def cudaFinddevice (devices : List (List Byte)) (name : List Byte) : ℤ :=
  finddeviceFrom name devices 0 0

/-! ### What it looks for -/

/-- A string without its blanks, in lower case. -/
def foldName (s : List Byte) : List Byte := (s.filter (· ≠ blank)).map tolower

/-- The name contains the part, blanks and case aside. -/
def NameContains (part name : List Byte) : Prop := foldName part <:+: foldName name

instance (part : List Byte) : DecidablePred (NameContains part) :=
  fun _ => inferInstanceAs (Decidable (_ <:+: _))

@[simp] theorem foldName_nil : foldName [] = [] := rfl

@[simp] theorem foldName_blank (s : List Byte) : foldName (blank :: s) = foldName s := by
  simp [foldName]

theorem foldName_cons {c : Byte} (hc : c ≠ blank) (s : List Byte) :
    foldName (c :: s) = tolower c :: foldName s := by
  simp [foldName, hc]

@[simp] theorem foldName_dropWhile (s : List Byte) :
    foldName (s.dropWhile (· == blank)) = foldName s := by
  induction s with
  | nil => rfl
  | cons c s ih =>
    by_cases hc : c = blank
    · subst hc
      simpa using ih
    · simp [hc]

/-- The first character that is no blank. -/
theorem foldName_of_dropWhile {h h' : List Byte} {c : Byte}
    (hd : h.dropWhile (· == blank) = c :: h') : foldName h = tolower c :: foldName h' := by
  have hc := List.head_dropWhile_not (· == blank) (l := h) (by rw [hd]; exact List.cons_ne_nil _ _)
  simp only [hd, List.head_cons, beq_eq_false_iff_ne] at hc
  rw [← foldName_dropWhile, hd, foldName_cons hc]

/-! ### One name -/

/-- What an attempt ends with, for a part without `#` and what follows it. -/
theorem matchFrom_append {part rest : List Byte} (hpart : numberSign ∉ part)
    (hrest : ∀ b ∈ rest.head?, b = numberSign) (h : List Byte) : matchFrom h (part ++ rest) =
      if foldName part <+: foldName h then
        match rest with
        | [] => .whole
        | _ :: rest => .hash (rest.headD nul)
      else .differ := by
  induction part generalizing h with
  | nil =>
    cases rest with
    | nil => simp [matchFrom]
    | cons b rest =>
      obtain rfl : b = numberSign := hrest b rfl
      have hsign : numberSign ≠ blank := by decide
      simp [matchFrom, hsign]
  | cons b part ih =>
    rw [List.mem_cons, not_or] at hpart
    rw [List.cons_append, matchFrom]
    by_cases hb : b = blank
    · subst hb
      rw [if_pos rfl, ih hpart.2, foldName_dropWhile, foldName_blank]
    · rw [if_neg hb, if_neg (Ne.symm hpart.1), foldName_cons hb]
      cases hd : h.dropWhile (· == blank) with
      | nil =>
        have hnil : foldName h = [] := by rw [← foldName_dropWhile, hd, foldName_nil]
        simp [hnil]
      | cons c h' =>
        rw [foldName_of_dropWhile hd]
        by_cases hc : tolower c = tolower b
        · simp only [hc, ne_eq, not_true_eq_false, if_false, ih hpart.2, List.cons_prefix_cons,
            true_and]
        · simp only [ne_eq, hc, not_false_eq_true, if_true, List.cons_prefix_cons, Ne.symm hc,
            false_and, if_false]

section Name

variable {part : List Byte}

/-- A name is searched from each character that is no blank. -/
theorem nameContains_cons {c : Byte} (hc : c ≠ blank) (h : List Byte) :
    NameContains part (c :: h) ↔ foldName part <+: foldName (c :: h) ∨ NameContains part h := by
  rw [NameContains, foldName_cons hc, List.infix_cons_iff]
  exact Iff.rfl

theorem nameContains_blank (h : List Byte) :
    NameContains part (blank :: h) ↔ NameContains part h := by
  rw [NameContains, foldName_blank]
  exact Iff.rfl

/-- The search for a part alone leaves `match` as it is. -/
theorem substringsearch_eq (hpart : numberSign ∉ part) (hne : foldName part ≠ [])
    (name : List Byte) (m : ℤ) :
    substringsearch part name m = (decide (NameContains part name), m) := by
  induction name with
  | nil =>
    have hempty : ¬ NameContains part [] := fun h => hne (List.eq_nil_of_infix_nil h)
    simp [substringsearch, hempty]
  | cons c h ih =>
    rw [substringsearch]
    by_cases hc : c = blank
    · subst hc
      simp only [if_true, ih, nameContains_blank]
    · have hmatch : matchFrom (c :: h) (part ++ []) = _ :=
        matchFrom_append hpart (by simp) (c :: h)
      rw [List.append_nil] at hmatch
      rw [if_neg hc, hmatch]
      by_cases hhere : foldName part <+: foldName (c :: h)
      · simp [hhere, (nameContains_cons hc h).mpr (Or.inl hhere)]
      · simp only [hhere, if_false, ih, nameContains_cons hc, false_or]

/-- The search for a part with a number counts the name if it contains the part. -/
theorem substringsearch_hash (hpart : numberSign ∉ part) (next : Byte) (name : List Byte) (m : ℤ)
    (hne : foldName part ≠ [] ∨ foldName name ≠ []) :
    substringsearch (part ++ [numberSign, next]) name m =
      if NameContains part name then (m + 1 == next.toInt - 48, m + 1) else (false, m) := by
  induction name with
  | nil =>
    have hempty : ¬ NameContains part [] := fun h =>
      hne.elim (fun hne => hne (List.eq_nil_of_infix_nil h)) fun hne => hne rfl
    simp [substringsearch, hempty]
  | cons c h ih =>
    rw [substringsearch]
    by_cases hc : c = blank
    · subst hc
      simp only [if_true, ih (by simpa using hne), nameContains_blank]
    · rw [if_neg hc, matchFrom_append hpart (by simp) (c :: h)]
      by_cases hhere : foldName part <+: foldName (c :: h)
      · simp [hhere, (nameContains_cons hc h).mpr (Or.inl hhere)]
      · -- a part that is blank would match here
        have hpart' : foldName part ≠ [] := fun hnil => hhere (by simp [hnil])
        simp only [hhere, if_false, ih (Or.inl hpart'), nameContains_cons hc, false_or]

end Name

/-! ### All devices -/

/-- What the search returns for the device that it has found, or not. -/
def deviceIndex (device : Option ℕ) : ℤ := device.elim (-1) Int.ofNat

section Devices

variable {part : List Byte}

theorem finddeviceFrom_eq (hpart : numberSign ∉ part) (hne : foldName part ≠ [])
    (devices : List (List Byte)) (i : ℕ) (m : ℤ) :
    finddeviceFrom part devices i m =
      deviceIndex ((devices.findIdx? (NameContains part ·)).map (· + i)) := by
  induction devices generalizing i with
  | nil => rfl
  | cons name devices ih =>
    rw [finddeviceFrom, substringsearch_eq hpart hne, List.findIdx?_cons]
    by_cases hname : NameContains part name
    · simp [hname, deviceIndex]
    · simp only [hname, decide_false, Bool.false_eq_true, if_false, ih, Option.map_map]
      congr 2
      funext j
      simp only [Function.comp_apply]
      omega

/-- From the device `i` on, with `j` devices counted before. -/
theorem finddeviceFrom_hash (hpart : numberSign ∉ part) {next : Byte} {k : ℕ}
    (hnext : next.toInt - 48 = k) (devices : List (List Byte))
    (hne : foldName part ≠ [] ∨ ∀ name ∈ devices, foldName name ≠ []) (i j : ℕ) (hj : j < k) :
    finddeviceFrom (part ++ [numberSign, next]) devices i j =
      deviceIndex (devices.findIdxs (NameContains part ·) i)[k - 1 - j]? := by
  induction devices generalizing i j with
  | nil => rfl
  | cons name devices ih =>
    rw [List.forall_mem_cons] at hne
    have hrest := hne.imp_right And.right
    rw [finddeviceFrom, substringsearch_hash hpart next name j (hne.imp_right And.left), hnext,
      List.findIdxs_cons]
    by_cases hname : NameContains part name
    · by_cases hk : j + 1 = k
      · -- the device that is asked for
        have hzero : k - 1 - j = 0 := by omega
        have hfound : (j : ℤ) + 1 = k := by exact_mod_cast hk
        simp [hname, hfound, hzero, deviceIndex]
      · have hsucc : k - 1 - j = (k - 1 - (j + 1)) + 1 := by omega
        have hother : ((j : ℤ) + 1 == k) = false := by
          rw [beq_eq_false_iff_ne]
          exact_mod_cast hk
        have hstep := ih hrest (i + 1) (j + 1) (by omega)
        push_cast at hstep
        simp only [hname, if_true, hother, Bool.false_eq_true, if_false, decide_true, hstep, hsucc,
          List.getElem?_cons_succ]
    · simp only [hname, if_false, Bool.false_eq_true, decide_false, ih hrest (i + 1) j hj]

/-- **The device that is found**: for a part, the first one whose name contains it; for a part
with `#k`, the `k`-th one; and -1 if there is none. -/
theorem cudaFinddevice_spec (devices : List (List Byte)) (hpart : numberSign ∉ part) :
    (foldName part ≠ [] → cudaFinddevice devices part =
        deviceIndex (devices.findIdx? (NameContains part ·))) ∧
      ∀ k, 1 ≤ k → k ≤ 9 → (foldName part ≠ [] ∨ ∀ name ∈ devices, foldName name ≠ []) →
        cudaFinddevice devices (part ++ [numberSign, BitVec.ofNat 8 (48 + k)]) =
          deviceIndex (devices.findIdxs (NameContains part ·))[k - 1]? := by
  constructor
  · intro hne
    rw [cudaFinddevice, finddeviceFrom_eq hpart hne]
    simp
  · intro k hk1 hk9 hne
    have hdigit : ∀ k < 10, (BitVec.ofNat 8 (48 + k)).toInt - 48 = k := by decide
    exact finddeviceFrom_hash hpart (hdigit k (by omega)) devices hne 0 0 hk1

end Devices

/-- Three devices, two of which are of one kind. -/
def threeDevices : List (List Byte) :=
  [ascii "GeForce GTX 1080", ascii "Tesla V100", ascii "GeForce GTX 1070"]

theorem cudaFinddevice_threeDevices :
    cudaFinddevice threeDevices (ascii "gt x1") =
        deviceIndex (threeDevices.findIdx? (NameContains (ascii "gt x1") ·)) ∧
      cudaFinddevice threeDevices (ascii "gt x1" ++ [numberSign, BitVec.ofNat 8 (48 + 2)]) =
        deviceIndex (threeDevices.findIdxs (NameContains (ascii "gt x1") ·))[2 - 1]? := by
  have hpart : numberSign ∉ ascii "gt x1" := by decide +kernel
  have hspec := cudaFinddevice_spec threeDevices hpart
  have hne : foldName (ascii "gt x1") ≠ [] := by decide +kernel
  exact ⟨hspec.1 hne, hspec.2 2 (by decide) (by decide) (Or.inl hne)⟩

example : cudaFinddevice threeDevices (ascii "gt x1#2") = 2 := by decide +kernel

end XmrMiner
