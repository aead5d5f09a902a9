import Mathlib.Data.Nat.Notation
import Mathlib.Logic.Function.Basic

/-!
# Slices of an array

An array is a function of the index, and a slice is a part of it as an array of its own, which
holds the default value behind its end.  Objects that have equal parts of one array, one behind
the other, do not see what is stored for the others.

* `slice`, `setSlice` — a part of an array, and the array with another one in its place.
* `slice_update`, `slice_setSlice` — what is stored into a slice.
* `slice_update_of_outside`, `slice_setSlice_of_disjoint` — what is stored elsewhere.
* `parts_disjoint` — parts of one length, one behind the other.
-/

namespace Slices

variable {α : Type*} [Inhabited α] {n n' p p' : ℕ} {L v : ℕ → α}

/-- The `n` entries from entry `p` on. -/
def slice (n p : ℕ) (L : ℕ → α) : ℕ → α := fun k => if k < n then L (p + k) else default

/-- The array with the first `n` entries of `v` from entry `p` on. -/
def setSlice (n p : ℕ) (v L : ℕ → α) : ℕ → α := fun q =>
  if p ≤ q ∧ q < p + n then v (q - p) else L q

/-- There is nothing behind the end. -/
def Ends (n : ℕ) (v : ℕ → α) : Prop := ∀ k, n ≤ k → v k = default

theorem slice_apply {k : ℕ} (h : k < n) : slice n p L k = L (p + k) := if_pos h

theorem ends_slice (n p : ℕ) (L : ℕ → α) : Ends n (slice n p L) := fun _ h =>
  if_neg (Nat.not_lt.mpr h)

/-- **What is stored into a slice** is found in it. -/
theorem slice_setSlice (hv : Ends n v) : slice n p (setSlice n p v L) = v := by
  funext k
  rcases Nat.lt_or_ge k n with h | h
  · have hin : p ≤ p + k ∧ p + k < p + n := by omega
    rw [slice_apply h, setSlice, if_pos hin, Nat.add_sub_cancel_left]
  · rw [ends_slice _ _ _ k h, hv k h]

/-- **A slice elsewhere** stays as it is. -/
theorem slice_setSlice_of_disjoint (h : p + n ≤ p' ∨ p' + n' ≤ p) :
    slice n' p' (setSlice n p v L) = slice n' p' L := by
  funext k
  unfold slice
  split
  · have hout : ¬(p ≤ p' + k ∧ p' + k < p + n) := by omega
    rw [setSlice, if_neg hout]
  · rfl

/-- One entry of a slice. -/
theorem slice_update {k : ℕ} (h : k < n) (a : α) :
    slice n p (Function.update L (p + k) a) = Function.update (slice n p L) k a := by
  funext j
  rcases eq_or_ne j k with rfl | hj
  · rw [slice_apply h, Function.update_self, Function.update_self]
  · have hne : p + j ≠ p + k := by omega
    rw [Function.update_of_ne hj]
    unfold slice
    rw [Function.update_of_ne hne]

/-- An entry elsewhere. -/
theorem slice_update_of_outside {q : ℕ} (h : q < p ∨ p + n ≤ q) (a : α) :
    slice n p (Function.update L q a) = slice n p L := by
  funext k
  unfold slice
  split
  · rw [Function.update_of_ne (by omega)]
  · rfl

/-- Parts of one length, one behind the other. -/
theorem parts_disjoint {t t' : ℕ} (n : ℕ) (h : t ≠ t') :
    (t + 1) * n ≤ t' * n ∨ (t' + 1) * n ≤ t * n := by
  rcases Nat.lt_or_gt_of_ne h with h | h
  · exact Or.inl (Nat.mul_le_mul_right n h)
  · exact Or.inr (Nat.mul_le_mul_right n h)

end Slices
