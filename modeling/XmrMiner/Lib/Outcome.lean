import Mathlib.Logic.Basic

/-!
# Outcomes of computations that may fail

A computation in `Except ε` returns a value or stops with an error.  Its outcome is described
by a condition on each: the errors that it may stop with, and what it returns otherwise.

## Main definitions

* `Yields E P x` — `x` stops with an error in `E`, or what it returns satisfies `P`.

## Main results

* `Yields.bind`, `Yields.foldlM` — the rules for one computation after another, and for a run
  of them with an invariant.
* `exists_of_bind` — what has been returned before.
-/

namespace Outcome

universe u v w

variable {ε : Type u} {α β : Type v} {γ : Type w} {E : ε → Prop}

/-- The computation stops with an error in `E`, or what it returns satisfies `P`. -/
def Yields (E : ε → Prop) (P : α → Prop) : Except ε α → Prop
  | .ok a => P a
  | .error e => E e

theorem Yields.mono {P Q : α → Prop} {x : Except ε α} (hx : Yields E P x)
    (h : ∀ a, P a → Q a) : Yields E Q x := by
  cases x with
  | error e => exact hx
  | ok a => exact h a hx

/-- **One computation after another.** -/
theorem Yields.bind {P : α → Prop} {Q : β → Prop} {x : Except ε α} {f : α → Except ε β}
    (hx : Yields E P x) (hf : ∀ a, P a → Yields E Q (f a)) : Yields E Q (x >>= f) := by
  cases x with
  | error e => exact hx
  | ok a => exact hf a hx

/-- **An invariant of the steps** holds behind a run. -/
theorem Yields.foldlM {I : α → Prop} {step : α → γ → Except ε α}
    (hstep : ∀ s c, I s → Yields E I (step s c)) (cs : List γ) {s : α} (hs : I s) :
    Yields E I (cs.foldlM step s) := by
  induction cs generalizing s with
  | nil => exact hs
  | cons c cs ih =>
    rw [List.foldlM_cons]
    exact (hstep s c hs).bind fun s' hs' => ih hs'

/-- An error that is not in `E` does not occur. -/
theorem Yields.ne_error {P : α → Prop} {x : Except ε α} (hx : Yields E P x) {e : ε} (he : ¬ E e) :
    x ≠ .error e := by
  rintro rfl
  exact he hx

/-- What has been returned before. -/
theorem exists_of_bind {x : Except ε α} {f : α → Except ε β} {b : β} (h : x >>= f = .ok b) :
    ∃ a, x = .ok a ∧ f a = .ok b := by
  cases x with
  | error e => cases h
  | ok a => exact ⟨a, rfl, h⟩

end Outcome
