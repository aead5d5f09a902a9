import Mathlib.Logic.Relation

/-!
# Runs of a labelled transition relation

A program whose parts take turns is a relation `step s e s'`: in state `s` the
event `e` may lead to `s'`.  A run is a list of events together with the states
it passes through; what holds of every state a run reaches is shown once and for
all from what holds at the start and what every step preserves.

## Main definitions

* `Run step s es s'` — the events `es` lead from `s` to `s'`.
* `restrict step good` — the steps that meet a condition on the state before and
  on the event.
* `machine possible next` — the steps of a machine that tells which events are
  possible, and what they do.
* `stepOf f` — the steps of a function that gives the state after an event, if there is one.
* `EachAfter P es` — each event meets a condition with the events before it.
* `Past step s P es` — one of the events has met a condition with the state before it.

## Main results

* `Run.invariant` — an invariant may speak of the events so far.
* `Run.of_legal`, `Run.of_foldlM` — a list of events that are possible one after the other
  is a run.
-/

namespace Trace

variable {σ ε : Type*}

/-- The events `es`, in order, lead from `s` to `s'`. -/
inductive Run (step : σ → ε → σ → Prop) (s : σ) : List ε → σ → Prop
  | nil : Run step s [] s
  | snoc {es : List ε} {e : ε} {s' s'' : σ} :
      Run step s es s' → step s' e s'' → Run step s (es ++ [e]) s''

/-- The steps that meet a condition on the state before and the event. -/
def restrict (step : σ → ε → σ → Prop) (good : σ → ε → Prop) (s : σ) (e : ε) (s' : σ) : Prop :=
  step s e s' ∧ good s e

variable {step step' : σ → ε → σ → Prop} {s s' s'' : σ} {es es' : List ε}

/-- **The induction rule for runs.** -/
theorem Run.invariant (inv : List ε → σ → Prop) (h : Run step s es s') (hinit : inv [] s)
    (hstep : ∀ es s' e s'', inv es s' → step s' e s'' → inv (es ++ [e]) s'') : inv es s' := by
  induction h with
  | nil => exact hinit
  | snoc _ hlast ih => exact hstep _ _ _ _ ih hlast

/-- The rule for an invariant of the state alone. -/
theorem Run.invariant_state (inv : σ → Prop) (h : Run step s es s') (hinit : inv s)
    (hstep : ∀ s' e s'', inv s' → step s' e s'' → inv s'') : inv s' :=
  Run.invariant (fun _ => inv) h hinit fun _ => hstep

/-- A run of one relation is one of every weaker relation. -/
theorem Run.mono (himp : ∀ s e s', step s e s' → step' s e s') (h : Run step s es s') :
    Run step' s es s' := by
  induction h with
  | nil => exact .nil
  | snoc _ hlast ih => exact ih.snoc (himp _ _ _ hlast)

theorem Run.trans (h : Run step s es s') (h' : Run step s' es' s'') :
    Run step s (es ++ es') s'' := by
  induction h' with
  | nil => simpa using h
  | snoc _ hlast ih =>
    rw [← List.append_assoc]
    exact ih.snoc hlast

theorem Run.single {e : ε} (h : step s e s') : Run step s [e] s' := Run.nil.snoc h

/-- The state between two parts of a run. -/
theorem Run.split (h : Run step s (es ++ es') s'') :
    ∃ s', Run step s es s' ∧ Run step s' es' s'' := by
  generalize hall : es ++ es' = all at h
  induction h generalizing es' with
  | nil =>
    obtain ⟨rfl, rfl⟩ := List.append_eq_nil_iff.mp hall
    exact ⟨s, .nil, .nil⟩
  | @snoc front e t t' hrun hlast ih =>
    rcases List.eq_nil_or_concat es' with rfl | ⟨back, x, rfl⟩
    · rw [List.append_nil] at hall
      subst hall
      exact ⟨_, hrun.snoc hlast, .nil⟩
    · rw [List.concat_eq_append, ← List.append_assoc] at hall
      obtain ⟨hfront, hx⟩ := List.append_inj' hall rfl
      obtain rfl := List.singleton_inj.mp hx
      obtain ⟨s', hfirst, hsecond⟩ := ih hfront
      rw [List.concat_eq_append]
      exact ⟨s', hfirst, hsecond.snoc hlast⟩

/-! ### Machines -/

/-- The steps of a machine that tells which events are possible, and what they do. -/
def machine (possible : σ → ε → Prop) (next : σ → ε → σ) (s : σ) (e : ε) (s' : σ) : Prop :=
  possible s e ∧ next s e = s'

/-- The events are possible one after the other. -/
def Legal (possible : σ → ε → Prop) (next : σ → ε → σ) : σ → List ε → Prop
  | _, [] => True
  | s, e :: es => possible s e ∧ Legal possible next (next s e) es

variable {possible : σ → ε → Prop} {next : σ → ε → σ}

instance decidableLegal [∀ s e, Decidable (possible s e)] :
    ∀ (s : σ) (es : List ε), Decidable (Legal possible next s es)
  | _, [] => inferInstanceAs (Decidable True)
  | s, e :: es =>
    have : Decidable (Legal possible next (next s e) es) := decidableLegal (next s e) es
    inferInstanceAs (Decidable (_ ∧ _))

theorem Run.of_legal (es : List ε) {s : σ} (h : Legal possible next s es) :
    Run (machine possible next) s es (es.foldl next s) := by
  induction es generalizing s with
  | nil => exact .nil
  | cons e es ih => exact (Run.single ⟨h.1, rfl⟩).trans (ih h.2)

theorem Run.restrict_of_legal {good : σ → ε → Prop} (es : List ε) {s : σ}
    (h : Legal (fun s e => possible s e ∧ good s e) next s es) :
    Run (restrict (machine possible next) good) s es (es.foldl next s) :=
  (Run.of_legal es h).mono fun _ _ _ hstep => ⟨⟨hstep.1.1, hstep.2⟩, hstep.1.2⟩

/-! ### Functions -/

/-- The steps of a function that gives the state after an event, if the event is possible. -/
def stepOf (f : σ → ε → Option σ) (s : σ) (e : ε) (s' : σ) : Prop := f s e = some s'

variable {f : σ → ε → Option σ}

theorem Run.of_foldlM (es : List ε) {s s' : σ} (h : es.foldlM f s = some s') :
    Run (stepOf f) s es s' := by
  induction es generalizing s with
  | nil =>
    obtain rfl : s = s' := Option.some.inj h
    exact .nil
  | cons e es ih =>
    rw [List.foldlM_cons] at h
    obtain ⟨s'', hstep, hrest⟩ := Option.bind_eq_some_iff.mp h
    exact (Run.single hstep).trans (ih hrest)

theorem Run.foldlM {es : List ε} {s s' : σ} (h : Run (stepOf f) s es s') :
    es.foldlM f s = some s' := by
  induction h with
  | nil => rfl
  | snoc _ hlast ih =>
    rw [List.foldlM_append, ih]
    simpa [stepOf] using hlast

/-- A function has one run for its events. -/
theorem Run.unique {es : List ε} {s s' s'' : σ} (h : Run (stepOf f) s es s')
    (h' : Run (stepOf f) s es s'') : s' = s'' :=
  Option.some.inj (h.foldlM.symm.trans h'.foldlM)

theorem Run.restrict_of_foldlM {good : σ → ε → Prop} [∀ s e, Decidable (good s e)] (es : List ε)
    {s s' : σ} (h : es.foldlM (fun s e => if good s e then f s e else none) s = some s') :
    Run (restrict (stepOf f) good) s es s' := by
  apply (Run.of_foldlM es h).mono
  intro s e s' hstep
  by_cases hgood : good s e
  · exact ⟨(if_pos hgood).symm.trans hstep, hgood⟩
  · cases (if_neg hgood).symm.trans hstep

/-! ### Histories -/

/-- Each event of the list meets the condition with the events before it. -/
def EachAfter (P : List ε → ε → Prop) (es : List ε) : Prop :=
  ∀ (before : List ε) (e : ε) (after : List ε), es = before ++ e :: after → P before e

variable {P : List ε → ε → Prop}

theorem eachAfter_nil : EachAfter P [] := by
  intro before e after h
  simp at h

theorem eachAfter_snoc {e : ε} : EachAfter P (es ++ [e]) ↔ EachAfter P es ∧ P es e := by
  constructor
  · intro h
    refine ⟨fun before x after heq => h before x (after ++ [e]) (by simp [heq]), ?_⟩
    exact h es e [] rfl
  · rintro ⟨hall, hlast⟩ before x after heq
    rcases List.eq_nil_or_concat after with rfl | ⟨after, y, rfl⟩
    · obtain ⟨rfl, hx⟩ := List.append_inj' heq rfl
      obtain rfl : e = x := by simpa using hx
      exact hlast
    · rw [List.concat_eq_append, ← List.cons_append, ← List.append_assoc] at heq
      exact hall before x after (List.append_inj' heq rfl).1

/-- One of the events meets the condition, with the events and the state before it. -/
def Past (step : σ → ε → σ → Prop) (s : σ) (P : List ε → σ → ε → Prop) (es : List ε) : Prop :=
  ∃ (before : List ε) (e : ε) (after : List ε) (s' : σ),
    es = before ++ e :: after ∧ Run step s before s' ∧ P before s' e

section Past

variable {Q : List ε → σ → ε → Prop}

/-- It stays so. -/
theorem Past.append (h : Past step s Q es) (es' : List ε) : Past step s Q (es ++ es') := by
  obtain ⟨before, e, after, s', rfl, hrest⟩ := h
  exact ⟨before, e, after ++ es', s', by simp, hrest⟩

/-- The last event. -/
theorem Run.past {e : ε} (h : Run step s es s') (hQ : Q es s' e) : Past step s Q (es ++ [e]) :=
  ⟨es, e, [], s', rfl, h, hQ⟩

/-- It was the last event, or one before it. -/
theorem past_snoc {e : ε} (h : Past step s Q (es ++ [e])) :
    Past step s Q es ∨ ∃ s', Run step s es s' ∧ Q es s' e := by
  obtain ⟨before, x, after, s', heq, hrun, hQ⟩ := h
  rcases List.eq_nil_or_concat after with rfl | ⟨after, y, rfl⟩
  · obtain ⟨rfl, hx⟩ := List.append_inj' heq rfl
    obtain rfl := List.singleton_inj.mp hx
    exact Or.inr ⟨s', hrun, hQ⟩
  · rw [List.concat_eq_append, ← List.cons_append, ← List.append_assoc] at heq
    exact Or.inl ⟨before, x, after, s', (List.append_inj' heq rfl).1, hrun, hQ⟩

end Past

end Trace
