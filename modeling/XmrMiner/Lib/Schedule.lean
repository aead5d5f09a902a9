import Mathlib.Data.List.Count
import Mathlib.Logic.Function.Basic

/-!
# Counted and interleaved loops

What is known of the state of a counted loop is indexed by the iterations that are
done.

A number of processes share a state, and a schedule lists them in the order in
which they take their steps.  Each of them runs a loop: it has a bounded number
of steps to take, after which a turn of it changes nothing.  What is known of the
state is indexed by how far each process has got, so that a schedule that gives
every process enough turns ends in one known place, whatever its order.

Where the processes share nothing, each of them goes its own way: a system in which every
event is the turn of one of them, and leaves the others alone, carries all of them along.

* `foldl_range_invariant`, `foldlM_range_invariant` — the invariant of a counted loop.
* `foldlM_range_family` — a counted loop that carries others along.
* `Interleaved` — an invariant that every step advances.
* `Interleaved.run` — the invariant after a schedule.
* `Interleaved.complete` — and after one that lets every process finish.
* `turnsOf` — the turns of a process among the events of a system.
* `Follows`, `Follows.run` — a system that carries processes along, and a run of it.
-/

/-- **The rule of a counted loop.** -/
theorem foldl_range_invariant {S : Type*} {f : S → ℕ → S} {P : ℕ → S → Prop} {s : S}
    (h0 : P 0 s) : ∀ n : ℕ, (∀ i < n, ∀ t, P i t → P (i + 1) (f t i)) →
      P n ((List.range n).foldl f s) := by
  intro n
  induction n with
  | zero => exact fun _ => h0
  | succ n ih =>
    intro hstep
    rw [List.range_succ, List.foldl_append, List.foldl_cons, List.foldl_nil]
    exact hstep n n.lt_succ_self _ (ih fun i hi => hstep i (by omega))

/-- **The rule of a counted loop that may end early**: no turn of it does. -/
theorem foldlM_range_invariant {S : Type*} {f : S → ℕ → Option S} {P : ℕ → S → Prop} {s : S}
    (h0 : P 0 s) : ∀ n : ℕ, (∀ i < n, ∀ t, P i t → ∃ t', f t i = some t' ∧ P (i + 1) t') →
      ∃ t, (List.range n).foldlM f s = some t ∧ P n t := by
  intro n
  induction n with
  | zero => exact fun _ => ⟨s, rfl, h0⟩
  | succ n ih =>
    intro hstep
    obtain ⟨t, hrun, ht⟩ := ih fun i hi => hstep i (by omega)
    obtain ⟨t', hlast, ht'⟩ := hstep n n.lt_succ_self t ht
    refine ⟨t', ?_, ht'⟩
    rw [List.range_succ, List.foldlM_append, hrun]
    simpa using hlast

/-- A loop ends early when one of its turns does so in every state. -/
theorem foldlM_eq_none {S E : Type*} {f : S → E → Option S} {e : E} (he : ∀ s, f s e = none)
    {es : List E} (hmem : e ∈ es) (s : S) : es.foldlM f s = none := by
  induction es generalizing s with
  | nil => cases hmem
  | cons e' es ih =>
    rw [List.foldlM_cons]
    rcases List.mem_cons.mp hmem with rfl | hmem
    · rw [he]
      rfl
    · cases f s e' with
      | none => rfl
      | some s' => exact ih hmem s'

/-- **The rule of a counted loop that carries a family of loops along.** -/
theorem foldlM_range_family {S T X : Type*} {f : S → ℕ → Option S} {g : T → X → ℕ → X}
    {R : S → (T → X) → Prop} {s : S} {x : T → X} (h0 : R s x) (n : ℕ)
    (hstep : ∀ i < n, ∀ s x, R s x → ∃ s', f s i = some s' ∧ R s' fun t => g t (x t) i) :
    ∃ s', (List.range n).foldlM f s = some s' ∧ R s' fun t => (List.range n).foldl (g t) (x t) := by
  refine foldlM_range_invariant
    (P := fun i s => R s fun t => (List.range i).foldl (g t) (x t)) h0 n ?_
  intro i hi s hs
  simp only [List.range_succ, List.foldl_append, List.foldl_cons, List.foldl_nil]
  exact hstep i hi s _ hs

/-- From a state of which `Inv b` holds, where process `i` has taken `b i` of its `n`
steps, a turn of process `i` takes the next one, or none when there is none left. -/
structure Interleaved {ι S : Type*} [DecidableEq ι] (step : S → ι → S) (n : ℕ)
    (Inv : (ι → ℕ) → S → Prop) : Prop where
  /-- A process that has steps left takes one. -/
  advance : ∀ b s i, Inv b s → b i < n → Inv (Function.update b i (b i + 1)) (step s i)
  /-- A process that has finished does nothing. -/
  stop : ∀ b s i, Inv b s → b i = n → step s i = s

namespace Interleaved

variable {ι S : Type*} [DecidableEq ι] {step : S → ι → S} {n : ℕ} {Inv : (ι → ℕ) → S → Prop}

/-- **After a schedule** every process has taken one step for each of its turns, up to
the end of its loop. -/
theorem run (h : Interleaved step n Inv) : ∀ (sched : List ι) (b : ι → ℕ) (s : S),
    (∀ i, b i ≤ n) → Inv b s →
      Inv (fun i => min n (b i + sched.count i)) (sched.foldl step s) := by
  intro sched
  induction sched with
  | nil =>
    intro b s hb hs
    have hmin : (fun i => min n (b i + ([] : List ι).count i)) = b := by
      funext i
      rw [List.count_nil, Nat.add_zero, Nat.min_eq_right (hb i)]
    rw [hmin]
    exact hs
  | cons j sched ih =>
    intro b s hb hs
    rw [List.foldl_cons]
    rcases Nat.lt_or_ge (b j) n with hlt | hge
    · have hb' : ∀ i, Function.update b j (b j + 1) i ≤ n := by
        intro i
        rcases eq_or_ne i j with rfl | hi
        · rw [Function.update_self]
          exact hlt
        · rw [Function.update_of_ne hi]
          exact hb i
      have hcount : (fun i => min n (b i + (j :: sched).count i))
          = fun i => min n (Function.update b j (b j + 1) i + sched.count i) := by
        funext i
        rcases eq_or_ne i j with rfl | hi
        · rw [Function.update_self, List.count_cons_self, Nat.add_right_comm, Nat.add_assoc]
        · rw [Function.update_of_ne hi, List.count_cons_of_ne hi.symm]
      rw [hcount]
      exact ih _ _ hb' (h.advance b s j hs hlt)
    · have hj : b j = n := Nat.le_antisymm (hb j) hge
      have hcount : (fun i => min n (b i + (j :: sched).count i))
          = fun i => min n (b i + sched.count i) := by
        funext i
        rcases eq_or_ne i j with rfl | hi
        · rw [List.count_cons_self]
          omega
        · rw [List.count_cons_of_ne hi.symm]
      rw [h.stop b s j hs hj, hcount]
      exact ih b s hb hs

/-- **A schedule with turns enough** for every process brings all of them to the end. -/
theorem complete (h : Interleaved step n Inv) {sched : List ι} {b : ι → ℕ} {s : S}
    (hb : ∀ i, b i ≤ n) (hs : Inv b s) (hsched : ∀ i, n ≤ b i + sched.count i) :
    Inv (fun _ => n) (sched.foldl step s) := by
  have hmin : (fun i => min n (b i + sched.count i)) = fun _ => n :=
    funext fun i => Nat.min_eq_left (hsched i)
  have hrun := h.run sched b s hb hs
  rwa [hmin] at hrun

end Interleaved

/-! ### Processes that go their own ways -/

section Turns

variable {E K Λ : Type*} [DecidableEq K] {turn : E → Option (K × Λ)} {k : K} {l : Λ} {e : E}
  {es : List E}

/-- The turns of process `k` among the events. -/
def turnsOf (turn : E → Option (K × Λ)) (k : K) (es : List E) : List Λ :=
  es.filterMap fun e => (turn e).bind fun t => if t.1 = k then some t.2 else none

theorem turnsOf_cons_self (h : turn e = some (k, l)) :
    turnsOf turn k (e :: es) = l :: turnsOf turn k es :=
  List.filterMap_cons_some (by rw [h, Option.bind_some, if_pos rfl])

theorem turnsOf_cons_of_ne {j : K} (h : turn e = some (j, l)) (hj : j ≠ k) :
    turnsOf turn k (e :: es) = turnsOf turn k es :=
  List.filterMap_cons_none (by rw [h, Option.bind_some, if_neg hj])

theorem turnsOf_cons_none (h : turn e = none) : turnsOf turn k (e :: es) = turnsOf turn k es :=
  List.filterMap_cons_none (by rw [h, Option.bind_none])

/-- A process has a turn for each of its events. -/
theorem count_le_count_turnsOf [BEq E] [LawfulBEq E] [BEq Λ] [LawfulBEq Λ]
    (h : turn e = some (k, l)) :
    es.count e ≤ (turnsOf turn k es).count l := by
  rw [turnsOf, List.count_filterMap, List.count_eq_countP]
  refine List.countP_mono_left fun e' _ he' => ?_
  rw [eq_of_beq he', h, Option.bind_some, if_pos rfl, beq_self_eq_true]

/-- A process that no event is a turn of. -/
theorem turnsOf_eq_nil (h : ∀ e l, turn e ≠ some (k, l)) : turnsOf turn k es = [] := by
  refine List.filterMap_eq_nil_iff.mpr fun e _ => ?_
  cases hturn : turn e with
  | none => rfl
  | some t => exact if_neg fun hk => h e t.2 (hturn.trans (congrArg some (Prod.ext hk rfl)))

end Turns

/-- A system carries a family of processes along, whose states are related to its own: an
event `e` with `turn e = some (k, l)` is a turn `l` of process `k` and leaves the other ones
alone, and any other event leaves all of them alone.  A turn may fail. -/
structure Follows {G E K Λ P : Type*} [DecidableEq K] (step : G → E → Option G)
    (turn : E → Option (K × Λ)) (act : K → P → Λ → Option P) (R : G → (K → P) → Prop) : Prop where
  /-- A turn of a process. -/
  own : ∀ g p e k l x, turn e = some (k, l) → R g p → act k (p k) l = some x →
    ∃ g', step g e = some g' ∧ R g' (Function.update p k x)
  /-- An event that is no turn. -/
  other : ∀ g p e, turn e = none → R g p → ∃ g', step g e = some g' ∧ R g' p

/-- Where every process has a relation of its own, a turn keeps that of its process and those of
the others. -/
theorem Follows.of_forall {G E K Λ P : Type*} [DecidableEq K] {step : G → E → Option G}
    {turn : E → Option (K × Λ)} {act : K → P → Λ → Option P} {S : K → Prop} {Q : K → G → P → Prop}
    (hown : ∀ (g : G) (p : K → P) e k l x, turn e = some (k, l) → (∀ k, S k → Q k g (p k)) →
      act k (p k) l = some x →
      ∃ g', step g e = some g' ∧ Q k g' x ∧ ∀ j, j ≠ k → S j → Q j g' (p j))
    (hother : ∀ g e, turn e = none → step g e = some g) :
    Follows step turn act fun g p => ∀ k, S k → Q k g (p k) where
  own g p e k l x hturn hR hact := by
    obtain ⟨g', hstep, hself, helse⟩ := hown g p e k l x hturn hR hact
    exact ⟨g', hstep, (Function.forall_update_iff p fun j y => S j → Q j g' y).mpr
      ⟨fun _ => hself, helse⟩⟩
  other g p e hturn hR := ⟨g, hother g e hturn, hR⟩

/-- **In a run of the system** each process goes as if it were alone, with its turns in their
order: if all of them get to an end, then the system does. -/
theorem Follows.run {G E K Λ P : Type*} [DecidableEq K] {step : G → E → Option G}
    {turn : E → Option (K × Λ)} {act : K → P → Λ → Option P} {R : G → (K → P) → Prop}
    (h : Follows step turn act R) (es : List E) {g : G} {p q : K → P} (hR : R g p)
    (hq : ∀ k, (turnsOf turn k es).foldlM (act k) (p k) = some (q k)) :
    ∃ g', es.foldlM step g = some g' ∧ R g' q := by
  induction es generalizing g p with
  | nil =>
    obtain rfl : p = q := funext fun k => Option.some.inj (hq k)
    exact ⟨g, rfl, hR⟩
  | cons e es ih =>
    simp only [List.foldlM_cons]
    cases hturn : turn e with
    | none =>
      obtain ⟨g', hstep, hR'⟩ := h.other g p e hturn hR
      rw [hstep]
      exact ih hR' fun k => by rw [← turnsOf_cons_none hturn, hq k]
    | some t =>
      obtain ⟨k, l⟩ := t
      have hk := hq k
      rw [turnsOf_cons_self hturn, List.foldlM_cons] at hk
      obtain ⟨x, hact, hrest⟩ := Option.bind_eq_some_iff.mp hk
      obtain ⟨g', hstep, hR'⟩ := h.own g p e k l x hturn hR hact
      rw [hstep]
      refine ih hR' fun j => ?_
      by_cases hj : j = k
      · subst hj
        rwa [Function.update_self]
      · rw [Function.update_of_ne hj, ← turnsOf_cons_of_ne hturn (Ne.symm hj), hq j]
