import XmrMiner.Util.ThreadQueue

/-!
# The order to terminate

`workio_thread` and `get_work` take a null pointer from `tq_pop` for the order to terminate.
A pop without a time returns one if it finds the ring empty after its wait, which is not
repeated: a wake-up without a signal, or one whose item another thread has taken, looks like
the end of the queue.

## Main definitions

* `workioThread`, `getWork` — what the two callers make of the values.
* `Tq.WakesForItem` — the condition on a wake-up.

## Main results

* `stopsWhenFrozen_iff` — the callers stop only when the queue was frozen if and only if
  the condition is met.
-/

namespace XmrMiner

open LinkedRing

variable {α ι : Type*}

/-! ### The callers -/

/-- The loop of `workio_thread` with the values of its pops so far, and `process` for what it
does with a command: whether the thread is still in it. -/
def workioThread (process : ι → Bool) : List (Option ι) → Bool
  | [] => true
  | none :: _ => false
  | some wc :: rest => process wc && workioThread process rest

/-- The result of `get_work`, from those of its push and its pop. -/
def getWork (pushed : Bool) (work : Option ι) : Bool := pushed && work.isSome

/-- The values of the pops of a thread without a time. -/
def popResults (t : ℕ) (h : List (TqRecord ι)) : List (Option ι) :=
  h.filterMap fun
    | .pop u false _ rval => if u = t then some rval else none
    | _ => none

/-- A null pointer comes after a freeze, if the pop was one without a time. -/
def NullMeansFrozen (before : List (TqRecord ι)) : TqRecord ι → Prop
  | .pop _ false _ none => .freezethaw true ∈ before
  | _ => True

/-- **The callers stop only when the queue was frozen.** -/
structure StopsWhenFrozen (h : List (TqRecord ι)) : Prop where
  /-- The pops. -/
  pops : Trace.EachAfter NullMeansFrozen h
  /-- `workio_thread` is still in its loop, or it has failed to process a command. -/
  workio : ∀ t process, workioThread process (popResults t h) = false →
    .freezethaw true ∈ h ∨ ∃ wc, some wc ∈ popResults t h ∧ process wc = false
  /-- `get_work` returns the work. -/
  getWork : ∀ t rval, rval ∈ popResults t h → getWork true rval = false → .freezethaw true ∈ h

theorem workioThread_eq_false {process : ι → Bool} {rvals : List (Option ι)}
    (h : workioThread process rvals = false) :
    none ∈ rvals ∨ ∃ wc, some wc ∈ rvals ∧ process wc = false := by
  induction rvals with
  | nil => cases h
  | cons rval rvals ih =>
    cases rval with
    | none => exact Or.inl List.mem_cons_self
    | some wc =>
      rcases (Bool.and_eq_false_iff).mp h with hwc | hrest
      · exact Or.inr ⟨wc, List.mem_cons_self, hwc⟩
      · rcases ih hrest with hnone | ⟨wc', hmem, hwc'⟩
        · exact Or.inl (List.mem_cons_of_mem _ hnone)
        · exact Or.inr ⟨wc', List.mem_cons_of_mem _ hmem, hwc'⟩

/-- What holds of the pops holds of the callers. -/
theorem stopsWhenFrozen_iff_pops {h : List (TqRecord ι)} :
    StopsWhenFrozen h ↔ Trace.EachAfter NullMeansFrozen h := by
  refine ⟨fun hstops => hstops.pops, fun hpops => ?_⟩
  have hnull : ∀ t, none ∈ popResults t h → .freezethaw true ∈ h := by
    intro t hmem
    obtain ⟨r, hr, hrval⟩ := List.mem_filterMap.mp hmem
    obtain ⟨before, after, rfl⟩ := List.append_of_mem hr
    have hfrozen := hpops before r after rfl
    split at hrval
    · next u took rval =>
      split at hrval
      · obtain rfl := Option.some.inj hrval
        exact List.mem_append_left _ hfrozen
      · cases hrval
    · cases hrval
  refine ⟨hpops, ?_, ?_⟩
  · intro t process hstop
    exact (workioThread_eq_false hstop).imp_left (hnull t)
  · intro t rval hmem hget
    cases rval with
    | none => exact hnull t hmem
    | some work => cases hget

/-! ### The condition -/

namespace Tq

variable [DecidableEq α] (q : α)

/-- The items that are pushed are no null pointers. -/
def PushesItem (_ : Tq α ι) : TqEvent α ι → Prop
  | .calloc _ _ data => data.isSome = true
  | _ => True

/-- A thread that waits without a time is woken for an item, or after a freeze. -/
def WakesForItem (s : Tq α ι) : TqEvent α ι → Prop
  | .wake t _ => s.pc t = .waiting false →
      listEmpty s.links q = false ∨ .freezethaw true ∈ s.history
  | _ => True

instance (s : Tq α ι) : (e : TqEvent α ι) → Decidable (s.PushesItem e)
  | .calloc _ _ _ => inferInstanceAs (Decidable (_ = _))
  | .noMemory _ | .push _ | .pop _ _ | .wake _ _ | .freezethaw _ => inferInstanceAs (Decidable True)

instance [DecidableEq ι] (s : Tq α ι) : (e : TqEvent α ι) → Decidable (s.WakesForItem q e)
  | .wake _ _ => inferInstanceAs (Decidable (_ → _ ∨ _))
  | .calloc _ _ _ | .noMemory _ | .push _ | .pop _ _ | .freezethaw _ =>
    inferInstanceAs (Decidable True)

/-- The entries hold items. -/
def HoldsItems (s : Tq α ι) : Prop := ∀ e, s.allocated e = true → (s.data e).isSome = true

variable {q} {s : Tq α ι} {ents : List α} {f : Fifo ι}

theorem HoldsItems.takeFirst (h : s.HoldsItems) (t : ℕ) (timed : Bool) :
    (s.takeFirst q t timed).HoldsItems := by
  unfold Tq.takeFirst
  split
  · exact h
  · next ent _ =>
    split
    · exact h
    · intro e he
      by_cases hee : e = ent
      · subst hee
        simp [Tq.returns, Tq.record, Tq.setPc, Tq.free] at he
      · exact h e (by simpa [Tq.returns, Tq.record, Tq.setPc, Tq.free, hee] using he)

theorem HoldsItems.next (h : s.HoldsItems) {e : TqEvent α ι} (hitem : s.PushesItem e) :
    (s.next q e).HoldsItems := by
  cases e with
  | calloc t ent data =>
    intro d hd
    by_cases hde : d = ent
    · subst hde
      simpa [Tq.next, PushesItem] using hitem
    · have halloc : s.allocated d = true := by
        simpa [Tq.next, Function.update_of_ne hde] using hd
      simpa [Tq.next, Function.update_of_ne hde] using h d halloc
  | noMemory t => exact h
  | push t =>
    simp only [Tq.next]
    split
    · next ent _ =>
      split
      · intro d hd
        by_cases hde : d = ent
        · subst hde
          simp [Tq.record, Tq.setPc, Tq.free] at hd
        · exact h d (by simpa [Tq.record, Tq.setPc, Tq.free, hde] using hd)
      · split <;> exact h
    · exact h
  | pop t timed =>
    simp only [Tq.next]
    split
    · exact h
    · exact h.takeFirst t timed
  | wake t timedOut =>
    simp only [Tq.next]
    split
    · split
      · exact h
      · split
        · exact h
        · exact h.takeFirst t _
    · exact h
  | freezethaw frozen => exact h

/-- A pop of a ring with entries returns an item. -/
theorem Holds.takeFirst_stops_iff (h : s.Holds q ents f) (hitems : s.HoldsItems)
    (hne : ¬ listEmpty s.links q = true) (t : ℕ) (timed : Bool) :
    Trace.EachAfter NullMeansFrozen (s.takeFirst q t timed).history ↔
      Trace.EachAfter NullMeansFrozen s.history := by
  cases ents with
  | nil => exact absurd ((listEmpty_iff h.ring).mpr rfl) hne
  | cons e ents =>
    have hfirst : s.links.IsRing q ([] ++ e :: ents) := h.ring
    obtain ⟨links, hdel, -⟩ := listDel_isRing hfirst
    have hnext : s.links.next q = some e := h.ring.path.next_first
    have hsome := hitems e (h.allocated e List.mem_cons_self)
    obtain ⟨item, hitem⟩ := Option.isSome_iff_exists.mp hsome
    unfold Tq.takeFirst
    simp only [hnext, hdel, hitem]
    refine Trace.eachAfter_snoc.trans (and_iff_left ?_)
    cases timed <;> trivial

/-- What a step adds to the history. -/
theorem Holds.next_stops_iff (h : s.Holds q ents f) (hitems : s.HoldsItems) {e : TqEvent α ι}
    (hpos : s.Possible q e) :
    Trace.EachAfter NullMeansFrozen (s.next q e).history ↔
      Trace.EachAfter NullMeansFrozen s.history ∧ s.WakesForItem q e := by
  cases e with
  | calloc t ent data => exact (and_iff_left trivial).symm
  | noMemory t => exact (and_iff_left trivial).symm
  | push t =>
    refine Iff.trans ?_ (and_iff_left trivial).symm
    simp only [Tq.next]
    split
    · split
      · exact Trace.eachAfter_snoc.trans (and_iff_left trivial)
      · split
        · exact Iff.rfl
        · exact Trace.eachAfter_snoc.trans (and_iff_left trivial)
    · exact Iff.rfl
  | pop t timed =>
    refine Iff.trans ?_ (and_iff_left trivial).symm
    simp only [Tq.next]
    split
    · exact Iff.rfl
    · next hne => exact h.takeFirst_stops_iff hitems hne t timed
  | wake t timedOut =>
    obtain ⟨timed, hpc, htimed⟩ := TqPc.canWake_iff.mp hpos
    simp only [Tq.next, hpc, WakesForItem]
    cases timed with
    | true =>
      simp only [TqPc.waiting.injEq, reduceCtorEq, false_imp_iff, and_true]
      split
      · exact Trace.eachAfter_snoc.trans (and_iff_left trivial)
      · split
        · exact Trace.eachAfter_snoc.trans (and_iff_left trivial)
        · next hne => exact h.takeFirst_stops_iff hitems hne t true
    | false =>
      have hno : timedOut ≠ true := fun hout => Bool.false_ne_true (htimed hout)
      rw [if_neg hno]
      simp only [true_imp_iff]
      split
      · next hempty =>
        rw [hempty, or_iff_right (by simp)]
        exact Trace.eachAfter_snoc
      · next hne =>
        rw [h.takeFirst_stops_iff hitems hne t false]
        exact (and_iff_left (Or.inl (eq_false_of_ne_true hne))).symm
  | freezethaw frozen => exact Trace.eachAfter_snoc

/-- **The callers stop only when the queue was frozen if and only if** a thread that waits
without a time is always woken for an item or after a freeze, in every run in which the
pushed items are no null pointers. -/
theorem stopsWhenFrozen_iff {α ι : Type*} [DecidableEq α] {q : α} {m : Links α}
    {data : α → Option ι} {es : List (TqEvent α ι)} {s : Tq α ι}
    (hrun : Trace.Run (Trace.restrict (Step q) PushesItem) (tqNew q m data) es s) :
    StopsWhenFrozen s.history ↔
      Trace.Run (Trace.restrict (Trace.restrict (Step q) PushesItem) (WakesForItem q))
        (tqNew q m data) es s := by
  have hstep : ∀ {es' : List (TqEvent α ι)} {s' : Tq α ι} {e : TqEvent α ι},
      Trace.Run (Trace.restrict (Step q) PushesItem) (tqNew q m data) es' s' → s'.Possible q e →
      (StopsWhenFrozen (s'.next q e).history ↔
        StopsWhenFrozen s'.history ∧ s'.WakesForItem q e) := by
    intro es' s' e hrun' hpos
    obtain ⟨ents, hholds⟩ := holds_of_run (hrun'.mono fun _ _ _ h => h.1)
    have hitems : s'.HoldsItems := hrun'.invariant_state HoldsItems (by simp [HoldsItems, tqNew])
      fun s e s' h hs => by
        obtain ⟨⟨-, rfl⟩, hitem⟩ := hs
        exact h.next hitem
    rw [stopsWhenFrozen_iff_pops, stopsWhenFrozen_iff_pops]
    exact hholds.next_stops_iff hitems hpos
  constructor
  · intro h
    induction hrun with
    | nil => exact .nil
    | snoc hrun' hlast ih =>
      obtain ⟨⟨hpos, rfl⟩, hitem⟩ := hlast
      obtain ⟨hbefore, hwakes⟩ := (hstep hrun' hpos).mp h
      exact (ih hbefore).snoc ⟨⟨⟨hpos, rfl⟩, hitem⟩, hwakes⟩
  · intro h
    induction h with
    | nil => exact stopsWhenFrozen_iff_pops.mpr Trace.eachAfter_nil
    | snoc hrun' hlast ih =>
      obtain ⟨⟨⟨hpos, rfl⟩, -⟩, hwakes⟩ := hlast
      have hrun'' := hrun'.mono fun _ _ _ h => h.1
      exact (hstep hrun'' hpos).mpr ⟨ih hrun'', hwakes⟩

/-- Two threads wait, and each is woken for an item; a third one is woken by a freeze. -/
theorem stopsWhenFrozen_of_three :
    let es : List (TqEvent ℕ ℕ) := [.pop 0 false, .pop 1 false, .calloc 2 7 (some 10), .push 2,
      .wake 1 false, .calloc 2 7 (some 20), .push 2, .wake 0 false, .pop 3 false,
      .freezethaw true, .wake 3 false]
    let s := es.foldl (next 0) (tqNew 0 ⟨fun _ => none, fun _ => none⟩ fun _ => none)
    StopsWhenFrozen s.history := by
  intro es s
  refine (stopsWhenFrozen_iff (Trace.Run.restrict_of_legal es (by decide +kernel))).mpr ?_
  have hrun : Trace.Run (Trace.restrict (Step 0) fun s e => s.PushesItem e ∧ s.WakesForItem 0 e)
      (tqNew 0 ⟨fun _ => none, fun _ => none⟩ fun _ => none) es s :=
    Trace.Run.restrict_of_legal es (by decide +kernel)
  exact hrun.mono fun _ _ _ h => ⟨⟨h.1, h.2.1⟩, h.2.2⟩

/-- A thread waits at the empty queue and is woken without a signal. -/
theorem not_stopsWhenFrozen_of_wake :
    ¬ ∀ (q : ℕ) (m : Links ℕ) (data : ℕ → Option ℕ) (es : List (TqEvent ℕ ℕ)) (s : Tq ℕ ℕ),
      Trace.Run (Trace.restrict (Step q) PushesItem) (tqNew q m data) es s →
        StopsWhenFrozen s.history := by
  intro h
  let es : List (TqEvent ℕ ℕ) := [.pop 0 false, .wake 0 false]
  have hrun : Trace.Run (Trace.restrict (Step 0) PushesItem)
      (tqNew 0 ⟨fun _ => none, fun _ => none⟩ fun _ => none) es _ :=
    Trace.Run.restrict_of_legal es (by decide +kernel)
  have hpops := (h 0 _ _ es _ hrun).pops
  have hfrozen := hpops [] (.pop 0 false false none) [] rfl
  exact absurd hfrozen List.not_mem_nil

end Tq

end XmrMiner
