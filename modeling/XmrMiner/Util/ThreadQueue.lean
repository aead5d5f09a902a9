import XmrMiner.Lib.LinkedRing
import XmrMiner.Lib.Trace

/-!
# The queues of the threads

A thread queue is a ring of entries, a flag, a mutex and a condition variable.  `tq_push`
puts its entry before the head of the ring unless the queue is frozen; `tq_pop` takes the
first entry, and waits once if there is none.

The blocks under the mutex are steps.  A thread that waits has released the mutex, and may
be woken at any time.  The entries are allocated from a heap that hands out the addresses
of freed entries again.

What the queue is for is told by a list of items, without a heap: the code goes through its
events with the same results.

## Main definitions

* `listAddTail`, `listDel`, `listEmpty` — the functions of `elist.h`.
* `Tq` — a queue, the heap of its entries and the threads that use it.
* `Tq.Possible`, `Tq.next` — the steps.
* `accepted`, `delivered`, `isFrozen` — what the history of a queue tells.
* `Fifo`, `Fifo.next` — the queue without its heap.

## Main results

* `Tq.Holds.next` — a step of the code is one of the list.
* `Tq.fifo_of_run` — the queue is an exactly-once queue, first in first out.
-/

namespace XmrMiner

open LinkedRing

/-! ### The list -/

section Elist

variable {α : Type*} [DecidableEq α]

/-- `INIT_LIST_HEAD`. -/
def initListHead (m : Links α) (ptr : α) : Links α :=
  (m.setNext ptr (some ptr)).setPrev ptr (some ptr)

/-- `__list_add`. -/
def listAdd (m : Links α) (lnew prev next : α) : Links α :=
  (((m.setPrev next (some lnew)).setNext lnew (some next)).setPrev lnew (some prev)).setNext prev
    (some lnew)

/-- `list_add_tail`: none if a null pointer is used. -/
def listAddTail (m : Links α) (lnew head : α) : Option (Links α) :=
  (m.prev head).map fun prev => listAdd m lnew prev head

/-- `__list_del`. -/
def listDelBetween (m : Links α) (prev next : α) : Links α :=
  (m.setPrev next (some prev)).setNext prev (some next)

/-- `list_del`: none if a null pointer is used. -/
def listDel (m : Links α) (entry : α) : Option (Links α) :=
  match m.prev entry, m.next entry with
  | some prev, some next =>
    some (((listDelBetween m prev next).setNext entry none).setPrev entry none)
  | _, _ => none

/-- `list_empty`. -/
def listEmpty (m : Links α) (head : α) : Bool := m.next head = some head

variable {m : Links α} {head x : α} {xs ys : List α}

theorem initListHead_isRing (m : Links α) (head : α) : (initListHead m head).IsRing head [] :=
  Links.isRing_nil.mpr ⟨by simp [initListHead], by simp [initListHead]⟩

/-- A ring elsewhere. -/
theorem initListHead_congr (h : m.IsRing head xs) (hx : x ∉ head :: xs) :
    (initListHead m x).IsRing head xs := by
  apply h.congr <;> intro c hc
  · exact Links.setNext_next_of_ne (ne_of_mem_of_not_mem hc hx)
  · exact Links.setPrev_prev_of_ne (ne_of_mem_of_not_mem hc hx)

theorem listEmpty_iff (h : m.IsRing head xs) : listEmpty m head = true ↔ xs = [] := by
  rw [listEmpty, decide_eq_true_iff, h.next_head_eq_self_iff]

/-- A new node becomes the last member. -/
theorem listAddTail_isRing (h : m.IsRing head xs) (hx : x ∉ head :: xs) :
    ∃ m', listAddTail m x head = some m' ∧ m'.IsRing head (xs ++ [x]) := by
  have hlast : xs.getLastD head ≠ x := ne_of_mem_of_not_mem (List.getLastD_mem_cons ..) hx
  have hhead : head ≠ x := ne_of_mem_of_not_mem List.mem_cons_self hx
  refine ⟨_, by rw [listAddTail, h.path.prev_last, Option.map_some], ?_⟩
  apply h.insert_last hx
  · exact ⟨by simp [listAdd], by simp [listAdd]⟩
  · constructor
    · rw [listAdd, Links.setNext_next_of_ne hlast.symm]
      simp
    · rw [listAdd, Links.setNext_prev, Links.setPrev_prev_of_ne hhead]
      simp
  · intro c hc hne
    have hcx : c ≠ x := ne_of_mem_of_not_mem hc hx
    rw [listAdd, Links.setNext_next_of_ne hne, Links.setPrev_next, Links.setNext_next_of_ne hcx,
      Links.setPrev_next]
  · intro c hc
    have hcx : c ≠ x := ne_of_mem_of_not_mem (List.mem_cons_of_mem _ hc) hx
    have hch : c ≠ head := ne_of_mem_of_not_mem hc (List.nodup_cons.mp h.nodup).1
    rw [listAdd, Links.setNext_prev, Links.setPrev_prev_of_ne hcx, Links.setNext_prev,
      Links.setPrev_prev_of_ne hch]

/-- Any member can be taken out. -/
theorem listDel_isRing (h : m.IsRing head (xs ++ x :: ys)) :
    ∃ m', listDel m x = some m' ∧ m'.IsRing head (xs ++ ys) := by
  obtain ⟨hfront, hback⟩ := Links.path_append.mp h.path
  obtain ⟨hnodup, hnodup', hdisjoint⟩ := List.nodup_append.mp (List.cons_append ▸ h.nodup)
  have hx : ∀ c ∈ head :: (xs ++ ys), c ≠ x := by
    intro c hc
    rw [← List.cons_append] at hc
    rcases List.mem_append.mp hc with hc | hc
    · exact hdisjoint c hc x List.mem_cons_self
    · exact ne_of_mem_of_not_mem hc (List.nodup_cons.mp hnodup').1
  have hlast : xs.getLastD head ≠ x :=
    hdisjoint _ (List.getLastD_mem_cons ..) x List.mem_cons_self
  have hfirst : ys.headD head ≠ x := by
    apply hx
    cases ys <;> simp
  refine ⟨_, by rw [listDel, hfront.prev_last, hback.next_first], ?_⟩
  apply h.erase
  · constructor
    · rw [Links.setPrev_next, Links.setNext_next_of_ne hlast]
      simp [listDelBetween]
    · rw [Links.setPrev_prev_of_ne hfirst, Links.setNext_prev, listDelBetween]
      simp
  · intro c hc hne
    rw [Links.setPrev_next, Links.setNext_next_of_ne (hx c hc), listDelBetween,
      Links.setNext_next_of_ne hne, Links.setPrev_next]
  · intro c hc hne
    rw [Links.setPrev_prev_of_ne (hx c hc), Links.setNext_prev, listDelBetween, Links.setNext_prev,
      Links.setPrev_prev_of_ne hne]

end Elist

/-! ### The queue -/

/-- Where a thread is: outside, in `tq_push` with its entry filled, or in `tq_pop`, where it
waits, up to a time or without one. -/
inductive TqPc (α : Type*)
  | idle
  | filled (ent : α)
  | waiting (timed : Bool)
  deriving DecidableEq

/-- The thread has filled an entry. -/
def TqPc.isFilled {α : Type*} : TqPc α → Bool
  | .filled _ => true
  | _ => false

/-- The thread waits, up to a time if its time is over. -/
def TqPc.canWake {α : Type*} (timedOut : Bool) : TqPc α → Bool
  | .waiting timed => timed || !timedOut
  | _ => false

theorem TqPc.isFilled_iff {α : Type*} {pc : TqPc α} :
    pc.isFilled = true ↔ ∃ ent, pc = .filled ent := by
  cases pc <;> simp [TqPc.isFilled]

theorem TqPc.canWake_iff {α : Type*} {pc : TqPc α} {timedOut : Bool} :
    pc.canWake timedOut = true ↔
      ∃ timed, pc = .waiting timed ∧ (timedOut = true → timed = true) := by
  cases pc with
  | waiting timed => cases timed <;> cases timedOut <;> simp [TqPc.canWake]
  | _ => simp [TqPc.canWake]

/-- What is remembered of a block: the item of a push and its result, what a pop of a thread
returned and whether it took an entry, or a freeze or a thaw. -/
inductive TqRecord (ι : Type*)
  | push (data : Option ι) (rc : Bool)
  | pop (t : ℕ) (timed took : Bool) (rval : Option ι)
  | freezethaw (frozen : Bool)
  deriving DecidableEq

/-- A queue, with the entries of its heap and the threads that use it.  Items are pointers.
The last two fields are not in the program. -/
structure Tq (α ι : Type*) where
  /-- The pointers of the head and the entries. -/
  links : Links α
  /-- `data` of the entries. -/
  data : α → Option ι
  /-- The entries that are allocated. -/
  allocated : α → Bool
  /-- `frozen`. -/
  frozen : Bool
  /-- Where the threads are. -/
  pc : ℕ → TqPc α
  /-- A null pointer was used. -/
  fault : Bool
  /-- The history. -/
  history : List (TqRecord ι)

/-- The events. -/
inductive TqEvent (α ι : Type*)
  /-- `tq_push` up to its lock. -/
  | calloc (t : ℕ) (ent : α) (data : Option ι)
  /-- `tq_push` without memory, which returns false. -/
  | noMemory (t : ℕ)
  /-- The block of `tq_push`. -/
  | push (t : ℕ)
  /-- The block of `tq_pop`, up to its end or the wait. -/
  | pop (t : ℕ) (timed : Bool)
  /-- A thread is woken, by a signal, without one, or since its time is over. -/
  | wake (t : ℕ) (timedOut : Bool)
  /-- `tq_freezethaw`. -/
  | freezethaw (frozen : Bool)

/-- The items that were accepted. -/
def accepted {ι : Type*} (h : List (TqRecord ι)) : List (Option ι) :=
  h.filterMap fun
    | .push data true => some data
    | _ => none

/-- The items that were delivered. -/
def delivered {ι : Type*} (h : List (TqRecord ι)) : List (Option ι) :=
  h.filterMap fun
    | .pop _ _ true rval => some rval
    | _ => none

/-- The queue is frozen after the history. -/
def isFrozen {ι : Type*} (h : List (TqRecord ι)) : Bool :=
  h.foldl (fun b r => match r with
    | .freezethaw frozen => frozen
    | _ => b) false

/-- A push returns true if and only if the queue was not frozen. -/
def PushAnswers {ι : Type*} (before : List (TqRecord ι)) : TqRecord ι → Prop
  | .push _ rc => rc = !isFrozen before
  | _ => True

namespace Tq

variable {α ι : Type*} (q : α)

section Steps

variable [DecidableEq α]

/-- A thread moves on. -/
def setPc (s : Tq α ι) (t : ℕ) (pc : TqPc α) : Tq α ι :=
  { s with pc := Function.update s.pc t pc }

/-- A record is added to the history. -/
def record (s : Tq α ι) (r : TqRecord ι) : Tq α ι := { s with history := s.history ++ [r] }

/-- An entry is freed. -/
def free (s : Tq α ι) (ent : α) : Tq α ι :=
  { s with allocated := Function.update s.allocated ent false }

/-- A thread returns from `tq_pop`. -/
def returns (s : Tq α ι) (t : ℕ) (timed took : Bool) (rval : Option ι) : Tq α ι :=
  (s.setPc t .idle).record (.pop t timed took rval)

/-- The end of `tq_pop` from its label `pop` on. -/
def takeFirst (s : Tq α ι) (t : ℕ) (timed : Bool) : Tq α ι :=
  match s.links.next q with
  | none => { s with fault := true }
  | some ent =>
    match listDel s.links ent with
    | none => { s with fault := true }
    | some links => ({ s with links := links }.free ent).returns t timed true (s.data ent)

/-- When an event is possible. -/
def Possible (s : Tq α ι) : TqEvent α ι → Prop
  | .calloc t ent _ => s.pc t = .idle ∧ s.allocated ent = false ∧ ent ≠ q
  | .noMemory t | .pop t _ => s.pc t = .idle
  | .push t => (s.pc t).isFilled = true
  | .wake t timedOut => (s.pc t).canWake timedOut = true
  | .freezethaw _ => True

instance (s : Tq α ι) : (e : TqEvent α ι) → Decidable (s.Possible q e)
  | .calloc _ _ _ => inferInstanceAs (Decidable (_ ∧ _ ∧ _))
  | .noMemory _ | .push _ | .pop _ _ | .wake _ _ => inferInstanceAs (Decidable (_ = _))
  | .freezethaw _ => inferInstanceAs (Decidable True)

/-- What an event does. -/
def next (s : Tq α ι) : TqEvent α ι → Tq α ι
  | .calloc t ent data =>
    { s.setPc t (.filled ent) with
      allocated := Function.update s.allocated ent true
      data := Function.update s.data ent data
      links := initListHead s.links ent }
  | .noMemory _ => s
  | .push t =>
    match s.pc t with
    | .filled ent =>
      if s.frozen then ((s.free ent).setPc t .idle).record (.push (s.data ent) false)
      else
        match listAddTail s.links ent q with
        | none => { s with fault := true }
        | some links =>
          ({ s with links := links }.setPc t .idle).record (.push (s.data ent) true)
    | _ => s
  | .pop t timed =>
    if listEmpty s.links q then s.setPc t (.waiting timed) else s.takeFirst q t timed
  | .wake t timedOut =>
    match s.pc t with
    | .waiting timed =>
      if timedOut then s.returns t timed false none
      else if listEmpty s.links q then s.returns t timed false none
      else s.takeFirst q t timed
    | _ => s
  | .freezethaw frozen => { s with frozen := frozen }.record (.freezethaw frozen)

/-- The steps. -/
def Step : Tq α ι → TqEvent α ι → Tq α ι → Prop := Trace.machine (Possible q) (next q)

/-- `tq_new`, with nothing allocated yet. -/
def tqNew (m : Links α) (data : α → Option ι) : Tq α ι where
  links := initListHead m q
  data := data
  allocated _ := false
  frozen := false
  pc _ := .idle
  fault := false
  history := []

end Steps

end Tq

/-! ### The queue without its heap -/

/-- Where a thread is, without its entry. -/
inductive FifoPc (ι : Type*)
  /-- Outside. -/
  | idle
  /-- In `tq_push`, with the item. -/
  | filled (data : Option ι)
  /-- In `tq_pop`, where it waits. -/
  | waiting (timed : Bool)

/-- What is seen of a thread without the heap. -/
def TqPc.view {α ι : Type*} (data : α → Option ι) : TqPc α → FifoPc ι
  | .idle => .idle
  | .filled ent => .filled (data ent)
  | .waiting timed => .waiting timed

/-- **What the queue is for**: its items in their order, with the results of the calls. -/
structure Fifo (ι : Type*) where
  /-- The items. -/
  items : List (Option ι)
  /-- Whether it is frozen. -/
  frozen : Bool
  /-- Where the threads are. -/
  pc : ℕ → FifoPc ι
  /-- The results so far. -/
  history : List (TqRecord ι)

namespace Fifo

variable {α ι : Type*}

/-- A queue without items. -/
def new : Fifo ι := ⟨[], false, fun _ => .idle, []⟩

/-- A call of a thread returns with this result. -/
def returns (f : Fifo ι) (t : ℕ) (r : TqRecord ι) : Fifo ι :=
  { f with pc := Function.update f.pc t .idle, history := f.history ++ [r] }

/-- What an event does: a push that finds the queue thawed puts its item at the end and returns
true, a pop takes the first item, if there is one. -/
def next (f : Fifo ι) : TqEvent α ι → Fifo ι
  | .calloc t _ data => { f with pc := Function.update f.pc t (.filled data) }
  | .noMemory _ => f
  | .push t =>
    match f.pc t with
    | .filled data =>
      if f.frozen then f.returns t (.push data false)
      else { f with items := f.items ++ [data] }.returns t (.push data true)
    | _ => f
  | .pop t timed =>
    match f.items with
    | [] => { f with pc := Function.update f.pc t (.waiting timed) }
    | data :: items => { f with items := items }.returns t (.pop t timed true data)
  | .wake t timedOut =>
    match f.pc t with
    | .waiting timed =>
      match timedOut, f.items with
      | true, _ | false, [] => f.returns t (.pop t timed false none)
      | false, data :: items => { f with items := items }.returns t (.pop t timed true data)
    | _ => f
  | .freezethaw frozen => { f with frozen := frozen, history := f.history ++ [.freezethaw frozen] }

/-- The queue after the events. -/
def ofEvents (es : List (TqEvent α ι)) : Fifo ι := es.foldl next new

theorem ofEvents_snoc (es : List (TqEvent α ι)) (e : TqEvent α ι) :
    ofEvents (es ++ [e]) = (ofEvents es).next e := List.foldl_concat ..

/-- The results tell what is in the queue. -/
structure Accounts (f : Fifo ι) : Prop where
  /-- The accepted items are those delivered, followed by the others. -/
  items : accepted f.history = delivered f.history ++ f.items
  /-- The flag. -/
  frozen : f.frozen = isFrozen f.history
  /-- The results of the pushes. -/
  answers : Trace.EachAfter PushAnswers f.history

variable {f : Fifo ι}

/-- A result that is no freeze, with what it does to the items. -/
theorem Accounts.returns (h : f.Accounts) {items : List (Option ι)} (t : ℕ) {r : TqRecord ι}
    (hitems : accepted (f.history ++ [r]) = delivered (f.history ++ [r]) ++ items)
    (hfrozen : isFrozen (f.history ++ [r]) = isFrozen f.history)
    (hanswer : PushAnswers f.history r) : ({ f with items := items }.returns t r).Accounts where
  items := hitems
  frozen := h.frozen.trans hfrozen.symm
  answers := Trace.eachAfter_snoc.mpr ⟨h.answers, hanswer⟩

theorem Accounts.push (h : f.Accounts) (t : ℕ) (data : Option ι) (hthawed : f.frozen = false) :
    ({ f with items := f.items ++ [data] }.returns t (.push data true)).Accounts := by
  refine h.returns t ?_ (by simp [isFrozen]) ?_
  · have hitems := h.items
    simp only [accepted, delivered] at hitems
    simp [accepted, delivered, hitems]
  · show true = !isFrozen f.history
    rw [← h.frozen, hthawed]
    rfl

theorem Accounts.refuse (h : f.Accounts) (t : ℕ) (data : Option ι) (hfrozen : f.frozen = true) :
    (f.returns t (.push data false)).Accounts := by
  refine h.returns t ?_ (by simp [isFrozen]) ?_
  · simpa [accepted, delivered] using h.items
  · show false = !isFrozen f.history
    rw [← h.frozen, hfrozen]
    rfl

theorem Accounts.take (h : f.Accounts) (t : ℕ) (timed : Bool) {data : Option ι}
    {items : List (Option ι)} (hitems : f.items = data :: items) :
    ({ f with items := items }.returns t (.pop t timed true data)).Accounts := by
  refine h.returns t ?_ (by simp [isFrozen]) trivial
  have hall := h.items
  rw [hitems] at hall
  simp only [accepted, delivered] at hall
  simp [accepted, delivered, hall]

theorem Accounts.giveUp (h : f.Accounts) (t : ℕ) (timed : Bool) :
    (f.returns t (.pop t timed false none)).Accounts :=
  h.returns t (by simpa [accepted, delivered] using h.items) (by simp [isFrozen]) trivial

/-- What every event keeps. -/
theorem Accounts.next (h : f.Accounts) (e : TqEvent α ι) : (f.next e).Accounts := by
  cases e with
  | calloc t ent data => exact ⟨h.items, h.frozen, h.answers⟩
  | noMemory t => exact h
  | push t =>
    dsimp only [Fifo.next]
    split
    · next data hpc =>
      by_cases hfrozen : f.frozen = true
      · rw [if_pos hfrozen]
        exact h.refuse t data hfrozen
      · rw [if_neg hfrozen]
        exact h.push t data (eq_false_of_ne_true hfrozen)
    · exact h
  | pop t timed =>
    dsimp only [Fifo.next]
    split
    · exact ⟨h.items, h.frozen, h.answers⟩
    · next data items hitems => exact h.take t timed hitems
  | wake t timedOut =>
    dsimp only [Fifo.next]
    split
    · next timed hpc =>
      split
      · exact h.giveUp t timed
      · exact h.giveUp t timed
      · next data items hitems => exact h.take t timed hitems
    · exact h
  | freezethaw frozen =>
    refine ⟨?_, ?_, Trace.eachAfter_snoc.mpr ⟨h.answers, trivial⟩⟩
    · simpa [Fifo.next, accepted, delivered] using h.items
    · simp [Fifo.next, isFrozen]

theorem Accounts.foldl (h : f.Accounts) (es : List (TqEvent α ι)) :
    (es.foldl Fifo.next f).Accounts := by
  induction es generalizing f with
  | nil => exact h
  | cons e es ih => exact ih (h.next e)

theorem accounts_ofEvents (es : List (TqEvent α ι)) : (ofEvents es).Accounts :=
  Accounts.foldl ⟨rfl, rfl, Trace.eachAfter_nil⟩ es

end Fifo

namespace Tq

/-! ### What the steps preserve -/

variable {α ι : Type*} (q : α)

/-- The ring holds the items of the queue, in their order. -/
structure Holds (s : Tq α ι) (ents : List α) (f : Fifo ι) : Prop where
  /-- The ring. -/
  ring : s.links.IsRing q ents
  /-- Its entries are allocated. -/
  allocated : ∀ e ∈ ents, s.allocated e = true
  /-- The head is no entry. -/
  head : s.allocated q = false
  /-- The entry of a push is allocated, and in no ring yet. -/
  filled : ∀ t e, s.pc t = .filled e → s.allocated e = true ∧ e ∉ ents
  /-- Each push has its own. -/
  own : ∀ t u e, s.pc t = .filled e → s.pc u = .filled e → t = u
  /-- The items. -/
  items : f.items = ents.map s.data
  /-- The flag. -/
  frozen : f.frozen = s.frozen
  /-- The threads. -/
  pc : ∀ t, f.pc t = (s.pc t).view s.data
  /-- The results. -/
  history : f.history = s.history
  /-- No null pointer was used. -/
  fault : s.fault = false

variable {q} {s : Tq α ι} {ents : List α} {f : Fifo ι}

/-- A thread moves on, to no entry. -/
theorem Holds.setPc (h : s.Holds q ents f) (t : ℕ) (pc : TqPc α) (hpc : ∀ e, pc ≠ .filled e) :
    (s.setPc t pc).Holds q ents { f with pc := Function.update f.pc t (pc.view s.data) } := by
  have hold : ∀ u e, (s.setPc t pc).pc u = .filled e → s.pc u = .filled e := by
    intro u e hu
    by_cases hut : u = t
    · subst hut
      exact absurd (by simpa [Tq.setPc] using hu) (hpc e)
    · simpa [Tq.setPc, Function.update_of_ne hut] using hu
  refine { h with
    filled := fun u e hu => h.filled u e (hold u e hu)
    own := fun u v e hu hv => h.own u v e (hold u e hu) (hold v e hv)
    pc := fun u => ?_ }
  by_cases hut : u = t
  · subst hut
    simp [Tq.setPc]
  · simpa [Tq.setPc, Function.update_of_ne hut] using h.pc u

/-- A result. -/
theorem Holds.record (h : s.Holds q ents f) (r : TqRecord ι) :
    (s.record r).Holds q ents { f with history := f.history ++ [r] } :=
  { h with history := congrArg (· ++ [r]) h.history }

/-- A thread returns. -/
theorem Holds.returns (h : s.Holds q ents f) (t : ℕ) (r : TqRecord ι) :
    ((s.setPc t .idle).record r).Holds q ents (f.returns t r) :=
  (h.setPc t .idle (by simp)).record r

variable [DecidableEq α]

/-- An entry that is in no ring is freed, and none of the threads has it. -/
theorem Holds.free (h : s.Holds q ents f) {ent : α} (hmem : ent ∉ ents)
    (hpc : ∀ t, s.pc t ≠ .filled ent) : (s.free ent).Holds q ents f := by
  have hfree : ∀ d, d ≠ ent → (s.free ent).allocated d = s.allocated d :=
    fun d hd => Function.update_of_ne hd ..
  refine { h with allocated := ?_, head := ?_, filled := ?_ }
  · intro d hd
    exact (hfree d (ne_of_mem_of_not_mem hd hmem)).trans (h.allocated d hd)
  · by_cases hq : q = ent
    · subst hq
      exact Function.update_self ..
    · exact (hfree q hq).trans h.head
  · intro u d hu
    have hne : d ≠ ent := fun hd => hpc u (hd ▸ hu)
    exact ⟨(hfree d hne).trans (h.filled u d hu).1, (h.filled u d hu).2⟩

/-- The first entry is taken. -/
theorem Holds.takeFirst {e : α} (h : s.Holds q (e :: ents) f) (t : ℕ) (timed : Bool) :
    (s.takeFirst q t timed).Holds q ents
      ({ f with items := ents.map s.data }.returns t (.pop t timed true (s.data e))) := by
  have hfirst : s.links.IsRing q ([] ++ e :: ents) := h.ring
  obtain ⟨links, hdel, hring⟩ := listDel_isRing hfirst
  have hnext : s.links.next q = some e := h.ring.path.next_first
  have hfresh : e ∉ ents := (List.nodup_cons.mp (List.nodup_cons.mp h.ring.nodup).2).1
  unfold Tq.takeFirst
  simp only [hnext, hdel]
  -- the entry is out of the ring, and still allocated
  have hout : { s with links := links }.Holds q ents { f with items := ents.map s.data } :=
    { h with
      ring := hring
      allocated := fun d hd => h.allocated d (List.mem_cons_of_mem _ hd)
      filled := fun u d hu => ⟨(h.filled u d hu).1,
        fun hd => (h.filled u d hu).2 (List.mem_cons_of_mem _ hd)⟩
      items := rfl }
  refine (hout.free hfresh fun u hu => ?_).returns t _
  exact (h.filled u e hu).2 List.mem_cons_self

/-- A pop of a ring with entries. -/
theorem Holds.takeFirst_of_not_empty (h : s.Holds q ents f) (hne : ¬ listEmpty s.links q = true)
    (t : ℕ) (timed : Bool) : ∃ data items ents', f.items = data :: items ∧
      (s.takeFirst q t timed).Holds q ents'
        ({ f with items := items }.returns t (.pop t timed true data)) := by
  cases ents with
  | nil => exact absurd ((listEmpty_iff h.ring).mpr rfl) hne
  | cons e ents => exact ⟨s.data e, ents.map s.data, ents, h.items, h.takeFirst t timed⟩

theorem Holds.items_of_empty (h : s.Holds q ents f) (hempty : listEmpty s.links q = true) :
    f.items = [] := by
  rw [h.items, (listEmpty_iff h.ring).mp hempty, List.map_nil]

/-- An entry is allocated and filled. -/
theorem Holds.calloc (h : s.Holds q ents f) {t : ℕ} {ent : α} {data : Option ι}
    (hpos : s.Possible q (.calloc t ent data)) :
    (s.next q (.calloc t ent data)).Holds q ents (f.next (.calloc t ent data)) := by
  obtain ⟨-, hnew, hq⟩ := hpos
  have hmem : ent ∉ ents := by
    intro hmem
    rw [h.allocated ent hmem] at hnew
    cases hnew
  have hold : ∀ d, d ≠ ent → (s.next q (.calloc t ent data)).allocated d = s.allocated d :=
    fun d hd => Function.update_of_ne hd ..
  have hself : (s.next q (.calloc t ent data)).allocated ent = true := Function.update_self ..
  -- the other pushes have filled other entries
  have hne : ∀ u d, s.pc u = .filled d → d ≠ ent := by
    rintro u d hu rfl
    rw [(h.filled u d hu).1] at hnew
    cases hnew
  have hpc : ∀ u d, (s.next q (.calloc t ent data)).pc u = .filled d →
      u = t ∧ d = ent ∨ u ≠ t ∧ s.pc u = .filled d ∧ d ≠ ent := by
    intro u d hu
    by_cases hut : u = t
    · subst hut
      exact Or.inl ⟨rfl, by simpa [Tq.next, Tq.setPc, eq_comm] using hu⟩
    · have hu' : s.pc u = .filled d := by
        simpa [Tq.next, Tq.setPc, Function.update_of_ne hut] using hu
      exact Or.inr ⟨hut, hu', hne u d hu'⟩
  constructor
  · exact initListHead_congr h.ring (by simp [hmem, hq])
  · intro d hd
    exact (hold d (ne_of_mem_of_not_mem hd hmem)).trans (h.allocated d hd)
  · exact (hold q hq.symm).trans h.head
  · intro u d hu
    rcases hpc u d hu with ⟨-, rfl⟩ | ⟨-, hu', hd⟩
    · exact ⟨hself, hmem⟩
    · exact ⟨(hold d hd).trans (h.filled u d hu').1, (h.filled u d hu').2⟩
  · intro u v d hu hv
    rcases hpc u d hu with ⟨rfl, rfl⟩ | ⟨-, hu', hd⟩
    · rcases hpc v d hv with ⟨rfl, -⟩ | ⟨-, -, hd⟩
      · rfl
      · exact absurd rfl hd
    · rcases hpc v d hv with ⟨-, rfl⟩ | ⟨-, hv', -⟩
      · exact absurd rfl hd
      · exact h.own u v d hu' hv'
  · have hdata : ents.map (Function.update s.data ent data) = ents.map s.data := by
      apply List.map_congr_left
      intro d hd
      exact Function.update_of_ne (ne_of_mem_of_not_mem hd hmem) ..
    exact h.items.trans hdata.symm
  · exact h.frozen
  · intro u
    by_cases hut : u = t
    · subst hut
      simp [Tq.next, Tq.setPc, Fifo.next, TqPc.view]
    · have hview : (s.pc u).view (Function.update s.data ent data) = (s.pc u).view s.data := by
        cases hu : s.pc u with
        | filled d => exact congrArg _ (Function.update_of_ne (hne u d hu) ..)
        | idle | waiting => rfl
      simpa [Tq.next, Tq.setPc, Fifo.next, Function.update_of_ne hut, hview] using h.pc u
  · exact h.history
  · exact h.fault

/-- The block of a push. -/
theorem Holds.push (h : s.Holds q ents f) {t : ℕ} (hpos : s.Possible q (.push t)) :
    ∃ ents', (s.next q (.push t)).Holds q ents' (f.next (.push t : TqEvent α ι)) := by
  obtain ⟨ent, hent⟩ := TqPc.isFilled_iff.mp hpos
  obtain ⟨halloc, hmem⟩ := h.filled t ent hent
  have hq : ent ≠ q := by
    rintro rfl
    rw [h.head] at halloc
    cases halloc
  have hitem : f.pc t = .filled (s.data ent) := by
    rw [h.pc, hent]
    rfl
  -- the thread leaves its entry, and no other one has it
  have hleft := h.setPc t .idle (by simp)
  have hother : ∀ u, (s.setPc t .idle).pc u ≠ .filled ent := by
    intro u hu
    by_cases hut : u = t
    · subst hut
      simp [Tq.setPc] at hu
    · exact hut (h.own u t ent (by simpa [Tq.setPc, Function.update_of_ne hut] using hu) hent)
  simp only [Tq.next, hent, Fifo.next, hitem]
  by_cases hfrozen : s.frozen = true
  · rw [if_pos hfrozen, if_pos (h.frozen.trans hfrozen)]
    exact ⟨ents, (hleft.free hmem hother).record _⟩
  · rw [if_neg hfrozen, if_neg (h.frozen ▸ hfrozen)]
    obtain ⟨links, hadd, hring⟩ := listAddTail_isRing h.ring (x := ent) (by simp [hmem, hq])
    simp only [hadd]
    have hin : ({ s with links := links }.setPc t .idle).Holds q (ents ++ [ent])
        { f with items := f.items ++ [s.data ent], pc := Function.update f.pc t .idle } := by
      refine { hleft with ring := hring, allocated := ?_, filled := ?_, items := ?_ }
      · intro d hd
        rcases List.mem_append.mp hd with hd | hd
        · exact h.allocated d hd
        · exact List.mem_singleton.mp hd ▸ halloc
      · intro u d hu
        have hne : d ≠ ent := fun hd => hother u (hd ▸ hu)
        refine ⟨(hleft.filled u d hu).1, ?_⟩
        simp [(hleft.filled u d hu).2, hne]
      · rw [h.items, List.map_append]
        rfl
    exact ⟨ents ++ [ent], hin.record _⟩

/-- **What every step keeps**: the queue does what it is for. -/
theorem Holds.next (h : s.Holds q ents f) {e : TqEvent α ι} (hpos : s.Possible q e) :
    ∃ ents', (s.next q e).Holds q ents' (f.next e) := by
  cases e with
  | calloc t ent data => exact ⟨ents, h.calloc hpos⟩
  | noMemory t => exact ⟨ents, h⟩
  | push t => exact h.push hpos
  | pop t timed =>
    simp only [Tq.next]
    split
    · next hempty =>
      simp only [Fifo.next, h.items_of_empty hempty]
      rw [← h.items_of_empty hempty]
      exact ⟨ents, h.setPc t (.waiting timed) (by simp)⟩
    · next hne =>
      obtain ⟨data, items, ents', hitems, htaken⟩ := h.takeFirst_of_not_empty hne t timed
      simp only [Fifo.next, hitems]
      exact ⟨ents', htaken⟩
  | wake t timedOut =>
    obtain ⟨timed, hpc, -⟩ := TqPc.canWake_iff.mp hpos
    have hwaits : f.pc t = .waiting timed := by
      rw [h.pc, hpc]
      rfl
    simp only [Tq.next, hpc, Fifo.next, hwaits]
    cases timedOut with
    | true => exact ⟨ents, h.returns t _⟩
    | false =>
      simp only [Bool.false_eq_true, if_false]
      split
      · next hempty =>
        simp only [h.items_of_empty hempty]
        exact ⟨ents, h.returns t _⟩
      · next hne =>
        obtain ⟨data, items, ents', hitems, htaken⟩ := h.takeFirst_of_not_empty hne t timed
        simp only [hitems]
        exact ⟨ents', htaken⟩
  | freezethaw frozen =>
    have hset : { s with frozen := frozen }.Holds q ents { f with frozen := frozen } :=
      { h with frozen := rfl }
    exact ⟨ents, hset.record _⟩

theorem tqNew_holds (m : Links α) (data : α → Option ι) : (tqNew q m data).Holds q [] .new where
  ring := initListHead_isRing m q
  allocated := by simp
  head := rfl
  filled := by simp [tqNew]
  own := by simp [tqNew]
  items := rfl
  frozen := rfl
  pc _ := rfl
  history := rfl
  fault := rfl

theorem holds_of_run {m : Links α} {data : α → Option ι} {es : List (TqEvent α ι)}
    (hrun : Trace.Run (Step q) (tqNew q m data) es s) :
    ∃ ents, s.Holds q ents (.ofEvents es) :=
  hrun.invariant (fun es s => ∃ ents, s.Holds q ents (.ofEvents es)) ⟨[], tqNew_holds m data⟩
    fun es s e s' hholds hstep => by
      obtain ⟨ents, h⟩ := hholds
      obtain ⟨hpos, rfl⟩ := hstep
      rw [Fifo.ofEvents_snoc]
      exact h.next hpos

/-- **The queue is an exactly-once queue, first in first out**, in every run of its threads: no
null pointer is used, the calls return what they return on a list of items, a push returns true
if and only if the queue is not frozen, and the accepted items are those delivered, followed by
the items in the ring. -/
theorem fifo_of_run {α ι : Type*} [DecidableEq α] {q : α} {m : Links α} {data : α → Option ι}
    {es : List (TqEvent α ι)} {s : Tq α ι} (hrun : Trace.Run (Step q) (tqNew q m data) es s) :
    s.fault = false ∧ s.history = (Fifo.ofEvents es).history ∧
      Trace.EachAfter PushAnswers s.history ∧
      ∃ ents, s.links.IsRing q ents ∧ (Fifo.ofEvents es).items = ents.map s.data ∧
        accepted s.history = delivered s.history ++ ents.map s.data := by
  obtain ⟨ents, h⟩ := holds_of_run hrun
  have haccounts := Fifo.accounts_ofEvents es
  rw [← h.history]
  exact ⟨h.fault, rfl, haccounts.answers, ents, h.ring, h.items, h.items ▸ haccounts.items⟩

/-- A thread waits, two items come, it is woken, and the freed entry is used again. -/
theorem fifo_of_run_two :
    let es : List (TqEvent ℕ ℕ) := [.pop 0 false, .calloc 1 7 (some 10), .calloc 2 8 (some 20),
      .push 2, .push 1, .wake 0 false, .calloc 3 8 (some 30), .push 3, .freezethaw true,
      .calloc 1 9 (some 40), .push 1, .pop 4 true]
    let s := es.foldl (next 0) (tqNew 0 ⟨fun _ => none, fun _ => none⟩ fun _ => none)
    s.fault = false ∧ s.history = (Fifo.ofEvents es).history ∧
      Trace.EachAfter PushAnswers s.history ∧
      ∃ ents, s.links.IsRing 0 ents ∧ (Fifo.ofEvents es).items = ents.map s.data ∧
        accepted s.history = delivered s.history ++ ents.map s.data :=
  fifo_of_run (Trace.Run.of_legal _ (by decide +kernel))

end Tq

end XmrMiner
