import Mathlib.Data.List.Nodup
import Mathlib.Logic.Function.Basic

/-!
# Circular doubly linked lists

A memory of nodes with two pointers each.  The nodes of a ring are linked in both
directions, from its head through its members and back to the head.  An edit of a ring
writes the pointers of two neighbours and leaves the others alone; whether the outcome is a
ring again is a matter of the pointers alone, not of the order in which they were written.

## Main definitions

* `Links` — the pointers.
* `Links.Path`, `Links.IsRing` — the nodes between two nodes, and the members of a ring.

## Main results

* `IsRing.insert_last`, `IsRing.erase` — a member is put at the end or taken out.
* `IsRing.next_head_eq_self_iff` — the test for an empty ring.
-/

namespace LinkedRing

/-- The pointers of the nodes, none for a null pointer. -/
@[ext] structure Links (α : Type*) where
  /-- The pointer to the next node. -/
  next : α → Option α
  /-- The pointer to the node before. -/
  prev : α → Option α

namespace Links

variable {α : Type*}

section Writes

variable [DecidableEq α] (m : Links α) (a b : α) (p : Option α)

/-- A write of the pointer to the next node. -/
def setNext : Links α := { m with next := Function.update m.next a p }

/-- A write of the pointer to the node before. -/
def setPrev : Links α := { m with prev := Function.update m.prev a p }

@[simp] theorem setNext_next_self : (m.setNext a p).next a = p := Function.update_self ..

@[simp] theorem setNext_prev : (m.setNext a p).prev = m.prev := rfl

@[simp] theorem setPrev_prev_self : (m.setPrev a p).prev a = p := Function.update_self ..

@[simp] theorem setPrev_next : (m.setPrev a p).next = m.next := rfl

variable {m a b p}

theorem setNext_next_of_ne (h : b ≠ a) : (m.setNext a p).next b = m.next b :=
  Function.update_of_ne h ..

theorem setPrev_prev_of_ne (h : b ≠ a) : (m.setPrev a p).prev b = m.prev b :=
  Function.update_of_ne h ..

end Writes

/-! ### Paths -/

/-- The two nodes are linked in both directions. -/
def Linked (m : Links α) (a b : α) : Prop := m.next a = some b ∧ m.prev b = some a

/-- The nodes are linked one after the other, from `a` to `b`. -/
def Path (m : Links α) : α → List α → α → Prop
  | a, [], b => m.Linked a b
  | a, x :: xs, b => m.Linked a x ∧ m.Path x xs b

variable {m m' : Links α} {a b c x : α} {xs ys : List α}

@[simp] theorem path_nil : m.Path a [] b ↔ m.Linked a b := Iff.rfl

@[simp] theorem path_cons : m.Path a (x :: xs) b ↔ m.Linked a x ∧ m.Path x xs b := Iff.rfl

theorem path_append : m.Path a (xs ++ x :: ys) b ↔ m.Path a xs x ∧ m.Path x ys b := by
  induction xs generalizing a with
  | nil => rfl
  | cons y xs ih => rw [List.cons_append, path_cons, path_cons, ih, and_assoc]

theorem Path.next_first (h : m.Path a xs b) : m.next a = some (xs.headD b) := by
  cases xs with
  | nil => exact h.1
  | cons x xs => exact h.1.1

theorem Path.prev_last (h : m.Path a xs b) : m.prev b = some (xs.getLastD a) := by
  induction xs generalizing a with
  | nil => exact h.2
  | cons x xs ih =>
    rw [List.getLastD_cons]
    exact ih h.2

/-- A path depends on the pointers between its nodes only. -/
theorem Path.congr (h : m.Path a xs b) (hnext : ∀ c ∈ a :: xs, m'.next c = m.next c)
    (hprev : ∀ c ∈ xs ++ [b], m'.prev c = m.prev c) : m'.Path a xs b := by
  induction xs generalizing a with
  | nil => exact ⟨(hnext a (by simp)).trans h.1, (hprev b (by simp)).trans h.2⟩
  | cons x xs ih =>
    obtain ⟨⟨hax, hxa⟩, hrest⟩ := h
    refine ⟨⟨(hnext a (by simp)).trans hax, (hprev x (by simp)).trans hxa⟩, ?_⟩
    exact ih hrest (fun c hc => hnext c (List.mem_cons_of_mem _ hc))
      fun c hc => hprev c (List.mem_cons_of_mem _ hc)

/-- The last node of a path is linked to another node. -/
theorem Path.retarget (h : m.Path a xs b) (hnodup : (a :: xs).Nodup)
    (hnext : ∀ d ∈ a :: xs, d ≠ xs.getLastD a → m'.next d = m.next d)
    (hprev : ∀ d ∈ xs, m'.prev d = m.prev d) (hlink : m'.Linked (xs.getLastD a) c) :
    m'.Path a xs c := by
  induction xs generalizing a with
  | nil => exact hlink
  | cons x xs ih =>
    obtain ⟨⟨hax, hxa⟩, hrest⟩ := h
    obtain ⟨ha, hnodup'⟩ := List.nodup_cons.mp hnodup
    simp only [List.getLastD_cons] at hnext hlink
    refine ⟨⟨?_, (hprev x (by simp)).trans hxa⟩, ?_⟩
    · refine (hnext a (by simp) ?_).trans hax
      rintro rfl
      exact ha (List.getLastD_mem_cons ..)
    · exact ih hrest hnodup' (fun d hd => hnext d (List.mem_cons_of_mem _ hd))
        (fun d hd => hprev d (List.mem_cons_of_mem _ hd)) hlink

/-! ### Rings -/

/-- The members of the ring with this head, in their order. -/
structure IsRing (m : Links α) (head : α) (xs : List α) : Prop where
  /-- The nodes are different. -/
  nodup : (head :: xs).Nodup
  /-- They lead from the head back to it. -/
  path : m.Path head xs head

variable {head : α}

theorem isRing_nil : m.IsRing head [] ↔ m.next head = some head ∧ m.prev head = some head :=
  ⟨fun h => h.path, fun h => ⟨List.nodup_singleton head, h⟩⟩

/-- What is written elsewhere leaves a ring alone. -/
theorem IsRing.congr (h : m.IsRing head xs) (hnext : ∀ c ∈ head :: xs, m'.next c = m.next c)
    (hprev : ∀ c ∈ head :: xs, m'.prev c = m.prev c) : m'.IsRing head xs := by
  refine ⟨h.nodup, h.path.congr hnext ?_⟩
  intro c hc
  exact hprev c (by simpa [or_comm] using hc)

/-- The ring is empty if its head points at itself. -/
theorem IsRing.next_head_eq_self_iff (h : m.IsRing head xs) :
    m.next head = some head ↔ xs = [] := by
  rw [h.path.next_first, Option.some.injEq]
  cases xs with
  | nil => simp
  | cons x xs =>
    simp only [List.headD_cons, reduceCtorEq, iff_false]
    rintro rfl
    exact (List.nodup_cons.mp h.nodup).1 (by simp)

/-- **A node is put before the head.** -/
theorem IsRing.insert_last (h : m.IsRing head xs) (hnew : x ∉ head :: xs)
    (hlast : m'.Linked (xs.getLastD head) x) (hhead : m'.Linked x head)
    (hnext : ∀ c ∈ head :: xs, c ≠ xs.getLastD head → m'.next c = m.next c)
    (hprev : ∀ c ∈ xs, m'.prev c = m.prev c) : m'.IsRing head (xs ++ [x]) := by
  constructor
  · rw [← List.cons_append, List.nodup_append]
    refine ⟨h.nodup, List.nodup_singleton x, ?_⟩
    intro c hc d hd
    rw [List.mem_singleton.mp hd]
    rintro rfl
    exact hnew hc
  · exact path_append.mpr ⟨h.path.retarget h.nodup hnext hprev hlast, hhead⟩

/-- **A member is taken out**: its neighbours are linked with each other. -/
theorem IsRing.erase (h : m.IsRing head (xs ++ x :: ys))
    (hlink : m'.Linked (xs.getLastD head) (ys.headD head))
    (hnext : ∀ c ∈ head :: (xs ++ ys), c ≠ xs.getLastD head → m'.next c = m.next c)
    (hprev : ∀ c ∈ head :: (xs ++ ys), c ≠ ys.headD head → m'.prev c = m.prev c) :
    m'.IsRing head (xs ++ ys) := by
  have hnodup : (head :: (xs ++ ys)).Nodup :=
    h.nodup.sublist (((List.sublist_cons_self x ys).append_left xs).cons_cons head)
  obtain ⟨hfront, hback⟩ := path_append.mp h.path
  obtain ⟨hnodup', -, hdisjoint⟩ := List.nodup_append.mp (List.cons_append ▸ hnodup)
  -- the node behind is no member in front
  have hbehind : ∀ d ∈ xs, d ≠ ys.headD head := by
    rintro d hd rfl
    cases ys with
    | nil => exact (List.nodup_cons.mp hnodup').1 hd
    | cons y ys => exact hdisjoint y (List.mem_cons_of_mem _ hd) y List.mem_cons_self rfl
  have hfront' : m'.Path head xs (ys.headD head) := by
    refine hfront.retarget hnodup' (fun d hd hne => hnext d ?_ hne)
      (fun d hd => hprev d (by simp [hd]) (hbehind d hd)) hlink
    rw [← List.cons_append]
    exact List.mem_append_left ys hd
  refine ⟨hnodup, ?_⟩
  cases ys with
  | nil => simpa using hfront'
  | cons y ys =>
    refine path_append.mpr ⟨hfront', ?_⟩
    have hmem : ∀ c ∈ y :: ys, c ∈ head :: (xs ++ y :: ys) := fun c hc =>
      List.mem_cons_of_mem _ (List.mem_append_right xs hc)
    have hys : (y :: ys).Nodup := hnodup.sublist
      ((List.sublist_append_right xs (y :: ys)).trans (List.sublist_cons_self _ _))
    apply hback.2.congr
    · intro c hc
      apply hnext c (hmem c hc)
      rintro rfl
      exact hdisjoint _ (List.getLastD_mem_cons ..) _ hc rfl
    · intro c hc
      rcases List.mem_append.mp hc with hc | hc
      · apply hprev c (hmem c (List.mem_cons_of_mem _ hc))
        rintro rfl
        exact (List.nodup_cons.mp hys).1 hc
      · obtain rfl := List.mem_singleton.mp hc
        apply hprev c List.mem_cons_self
        rintro rfl
        exact hdisjoint _ List.mem_cons_self _ List.mem_cons_self rfl

end Links

end LinkedRing
