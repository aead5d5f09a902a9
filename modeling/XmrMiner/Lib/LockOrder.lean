import Mathlib.Computability.Language
import Mathlib.Logic.Relation
import XmrMiner.Lib.Trace

/-!
# Mutexes that are taken in an order

A program is seen as the sets of its paths, where a path is the sequence of what the program
does to mutexes: the paths through a piece of code to its end, and those that leave it by a
return or a jump.  Pieces of code are put together as in the program: one after the other,
as alternatives, as loops.

If each path takes a mutex only while it holds mutexes of lower ranks, then threads that
run such paths never wait for each other in a circle.

## Main definitions

* `Code` — pieces of code, with `c >> d`, `c <|> d`, `maybe`, `loop`, `forever`, `leave`,
  `scope`.
* `Discipline`, `Discipline.Orderly` — ranks, and the paths that keep to them.
* `Discipline.Meets`, `Discipline.Neutral` — what holds of all paths of a piece of code.
* `Threads`, `Threads.Waits` — the threads of a system, and who waits for whom.

## Main results

* `Discipline.Neutral.locked` and the other rules — the paths of a program from those of
  its pieces.
* `Threads.not_waits_circle` — no circle of waiting threads.
-/

namespace LockOrder

open Computability

/-- What a path does to the mutexes; it may also block for another reason. -/
inductive Op (μ : Type*)
  | lock (m : μ)
  | unlock (m : μ)
  | block
  deriving DecidableEq

/-! ### Code -/

/-- A piece of code: the paths to its end, and the paths that leave it. -/
structure Code (μ : Type*) where
  /-- The paths to the end. -/
  normal : Language (Op μ)
  /-- The paths that leave the code. -/
  exit : Language (Op μ)

namespace Code

variable {μ ι : Type*}

/-- Nothing. -/
def skip : Code μ := ⟨1, 0⟩

/-- A return, or a jump. -/
def leave : Code μ := ⟨0, 1⟩

/-- A single operation. -/
def op (o : Op μ) : Code μ := ⟨{[o]}, 0⟩

/-- A mutex is taken. -/
def lock (m : μ) : Code μ := op (.lock m)

/-- A mutex is released. -/
def unlock (m : μ) : Code μ := op (.unlock m)

/-- The thread blocks. -/
def block : Code μ := op .block

/-- One after the other. -/
instance : AndThen (Code μ) :=
  ⟨fun c d => ⟨c.normal * (d ()).normal, c.exit + c.normal * (d ()).exit⟩⟩

/-- One or the other. -/
instance : OrElse (Code μ) := ⟨fun c d => ⟨c.normal + (d ()).normal, c.exit + (d ()).exit⟩⟩

/-- One of a family. -/
def any (c : ι → Code μ) : Code μ := ⟨{p | ∃ i, p ∈ (c i).normal}, {p | ∃ i, p ∈ (c i).exit}⟩

/-- A branch without an alternative. -/
def maybe (c : Code μ) : Code μ := c <|> skip

/-- A branch that leaves the code. -/
def bail (c : Code μ) : Code μ := maybe (c >> leave)

/-- A loop that may end before each round. -/
def loop (c : Code μ) : Code μ := ⟨c.normal∗, c.normal∗ * c.exit⟩

/-- A loop without an end. -/
def forever (c : Code μ) : Code μ := ⟨0, c.normal∗ * c.exit⟩

/-- The code that is left by a return from its inside. -/
def scope (c : Code μ) : Code μ := ⟨c.normal + c.exit, 0⟩

/-- The code inside of a pair of calls. -/
def locked (m : μ) (c : Code μ) : Code μ := lock m >> c >> unlock m

/-! ### Paths -/

section Paths

variable {c d : Code μ} {p q : List (Op μ)}

theorem lock_mem {m : μ} : [.lock m] ∈ (lock m).normal := rfl

theorem unlock_mem {m : μ} : [.unlock m] ∈ (unlock m).normal := rfl

theorem seq_mem (hp : p ∈ c.normal) (hq : q ∈ d.normal) : p ++ q ∈ (c >> d).normal :=
  ⟨p, hp, q, hq, rfl⟩

/-- The first part is left, -/
theorem exit_seq (hp : p ∈ c.exit) : p ∈ (c >> d).exit := Or.inl hp

/-- or the second one. -/
theorem seq_exit (hp : p ∈ c.normal) (hq : q ∈ d.exit) : p ++ q ∈ (c >> d).exit :=
  Or.inr ⟨p, hp, q, hq, rfl⟩

theorem maybe_nil : [] ∈ (maybe c).normal := Or.inr rfl

theorem maybe_exit (hp : p ∈ c.exit) : p ∈ (maybe c).exit := Or.inl hp

theorem bail_mem : [] ∈ (bail c).normal := maybe_nil

theorem bail_exit (hp : p ∈ c.normal) : p ++ [] ∈ (bail c).exit :=
  maybe_exit (seq_exit hp (d := leave) rfl)

theorem forever_exit (hp : p ∈ c.exit) : p ∈ (forever c).exit :=
  ⟨[], Language.nil_mem_kstar _, p, hp, rfl⟩

theorem scope_mem (hp : p ∈ c.normal) : p ∈ (scope c).normal := Or.inl hp

theorem scope_exit (hp : p ∈ c.exit) : p ∈ (scope c).normal := Or.inr hp

theorem locked_mem {m : μ} (hp : p ∈ c.normal) :
    [.lock m] ++ (p ++ [.unlock m]) ∈ (locked m c).normal :=
  seq_mem lock_mem (seq_mem hp unlock_mem)

end Paths

end Code

/-! ### Disciplines -/

/-- The ranks of the mutexes, and what may be held while a thread blocks. -/
structure Discipline (μ : Type*) where
  /-- The ranks. -/
  rank : μ → ℕ
  /-- What may be held. -/
  MayBlock : List μ → Prop

namespace Discipline

variable {μ ι : Type*} (D : Discipline μ)

/-- The mutexes have ranks below `k`. -/
def Below (k : ℕ) (held : List μ) : Prop := ∀ h ∈ held, D.rank h < k

theorem below_nil {D : Discipline μ} {k : ℕ} : D.Below k [] := by
  intro h hmem
  cases hmem

theorem Below.mono {D : Discipline μ} {k k' : ℕ} {held : List μ} (h : D.Below k held)
    (hk : k ≤ k') : D.Below k' held :=
  fun m hm => (h m hm).trans_le hk

theorem Below.cons {D : Discipline μ} {k : ℕ} {held : List μ} {m : μ} (h : D.Below k held)
    (hm : D.rank m < k) : D.Below k (m :: held) := by
  intro x hx
  rcases List.mem_cons.mp hx with rfl | hx
  · exact hm
  · exact h x hx

variable [DecidableEq μ]

/-- The path keeps to the discipline: from the mutexes in the first list, held at its start,
to those of the second one. -/
def Orderly : List μ → List (Op μ) → List μ → Prop
  | held, [], after => held = after
  | held, .lock m :: p, after => (∀ h ∈ held, D.rank h < D.rank m) ∧ Orderly (m :: held) p after
  | held, .unlock m :: p, after => m ∈ held ∧ Orderly (held.erase m) p after
  | held, .block :: p, after => D.MayBlock held ∧ Orderly held p after

/-- The paths through the code lead to the second list, those that leave it to the third. -/
structure Meets (c : Code μ) (held after left : List μ) : Prop where
  /-- The paths to the end. -/
  normal : ∀ p ∈ c.normal, D.Orderly held p after
  /-- The paths that leave. -/
  exit : ∀ p ∈ c.exit, D.Orderly held p left

/-- The code holds the same mutexes at its end, and takes none of a rank below `k`; it is
not left. -/
def Neutral (k : ℕ) (c : Code μ) : Prop :=
  ∀ held left, D.Below k held → D.Meets c held held left

/-- The same where the code may be left, with the same mutexes. -/
def Keeps (k : ℕ) (c : Code μ) : Prop := ∀ held, D.Below k held → D.Meets c held held held

/-- Code inside of a pair of calls: it is left after the mutex has been released. -/
def Inside (m : μ) (c : Code μ) : Prop :=
  ∀ held, D.Below (D.rank m) held → D.Meets c (m :: held) (m :: held) held

variable {D} {c d : Code μ} {p p' : List (Op μ)} {held mid after left : List μ} {k k' : ℕ} {m : μ}

theorem Orderly.append (h : D.Orderly held p mid) (h' : D.Orderly mid p' after) :
    D.Orderly held (p ++ p') after := by
  induction p generalizing held with
  | nil => exact (show held = mid from h) ▸ h'
  | cons o p ih =>
    cases o with
    | lock m => exact ⟨h.1, ih h.2⟩
    | unlock m => exact ⟨h.1, ih h.2⟩
    | block => exact ⟨h.1, ih h.2⟩

/-! ### The rules -/

namespace Meets

theorem skip : D.Meets .skip held held left :=
  ⟨fun p hp => by rw [(Language.mem_one p).mp hp]; exact rfl, fun _ hp => hp.elim⟩

theorem leave : D.Meets .leave held after held :=
  ⟨fun _ hp => hp.elim, fun p hp => by rw [(Language.mem_one p).mp hp]; exact rfl⟩

theorem op {o : Op μ} (h : D.Orderly held [o] after) : D.Meets (.op o) held after left :=
  ⟨fun p hp => by rwa [Set.mem_singleton_iff.mp hp], fun _ hp => hp.elim⟩

theorem lock (h : D.Below (D.rank m) held) : D.Meets (.lock m) held (m :: held) left :=
  op ⟨h, rfl⟩

theorem unlock : D.Meets (.unlock m) (m :: held) held left :=
  op ⟨List.mem_cons_self, by rw [List.erase_cons_head]; exact rfl⟩

theorem block (h : D.MayBlock held) : D.Meets .block held held left := op ⟨h, rfl⟩

theorem seq (hc : D.Meets c held mid left) (hd : D.Meets d mid after left) :
    D.Meets (c >> d) held after left := by
  constructor
  · intro p hp
    obtain ⟨q, hq, r, hr, rfl⟩ := Language.mem_mul.mp hp
    exact (hc.normal q hq).append (hd.normal r hr)
  · intro p hp
    rcases (Language.mem_add _ _ p).mp hp with hp | hp
    · exact hc.exit p hp
    · obtain ⟨q, hq, r, hr, rfl⟩ := Language.mem_mul.mp hp
      exact (hc.normal q hq).append (hd.exit r hr)

theorem choice (hc : D.Meets c held after left) (hd : D.Meets d held after left) :
    D.Meets (c <|> d) held after left :=
  ⟨fun p hp => ((Language.mem_add _ _ p).mp hp).elim (hc.normal p) (hd.normal p),
    fun p hp => ((Language.mem_add _ _ p).mp hp).elim (hc.exit p) (hd.exit p)⟩

theorem any {c : ι → Code μ} (hc : ∀ i, D.Meets (c i) held after left) :
    D.Meets (.any c) held after left := by
  constructor
  · rintro p ⟨i, hi⟩
    exact (hc i).normal p hi
  · rintro p ⟨i, hi⟩
    exact (hc i).exit p hi

theorem maybe (hc : D.Meets c held held left) : D.Meets (.maybe c) held held left := hc.choice skip

theorem bail (hc : D.Meets c held left left) : D.Meets (.bail c) held held left := by
  apply choice _ skip
  constructor
  · intro p hp
    obtain ⟨-, -, r, hr, -⟩ := Language.mem_mul.mp hp
    exact hr.elim
  · have hleave : D.Meets .leave left left left := leave
    exact (hc.seq hleave).exit

theorem rounds (hc : D.Meets c held held left) : ∀ p ∈ c.normal∗, D.Orderly held p held := by
  intro p hp
  obtain ⟨ps, rfl, hps⟩ := Language.mem_kstar.mp hp
  clear hp
  induction ps with
  | nil => exact rfl
  | cons q ps ih =>
    rw [List.flatten_cons]
    refine (hc.normal q (hps q List.mem_cons_self)).append ?_
    exact ih fun r hr => hps r (List.mem_cons_of_mem _ hr)

theorem loop (hc : D.Meets c held held left) : D.Meets (.loop c) held held left := by
  refine ⟨hc.rounds, ?_⟩
  intro p hp
  obtain ⟨q, hq, r, hr, rfl⟩ := Language.mem_mul.mp hp
  exact (hc.rounds q hq).append (hc.exit r hr)

theorem forever (hc : D.Meets c held held left) : D.Meets (.forever c) held after left :=
  ⟨fun _ hp => hp.elim, hc.loop.exit⟩

theorem scope (hc : D.Meets c held after after) : D.Meets (.scope c) held after left :=
  ⟨fun p hp => ((Language.mem_add _ _ p).mp hp).elim (hc.normal p) (hc.exit p),
    fun _ hp => hp.elim⟩

end Meets

namespace Neutral

theorem keeps (hc : D.Neutral k c) (hk : k' ≤ k) : D.Keeps k' c :=
  fun held hheld => hc held held (hheld.mono hk)

theorem inside (hc : D.Neutral k c) (hm : D.rank m < k) : D.Inside m c :=
  fun held hheld => hc (m :: held) held ((hheld.mono hm.le).cons hm)

theorem skip : D.Neutral k .skip := fun _ _ _ => .skip

theorem seq (hc : D.Neutral k c) (hd : D.Neutral k d) : D.Neutral k (c >> d) :=
  fun held left hheld => (hc held left hheld).seq (hd held left hheld)

theorem choice (hc : D.Neutral k c) (hd : D.Neutral k d) : D.Neutral k (c <|> d) :=
  fun held left hheld => (hc held left hheld).choice (hd held left hheld)

theorem maybe (hc : D.Neutral k c) : D.Neutral k (.maybe c) := hc.choice skip

theorem mono (hc : D.Neutral k c) (hk : k' ≤ k) : D.Neutral k' c :=
  fun held left hheld => hc held left (hheld.mono hk)

theorem any {c : ι → Code μ} (hc : ∀ i, D.Neutral k (c i)) : D.Neutral k (.any c) :=
  fun held left hheld => .any fun i => hc i held left hheld

/-- The rule for a function. -/
theorem scope (hc : D.Keeps k c) : D.Neutral k (.scope c) :=
  fun held _ hheld => (hc held hheld).scope

/-- The rule for a pair of calls. -/
theorem locked (hc : D.Neutral k c) (hm : D.rank m < k) (hk : k' ≤ D.rank m) :
    D.Neutral k' (.locked m c) := by
  intro held left hheld
  have hinside := hc (m :: held) left ((hheld.mono (hk.trans hm.le)).cons hm)
  exact (Meets.lock (hheld.mono hk)).seq (hinside.seq Meets.unlock)

end Neutral

namespace Keeps

theorem skip : D.Keeps k .skip := fun _ _ => .skip

theorem seq (hc : D.Keeps k c) (hd : D.Keeps k d) : D.Keeps k (c >> d) :=
  fun held hheld => (hc held hheld).seq (hd held hheld)

theorem choice (hc : D.Keeps k c) (hd : D.Keeps k d) : D.Keeps k (c <|> d) :=
  fun held hheld => (hc held hheld).choice (hd held hheld)

theorem maybe (hc : D.Keeps k c) : D.Keeps k (.maybe c) :=
  hc.choice skip

theorem bail (hc : D.Keeps k c) : D.Keeps k (.bail c) :=
  fun held hheld => (hc held hheld).bail

theorem any {c : ι → Code μ} (hc : ∀ i, D.Keeps k (c i)) : D.Keeps k (.any c) :=
  fun held hheld => .any fun i => hc i held hheld

theorem loop (hc : D.Keeps k c) : D.Keeps k (.loop c) := fun held hheld => (hc held hheld).loop

/-- The rule for a pair of calls with a return inside. -/
theorem locked (hc : D.Inside m c) (hk : k ≤ D.rank m) : D.Keeps k (.locked m c) :=
  fun held hheld => (Meets.lock (hheld.mono hk)).seq ((hc held (hheld.mono hk)).seq Meets.unlock)

end Keeps

namespace Inside

theorem seq (hc : D.Inside m c) (hd : D.Inside m d) : D.Inside m (c >> d) :=
  fun held hheld => (hc held hheld).seq (hd held hheld)

/-- The return from inside, after the mutex is released. -/
theorem bail (hc : D.Neutral k c) (hm : D.rank m < k) : D.Inside m (.bail (c >> .unlock m)) :=
  fun held hheld => ((hc (m :: held) held ((hheld.mono hm.le).cons hm)).seq Meets.unlock).bail

end Inside

end Discipline

/-! ### Threads -/

/-- The threads of a system: the owners of the mutexes, what each thread holds, and the path
it has still to go. -/
structure Threads (τ μ : Type*) where
  /-- The owner of a mutex. -/
  owner : μ → Option τ
  /-- The mutexes of a thread. -/
  held : τ → List μ
  /-- The rest of its path. -/
  rest : τ → List (Op μ)

namespace Threads

variable {τ μ : Type*}

/-- The thread can make a step: the mutex it takes is free. -/
def Possible (s : Threads τ μ) (t : τ) : Prop :=
  match s.rest t with
  | [] => False
  | .lock m :: _ => s.owner m = none
  | _ => True

/-- No thread holds a mutex, and each one has not begun a path of its code. -/
structure Initial (code : τ → Code μ) (s : Threads τ μ) : Prop where
  /-- The mutexes are free. -/
  owner : ∀ m, s.owner m = none
  /-- No thread holds one. -/
  held : ∀ t, s.held t = []
  /-- A thread that is never started has no path. -/
  rest : ∀ t, s.rest t = [] ∨ s.rest t ∈ (code t).normal

/-- A thread waits for a mutex of another one, or for one of its own. -/
def Waits (s : Threads τ μ) (t u : τ) : Prop :=
  ∃ m p, s.rest t = .lock m :: p ∧ s.owner m = some u

section Steps

variable [DecidableEq τ] [DecidableEq μ]

/-- The step of a thread. -/
def next (s : Threads τ μ) (t : τ) : Threads τ μ :=
  match s.rest t with
  | [] => s
  | .lock m :: p => ⟨Function.update s.owner m (some t),
      Function.update s.held t (m :: s.held t), Function.update s.rest t p⟩
  | .unlock m :: p => ⟨Function.update s.owner m none,
      Function.update s.held t ((s.held t).erase m), Function.update s.rest t p⟩
  | .block :: p => { s with rest := Function.update s.rest t p }

/-- The steps. -/
def Step : Threads τ μ → τ → Threads τ μ → Prop := Trace.machine Possible next

end Steps

variable [DecidableEq μ]

/-- The threads keep to the discipline. -/
structure Ordered (D : Discipline μ) (s : Threads τ μ) : Prop where
  /-- The paths. -/
  orderly : ∀ t, D.Orderly (s.held t) (s.rest t) []
  /-- The owner of a mutex holds it. -/
  owner : ∀ m t, s.owner m = some t ↔ m ∈ s.held t
  /-- No mutex is taken twice. -/
  nodup : ∀ t, (s.held t).Nodup

variable {D : Discipline μ} {s : Threads τ μ}

theorem Initial.ordered {code : τ → Code μ} (h : s.Initial code)
    (hcode : ∀ t, D.Meets (code t) [] [] []) : s.Ordered D := by
  constructor
  · intro t
    rw [h.held]
    rcases h.rest t with hrest | hrest
    · rw [hrest]
      exact rfl
    · exact (hcode t).normal _ hrest
  · intro m t
    simp [h.owner, h.held]
  · intro t
    simp [h.held]

/-- Along a chain of waiting threads the ranks go up. -/
theorem Ordered.rank_le (h : s.Ordered D) {t u : τ} (hwaits : Relation.TransGen s.Waits t u) :
    ∃ m p x, s.rest t = .lock m :: p ∧ s.owner x = some u ∧ D.rank m ≤ D.rank x := by
  induction hwaits with
  | single hw =>
    obtain ⟨m, p, hrest, howner⟩ := hw
    exact ⟨m, p, m, hrest, howner, le_rfl⟩
  | @tail v _ _ hw ih =>
    obtain ⟨m, p, x, hrest, howner, hle⟩ := ih
    obtain ⟨y, q, hrest', howner'⟩ := hw
    have horderly := h.orderly v
    rw [hrest'] at horderly
    have hlt := horderly.1 x ((h.owner x _).mp howner)
    exact ⟨m, p, y, hrest, howner', hle.trans hlt.le⟩

/-- **No circle of waiting threads.** -/
theorem Ordered.not_waits_circle (h : s.Ordered D) (t : τ) : ¬ Relation.TransGen s.Waits t t := by
  intro hcircle
  obtain ⟨m, p, x, hrest, howner, hle⟩ := h.rank_le hcircle
  have horderly := h.orderly t
  rw [hrest] at horderly
  exact absurd (horderly.1 x ((h.owner x t).mp howner)) (by omega)

variable [DecidableEq τ]

/-- A thread goes on with another path, and other mutexes. -/
theorem Ordered.orderly_update (h : s.Ordered D) {t : τ} {held : List μ} {p : List (Op μ)}
    (hp : D.Orderly held p []) (u : τ) :
    D.Orderly (Function.update s.held t held u) (Function.update s.rest t p u) [] := by
  by_cases hut : u = t
  · subst hut
    simpa using hp
  · simpa [Function.update_of_ne hut] using h.orderly u

theorem Ordered.nodup_update (h : s.Ordered D) {t : τ} {held : List μ} (hheld : held.Nodup) :
    ∀ u, (Function.update s.held t held u).Nodup :=
  (Function.forall_update_iff s.held fun _ l => l.Nodup).mpr ⟨hheld, fun u _ => h.nodup u⟩

/-- What a step keeps. -/
theorem Ordered.next (h : s.Ordered D) {t : τ} (hpos : s.Possible t) : (s.next t).Ordered D := by
  have horderly := h.orderly t
  unfold Possible at hpos
  unfold Threads.next
  cases hrest : s.rest t with
  | nil => simpa only [hrest] using h
  | cons o p =>
    rw [hrest] at horderly hpos
    cases o with
    | lock m =>
      obtain ⟨hranks, hp⟩ := horderly
      have hfree : s.owner m = none := hpos
      have hnew : ∀ u, m ∉ s.held u := by
        intro u hu
        rw [(h.owner m u).mpr hu] at hfree
        cases hfree
      refine ⟨h.orderly_update hp, ?_, h.nodup_update (List.nodup_cons.mpr ⟨hnew t, h.nodup t⟩)⟩
      intro x u
      by_cases hxm : x = m
      · subst hxm
        by_cases hut : u = t
        · subst hut
          simp
        · simp [Function.update_of_ne hut, hnew u, Ne.symm hut]
      · by_cases hut : u = t
        · subst hut
          simp [hxm, h.owner]
        · simp [Function.update_of_ne hut, Function.update_of_ne hxm, h.owner]
    | unlock m =>
      obtain ⟨hmem, hp⟩ := horderly
      have howner : s.owner m = some t := (h.owner m t).mpr hmem
      refine ⟨h.orderly_update hp, ?_, h.nodup_update ((h.nodup t).erase m)⟩
      intro x u
      by_cases hut : u = t
      · subst hut
        by_cases hxm : x = m
        · subst hxm
          simp [(h.nodup u).mem_erase_iff]
        · simp [(h.nodup u).mem_erase_iff, hxm, h.owner]
      · by_cases hxm : x = m
        · subst hxm
          have hnot : x ∉ s.held u := by
            intro hu
            have hsame := (h.owner x u).mpr hu
            rw [howner] at hsame
            exact hut (Option.some.inj hsame).symm
          simp [Function.update_of_ne hut, hnot]
        · simp [Function.update_of_ne hut, Function.update_of_ne hxm, h.owner]
    | block =>
      refine ⟨?_, h.owner, h.nodup⟩
      have hrest' := h.orderly_update (t := t) horderly.2
      rwa [Function.update_eq_self] at hrest'

theorem Ordered.run (h : s.Ordered D) {ts : List τ} {s' : Threads τ μ}
    (hrun : Trace.Run Step s ts s') : s'.Ordered D :=
  hrun.invariant_state (Ordered D) h fun _ _ _ hordered hstep => by
    obtain ⟨hpos, rfl⟩ := hstep
    exact hordered.next hpos

end Threads

end LockOrder
