import XmrMiner.Miner.Donation

/-!
# Leaving the developer's pool

The selection of the developer's pool is taken back in two places of its stratum thread:
after a failed attempt to connect, and, when the thread gives up, by `disableDonation`.
Meanwhile the thread that sends the shares goes on selecting a pool after each share.

The blocks under `dev_lock` are steps, and so is each read and each write of `donate` and
`weightedDonate` outside of one.  A call of `submit_upstream_work` computes the weight
before it takes the lock, so that it may carry an old one across the end of the donation;
but it looks at `donate` once more under the lock.  The stratum thread decides with the
pool that was selected when its loop came round.

## Main definitions

* `DevPool` — the globals of the donation, and where the threads are.
* `DevPool.Possible`, `DevPool.next` — the steps.
* `DevPool.StopsAt` — the condition on the handling of a failed attempt.

## Main results

* `mineForDev_of_disabled` — the end of the donation is permanent.
* `leavesMain_iff` — a failed attempt leaves the main pool selected if and only if the
  condition is met.
-/

namespace XmrMiner

/-! ### The threads -/

/-- Where a call of `submit_upstream_work` is: outside, or after its share for the pool was
sent, with the factor of the difficulties, with the weight to be written, or before its
block. -/
inductive SubmitPc
  | idle
  | sent (dev : Pool)
  | factor (dev : Pool) (donateFactor : ℚ)
  | weight (dev : Pool) (w : ℚ)
  | weighed (dev : Pool)
  deriving DecidableEq

/-- Where a stratum thread is: before its loop, at the top of it, before an attempt to
connect, after one that failed, inside `disableDonation` after `k` of its steps, before the
block that selects the main pool, asleep, serving the connection, before it resets its
identifier, or at its end. -/
inductive PoolPc
  | start
  | top
  | connect
  | failed
  | disabling (k : ℕ) (retrying : Bool)
  | selecting
  | asleep
  | serve
  | out
  | ended
  deriving DecidableEq

/-- A stratum thread. -/
structure PoolThread where
  /-- Where it is. -/
  pc : PoolPc
  /-- `dev`. -/
  dev : Pool
  /-- `failures`. -/
  failures : ℕ
  /-- Whether it is connected. -/
  connected : Bool

/-- The options. -/
structure RetryOptions where
  /-- `opt_retries`, negative for no limit. -/
  retries : ℤ
  /-- `opt_debugDev`. -/
  debugDev : Bool

/-- A thread with these failures gives up after one more. -/
def RetryOptions.GivesUp (o : RetryOptions) (failures : ℕ) : Prop :=
  0 ≤ o.retries ∧ o.retries < failures + 1

instance (o : RetryOptions) (failures : ℕ) : Decidable (o.GivesUp failures) :=
  inferInstanceAs (Decidable (_ ∧ _))

/-- The globals of the donation, and the threads.  The last two fields are not in the
program. -/
structure DevPool where
  /-- The global variables. -/
  globals : Donation
  /-- The calls of `submit_upstream_work`. -/
  submit : ℕ → SubmitPc
  /-- The stratum threads. -/
  stratum : Pool → PoolThread
  /-- The pool that a miner thread has selected. -/
  minerDev : ℕ → Pool
  /-- `disableDonation` has returned. -/
  disabled : Bool
  /-- The pool that was selected after each failed attempt for the developer's pool. -/
  afterFailures : List Pool

/-- The events. -/
inductive DevPoolEvent
  /-- A share was sent. -/
  | sent (t : ℕ) (dev : Pool)
  /-- A call reads the difficulties. -/
  | readFactor (t : ℕ)
  /-- A call reads `donate`. -/
  | readDonate (t : ℕ)
  /-- A call writes `weightedDonate`. -/
  | writeWeight (t : ℕ)
  /-- The block of a call. -/
  | count (t : ℕ)
  /-- The block of `get_upstream_work`. -/
  | fetch
  /-- A miner thread selects its pool. -/
  | pick (thrId : ℕ)
  /-- A job with another difficulty is decoded. -/
  | difficulty (p : Pool) (q : ℚ)
  /-- A stratum thread enters its loop. -/
  | enter (p : Pool)
  /-- A stratum thread has no address. -/
  | noUrl (p : Pool)
  /-- The thread of the developer's pool is out of memory before its loop. -/
  | outOfMemory
  /-- A stratum thread reads the selected pool. -/
  | snapshot (p : Pool)
  /-- An attempt to connect, to subscribe and to log in. -/
  | attempt (p : Pool) (succeeds : Bool)
  /-- A failed attempt is handled, up to the next block. -/
  | handle (p : Pool)
  /-- The next step of `disableDonation`. -/
  | disable
  /-- The block that selects the main pool. -/
  | selectMain
  /-- The pause is over. -/
  | wake (p : Pool)
  /-- The thread has served the connection, which may be lost. -/
  | served (p : Pool) (up : Bool)
  /-- The identifier of the thread is reset. -/
  | leave (p : Pool)

namespace DevPool

variable (o : RetryOptions)

/-- A call moves on. -/
def setSubmit (s : DevPool) (t : ℕ) (pc : SubmitPc) : DevPool :=
  { s with submit := Function.update s.submit t pc }

/-- A stratum thread moves on. -/
def setPc (s : DevPool) (p : Pool) (pc : PoolPc) : DevPool :=
  { s with stratum := Function.update s.stratum p { s.stratum p with pc := pc } }

/-- A pool is selected. -/
def selectPool (s : DevPool) (d : Pool) : DevPool :=
  { s with globals := { s.globals with mineForDev := d } }

/-- The thread of the developer's pool has handled a failed attempt. -/
def handled (s : DevPool) (pc : PoolPc) : DevPool :=
  { s.setPc 1 pc with afterFailures := s.afterFailures ++ [s.globals.mineForDev] }

/-- `disableDonation` returns. -/
def disabledNow (s : DevPool) (retrying : Bool) : DevPool :=
  if retrying then { s.handled .out with disabled := true }
  else { s.setPc 1 .ended with disabled := true }

/-- A failure is counted, if their number is limited. -/
def countFailure (s : DevPool) (p : Pool) : DevPool :=
  { s with stratum := Function.update s.stratum p { s.stratum p with
    failures := if 0 ≤ o.retries then (s.stratum p).failures + 1 else (s.stratum p).failures } }

/-- Whether the thread is inside `disableDonation`. -/
def isDisabling : PoolPc → Bool
  | .disabling _ _ => true
  | _ => false

/-- When an event is possible. -/
def Possible (s : DevPool) : DevPoolEvent → Prop
  | .sent t _ => s.submit t = .idle
  | .readFactor t | .readDonate t | .writeWeight t | .count t => s.submit t ≠ .idle
  | .fetch | .pick _ | .difficulty _ _ => True
  | .enter p | .noUrl p => (s.stratum p).pc = .start
  | .outOfMemory => (s.stratum 1).pc = .start
  | .snapshot p => (s.stratum p).pc = .top
  | .attempt p _ => (s.stratum p).pc = .connect
  | .handle p => (s.stratum p).pc = .failed
  | .disable => isDisabling (s.stratum 1).pc = true
  | .selectMain => (s.stratum 1).pc = .selecting
  | .wake p => (s.stratum p).pc = .asleep
  | .served p _ => (s.stratum p).pc = .serve
  | .leave p => (s.stratum p).pc = .out

instance (s : DevPool) : (e : DevPoolEvent) → Decidable (s.Possible e)
  | .sent _ _ | .enter _ | .noUrl _ | .outOfMemory | .snapshot _ | .attempt _ _ | .handle _
  | .disable | .selectMain | .wake _ | .served _ _ | .leave _ =>
    inferInstanceAs (Decidable (_ = _))
  | .readFactor _ | .readDonate _ | .writeWeight _ | .count _ => inferInstanceAs (Decidable (_ ≠ _))
  | .fetch | .pick _ | .difficulty _ _ => inferInstanceAs (Decidable True)

/-- What an event does. -/
def next (s : DevPool) : DevPoolEvent → DevPool
  | .sent t dev => s.setSubmit t (.sent dev)
  | .readFactor t =>
    match s.submit t with
    | .sent dev =>
      if s.globals.poolDifficulty 0 > 0 ∧ s.globals.poolDifficulty 1 > 0 then
        s.setSubmit t (.factor dev (s.globals.poolDifficulty 0 / s.globals.poolDifficulty 1))
      else s.setSubmit t (.weighed dev)
    | _ => s
  | .readDonate t =>
    match s.submit t with
    | .factor dev donateFactor => s.setSubmit t (.weight dev (s.globals.donate * donateFactor))
    | _ => s
  | .writeWeight t =>
    match s.submit t with
    | .weight dev w =>
      { s.setSubmit t (.weighed dev) with globals := { s.globals with weightedDonate := w } }
    | _ => s
  | .count t =>
    match s.submit t with
    | .weighed dev =>
      { s.setSubmit t .idle with globals := (s.globals.countShare dev).selectPool }
    | _ => s
  | .fetch => if s.globals.hasDevThread then s else s.selectPool 0
  | .pick t => { s with minerDev := Function.update s.minerDev t s.globals.mineForDev }
  | .difficulty p q =>
    { s with globals := { s.globals with
      poolDifficulty := Function.update s.globals.poolDifficulty p q } }
  | .enter p => s.setPc p .top
  | .noUrl p => s.setPc p .out
  | .outOfMemory => s.setPc 1 (.disabling 0 false)
  | .snapshot p =>
    let th := s.stratum p
    { s with stratum := Function.update s.stratum p { th with
      pc := if th.connected then .serve else .connect
      dev := s.globals.mineForDev
      failures := 0 } }
  | .attempt p succeeds =>
    if succeeds then
      { s with stratum := Function.update s.stratum p { s.stratum p with
        pc := .serve
        connected := true } }
    else s.setPc p .failed
  | .handle p =>
    let th := s.stratum p
    let s' := s.countFailure o p
    if o.GivesUp th.failures then
      if p = 1 then s'.setPc 1 (.disabling 0 true) else s'.setPc p .out
    else if p = 1 then
      if o.debugDev ∨ th.dev = 1 then s'.setPc 1 .selecting else s'.handled .asleep
    else s'.setPc p .asleep
  | .disable =>
    match (s.stratum 1).pc with
    | .disabling 0 retrying =>
      { s.setPc 1 (.disabling 1 retrying) with globals := { s.globals with donate := 0 } }
    | .disabling 1 retrying =>
      { s.setPc 1 (.disabling 2 retrying) with globals := { s.globals with weightedDonate := 0 } }
    | .disabling _ retrying => (s.selectPool 0).disabledNow retrying
    | _ => s
  | .selectMain => (s.selectPool 0).handled .asleep
  | .wake p => s.setPc p .connect
  | .served p up =>
    { s with stratum := Function.update s.stratum p { s.stratum p with
      pc := .top
      connected := up } }
  | .leave p =>
    { s.setPc p .ended with globals := { s.globals with
      hasDevThread := if p = 1 then false else s.globals.hasDevThread } }

/-- The steps. -/
def Step : DevPool → DevPoolEvent → DevPool → Prop := Trace.machine Possible (next o)

/-- The start of the threads. -/
structure Initial (s : DevPool) : Prop where
  /-- The main pool is selected. -/
  mineForDev : s.globals.mineForDev = 0
  /-- No call is on its way. -/
  submit : ∀ t, s.submit t = .idle
  /-- A stratum thread is before its loop, or there is none. -/
  stratum : ∀ p, (s.stratum p).pc = .start ∨ (s.stratum p).pc = .ended
  /-- The donation is not disabled. -/
  disabled : s.disabled = false
  /-- No attempt has failed. -/
  afterFailures : s.afterFailures = []

/-! ### The end of the donation -/

/-- Once `donate` is 0 and the main pool selected, no share selects another one. -/
theorem selectPool_of_donate_eq_zero {g : Donation} (hdonate : g.donate = 0)
    (hmain : g.mineForDev = 0) : g.selectPool.mineForDev = 0 := by
  unfold Donation.selectPool
  split
  · have hoff : ¬ g.donate > 0 := by simp [hdonate]
    simp [hoff]
  · exact hmain

theorem selectPool_donate (g : Donation) : g.selectPool.donate = g.donate := by
  unfold Donation.selectPool
  dsimp only
  split_ifs <;> rfl

/-- From the first step of `disableDonation` on nothing is to be donated, and from its last
one on the main pool is selected. -/
structure Ends (s : DevPool) : Prop where
  /-- After the first step. -/
  donate : ∀ k retrying, (s.stratum 1).pc = .disabling (k + 1) retrying → s.globals.donate = 0
  /-- After the last step. -/
  off : s.disabled = true → s.globals.donate = 0 ∧ s.globals.mineForDev = 0

variable {o : RetryOptions} {s : DevPool}

/-- A thread moves on, and is behind the first step of `disableDonation` only if nothing is
to be donated. -/
theorem Ends.setThread (h : s.Ends) {p : Pool} {th : PoolThread}
    (hpc : ∀ k retrying, p = 1 → th.pc = .disabling (k + 1) retrying → s.globals.donate = 0) :
    Ends { s with stratum := Function.update s.stratum p th } := by
  refine ⟨?_, h.off⟩
  intro k retrying hk
  by_cases hp : p = 1
  · subst hp
    exact hpc k retrying rfl (by simpa using hk)
  · exact h.donate k retrying (by simpa [Function.update_of_ne (Ne.symm hp)] using hk)

/-- The globals change, but for what is to be donated. -/
theorem Ends.setGlobals (h : s.Ends) {g : Donation} (hdonate : g.donate = s.globals.donate)
    (hmain : s.globals.donate = 0 → s.globals.mineForDev = 0 → g.mineForDev = 0) :
    Ends { s with globals := g } := by
  constructor
  · intro k retrying hk
    exact hdonate.trans (h.donate k retrying hk)
  · intro hdis
    obtain ⟨hzero, hsel⟩ := h.off hdis
    exact ⟨hdonate.trans hzero, hmain hzero hsel⟩

theorem Ends.setSubmit (h : s.Ends) (t : ℕ) (pc : SubmitPc) : (s.setSubmit t pc).Ends :=
  ⟨h.donate, h.off⟩

theorem Ends.setPc (h : s.Ends) (p : Pool) {pc : PoolPc}
    (hpc : ∀ k retrying, pc ≠ .disabling (k + 1) retrying) : (s.setPc p pc).Ends :=
  h.setThread fun k retrying _ hk => absurd hk (hpc k retrying)

theorem Ends.selectMain (h : s.Ends) : (s.selectPool 0).Ends :=
  h.setGlobals rfl fun _ _ => rfl

theorem Ends.handled (h : s.Ends) {pc : PoolPc}
    (hpc : ∀ k retrying, pc ≠ .disabling (k + 1) retrying) : (s.handled pc).Ends := by
  obtain ⟨hdonate, hoff⟩ := h.setPc 1 hpc
  exact ⟨hdonate, hoff⟩

/-- The steps of `disableDonation`. -/
theorem Ends.next_disable (h : s.Ends) : (s.next o .disable).Ends := by
  simp only [next]
  split
  · -- nothing is to be donated from here on
    exact ⟨fun _ _ _ => rfl, fun hdis => ⟨rfl, (h.off hdis).2⟩⟩
  · next hpc =>
    have hzero := h.donate _ _ hpc
    exact ⟨fun _ _ _ => hzero, fun hdis => ⟨hzero, (h.off hdis).2⟩⟩
  · next k retrying hk0 hk1 hpc =>
    -- the last step comes after the first
    obtain ⟨j, rfl⟩ : ∃ j, k = j + 1 := Nat.exists_eq_succ_of_ne_zero fun hk => by
      subst hk
      exact hk0 rfl
    have hzero := h.donate _ _ hpc
    unfold disabledNow
    split
    · exact ⟨(h.selectMain.handled (by simp)).donate, fun _ => ⟨hzero, rfl⟩⟩
    · exact ⟨(h.selectMain.setPc 1 (by simp)).donate, fun _ => ⟨hzero, rfl⟩⟩
  · exact h

theorem Ends.countFailure (h : s.Ends) (p : Pool) : (s.countFailure o p).Ends := by
  apply h.setThread
  intro k retrying hp hk
  subst hp
  exact h.donate k retrying hk

theorem Ends.next_handle (h : s.Ends) (p : Pool) : (s.next o (.handle p)).Ends := by
  have hcount := h.countFailure (o := o) p
  simp only [next]
  split_ifs
  · exact hcount.setPc 1 (by simp)
  · exact hcount.setPc p (by simp)
  · exact hcount.setPc 1 (by simp)
  · exact hcount.handled (by simp)
  · exact hcount.setPc p (by simp)

/-- What every step keeps. -/
theorem Ends.next (h : s.Ends) (e : DevPoolEvent) (hpos : s.Possible e) : (s.next o e).Ends := by
  cases e with
  | sent t dev => exact h.setSubmit t _
  | readFactor t =>
    simp only [DevPool.next]
    split
    · split
      · exact h.setSubmit t _
      · exact h.setSubmit t _
    · exact h
  | readDonate t =>
    simp only [DevPool.next]
    split
    · exact h.setSubmit t _
    · exact h
  | writeWeight t =>
    simp only [DevPool.next]
    split
    · exact (h.setSubmit t _).setGlobals rfl fun _ hsel => hsel
    · exact h
  | count t =>
    simp only [DevPool.next]
    split
    · next dev _ =>
      refine (h.setSubmit t _).setGlobals (selectPool_donate _) ?_
      exact selectPool_of_donate_eq_zero (g := s.globals.countShare dev)
    · exact h
  | fetch =>
    simp only [DevPool.next]
    split
    · exact h
    · exact h.selectMain
  | pick t => exact ⟨h.donate, h.off⟩
  | difficulty p q => exact h.setGlobals rfl fun _ hsel => hsel
  | enter p => exact h.setPc p (by simp)
  | noUrl p => exact h.setPc p (by simp)
  | outOfMemory => exact h.setPc 1 (by simp)
  | snapshot p =>
    refine h.setThread ?_
    intro k retrying _ hk
    dsimp only at hk
    split at hk <;> cases hk
  | attempt p succeeds =>
    simp only [DevPool.next]
    split
    · exact h.setThread (by simp)
    · exact h.setPc p (by simp)
  | handle p => exact h.next_handle p
  | disable => exact h.next_disable
  | selectMain => exact h.selectMain.handled (by simp)
  | wake p => exact h.setPc p (by simp)
  | served p up => exact h.setThread (by simp)
  | leave p => exact (h.setPc p (by simp)).setGlobals rfl fun _ hsel => hsel

theorem Initial.ends (h : s.Initial) : s.Ends := by
  constructor
  · intro k retrying hk
    rcases h.stratum 1 with hpc | hpc <;> rw [hpc] at hk <;> cases hk
  · intro hdis
    rw [h.disabled] at hdis
    cases hdis

theorem Ends.run (h : s.Ends) {es : List DevPoolEvent} {s' : DevPool}
    (hrun : Trace.Run (Step o) s es s') : s'.Ends :=
  hrun.invariant_state Ends h fun s e s' hends hstep => by
    obtain ⟨hpos, rfl⟩ := hstep
    exact hends.next e hpos

/-- `disableDonation` has returned for good. -/
theorem next_disabled (h : s.disabled = true) (e : DevPoolEvent) :
    (s.next o e).disabled = true := by
  cases e with
  | readFactor t =>
    simp only [next]
    split
    · split <;> exact h
    · exact h
  | readDonate t | writeWeight t | count t =>
    simp only [next]
    split <;> exact h
  | fetch =>
    simp only [next]
    split <;> exact h
  | attempt p succeeds =>
    simp only [next]
    split <;> exact h
  | handle p =>
    simp only [next]
    split_ifs <;> exact h
  | disable =>
    simp only [next]
    split
    · exact h
    · exact h
    · unfold disabledNow
      split <;> rfl
    · exact h
  | _ => exact h

theorem disabled_of_run (h : s.disabled = true) {es : List DevPoolEvent} {s' : DevPool}
    (hrun : Trace.Run (Step o) s es s') : s'.disabled = true :=
  hrun.invariant_state (fun s => s.disabled = true) h fun s e s' hdis hstep => by
    obtain ⟨-, rfl⟩ := hstep
    exact next_disabled hdis e

/-- **The end of the donation is permanent**: after `disableDonation` has returned the main
pool is selected in every state, and a miner thread selects it, whatever the calls on their
way have read before. -/
theorem mineForDev_of_disabled {o : RetryOptions} {s₀ s s' : DevPool} {es es' : List DevPoolEvent}
    (hinit : s₀.Initial) (hrun : Trace.Run (Step o) s₀ es s) (hdis : s.disabled = true)
    (hrun' : Trace.Run (Step o) s es' s') :
    s'.globals.mineForDev = 0 ∧
      ∀ (t : ℕ) (s'' : DevPool), Step o s' (.pick t) s'' → s''.minerDev t = 0 := by
  have hends : s'.Ends := (hinit.ends.run hrun).run hrun'
  have hmain := (hends.off (disabled_of_run hdis hrun')).2
  refine ⟨hmain, ?_⟩
  rintro t s'' ⟨-, rfl⟩
  simp [next, hmain]

/-- The start of the program with both pools. -/
def start : DevPool where
  globals := ⟨1 / 50, 1 / 50, fun _ => -1, true, 0, 0, 0⟩
  submit _ := .idle
  stratum _ := ⟨.start, 0, 0, false⟩
  minerDev _ := 0
  disabled := false
  afterFailures := []

theorem start_initial : start.Initial :=
  ⟨rfl, fun _ => rfl, fun _ => Or.inl rfl, rfl, rfl⟩

/-- The steps of a share of the main pool, after it was sent. -/
def shareEvents : List DevPoolEvent := [.readFactor 0, .readDonate 0, .writeWeight 0, .count 0]

/-- Up to the second share, with the difficulties of both pools known. -/
def sharesEvents : List DevPoolEvent :=
  [.enter 0, .enter 1, .difficulty 0 100, .difficulty 1 100, .sent 0 0] ++ shareEvents ++
    [.sent 0 0]

/-- A share carries its weight across the end of the donation. -/
theorem mineForDev_of_disabled_stale :
    let es := sharesEvents ++ [.readFactor 0, .readDonate 0, .snapshot 1, .attempt 1 false,
      .handle 1, .disable, .disable, .disable]
    let s := es.foldl (next ⟨0, false⟩) start
    let s' := [.writeWeight 0, .count 0, .leave 1].foldl (next ⟨0, false⟩) s
    s'.globals.mineForDev = 0 ∧
      ∀ (t : ℕ) (s'' : DevPool), Step ⟨0, false⟩ s' (.pick t) s'' → s''.minerDev t = 0 :=
  mineForDev_of_disabled start_initial (Trace.Run.of_legal _ (by decide +kernel))
    (by decide +kernel) (Trace.Run.of_legal _ (by decide +kernel))

/-! ### A failed attempt -/

/-- The condition on the state before a failed attempt for the developer's pool is handled:
the thread gives up, or its own block follows, or the main pool is selected anyway. -/
def StopsAt (o : RetryOptions) (s : DevPool) : DevPoolEvent → Prop
  | .handle p => p = 1 → o.GivesUp (s.stratum 1).failures ∨ o.debugDev = true ∨
      (s.stratum 1).dev = 1 ∨ s.globals.mineForDev = 0
  | _ => True

instance (s : DevPool) : (e : DevPoolEvent) → Decidable (s.StopsAt o e)
  | .handle _ => inferInstanceAs (Decidable (_ → _ ∨ _ ∨ _ ∨ _))
  | .sent _ _ | .readFactor _ | .readDonate _ | .writeWeight _ | .count _ | .fetch | .pick _
  | .difficulty _ _ | .enter _ | .noUrl _ | .outOfMemory | .snapshot _ | .attempt _ _ | .disable
  | .selectMain | .wake _ | .served _ _ | .leave _ => inferInstanceAs (Decidable True)

/-- Every failed attempt for the developer's pool left the main pool selected. -/
def LeavesMain (s : DevPool) : Prop := ∀ d ∈ s.afterFailures, d = 0

theorem handled_leavesMain_iff {pc : PoolPc} :
    (s.handled pc).LeavesMain ↔ s.LeavesMain ∧ s.globals.mineForDev = 0 := by
  simp only [LeavesMain, handled, List.mem_append, List.mem_singleton]
  exact ⟨fun h => ⟨fun d hd => h d (Or.inl hd), h _ (Or.inr rfl)⟩,
    fun h d hd => hd.elim (h.1 d) fun hd => hd.trans h.2⟩

theorem next_handle_leavesMain_iff (p : Pool) :
    (s.next o (.handle p)).LeavesMain ↔ s.LeavesMain ∧ s.StopsAt o (.handle p) := by
  simp only [next, StopsAt]
  by_cases hp : p = 1
  · subst hp
    simp only [if_true, forall_const]
    split_ifs with hgives hblock
    · exact (and_iff_left (Or.inl hgives)).symm
    · exact (and_iff_left (Or.inr (hblock.imp_right Or.inl))).symm
    · rw [handled_leavesMain_iff]
      obtain ⟨hdebug, hdev⟩ := not_or.mp hblock
      simp only [hgives, hdebug, hdev, false_or, Bool.false_eq_true]
      exact Iff.rfl
  · simp only [hp, if_false, false_imp_iff, and_true]
    split <;> exact Iff.rfl

/-- What a step does to the record. -/
theorem next_leavesMain_iff (e : DevPoolEvent) :
    (s.next o e).LeavesMain ↔ s.LeavesMain ∧ s.StopsAt o e := by
  cases e with
  | handle p => exact next_handle_leavesMain_iff p
  | readFactor t =>
    refine Iff.trans ?_ (and_iff_left trivial).symm
    simp only [next]
    split
    · split <;> exact Iff.rfl
    · exact Iff.rfl
  | readDonate t | writeWeight t | count t | fetch | attempt t succeeds =>
    refine Iff.trans ?_ (and_iff_left trivial).symm
    simp only [next]
    split <;> exact Iff.rfl
  | disable =>
    refine Iff.trans ?_ (and_iff_left trivial).symm
    simp only [next]
    split
    · exact Iff.rfl
    · exact Iff.rfl
    · unfold disabledNow
      split
      · show ((s.selectPool 0).handled .out).LeavesMain ↔ s.LeavesMain
        rw [handled_leavesMain_iff]
        exact and_iff_left rfl
      · exact Iff.rfl
    · exact Iff.rfl
  | selectMain => exact handled_leavesMain_iff.trans (and_congr_right' (iff_of_true rfl trivial))
  | _ => exact (and_iff_left trivial).symm

/-- **Every failed attempt leaves the main pool selected if and only if** each of them meets
the condition, in every run of the threads. -/
theorem leavesMain_iff {o : RetryOptions} {s₀ s : DevPool} {es : List DevPoolEvent}
    (hinit : s₀.Initial) (hrun : Trace.Run (Step o) s₀ es s) :
    s.LeavesMain ↔ Trace.Run (Trace.restrict (Step o) (StopsAt o)) s₀ es s := by
  constructor
  · intro h
    induction hrun with
    | nil => exact .nil
    | snoc hrun hstep ih =>
      obtain ⟨hpos, rfl⟩ := hstep
      obtain ⟨hbefore, hstops⟩ := (next_leavesMain_iff _).mp h
      exact (ih hbefore).snoc ⟨⟨hpos, rfl⟩, hstops⟩
  · intro h
    refine h.invariant_state LeavesMain ?_ ?_
    · intro d hd
      rw [hinit.afterFailures] at hd
      cases hd
    · rintro s e s' hleaves ⟨⟨-, rfl⟩, hstops⟩
      exact (next_leavesMain_iff e).mpr ⟨hleaves, hstops⟩

/-- The thread of the developer's pool loses its connection while that pool is selected. -/
theorem leavesMain_of_selected :
    let es := sharesEvents ++ shareEvents ++ [.snapshot 1, .attempt 1 false, .handle 1, .selectMain]
    (es.foldl (next ⟨-1, false⟩) start).LeavesMain := by
  intro es
  refine (leavesMain_iff start_initial (Trace.Run.of_legal es (by decide +kernel))).mpr ?_
  exact Trace.Run.restrict_of_legal es (by decide +kernel)

/-- The second share selects the developer's pool between the top of the loop and the failed
attempt. -/
theorem not_leavesMain_of_share :
    ¬ ∀ (o : RetryOptions) (s₀ s : DevPool) (es : List DevPoolEvent), s₀.Initial →
      Trace.Run (Step o) s₀ es s → s.LeavesMain := by
  intro h
  let es := sharesEvents ++ [.snapshot 1] ++ shareEvents ++ [.attempt 1 false, .handle 1]
  have hrun : Trace.Run (Step ⟨-1, false⟩) start es _ := Trace.Run.of_legal es (by decide +kernel)
  have hleaves := h ⟨-1, false⟩ start _ es start_initial hrun
  have hrecord : (es.foldl (next ⟨-1, false⟩) start).afterFailures = [1] := by decide +kernel
  exact absurd (hleaves 1 (hrecord ▸ List.mem_singleton_self 1)) (by decide)

end DevPool

end XmrMiner
