import XmrMiner.Miner.DevPool

/-!
# The restart after a change of pools

A miner thread keeps scanning for the pool that it has selected until its restart flag is
raised or its limit is reached.  The block of `submit_upstream_work` that selects the next
pool therefore ends with `restart_threads`, if the selection differs from `oldDev`.  This
is not the pool that was selected before, though, but the one of the share.

The threads of the donation are joined by the flags: the block raises them, the stratum
threads raise them for reasons of their own, and each miner thread resets its own.

## Main definitions

* `restartThreads` — raises all flags.
* `PoolRestart`, `PoolRestart.next` — the threads of the donation, and the flags.
* `Donation.Reselects` — a late share selects its own pool again.

## Main results

* `PoolRestart.run_pool` — without the flags these are the runs of `DevPool`.
* `PoolRestart.changes_restart_iff` — **when a change of the pool restarts the miners.**
-/

namespace XmrMiner

/-- `restart_threads`. -/
def restartThreads (nThreads : ℕ) (restart : ℕ → Bool) : ℕ → Bool :=
  (List.range nThreads).foldl (fun restart i => Function.update restart i true) restart

theorem restartThreads_apply (nThreads : ℕ) (restart : ℕ → Bool) (i : ℕ) :
    restartThreads nThreads restart i = if i < nThreads then true else restart i := by
  unfold restartThreads
  induction nThreads with
  | zero => simp
  | succ n ih =>
    rw [List.range_succ, List.foldl_append, List.foldl_cons, List.foldl_nil]
    rcases eq_or_ne i n with rfl | hne
    · simp
    · rw [Function.update_of_ne hne, ih]
      have hiff : i < n + 1 ↔ i < n := by omega
      simp only [hiff]

/-- The threads of the donation, and the flags `work_restart`. -/
structure PoolRestart where
  /-- The globals of the donation, and its threads. -/
  pool : DevPool
  /-- The restart flag of each miner thread. -/
  restart : ℕ → Bool

/-- The events. -/
inductive PoolRestartEvent
  /-- An event of the donation. -/
  | pool (e : DevPoolEvent)
  /-- A stratum thread calls `restart_threads`. -/
  | restartThreads
  /-- A miner thread resets its flag. -/
  | reset (thrId : ℕ)

namespace PoolRestart

variable (o : RetryOptions) (nThreads : ℕ)

/-- The block of a call of `submit_upstream_work` for a share of the pool `dev`. -/
def submitBlock (s : PoolRestart) (t : ℕ) (dev : Pool) : PoolRestart :=
  let oldDev := dev
  let g := (s.pool.globals.countShare dev).selectPool
  { pool := { s.pool.setSubmit t .idle with globals := g }
    restart := if oldDev ≠ g.mineForDev then restartThreads nThreads s.restart else s.restart }

/-- When an event is possible. -/
def Possible (s : PoolRestart) : PoolRestartEvent → Prop
  | .pool e => s.pool.Possible e
  | .restartThreads => True
  | .reset thrId => thrId < nThreads

instance (s : PoolRestart) : (e : PoolRestartEvent) → Decidable (s.Possible nThreads e)
  | .pool e => inferInstanceAs (Decidable (s.pool.Possible e))
  | .restartThreads => inferInstanceAs (Decidable True)
  | .reset thrId => inferInstanceAs (Decidable (thrId < nThreads))

/-- What an event does. -/
def next (s : PoolRestart) : PoolRestartEvent → PoolRestart
  | .pool (.count t) =>
    match s.pool.submit t with
    | .weighed dev => s.submitBlock nThreads t dev
    | _ => s
  | .pool e => { s with pool := s.pool.next o e }
  | .restartThreads => { s with restart := restartThreads nThreads s.restart }
  | .reset thrId => { s with restart := Function.update s.restart thrId false }

/-- The steps. -/
def Step : PoolRestart → PoolRestartEvent → PoolRestart → Prop :=
  Trace.machine (Possible nThreads) (next o nThreads)

/-- The events of the donation among some. -/
def poolEvents (es : List PoolRestartEvent) : List DevPoolEvent :=
  es.filterMap fun e =>
    match e with
    | .pool e => some e
    | _ => none

variable {o : RetryOptions} {nThreads : ℕ} {s s' : PoolRestart}

/-- The flags have no effect on the donation. -/
theorem next_pool (e : DevPoolEvent) :
    (s.next o nThreads (.pool e)).pool = s.pool.next o e := by
  cases e with
  | count t =>
    simp only [next, DevPool.next]
    cases s.pool.submit t <;> rfl
  | _ => rfl

/-- Without the flags, a run is one of the threads of the donation. -/
theorem run_pool {es : List PoolRestartEvent} (h : Trace.Run (Step o nThreads) s es s') :
    Trace.Run (DevPool.Step o) s.pool (poolEvents es) s'.pool := by
  induction h with
  | nil => exact .nil
  | @snoc es e s' s'' _ hlast ih =>
    obtain ⟨hpossible, rfl⟩ := hlast
    rw [poolEvents, List.filterMap_append]
    cases e with
    | pool e =>
      rw [next_pool]
      exact ih.snoc ⟨hpossible, rfl⟩
    | restartThreads => simpa [poolEvents, next] using ih
    | reset thrId => simpa [poolEvents, next] using ih

end PoolRestart

/-! ### A late share -/

/-- A share is late, its pool not being the selected one, and selects its own pool again:
the developer's if the ratio is below the weight, with the share counted, and donating is
possible, and the main pool otherwise.  The first share selects nothing. -/
structure Donation.Reselects (g : Donation) (dev : Pool) : Prop where
  /-- A share was counted before. -/
  counted : 0 < g.shareCount
  /-- The other pool is selected. -/
  late : dev ≠ g.mineForDev
  /-- The pool of the share is selected. -/
  selects : dev = 1 ↔
    ((g.countDev + if dev = 1 then 1 else 0 : ℕ) : ℚ) < g.weightedDonate * (g.shareCount + 1 : ℕ) ∧
      g.donate > 0 ∧ g.hasDevThread ∧ g.poolDifficulty 1 > 0

/-- The first share. -/
theorem Donation.countShare_selectPool_first {g : Donation} (hn : g.shareCount = 0) (dev : Pool) :
    (g.countShare dev).selectPool.mineForDev = g.mineForDev := by
  rw [Donation.selectPool, if_neg (by simp [Donation.countShare, hn])]
  rfl

/-- What a later share selects is the other pool if it changes the selection, unless it is
late and selects its own. -/
theorem Donation.reselects_iff {g : Donation} (hn : 0 < g.shareCount) {dev : Pool} :
    g.Reselects dev ↔ dev ≠ g.mineForDev ∧ (g.countShare dev).selectPool.mineForDev = dev := by
  have hsel : (g.countShare dev).selectPool.mineForDev =
      if ((g.countDev + if dev = 1 then 1 else 0 : ℕ) : ℚ)
          < g.weightedDonate * (g.shareCount + 1 : ℕ) ∧
        g.donate > 0 ∧ g.hasDevThread ∧ g.poolDifficulty 1 > 0 then 1 else 0 := by
    have hcount : (g.countShare dev).countDev = g.countDev + if dev = 1 then 1 else 0 := by
      unfold Donation.countShare
      split <;> rfl
    rw [Donation.selectPool_mineForDev (by simpa [Donation.countShare] using hn), hcount]
    rfl
  rw [hsel]
  constructor
  · rintro ⟨-, hlate, hselects⟩
    refine ⟨hlate, ?_⟩
    rcases Pool.eq_zero_or_eq_one dev with rfl | rfl
    · exact if_neg (fun h => absurd (hselects.mpr h) (by decide))
    · exact if_pos (hselects.mp rfl)
  · rintro ⟨hlate, hdev⟩
    refine ⟨hn, hlate, ?_⟩
    rcases Pool.eq_zero_or_eq_one dev with rfl | rfl
    · refine iff_of_false (by decide) fun h => ?_
      rw [if_pos h] at hdev
      exact absurd hdev (by decide)
    · refine iff_of_true rfl ?_
      by_contra h
      rw [if_neg h] at hdev
      exact absurd hdev (by decide)

namespace PoolRestart

variable {o : RetryOptions} {nThreads : ℕ} {s : PoolRestart} {t : ℕ} {dev : Pool}

/-- **A change of the pool restarts the miners** unless a late share selects its own pool
again and the flag of some miner thread is down: for every state of the threads and every
share. -/
theorem changes_restart_iff (hblock : s.pool.submit t = .weighed dev) :
    ((s.next o nThreads (.pool (.count t))).pool.globals.mineForDev
          ≠ s.pool.globals.mineForDev →
        ∀ i < nThreads, (s.next o nThreads (.pool (.count t))).restart i = true) ↔
      ¬ s.pool.globals.Reselects dev ∨ ∀ i < nThreads, s.restart i = true := by
  have hnext : s.next o nThreads (.pool (.count t)) = s.submitBlock nThreads t dev := by
    rw [next, hblock]
  rw [hnext]
  simp only [submitBlock]
  rcases Nat.eq_zero_or_pos s.pool.globals.shareCount with hzero | hpos
  · rw [Donation.countShare_selectPool_first hzero]
    exact iff_of_true (fun h => absurd rfl h) (Or.inl fun h => absurd hzero h.counted.ne')
  · rw [Donation.reselects_iff hpos]
    generalize (s.pool.globals.countShare dev).selectPool.mineForDev = selected
    rcases eq_or_ne dev selected with rfl | hne
    · simp only [ne_eq, not_true_eq_false, if_false, and_true, not_not]
      tauto
    · simp only [ne_eq, hne, not_false_eq_true, if_true, hne.symm, and_false]
      refine iff_of_true (fun _ i hi => ?_) (Or.inl trivial)
      rw [restartThreads_apply, if_pos hi]

/-- The start of the program, with all flags down. -/
def start : PoolRestart := ⟨DevPool.start, fun _ => false⟩

/-- The steps of a share for a pool up to its block. -/
def weighEvents (dev : Pool) : List PoolRestartEvent :=
  [.pool (.sent 0 dev), .pool (.readFactor 0), .pool (.readDonate 0), .pool (.writeWeight 0)]

/-- A share of the main pool, and a second one up to its block. -/
def mainEvents : List PoolRestartEvent :=
  [.pool (.enter 0), .pool (.enter 1), .pool (.difficulty 0 100), .pool (.difficulty 1 100),
    .pool (.pick 0)] ++ weighEvents 0 ++ [.pool (.count 0)] ++ weighEvents 0

/-- The block of this share selects the developer's pool, for which the miner thread finds two
shares.  The first one selects the main pool; before the second one is sent, the developer's
pool becomes easier. -/
def lateEvents : List PoolRestartEvent :=
  mainEvents ++ [.pool (.count 0), .pool (.pick 0), .reset 0] ++ weighEvents 1 ++
    [.pool (.count 0), .pool (.pick 0), .reset 0, .pool (.difficulty 1 1)] ++ weighEvents 1

theorem changes_restart_iff_second :
    let s := mainEvents.foldl (next ⟨-1, false⟩ 1) start
    let s' := s.next ⟨-1, false⟩ 1 (.pool (.count 0))
    (s'.pool.globals.mineForDev ≠ s.pool.globals.mineForDev →
        ∀ i < 1, s'.restart i = true) ↔
      ¬ s.pool.globals.Reselects 0 ∨ ∀ i < 1, s.restart i = true :=
  changes_restart_iff (by decide +kernel)

/-- The last block of that run selects the developer's pool, and no flag is raised. -/
theorem late_share_changes_pool :
    let s := lateEvents.foldl (next ⟨-1, false⟩ 1) start
    let s' := s.next ⟨-1, false⟩ 1 (.pool (.count 0))
    Trace.Run (Step ⟨-1, false⟩ 1) start lateEvents s ∧
      s.pool.submit 0 = .weighed 1 ∧ s.pool.globals.mineForDev = 0 ∧
      s'.pool.globals.mineForDev = 1 ∧ s'.restart 0 = false := by
  intro s s'
  exact ⟨Trace.Run.of_legal lateEvents (by decide +kernel), by decide +kernel, by decide +kernel,
    by decide +kernel, by decide +kernel⟩

end PoolRestart

end XmrMiner
