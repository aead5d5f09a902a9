import XmrMiner.Miner.Work

/-!
# The restart signal

When a stratum thread receives a job it publishes it and raises the restart flags of all
miner threads, if its pool is the selected one.  A miner thread takes over the published
job, clears its flag and scans, until it reads a raised flag.  The two orders meet: the
thread takes over the job under a lock and clears its flag after it, and the stratum
thread decides with the pool that was selected when its loop came round.  A third
party is a miner thread that has run out of nonces, which publishes the job of the
connection itself.

The model is of one stratum thread, of the pool `p`, and of `n` miner threads.  The
blocks under a mutex are steps, and so are the single reads and writes outside of one.
The thread that sends the shares and the stratum thread of the other pool take part as
far as they touch what the others read.

## Main definitions

* `Restarts` — the state of all threads.
* `RestartEvent`, `Restarts.Possible`, `Restarts.next` — the steps.
* `Restarts.Lossless` — no restart is lost.
* `Restarts.Orderly` — the condition on the steps.

## Main results

* `lossless_of_run` — in a run of orderly steps no restart is lost.
-/

namespace XmrMiner

/-- The same job: what the two pools' structures hold of it is the same. -/
def Work.Same (w g : Work) : Prop :=
  w.jobId = g.jobId ∧ w.target = g.target ∧ ∀ i < 128, w.data i = g.data i

namespace Work.Same

instance (w g : Work) : Decidable (w.Same g) := inferInstanceAs (Decidable (_ ∧ _ ∧ _))

theorem refl (w : Work) : w.Same w := ⟨rfl, rfl, fun _ _ => rfl⟩

theorem symm {w g : Work} (h : w.Same g) : g.Same w :=
  ⟨h.1.symm, h.2.1.symm, fun i hi => (h.2.2 i hi).symm⟩

theorem trans {v w g : Work} (h : v.Same w) (h' : w.Same g) : v.Same g :=
  ⟨h.1.trans h'.1, h.2.1.trans h'.2.1, fun i hi => (h.2.2 i hi).trans (h'.2.2 i hi)⟩

end Work.Same

/-! ### The threads -/

/-- Where the stratum thread is: at the top of its loop, before `g_work_time2` is reset,
before it connects, before the test for a new job, before the job is published, inside
`restart_threads` with the flags below `i` raised, or before it receives a line. -/
inductive StratumPc
  | top
  | resetTime
  | connect
  | test
  | publish
  | restarting (i : ℕ) (reconnecting : Bool)
  | receive
  deriving DecidableEq

/-- Where a miner thread is: at the top of its loop, before the refresh block, before
its flag is cleared, or inside a scan. -/
inductive MinerPc
  | top
  | picked
  | refreshed
  | scanning
  deriving DecidableEq

/-- A miner thread. -/
structure MinerThread where
  /-- Where it is. -/
  pc : MinerPc
  /-- `dev`. -/
  dev : Pool
  /-- Its other variables. -/
  miner : Miner
  /-- The job it took over last, for each pool; not in the program. -/
  taken : Pool → Work

/-- All threads, and what they share.  The last two fields are not in the program. -/
structure Restarts where
  /-- `mine_for_dev`. -/
  mineForDev : Pool
  /-- Who holds `dev_lock` to restart the threads, and the flag to be raised next. -/
  switching : Option ℕ
  /-- `g_work2`. -/
  published : Pool → Work
  /-- Whether `g_work_time2` is set. -/
  hasTime : Bool
  /-- The flags. -/
  restart : ℕ → Bool
  /-- Where the stratum thread is. -/
  pc : StratumPc
  /-- Its `dev`. -/
  dev : Pool
  /-- Whether it is connected. -/
  connected : Bool
  /-- `work` of its connection. -/
  storage : Work
  /-- The miner threads. -/
  thread : ℕ → MinerThread
  /-- A new job has been received, and the thread has not passed the block yet. -/
  fresh : Bool
  /-- The thread has passed the block for the published job, with its pool selected. -/
  announced : Bool

/-- The events: of the stratum thread, of the thread that sends the shares, of the other
pool, and of the miner threads. -/
inductive RestartEvent
  | readSelected
  | resetTime
  | login (w : Work)
  | connectFailed
  | connected
  | test
  | publish
  | raise
  | receive (w : Option Work)
  | disconnect
  | select (shareDev dev : Pool)
  | selectRaise
  | selectMain
  | otherPublish (w : Work)
  | otherRaise (i : ℕ)
  | pick (thrId : ℕ)
  | refresh (thrId : ℕ) (source : WorkSource)
  | clear (thrId : ℕ)
  | poll (thrId : ℕ) (hashes : BitVec 32)
  | finish (thrId : ℕ) (hashes : BitVec 32)

namespace Restarts

variable (n : ℕ) (p : Pool)

/-- A job arrives on the connection. -/
def receiveJob (s : Restarts) (w : Work) : Restarts :=
  { s with storage := w, fresh := !decide (w.Same (s.published p)) }

/-- A job is published. -/
def publishJob (s : Restarts) (d : Pool) (g : Work) : Restarts :=
  { s with
    published := Function.update s.published d g
    announced := s.announced && decide (d = p → g.Same (s.published p)) }

/-- The stratum thread has passed the block. -/
def passBlock (s : Restarts) : Restarts :=
  { s with
    pc := .receive
    fresh := false
    announced := s.announced ||
      s.fresh && decide ((s.published p).Same s.storage) && decide (s.mineForDev = p) }

/-- A flag is raised. -/
def raiseFlag (s : Restarts) (i : ℕ) : Restarts :=
  { s with restart := Function.update s.restart i true }

/-- A miner thread moves on. -/
def setThread (s : Restarts) (t : ℕ) (th : MinerThread) : Restarts :=
  { s with thread := Function.update s.thread t th }

/-- Where a miner thread obtains its work: of the pool `p`, from the connection. -/
def source (s : Restarts) (t : ℕ) (other : WorkSource) : WorkSource :=
  if (s.thread t).dev = p then .stratum s.storage else other

/-- The thread after a scan. -/
def endScan (th : MinerThread) (hashes : BitVec 32) : MinerThread :=
  { th with
    pc := .top
    miner := { th.miner with
      hashesDone2 := Function.update th.miner.hashesDone2 th.dev hashes } }

/-- The thread after the refresh block, with the work that was published in it. -/
def afterRefresh (t : ℕ) (th : MinerThread) (g : Work) : MinerThread :=
  { th with
    pc := .refreshed
    miner := th.miner.refresh n t th.dev g
    taken := if (th.miner.work2 th.dev).blobDiffers g then Function.update th.taken th.dev g
      else th.taken }

/-- Whether the stratum thread is inside `restart_threads`. -/
def inRestart (s : Restarts) : Bool :=
  match s.pc with
  | .restarting _ _ => true
  | _ => false

/-- When an event is possible. -/
def Possible (s : Restarts) : RestartEvent → Prop
  | .readSelected => s.pc = .top ∧ s.switching = none
  | .resetTime => s.pc = .resetTime
  | .login _ | .connectFailed | .connected => s.pc = .connect
  | .test => s.pc = .test
  | .publish => s.pc = .publish
  | .raise => s.inRestart = true
  | .receive _ | .disconnect => s.pc = .receive
  | .select _ _ | .selectMain => s.switching = none
  | .selectRaise => s.switching ≠ none
  | .otherPublish _ | .otherRaise _ => True
  | .pick t => t < n ∧ (s.thread t).pc = .top ∧ s.switching = none
  | .refresh t other => t < n ∧ (s.thread t).pc = .picked ∧
      obtainWork (s.thread t).miner (s.thread t).dev (s.published (s.thread t).dev)
        (s.source p t other) ≠ none
  | .clear t => t < n ∧ (s.thread t).pc = .refreshed
  | .poll t _ | .finish t _ => t < n ∧ (s.thread t).pc = .scanning

instance (s : Restarts) : (e : RestartEvent) → Decidable (s.Possible n p e)
  | .readSelected => inferInstanceAs (Decidable (_ ∧ _))
  | .resetTime | .login _ | .connectFailed | .connected | .test | .publish | .raise | .receive _
  | .disconnect | .select _ _ | .selectMain => inferInstanceAs (Decidable (_ = _))
  | .selectRaise => inferInstanceAs (Decidable (_ ≠ _))
  | .otherPublish _ | .otherRaise _ => inferInstanceAs (Decidable True)
  | .pick _ | .refresh _ _ => inferInstanceAs (Decidable (_ ∧ _ ∧ _))
  | .clear _ | .poll _ _ | .finish _ _ => inferInstanceAs (Decidable (_ ∧ _))

/-- What an event does. -/
def next (s : Restarts) : RestartEvent → Restarts
  | .readSelected =>
    { s with dev := s.mineForDev, pc := if s.connected then .test else .resetTime }
  | .resetTime =>
    { s with hasTime := false, pc := if s.dev = p then .restarting 0 true else .connect }
  | .login w => s.receiveJob p w
  | .connectFailed => { s with pc := .resetTime }
  | .connected => { s with connected := true, pc := .test }
  | .test =>
    if s.hasTime = false ∨ s.storage.jobId ≠ (s.published p).jobId then { s with pc := .publish }
    else s.passBlock p
  | .publish =>
    let s' := { s.publishJob p p (stratumGenWork s.storage) with hasTime := true }
    if s.dev = p then { s' with pc := .restarting 0 false } else s'.passBlock p
  | .raise =>
    match s.pc with
    | .restarting i reconnecting =>
      if i < n then { s.raiseFlag i with pc := .restarting (i + 1) reconnecting }
      else if reconnecting then { s with pc := .connect }
      else s.passBlock p
    | _ => s
  | .receive w => { (w.elim s (s.receiveJob p)) with pc := .top }
  | .disconnect => { s with connected := false, pc := .top }
  | .select shareDev dev =>
    { s with mineForDev := dev, switching := if shareDev ≠ dev then some 0 else none }
  | .selectRaise =>
    match s.switching with
    | some i => if i < n then { s.raiseFlag i with switching := some (i + 1) }
      else { s with switching := none }
    | none => s
  | .selectMain => { s with mineForDev := 0 }
  | .otherPublish w => s.publishJob p (1 - p) w
  | .otherRaise i => s.raiseFlag i
  | .pick t => s.setThread t { s.thread t with pc := .picked, dev := s.mineForDev }
  | .refresh t other =>
    let th := s.thread t
    match obtainWork th.miner th.dev (s.published th.dev) (s.source p t other) with
    | some g => (s.setThread t (afterRefresh n t th g)).publishJob p th.dev g
    | none => s
  | .clear t =>
    { s.setThread t { s.thread t with pc := .scanning } with
      restart := Function.update s.restart t false }
  | .poll t hashes => if s.restart t then s.setThread t (endScan (s.thread t) hashes) else s
  | .finish t hashes => s.setThread t (endScan (s.thread t) hashes)

/-- A miner thread is inside a scan for the pool. -/
def Scanning (s : Restarts) (t : ℕ) : Prop :=
  (s.thread t).pc = .scanning ∧ (s.thread t).dev = p

/-- **No restart is lost.**  If a miner thread scans for a job that is not the published
one any more, and the stratum thread has passed the block for the published one while its
pool was selected, then the flag of the miner thread is raised. -/
def Lossless (s : Restarts) : Prop :=
  ∀ t < n, s.Scanning p t → ¬ ((s.thread t).taken p).Same (s.published p) →
    s.announced = true → s.restart t = true

/-- Inside its block, the stratum thread has not raised the flag yet. -/
def notRaised (s : Restarts) (t : ℕ) : Bool :=
  match s.pc with
  | .restarting i false => decide (i ≤ t)
  | _ => true

/-- The condition on the state before an event: a flag is not cleared after it was raised
for a job that the thread has not taken over, the stratum thread publishes with the pool in
mind that is selected, and a miner thread that has run out of nonces publishes nothing
new. -/
def Orderly (s : Restarts) : RestartEvent → Prop
  | .clear t => (s.thread t).dev = p → ¬ ((s.thread t).taken p).Same (s.published p) →
      s.announced = false ∧ s.notRaised t = true
  | .publish => s.mineForDev = p → s.dev = p
  | .refresh t _ => (s.thread t).dev = p →
      ((s.thread t).miner.work2 p).nonce ≥ (s.thread t).miner.endNonce →
      ((s.thread t).miner.work2 p).blobDiffers (s.published p) = false →
      s.storage.Same (s.published p) ∨ s.pc = .publish ∨ s.hasTime = false
  | _ => True

instance (s : Restarts) : (e : RestartEvent) → Decidable (s.Orderly p e)
  | .clear _ => inferInstanceAs (Decidable (_ → _ → _ ∧ _))
  | .publish => inferInstanceAs (Decidable (_ → _))
  | .refresh _ _ => inferInstanceAs (Decidable (_ → _ → _ → _ ∨ _ ∨ _))
  | .readSelected | .resetTime | .login _ | .connectFailed | .connected | .test | .raise
  | .receive _ | .disconnect | .select _ _ | .selectRaise | .selectMain | .otherPublish _
  | .otherRaise _ | .pick _ | .poll _ _ | .finish _ _ => inferInstanceAs (Decidable True)

/-! ### What the steps preserve -/

/-- A miner thread works for the published job, or its flag is raised. -/
def Safe (s : Restarts) (t : ℕ) : Prop :=
  ((s.thread t).taken p).Same (s.published p) ∨ s.restart t = true

/-- The invariant: the threads that scan are safe once the published job is announced,
and as far as the flags have been raised; as long as a new job has not passed the block,
it is not the published one. -/
structure Kept (s : Restarts) : Prop where
  /-- The threads are safe. -/
  safe : ∀ t < n, s.Scanning p t → s.announced = true → s.Safe p t
  /-- The threads are safe while the flags are raised. -/
  raised : ∀ i, s.pc = .restarting i false → s.hasTime = true ∧
    ∀ t < n, s.Scanning p t → s.Safe p t ∨ i ≤ t
  /-- A new job is not published yet. -/
  fresh : s.fresh = true → s.hasTime = true → s.pc ≠ .publish →
    (∀ i, s.pc ≠ .restarting i false) → ¬ (s.published p).Same s.storage

variable {n p} {s : Restarts}

theorem Kept.lossless (h : s.Kept n p) : s.Lossless n p := by
  intro t ht hscan hstale hann
  exact (h.safe t ht hscan hann).resolve_left hstale

/-- Raising a flag. -/
theorem Kept.raiseFlag (h : s.Kept n p) (i : ℕ) : (s.raiseFlag i).Kept n p := by
  have hmono : ∀ t, s.Safe p t → (s.raiseFlag i).Safe p t := by
    intro t hsafe
    by_cases hi : t = i
    · exact Or.inr (by simp [Restarts.raiseFlag, hi])
    · apply hsafe.imp_right
      intro hflag
      simpa [Restarts.raiseFlag, hi] using hflag
  refine ⟨fun t ht hscan hann => hmono t (h.safe t ht hscan hann), ?_, h.fresh⟩
  intro j hj
  obtain ⟨htime, hall⟩ := h.raised j hj
  exact ⟨htime, fun t ht hscan => (hall t ht hscan).imp_left (hmono t)⟩

/-- A miner thread moves on outside of a scan. -/
theorem Kept.setThread (h : s.Kept n p) {t : ℕ} {th : MinerThread} (hpc : th.pc ≠ .scanning) :
    (s.setThread t th).Kept n p := by
  have hother : ∀ u, (s.setThread t th).Scanning p u →
      s.Scanning p u ∧ (s.Safe p u → (s.setThread t th).Safe p u) := by
    intro u hscan
    have hu : u ≠ t := by
      rintro rfl
      exact hpc (by simpa [Restarts.setThread] using hscan.1)
    simpa [Restarts.setThread, Restarts.Scanning, Restarts.Safe, hu] using hscan
  refine ⟨?_, ?_, h.fresh⟩
  · intro u hu hscan hann
    obtain ⟨hold, hsafe⟩ := hother u hscan
    exact hsafe (h.safe u hu hold hann)
  · intro i hi
    obtain ⟨htime, hall⟩ := h.raised i hi
    refine ⟨htime, ?_⟩
    intro u hu hscan
    obtain ⟨hold, hsafe⟩ := hother u hscan
    exact (hall u hu hold).imp_left hsafe

/-- The stratum thread moves on outside of the block. -/
theorem Kept.setPc (h : s.Kept n p) (pc : StratumPc) (hold : s.pc ≠ .publish)
    (hold' : ∀ i, s.pc ≠ .restarting i false) (hnew : ∀ i, pc ≠ .restarting i false) :
    Restarts.Kept n p { s with pc := pc } :=
  ⟨h.safe, fun i hi => absurd hi (hnew i), fun hf ht _ _ => h.fresh hf ht hold hold'⟩

/-- A job arrives outside of the block. -/
theorem Kept.receiveJob (h : s.Kept n p) (w : Work) (hpc : ∀ i, s.pc ≠ .restarting i false) :
    (s.receiveJob p w).Kept n p := by
  refine ⟨h.safe, fun i hi => absurd hi (hpc i), ?_⟩
  intro hf _ _ _ hsame
  have hne : ¬ w.Same (s.published p) := by simpa [Restarts.receiveJob] using hf
  exact hne hsame.symm

/-- The published job is replaced by another one, or by itself. -/
theorem Kept.publishJob (h : s.Kept n p) {d : Pool} {g : Work}
    (hnew : d = p → g.Same (s.published p) ∨
      (∀ i, s.pc ≠ .restarting i false) ∧ (s.pc = .publish ∨ s.hasTime = false)) :
    (s.publishJob p d g).Kept n p := by
  by_cases hsame : d = p → g.Same (s.published p)
  · -- the published job is still the same, and so is what is said of it
    have hpub : (s.published p).Same ((s.publishJob p d g).published p) := by
      by_cases hd : d = p
      · subst hd
        simpa [Restarts.publishJob] using (hsame rfl).symm
      · simpa [Restarts.publishJob, Function.update_of_ne (Ne.symm hd)] using Work.Same.refl _
    have hsafe : ∀ t, s.Safe p t → (s.publishJob p d g).Safe p t :=
      fun t hs => hs.imp_left fun ht => ht.trans hpub
    refine ⟨?_, ?_, ?_⟩
    · intro t ht hscan hann
      have hann' : s.announced = true := by
        have := hann
        simp only [Restarts.publishJob, Bool.and_eq_true] at this
        exact this.1
      exact hsafe t (h.safe t ht hscan hann')
    · intro i hi
      obtain ⟨htime, hall⟩ := h.raised i hi
      exact ⟨htime, fun t ht hscan => (hall t ht hscan).imp_left (hsafe t)⟩
    · intro hf ht hpc hpc' hstor
      exact h.fresh hf ht hpc hpc' (hpub.trans hstor)
  · -- another job, which is not announced
    obtain ⟨rfl, hne⟩ := Classical.not_imp.mp hsame
    obtain ⟨hpc, hwhen⟩ := (hnew rfl).resolve_left hne
    have hann : (s.publishJob d d g).announced = false := by
      simp [Restarts.publishJob, hne]
    refine ⟨?_, fun i hi => absurd hi (hpc i), ?_⟩
    · intro t _ _ hann'
      rw [hann] at hann'
      cases hann'
    · intro _ ht hpub _
      rcases hwhen with hpub' | htime
      · exact absurd hpub' hpub
      · rw [show s.hasTime = true from ht] at htime
        cases htime

/-- The stratum thread has passed the block: all threads are safe, or no new job is
announced. -/
theorem Kept.passBlock (h : s.Kept n p)
    (hall : (∀ t < n, s.Scanning p t → s.Safe p t) ∨
      ¬ (s.fresh = true ∧ (s.published p).Same s.storage ∧ s.mineForDev = p)) :
    (s.passBlock p).Kept n p := by
  refine ⟨?_, ?_, ?_⟩
  · intro t ht hscan hann
    rcases hall with hall | hnone
    · exact hall t ht hscan
    · -- the job was announced before
      have hann' : s.announced = true := by
        have := hann
        simp only [Restarts.passBlock, Bool.or_eq_true, Bool.and_eq_true, decide_eq_true_eq,
          and_assoc] at this
        exact this.resolve_right hnone
      exact h.safe t ht hscan hann'
  · intro i hi
    cases hi
  · intro hf
    cases hf

/-- The block of the stratum thread. -/
theorem Kept.next_publish (h : s.Kept n p) (hpc : s.pc = .publish)
    (hdev : s.mineForDev = p → s.dev = p) : (s.next n p .publish).Kept n p := by
  have hpub : (s.publishJob p p (stratumGenWork s.storage)).Kept n p :=
    h.publishJob fun _ => Or.inr ⟨by simp [hpc], Or.inl hpc⟩
  simp only [Restarts.next]
  split
  · -- the flags come next, from the first one on
    refine ⟨hpub.safe, fun i hi => ⟨rfl, fun t _ _ => Or.inr ?_⟩, ?_⟩
    · obtain rfl : 0 = i := by simpa using hi
      exact Nat.zero_le t
    · intro _ _ _ hno
      exact absurd rfl (hno 0)
  · next hne =>
    -- another pool in mind, hence another pool selected: nothing is announced
    have htimed : Restarts.Kept n p
        { s.publishJob p p (stratumGenWork s.storage) with hasTime := true } :=
      ⟨hpub.safe, fun i hi => absurd (hpc.symm.trans hi) (by simp), fun _ _ hp => absurd hpc hp⟩
    exact htimed.passBlock (Or.inr fun hall => hne (hdev hall.2.2))

/-- The writes of `restart_threads`, and its end. -/
theorem Kept.next_raise (h : s.Kept n p) {i : ℕ} {b : Bool} (hpc : s.pc = .restarting i b) :
    (s.next n p .raise).Kept n p := by
  simp only [Restarts.next, hpc]
  split
  · next hi =>
    have hflag := h.raiseFlag i
    refine ⟨hflag.safe, ?_, ?_⟩
    · intro j hj
      obtain ⟨rfl, rfl⟩ : i + 1 = j ∧ b = false := by simpa using hj
      obtain ⟨htime, hall⟩ := hflag.raised i hpc
      refine ⟨htime, ?_⟩
      intro t ht hscan
      rcases (hall t ht hscan) with hsafe | hle
      · exact Or.inl hsafe
      · rcases hle.eq_or_lt with rfl | hlt
        · exact Or.inl (Or.inr (by simp [Restarts.raiseFlag]))
        · exact Or.inr hlt
    · intro hf ht _ hno
      cases b with
      | false => exact absurd rfl (hno (i + 1))
      | true => exact h.fresh hf ht (by simp [hpc]) (by simp [hpc])
  · next hi =>
    split
    · next hb =>
      subst hb
      exact h.setPc _ (by simp [hpc]) (by simp [hpc]) (by simp)
    · next hb =>
      obtain rfl : b = false := by simpa using hb
      refine h.passBlock (Or.inl ?_)
      intro t ht hscan
      exact ((h.raised i hpc).2 t ht hscan).resolve_right (by omega)

/-- The refresh block of a miner thread. -/
theorem Kept.next_refresh (h : s.Kept n p) {t : ℕ} {other : WorkSource}
    (hord : s.Orderly p (.refresh t other)) : (s.next n p (.refresh t other)).Kept n p := by
  simp only [Restarts.next]
  split
  · next g hg =>
    have hth : (s.setThread t (afterRefresh n t (s.thread t) g)).Kept n p :=
      h.setThread (by simp [afterRefresh])
    apply hth.publishJob
    intro hd
    have hsource : s.source p t other = .stratum s.storage := if_pos hd
    rw [hsource, hd] at hg
    -- the thread publishes a job itself only if it has run out of nonces
    by_cases hempty : ((s.thread t).miner.work2 p).nonce ≥ (s.thread t).miner.endNonce ∧
        ((s.thread t).miner.work2 p).blobDiffers (s.published p) = false
    · obtain rfl : stratumGenWork s.storage = g := by simpa [obtainWork, hempty] using hg
      rcases hord hd hempty.1 hempty.2 with hsame | hpc | htime
      · exact Or.inl hsame
      · exact Or.inr ⟨fun i hi => absurd (hpc.symm.trans hi) (by simp), Or.inl hpc⟩
      · refine Or.inr ⟨?_, Or.inr htime⟩
        intro i hi
        rw [(h.raised i hi).1] at htime
        cases htime
    · obtain rfl : s.published p = g := by simpa [obtainWork, hempty] using hg
      exact Or.inl (Work.Same.refl _)
  · exact h

/-- A miner thread clears its flag. -/
theorem Kept.next_clear (h : s.Kept n p) {t : ℕ} (hord : s.Orderly p (.clear t)) :
    (s.next n p (.clear t)).Kept n p := by
  have hother : ∀ u, u ≠ t → (s.next n p (.clear t)).Scanning p u →
      s.Scanning p u ∧ (s.Safe p u → (s.next n p (.clear t)).Safe p u) := by
    intro u hu hscan
    simpa [Restarts.next, Restarts.setThread, Restarts.Scanning, Restarts.Safe, hu] using hscan
  have hself : (s.next n p (.clear t)).Scanning p t → (s.thread t).dev = p := by
    intro hscan
    simpa [Restarts.next, Restarts.setThread, Restarts.Scanning] using hscan
  have hsafe : ((s.thread t).taken p).Same (s.published p) → (s.next n p (.clear t)).Safe p t := by
    intro hsame
    exact Or.inl (by simpa [Restarts.next, Restarts.setThread] using hsame)
  refine ⟨?_, ?_, h.fresh⟩
  · intro u hu hscan hann
    by_cases hut : u = t
    · -- a stale job is announced, so that this flag may not be cleared
      subst hut
      by_contra hnot
      obtain ⟨hann', -⟩ := hord (hself hscan) (mt hsafe hnot)
      rw [show s.announced = true from hann] at hann'
      cases hann'
    · obtain ⟨hold, hmono⟩ := hother u hut hscan
      exact hmono (h.safe u hu hold hann)
  · intro i hi
    obtain ⟨htime, hall⟩ := h.raised i hi
    refine ⟨htime, ?_⟩
    intro u hu hscan
    by_cases hut : u = t
    · subst hut
      by_cases hsame : ((s.thread u).taken p).Same (s.published p)
      · exact Or.inl (hsafe hsame)
      · -- the flag is still to be raised
        refine Or.inr ?_
        simpa [Restarts.notRaised, show s.pc = .restarting i false from hi] using
          (hord (hself hscan) hsame).2
    · obtain ⟨hold, hmono⟩ := hother u hut hscan
      exact (hall u hu hold).imp_left hmono

/-- **An orderly step keeps the invariant.** -/
theorem Kept.next (h : s.Kept n p) {e : RestartEvent} (hpos : s.Possible n p e)
    (hord : s.Orderly p e) : (s.next n p e).Kept n p := by
  cases e with
  | readSelected =>
    have hpc : s.pc = .top := hpos.1
    have hmove := h.setPc (if s.connected then .test else .resetTime) (by simp [hpc])
      (by simp [hpc]) (by intro i; split <;> simp)
    exact ⟨hmove.safe, hmove.raised, hmove.fresh⟩
  | resetTime =>
    have hpc : s.pc = .resetTime := hpos
    have hnew : ∀ i, (if s.dev = p then .restarting 0 true else .connect) ≠
        StratumPc.restarting i false := by
      intro i
      split <;> simp
    exact ⟨h.safe, fun i hi => absurd hi (hnew i), fun _ ht => by cases ht⟩
  | login w =>
    have hpc : s.pc = .connect := hpos
    exact h.receiveJob w (by simp [hpc])
  | connectFailed =>
    have hpc : s.pc = .connect := hpos
    exact h.setPc _ (by simp [hpc]) (by simp [hpc]) (by simp)
  | connected =>
    have hpc : s.pc = .connect := hpos
    have hmove := h.setPc .test (by simp [hpc]) (by simp [hpc]) (by simp)
    exact ⟨hmove.safe, hmove.raised, hmove.fresh⟩
  | test =>
    have hpc : s.pc = .test := hpos
    simp only [Restarts.next]
    split
    · exact h.setPc _ (by simp [hpc]) (by simp [hpc]) (by simp)
    · next hsame =>
      -- a job that is still new is not the published one, so that none is announced
      have htime : s.hasTime = true := by simpa using (not_or.mp hsame).1
      refine h.passBlock (Or.inr ?_)
      intro hall
      exact h.fresh hall.1 htime (by simp [hpc]) (by simp [hpc]) hall.2.1
  | publish => exact h.next_publish hpos hord
  | raise =>
    cases hpc : s.pc with
    | restarting i b => exact h.next_raise hpc
    | _ => simp [Restarts.Possible, Restarts.inRestart, hpc] at hpos
  | receive w =>
    have hpc : s.pc = .receive := hpos
    cases w with
    | none => exact h.setPc _ (by simp [hpc]) (by simp [hpc]) (by simp)
    | some w =>
      exact (h.receiveJob w (by simp [hpc])).setPc _ (by simp [Restarts.receiveJob, hpc])
        (by simp [Restarts.receiveJob, hpc]) (by simp)
  | disconnect =>
    have hpc : s.pc = .receive := hpos
    have hmove := h.setPc .top (by simp [hpc]) (by simp [hpc]) (by simp)
    exact ⟨hmove.safe, hmove.raised, hmove.fresh⟩
  | select shareDev dev => exact ⟨h.safe, h.raised, h.fresh⟩
  | selectRaise =>
    simp only [Restarts.next]
    split
    · next i _ =>
      split
      · have hflag := h.raiseFlag i
        exact ⟨hflag.safe, hflag.raised, hflag.fresh⟩
      · exact ⟨h.safe, h.raised, h.fresh⟩
    · exact h
  | selectMain => exact ⟨h.safe, h.raised, h.fresh⟩
  | otherPublish w =>
    apply h.publishJob
    intro hd
    rcases Pool.eq_zero_or_eq_one p with rfl | rfl <;> cases hd
  | otherRaise i => exact h.raiseFlag i
  | pick t => exact h.setThread (by simp)
  | refresh t other => exact h.next_refresh hord
  | clear t => exact h.next_clear hord
  | poll t hashes =>
    simp only [Restarts.next]
    split
    · exact h.setThread (by simp [endScan])
    · exact h
  | finish t hashes => exact h.setThread (by simp [endScan])

/-! ### Runs -/

/-- The start: nothing is received or published yet, and no flag is raised. -/
def initial (n : ℕ) (p : Pool) : Restarts where
  mineForDev := 0
  switching := none
  published := Work.cleared
  hasTime := false
  restart _ := false
  pc := .top
  dev := 0
  connected := false
  storage := Work.cleared p
  thread t := ⟨.top, 0, .initial n t, (Miner.initial n t).work2⟩
  fresh := false
  announced := false

theorem kept_initial (n : ℕ) (p : Pool) : (initial n p).Kept n p :=
  ⟨fun _ _ _ hann => (by cases hann), fun _ hi => (by cases hi), fun hf => (by cases hf)⟩

/-- The steps. -/
def Step (n : ℕ) (p : Pool) : Restarts → RestartEvent → Restarts → Prop :=
  Trace.machine (Restarts.Possible n p) (Restarts.next n p)

/-- **No restart is lost in a run of orderly steps**, whatever the jobs, the switches
between the pools and the order in which the threads take turns. -/
theorem lossless_of_run {n : ℕ} {p : Pool} {es : List RestartEvent} {s : Restarts}
    (hrun : Trace.Run (Trace.restrict (Step n p) (Restarts.Orderly p)) (initial n p) es s) :
    s.Lossless n p :=
  (hrun.invariant_state (Restarts.Kept n p) (kept_initial n p) fun s e s' hkept hstep => by
    obtain ⟨⟨hpos, rfl⟩, hord⟩ := hstep
    exact hkept.next hpos hord).lossless

/-- The stratum thread connects, and publishes the job of the login. -/
def connectEvents (w : Work) : List RestartEvent :=
  [.readSelected, .resetTime, .raise, .raise, .login w, .connected, .test, .publish, .raise, .raise]

/-- A second job is received and published while a miner thread scans for the first one:
its flag is raised. -/
theorem lossless_of_run_second :
    let w : Work := ⟨fun _ => 7, fun _ => 1, [97], 0⟩
    let w' : Work := ⟨fun _ => 8, fun _ => 1, [98], 0⟩
    let es := connectEvents w ++ [.pick 0, .refresh 0 (.stratum w), .clear 0, .receive (some w'),
      .readSelected, .test, .publish, .raise, .raise]
    let s := es.foldl (Restarts.next 1 0) (initial 1 0)
    s.Scanning 0 0 ∧ ¬ ((s.thread 0).taken 0).Same (s.published 0) ∧ s.announced = true ∧
      s.restart 0 = true := by
  intro w w' es s
  have hscan : s.Scanning 0 0 := ⟨by decide +kernel, by decide +kernel⟩
  have hnew : ¬ ((s.thread 0).taken 0).Same (s.published 0) := by decide +kernel
  have hann : s.announced = true := by decide +kernel
  have hlossless : s.Lossless 1 0 :=
    lossless_of_run (Trace.Run.restrict_of_legal es (by decide +kernel))
  exact ⟨hscan, hnew, hann, hlossless 0 (by decide) hscan hnew hann⟩

/-- The second job is received, published and announced between the refresh block of
the miner thread and the clearing of its flag. -/
theorem not_lossless_of_clear :
    ¬ ∀ (n : ℕ) (p : Pool) (es : List RestartEvent) (s : Restarts),
      Trace.Run (Step n p) (initial n p) es s → s.Lossless n p := by
  intro h
  let w : Work := ⟨fun _ => 7, fun _ => 1, [97], 0⟩
  let w' : Work := ⟨fun _ => 8, fun _ => 1, [98], 0⟩
  let es := connectEvents w ++ [.pick 0, .refresh 0 (.stratum w), .receive (some w'),
    .readSelected, .test, .publish, .raise, .raise, .clear 0]
  have hrun : Trace.Run (Step 1 0) (initial 1 0) es _ := Trace.Run.of_legal es (by decide +kernel)
  have hflag := h 1 0 es _ hrun 0 (by decide) ⟨by decide +kernel, by decide +kernel⟩
    (by decide +kernel) (by decide +kernel)
  revert hflag
  decide +kernel

end Restarts

end XmrMiner
