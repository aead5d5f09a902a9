import XmrMiner.Miner.Search
import XmrMiner.Miner.Share

/-!
# The two pools

Two stratum threads, the miner threads and the thread that sends the shares work on the
variables of the two pools.  Which of them are meant is told by a field of the works, which
are copied as a whole: from a connection to the published work, from there to the works of
the miner threads, and into the queue of the shares.

The steps are the critical sections and the copies.  A connection that was closed leaves its
descriptor in `sock`, and the descriptor can be given to the next connection of either pool.

Three fields are not in the program: the number of times that the identifier of the session
was set, the jobs that have arrived, and the lines that were written.

## Main definitions

* `Pools` — the variables of the threads.
* `Pools.step` — what an event leads to.
* `Work.Known` — the work comes from a job of its pool.
* `Pools.Kept` — the invariant.

## Main results

* `Pools.kept_of_run` — it holds in every run.
-/

namespace XmrMiner

open ByteMem CString

/-! ### The variables -/

/-- A job that has arrived. -/
structure Receipt where
  /-- The pool of the connection. -/
  pool : Pool
  /-- The number of its session. -/
  session : ℕ
  /-- The job, as the parser hands it over. -/
  job : Json

/-- Where a stratum thread stands. -/
inductive StratumPhase
  /-- There is no connection. -/
  | closed
  /-- The reply to the login is awaited. -/
  | login
  /-- The identifier of the session is stored, the job of the reply is not yet decoded. -/
  | decode (job : Option Json)
  /-- At the head of the loop. -/
  | check
  /-- A line is awaited. -/
  | receive

/-- A line, and what it was built from. -/
structure Built where
  /-- The share. -/
  share : Work
  /-- The published work that it was compared with. -/
  published : Work
  /-- The identifiers of the sessions. -/
  ids : SessionIds
  /-- What lies behind them. -/
  behind : List Byte
  /-- The number of the session. -/
  session : ℕ
  /-- The characters. -/
  line : List Byte

/-- Where the thread stands that sends the shares. -/
inductive Submission
  /-- The queue is looked at. -/
  | idle
  /-- A share was taken from the queue, or an attempt to send it has failed. -/
  | pending (share : Work)
  /-- The share is not stale. -/
  | tested (share published : Work)
  /-- The line is built. -/
  | built (b : Built)

/-- A line that was written. -/
structure Sent where
  /-- The pool whose connection has the descriptor. -/
  conn : Pool
  /-- The line. -/
  built : Built

/-- What does not change. -/
structure PoolsConfig where
  /-- The hash function. -/
  hash : CnHash
  /-- `opt_n_threads`. -/
  nThreads : ℕ
  /-- The batch size of each thread. -/
  throughput : ℕ → BitVec 32

/-- The variables of all threads. -/
structure Pools where
  /-- The jobs of the pools. -/
  rpc2 : Pool → Rpc2Job
  /-- `rpc2_id2`. -/
  ids : SessionIds
  /-- `stratumStorage[d].work`. -/
  storage : Pool → Work
  /-- `g_work2`. -/
  published : Pool → Work
  /-- Whether `g_work_time2` is not zero. -/
  workTime : Pool → Bool
  /-- `stratumStorage[d].sock`. -/
  sock : Pool → ℕ
  /-- The descriptors in use, with the pool of the connection. -/
  opened : ℕ → Option Pool
  /-- The stratum threads. -/
  phase : Pool → StratumPhase
  /-- The miner threads. -/
  miner : ℕ → Miner
  /-- The pool of the scan that a miner thread is about to do, if it is behind the refresh
  block. -/
  mining : ℕ → Option Pool
  /-- The queued shares. -/
  queue : List Work
  /-- The thread that sends them. -/
  submission : Submission
  /-- The numbers of the sessions. -/
  session : Pool → ℕ
  /-- The jobs that have arrived. -/
  received : List Receipt
  /-- The lines that were written. -/
  sent : List Sent

/-- The variables when the threads are started. -/
def Pools.start (c : PoolsConfig) : Pools where
  rpc2 _ := .initial
  ids := .initial
  storage := Work.cleared
  published := Work.cleared
  workTime _ := true
  sock _ := 0
  opened _ := none
  phase _ := .closed
  miner := Miner.initial c.nThreads
  mining _ := none
  queue := []
  submission := .idle
  session _ := 0
  received := []
  sent := []

/-! ### The stratum threads -/

/-- `stratum_connect`, with the descriptor that is taken; the work time is cleared before. -/
def Pools.connect (d : Pool) (fd : ℕ) (ok : Bool) (s : Pools) : Pools :=
  { s with
    workTime := Function.update s.workTime d false
    sock := Function.update s.sock d fd
    opened := if ok then Function.update s.opened fd (some d) else s.opened
    phase := if ok then Function.update s.phase d .login else s.phase }

/-- `stratum_disconnect`. -/
def Pools.disconnect (d : Pool) (s : Pools) : Pools :=
  { s with
    opened := Function.update s.opened (s.sock d) none
    phase := Function.update s.phase d .closed }

/-- The thread goes on. -/
def Pools.goTo (d : Pool) (phase : StratumPhase) (s : Pools) : Pools :=
  { s with phase := Function.update s.phase d phase }

/-- What the handlers of a connection work on. -/
def Pools.client (s : Pools) (d : Pool) : Client := ⟨s.rpc2, s.ids, s.storage d⟩

/-- The variables after a handler. -/
def Pools.setClient (d : Pool) (c : Client) (s : Pools) : Pools :=
  { s with rpc2 := c.rpc2, ids := c.ids, storage := Function.update s.storage d c.work }

/-- A job arrives. -/
def Pools.arrive (d : Pool) (job : Option Json) (s : Pools) : Pools :=
  { s with received := s.received ++ job.toList.map fun job => ⟨d, s.session d, job⟩ }

/-- The job of a notification. -/
def notifiedJob (val : Option Json) : Option Json :=
  val.bind fun val => ((val.objectGet (ascii "method")).bind Json.stringValue).bind fun method =>
    if strcaseeq method (ascii "job") then some ((val.objectGet (ascii "params")).getD .null)
    else none

/-- `stratum_handle_method` for a line of the pool. -/
def Pools.handle (d : Pool) (val : Option Json) (uninit : BitVec 32) (s : Pools) :
    Option (Bool × Pools) :=
  (stratumHandleMethod val uninit (s.client d)).map fun r =>
    (r.1, (s.arrive d (notifiedJob val)).setClient d r.2)

/-- Whether `rpc2_login_decode` stores an identifier. -/
def storesId (val : Json) : Bool :=
  (((val.objectGet (ascii "result")).bind (·.objectGet (ascii "id"))).bind
    Json.stringValue).isSome

/-- The identifier of the session is set by a reply. -/
def Pools.setIds (d : Pool) (val : Json) (ids : SessionIds) (s : Pools) : Pools :=
  { s with
    ids := ids
    session := if storesId val then Function.update s.session d (s.session d + 1)
      else s.session }

/-- `stratum_authorize` with the reply, up to the lock for the job. -/
def Pools.reply (d : Pool) (val : Option Json) (heap : Option ByteMem) (s : Pools) :
    Option Pools :=
  match val with
  | none => some (s.disconnect d)
  | some val =>
    if acceptsReply val then
      (rpc2LoginDecode val (s.storage d).dev heap s.ids).map fun r =>
        (s.setIds d val r.2).goTo d
          (.decode ((val.objectGet (ascii "result")).bind (·.objectGet (ascii "job"))))
    else some (s.disconnect d)

/-- A line of the pool, while the reply to the login is awaited or later. -/
def Pools.line (d : Pool) (val : Option Json) (uninit : BitVec 32) (heap : Option ByteMem)
    (s : Pools) : Option Pools :=
  match s.phase d with
  | .login => (s.handle d val uninit).bind fun r =>
      if r.1 then some r.2 else r.2.reply d val heap
  | .receive => (s.handle d val uninit).map fun r => r.2.goTo d .check
  | _ => none

/-- The job of the reply is decoded. -/
def Pools.decodeReply (d : Pool) (uninit : BitVec 32) (s : Pools) : Option Pools :=
  match s.phase d with
  | .decode none => some (s.goTo d .check)
  | .decode (some job) => ((s.client d).decodeJob job uninit).map fun r =>
      ((s.arrive d (some job)).setClient d r.2).goTo d .check
  | _ => none

/-- The head of the loop: the job is published if the identifiers differ or the connection
is new. -/
def Pools.publish (d : Pool) (s : Pools) : Option Pools :=
  match s.phase d with
  | .check =>
    some ((if !s.workTime d || (s.storage d).jobId != (s.published d).jobId then
      { s with
        published := Function.update s.published d (stratumGenWork (s.storage d))
        workTime := Function.update s.workTime d true }
    else s).goTo d .receive)
  | _ => none

/-! ### The miner threads -/

/-- The block under `g_work_lock2`, for the pool that is mined. -/
def Pools.refresh (c : PoolsConfig) (t : ℕ) (d : Pool) (s : Pools) : Option Pools :=
  if t < c.nThreads ∧ s.mining t = none then
    (refreshBlock c.nThreads t d (.stratum (s.storage d)) (s.published d) (s.miner t)).map fun r =>
      { s with
        published := Function.update s.published d r.1
        miner := Function.update s.miner t r.2
        mining := Function.update s.mining t (some d) }
  else none

/-- The scan, and the shares that are queued after it. -/
def Pools.scan (c : PoolsConfig) (t : ℕ) (max64 : ℤ) (bs : List Batch) (s : Pools) :
    Option Pools :=
  match s.mining t with
  | none => none
  | some d =>
    ((s.miner t).scan c.hash (c.throughput t) d max64 bs).map fun r =>
      let q := queueShares r.2.results (r.1.work2 d)
      { s with
        miner := Function.update s.miner t
          { r.1 with work2 := Function.update r.1.work2 d q.2 }
        mining := Function.update s.mining t none
        queue := s.queue ++ q.1 }

/-! ### The shares -/

/-- `tq_pop`. -/
def Pools.pop (s : Pools) : Option Pools :=
  match s.submission, s.queue with
  | .idle, w :: ws => some { s with submission := .pending w, queue := ws }
  | _, _ => none

/-- The test for stale shares. -/
def Pools.test (s : Pools) : Option Pools :=
  match s.submission with
  | .pending w =>
    let g := s.published w.dev
    some { s with submission := if stale w g then .idle else .tested w g }
  | _ => none

/-- The line is built from what is read of the session identifiers. -/
def Pools.build (c : PoolsConfig) (behind : List Byte) (s : Pools) : Option Pools :=
  match s.submission with
  | .tested w g =>
    some { s with submission := .built ⟨w, g, s.ids, behind, s.session w.dev,
      snprintf (submitMessage c.hash (sessionId s.ids behind w.dev) w)⟩ }
  | _ => none

/-- `stratum_send_line`: the line goes to the connection that has the descriptor; if it
cannot be sent there is another attempt. -/
def Pools.send (ok : Bool) (s : Pools) : Option Pools :=
  match s.submission with
  | .built b =>
    if ok then (s.opened (s.sock b.share.dev)).map fun conn =>
      { s with submission := .idle, sent := s.sent ++ [⟨conn, b⟩] }
    else some { s with submission := .pending b.share }
  | _ => none

/-- The events, with what is decided by chance or by the other side. -/
inductive PoolsEvent
  | connect (d : Pool) (fd : ℕ) (ok : Bool)
  | disconnect (d : Pool)
  | line (d : Pool) (val : Option Json) (uninit : BitVec 32) (heap : Option ByteMem)
  | decodeReply (d : Pool) (uninit : BitVec 32)
  | publish (d : Pool)
  | refresh (t : ℕ) (d : Pool)
  | scan (t : ℕ) (max64 : ℤ) (batches : List Batch)
  | pop
  | test
  | build (behind : List Byte)
  | send (ok : Bool)

/-- The state after an event, if the event is possible. -/
def Pools.step (c : PoolsConfig) (s : Pools) : PoolsEvent → Option Pools
  | .connect d fd ok =>
    match s.phase d, s.opened fd with
    | .closed, none => some (s.connect d fd ok)
    | _, _ => none
  | .disconnect d =>
    match s.phase d with
    | .login => some (s.disconnect d)
    | .receive => some (s.disconnect d)
    | _ => none
  | .line d val uninit heap => s.line d val uninit heap
  | .decodeReply d uninit => s.decodeReply d uninit
  | .publish d => s.publish d
  | .refresh t d => s.refresh c t d
  | .scan t max64 batches => s.scan c t max64 batches
  | .pop => s.pop
  | .test => s.test
  | .build behind => s.build c behind
  | .send ok => s.send ok

/-! ### Where works come from -/

/-- The work holds what the decoder makes of a job, but for the nonce. -/
structure Work.IsCopy (w : Work) (job : Json) (uninit : BitVec 32) (hexblob jobId : List Byte) :
    Prop where
  /-- The job is taken over. -/
  offers : job.OffersBlob (.string jobId) hexblob
  /-- The identifier, as far as there is room for it. -/
  jobId : w.jobId = jobId.take 128
  /-- The target. -/
  target : w.target = Function.update (fun _ => 0xffffffff) 7 (jobTarget job uninit)
  /-- The blob. -/
  data : ∀ i, (hi : i < (hex2bin hexblob (hexblob.length / 2)).1.length) → i < 39 ∨ 43 ≤ i →
    w.data i = (hex2bin hexblob (hexblob.length / 2)).1[i]

/-- The work is a copy of a job that has arrived on the connection of the pool. -/
def Work.FromJob (R : List Receipt) (d : Pool) (w : Work) : Prop :=
  ∃ r ∈ R, r.pool = d ∧ ∃ uninit hexblob jobId, w.IsCopy r.job uninit hexblob jobId

/-- There is no job in the work. -/
structure Work.NoJob (w : Work) : Prop where
  /-- The identifier is empty. -/
  jobId : w.jobId = []
  /-- The target is zero. -/
  target : ∀ i, w.target i = 0

/-- The work is one of the pool. -/
structure Work.Known (R : List Receipt) (d : Pool) (w : Work) : Prop where
  /-- It is marked as such. -/
  dev : w.dev = d
  /-- Its job is one of the pool. -/
  job : w.NoJob ∨ w.FromJob R d

/-- The variables of a pool are set by a job that has arrived on its connection. -/
def Rpc2Job.FromJob (R : List Receipt) (d : Pool) (s : Rpc2Job) : Prop :=
  ∃ r ∈ R, r.pool = d ∧ ∃ uninit hexblob jobId, r.job.OffersBlob (.string jobId) hexblob ∧
    s.blob = some (hex2bin hexblob (hexblob.length / 2)).1 ∧ s.target = jobTarget r.job uninit ∧
    s.jobId = some jobId

/-- What the handlers of a connection work on. -/
structure Client.Known (R : List Receipt) (d : Pool) (c : Client) : Prop where
  /-- The work of the connection. -/
  work : c.work.Known R d
  /-- The variables of the pools. -/
  rpc2 : ∀ d', (c.rpc2 d').blob = none ∨ (c.rpc2 d').FromJob R d'

section Known

variable {R R' : List Receipt} {d : Pool} {w : Work}

theorem Work.Known.cleared (d : Pool) : (Work.cleared d).Known R d :=
  ⟨rfl, Or.inl ⟨rfl, fun _ => rfl⟩⟩

theorem Work.FromJob.mono (hsub : R ⊆ R') (h : w.FromJob R d) : w.FromJob R' d := by
  obtain ⟨r, hr, hcopy⟩ := h
  exact ⟨r, hsub hr, hcopy⟩

theorem Work.Known.mono (hsub : R ⊆ R') (h : w.Known R d) : w.Known R' d :=
  ⟨h.dev, h.job.imp_right (Work.FromJob.mono hsub)⟩

/-- One of the works is overwritten. -/
theorem Work.Known.update {f : Pool → Work} {g : Work} (h : ∀ d, (f d).Known R d)
    (hg : g.Known R d) : ∀ d', (Function.update f d g d').Known R d' :=
  (Function.forall_update_iff f fun d w => w.Known R d).mpr ⟨hg, fun d' _ => h d'⟩

theorem Rpc2Job.FromJob.mono {s : Rpc2Job} (hsub : R ⊆ R') (h : s.FromJob R d) :
    s.FromJob R' d := by
  obtain ⟨r, hr, hset⟩ := h
  exact ⟨r, hsub hr, hset⟩

theorem Work.FromJob.setNonce (h : w.FromJob R d) (nonce : BitVec 32) :
    (w.setNonce nonce).FromJob R d := by
  obtain ⟨r, hr, hpool, uninit, hexblob, jobId, hcopy⟩ := h
  refine ⟨r, hr, hpool, uninit, hexblob, jobId, hcopy.offers, hcopy.jobId, hcopy.target, ?_⟩
  intro i hi hout
  rw [Work.data_setNonce w nonce hout]
  exact hcopy.data i hi hout

theorem Work.Known.setNonce (h : w.Known R d) (nonce : BitVec 32) :
    (w.setNonce nonce).Known R d := by
  refine ⟨h.dev, ?_⟩
  cases h.job with
  | inl hno => exact Or.inl ⟨hno.jobId, hno.target⟩
  | inr hjob => exact Or.inr (hjob.setNonce nonce)

/-- The job of the variables in a work. -/
theorem Rpc2Job.FromJob.toWork {s : Rpc2Job} (h : s.FromJob R d) {blob jobId : List Byte}
    (hblob : s.blob = some blob) (hjobId : s.jobId = some jobId) (work : Work) :
    (s.toWork blob jobId work).FromJob R d := by
  obtain ⟨r, hr, hpool, uninit, hexblob, jobId', hoffers, hblob', htarget, hjobId'⟩ := h
  obtain rfl := Option.some.inj (hblob'.symm.trans hblob)
  obtain rfl := Option.some.inj (hjobId'.symm.trans hjobId)
  refine ⟨r, hr, hpool, uninit, hexblob, jobId', hoffers, rfl, ?_, ?_⟩
  · rw [Rpc2Job.toWork, htarget]
  · intro i hi _
    exact s.toWork_data _ _ work hi

/-- **The decoder leaves everything with its pool**: the pool is that of the work of the
connection, and the variables of the other one stay. -/
theorem Client.Known.decodeJob {c c' : Client} {job : Json} {uninit : BitVec 32} {ret : Bool}
    (h : c.Known R d) {r : Receipt} (hr : r ∈ R) (hpool : r.pool = d) (hjob : r.job = job)
    (hcall : c.decodeJob job uninit = some (ret, c')) :
    c'.Known R d ∧ ∀ d' ≠ d, c'.rpc2 d' = c.rpc2 d' := by
  subst hjob
  obtain ⟨s', work', hdecoded, rfl⟩ := Client.decodeJob_eq_some hcall
  have hdev := h.work.dev
  rw [hdev] at hdecoded ⊢
  -- it is enough to look at the variables of this pool and at the work
  suffices hown : work'.Known R d ∧ (s'.blob = none ∨ s'.FromJob R d) by
    refine ⟨⟨hown.1, ?_⟩, fun d' hd' => Function.update_of_ne hd' _ _⟩
    intro d'
    by_cases hd' : d' = d
    · subst hd'
      simpa using hown.2
    · simpa [Function.update_of_ne hd'] using h.rpc2 d'
  cases hdecoded with
  | refused => exact ⟨h.work, h.rpc2 d⟩
  | again _ hblob hjobId =>
    cases h.rpc2 d with
    | inl hnone =>
      rw [hnone] at hblob
      cases hblob
    | inr hset => exact ⟨⟨hdev, Or.inr (hset.toWork hblob hjobId c.work)⟩, Or.inr hset⟩
  | @renewed hexblob jobId hmsg =>
    have hset : ((c.rpc2 d).renew r.job uninit hexblob jobId).FromJob R d :=
      ⟨r, hr, hpool, uninit, hexblob, jobId, hmsg, Rpc2Job.renew_blob, Rpc2Job.renew_target,
        Rpc2Job.renew_jobId⟩
    exact ⟨⟨hdev, Or.inr (hset.toWork Rpc2Job.renew_blob Rpc2Job.renew_jobId c.work)⟩,
      Or.inr hset⟩

/-- A notification is decoded, another line changes nothing. -/
theorem stratumHandleMethod_notified (val : Option Json) (uninit : BitVec 32) (c : Client) :
    stratumHandleMethod val uninit c =
      match notifiedJob val with
      | none => some (false, c)
      | some job => c.decodeJob job uninit := by
  unfold stratumHandleMethod notifiedJob
  cases val with
  | none => rfl
  | some val =>
    rw [Option.bind_some]
    cases hmethod : (val.objectGet (ascii "method")).bind Json.stringValue with
    | none => simp only [hmethod, Option.bind_none]
    | some method =>
      simp only [hmethod, Option.bind_some]
      by_cases hjob : strcaseeq method (ascii "job") = true
      · rw [if_pos hjob, if_pos hjob]
      · rw [if_neg hjob, if_neg hjob]

end Known

/-! ### The invariant -/

/-- The line is the one for its share, with what was read of the identifiers, and the share
was not stale. -/
structure Built.Sound (H : CnHash) (R : List Receipt) (b : Built) : Prop where
  /-- The job has arrived in this session of the pool or an earlier one. -/
  job : b.share.NoJob ∨ ∃ r ∈ R, r.pool = b.share.dev ∧ r.session ≤ b.session ∧
    ∃ uninit hexblob jobId, b.share.IsCopy r.job uninit hexblob jobId
  /-- The share was not stale. -/
  fresh : stale b.share b.published = false
  /-- The line. -/
  line : b.line = snprintf (submitMessage H (sessionId b.ids b.behind b.share.dev) b.share)

/-- The share that is on its way. -/
def Submission.Sound (H : CnHash) (R : List Receipt) : Submission → Prop
  | .idle => True
  | .pending w => w.Known R w.dev
  | .tested w g => w.Known R w.dev ∧ stale w g = false
  | .built b => b.Sound H R

/-- There is a connection. -/
def StratumPhase.IsOpen : StratumPhase → Prop
  | .closed => False
  | _ => True

/-- **The invariant.** -/
structure Pools.Kept (c : PoolsConfig) (s : Pools) : Prop where
  /-- The connections and the variables of the pools. -/
  client : ∀ d, (s.client d).Known s.received d
  /-- The published works. -/
  published : ∀ d, (s.published d).Known s.received d
  /-- The works of the miner threads. -/
  miner : ∀ t d, ((s.miner t).work2 d).Known s.received d
  /-- The queued shares. -/
  queue : ∀ w ∈ s.queue, w.Known s.received w.dev
  /-- The share that is on its way. -/
  submission : s.submission.Sound c.hash s.received
  /-- The lines that were written. -/
  sent : ∀ e ∈ s.sent, e.built.Sound c.hash s.received
  /-- The jobs have arrived in this session or an earlier one. -/
  sessions : ∀ r ∈ s.received, r.session ≤ s.session r.pool
  /-- A connection has its descriptor. -/
  opened : ∀ d, (s.phase d).IsOpen → s.opened (s.sock d) = some d

/-- The variables of the other pool stay. -/
structure Pools.Apart (d : Pool) (s s' : Pools) : Prop where
  /-- Its job, target and difficulty. -/
  rpc2 : ∀ d' ≠ d, s'.rpc2 d' = s.rpc2 d'
  /-- The identifier of its session. -/
  ids : ∀ d' ≠ d, s'.ids d' = s.ids d'
  /-- The work of its connection. -/
  storage : ∀ d' ≠ d, s'.storage d' = s.storage d'
  /-- Its published work. -/
  published : ∀ d' ≠ d, s'.published d' = s.published d'

theorem Built.Sound.mono {H : CnHash} {R R' : List Receipt} {b : Built} (hsub : R ⊆ R')
    (h : b.Sound H R) : b.Sound H R' := by
  refine ⟨h.job.imp_right ?_, h.fresh, h.line⟩
  rintro ⟨r, hr, hcopy⟩
  exact ⟨r, hsub hr, hcopy⟩

theorem Submission.Sound.mono {H : CnHash} {R R' : List Receipt} {b : Submission}
    (hsub : R ⊆ R') (h : b.Sound H R) : b.Sound H R' := by
  cases b with
  | idle => trivial
  | pending w => exact Work.Known.mono hsub h
  | tested w g => exact ⟨h.1.mono hsub, h.2⟩
  | built b => exact Built.Sound.mono hsub h

/-- What is built is one of its pool. -/
theorem Built.Sound.known {H : CnHash} {R : List Receipt} {b : Built} (h : b.Sound H R) :
    b.share.Known R b.share.dev := by
  refine ⟨rfl, h.job.imp_right ?_⟩
  rintro ⟨r, hr, hpool, -, hcopy⟩
  exact ⟨r, hr, hpool, hcopy⟩

section Kept

variable {c : PoolsConfig} {s s' : Pools} {d : Pool}

/-! ### What an event does -/

theorem Pools.connect_eq_some {fd : ℕ} {ok : Bool}
    (hstep : s.step c (.connect d fd ok) = some s') :
    ¬ (s.phase d).IsOpen ∧ s.opened fd = none ∧ s' = s.connect d fd ok := by
  dsimp only [Pools.step] at hstep
  split at hstep
  · next hclosed hfree =>
    refine ⟨?_, hfree, (Option.some.inj hstep).symm⟩
    rw [hclosed]
    exact id
  · cases hstep

theorem Pools.disconnect_eq_some (hstep : s.step c (.disconnect d) = some s') :
    (s.phase d).IsOpen ∧ s' = s.disconnect d := by
  dsimp only [Pools.step] at hstep
  cases hphase : s.phase d with
  | login | receive =>
    rw [hphase] at hstep
    exact ⟨trivial, (Option.some.inj hstep).symm⟩
  | closed | decode | check =>
    rw [hphase] at hstep
    cases hstep

/-- The connection is closed, or the identifier is stored. -/
theorem Pools.reply_eq_some {val : Option Json} {heap : Option ByteMem}
    (hcall : s.reply d val heap = some s') :
    s' = s.disconnect d ∨ ∃ v r, val = some v ∧ acceptsReply v = true ∧
      rpc2LoginDecode v (s.storage d).dev heap s.ids = some r ∧ s' = (s.setIds d v r.2).goTo d
        (.decode ((v.objectGet (ascii "result")).bind (·.objectGet (ascii "job")))) := by
  unfold Pools.reply at hcall
  split at hcall
  · exact Or.inl (Option.some.inj hcall).symm
  · next v =>
    split at hcall
    · next haccept =>
      obtain ⟨r, hlogin, rfl⟩ := Option.map_eq_some_iff.mp hcall
      exact Or.inr ⟨v, r, rfl, haccept, hlogin, rfl⟩
    · exact Or.inl (Option.some.inj hcall).symm

/-- The line is handled, and may be the reply to the login. -/
theorem Pools.line_eq_some {val : Option Json} {uninit : BitVec 32} {heap : Option ByteMem}
    (hcall : s.line d val uninit heap = some s') : (s.phase d).IsOpen ∧
      ∃ ret s'', s.handle d val uninit = some (ret, s'') ∧
        (ret = true ∧ s' = s'' ∨ ret = false ∧ s''.reply d val heap = some s' ∨
          s' = s''.goTo d .check) := by
  unfold Pools.line at hcall
  split at hcall
  · next hphase =>
    obtain ⟨⟨ret, s''⟩, hhandle, hrest⟩ := Option.bind_eq_some_iff.mp hcall
    rw [hphase]
    refine ⟨trivial, ret, s'', hhandle, ?_⟩
    cases ret with
    | true => exact Or.inl ⟨rfl, (Option.some.inj hrest).symm⟩
    | false => exact Or.inr (Or.inl ⟨rfl, hrest⟩)
  · next hphase =>
    obtain ⟨⟨ret, s''⟩, hhandle, rfl⟩ := Option.map_eq_some_iff.mp hcall
    rw [hphase]
    exact ⟨trivial, ret, s'', hhandle, Or.inr (Or.inr rfl)⟩
  · cases hcall

theorem Pools.decodeReply_eq_some {uninit : BitVec 32}
    (hcall : s.decodeReply d uninit = some s') : (s.phase d).IsOpen ∧
      (s.phase d = .decode none ∧ s' = s.goTo d .check ∨
        ∃ job ret cl, s.phase d = .decode (some job) ∧
          (s.client d).decodeJob job uninit = some (ret, cl) ∧
          s' = ((s.arrive d (some job)).setClient d cl).goTo d .check) := by
  unfold Pools.decodeReply at hcall
  split at hcall
  · next hphase =>
    rw [hphase]
    exact ⟨trivial, Or.inl ⟨rfl, (Option.some.inj hcall).symm⟩⟩
  · next job hphase =>
    obtain ⟨⟨ret, cl⟩, hdecode, rfl⟩ := Option.map_eq_some_iff.mp hcall
    rw [hphase]
    exact ⟨trivial, Or.inr ⟨job, ret, cl, rfl, hdecode, rfl⟩⟩
  · cases hcall

theorem Pools.pop_eq_some (hcall : s.pop = some s') :
    ∃ w ws, s.submission = .idle ∧ s.queue = w :: ws ∧
      s' = { s with submission := .pending w, queue := ws } := by
  unfold Pools.pop at hcall
  split at hcall
  · next w ws hidle hqueue => exact ⟨w, ws, hidle, hqueue, (Option.some.inj hcall).symm⟩
  · cases hcall

theorem Pools.test_eq_some (hcall : s.test = some s') :
    ∃ w, s.submission = .pending w ∧ s' = { s with
      submission := if stale w (s.published w.dev) then .idle
        else .tested w (s.published w.dev) } := by
  unfold Pools.test at hcall
  split at hcall
  · next w hpending => exact ⟨w, hpending, (Option.some.inj hcall).symm⟩
  · cases hcall

theorem Pools.build_eq_some {behind : List Byte} (hcall : s.build c behind = some s') :
    ∃ w g, s.submission = .tested w g ∧ s' = { s with
      submission := .built ⟨w, g, s.ids, behind, s.session w.dev,
        snprintf (submitMessage c.hash (sessionId s.ids behind w.dev) w)⟩ } := by
  unfold Pools.build at hcall
  split at hcall
  · next w g htested => exact ⟨w, g, htested, (Option.some.inj hcall).symm⟩
  · cases hcall

theorem Pools.send_eq_some {ok : Bool} (hcall : s.send ok = some s') :
    ∃ b, s.submission = .built b ∧
      ((∃ conn, ok = true ∧ s.opened (s.sock b.share.dev) = some conn ∧
        s' = { s with submission := .idle, sent := s.sent ++ [⟨conn, b⟩] }) ∨
      ok = false ∧ s' = { s with submission := .pending b.share }) := by
  unfold Pools.send at hcall
  split at hcall
  · next b hbuilt =>
    refine ⟨b, hbuilt, ?_⟩
    cases ok with
    | true =>
      obtain ⟨conn, hconn, rfl⟩ := Option.map_eq_some_iff.mp hcall
      exact Or.inl ⟨conn, rfl, hconn, rfl⟩
    | false => exact Or.inr ⟨rfl, (Option.some.inj hcall).symm⟩
  · cases hcall

/-! ### Keeping apart -/

theorem Pools.Apart.trans {s'' : Pools} (h : s.Apart d s') (h' : s'.Apart d s'') :
    s.Apart d s'' where
  rpc2 d' hd' := (h'.rpc2 d' hd').trans (h.rpc2 d' hd')
  ids d' hd' := (h'.ids d' hd').trans (h.ids d' hd')
  storage d' hd' := (h'.storage d' hd').trans (h.storage d' hd')
  published d' hd' := (h'.published d' hd').trans (h.published d' hd')

/-- Nothing of the works changes. -/
theorem Pools.Apart.of_eq (hrpc2 : s'.rpc2 = s.rpc2) (hids : s'.ids = s.ids)
    (hstorage : s'.storage = s.storage) (hpublished : s'.published = s.published) :
    s.Apart d s' where
  rpc2 _ _ := by rw [hrpc2]
  ids _ _ := by rw [hids]
  storage _ _ := by rw [hstorage]
  published _ _ := by rw [hpublished]

theorem Pools.kept_start (c : PoolsConfig) : (Pools.start c).Kept c where
  client d := ⟨.cleared d, fun _ => Or.inl rfl⟩
  published d := .cleared d
  miner _ d := .cleared d
  queue _ hw := absurd hw List.not_mem_nil
  submission := trivial
  sent _ he := absurd he List.not_mem_nil
  sessions _ hr := absurd hr List.not_mem_nil
  opened _ hopen := hopen.elim

/-! ### The stratum threads -/

/-- The arrival of a job. -/
theorem Pools.Kept.arrive (h : s.Kept c) (d : Pool) (job : Option Json) :
    (s.arrive d job).Kept c := by
  have hsub : s.received ⊆ (s.arrive d job).received := List.subset_append_left _ _
  refine ⟨?_, ?_, ?_, ?_, ?_, ?_, ?_, h.opened⟩
  · intro d'
    refine ⟨(h.client d').work.mono hsub, ?_⟩
    intro d''
    exact ((h.client d').rpc2 d'').imp_right (Rpc2Job.FromJob.mono hsub)
  · exact fun d' => (h.published d').mono hsub
  · exact fun t d' => (h.miner t d').mono hsub
  · exact fun w hw => (h.queue w hw).mono hsub
  · exact h.submission.mono hsub
  · exact fun e he => (h.sent e he).mono hsub
  · intro r hr
    cases List.mem_append.mp hr with
    | inl hold => exact h.sessions r hold
    | inr hnew =>
      obtain ⟨job', -, rfl⟩ := List.mem_map.mp hnew
      exact le_rfl

theorem Pools.Kept.setClient (h : s.Kept c) {cl : Client} (hcl : cl.Known s.received d) :
    (s.setClient d cl).Kept c := by
  refine { h with client := fun d' => ⟨?_, hcl.rpc2⟩ }
  exact Work.Known.update (fun d' => (h.client d').work) hcl.work d'

theorem Pools.Kept.goTo (h : s.Kept c) (hopen : (s.phase d).IsOpen) (phase : StratumPhase) :
    (s.goTo d phase).Kept c := by
  refine { h with opened := ?_ }
  intro d' hd'
  by_cases hsame : d' = d
  · subst hsame
    exact h.opened d' hopen
  · apply h.opened d'
    simpa [Pools.goTo, Function.update_of_ne hsame] using hd'

theorem Pools.Kept.connect (h : s.Kept c) {fd : ℕ} (hfree : s.opened fd = none)
    (hclosed : ¬ (s.phase d).IsOpen) (ok : Bool) : (s.connect d fd ok).Kept c := by
  refine { h with opened := ?_ }
  intro d' hd'
  by_cases hsame : d' = d
  · subst hsame
    cases ok with
    | true => simp [Pools.connect]
    | false => exact absurd hd' hclosed
  · -- the descriptor of the other connection is not the new one
    have hopen : (s.phase d').IsOpen := by
      cases ok with
      | true => simpa [Pools.connect, Function.update_of_ne hsame] using hd'
      | false => exact hd'
    have hsock := h.opened d' hopen
    have hne : s.sock d' ≠ fd := by
      rintro rfl
      rw [hfree] at hsock
      cases hsock
    cases ok with
    | true => simpa [Pools.connect, Function.update_of_ne hsame, Function.update_of_ne hne]
    | false => simpa [Pools.connect, Function.update_of_ne hsame]

theorem Pools.Kept.disconnect (h : s.Kept c) (hopen : (s.phase d).IsOpen) :
    (s.disconnect d).Kept c := by
  refine { h with opened := ?_ }
  intro d' hd'
  by_cases hsame : d' = d
  · subst hsame
    simp [Pools.disconnect, StratumPhase.IsOpen] at hd'
  · have hopen' : (s.phase d').IsOpen := by
      simpa [Pools.disconnect, Function.update_of_ne hsame] using hd'
    -- two open connections have two descriptors
    have hne : s.sock d' ≠ s.sock d := by
      intro heq
      have hboth := h.opened d' hopen'
      rw [heq, h.opened d hopen] at hboth
      exact hsame (Option.some.inj hboth).symm
    simpa [Pools.disconnect, Function.update_of_ne hne] using h.opened d' hopen'

/-- A job of the pool is decoded. -/
theorem Pools.Kept.decode (h : s.Kept c) {job : Json} {uninit : BitVec 32} {ret : Bool}
    {cl : Client} (hcall : (s.client d).decodeJob job uninit = some (ret, cl)) :
    ((s.arrive d (some job)).setClient d cl).Kept c ∧
      s.Apart d ((s.arrive d (some job)).setClient d cl) := by
  have harrive := h.arrive d (some job)
  have hr : (⟨d, s.session d, job⟩ : Receipt) ∈ (s.arrive d (some job)).received :=
    List.mem_append_right _ List.mem_cons_self
  obtain ⟨hcl, hother⟩ := Client.Known.decodeJob (harrive.client d) hr rfl rfl hcall
  refine ⟨harrive.setClient hcl, hother, ?_, ?_, ?_⟩
  · intro d' _
    exact congrFun (Client.decodeJob_spec hcall).1 d'
  · intro d' hd'
    exact Function.update_of_ne hd' _ _
  · intro d' _
    rfl

/-- A line is handled. -/
theorem Pools.Kept.handle (h : s.Kept c) {val : Option Json} {uninit : BitVec 32} {ret : Bool}
    (hcall : s.handle d val uninit = some (ret, s')) :
    s'.Kept c ∧ s.Apart d s' ∧ s'.phase = s.phase := by
  obtain ⟨⟨ret', cl⟩, hmethod, heq⟩ := Option.map_eq_some_iff.mp hcall
  obtain ⟨rfl, rfl⟩ : ret' = ret ∧ (s.arrive d (notifiedJob val)).setClient d cl = s' := by
    simpa using heq
  rw [stratumHandleMethod_notified] at hmethod
  cases hjob : notifiedJob val with
  | none =>
    rw [hjob] at hmethod
    obtain ⟨-, rfl⟩ : false = ret' ∧ s.client d = cl := by simpa using hmethod
    have harrive := h.arrive d none
    refine ⟨harrive.setClient (harrive.client d), Pools.Apart.of_eq rfl rfl ?_ rfl, rfl⟩
    exact Function.update_eq_self d s.storage
  | some job =>
    rw [hjob] at hmethod
    obtain ⟨hkept, hapart⟩ := h.decode hmethod
    exact ⟨hkept, hapart, rfl⟩

theorem Pools.Kept.setIds (h : s.Kept c) (d : Pool) (val : Json) (ids : SessionIds) :
    (s.setIds d val ids).Kept c := by
  refine { h with client := fun d' => ⟨(h.client d').work, (h.client d').rpc2⟩, sessions := ?_ }
  intro r hr
  apply (h.sessions r hr).trans
  show s.session r.pool ≤ (if storesId val then _ else s.session) r.pool
  split
  · by_cases hpool : r.pool = d
    · rw [hpool, Function.update_self]
      exact Nat.le_succ _
    · rw [Function.update_of_ne hpool]
  · exact le_rfl

theorem Pools.Kept.reply (h : s.Kept c) (hopen : (s.phase d).IsOpen) {val : Option Json}
    {heap : Option ByteMem} (hcall : s.reply d val heap = some s') :
    s'.Kept c ∧ s.Apart d s' := by
  rcases Pools.reply_eq_some hcall with rfl | ⟨v, r, -, -, hlogin, rfl⟩
  · exact ⟨h.disconnect hopen, Pools.Apart.of_eq rfl rfl rfl rfl⟩
  · refine ⟨(h.setIds d v r.2).goTo hopen _, fun _ _ => rfl, ?_, fun _ _ => rfl, fun _ _ => rfl⟩
    intro d' hd'
    have hdev : (s.storage d).dev = d := (h.client d).work.dev
    apply rpc2LoginDecode_of_ne _ hlogin
    rwa [hdev]

theorem Pools.Kept.line (h : s.Kept c) {val : Option Json} {uninit : BitVec 32}
    {heap : Option ByteMem} (hcall : s.line d val uninit heap = some s') :
    s'.Kept c ∧ s.Apart d s' := by
  obtain ⟨hopen, ret, s'', hhandle, hrest⟩ := Pools.line_eq_some hcall
  obtain ⟨hkept, hapart, hsame⟩ := h.handle hhandle
  rw [← hsame] at hopen
  rcases hrest with ⟨-, rfl⟩ | ⟨-, hreply⟩ | rfl
  · exact ⟨hkept, hapart⟩
  · obtain ⟨hkept', hapart'⟩ := hkept.reply hopen hreply
    exact ⟨hkept', hapart.trans hapart'⟩
  · exact ⟨hkept.goTo hopen _, hapart.trans (Pools.Apart.of_eq rfl rfl rfl rfl)⟩

theorem Pools.Kept.decodeReply (h : s.Kept c) {uninit : BitVec 32}
    (hcall : s.decodeReply d uninit = some s') : s'.Kept c ∧ s.Apart d s' := by
  obtain ⟨hopen, ⟨-, rfl⟩ | ⟨job, ret, cl, -, hdecode, rfl⟩⟩ := Pools.decodeReply_eq_some hcall
  · exact ⟨h.goTo hopen _, Pools.Apart.of_eq rfl rfl rfl rfl⟩
  · obtain ⟨hkept, hapart⟩ := h.decode hdecode
    exact ⟨hkept.goTo hopen _, hapart.trans (Pools.Apart.of_eq rfl rfl rfl rfl)⟩

/-- The job of a connection is published. -/
theorem Pools.Kept.setPublished (h : s.Kept c) {g : Work} (hg : g.Known s.received d)
    (workTime : Pool → Bool) :
    { s with published := Function.update s.published d g, workTime := workTime }.Kept c := by
  refine { h with client := fun d' => h.client d', published := ?_ }
  exact Work.Known.update h.published hg

theorem Pools.Kept.publish (h : s.Kept c) (hcall : s.publish d = some s') :
    s'.Kept c ∧ s.Apart d s' := by
  unfold Pools.publish at hcall
  split at hcall
  · next hphase =>
    obtain rfl := Option.some.inj hcall
    have hopen : (s.phase d).IsOpen := by
      rw [hphase]
      trivial
    split
    · refine ⟨(h.setPublished (h.client d).work _).goTo hopen _, fun _ _ => rfl, fun _ _ => rfl,
        fun _ _ => rfl, ?_⟩
      intro d' hd'
      exact Function.update_of_ne hd' _ _
    · exact ⟨h.goTo hopen _, Pools.Apart.of_eq rfl rfl rfl rfl⟩
  · cases hcall

/-! ### The miner threads -/

/-- A miner thread has works of the pools again. -/
theorem Pools.Kept.setMiner (h : s.Kept c) (t : ℕ) {m : Miner}
    (hm : ∀ d, (m.work2 d).Known s.received d) (mining : ℕ → Option Pool) :
    { s with miner := Function.update s.miner t m, mining := mining }.Kept c := by
  refine { h with client := fun d' => h.client d', miner := ?_ }
  apply (Function.forall_update_iff s.miner fun _ m => ∀ d, (m.work2 d).Known s.received d).mpr
  exact ⟨hm, fun t' _ => h.miner t'⟩

/-- The block leaves works of the pools. -/
theorem Miner.refresh_known {R : List Receipt} {m : Miner} {g : Work} (nThreads thrId : ℕ)
    (hm : ∀ d, (m.work2 d).Known R d) (hg : g.Known R d) :
    ∀ d', ((m.refresh nThreads thrId d g).work2 d').Known R d' := by
  unfold Miner.refresh
  split
  · exact Work.Known.update hm (hg.setNonce _)
  · exact Work.Known.update hm ((hm d).setNonce _)

theorem Pools.Kept.refresh (h : s.Kept c) {t : ℕ} (hcall : s.refresh c t d = some s') :
    s'.Kept c := by
  unfold Pools.refresh at hcall
  split at hcall
  · obtain ⟨⟨g, m⟩, hblock, rfl⟩ := Option.map_eq_some_iff.mp hcall
    obtain rfl := refreshBlock_eq_some hblock
    -- the published work is the one before or that of the connection
    have hg : g.Known s.received d := by
      obtain ⟨g', hobtain, heq⟩ := Option.map_eq_some_iff.mp hblock
      obtain rfl := congrArg Prod.fst heq
      unfold obtainWork at hobtain
      dsimp only at hobtain
      split at hobtain
      · obtain rfl := Option.some.inj hobtain
        exact (h.client d).work
      · obtain rfl := Option.some.inj hobtain
        exact h.published d
    have hm := Miner.refresh_known c.nThreads t (h.miner t) hg
    exact (h.setPublished hg s.workTime).setMiner t hm _
  · cases hcall

/-- **What a scan does**: the thread keeps its works, and copies with the results are
queued. -/
theorem Pools.scan_eq_some {t : ℕ} {max64 : ℤ} {bs : List Batch}
    (hcall : s.scan c t max64 bs = some s') :
    ∃ d hashesDone2, ∃ results : List (BitVec 32), s.mining t = some d ∧
      (∀ x ∈ results, validates c.hash ((s.miner t).work2 d).data ((s.miner t).work2 d).target x =
        true) ∧
      s' = { s with
        miner := Function.update s.miner t { s.miner t with hashesDone2 := hashesDone2 }
        mining := Function.update s.mining t none
        queue := s.queue ++ results.map ((s.miner t).work2 d).setNonce } := by
  unfold Pools.scan at hcall
  split at hcall
  · cases hcall
  · next d hmining =>
    obtain ⟨⟨m, r⟩, hscan, rfl⟩ := Option.map_eq_some_iff.mp hcall
    obtain ⟨hloop, rfl⟩ := Miner.scan_eq_some hscan
    obtain ⟨hlen, hconfirmed⟩ := scanLoop_results hloop
    refine ⟨d, Function.update (s.miner t).hashesDone2 d r.hashesDone, r.results, hmining,
      hconfirmed, ?_⟩
    dsimp only
    rw [queueShares_eq hlen, Function.update_eq_self]

theorem Pools.Kept.scan (h : s.Kept c) {t : ℕ} {max64 : ℤ} {bs : List Batch}
    (hcall : s.scan c t max64 bs = some s') : s'.Kept c := by
  obtain ⟨d, hashesDone2, results, -, -, rfl⟩ := Pools.scan_eq_some hcall
  have hworks : ∀ d', (({ s.miner t with hashesDone2 := hashesDone2 } : Miner).work2 d').Known
      s.received d' := h.miner t
  have hminer := h.setMiner t hworks (Function.update s.mining t none)
  refine { hminer with client := fun d' => h.client d', queue := ?_ }
  intro w hw
  cases List.mem_append.mp hw with
  | inl hold => exact h.queue w hold
  | inr hnew =>
    -- a copy of the work of the thread
    obtain ⟨x, -, rfl⟩ := List.mem_map.mp hnew
    have hwork := (h.miner t d).setNonce x
    rwa [hwork.dev]

/-! ### The shares -/

theorem Pools.Kept.pop (h : s.Kept c) (hcall : s.pop = some s') : s'.Kept c := by
  obtain ⟨w, ws, -, hqueue, rfl⟩ := Pools.pop_eq_some hcall
  have hmem : ∀ w' ∈ w :: ws, w'.Known s.received w'.dev := by
    rw [← hqueue]
    exact h.queue
  refine { h with client := fun d => h.client d, queue := ?_, submission := ?_ }
  · intro w' hw'
    exact hmem w' (List.mem_cons_of_mem w hw')
  · exact hmem w List.mem_cons_self

theorem Pools.Kept.test (h : s.Kept c) (hcall : s.test = some s') : s'.Kept c := by
  obtain ⟨w, hpending, rfl⟩ := Pools.test_eq_some hcall
  have hw := h.submission
  rw [hpending] at hw
  refine { h with client := fun d => h.client d, submission := ?_ }
  dsimp only
  split
  · trivial
  · next hfresh => exact ⟨hw, by simpa using hfresh⟩

theorem Pools.Kept.build (h : s.Kept c) {behind : List Byte}
    (hcall : s.build c behind = some s') : s'.Kept c := by
  obtain ⟨w, g, htested, rfl⟩ := Pools.build_eq_some hcall
  have hw := h.submission
  rw [htested] at hw
  refine { h with client := fun d => h.client d, submission := ⟨?_, hw.2, rfl⟩ }
  apply hw.1.job.imp_right
  rintro ⟨r, hr, hpool, hcopy⟩
  refine ⟨r, hr, hpool, ?_, hcopy⟩
  rw [← hpool]
  exact h.sessions r hr

theorem Pools.Kept.send (h : s.Kept c) {ok : Bool} (hcall : s.send ok = some s') :
    s'.Kept c := by
  obtain ⟨b, hbuilt, hsent⟩ := Pools.send_eq_some hcall
  have hb := h.submission
  rw [hbuilt] at hb
  rcases hsent with ⟨conn, -, -, rfl⟩ | ⟨-, rfl⟩
  · refine { h with client := fun d => h.client d, submission := trivial, sent := ?_ }
    intro e he
    cases List.mem_append.mp he with
    | inl hold => exact h.sent e hold
    | inr hnew =>
      obtain rfl := List.mem_singleton.mp hnew
      exact hb
  · exact { h with client := fun d => h.client d, submission := Built.Sound.known hb }

/-! ### Runs -/

/-- **Every event keeps the invariant.** -/
theorem Pools.Kept.step (h : s.Kept c) {e : PoolsEvent} (hstep : s.step c e = some s') :
    s'.Kept c := by
  cases e with
  | connect d fd ok =>
    obtain ⟨hclosed, hfree, rfl⟩ := Pools.connect_eq_some hstep
    exact h.connect hfree hclosed ok
  | disconnect d =>
    obtain ⟨hopen, rfl⟩ := Pools.disconnect_eq_some hstep
    exact h.disconnect hopen
  | line d val uninit heap => exact (h.line hstep).1
  | decodeReply d uninit => exact (h.decodeReply hstep).1
  | publish d => exact (h.publish hstep).1
  | refresh t d => exact h.refresh hstep
  | scan t max64 batches => exact h.scan hstep
  | pop => exact h.pop hstep
  | test => exact h.test hstep
  | build behind => exact h.build hstep
  | send ok => exact h.send hstep

/-- The pool whose stratum thread does the step. -/
def PoolsEvent.thread : PoolsEvent → Option Pool
  | .connect d _ _ => some d
  | .disconnect d => some d
  | .line d _ _ _ => some d
  | .decodeReply d _ => some d
  | .publish d => some d
  | _ => none

/-- **A stratum thread does not touch the other pool.** -/
theorem Pools.Kept.apart (h : s.Kept c) {e : PoolsEvent} (hstep : s.step c e = some s')
    (hd : e.thread = some d) : s.Apart d s' := by
  cases e with
  | connect d' fd ok =>
    obtain ⟨-, -, rfl⟩ := Pools.connect_eq_some hstep
    exact Pools.Apart.of_eq rfl rfl rfl rfl
  | disconnect d' =>
    obtain ⟨-, rfl⟩ := Pools.disconnect_eq_some hstep
    exact Pools.Apart.of_eq rfl rfl rfl rfl
  | line d' val uninit heap =>
    obtain rfl : d' = d := Option.some.inj hd
    exact (h.line hstep).2
  | decodeReply d' uninit =>
    obtain rfl : d' = d := Option.some.inj hd
    exact (h.decodeReply hstep).2
  | publish d' =>
    obtain rfl : d' = d := Option.some.inj hd
    exact (h.publish hstep).2
  | refresh | scan | pop | test | build | send => cases hd

end Kept

end XmrMiner
