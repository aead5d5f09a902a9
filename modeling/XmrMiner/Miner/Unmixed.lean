import XmrMiner.Miner.Origins

/-!
# The pools do not mix

The marks of the works agree with the place where they are, and a stratum thread does not
touch the variables of the other pool, whatever happens.

Three slips let the pools mix nevertheless.  A target that cannot be read is taken from a
variable that is not set, an identifier of a session that fills its row is read on into the
row of the other pool, and a share is sent to the descriptor of a closed connection, which
may be in use for the other pool again.  Further, a thread scans its cleared work as long as
there is no job.

## Main definitions

* `Work.IsWhole` — the work is a job as it stands in one message.
* `Pools.Unmixed` — the pools are kept apart.
* `Pools.CanKeep` — the condition on a step.

## Main results

* `unmixed_of_run` — it is enough.
-/

namespace XmrMiner

open ByteMem CString

/-- The work is the job of one message, but for the nonce. -/
structure Work.IsWhole (w : Work) (job : Json) (hexblob jobId : List Byte) : Prop where
  /-- The job is taken over. -/
  offers : job.OffersBlob (.string jobId) hexblob
  /-- The identifier. -/
  jobId : w.jobId = jobId
  /-- All four bytes of the target are in the message. -/
  bytes : (jobjBinary job (ascii "target") 4).1.length = 4
  /-- The target. -/
  target : w.target = Function.update (fun _ => 0xffffffff) 7
    (load32 (storeBytes (fun _ => 0) 0 (jobjBinary job (ascii "target") 4).1) 0)
  /-- The blob. -/
  data : ∀ i, (hi : i < (hex2bin hexblob (hexblob.length / 2)).1.length) → i < 39 ∨ 43 ≤ i →
    w.data i = (hex2bin hexblob (hexblob.length / 2)).1[i]

/-- The share that is on its way. -/
def Submission.share : Submission → Option Work
  | .idle => none
  | .pending w => some w
  | .tested w _ => some w
  | .built b => some b.share

/-- The shares that are queued, on their way, or sent. -/
def Pools.shares (s : Pools) : List Work :=
  s.queue ++ s.submission.share.toList ++ s.sent.map fun e => e.built.share

/-- **The pools are kept apart** in the state that the events lead to. -/
structure Pools.Unmixed (c : PoolsConfig) (es : List PoolsEvent) (s : Pools) : Prop where
  /-- The works of the connections are marked with their pools, -/
  storage : ∀ d, (s.storage d).dev = d
  /-- so are the published works, -/
  published : ∀ d, (s.published d).dev = d
  /-- and those of every miner thread. -/
  miner : ∀ t d, ((s.miner t).work2 d).dev = d
  /-- A share is a job of one message that has arrived on the connection of its pool. -/
  share : ∀ w ∈ s.shares, ∃ r ∈ s.received, r.pool = w.dev ∧ ∃ hexblob jobId,
    w.IsWhole r.job hexblob jobId
  /-- It is sent on this connection, with the string that was in the row of this pool when the
  line was built. -/
  sent : ∀ e ∈ s.sent, e.conn = e.built.share.dev ∧ BuiltIn c es e.built ∧ ∃ id,
    HoldsString (e.built.ids e.built.share.dev) id ∧
      e.built.line = snprintf (submitMessage c.hash id e.built.share)
  /-- The stratum thread of a pool does not change what is of the other one. -/
  apart : ∀ e s' d, s.step c e = some s' → e.thread = some d → s.Apart d s'

/-! ### The condition -/

/-- If the job is taken over, its target is read and its identifier is not long. -/
def Json.Whole (job : Json) : Prop :=
  ∀ jobId ∈ (job.objectGet (ascii "job_id")).bind Json.stringValue,
  ∀ hexblob ∈ (job.objectGet (ascii "blob")).bind Json.stringValue,
    hexblob ≠ [] → acceptsLength hexblob.length = true →
      (hex2bin hexblob (hexblob.length / 2)).2 = true →
      (jobjBinary job (ascii "target") 4).1.length = 4 ∧ jobId.length ≤ 128

/-- **The condition on a step**: a job is whole, a thread without a job finds nothing, the
row of the pool has a terminator when a line is built, and a share is not sent while the
connection of its pool is closed and the descriptor is in use again. -/
def Pools.CanKeep (c : PoolsConfig) (s : Pools) (e : PoolsEvent) : Prop :=
  (∀ job ∈ s.arriving e, job.Whole) ∧
  match e with
  | .scan t _ _ => ∀ d ∈ s.mining t, ((s.miner t).work2 d).NoJob →
      ∀ x, validates c.hash ((s.miner t).work2 d).data ((s.miner t).work2 d).target x = false
  | .build _ => ∀ w ∈ s.submission.share, nul ∈ (s.ids w.dev).toList
  | .send true => ∀ w ∈ s.submission.share, ¬ (s.phase w.dev).IsOpen →
      s.opened (s.sock w.dev) = none
  | _ => True

instance (job : Json) : Decidable job.Whole :=
  inferInstanceAs (Decidable (∀ _ ∈ _, ∀ _ ∈ _, _ → _))

instance (w : Work) : Decidable w.NoJob :=
  decidable_of_iff (w.jobId = [] ∧ ∀ i, w.target i = 0)
    ⟨fun h => ⟨h.1, h.2⟩, fun h => ⟨h.jobId, h.target⟩⟩

instance : DecidablePred StratumPhase.IsOpen
  | .closed => inferInstanceAs (Decidable False)
  | .login | .decode _ | .check | .receive => inferInstanceAs (Decidable True)

instance (c : PoolsConfig) (s : Pools) (e : PoolsEvent) : Decidable (s.CanKeep c e) :=
  match e with
  | .scan _ _ _ | .build _ | .send true => inferInstanceAs (Decidable (_ ∧ _))
  | .connect _ _ _ | .disconnect _ | .line _ _ _ _ | .decodeReply _ _ | .publish _ | .refresh _ _
  | .pop | .test | .send false => inferInstanceAs (Decidable (_ ∧ True))

/-! ### Steps that meet it -/

/-- A copy of a whole job. -/
theorem Work.IsCopy.isWhole {w : Work} {job : Json} {uninit : BitVec 32}
    {hexblob jobId : List Byte} (h : w.IsCopy job uninit hexblob jobId) (hjob : job.Whole) :
    w.IsWhole job hexblob jobId := by
  have hid : jobId ∈ (job.objectGet (ascii "job_id")).bind Json.stringValue := by
    rw [h.offers.id]
    rfl
  have hblob : hexblob ∈ (job.objectGet (ascii "blob")).bind Json.stringValue := by
    rw [h.offers.blob]
    rfl
  obtain ⟨hbytes, hlen⟩ := hjob jobId hid hexblob hblob h.offers.nonempty h.offers.length
    h.offers.digits
  refine ⟨h.offers, ?_, hbytes, ?_, h.data⟩
  · rw [h.jobId, List.take_of_length_le hlen]
  · rw [h.target, jobTarget_of_length hbytes]

/-- The invariant of the steps that meet the condition. -/
structure Pools.Whole (s : Pools) : Prop where
  /-- The jobs that have arrived. -/
  jobs : ∀ r ∈ s.received, r.job.Whole
  /-- The shares have jobs. -/
  shares : ∀ w ∈ s.shares, w.FromJob s.received w.dev
  /-- The line was built from a string. -/
  built : ∀ b, s.submission = .built b → nul ∈ (b.ids b.share.dev).toList
  /-- The lines that were written. -/
  sent : ∀ e ∈ s.sent, e.conn = e.built.share.dev ∧ nul ∈ (e.built.ids e.built.share.dev).toList

section Whole

variable {c : PoolsConfig} {s s' : Pools} {d : Pool}

theorem Pools.whole_start (c : PoolsConfig) : (Pools.start c).Whole where
  jobs _ hr := absurd hr List.not_mem_nil
  shares _ hw := absurd hw List.not_mem_nil
  built _ hb := by cases hb
  sent _ he := absurd he List.not_mem_nil

theorem Pools.mem_shares {w : Work} : w ∈ s.shares ↔
    w ∈ s.queue ∨ s.submission.share = some w ∨ ∃ e ∈ s.sent, e.built.share = w := by
  simp [Pools.shares]

/-- The arrival of whole jobs. -/
theorem Pools.Whole.brings (h : s.Whole) {job : Option Json} (hb : s.Brings d job s')
    (hjob : ∀ j ∈ job, j.Whole) : s'.Whole := by
  have hshares : s'.shares = s.shares := by
    rw [Pools.shares, Pools.shares, hb.queue, hb.submission, hb.sent]
  refine ⟨?_, ?_, ?_, ?_⟩
  · intro r hr
    rw [hb.received, Pools.mem_arrive] at hr
    rcases hr with hold | ⟨-, -, hnew⟩
    · exact h.jobs r hold
    · exact hjob _ hnew
  · intro w hw
    rw [hshares] at hw
    apply (h.shares w hw).mono
    rw [hb.received]
    exact List.subset_append_left _ _
  · rw [hb.submission]
    exact h.built
  · rw [hb.sent]
    exact h.sent

/-- A share that is found has a job. -/
theorem Pools.Whole.scan (h : s.Whole) (hkept : s.Kept c) {t : ℕ} {max64 : ℤ} {bs : List Batch}
    (hcall : s.scan c t max64 bs = some s')
    (hcan : ∀ d ∈ s.mining t, ((s.miner t).work2 d).NoJob → ∀ x,
      validates c.hash ((s.miner t).work2 d).data ((s.miner t).work2 d).target x = false) :
    s'.Whole := by
  obtain ⟨d, _, results, hmining, hvalid, rfl⟩ := Pools.scan_eq_some hcall
  refine ⟨h.jobs, ?_, h.built, h.sent⟩
  intro w hw
  rw [Pools.mem_shares] at hw
  cases hw with
  | inl hqueue =>
    cases List.mem_append.mp hqueue with
    | inl hold => exact h.shares w (Pools.mem_shares.mpr (Or.inl hold))
    | inr hnew =>
      obtain ⟨x, hx, rfl⟩ := List.mem_map.mp hnew
      have hwork := hkept.miner t d
      have hfrom : ((s.miner t).work2 d).FromJob s.received d := by
        apply hwork.job.resolve_left
        intro hno
        have hfalse := hcan d hmining hno x
        rw [hvalid x hx] at hfalse
        cases hfalse
      have hdev : (((s.miner t).work2 d).setNonce x).dev = d := hwork.dev
      rw [hdev]
      exact hfrom.setNonce x
  | inr hother => exact h.shares w (Pools.mem_shares.mpr (Or.inr hother))

theorem Pools.Whole.pop (h : s.Whole) (hcall : s.pop = some s') : s'.Whole := by
  obtain ⟨w, ws, -, hqueue, rfl⟩ := Pools.pop_eq_some hcall
  refine ⟨h.jobs, ?_, (fun b hb => by cases hb), h.sent⟩
  intro w' hw'
  apply h.shares w'
  rw [Pools.mem_shares] at hw' ⊢
  rw [hqueue]
  rcases hw' with hrest | hpending | hsent
  · exact Or.inl (List.mem_cons_of_mem w hrest)
  · obtain rfl : w = w' := Option.some.inj hpending
    exact Or.inl List.mem_cons_self
  · exact Or.inr (Or.inr hsent)

theorem Pools.Whole.test (h : s.Whole) (hcall : s.test = some s') : s'.Whole := by
  obtain ⟨w, hpending, rfl⟩ := Pools.test_eq_some hcall
  refine ⟨h.jobs, ?_, ?_, h.sent⟩
  · intro w' hw'
    apply h.shares w'
    rw [Pools.mem_shares] at hw' ⊢
    rw [hpending]
    refine hw'.imp_right (Or.imp_left ?_)
    intro hshare
    dsimp only at hshare
    split at hshare
    · cases hshare
    · exact hshare
  · intro b hb
    dsimp only at hb
    split at hb <;> cases hb

theorem Pools.Whole.build (h : s.Whole) {behind : List Byte}
    (hcall : s.build c behind = some s')
    (hcan : ∀ w ∈ s.submission.share, nul ∈ (s.ids w.dev).toList) : s'.Whole := by
  obtain ⟨w, g, htested, rfl⟩ := Pools.build_eq_some hcall
  refine ⟨h.jobs, ?_, ?_, h.sent⟩
  · intro w' hw'
    apply h.shares w'
    rw [Pools.mem_shares] at hw' ⊢
    rw [htested]
    exact hw'
  · intro b hb
    obtain rfl := Submission.built.inj hb
    apply hcan w
    rw [htested]
    rfl

theorem Pools.Whole.send (h : s.Whole) (hkept : s.Kept c) {ok : Bool}
    (hcall : s.send ok = some s')
    (hcan : ok = true → ∀ w ∈ s.submission.share, ¬ (s.phase w.dev).IsOpen →
      s.opened (s.sock w.dev) = none) : s'.Whole := by
  obtain ⟨b, hbuilt, hsent⟩ := Pools.send_eq_some hcall
  have hshare : s.submission.share = some b.share := by
    rw [hbuilt]
    rfl
  rcases hsent with ⟨conn, hok, hconn, rfl⟩ | ⟨-, rfl⟩
  · refine ⟨h.jobs, ?_, (fun b hb => by cases hb), ?_⟩
    · intro w hw
      apply h.shares w
      rw [Pools.mem_shares] at hw ⊢
      rcases hw with hqueue | hidle | ⟨e, he, rfl⟩
      · exact Or.inl hqueue
      · cases hidle
      · cases List.mem_append.mp he with
        | inl hold => exact Or.inr (Or.inr ⟨e, hold, rfl⟩)
        | inr hnew =>
          obtain rfl := List.mem_singleton.mp hnew
          exact Or.inr (Or.inl hshare)
    · intro e he
      cases List.mem_append.mp he with
      | inl hold => exact h.sent e hold
      | inr hnew =>
        obtain rfl := List.mem_singleton.mp hnew
        refine ⟨?_, h.built b hbuilt⟩
        -- the descriptor is that of the open connection
        have hopen : (s.phase b.share.dev).IsOpen := by
          by_contra hclosed
          rw [hcan hok b.share hshare hclosed] at hconn
          cases hconn
        rw [hkept.opened b.share.dev hopen] at hconn
        exact (Option.some.inj hconn).symm
  · refine ⟨h.jobs, ?_, (fun b hb => by cases hb), h.sent⟩
    intro w hw
    apply h.shares w
    rw [Pools.mem_shares] at hw ⊢
    rw [hshare]
    exact hw

/-- **A step that meets the condition keeps the invariant.** -/
theorem Pools.Whole.step (h : s.Whole) (hkept : s.Kept c) {e : PoolsEvent}
    (hstep : s.step c e = some s') (hcan : s.CanKeep c e) : s'.Whole := by
  cases hthread : e.thread with
  | some d => exact h.brings (Pools.brings_step hstep hthread) hcan.1
  | none =>
    cases e with
    | connect | disconnect | line | decodeReply | publish => cases hthread
    | refresh t d =>
      apply h.brings (Pools.brings_refresh hstep)
      intro j hj
      cases hj
    | scan t max64 batches => exact h.scan hkept hstep hcan.2
    | pop => exact h.pop hstep
    | test => exact h.test hstep
    | build behind => exact h.build hstep hcan.2
    | send ok =>
      apply h.send hkept hstep
      rintro rfl
      exact hcan.2

/-- Under all invariants the pools are kept apart. -/
theorem Pools.Whole.unmixed (h : s.Whole) (hkept : s.Kept c) {es : List PoolsEvent}
    (htraced : s.Traced c es) : s.Unmixed c es where
  storage d := (hkept.client d).work.dev
  published d := (hkept.published d).dev
  miner t d := (hkept.miner t d).dev
  share w hw := by
    obtain ⟨r, hr, hpool, uninit, hexblob, jobId, hcopy⟩ := h.shares w hw
    exact ⟨r, hr, hpool, hexblob, jobId, hcopy.isWhole (h.jobs r hr)⟩
  sent e he := by
    obtain ⟨hconn, hnul⟩ := h.sent e he
    have hrow : HoldsString (e.built.ids e.built.share.dev)
      (str (e.built.ids e.built.share.dev).toList) := ⟨hnul, rfl⟩
    refine ⟨hconn, htraced.sent e he, _, hrow, ?_⟩
    rw [(hkept.sent e he).line, hrow.sessionId_eq]
  apart _ _ _ hstep hd := hkept.apart hstep hd

end Whole

/-! ### Runs -/

/-- **The pools are kept apart in every run whose steps all meet the condition**: for any
number of miner threads, any messages of both pools and any order of the events. -/
theorem unmixed_of_run {c : PoolsConfig} {es : List PoolsEvent} {s : Pools}
    (hrun : Trace.Run (Trace.restrict (Trace.stepOf (Pools.step c)) (Pools.CanKeep c)) (.start c)
      es s) : s.Unmixed c es := by
  have htraced := Pools.traced_of_run (hrun.mono fun _ _ _ h => h.1)
  have hboth : s.Kept c ∧ s.Whole := by
    apply hrun.invariant_state fun s => s.Kept c ∧ s.Whole
    · exact ⟨Pools.kept_start c, Pools.whole_start c⟩
    · intro s e s' h hstep
      exact ⟨h.1.step hstep.1, h.2.step h.1 hstep.1 hstep.2⟩
  exact hboth.2.unmixed hboth.1 htraced

/-- A job. -/
def firstJob (jobId target : String) : Json :=
  .object [(ascii "job_id", .string (ascii jobId)),
    (ascii "blob", .string (bin2hex (List.replicate 76 7))),
    (ascii "target", .string (ascii target))]

/-- The reply to a login, with a job. -/
def jobReply (id : String) (job : Json) : Json :=
  .object [(ascii "id", .integer 1), (ascii "error", .null),
    (ascii "result", .object [(ascii "id", .string (ascii id)),
      (ascii "status", .string (ascii "OK")), (ascii "job", job)])]

/-- One miner thread. -/
def PoolsConfig.one : PoolsConfig := ⟨fun _ _ _ => 0, 1, fun _ => 320⟩

/-- The main pool is connected and publishes its job, for which a share is found. -/
def shareEvents (id : String) (job : Json) : List PoolsEvent :=
  [.connect 0 5 true, .line 0 (some (jobReply id job)) 0 (some fun _ => 0), .decodeReply 0 0,
    .publish 0, .refresh 0 0, .scan 0 1000 [⟨(5, 0xffffffff), false⟩]]

/-- The share is sent. -/
def sendEvents : List PoolsEvent := [.pop, .test, .build [], .send true]

/-- A share of the main pool is sent. -/
theorem unmixed_of_run_first :
    let es := shareEvents "a1b2" (firstJob "a" "ffffff00") ++ sendEvents
    ∃ s, Trace.Run (Trace.restrict (Trace.stepOf (Pools.step .one)) (Pools.CanKeep .one))
        (.start .one) es s ∧ s.Unmixed .one es := by
  intro es
  have hlegal : (es.foldlM (fun s e => if Pools.CanKeep .one s e then Pools.step .one s e else none)
      (Pools.start .one)).isSome = true := by decide +kernel
  obtain ⟨s, hs⟩ := Option.isSome_iff_exists.mp hlegal
  have hrun := Trace.Run.restrict_of_foldlM es hs
  exact ⟨s, hrun, unmixed_of_run hrun⟩

/-- A job whose target is cut short: the share has bytes in it that are not in the message. -/
theorem not_unmixed_of_target :
    ¬ ∀ (c : PoolsConfig) (es : List PoolsEvent) (s : Pools),
      Trace.Run (Trace.stepOf (Pools.step c)) (.start c) es s → s.Unmixed c es := by
  intro h
  let es := shareEvents "a1b2" (firstJob "a" "ff")
  -- there is a share, and of no job that has arrived the target could be read
  have hbad : (es.foldlM (Pools.step .one) (Pools.start .one)).any (fun s =>
      !s.shares.isEmpty && s.received.all fun r =>
        (jobjBinary r.job (ascii "target") 4).1.length != 4) = true := by decide +kernel
  obtain ⟨s, hs, hboth⟩ := (Option.any_eq_true _ _).mp hbad
  obtain ⟨hshares, hall⟩ := Bool.and_eq_true_iff.mp hboth
  have hunmixed := h .one es s (Trace.Run.of_foldlM es hs)
  obtain ⟨w, hw⟩ := List.exists_mem_of_ne_nil s.shares (by simpa using hshares)
  obtain ⟨r, hr, -, hexblob, jobId, hwhole⟩ := hunmixed.share w hw
  have hlen := List.all_eq_true.mp hall r hr
  rw [hwhole.bytes] at hlen
  cases hlen

end XmrMiner
