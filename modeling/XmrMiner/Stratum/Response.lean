import XmrMiner.Stratum.Login

/-!
# Replies, and absent strings

A line that `stratum_handle_method` refuses is handed to `stratum_handle_response`, which
counts the replies to shares; while the reply to the login is awaited it is handed to the
rest of `stratum_authorize`.

Each of the handlers tests some of the fields of a message.  A field that is missing or of
another type gives a null pointer, and a handler that hands it on to the string functions
does not return.  Nor does the copy of a session identifier if the string is shorter than
the row, on a heap that cannot be read behind it.

## Main definitions

* `stratumHandleResponse`, `stratumHandleLine`.
* `HandlersReturn` — no handler uses an absent string.
* `CanHandle` — the condition on a message.

## Main results

* `handlersReturn_iff` — the condition is exact.
-/

namespace XmrMiner

open ByteMem CString

/-! ### The reply to a share -/

/-- The counters of the shares. -/
structure ShareCounts where
  /-- `accepted_count`. -/
  accepted : ℕ
  /-- `rejected_count`. -/
  rejected : ℕ

/-- `share_result`. -/
def shareResult (result : Bool) (n : ShareCounts) : ShareCounts :=
  if result then { n with accepted := n.accepted + 1 } else { n with rejected := n.rejected + 1 }

/-- `json_is_null`, of which the null pointer is not an instance. -/
def jsonIsNull : Option Json → Bool
  | some .null => true
  | _ => false

/-- The test at the head of `stratum_handle_response`: the message has an identifier, and a
result or an error. -/
def isResponse (val : Json) : Bool :=
  !((val.objectGet (ascii "id")).isNone || jsonIsNull (val.objectGet (ascii "id")) ||
    (val.objectGet (ascii "result")).isNone && (val.objectGet (ascii "error")).isNone)

/-- The status of the result, of any type. -/
def responseStatus (val : Json) : Option Json :=
  (val.objectGet (ascii "result")).bind (·.objectGet (ascii "status"))

/-- `stratum_handle_response` in JSON-RPC 2.0 mode, for the value of the line. -/
def stratumHandleResponse (val : Option Json) (n : ShareCounts) : Option (Bool × ShareCounts) :=
  match val with
  | none => some (false, n)
  | some val =>
    if isResponse val then
      let errVal := val.objectGet (ascii "error")
      match responseStatus val with
      | none => some (true, shareResult (jsonIsNull errVal) n)
      | some status =>
        status.stringValue.map fun s =>
          if s = ascii "KEEPALIVED" then (false, n)
          else (true, shareResult (s == ascii "OK" && jsonIsNull errVal) n)
    else some (false, n)

/-- What `stratum_thread` does with a line. -/
def stratumHandleLine (val : Option Json) (uninit : BitVec 32) (c : Client) (n : ShareCounts) :
    Option (Client × ShareCounts) :=
  (stratumHandleMethod val uninit c).bind fun r =>
    if r.1 then some (r.2, n)
    else (stratumHandleResponse val n).map fun q => (r.2, q.2)

/-- **No handler uses an absent string**: those of a line return, and so does
`stratum_authorize` when it receives the line, on a heap that cannot be read behind a
string. -/
def HandlersReturn (loads : List Byte → Option Json) (line : Line) (c : Client)
    (n : ShareCounts) : Prop :=
  (stratumHandleLine (loads line.text) line.uninit c n).isSome = true ∧
    (stratumAuthorize loads none [line] c).isSome = true

/-! ### The condition -/

/-- The condition on a job, with the variables of the pool before. -/
structure Rpc2Job.Safe (s : Rpc2Job) (job : Json) : Prop where
  /-- The blob is a string. -/
  blob : (job.objectGet (ascii "job_id")).isSome = true →
    ∀ blob, job.objectGet (ascii "blob") = some blob → ∃ hexblob, blob = .string hexblob
  /-- With a blob that can be read, the identifier is a string. -/
  jobId : ∀ id hexblob, job.OffersBlob id hexblob → ∃ jobId, id = .string jobId
  /-- A job that is decoded once more has an identifier. -/
  again : job.OffersAgain → s.blob.isSome = true → s.jobId.isSome = true

/-- The job is taken over or decoded once more. -/
def Rpc2Job.Takes (s : Rpc2Job) (job : Json) : Prop :=
  (∃ id hexblob, job.OffersBlob id hexblob) ∨ job.OffersAgain ∧ s.blob.isSome = true

/-- The message is a notification. -/
def Json.IsNotification (val : Json) : Prop :=
  ∃ method, val.objectGet (ascii "method") = some (.string method) ∧
    strcaseeq method (ascii "job") = true

/-- The job of a notification. -/
def Json.params (val : Json) : Json := (val.objectGet (ascii "params")).getD .null

/-- The status of a response is a string. -/
def Json.StatusSafe (val : Json) : Prop :=
  isResponse val = true → ∀ status, responseStatus val = some status → ∃ s, status = .string s

/-- In the reply to a login the identifier fills the row, and the job is safe. -/
structure Rpc2Job.LoginSafe (s : Rpc2Job) (val : Json) : Prop where
  /-- The identifier. -/
  id : acceptsReply val = true → ∀ res id, val.objectGet (ascii "result") = some res →
    res.objectGet (ascii "id") = some (.string id) → 63 ≤ id.length
  /-- The job. -/
  job : acceptsReply val = true → ∀ res job, val.objectGet (ascii "result") = some res →
    res.objectGet (ascii "job") = some job → s.Safe job

/-- **The condition on a message**, with the variables of the pool before. -/
structure Rpc2Job.CanHandle (s : Rpc2Job) (val : Json) : Prop where
  /-- A notification has a safe job. -/
  notification : val.IsNotification → s.Safe val.params
  /-- What is no notification, or one that is refused, is safe as a response. -/
  response : ¬ (val.IsNotification ∧ s.Takes val.params) → val.StatusSafe
  /-- And as a reply to the login. -/
  login : ¬ (val.IsNotification ∧ s.Takes val.params) → s.LoginSafe val

/-! ### Each handler -/

theorem Rpc2Job.copyTo_isSome_iff (s : Rpc2Job) (work : Work) :
    (s.copyTo work).isSome = true ↔ (s.blob.isSome = true → s.jobId.isSome = true) := by
  unfold Rpc2Job.copyTo
  cases s.blob <;> simp

theorem Rpc2Job.takeOver_isSome_iff {job id : Json} {hexblob : List Byte} {uninit : BitVec 32}
    {s : Rpc2Job} {work : Work} (hid : job.objectGet (ascii "job_id") = some id)
    (hblob : job.objectGet (ascii "blob") = some (.string hexblob)) :
    (s.takeOver job id hexblob uninit work).isSome = true ↔
      (job.OffersBlob id hexblob → ∃ jobId, id = .string jobId) ∧
        (job.OffersAgain → s.blob.isSome = true → s.jobId.isSome = true) := by
  have hagain : job.OffersAgain ↔ hexblob = [] := by
    rw [Json.OffersAgain, hid, hblob]
    simp
  unfold Rpc2Job.takeOver
  split
  · next hlength =>
    refine iff_of_true rfl ⟨?_, ?_⟩
    · intro hoffer
      exact absurd hoffer.length (by simp [hlength])
    · intro hoffer
      obtain rfl := hagain.mp hoffer
      exact absurd hlength (by decide)
  · next haccept =>
    split
    · next hzero =>
      have hnil := List.length_eq_zero_iff.mp hzero
      rw [Rpc2Job.copyTo_isSome_iff, hagain]
      exact ⟨fun h => ⟨fun hoffer => absurd hnil hoffer.nonempty, fun _ => h⟩, fun h => h.2 hnil⟩
    · next hne =>
      have hne' : hexblob ≠ [] := fun hnil => hne (by rw [hnil]; rfl)
      dsimp only
      split
      · next hhex =>
        refine iff_of_true rfl ⟨?_, fun hoffer => absurd (hagain.mp hoffer) hne'⟩
        intro hoffer
        exact absurd hoffer.digits (by simp [hhex])
      · next hhex =>
        have hoffer : job.OffersBlob id hexblob :=
          ⟨hid, hblob, hne', by simpa using haccept, by simpa using hhex⟩
        have hvacuous : job.OffersAgain → s.blob.isSome = true → s.jobId.isSome = true :=
          fun hoffer => absurd (hagain.mp hoffer) hne'
        rw [and_iff_left hvacuous, imp_iff_right hoffer]
        cases hstring : id.stringValue with
        | none =>
          apply iff_of_false (by simp)
          rintro ⟨jobId, hjobId⟩
          rw [Json.stringValue_eq_some.mpr hjobId] at hstring
          cases hstring
        | some jobId =>
          -- the variables have just been set
          refine iff_of_true ?_ ⟨jobId, Json.stringValue_eq_some.mp hstring⟩
          exact (Rpc2Job.copyTo_isSome_iff (s.renew job uninit hexblob jobId) work).mpr fun _ => rfl

/-- **`rpc2_job_decode` returns if and only if** the job is safe. -/
theorem rpc2JobDecode_isSome_iff {job : Json} {uninit : BitVec 32} {s : Rpc2Job} {work : Work} :
    (rpc2JobDecode job uninit s work).isSome = true ↔ s.Safe job := by
  unfold rpc2JobDecode
  split
  · next id blob hid hblob =>
    cases hstring : blob.stringValue with
    | none =>
      apply iff_of_false (by simp)
      intro hsafe
      obtain ⟨hexblob, hblob'⟩ := hsafe.blob (by simp [hid]) blob hblob
      rw [Json.stringValue_eq_some.mpr hblob'] at hstring
      cases hstring
    | some hexblob =>
      obtain rfl := Json.stringValue_eq_some.mp hstring
      change (s.takeOver job id hexblob uninit work).isSome = true ↔ _
      rw [Rpc2Job.takeOver_isSome_iff hid hblob]
      refine ⟨fun h => ⟨fun _ blob' hblob' => ?_, fun id' hexblob' hoffer => ?_, h.2⟩,
        fun h => ⟨fun hoffer => h.jobId _ _ hoffer, h.again⟩⟩
      · exact ⟨hexblob, Option.some.inj (hblob'.symm.trans hblob)⟩
      · obtain rfl := Option.some.inj (hid.symm.trans hoffer.id)
        obtain rfl : hexblob = hexblob' := by simpa [hblob] using hoffer.blob
        exact h.1 hoffer
  · next hmissing =>
    refine iff_of_true rfl ⟨?_, ?_, ?_⟩
    · intro hid blob hblob
      obtain ⟨id, hid⟩ := Option.isSome_iff_exists.mp hid
      exact (hmissing id blob hid hblob).elim
    · intro id hexblob hoffer
      exact (hmissing _ _ hoffer.id hoffer.blob).elim
    · intro hoffer
      obtain ⟨id, hid⟩ := Option.isSome_iff_exists.mp hoffer.1
      exact (hmissing _ _ hid hoffer.2).elim

theorem Client.decodeJob_isSome_iff {job : Json} {uninit : BitVec 32} {c : Client} :
    (c.decodeJob job uninit).isSome = true ↔ (c.rpc2 c.work.dev).Safe job := by
  rw [Client.decodeJob, rpc2JobDecodePools, Option.isSome_map, Option.isSome_map,
    rpc2JobDecode_isSome_iff]

/-- A job is decoded with true if it is taken; else nothing changes. -/
theorem Client.decodeJob_ret {job : Json} {uninit : BitVec 32} {c c' : Client} {ret : Bool}
    (h : c.decodeJob job uninit = some (ret, c')) :
    (ret = true ↔ (c.rpc2 c.work.dev).Takes job) ∧ (ret = false → c' = c) := by
  obtain ⟨s', work', hdecoded, rfl⟩ := Client.decodeJob_eq_some h
  cases hdecoded with
  | refused hnew hagain =>
    refine ⟨iff_of_false Bool.false_ne_true ?_, fun _ => by rw [Function.update_eq_self]⟩
    rintro (⟨id, hexblob, hoffer⟩ | ⟨hoffer, hsome⟩)
    · exact hnew _ _ hoffer
    · rw [hagain hoffer] at hsome
      cases hsome
  | again hmsg hblob _ => exact ⟨iff_of_true rfl (Or.inr ⟨hmsg, by simp [hblob]⟩), nofun⟩
  | renewed hmsg => exact ⟨iff_of_true rfl (Or.inl ⟨_, _, hmsg⟩), nofun⟩

theorem Json.isNotification_iff {val : Json} :
    val.IsNotification ↔ ∃ method, (val.objectGet (ascii "method")).bind Json.stringValue =
      some method ∧ strcaseeq method (ascii "job") = true := by
  refine exists_congr fun method => and_congr_left' ?_
  constructor
  · intro h
    rw [h]
    rfl
  · intro h
    obtain ⟨v, hv, hstring⟩ := Option.bind_eq_some_iff.mp h
    rw [hv, Json.stringValue_eq_some.mp hstring]

/-- A notification is handed to the decoder, another message is refused. -/
theorem stratumHandleMethod_eq (val : Json) (uninit : BitVec 32) (c : Client) :
    (val.IsNotification ∧ stratumHandleMethod (some val) uninit c = c.decodeJob val.params uninit) ∨
      (¬ val.IsNotification ∧ stratumHandleMethod (some val) uninit c = some (false, c)) := by
  rw [Json.isNotification_iff]
  unfold stratumHandleMethod
  cases hmethod : (val.objectGet (ascii "method")).bind Json.stringValue with
  | none => exact Or.inr ⟨by simp, by simp [hmethod]⟩
  | some method =>
    simp only [Option.some.injEq, exists_eq_left', hmethod]
    split
    · next hjob => exact Or.inl ⟨hjob, rfl⟩
    · next hother => exact Or.inr ⟨hother, rfl⟩

theorem stratumHandleMethod_isSome_iff {val : Json} {uninit : BitVec 32} {c : Client} :
    (stratumHandleMethod (some val) uninit c).isSome = true ↔
      (val.IsNotification → (c.rpc2 c.work.dev).Safe val.params) := by
  rcases stratumHandleMethod_eq val uninit c with ⟨hjob, heq⟩ | ⟨hother, heq⟩
  · rw [heq, Client.decodeJob_isSome_iff, imp_iff_right hjob]
  · rw [heq]
    exact iff_of_true rfl fun hjob => absurd hjob hother

theorem stratumHandleMethod_ret {val : Json} {uninit : BitVec 32} {c c' : Client} {ret : Bool}
    (h : stratumHandleMethod (some val) uninit c = some (ret, c')) :
    (ret = true ↔ val.IsNotification ∧ (c.rpc2 c.work.dev).Takes val.params) ∧
      (ret = false → c' = c) := by
  rcases stratumHandleMethod_eq val uninit c with ⟨hjob, heq⟩ | ⟨hother, heq⟩
  · rw [heq] at h
    rw [and_iff_right hjob]
    exact Client.decodeJob_ret h
  · rw [heq] at h
    obtain ⟨rfl, rfl⟩ : false = ret ∧ c = c' := by simpa using h
    exact ⟨iff_of_false Bool.false_ne_true fun hboth => hother hboth.1, fun _ => rfl⟩

theorem stratumHandleResponse_isSome_iff {val : Json} {n : ShareCounts} :
    (stratumHandleResponse (some val) n).isSome = true ↔ val.StatusSafe := by
  rw [Json.StatusSafe, stratumHandleResponse]
  by_cases hresp : isResponse val = true
  · rw [if_pos hresp, imp_iff_right hresp]
    cases hstatus : responseStatus val with
    | none => exact iff_of_true rfl nofun
    | some status =>
      simp only [Option.isSome_map, Option.some.injEq, forall_eq']
      simp only [Option.isSome_iff_exists, Json.stringValue_eq_some]
  · rw [if_neg hresp]
    exact iff_of_true rfl fun h => absurd h hresp

/-- Without a heap behind it, only a string that fills the row can be copied. -/
theorem copyRow_isSome_iff {s : List Byte} : (copyRow none s).isSome = true ↔ 63 ≤ s.length := by
  unfold copyRow
  split
  · exact iff_of_true rfl (by omega)
  · exact iff_of_false (by simp) (by omega)

theorem rpc2LoginDecode_isSome_iff {val res : Json} {dev : Pool} {ids : SessionIds}
    (hres : val.objectGet (ascii "result") = some res) :
    (rpc2LoginDecode val dev none ids).isSome = true ↔
      ∀ id, res.objectGet (ascii "id") = some (.string id) → 63 ≤ id.length := by
  rw [rpc2LoginDecode, hres]
  dsimp only
  cases hid : (res.objectGet (ascii "id")).bind Json.stringValue with
  | none =>
    apply iff_of_true rfl
    intro id hget
    rw [hget] at hid
    cases hid
  | some id =>
    obtain ⟨v, hget, hstring⟩ := Option.bind_eq_some_iff.mp hid
    obtain rfl := Json.stringValue_eq_some.mp hstring
    simp only [Option.isSome_map, copyRow_isSome_iff, hget, Option.some.injEq,
      Json.string.injEq, forall_eq']

theorem acceptsReply_result {val : Json} (h : acceptsReply val = true) :
    ∃ res, val.objectGet (ascii "result") = some res := by
  unfold acceptsReply at h
  split at h
  · cases h
  · next hres => exact ⟨_, hres⟩
  · next res _ hres => exact ⟨res, hres⟩

theorem authorizeReply_isSome_iff {val : Json} {uninit : BitVec 32} {c : Client} :
    (authorizeReply (some val) uninit none c).isSome = true ↔
      (c.rpc2 c.work.dev).LoginSafe val := by
  by_cases haccept : acceptsReply val = true
  · obtain ⟨res, hres⟩ := acceptsReply_result haccept
    have hsafe : (c.rpc2 c.work.dev).LoginSafe val ↔
        (∀ id, res.objectGet (ascii "id") = some (.string id) → 63 ≤ id.length) ∧
          ∀ job, res.objectGet (ascii "job") = some job → (c.rpc2 c.work.dev).Safe job := by
      constructor
      · intro h
        exact ⟨fun id hid => h.id haccept res id hres hid,
          fun job hjob => h.job haccept res job hres hjob⟩
      · rintro ⟨hid, hjob⟩
        constructor
        · intro _ res' id hres'
          obtain rfl := Option.some.inj (hres.symm.trans hres')
          exact hid id
        · intro _ res' job hres'
          obtain rfl := Option.some.inj (hres.symm.trans hres')
          exact hjob job
    rw [hsafe, authorizeReply, if_pos haccept, hres, ← rpc2LoginDecode_isSome_iff hres]
    cases hlogin : rpc2LoginDecode val c.work.dev none c.ids with
    | none => simp
    | some r =>
      -- the identifier is stored, what follows is the job
      simp only [Option.bind_some, Option.isSome_some, true_and]
      cases hjob : res.objectGet (ascii "job") with
      | none => exact iff_of_true rfl nofun
      | some job =>
        simp only [Option.isSome_map, Client.decodeJob_isSome_iff, Option.some.injEq, forall_eq']
  · rw [authorizeReply, if_neg haccept]
    exact iff_of_true rfl ⟨fun h => absurd h haccept, fun h => absurd h haccept⟩

/-! ### A line -/

/-- **No handler uses an absent string if and only if** the message meets the condition, in
every state of the client. -/
theorem handlersReturn_iff {loads : List Byte → Option Json} {line : Line} {c : Client}
    {n : ShareCounts} : HandlersReturn loads line c n ↔
      ∀ val, loads line.text = some val → (c.rpc2 c.work.dev).CanHandle val := by
  rw [HandlersReturn, stratumAuthorize, awaitReply, stratumHandleLine]
  cases hval : loads line.text with
  | none =>
    have hauth : (authorizeReply (loads line.text) line.uninit none c).isSome = true := by
      rw [hval]
      rfl
    exact iff_of_true ⟨rfl, hauth⟩ fun val hnone => absurd hnone (by simp)
  | some val =>
    simp only [Option.some.injEq, forall_eq']
    have hreturns : (stratumHandleMethod (some val) line.uninit c).isSome = true ↔ _ :=
      stratumHandleMethod_isSome_iff
    cases hmethod : stratumHandleMethod (some val) line.uninit c with
    | none =>
      rw [hmethod] at hreturns
      exact iff_of_false (fun h => absurd h.1 (by simp))
        fun h => absurd (hreturns.mpr h.notification) (by simp)
    | some r =>
      obtain ⟨ret, c'⟩ := r
      obtain ⟨htaken, hkept⟩ := stratumHandleMethod_ret hmethod
      rw [hmethod] at hreturns
      have hnotify := hreturns.mp rfl
      cases ret with
      | true =>
        -- the line is dealt with
        have hboth := htaken.mp rfl
        exact iff_of_true ⟨rfl, rfl⟩
          ⟨hnotify, fun h => absurd hboth h, fun h => absurd hboth h⟩
      | false =>
        obtain rfl := hkept rfl
        have hnot := mt htaken.mpr Bool.false_ne_true
        simp only [Option.bind_some, Bool.false_eq_true, if_false, Option.isSome_map, hval]
        rw [stratumHandleResponse_isSome_iff, authorizeReply_isSome_iff]
        exact ⟨fun h => ⟨hnotify, fun _ => h.1, fun _ => h.2⟩,
          fun h => ⟨h.response hnot, h.login hnot⟩⟩

/-- The notification of a job whose blob is a number. -/
theorem not_handlersReturn_of_number :
    ¬ ∀ (loads : List Byte → Option Json) (line : Line) (c : Client) (n : ShareCounts),
      HandlersReturn loads line c n := by
  intro h
  let text := ascii "\x7b\"method\":\"job\",\"params\":\x7b\"job_id\":\"a\",\"blob\":1\x7d\x7d"
  let val : Json := .object [(ascii "method", .string (ascii "job")),
    (ascii "params", .object [(ascii "job_id", .string (ascii "a")), (ascii "blob", .integer 1)])]
  let loads : List Byte → Option Json := fun t => if t = text then some val else none
  have hloads : loads text = some val := if_pos rfl
  obtain ⟨hline, -⟩ := h loads ⟨text, 0⟩ (.initial 0) ⟨0, 0⟩
  rw [hloads] at hline
  revert hline
  decide +kernel

end XmrMiner
