import Mathlib.Data.Vector.Basic
import XmrMiner.Stratum.Job

/-!
# Messages and the login

A line of the pool is handed to `stratum_handle_method`, which knows the notification of a
job.  While the reply to the login is awaited, the first line that it refuses is taken for
the reply.

The identifier of the session is stored in a row of 64 bytes, by a copy of 64 bytes from
the string, whatever its length: of a shorter one together with what lies behind it, of a
longer one without a terminator.  Reading a row as a string then goes on behind it.

The parser is a parameter.

## Main definitions

* `SessionIds` — `rpc2_id2`.
* `stratumHandleMethod`, `rpc2LoginDecode`, `stratumAuthorize`.
* `LogsIn` — the login is atomic and faithful.

## Main results

* `logsIn_iff` — when it is.
-/

namespace XmrMiner

open ByteMem CString

/-! ### Session identifiers -/

/-- `rpc2_id2`: a row of 64 bytes for each pool, one behind the other. -/
abbrev SessionIds := Pool → List.Vector Byte 64

/-- The rows at the start. -/
def SessionIds.initial : SessionIds := fun _ => .replicate 64 nul

/-- The string that is read from a row, with what lies behind the last one. -/
def sessionId (ids : SessionIds) (behind : List Byte) (dev : Pool) : List Byte :=
  str ((ids dev).toList ++ if dev = 0 then (ids 1).toList ++ behind else behind)

/-- `memcpy` of 64 bytes from a string that lies at the beginning of `heap`; none is a heap
that cannot be read behind the terminator. -/
def copyRow (heap : Option ByteMem) (s : List Byte) : Option (List.Vector Byte 64) :=
  let row (m : ByteMem) : List.Vector Byte 64 := .ofFn fun i => storeBytes m 0 (s ++ [nul]) i
  if 64 ≤ s.length + 1 then some (row fun _ => 0) else heap.map row

/-! ### The handlers -/

/-- What the handlers of a connection read and write. -/
structure Client where
  /-- The jobs of the pools. -/
  rpc2 : Pool → Rpc2Job
  /-- The identifiers of their sessions. -/
  ids : SessionIds
  /-- `work` of the connection. -/
  work : Work

/-- `rpc2_job_decode` into the work of the connection. -/
def Client.decodeJob (job : Json) (uninit : BitVec 32) (c : Client) : Option (Bool × Client) :=
  (rpc2JobDecodePools job uninit c.rpc2 c.work).map fun r =>
    (r.1, { c with rpc2 := r.2.1, work := r.2.2 })

/-- Whether `strcasecmp` returns zero. -/
def strcaseeq (s t : List Byte) : Bool := s.map tolower == t.map tolower

/-- `stratum_handle_method` in JSON-RPC 2.0 mode, for the value of the line. -/
def stratumHandleMethod (val : Option Json) (uninit : BitVec 32) (c : Client) :
    Option (Bool × Client) :=
  match val with
  | none => some (false, c)
  | some val =>
    match (val.objectGet (ascii "method")).bind Json.stringValue with
    | none => some (false, c)
    | some method =>
      if strcaseeq method (ascii "job") then
        c.decodeJob ((val.objectGet (ascii "params")).getD .null) uninit
      else some (false, c)

/-- `rpc2_login_decode`: the value returned and the rows. -/
def rpc2LoginDecode (val : Json) (dev : Pool) (heap : Option ByteMem) (ids : SessionIds) :
    Option (Bool × SessionIds) :=
  match val.objectGet (ascii "result") with
  | none => some (false, ids)
  | some res =>
    match (res.objectGet (ascii "id")).bind Json.stringValue with
    | none => some (false, ids)
    | some id =>
      (copyRow heap id).map fun row =>
        match (res.objectGet (ascii "status")).bind Json.stringValue with
        | none => (false, Function.update ids dev row)
        | some s => (s == ascii "OK", Function.update ids dev row)

/-- A line, and the content of a variable that is not set before. -/
structure Line where
  /-- The characters. -/
  text : List Byte
  /-- The variable. -/
  uninit : BitVec 32

/-- The test of `stratum_authorize` for a reply. -/
def acceptsReply (val : Json) : Bool :=
  match val.objectGet (ascii "result") with
  | none => false
  | some (.bool false) => false
  | some _ =>
    match val.objectGet (ascii "error") with
    | none => true
    | some .null => true
    | some _ => false

section Authorize

variable (loads : List Byte → Option Json)

/-- The loop that waits for the reply: none if the connection is closed. -/
def awaitReply : List Line → Client → Option (Option Line × Client)
  | [], c => some (none, c)
  | line :: lines, c =>
    (stratumHandleMethod (loads line.text) line.uninit c).bind fun r =>
      if r.1 then awaitReply lines r.2 else some (some line, r.2)

/-- What `stratum_authorize` does with the reply.  The value that `rpc2_login_decode`
returns is not looked at. -/
def authorizeReply (val : Option Json) (uninit : BitVec 32) (heap : Option ByteMem) (c : Client) :
    Option (Bool × Client) :=
  match val with
  | none => some (false, c)
  | some val =>
    if acceptsReply val then
      (rpc2LoginDecode val c.work.dev heap c.ids).bind fun r =>
        match (val.objectGet (ascii "result")).bind (·.objectGet (ascii "job")) with
        | none => some (true, { c with ids := r.2 })
        | some job => (Client.decodeJob job uninit { c with ids := r.2 }).map fun r => (true, r.2)
    else some (false, c)

/-- `stratum_authorize` in JSON-RPC 2.0 mode, after its request is sent. -/
def stratumAuthorize (heap : Option ByteMem) (lines : List Line) (c : Client) :
    Option (Bool × Client) :=
  (awaitReply loads lines c).bind fun r =>
    match r.1 with
    | none => some (false, r.2)
    | some reply => authorizeReply (loads reply.text) reply.uninit heap r.2

/-! ### What the login leaves of the rows -/

/-- The row of a pool is overwritten. -/
def Client.setRow (c : Client) (d : Pool) (row : List.Vector Byte 64) : Client :=
  { c with ids := Function.update c.ids d row }

@[simp] theorem Client.setRow_work (c : Client) (d : Pool) (row : List.Vector Byte 64) :
    (c.setRow d row).work = c.work := rfl

theorem Client.decodeJob_setRow (job : Json) (uninit : BitVec 32) (c : Client) (d : Pool)
    (row : List.Vector Byte 64) : (c.setRow d row).decodeJob job uninit =
      (c.decodeJob job uninit).map fun r => (r.1, r.2.setRow d row) := by
  simp only [Client.decodeJob, Option.map_map]
  rfl

/-- What the decoder does with the variables of the connection. -/
theorem Client.decodeJob_eq_some {job : Json} {uninit : BitVec 32} {c c' : Client} {ret : Bool}
    (h : c.decodeJob job uninit = some (ret, c')) :
    ∃ s' work', Decoded job uninit (c.rpc2 c.work.dev) c.work ret s' work' ∧
      c' = { c with rpc2 := Function.update c.rpc2 c.work.dev s', work := work' } := by
  obtain ⟨⟨ret', rpc2, work⟩, hcall, heq⟩ := Option.map_eq_some_iff.mp h
  obtain ⟨rfl, rfl⟩ : ret' = ret ∧ { c with rpc2 := rpc2, work := work } = c' := by
    simpa using heq
  obtain ⟨⟨ret'', s', work'⟩, hdecode, heq'⟩ := Option.map_eq_some_iff.mp hcall
  obtain ⟨rfl, rfl, rfl⟩ : ret'' = ret' ∧ Function.update c.rpc2 c.work.dev s' = rpc2 ∧
      work' = work := by simpa using heq'
  exact ⟨s', work', rpc2JobDecode_decoded hdecode, rfl⟩

/-- A job changes neither the rows nor the pool of the connection. -/
theorem Client.decodeJob_spec {job : Json} {uninit : BitVec 32} {c c' : Client} {ret : Bool}
    (h : c.decodeJob job uninit = some (ret, c')) : c'.ids = c.ids ∧ c'.work.dev = c.work.dev := by
  obtain ⟨s', work', hdecoded, rfl⟩ := Client.decodeJob_eq_some h
  refine ⟨rfl, ?_⟩
  cases hdecoded with
  | refused => rfl
  | again => rfl
  | renewed => rfl

theorem stratumHandleMethod_setRow (val : Option Json) (uninit : BitVec 32) (c : Client) (d : Pool)
    (row : List.Vector Byte 64) : stratumHandleMethod val uninit (c.setRow d row) =
      (stratumHandleMethod val uninit c).map fun r => (r.1, r.2.setRow d row) := by
  unfold stratumHandleMethod
  split
  · rfl
  · split
    · rfl
    · split
      · exact Client.decodeJob_setRow _ _ _ _ _
      · rfl

theorem stratumHandleMethod_spec {val : Option Json} {uninit : BitVec 32} {c c' : Client}
    {ret : Bool} (h : stratumHandleMethod val uninit c = some (ret, c')) :
    c'.ids = c.ids ∧ c'.work.dev = c.work.dev := by
  unfold stratumHandleMethod at h
  split at h
  · obtain ⟨-, rfl⟩ : false = ret ∧ c = c' := by simpa using h
    exact ⟨rfl, rfl⟩
  · split at h
    · obtain ⟨-, rfl⟩ : false = ret ∧ c = c' := by simpa using h
      exact ⟨rfl, rfl⟩
    · split at h
      · exact Client.decodeJob_spec h
      · obtain ⟨-, rfl⟩ : false = ret ∧ c = c' := by simpa using h
        exact ⟨rfl, rfl⟩

/-- **Waiting for the reply leaves the rows as they are.** -/
theorem awaitReply_spec {lines : List Line} {c c' : Client} {reply : Option Line}
    (h : awaitReply loads lines c = some (reply, c')) :
    c'.ids = c.ids ∧ c'.work.dev = c.work.dev := by
  induction lines generalizing c with
  | nil =>
    obtain ⟨-, rfl⟩ : none = reply ∧ c = c' := by simpa [awaitReply] using h
    exact ⟨rfl, rfl⟩
  | cons line lines ih =>
    obtain ⟨⟨ret, c''⟩, hmethod, hrest⟩ := Option.bind_eq_some_iff.mp h
    obtain ⟨hids, hdev⟩ := stratumHandleMethod_spec hmethod
    cases ret with
    | true =>
      obtain ⟨hids', hdev'⟩ := ih hrest
      exact ⟨hids'.trans hids, hdev'.trans hdev⟩
    | false =>
      obtain ⟨-, rfl⟩ : some line = reply ∧ c'' = c' := by simpa using hrest
      exact ⟨hids, hdev⟩

theorem awaitReply_setRow (lines : List Line) (c : Client) (d : Pool)
    (row : List.Vector Byte 64) : awaitReply loads lines (c.setRow d row) =
      (awaitReply loads lines c).map fun r => (r.1, r.2.setRow d row) := by
  induction lines generalizing c with
  | nil => rfl
  | cons line lines ih =>
    rw [awaitReply, awaitReply, stratumHandleMethod_setRow, Option.map_bind, Option.bind_map]
    apply Option.bind_congr
    intro r _
    obtain ⟨ret, c'⟩ := r
    cases ret with
    | true => exact ih c'
    | false => rfl

/-! ### Atomic and faithful -/

/-- The reply to a successful login, with the identifier `id`. -/
structure Json.IsLogin (val : Json) (id : List Byte) : Prop where
  /-- The result has the identifier and says that all is well. -/
  result : ∃ res, val.objectGet (ascii "result") = some res ∧
    res.objectGet (ascii "id") = some (.string id) ∧
    res.objectGet (ascii "status") = some (.string (ascii "OK"))
  /-- There is no error. -/
  error : ∀ err, val.objectGet (ascii "error") = some err → err = .null

/-- The row holds a string with its terminator. -/
def HoldsString (row : List.Vector Byte 64) (s : List Byte) : Prop :=
  nul ∈ row.toList ∧ str row.toList = s

/-- **The login is atomic and faithful**, for the value of the reply and a call that
returns. -/
structure LogsIn (val : Option Json) (heap : Option ByteMem) (lines : List Line) (c : Client)
    (ret : Bool) (c' : Client) : Prop where
  /-- It succeeds if and only if the reply says so. -/
  accepted : ret = true ↔ ∃ v id, val = some v ∧ v.IsLogin id
  /-- If it does the row holds the identifier. -/
  stored : ret = true → ∀ v id, val = some v → v.IsLogin id → HoldsString (c'.ids c.work.dev) id
  /-- If not it is as before. -/
  refused : ret = false → c'.ids c.work.dev = c.ids c.work.dev
  /-- The other row is not changed. -/
  other : ∀ d, d ≠ c.work.dev → c'.ids d = c.ids d
  /-- Nor is it read. -/
  notRead : ∀ d, d ≠ c.work.dev → ∀ row,
    stratumAuthorize loads heap lines (c.setRow d row) = some (ret, c'.setRow d row)

/-- The condition on a reply. -/
def CanLogIn (val : Option Json) : Prop :=
  ∀ v, val = some v → acceptsReply v = true → ∃ id, v.IsLogin id ∧ id.length ≤ 63

end Authorize

/-- A string that leaves room for its terminator. -/
theorem HoldsString.length_le {row : List.Vector Byte 64} {s : List Byte}
    (h : HoldsString row s) : s.length ≤ 63 := by
  obtain ⟨hnul, rfl⟩ := h
  obtain ⟨a, b, hrow⟩ := List.append_of_mem hnul
  have hle : (str row.toList).length ≤ a.length := by
    by_contra hlt
    -- the terminator would be one of the characters
    have hmem : nul ∈ str row.toList := by
      have hpre : a ++ [nul] <+: row.toList := ⟨b, by simp [hrow]⟩
      have hstr : str row.toList <+: row.toList := List.takeWhile_prefix _
      have := List.prefix_of_prefix_length_le hpre hstr (by simp; omega)
      exact this.subset (by simp)
    simpa using List.mem_takeWhile_imp hmem
  have hlen := congrArg List.length hrow
  simp only [List.Vector.toList_length, List.length_append, List.length_cons] at hlen
  omega

/-- The string is read from the row, whatever lies behind it. -/
theorem HoldsString.sessionId_eq {ids : SessionIds} {dev : Pool} {id : List Byte}
    (h : HoldsString (ids dev) id) (behind : List Byte) : sessionId ids behind dev = id := by
  rw [sessionId, str_append_of_mem h.1, h.2]

/-- The row begins with the string and its terminator, as far as they fit. -/
theorem take_prefix_copyRow {heap : Option ByteMem} {s : List Byte} {row : List.Vector Byte 64}
    (h : copyRow heap s = some row) : (s ++ [nul]).take 64 <+: row.toList := by
  have hrow : ∃ m : ByteMem, row = .ofFn fun i => storeBytes m 0 (s ++ [nul]) i := by
    unfold copyRow at h
    split at h
    · exact ⟨_, (Option.some.inj h).symm⟩
    · obtain ⟨m, -, rfl⟩ := Option.map_eq_some_iff.mp h
      exact ⟨m, rfl⟩
  obtain ⟨m, rfl⟩ := hrow
  rw [List.Vector.toList_ofFn, List.prefix_iff_getElem]
  refine ⟨by rw [List.length_ofFn]; exact List.length_take_le _ _, ?_⟩
  intro i hi
  have hi' : i < (s ++ [nul]).length := hi.trans_le (List.length_take_le' _ _)
  rw [List.getElem_ofFn, List.getElem_take]
  exact (storeBytes_zero_of_lt m _ hi').symm

/-- A short string is stored with its terminator. -/
theorem holdsString_copyRow {heap : Option ByteMem} {s : List Byte} {row : List.Vector Byte 64}
    (h : copyRow heap s = some row) (hnul : nul ∉ s) (hlen : s.length ≤ 63) :
    HoldsString row s := by
  have hpre := take_prefix_copyRow h
  rw [List.take_of_length_le (by simp; omega)] at hpre
  obtain ⟨rest, hrest⟩ := hpre
  rw [HoldsString, ← hrest, List.append_assoc]
  exact ⟨by simp, str_append hnul rest⟩

/-- A long one is cut off. -/
theorem toList_copyRow {heap : Option ByteMem} {s : List Byte} {row : List.Vector Byte 64}
    (h : copyRow heap s = some row) (hlen : 64 ≤ s.length) : row.toList = s.take 64 := by
  have hpre := take_prefix_copyRow h
  rw [List.take_append_of_le_length hlen] at hpre
  exact (hpre.eq_of_length (by simp [hlen])).symm

/-! ### The reply -/

theorem Json.IsLogin.acceptsReply {val : Json} {id : List Byte} (h : val.IsLogin id) :
    acceptsReply val = true := by
  obtain ⟨res, hres, hid, -⟩ := h.result
  unfold XmrMiner.acceptsReply
  rw [hres]
  split
  · next hnone => cases hnone
  · next hfalse =>
    -- a result that has an identifier is an object
    cases Option.some.inj hfalse
    cases hid
  · split
    · rfl
    · rfl
    · next err hne herr =>
      exact absurd (h.error err herr) hne

theorem rpc2LoginDecode_isLogin {val : Json} {id : List Byte} (h : val.IsLogin id) (dev : Pool)
    (heap : Option ByteMem) (ids : SessionIds) : rpc2LoginDecode val dev heap ids =
      (copyRow heap id).map fun row => (true, Function.update ids dev row) := by
  obtain ⟨res, hres, hid, hstatus⟩ := h.result
  simp [rpc2LoginDecode, hres, hid, hstatus, Json.stringValue]

theorem rpc2LoginDecode_setRow {val : Json} {dev d : Pool} (hd : d ≠ dev) (heap : Option ByteMem)
    (ids : SessionIds) (row : List.Vector Byte 64) :
    rpc2LoginDecode val dev heap (Function.update ids d row) =
      (rpc2LoginDecode val dev heap ids).map fun r => (r.1, Function.update r.2 d row) := by
  unfold rpc2LoginDecode
  split
  · rfl
  · split
    · rfl
    · rw [Option.map_map]
      apply Option.map_congr
      intro row' _
      rw [Function.comp_apply, Function.update_comm hd]
      split <;> rfl

/-- Another row is left as it is. -/
theorem rpc2LoginDecode_of_ne {val : Json} {dev d : Pool} (hd : d ≠ dev) {heap : Option ByteMem}
    {ids : SessionIds} {r : Bool × SessionIds} (h : rpc2LoginDecode val dev heap ids = some r) :
    r.2 d = ids d := by
  unfold rpc2LoginDecode at h
  split at h
  · rw [← Option.some.inj h]
  · split at h
    · rw [← Option.some.inj h]
    · obtain ⟨row, -, rfl⟩ := Option.map_eq_some_iff.mp h
      split <;> exact Function.update_of_ne hd _ _

/-- The two ways in which the reply is dealt with. -/
theorem authorizeReply_cases {val : Option Json} {uninit : BitVec 32} {heap : Option ByteMem}
    {c c' : Client} {ret : Bool} (h : authorizeReply val uninit heap c = some (ret, c')) :
    (ret = false ∧ c' = c ∧ ∀ v, val = some v → acceptsReply v = false) ∨
      (ret = true ∧ ∃ v r, val = some v ∧ acceptsReply v = true ∧
        rpc2LoginDecode v c.work.dev heap c.ids = some r ∧ c'.ids = r.2) := by
  unfold authorizeReply at h
  split at h
  · obtain ⟨rfl, rfl⟩ : false = ret ∧ c = c' := by simpa using h
    exact Or.inl ⟨rfl, rfl, nofun⟩
  · next v =>
    split at h
    · next haccept =>
      obtain ⟨r, hlogin, hjob⟩ := Option.bind_eq_some_iff.mp h
      split at hjob
      · obtain ⟨rfl, rfl⟩ : true = ret ∧ { c with ids := r.2 } = c' := by simpa using hjob
        exact Or.inr ⟨rfl, v, r, rfl, haccept, hlogin, rfl⟩
      · obtain ⟨⟨ret', c''⟩, hdecode, heq⟩ := Option.map_eq_some_iff.mp hjob
        obtain ⟨rfl, rfl⟩ : true = ret ∧ c'' = c' := by simpa using heq
        exact Or.inr ⟨rfl, v, r, rfl, haccept, hlogin, (Client.decodeJob_spec hdecode).1⟩
    · next hrefuse =>
      obtain ⟨rfl, rfl⟩ : false = ret ∧ c = c' := by simpa using h
      exact Or.inl ⟨rfl, rfl, fun v' hv' => by
        obtain rfl := Option.some.inj hv'
        simpa using hrefuse⟩

theorem authorizeReply_setRow {val : Option Json} {uninit : BitVec 32} {heap : Option ByteMem}
    {c : Client} {d : Pool} (hd : d ≠ c.work.dev) (row : List.Vector Byte 64) :
    authorizeReply val uninit heap (c.setRow d row) =
      (authorizeReply val uninit heap c).map fun r => (r.1, r.2.setRow d row) := by
  unfold authorizeReply
  split
  · rfl
  · split
    · change Option.bind (rpc2LoginDecode _ c.work.dev heap (Function.update c.ids d row)) _ = _
      rw [rpc2LoginDecode_setRow hd, Option.map_bind, Option.bind_map]
      apply Option.bind_congr
      intro r _
      rw [Function.comp_apply, Function.comp_apply]
      split
      · rfl
      · next job _ =>
        have hframe := Client.decodeJob_setRow job uninit { c with ids := r.2 } d row
        change Option.map _ ((Client.setRow { c with ids := r.2 } d row).decodeJob job uninit) = _
        rw [hframe, Option.map_map, Option.map_map]
        rfl
    · rfl

theorem stratumAuthorize_setRow (loads : List Byte → Option Json) {heap : Option ByteMem}
    (lines : List Line) {c : Client} {d : Pool} (hd : d ≠ c.work.dev)
    (row : List.Vector Byte 64) : stratumAuthorize loads heap lines (c.setRow d row) =
      (stratumAuthorize loads heap lines c).map fun r => (r.1, r.2.setRow d row) := by
  rw [stratumAuthorize, stratumAuthorize, awaitReply_setRow, Option.map_bind, Option.bind_map]
  apply Option.bind_congr
  intro r hr
  obtain ⟨reply, c'⟩ := r
  cases reply with
  | none => rfl
  | some reply =>
    have hdev := (awaitReply_spec loads hr).2
    exact authorizeReply_setRow (by rwa [hdev]) row

/-- **The login is atomic and faithful if and only if** the test of `stratum_authorize`
refuses the reply, or it is one to a successful login with an identifier of at most 63
characters. -/
theorem logsIn_iff {loads : List Byte → Option Json} {heap : Option ByteMem} {lines : List Line}
    {c c' c'' : Client} {reply : Line} {ret : Bool}
    (hreply : awaitReply loads lines c = some (some reply, c''))
    (h : stratumAuthorize loads heap lines c = some (ret, c'))
    (hnul : ∀ v id, loads reply.text = some v → v.IsLogin id → nul ∉ id) :
    LogsIn loads (loads reply.text) heap lines c ret c' ↔ CanLogIn (loads reply.text) := by
  obtain ⟨hids, hdev⟩ := awaitReply_spec loads hreply
  have hcall : authorizeReply (loads reply.text) reply.uninit heap c'' = some (ret, c') := by
    simpa [stratumAuthorize, hreply] using h
  have hread : ∀ d, d ≠ c.work.dev → ∀ row,
      stratumAuthorize loads heap lines (c.setRow d row) = some (ret, c'.setRow d row) := by
    intro d hd row
    rw [stratumAuthorize_setRow loads lines hd, h]
    rfl
  rcases authorizeReply_cases hcall with ⟨rfl, rfl, hrefuse⟩ | ⟨rfl, v, r, hv, haccept, hlogin, hr⟩
  · -- refused, and so it is no reply to a successful login
    refine iff_of_true ⟨?_, nofun, fun _ => by rw [hids], fun d _ => by rw [hids], hread⟩ ?_
    · refine ⟨nofun, ?_⟩
      intro hok
      obtain ⟨v, id, hv, hid⟩ := hok
      exact absurd hid.acceptsReply (by simp [hrefuse v hv])
    · intro v hv haccept
      exact absurd haccept (by simp [hrefuse v hv])
  · constructor
    · intro hok v' hv' _
      obtain ⟨v'', id, hv'', hid⟩ := hok.accepted.mp rfl
      obtain rfl : v'' = v' := Option.some.inj (hv''.symm.trans hv')
      exact ⟨id, hid, (hok.stored rfl v'' id hv'' hid).length_le⟩
    · intro hcan
      obtain ⟨id, hid, hlen⟩ := hcan v hv haccept
      -- the row is a copy of the identifier
      rw [rpc2LoginDecode_isLogin hid, hids, hdev] at hlogin
      obtain ⟨row, hrow, rfl⟩ := Option.map_eq_some_iff.mp hlogin
      change c'.ids = Function.update c.ids c.work.dev row at hr
      refine ⟨iff_of_true rfl ⟨v, id, hv, hid⟩, fun _ v' id' hv' hid' => ?_, nofun,
        fun d hd => ?_, hread⟩
      · obtain rfl := Option.some.inj (hv.symm.trans hv')
        obtain ⟨res, hres, hget, -⟩ := hid.result
        obtain ⟨res', hres', hget', -⟩ := hid'.result
        obtain rfl := Option.some.inj (hres.symm.trans hres')
        obtain rfl : id = id' := by simpa [hget] using hget'
        rw [hr, Function.update_self]
        exact holdsString_copyRow hrow (hnul v id hv hid) hlen
      · rw [hr]
        exact Function.update_of_ne hd _ _

/-- A connection at the start. -/
def Client.initial (dev : Pool) : Client := ⟨fun _ => .initial, .initial, .cleared dev⟩

/-- A reply to a login. -/
def loginText (status : String) : List Byte :=
  ascii "\x7b\"id\":1,\"error\":null,\"result\":\x7b\"id\":\"a1b2\",\"status\":\"" ++
    ascii status ++ ascii "\"\x7d\x7d"

/-- Its value. -/
def loginReply (status : String) : Json :=
  .object [(ascii "id", .integer 1), (ascii "error", .null),
    (ascii "result", .object [(ascii "id", .string (ascii "a1b2")),
      (ascii "status", .string (ascii status))])]

/-- What the parser makes of the line. -/
def loadsLogin (status : String) (text : List Byte) : Option Json :=
  if text = loginText status then some (loginReply status) else none

theorem loadsLogin_loginText (status : String) :
    loadsLogin status (loginText status) = some (loginReply status) := if_pos rfl

/-- The reply is the first line. -/
theorem awaitReply_login (status : String) (dev : Pool) :
    awaitReply (loadsLogin status) [⟨loginText status, 0⟩] (.initial dev) =
      some (some ⟨loginText status, 0⟩, .initial dev) := by
  rw [awaitReply, loadsLogin_loginText]
  rfl

/-- A login of the main pool. -/
theorem logsIn_iff_first :
    ∃ r, stratumAuthorize (loadsLogin "OK") (some fun _ => 0) [⟨loginText "OK", 0⟩] (.initial 0) =
        some r ∧
      (LogsIn (loadsLogin "OK") (loadsLogin "OK" (loginText "OK")) (some fun _ => 0)
          [⟨loginText "OK", 0⟩] (.initial 0) r.1 r.2 ↔
        CanLogIn (loadsLogin "OK" (loginText "OK"))) := by
  obtain ⟨r, hr⟩ : ∃ r, stratumAuthorize (loadsLogin "OK") (some fun _ => 0)
      [⟨loginText "OK", 0⟩] (.initial 0) = some r := by
    rw [stratumAuthorize, awaitReply_login, Option.bind_some]
    exact Option.isSome_iff_exists.mp (by decide +kernel)
  refine ⟨r, hr, logsIn_iff (awaitReply_login "OK" 0) hr ?_⟩
  intro v id hv hid
  obtain rfl := Option.some.inj ((loadsLogin_loginText "OK").symm.trans hv)
  obtain ⟨res, hres, hget, -⟩ := hid.result
  obtain rfl : _ = res := Option.some.inj hres
  have hget' : some (Json.string (ascii "a1b2")) = some (.string id) := hget
  obtain rfl : ascii "a1b2" = id := by simpa using hget'
  decide +kernel

/-- A login that the pool denies. -/
theorem not_logsIn_of_status :
    ¬ ∀ (loads : List Byte → Option Json) (heap : Option ByteMem) (lines : List Line)
      (c c' c'' : Client) (reply : Line) (ret : Bool),
      awaitReply loads lines c = some (some reply, c'') →
      stratumAuthorize loads heap lines c = some (ret, c') →
      LogsIn loads (loads reply.text) heap lines c ret c' := by
  intro h
  obtain ⟨⟨ret, c'⟩, hr⟩ : ∃ r, stratumAuthorize (loadsLogin "DENIED") (some fun _ => 0)
      [⟨loginText "DENIED", 0⟩] (.initial 0) = some r := by
    rw [stratumAuthorize, awaitReply_login, Option.bind_some]
    exact Option.isSome_iff_exists.mp (by decide +kernel)
  have hret : ret = true := by
    have hmap : (stratumAuthorize (loadsLogin "DENIED") (some fun _ => 0)
        [⟨loginText "DENIED", 0⟩] (.initial 0)).map Prod.fst = some true := by
      rw [stratumAuthorize, awaitReply_login, Option.bind_some]
      decide +kernel
    rw [hr] at hmap
    exact Option.some.inj hmap
  obtain ⟨v, id, hv, hid⟩ := (h _ _ _ _ _ _ _ _ (awaitReply_login "DENIED" 0) hr).accepted.mp hret
  obtain rfl := Option.some.inj ((loadsLogin_loginText "DENIED").symm.trans hv)
  obtain ⟨res, hres, -, hstatus⟩ := hid.result
  obtain rfl : _ = res := Option.some.inj hres
  have hdenied := congrArg (Option.bind · Json.stringValue) hstatus
  revert hdenied
  decide +kernel

end XmrMiner
