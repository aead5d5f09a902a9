import XmrMiner.Miner.Submit
import XmrMiner.Stratum.Login

/-!
# From a found nonce to the line that is sent

The processor confirms what the device has found, and the thread queues a copy of its work
for each of the nonces, at most two, by writing the nonce over its own and restoring it
afterwards.  The hash is computed once more when the line is built.

The line is cut to the size of its buffer.  It has room for the identifiers of the
session and of the job as long as both are terminated in their fields; the first one
is not if the pool has sent one of 64 or more characters, and what is read then goes on
into the row of the other pool.

## Main definitions

* `queueShares` — the shares of a scan.
* `ShareHolds` — a share is valid, and its line carries it.

## Main results

* `shareHolds_iff` — when this is so.
-/

namespace XmrMiner

open ByteMem CString

/-- The end of a round of `miner_thread`: the copies that `submit_work` has queued, and
the work of the thread. -/
def queueShares (results : List (BitVec 32)) (work : Work) : List Work × Work :=
  let backup := work.nonce
  match results with
  | [] => ([], work)
  | [n] =>
    let work := work.setNonce n
    ([work], work.setNonce backup)
  | n :: n' :: _ =>
    let work := work.setNonce n
    let work' := work.setNonce n'
    ([work, work'], work'.setNonce backup)

/-- **There is a copy for each result, and the work is restored.** -/
theorem queueShares_eq {results : List (BitVec 32)} (hlen : results.length ≤ 2) (work : Work) :
    queueShares results work = (results.map work.setNonce, work) := by
  match results, hlen with
  | [], _ => rfl
  | [n], _ => simp [queueShares, Work.setNonce_setNonce]
  | [n, n'], _ => simp [queueShares, Work.setNonce_setNonce]

/-- The four bytes of a nonce. -/
def nonceBytes (nonce : BitVec 32) : List Byte :=
  [nonce.extractLsb' 0 8, nonce.extractLsb' 8 8, nonce.extractLsb' 16 8, nonce.extractLsb' 24 8]

/-- The message up to the last digit of the hash. -/
def messageHead (id jobId : List Byte) (nonce : BitVec 32) (hash : Fin 8 → BitVec 32) :
    List Byte :=
  ascii "\x7b\"method\": \"submit\", \"params\": \x7b\"id\": \"" ++ id ++
  ascii "\", \"job_id\": \"" ++ jobId ++
  ascii "\", \"nonce\": \"" ++ bin2hex (nonceBytes nonce) ++
  ascii "\", \"result\": \"" ++ bin2hex (hashBytes hash)

/-- **The share holds**, for the nonce `x` of the results that a scan of the work has
returned, with the identifier of the session that is there when the line is built. -/
structure ShareHolds (H : CnHash) (ids : SessionIds) (behind : List Byte) (work : Work)
    (results : List (BitVec 32)) (x : BitVec 32) : Prop where
  /-- Its hash does not exceed the target. -/
  valid : littleEndian (hostHash H work.data x) ≤ littleEndian work.target
  /-- A copy of the work with the nonce is queued. -/
  queued : work.setNonce x ∈ (queueShares results work).1
  /-- The line carries the nonce and this hash. -/
  carried : messageHead (sessionId ids behind work.dev) work.jobId x (hostHash H work.data x) <+:
    snprintf (submitMessage H (sessionId ids behind work.dev) (work.setNonce x))
  /-- The work of the thread is as before. -/
  restored : (queueShares results work).2 = work

theorem bytes_setNonce (work : Work) (nonce : BitVec 32) :
    bytes (work.setNonce nonce).data 39 4 = nonceBytes nonce := by
  simp [bytes, nonceBytes, Work.setNonce, store32, List.range_succ]

theorem submitMessage_eq (H : CnHash) (id : List Byte) (work : Work) (x : BitVec 32) :
    submitMessage H id (work.setNonce x) =
      messageHead id work.jobId x (hostHash H work.data x) ++ ascii "\"\x7d, \"id\":1\x7d" := by
  rw [submitMessage, submitHash_eq_hostHash, bytes_setNonce, messageHead]
  rfl

theorem length_messageHead (id jobId : List Byte) (nonce : BitVec 32) (hash : Fin 8 → BitVec 32) :
    (messageHead id jobId nonce hash).length = id.length + jobId.length + 152 := by
  simp [messageHead, ascii, length_hashBytes, nonceBytes]
  omega

/-- The line carries the hash if and only if there is room up to its last digit. -/
theorem messageHead_prefix_iff (H : CnHash) (id : List Byte) (work : Work) (x : BitVec 32) :
    messageHead id work.jobId x (hostHash H work.data x) <+:
        snprintf (submitMessage H id (work.setNonce x)) ↔
      id.length + work.jobId.length ≤ 192 := by
  rw [submitMessage_eq, snprintf, List.prefix_take_iff, length_messageHead]
  simp only [List.prefix_append, true_and, JSON_BUF_LEN]
  omega

/-- **A share holds if and only if** the identifiers of the session and of the job have at
most 192 characters together: whatever the device has found in whichever batches. -/
theorem shareHolds_iff {H : CnHash} {work : Work} {throughput maxNonce : BitVec 32}
    {bs : List Batch} {r : ScanResult}
    (hscan : scanhashCryptonight H work.data work.target throughput maxNonce bs = some r)
    {x : BitVec 32} (hx : x ∈ r.results) (ids : SessionIds) (behind : List Byte) :
    ShareHolds H ids behind work r.results x ↔
      (sessionId ids behind work.dev).length + work.jobId.length ≤ 192 := by
  obtain ⟨hlen, hconfirmed⟩ := scanLoop_results hscan
  have hqueue := queueShares_eq hlen work
  constructor
  · intro hshare
    exact (messageHead_prefix_iff H _ work x).mp hshare.carried
  · intro hroom
    refine ⟨validates_iff.mp (hconfirmed x hx), ?_,
      (messageHead_prefix_iff H _ work x).mpr hroom, ?_⟩
    · rw [hqueue]
      exact List.mem_map_of_mem hx
    · rw [hqueue]

/-- Identifiers that are terminated in their fields leave enough room. -/
theorem sessionId_room {ids : SessionIds} {dev : Pool} {id : List Byte}
    (hid : HoldsString (ids dev) id) (behind : List Byte) {work : Work}
    (hjob : work.jobId.length ≤ 128) :
    (sessionId ids behind dev).length + work.jobId.length ≤ 192 := by
  have hlen := hid.length_le
  rw [hid.sessionId_eq]
  omega

/-- A scan that returns two nonces. -/
theorem scanhash_two (target : Fin 8 → BitVec 32) (jobId : List Byte) :
    let work : Work := ⟨fun _ => 7, target, jobId, 0⟩
    ∃ r, scanhashCryptonight (fun _ _ _ => 0) work.data work.target 320 1000 [⟨(5, 6), false⟩] =
      some r ∧ r.results = [5, 6] := by
  intro work
  have hvalid : ∀ x, validates (fun _ _ _ => 0) work.data target x = true := by
    intro x
    have hle : (0 : BitVec 32) ≤ target 7 := BitVec.le_def.mpr (Nat.zero_le _)
    have hfull : fulltest (fun _ => 0) target = true :=
      fulltest_eq_true_iff.mpr (by simp [littleEndian, wordsValue, Nat.ofDigits])
    simp only [validates, hostHash, hfull, hle, decide_true, Bool.and_self]
  have hfound : confirmed (fun _ _ _ => 0) work.data target (5, 6) = [5, 6] := by
    rw [confirmed, if_pos ⟨by decide, hvalid 5⟩, if_pos ⟨by decide, hvalid 6⟩]
  refine ⟨⟨[5, 6], work.nonce - work.nonce + 320, [work.nonce]⟩, ?_, rfl⟩
  rw [scanhashCryptonight, scanLoop, hfound]
  rfl

/-- The first of two results, in a session whose identifier is terminated. -/
theorem shareHolds_iff_first :
    let work : Work := ⟨fun _ => 7, fun _ => 1, ascii "b", 0⟩
    ShareHolds (fun _ _ _ => 0) .initial [] work [5, 6] 5 ↔
      (sessionId .initial [] work.dev).length + work.jobId.length ≤ 192 := by
  intro work
  obtain ⟨r, hscan, hresults⟩ := scanhash_two (fun _ => 1) (ascii "b")
  rw [← hresults]
  exact shareHolds_iff hscan (by rw [hresults]; exact List.mem_cons_self) .initial []

/-- An identifier of 64 characters, with one behind it. -/
def longIds : SessionIds :=
  ![.replicate 64 97, .ofFn fun i => if i.val = 0 then 98 else nul]

/-- The identifier of the session fills its row, and that of the job its field. -/
theorem not_shareHolds_of_long :
    ¬ ∀ (H : CnHash) (work : Work) (throughput maxNonce : BitVec 32) (bs : List Batch)
      (r : ScanResult),
      scanhashCryptonight H work.data work.target throughput maxNonce bs = some r →
      ∀ x ∈ r.results, ∀ (ids : SessionIds) (behind : List Byte),
      ShareHolds H ids behind work r.results x := by
  intro h
  let work : Work := ⟨fun _ => 7, fun _ => 1, List.replicate 128 99, 0⟩
  obtain ⟨r, hscan, hresults⟩ := scanhash_two (fun _ => 1) (List.replicate 128 99)
  have hmem : 5 ∈ r.results := by
    rw [hresults]
    exact List.mem_cons_self
  have hcarried := (h _ work _ _ _ r hscan 5 hmem longIds []).carried
  have hroom := (messageHead_prefix_iff _ _ work 5).mp hcarried
  revert hroom
  decide +kernel

end XmrMiner
