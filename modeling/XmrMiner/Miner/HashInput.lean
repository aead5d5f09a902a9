import XmrMiner.Miner.Submit
import XmrMiner.Stratum.Job

/-!
# What is hashed

From the message of the pool to the hash of a share a blob is copied several times: to
the variables of the pool and the work of its connection, to the published work, to the
private work of a miner thread, and to the device.  The copies are of the length of the
blob at first, of the whole structure then, and of 76 bytes for the device.  All three
hashes, on the device, on the processor and with the share, are of 76 bytes.

## Main definitions

* `patchNonce`, `blobHash` — the hash that is meant.
* `Pipeline`, `PipelineEvent` — the way of a job to the miner thread.
* `Work.Covers` — the three hashes are the one that is meant.

## Main results

* `covers_iff_of_run` — they are if and only if the blob has 76 bytes.
-/

namespace XmrMiner

open ByteMem CString

/-- A blob with another nonce. -/
def patchNonce (blob : List Byte) (nonce : BitVec 32) : List Byte :=
  bytes (store32 (storeBytes (fun _ => 0) 0 blob) 39 nonce) 0 blob.length

/-- The hash of a whole blob with another nonce. -/
def blobHash (H : CnHash) (blob : List Byte) (nonce : BitVec 32) : Fin 8 → BitVec 32 :=
  H (patchNonce blob nonce) (blobVariant (storeBytes (fun _ => 0) 0 blob))

/-- The hash on the device, of the 19 words that it has got, with the nonce in its place. -/
def deviceHash (H : CnHash) (pdata : ByteMem) (nonce : BitVec 32) : Fin 8 → BitVec 32 :=
  let input := bytes pdata 0 (19 * 4)
  H (patchNonce input nonce) (blobVariant pdata)

/-- **The hashes of a work are those of the blob**: the one on the device, the one with
which the processor confirms a nonce, and the one that goes with the share. -/
def Work.Covers (w : Work) (blob : List Byte) : Prop :=
  ∀ (H : CnHash) (nonce : BitVec 32),
    deviceHash H w.data nonce = blobHash H blob nonce ∧
    hostHash H w.data nonce = blobHash H blob nonce ∧
    submitHash H (w.setNonce nonce) = blobHash H blob nonce

/-! ### One work -/

/-- The work holds the blob, as far as it is hashed, and but for the nonce. -/
def Work.Agrees (w : Work) (blob : List Byte) : Prop :=
  ∀ i < 76, (hi : i < blob.length) → i < 39 ∨ 43 ≤ i → w.data i = blob[i]

theorem length_patchNonce (blob : List Byte) (nonce : BitVec 32) :
    (patchNonce blob nonce).length = blob.length := length_bytes _ _ _

/-- The device and the processor hash the same. -/
theorem deviceHash_eq_hostHash (H : CnHash) (pdata : ByteMem) (nonce : BitVec 32) :
    deviceHash H pdata nonce = hostHash H pdata nonce := by
  have hinput :
      patchNonce (bytes pdata 0 (19 * 4)) nonce = bytes (store32 pdata 39 nonce) 0 76 := by
    rw [patchNonce, length_bytes]
    refine bytes_congr fun i hi => store32_congr ?_ _ _
    rw [storeBytes_of_lt _ _ _ (by simpa using hi), getElem_bytes, Nat.zero_add]
  rw [deviceHash, hinput, hostHash]

/-- **The hashes cover the blob if and only if it has 76 bytes.** -/
theorem Work.Agrees.covers_iff {w : Work} {blob : List Byte} (h : w.Agrees blob)
    (hlen : 40 ≤ blob.length ∧ blob.length ≤ 128) : w.Covers blob ↔ blob.length = 76 := by
  constructor
  · intro hcov
    -- a function that tells the lengths of its inputs apart
    have hhost := congrFun ((hcov (fun input _ _ => BitVec.ofNat 32 input.length) 0).2.1) 0
    rw [hostHash, blobHash, length_bytes, length_patchNonce] at hhost
    have := congrArg BitVec.toNat hhost
    simp only [BitVec.toNat_ofNat] at this
    omega
  · intro hsize H nonce
    have hdata : ∀ i < 76, i < 39 ∨ 43 ≤ i →
        w.data i = storeBytes (fun _ => 0) 0 blob i := by
      intro i hi hout
      have hlt : i < blob.length := hsize ▸ hi
      rw [h i hi hlt hout, storeBytes_zero_of_lt _ _ hlt]
    have hinput : bytes (store32 w.data 39 nonce) 0 76 = patchNonce blob nonce := by
      rw [patchNonce, hsize]
      apply bytes_congr
      intro i hi
      rw [Nat.zero_add]
      by_cases hout : i < 39 ∨ 43 ≤ i
      · exact store32_congr (hdata i hi hout) _ _
      · -- a byte of the nonce, which is written on both sides
        unfold store32
        split_ifs <;> first | rfl | omega
    have hhost : hostHash H w.data nonce = blobHash H blob nonce := by
      rw [hostHash, blobHash, hinput, blobVariant_congr (hdata 0 (by omega) (by omega))]
    exact ⟨(deviceHash_eq_hostHash H _ nonce).trans hhost, hhost,
      (submitHash_eq_hostHash H w nonce).trans hhost⟩

/-! ### The way of a job -/

/-- What a job passes through on its way to a miner thread.  The last three fields are
not in the program: they remember the blob of the job that is there. -/
structure Pipeline where
  /-- The variables of the pool. -/
  rpc2 : Rpc2Job
  /-- The work of the connection. -/
  storage : Work
  /-- `g_work2` of the pool. -/
  published : Work
  /-- The miner thread. -/
  miner : Miner
  /-- The blob of the job of the connection. -/
  storageBlob : Option (List Byte)
  /-- The blob of the published job. -/
  publishedBlob : Option (List Byte)
  /-- The blob of the job that was published at the last refresh. -/
  blob : Option (List Byte)

/-- The events: a job is received on the connection of a stratum pool, is published, or is
fetched from an HTTP pool; the refresh block is run; a scan ends.  The last component of a
job is the content of a variable that is not set before. -/
inductive PipelineEvent
  | receive (job : Json) (uninit : BitVec 32)
  | publish
  | fetch (job : Json) (uninit : BitVec 32)
  | refresh
  | scanned (hashes : BitVec 32)

namespace Pipeline

/-- The start. -/
def initial (nThreads thrId : ℕ) (dev : Pool) : Pipeline where
  rpc2 := .initial
  storage := .cleared dev
  published := .cleared dev
  miner := .initial nThreads thrId
  storageBlob := none
  publishedBlob := none
  blob := none

variable (nThreads thrId : ℕ) (dev : Pool)

/-- A job can be received and fetched unless that is a fault. -/
def Possible (s : Pipeline) : PipelineEvent → Prop
  | .receive job uninit => (rpc2JobDecode job uninit s.rpc2 s.storage).isSome = true
  | .fetch job uninit => (rpc2JobDecode job uninit s.rpc2 (.cleared dev)).isSome = true
  | _ => True

instance (s : Pipeline) : (e : PipelineEvent) → Decidable (s.Possible dev e)
  | .receive _ _ | .fetch _ _ => inferInstanceAs (Decidable (_ = _))
  | .publish | .refresh | .scanned _ => inferInstanceAs (Decidable True)

/-- What an event does. -/
def next (s : Pipeline) : PipelineEvent → Pipeline
  | .receive job uninit =>
    match rpc2JobDecode job uninit s.rpc2 s.storage with
    | some (ret, rpc2, storage) =>
      { s with rpc2 := rpc2, storage := storage, storageBlob := if ret then rpc2.blob
        else s.storageBlob }
    | none => s
  | .publish => { s with published := stratumGenWork s.storage, publishedBlob := s.storageBlob }
  | .fetch job uninit =>
    match rpc2JobDecode job uninit s.rpc2 (.cleared dev) with
    | some (true, rpc2, work) =>
      { s with rpc2 := rpc2, published := work, publishedBlob := rpc2.blob }
    | some (false, rpc2, _) => { s with rpc2 := rpc2 }
    | none => s
  | .refresh =>
    { s with miner := s.miner.refresh nThreads thrId dev s.published, blob := s.publishedBlob }
  | .scanned hashes =>
    { s with miner :=
        { s.miner with hashesDone2 := Function.update s.miner.hashesDone2 dev hashes } }

/-- A work holds the blob that is remembered for it, of a length that is accepted. -/
def Holds (w : Work) (remembered : Option (List Byte)) : Prop :=
  ∀ blob, remembered = some blob → (40 ≤ blob.length ∧ blob.length ≤ 128) ∧ w.Agrees blob

/-- The invariant. -/
structure Kept (s : Pipeline) : Prop where
  /-- The blob of the pool. -/
  rpc2 : s.rpc2.LengthOk
  /-- The blob of the connection. -/
  storage : Holds s.storage s.storageBlob
  /-- The published blob. -/
  published : Holds s.published s.publishedBlob
  /-- The blob of the thread. -/
  miner : Holds (s.miner.work2 dev) s.blob

variable {nThreads thrId dev} {s : Pipeline}

theorem kept_initial : (initial nThreads thrId dev).Kept dev where
  rpc2 _ h := by cases h
  storage _ h := by cases h
  published _ h := by cases h
  miner _ h := by cases h

/-- What is decoded into a work. -/
theorem holds_of_decode {job : Json} {uninit : BitVec 32} {rpc2 rpc2' : Rpc2Job}
    {work work' : Work} (h : rpc2JobDecode job uninit rpc2 work = some (true, rpc2', work'))
    (hlen : rpc2.LengthOk) : rpc2'.LengthOk ∧ Holds work' rpc2'.blob := by
  obtain ⟨hlen', hres⟩ := rpc2JobDecode_spec h hlen
  refine ⟨hlen', fun blob hblob => ⟨hlen' blob hblob, ?_⟩⟩
  intro i _ hi _
  rcases hres with ⟨hret, -⟩ | ⟨-, blob', jobId, hblob', rfl⟩
  · cases hret
  · obtain rfl : blob' = blob := Option.some.inj (hblob'.symm.trans hblob)
    exact Rpc2Job.toWork_data _ _ _ _ hi

/-- After the refresh block the private work holds what the published one holds, whether
it was copied or not. -/
theorem holds_refresh {g : Work} {remembered : Option (List Byte)} (h : Holds g remembered)
    (m : Miner) : Holds ((m.refresh nThreads thrId dev g).work2 dev) remembered := by
  intro blob hblob
  obtain ⟨hlen, hagree⟩ := h blob hblob
  refine ⟨hlen, ?_⟩
  intro i h76 hi hout
  rw [Miner.refresh_data nThreads thrId dev m g h76 hout]
  exact hagree i h76 hi hout

theorem Kept.next (h : s.Kept dev) (e : PipelineEvent) :
    (s.next nThreads thrId dev e).Kept dev := by
  cases e with
  | receive job uninit =>
    simp only [Pipeline.next]
    split
    · next ret rpc2 storage hdecode =>
      -- a job that is refused leaves the work of the connection as it was
      cases ret with
      | true =>
        obtain ⟨hlen, hholds⟩ := holds_of_decode hdecode h.rpc2
        exact ⟨hlen, hholds, h.published, h.miner⟩
      | false =>
        obtain ⟨hlen, hres⟩ := rpc2JobDecode_spec hdecode h.rpc2
        rcases hres with ⟨-, rfl⟩ | ⟨hret, -⟩
        · exact ⟨hlen, h.storage, h.published, h.miner⟩
        · cases hret
    · exact h
  | publish => exact ⟨h.rpc2, h.storage, h.storage, h.miner⟩
  | fetch job uninit =>
    simp only [Pipeline.next]
    split
    · next hdecode =>
      obtain ⟨hlen, hholds⟩ := holds_of_decode hdecode h.rpc2
      exact ⟨hlen, h.storage, hholds, h.miner⟩
    · next hdecode =>
      exact ⟨(rpc2JobDecode_spec hdecode h.rpc2).1, h.storage, h.published, h.miner⟩
    · exact h
  | refresh => exact ⟨h.rpc2, h.storage, h.published, holds_refresh h.published s.miner⟩
  | scanned hashes => exact ⟨h.rpc2, h.storage, h.published, h.miner⟩

/-- The steps. -/
def Step (nThreads thrId : ℕ) (dev : Pool) : Pipeline → PipelineEvent → Pipeline → Prop :=
  Trace.machine (Pipeline.Possible dev) (Pipeline.next nThreads thrId dev)

/-- **The hashes cover the blob of the current job, and nothing else, if and only if it
has 76 bytes**, whatever jobs came before. -/
theorem covers_iff_of_run {nThreads thrId : ℕ} {dev : Pool} {es : List PipelineEvent}
    {s : Pipeline} (hrun : Trace.Run (Step nThreads thrId dev) (initial nThreads thrId dev) es s)
    {blob : List Byte} (hblob : s.blob = some blob) :
    (s.miner.work2 dev).Covers blob ↔ blob.length = 76 := by
  have hkept : s.Kept dev := hrun.invariant_state (Pipeline.Kept dev) kept_initial
    fun s e s' hkept hstep => hstep.2 ▸ hkept.next e
  obtain ⟨hlen, hagree⟩ := hkept.miner blob hblob
  exact hagree.covers_iff hlen

/-- A job with a blob. -/
def exampleJob (jobId blob : List Byte) : Json :=
  .object [(ascii "job_id", .string jobId), (ascii "blob", .string (bin2hex blob)),
    (ascii "target", .string (ascii "ffffff00"))]

/-- A job of 76 bytes, after one of 80. -/
theorem covers_iff_of_run_second :
    let blob := List.replicate 76 7
    let es := [.receive (exampleJob (ascii "a") (List.replicate 80 9)) 0, .publish, .refresh,
      .scanned 320, .receive (exampleJob (ascii "b") blob) 0, .publish, .refresh]
    ((es.foldl (Pipeline.next 2 1 0) (initial 2 1 0)).miner.work2 0).Covers blob ↔
      blob.length = 76 :=
  covers_iff_of_run (Trace.Run.of_legal _ (by decide +kernel)) (by decide +kernel)

/-- A job of 77 bytes: its last byte is not hashed. -/
theorem not_covers_of_long :
    ¬ ∀ (nThreads thrId : ℕ) (dev : Pool) (es : List PipelineEvent) (s : Pipeline),
      Trace.Run (Step nThreads thrId dev) (initial nThreads thrId dev) es s →
      ∀ blob, s.blob = some blob → (s.miner.work2 dev).Covers blob := by
  intro h
  have hrun : Trace.Run (Step 2 1 0) (initial 2 1 0) _ _ := Trace.Run.of_legal
    [.receive (exampleJob (ascii "a") (List.replicate 77 7)) 0, .publish, .refresh]
    (by decide +kernel)
  have hcov := h 2 1 0 _ _ hrun (List.replicate 77 7) (by decide +kernel)
  have hhost := congrFun ((hcov (fun input _ _ => BitVec.ofNat 32 input.length) 0).2.1) 0
  rw [hostHash, blobHash, length_bytes, length_patchNonce] at hhost
  revert hhost
  decide

end Pipeline

end XmrMiner
