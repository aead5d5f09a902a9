import Mathlib.Algebra.Order.Field.Rat
import Mathlib.Order.WithBot
import XmrMiner.Miner.Work
import XmrMiner.Stratum.Json
import XmrMiner.Util.Hex

/-!
# Decoding a job

`rpc2_job_decode` takes the blob, the target and the identifier of a job over into the
variables of its pool, and from there into a work.  A job with an empty blob leaves the
variables and decodes the job before once more.  The blob is copied over the beginning
of the work's data; what lies behind it stays.

A null pointer that is handed on to the string functions is a fault.

## Main definitions

* `Rpc2Job` — the variables of a pool.
* `jobjBinary`, `rpc2JobDecode`, `rpc2JobDecodePools`.
* `Decoded` — the ways in which a call returns.
* `DecodesWhole` — all or nothing.

## Main results

* `rpc2JobDecode_decoded` — what a call can do.
* `decodesWhole_iff` — when a call is all-or-nothing.
-/

namespace XmrMiner

open ByteMem CString

/-- The variables of a pool. -/
structure Rpc2Job where
  /-- `rpc2_blob2`, with its length `rpc2_bloblen2`. -/
  blob : Option (List Byte)
  /-- `rpc2_target2`. -/
  target : BitVec 32
  /-- `rpc2_job_id2`. -/
  jobId : Option (List Byte)
  /-- `pool_difficulty`. -/
  poolDifficulty : WithTop ℚ

/-- The variables at the start. -/
def Rpc2Job.initial : Rpc2Job := ⟨none, 0, none, ((-1 : ℚ) : WithTop ℚ)⟩

/-- `jobj_binary`: the bytes written to the buffer, and the value returned. -/
def jobjBinary (obj : Json) (key : List Byte) (buflen : ℕ) : List Byte × Bool :=
  match (obj.objectGet key).bind Json.stringValue with
  | some hexstr => hex2bin hexstr buflen
  | none => ([], false)

/-- The target of a job, in a variable that is not set before. -/
def jobTarget (job : Json) (uninit : BitVec 32) : BitVec 32 :=
  load32 (storeBytes (store32 (fun _ => 0) 0 uninit) 0 (jobjBinary job (ascii "target") 4).1) 0

/-- The difficulty of a target. -/
def targetDifficulty (target : BitVec 32) : WithTop ℚ :=
  if target = 0 then ⊤ else ((0xffffffff / target.toNat : ℚ) : WithTop ℚ)

/-- Whether the length of a blob is accepted, in characters. -/
def acceptsLength (blobLen : ℕ) : Bool :=
  !(blobLen % 2 != 0 || blobLen / 2 < 40 && blobLen != 0 || 128 < blobLen / 2)

/-- The new target of a pool. -/
def Rpc2Job.setTarget (s : Rpc2Job) (target : BitVec 32) : Rpc2Job :=
  if s.target ≠ target then
    { s with target := target, poolDifficulty := targetDifficulty target }
  else s

/-- The job of a pool in a work. -/
def Rpc2Job.toWork (blob jobId : List Byte) (s : Rpc2Job) (work : Work) : Work :=
  { work with
    data := storeBytes work.data 0 blob
    target := Function.update (fun _ => 0xffffffff) 7 s.target
    jobId := jobId.take 128 }

/-- The second part of `rpc2_job_decode`: the variables are copied to the work. -/
def Rpc2Job.copyTo (s : Rpc2Job) (work : Work) : Option (Bool × Rpc2Job × Work) :=
  match s.blob with
  | none => some (false, s, work)
  | some blob => s.jobId.map fun jobId => (true, s, s.toWork blob jobId work)

/-- The first part, from the length of the blob on; the identifier is looked at only if
the blob can be read. -/
def Rpc2Job.takeOver (job jobId : Json) (hexblob : List Byte) (uninit : BitVec 32) (s : Rpc2Job)
    (work : Work) : Option (Bool × Rpc2Job × Work) :=
  if acceptsLength hexblob.length = false then some (false, s, work)
  else if hexblob.length = 0 then s.copyTo work
  else
    let blob := hex2bin hexblob (hexblob.length / 2)
    if blob.2 = false then some (false, s, work)
    else jobId.stringValue.bind fun jobId =>
      { { s with blob := some blob.1 }.setTarget (jobTarget job uninit) with
        jobId := some jobId }.copyTo work

/-- `rpc2_job_decode`: the value returned, the variables of the pool and the work; none
if it does not return. -/
def rpc2JobDecode (job : Json) (uninit : BitVec 32) (s : Rpc2Job) (work : Work) :
    Option (Bool × Rpc2Job × Work) :=
  match job.objectGet (ascii "job_id"), job.objectGet (ascii "blob") with
  | some jobId, some blob =>
    blob.stringValue.bind fun hexblob => s.takeOver job jobId hexblob uninit work
  | _, _ => some (false, s, work)

/-- `rpc2_job_decode` with the variables of both pools: it uses those of `work->dev`. -/
def rpc2JobDecodePools (job : Json) (uninit : BitVec 32) (rpc2 : Pool → Rpc2Job) (work : Work) :
    Option (Bool × (Pool → Rpc2Job) × Work) :=
  (rpc2JobDecode job uninit (rpc2 work.dev) work).map fun r =>
    (r.1, Function.update rpc2 work.dev r.2.1, r.2.2)

/-! ### What a call can do -/

/-- The job has an identifier `id` and a blob that is not empty, of a length that is
accepted and read by `hex2bin`. -/
structure Json.OffersBlob (job id : Json) (hexblob : List Byte) : Prop where
  /-- There is an identifier, of any type. -/
  id : job.objectGet (ascii "job_id") = some id
  /-- The blob is a string. -/
  blob : job.objectGet (ascii "blob") = some (.string hexblob)
  /-- It is not empty. -/
  nonempty : hexblob ≠ []
  /-- Its length is accepted. -/
  length : acceptsLength hexblob.length = true
  /-- It can be read. -/
  digits : (hex2bin hexblob (hexblob.length / 2)).2 = true

/-- The job has an identifier and an empty blob. -/
def Json.OffersAgain (job : Json) : Prop :=
  (job.objectGet (ascii "job_id")).isSome = true ∧
    job.objectGet (ascii "blob") = some (.string [])

/-- The variables after a new job. -/
def Rpc2Job.renew (job : Json) (uninit : BitVec 32) (hexblob jobId : List Byte) (s : Rpc2Job) :
    Rpc2Job :=
  { { s with blob := some (hex2bin hexblob (hexblob.length / 2)).1 }.setTarget
      (jobTarget job uninit) with
    jobId := some jobId }

/-- **The three ways in which a call returns**: the job is refused, the one before is
decoded once more, or a new one is taken over. -/
inductive Decoded (job : Json) (uninit : BitVec 32) (s : Rpc2Job) (work : Work) :
    Bool → Rpc2Job → Work → Prop
  | refused (hnew : ∀ id hexblob, ¬ job.OffersBlob id hexblob)
      (hagain : job.OffersAgain → s.blob = none) : Decoded job uninit s work false s work
  | again {blob jobId : List Byte} (hmsg : job.OffersAgain) (hblob : s.blob = some blob)
      (hjobId : s.jobId = some jobId) :
      Decoded job uninit s work true s (s.toWork blob jobId work)
  | renewed {hexblob jobId : List Byte} (hmsg : job.OffersBlob (.string jobId) hexblob) :
      Decoded job uninit s work true (s.renew job uninit hexblob jobId)
        ((s.renew job uninit hexblob jobId).toWork
          (hex2bin hexblob (hexblob.length / 2)).1 jobId work)

theorem Rpc2Job.setTarget_blob (s : Rpc2Job) (target : BitVec 32) :
    (s.setTarget target).blob = s.blob := by
  unfold Rpc2Job.setTarget
  split <;> rfl

theorem Rpc2Job.setTarget_target (s : Rpc2Job) (target : BitVec 32) :
    (s.setTarget target).target = target := by
  unfold Rpc2Job.setTarget
  split
  · rfl
  · next hsame => exact not_not.mp hsame

section Renew

variable {job : Json} {uninit : BitVec 32} {hexblob jobId : List Byte} {s : Rpc2Job}

theorem Rpc2Job.renew_blob : (s.renew job uninit hexblob jobId).blob =
    some (hex2bin hexblob (hexblob.length / 2)).1 := Rpc2Job.setTarget_blob _ _

theorem Rpc2Job.renew_target :
    (s.renew job uninit hexblob jobId).target = jobTarget job uninit :=
  Rpc2Job.setTarget_target _ _

theorem Rpc2Job.renew_jobId : (s.renew job uninit hexblob jobId).jobId = some jobId := rfl

/-- All characters were read, so that the blob has half their number. -/
theorem Json.OffersBlob.length_blob {id : Json} (h : job.OffersBlob id hexblob) :
    (hex2bin hexblob (hexblob.length / 2)).1.length = hexblob.length / 2 := by
  have hread : hex2bin hexblob (hexblob.length / 2) =
      ((hex2bin hexblob (hexblob.length / 2)).1, true) := Prod.ext rfl h.digits
  exact (hex2bin_eq_true hread).1

end Renew

theorem Json.stringValue_eq_some {j : Json} {s : List Byte} :
    j.stringValue = some s ↔ j = .string s := by
  cases j <;> simp [Json.stringValue]

/-- The second part without a blob, and with one. -/
theorem Rpc2Job.copyTo_eq_some {s s' : Rpc2Job} {work work' : Work} {ret : Bool}
    (h : s.copyTo work = some (ret, s', work')) :
    (s.blob = none ∧ ret = false ∧ s' = s ∧ work' = work) ∨
      ∃ blob jobId, s.blob = some blob ∧ s.jobId = some jobId ∧ ret = true ∧ s' = s ∧
        work' = s.toWork blob jobId work := by
  unfold Rpc2Job.copyTo at h
  split at h
  · next hnone =>
    obtain ⟨rfl, rfl, rfl⟩ : false = ret ∧ s = s' ∧ work = work' := by simpa using h
    exact Or.inl ⟨hnone, rfl, rfl, rfl⟩
  · next blob hblob =>
    obtain ⟨jobId, hjobId, heq⟩ := Option.map_eq_some_iff.mp h
    obtain ⟨rfl, rfl, rfl⟩ : true = ret ∧ s = s' ∧ s.toWork blob jobId work = work' := by
      simpa using heq
    exact Or.inr ⟨blob, jobId, hblob, hjobId, rfl, rfl, rfl⟩

/-- The first part, for a blob that is a string. -/
theorem Rpc2Job.takeOver_decoded {job id : Json} {hexblob : List Byte} {uninit : BitVec 32}
    {s s' : Rpc2Job} {work work' : Work} {ret : Bool}
    (hid : job.objectGet (ascii "job_id") = some id)
    (hblob : job.objectGet (ascii "blob") = some (.string hexblob))
    (h : s.takeOver job id hexblob uninit work = some (ret, s', work')) :
    Decoded job uninit s work ret s' work' := by
  -- a blob that is offered is this one
  have hsame : ∀ id' hexblob', job.OffersBlob id' hexblob' → hexblob' = hexblob := by
    intro id' hexblob' hoffer
    simpa [hblob] using hoffer.blob.symm
  have hempty : job.OffersAgain → hexblob = [] := by
    intro hoffer
    simpa [hblob] using hoffer.2
  unfold Rpc2Job.takeOver at h
  split at h
  · next hlength =>
    obtain ⟨rfl, rfl, rfl⟩ : false = ret ∧ s = s' ∧ work = work' := by simpa using h
    refine .refused ?_ ?_
    · intro id' hexblob' hoffer
      obtain rfl := hsame _ _ hoffer
      exact absurd hoffer.length (by rw [hlength]; decide)
    · intro hoffer
      obtain rfl := hempty hoffer
      exact absurd hlength (by decide)
  · next haccept =>
    split at h
    · -- an empty blob: the job before is copied once more
      next hzero =>
      obtain rfl := List.length_eq_zero_iff.mp hzero
      rcases Rpc2Job.copyTo_eq_some h with ⟨hnone, rfl, rfl, rfl⟩ |
        ⟨blob, jobId, hsome, hjobId, rfl, rfl, rfl⟩
      · refine .refused ?_ fun _ => hnone
        intro id' hexblob' hoffer
        exact hoffer.nonempty (hsame _ _ hoffer)
      · exact .again ⟨by simp [hid], hblob⟩ hsome hjobId
    · next hne =>
      have hne' : hexblob ≠ [] := fun hnil => hne (by rw [hnil]; rfl)
      dsimp only at h
      split at h
      · next hhex =>
        obtain ⟨rfl, rfl, rfl⟩ : false = ret ∧ s = s' ∧ work = work' := by simpa using h
        refine .refused ?_ fun hoffer => absurd (hempty hoffer) hne'
        intro id' hexblob' hoffer
        obtain rfl := hsame _ _ hoffer
        exact absurd hoffer.digits (by rw [hhex]; decide)
      · next hhex =>
        obtain ⟨jobId, hjobId, hcopy⟩ := Option.bind_eq_some_iff.mp h
        obtain rfl := Json.stringValue_eq_some.mp hjobId
        change (s.renew job uninit hexblob jobId).copyTo work = _ at hcopy
        -- the variables have just been set
        rcases Rpc2Job.copyTo_eq_some hcopy with ⟨hnone, -⟩ |
          ⟨blob, jobId', hsome, hjobId', rfl, rfl, rfl⟩
        · rw [Rpc2Job.renew_blob] at hnone
          cases hnone
        · obtain rfl := Option.some.inj (Rpc2Job.renew_blob.symm.trans hsome)
          obtain rfl := Option.some.inj (Rpc2Job.renew_jobId.symm.trans hjobId')
          exact .renewed ⟨hid, hblob, hne', by simpa using haccept, by simpa using hhex⟩

theorem rpc2JobDecode_decoded {job : Json} {uninit : BitVec 32} {s s' : Rpc2Job}
    {work work' : Work} {ret : Bool}
    (h : rpc2JobDecode job uninit s work = some (ret, s', work')) :
    Decoded job uninit s work ret s' work' := by
  unfold rpc2JobDecode at h
  split at h
  · next id blob hid hblob =>
    obtain ⟨hexblob, hstring, htake⟩ := Option.bind_eq_some_iff.mp h
    obtain rfl := Json.stringValue_eq_some.mp hstring
    exact Rpc2Job.takeOver_decoded hid hblob htake
  · next hmissing =>
    obtain ⟨rfl, rfl, rfl⟩ : false = ret ∧ s = s' ∧ work = work' := by simpa using h
    refine .refused ?_ ?_
    · intro id hexblob hoffer
      exact hmissing _ _ hoffer.id hoffer.blob
    · intro hoffer
      obtain ⟨id, hid⟩ := Option.isSome_iff_exists.mp hoffer.1
      exact (hmissing _ _ hid hoffer.2).elim

/-! ### What is left behind -/

/-- The lengths of blobs that are accepted. -/
def Rpc2Job.LengthOk (s : Rpc2Job) : Prop :=
  ∀ blob, s.blob = some blob → 40 ≤ blob.length ∧ blob.length ≤ 128

theorem acceptsLength_iff {blobLen : ℕ} (hne : blobLen ≠ 0) :
    acceptsLength blobLen = true ↔ blobLen % 2 = 0 ∧ 40 ≤ blobLen / 2 ∧ blobLen / 2 ≤ 128 := by
  simp [acceptsLength, hne]
  omega

/-- **A call that returns true leaves the blob of the pool at the beginning of the work's
data, and the lengths of blobs within their bounds**; one that returns false leaves the
work as it was. -/
theorem rpc2JobDecode_spec {job : Json} {uninit : BitVec 32} {s s' : Rpc2Job} {work work' : Work}
    {ret : Bool} (h : rpc2JobDecode job uninit s work = some (ret, s', work'))
    (hlen : s.LengthOk) :
    s'.LengthOk ∧ ((ret = false ∧ work' = work) ∨ (ret = true ∧ ∃ blob jobId,
      s'.blob = some blob ∧ work' = s'.toWork blob jobId work)) := by
  cases rpc2JobDecode_decoded h with
  | refused => exact ⟨hlen, Or.inl ⟨rfl, rfl⟩⟩
  | again _ hblob => exact ⟨hlen, Or.inr ⟨rfl, _, _, hblob, rfl⟩⟩
  | @renewed hexblob jobId hmsg =>
    refine ⟨?_, Or.inr ⟨rfl, _, _, Rpc2Job.renew_blob, rfl⟩⟩
    intro b hb
    obtain rfl := Option.some.inj (Rpc2Job.renew_blob.symm.trans hb)
    have hne : hexblob.length ≠ 0 := fun hzero => hmsg.nonempty (List.length_eq_zero_iff.mp hzero)
    obtain ⟨-, hlow, hhigh⟩ := (acceptsLength_iff hne).mp hmsg.length
    have hsize := hmsg.length_blob
    omega

/-- The blob at the beginning of the data. -/
theorem Rpc2Job.toWork_data (s : Rpc2Job) (blob jobId : List Byte) (work : Work) {i : ℕ}
    (hi : i < blob.length) : (s.toWork blob jobId work).data i = blob[i] :=
  storeBytes_zero_of_lt work.data blob hi

/-! ### All or nothing -/

/-- The message has a job whose fields are all well-formed. -/
structure Json.IsJob (job : Json) (blob : List Byte) (target : BitVec 32) (jobId : List Byte) :
    Prop where
  /-- The blob is given by pairs of digits. -/
  blob : ∃ hexblob, job.objectGet (ascii "blob") = some (.string hexblob) ∧
    hexBytes hexblob = some blob
  /-- The target is given by eight digits. -/
  target : ∃ hexstr bs, job.objectGet (ascii "target") = some (.string hexstr) ∧
    hexstr.length = 8 ∧ hexBytes hexstr = some bs ∧ target = load32 (storeBytes (fun _ => 0) 0 bs) 0
  /-- The identifier is a string. -/
  jobId : job.objectGet (ascii "job_id") = some (.string jobId)

/-- The work holds a job. -/
structure Work.Describes (w : Work) (blob : List Byte) (target : BitVec 32) (jobId : List Byte) :
    Prop where
  /-- The data begin with the blob. -/
  data : ∀ i, (hi : i < blob.length) → w.data i = blob[i]
  /-- The target is in the last word, the others are `0xffffffff`. -/
  target : w.target = Function.update (fun _ => 0xffffffff) 7 target
  /-- The identifier. -/
  jobId : w.jobId = jobId

/-- **A call is all-or-nothing.** -/
structure DecodesWhole (job : Json) (rpc2 : Pool → Rpc2Job) (work : Work) (ret : Bool)
    (rpc2' : Pool → Rpc2Job) (work' : Work) : Prop where
  /-- If it returns false nothing is changed. -/
  refused : ret = false → rpc2' = rpc2 ∧ work' = work
  /-- If it returns true and the blob is not empty, the job is that of the message. -/
  renewed : ret = true → job.objectGet (ascii "blob") ≠ some (.string []) →
    ∃ blob target jobId, job.IsJob blob target jobId ∧ work'.Describes blob target jobId ∧
      (rpc2' work.dev).blob = some blob ∧ (rpc2' work.dev).target = target ∧
      (rpc2' work.dev).jobId = some jobId
  /-- If it returns true and the blob is empty, the job is the one before. -/
  again : ret = true → job.objectGet (ascii "blob") = some (.string []) →
    rpc2' = rpc2 ∧ ∃ blob jobId, (rpc2 work.dev).blob = some blob ∧
      (rpc2 work.dev).jobId = some jobId ∧ work'.Describes blob (rpc2 work.dev).target jobId
  /-- The other pool is not touched. -/
  other : ∀ d, d ≠ work.dev → rpc2' d = rpc2 d

/-- The condition on a job, and on the identifier of the job before. -/
structure Rpc2Job.CanDecode (s : Rpc2Job) (job : Json) : Prop where
  /-- A new job has digits only, eight for the target, and no long identifier. -/
  new : ∀ id hexblob, job.OffersBlob id hexblob → (hexBytes hexblob).isSome = true ∧
    (∃ hexstr, job.objectGet (ascii "target") = some (.string hexstr) ∧ hexstr.length = 8 ∧
      (hexBytes hexstr).isSome = true) ∧ ∀ jobId, id = .string jobId → jobId.length ≤ 128
  /-- The job before has no long identifier. -/
  again : job.OffersAgain → s.blob.isSome = true → ∀ jobId, s.jobId = some jobId →
    jobId.length ≤ 128

theorem Rpc2Job.toWork_describes_iff {s : Rpc2Job} {blob jobId : List Byte} {work : Work} :
    (s.toWork blob jobId work).Describes blob s.target jobId ↔ jobId.length ≤ 128 := by
  constructor
  · intro h
    exact (List.take_eq_self_iff jobId).mp h.jobId
  · intro hlen
    exact ⟨fun i hi => s.toWork_data blob jobId work hi, rfl, List.take_of_length_le hlen⟩

/-- Four bytes of a target are all that is read of it. -/
theorem jobTarget_of_length {job : Json} {uninit : BitVec 32}
    (hlen : (jobjBinary job (ascii "target") 4).1.length = 4) : jobTarget job uninit =
      load32 (storeBytes (fun _ => 0) 0 (jobjBinary job (ascii "target") 4).1) 0 := by
  rw [jobTarget]
  apply load32_congr
  intro i hi
  have hi' : i < (jobjBinary job (ascii "target") 4).1.length := by omega
  rw [Nat.zero_add, storeBytes_zero_of_lt _ _ hi', storeBytes_zero_of_lt _ _ hi']

/-- A target of eight digits is read whole, whatever was in the variable. -/
theorem jobTarget_eq {job : Json} {uninit : BitVec 32} {hexstr bs : List Byte}
    (hget : job.objectGet (ascii "target") = some (.string hexstr)) (hlen : hexstr.length = 8)
    (hbytes : hexBytes hexstr = some bs) :
    jobTarget job uninit = load32 (storeBytes (fun _ => 0) 0 bs) 0 := by
  have hread := hex2bin_of_hexBytes hbytes
  have hsize : bs.length = 4 := by
    have := (hex2bin_eq_true hread).2
    omega
  have hbinary : (jobjBinary job (ascii "target") 4).1 = bs := by
    rw [hsize] at hread
    simp [jobjBinary, hget, Json.stringValue, hread]
  rw [jobTarget_of_length (by rw [hbinary, hsize]), hbinary]

/-- A new job that meets the condition is that of the message. -/
theorem Json.OffersBlob.isJob {job : Json} {uninit : BitVec 32} {hexblob jobId : List Byte}
    {s : Rpc2Job} (h : job.OffersBlob (.string jobId) hexblob) (hcan : s.CanDecode job) :
    job.IsJob (hex2bin hexblob (hexblob.length / 2)).1 (jobTarget job uninit) jobId := by
  obtain ⟨hblob, ⟨hexstr, hget, hlen, hdigits⟩, -⟩ := hcan.new _ _ h
  obtain ⟨blob, hblob⟩ := Option.isSome_iff_exists.mp hblob
  obtain ⟨bs, hbs⟩ := Option.isSome_iff_exists.mp hdigits
  -- the digits have the length that `hex2bin` is called with
  have hread := hex2bin_of_hexBytes hblob
  have hsize : hexblob.length / 2 = blob.length := by
    have := (hex2bin_eq_true hread).2
    omega
  refine ⟨⟨hexblob, h.blob, ?_⟩, ⟨hexstr, bs, hget, hlen, hbs, jobTarget_eq hget hlen hbs⟩, h.id⟩
  rw [hsize, hread, hblob]

section Whole

variable {job : Json} {uninit : BitVec 32} {rpc2 : Pool → Rpc2Job} {work : Work}

/-- A job that is decoded once more. -/
theorem decodesWhole_again_iff {blob jobId : List Byte} (hmsg : job.OffersAgain)
    (hblob : (rpc2 work.dev).blob = some blob) (hjobId : (rpc2 work.dev).jobId = some jobId) :
    DecodesWhole job rpc2 work true rpc2 ((rpc2 work.dev).toWork blob jobId work) ↔
      (rpc2 work.dev).CanDecode job := by
  constructor
  · intro hwhole
    constructor
    · intro id hexblob hoffer
      exact absurd (hoffer.blob.symm.trans hmsg.2) (by simpa using hoffer.nonempty)
    · intro _ _ jobId' hjobId'
      obtain ⟨-, blob', jobId'', -, hjobId'', hdesc⟩ := hwhole.again rfl hmsg.2
      obtain rfl := Option.some.inj (hjobId.symm.trans hjobId')
      obtain rfl := Option.some.inj (hjobId.symm.trans hjobId'')
      exact (List.take_eq_self_iff jobId).mp hdesc.jobId
  · intro hcan
    refine ⟨nofun, fun _ hne => absurd hmsg.2 hne, ?_, fun _ _ => rfl⟩
    intro _ _
    have hlen := hcan.again hmsg (by simp [hblob]) jobId hjobId
    exact ⟨rfl, blob, jobId, hblob, hjobId, Rpc2Job.toWork_describes_iff.mpr hlen⟩

/-- A job that is taken over. -/
theorem decodesWhole_renewed_iff {hexblob jobId : List Byte}
    (hmsg : job.OffersBlob (.string jobId) hexblob) :
    DecodesWhole job rpc2 work true
        (Function.update rpc2 work.dev ((rpc2 work.dev).renew job uninit hexblob jobId))
        (((rpc2 work.dev).renew job uninit hexblob jobId).toWork
          (hex2bin hexblob (hexblob.length / 2)).1 jobId work) ↔
      (rpc2 work.dev).CanDecode job := by
  have hnotEmpty : job.objectGet (ascii "blob") ≠ some (.string []) := by
    rw [hmsg.blob]
    simpa using hmsg.nonempty
  constructor
  · intro hwhole
    obtain ⟨blob', target', jobId', hjob, hdesc, -⟩ := hwhole.renewed rfl hnotEmpty
    refine ⟨?_, fun hoffer => absurd hoffer.2 hnotEmpty⟩
    intro id hexblob' hoffer
    obtain ⟨hexblob'', hblob'', hdigits⟩ := hjob.blob
    obtain ⟨hexstr, bs, hget, hlen, hbs, -⟩ := hjob.target
    obtain rfl : hexblob'' = hexblob' := by simpa [hblob''] using hoffer.blob
    refine ⟨by simp [hdigits], ⟨hexstr, hget, hlen, by simp [hbs]⟩, ?_⟩
    intro jobId'' hid
    -- the identifier in the work is the one of the message
    obtain rfl : jobId' = jobId := by simpa [hmsg.id] using hjob.jobId.symm
    obtain rfl : jobId' = jobId'' := by simpa [hmsg.id] using hoffer.id.trans (congrArg _ hid)
    exact (List.take_eq_self_iff _).mp hdesc.jobId
  · intro hcan
    refine ⟨nofun, ?_, fun _ hempty => absurd hempty hnotEmpty,
      fun d hd => Function.update_of_ne hd _ _⟩
    intro _ _
    have hlen := (hcan.new _ _ hmsg).2.2 jobId rfl
    refine ⟨_, jobTarget job uninit, jobId, hmsg.isJob hcan, ?_⟩
    rw [Function.update_self]
    have hdesc : (((rpc2 work.dev).renew job uninit hexblob jobId).toWork
        (hex2bin hexblob (hexblob.length / 2)).1 jobId work).Describes _ _ jobId :=
      Rpc2Job.toWork_describes_iff.mpr hlen
    rw [Rpc2Job.renew_target] at hdesc
    exact ⟨hdesc, Rpc2Job.renew_blob, Rpc2Job.renew_target, Rpc2Job.renew_jobId⟩

end Whole

/-- **A call that returns is all-or-nothing if and only if** a new job consists of digits,
eight of them in the target, and the identifier of the job that is decoded has at most
128 characters. -/
theorem decodesWhole_iff {job : Json} {uninit : BitVec 32} {rpc2 rpc2' : Pool → Rpc2Job}
    {work work' : Work} {ret : Bool}
    (h : rpc2JobDecodePools job uninit rpc2 work = some (ret, rpc2', work')) :
    DecodesWhole job rpc2 work ret rpc2' work' ↔ (rpc2 work.dev).CanDecode job := by
  obtain ⟨⟨ret', s', work''⟩, hcall, heq⟩ := Option.map_eq_some_iff.mp h
  obtain ⟨rfl, rfl, rfl⟩ : ret' = ret ∧ Function.update rpc2 work.dev s' = rpc2' ∧
      work'' = work' := by simpa using heq
  cases rpc2JobDecode_decoded hcall with
  | refused hnew hagain =>
    rw [Function.update_eq_self]
    refine iff_of_true ?_ ?_
    · exact ⟨fun _ => ⟨rfl, rfl⟩, nofun, nofun, fun _ _ => rfl⟩
    · refine ⟨fun id hexblob hoffer => absurd hoffer (hnew id hexblob), ?_⟩
      intro hoffer hsome
      rw [hagain hoffer] at hsome
      cases hsome
  | again hmsg hblob hjobId =>
    rw [Function.update_eq_self]
    exact decodesWhole_again_iff hmsg hblob hjobId
  | renewed hmsg => exact decodesWhole_renewed_iff hmsg

/-- A first job. -/
theorem decodesWhole_iff_first :
    let job : Json := .object [(ascii "job_id", .string (ascii "a")),
      (ascii "blob", .string (bin2hex (List.replicate 76 7))),
      (ascii "target", .string (ascii "ffffff00"))]
    ∃ r, rpc2JobDecodePools job 0 (fun _ => .initial) (.cleared 0) = some r ∧
      (DecodesWhole job (fun _ => .initial) (.cleared 0) r.1 r.2.1 r.2.2 ↔
        Rpc2Job.initial.CanDecode job) := by
  intro job
  obtain ⟨r, hr⟩ : ∃ r, rpc2JobDecodePools job 0 (fun _ => .initial) (.cleared 0) = some r :=
    Option.isSome_iff_exists.mp (by decide +kernel)
  exact ⟨r, hr, decodesWhole_iff hr⟩

/-- A job without a target is taken over. -/
theorem not_decodesWhole_of_target :
    ¬ ∀ (job : Json) (uninit : BitVec 32) (rpc2 rpc2' : Pool → Rpc2Job) (work work' : Work)
      (ret : Bool), rpc2JobDecodePools job uninit rpc2 work = some (ret, rpc2', work') →
      DecodesWhole job rpc2 work ret rpc2' work' := by
  intro h
  let job : Json := .object [(ascii "job_id", .string (ascii "a")),
    (ascii "blob", .string (bin2hex (List.replicate 76 7)))]
  obtain ⟨⟨ret, rpc2', work'⟩, hr⟩ :
      ∃ r, rpc2JobDecodePools job 0 (fun _ => .initial) (.cleared 0) = some r :=
    Option.isSome_iff_exists.mp (by decide +kernel)
  have hret : ret = true := by
    have hmap : (rpc2JobDecodePools job 0 (fun _ => .initial) (.cleared 0)).map Prod.fst =
        some true := by decide +kernel
    rw [hr] at hmap
    exact Option.some.inj hmap
  have hblob : job.objectGet (ascii "blob") ≠ some (.string []) := by
    intro hempty
    have : (job.objectGet (ascii "blob")).bind Json.stringValue ≠ some [] := by decide +kernel
    exact this (by rw [hempty]; rfl)
  obtain ⟨_, _, _, hjob, -⟩ := (h job 0 _ rpc2' _ work' ret hr).renewed hret hblob
  obtain ⟨hexstr, _, hget, -⟩ := hjob.target
  have hnone : (job.objectGet (ascii "target")).isSome = false := by decide +kernel
  rw [hget] at hnone
  cases hnone

end XmrMiner
