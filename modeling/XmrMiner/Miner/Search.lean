import XmrMiner.Cuda.Scan
import XmrMiner.Miner.Work

/-!
# The nonces that the miner threads search

Each of the `n` miner threads starts a job at its own slice of the nonces, a bit less
than `2 ^ 24 / n` of them, and goes on behind the nonces it has scanned, call by call.
A call does not know where its slice ends: its upper bound lies a fixed distance of
`0x20` before, and the first batch of a call, as well as the last one, may reach beyond
the upper bound.

## Main definitions

* `maxNonce`, `Miner.scan` — a call of `scanhash_cryptonight` by a miner thread.
* `Search`, `SearchStep` — the threads, and the batches they have launched.
* `InSlice` — a batch lies in the slice of its thread.
* `SearchConfig.Fits` — a call that ends before its slice does.

## Main results

* `disjoint_of_run` — no nonce is hashed by two threads as long as all calls fit.
* `scan_inSlice_iff` — a call that does not fit can leave its slice.
-/

namespace XmrMiner

open ByteMem

/-- The upper bound of a call, from the number of nonces that fit into the scan time. -/
def maxNonce (max64 : ℤ) (nonce endNonce : BitVec 32) : BitVec 32 :=
  let max64 := if max64 ≤ 0 then 0x200 else max64
  if (nonce.toNat : ℤ) + max64 > endNonce.toNat then endNonce
  else BitVec.ofInt 32 (nonce.toNat + max64)

/-- The scan of a miner thread, out of benchmark mode. -/
def Miner.scan (H : CnHash) (throughput : BitVec 32) (dev : Pool) (max64 : ℤ) (bs : List Batch)
    (m : Miner) : Option (Miner × ScanResult) :=
  (scanhashCryptonight H (m.work2 dev).data (m.work2 dev).target throughput
    (maxNonce max64 (m.work2 dev).nonce m.endNonce) bs).map fun r =>
      ({ m with hashesDone2 := Function.update m.hashesDone2 dev r.hashesDone }, r)

/-- A scan changes nothing of the thread but `hashes_done2`. -/
theorem Miner.scan_eq_some {H : CnHash} {throughput : BitVec 32} {dev : Pool} {max64 : ℤ}
    {bs : List Batch} {m m' : Miner} {r : ScanResult}
    (h : m.scan H throughput dev max64 bs = some (m', r)) :
    scanhashCryptonight H (m.work2 dev).data (m.work2 dev).target throughput
        (maxNonce max64 (m.work2 dev).nonce m.endNonce) bs = some r ∧
      m' = { m with hashesDone2 := Function.update m.hashesDone2 dev r.hashesDone } := by
  obtain ⟨r', hloop, hpair⟩ := Option.map_eq_some_iff.mp h
  obtain ⟨rfl, rfl⟩ : { m with hashesDone2 := Function.update m.hashesDone2 dev r'.hashesDone } =
      m' ∧ r' = r := by simpa using hpair
  exact ⟨hloop, rfl⟩

/-- The batches of a call. -/
theorem Miner.scan_bounds {H : CnHash} {throughput : BitVec 32} {dev : Pool} {max64 : ℤ}
    {bs : List Batch} {m m' : Miner} {r : ScanResult} (hT : throughput.toNat < 2 ^ 24)
    (h : m.scan H throughput dev max64 bs = some (m', r)) :
    ∀ x ∈ r.launched, (m.work2 dev).nonce.toNat ≤ x.toNat ∧
      x.toNat + throughput.toNat ≤ (m.work2 dev).nonce.toNat +
        batchCount throughput.toNat (maxNonce max64 (m.work2 dev).nonce m.endNonce).toNat
          (m.work2 dev).nonce.toNat * throughput.toNat :=
  scanLoop_bounds hT bs (Miner.scan_eq_some h).1

/-- What does not change while the threads search: their number and batch sizes, the
pool and its job. -/
structure SearchConfig where
  /-- The hash function. -/
  hash : CnHash
  /-- `opt_n_threads`. -/
  nThreads : ℕ
  /-- The batch size of each thread. -/
  throughput : ℕ → BitVec 32
  /-- The pool that is mined. -/
  dev : Pool
  /-- The job, as it stands in `g_work2`. -/
  job : Work

/-- The threads and what they have launched: a thread and the first nonce of a batch. -/
structure Search where
  /-- The threads. -/
  miner : ℕ → Miner
  /-- The batches. -/
  launched : List (ℕ × BitVec 32)

/-- A call: the thread, where the published work comes from, the scan time in nonces,
and what the batches end with. -/
structure ScanCall where
  /-- `thr_id`. -/
  thrId : ℕ
  /-- The source of work. -/
  source : WorkSource
  /-- `max64`. -/
  max64 : ℤ
  /-- The batches. -/
  batches : List Batch

/-- **A scan that nothing stops** launches every batch its bounds allow. -/
theorem Miner.exists_scan (H : CnHash) {throughput : BitVec 32} (dev : Pool) (max64 : ℤ)
    (m : Miner) (hT : throughput.toNat < 2 ^ 24) (hpos : 0 < throughput.toNat) :
    ∃ k bs m' r, batchCount throughput.toNat
        (maxNonce max64 (m.work2 dev).nonce m.endNonce).toNat (m.work2 dev).nonce.toNat = k + 1 ∧
      m.scan H throughput dev max64 bs = some (m', r) ∧
      (∀ j ≤ k, ∃ x ∈ r.launched, x.toNat = (m.work2 dev).nonce.toNat + j * throughput.toNat) ∧
      ∃ x, x.toNat = (m.work2 dev).nonce.toNat + k * throughput.toNat ∧
        (m.work2 dev).nonce + r.hashesDone =
          nextNonce throughput (maxNonce max64 (m.work2 dev).nonce m.endNonce) x := by
  obtain ⟨k, hk⟩ := Nat.exists_eq_add_of_le' (one_le_batchCount hpos
    (maxNonce max64 (m.work2 dev).nonce m.endNonce).toNat (m.work2 dev).nonce.toNat)
  obtain ⟨r, hr, hall, hlast⟩ := exists_scanLoop H (m.work2 dev).data (m.work2 dev).target
    (m.work2 dev).nonce hT hpos k hk
  exact ⟨k, _, _, r, hk, congrArg (Option.map _) hr, hall, hlast⟩

/-- A round of `miner_thread` while the job stays current. -/
inductive SearchStep (c : SearchConfig) : Search → ScanCall → Search → Prop
  | call {s : Search} {e : ScanCall} {m m' : Miner} {r : ScanResult} (hthr : e.thrId < c.nThreads)
      (hrefresh : refreshBlock c.nThreads e.thrId c.dev e.source c.job (s.miner e.thrId) =
        some (c.job, m))
      (hscan : m.scan c.hash (c.throughput e.thrId) c.dev e.max64 e.batches = some (m', r)) :
      SearchStep c s e ⟨Function.update s.miner e.thrId m',
        s.launched ++ r.launched.map fun x => (e.thrId, x)⟩

/-- No nonce is hashed by two threads. -/
def Search.Disjoint (c : SearchConfig) (s : Search) : Prop :=
  ∀ t x t' x', (t, x) ∈ s.launched → (t', x') ∈ s.launched →
    ∀ k < (c.throughput t).toNat, ∀ k' < (c.throughput t').toNat,
      x + BitVec.ofNat 32 k = x' + BitVec.ofNat 32 k' → t = t'

/-! ### Slices -/

/-- Where the slice of a thread ends, counted from the nonce of the job.  Nothing comes
behind the slice of the last thread. -/
def sliceEnd (nThreads thrId : ℕ) : ℕ :=
  if thrId + 1 = nThreads then 2 ^ 32 else sliceSize nThreads * (thrId + 1)

/-- The batch of `size` nonces at `x` lies in the slice of its thread. -/
def InSlice (nThreads thrId : ℕ) (base x : BitVec 32) (size : ℕ) : Prop :=
  sliceSize nThreads * thrId ≤ (x - base).toNat ∧
    (x - base).toNat + size ≤ sliceEnd nThreads thrId

theorem sliceEnd_le {nThreads thrId : ℕ} (hthr : thrId < nThreads) :
    sliceEnd nThreads thrId ≤ 2 ^ 32 := by
  unfold sliceEnd
  split
  · exact le_rfl
  · exact (sliceSize_mul_le hthr).trans (by decide)

theorem sliceEnd_le_of_lt {nThreads t t' : ℕ} (hlt : t < t') (hthr : t' < nThreads) :
    sliceEnd nThreads t ≤ sliceSize nThreads * t' := by
  rw [sliceEnd, if_neg (by omega)]
  exact Nat.mul_le_mul_left _ hlt

/-- A nonce of a batch, counted from the nonce of the job. -/
theorem InSlice.toNat_add {nThreads thrId : ℕ} {base x : BitVec 32} {size k : ℕ}
    (h : InSlice nThreads thrId base x size) (hthr : thrId < nThreads) (hk : k < size) :
    (x + BitVec.ofNat 32 k - base).toNat = (x - base).toNat + k := by
  have hend := h.2.trans (sliceEnd_le hthr)
  have hx := x.isLt
  have hbase := base.isLt
  rw [BitVec.toNat_sub] at hend ⊢
  rw [BitVec.toNat_sub, BitVec.toNat_add, BitVec.toNat_ofNat]
  omega

/-- The slices have no nonce in common. -/
theorem InSlice.eq_of_mem {nThreads t t' : ℕ} {base x x' : BitVec 32} {size size' k k' : ℕ}
    (h : InSlice nThreads t base x size) (h' : InSlice nThreads t' base x' size')
    (hthr : t < nThreads) (hthr' : t' < nThreads) (hk : k < size) (hk' : k' < size')
    (heq : x + BitVec.ofNat 32 k = x' + BitVec.ofNat 32 k') : t = t' := by
  have hsame : (x - base).toNat + k = (x' - base).toNat + k' := by
    rw [← h.toNat_add hthr hk, ← h'.toNat_add hthr' hk', heq]
  obtain ⟨hlo, hhi⟩ := h
  obtain ⟨hlo', hhi'⟩ := h'
  rcases lt_trichotomy t t' with hlt | heq | hgt
  · have := sliceEnd_le_of_lt hlt hthr'
    omega
  · exact heq
  · have := sliceEnd_le_of_lt hgt hthr
    omega

/-! ### Calls that fit -/

/-- The call of a thread, after its refresh, ends before its slice does: its first
nonce is not before the slice, and the batches up to its upper bound are all in it. -/
def Miner.Fits (nThreads thrId : ℕ) (throughput : BitVec 32) (dev : Pool) (base : BitVec 32)
    (max64 : ℤ) (m : Miner) : Prop :=
  let nonce := (m.work2 dev).nonce
  let count := batchCount throughput.toNat (maxNonce max64 nonce m.endNonce).toNat nonce.toNat
  sliceSize nThreads * thrId ≤ (nonce - base).toNat ∧
    (nonce - base).toNat + count * throughput.toNat ≤ sliceEnd nThreads thrId

/-- The condition on a call, for the thread before it. -/
def SearchConfig.Fits (c : SearchConfig) (s : Search) (e : ScanCall) : Prop :=
  c.nThreads = 1 ∨ (c.throughput e.thrId).toNat < 2 ^ 24 ∧
    ((s.miner e.thrId).refresh c.nThreads e.thrId c.dev c.job).Fits c.nThreads e.thrId
      (c.throughput e.thrId) c.dev c.job.nonce e.max64

instance (nThreads thrId : ℕ) (throughput : BitVec 32) (dev : Pool) (base : BitVec 32)
    (max64 : ℤ) (m : Miner) : Decidable (m.Fits nThreads thrId throughput dev base max64) :=
  inferInstanceAs (Decidable (_ ∧ _))

instance (c : SearchConfig) (s : Search) (e : ScanCall) : Decidable (c.Fits s e) :=
  inferInstanceAs (Decidable (_ ∨ _))

section Fits

variable {H : CnHash} {nThreads thrId : ℕ} {throughput base : BitVec 32} {dev : Pool} {max64 : ℤ}
  {m : Miner}

/-- A nonce further on, counted from the nonce of the job. -/
theorem toNat_sub_of_eq_add {x y : BitVec 32} {d : ℕ} (hx : x.toNat = y.toNat + d)
    (hd : (y - base).toNat + d < 2 ^ 32) : (x - base).toNat = (y - base).toNat + d := by
  have hbase := base.isLt
  rw [BitVec.toNat_sub] at hd ⊢
  rw [BitVec.toNat_sub]
  omega

/-- **All batches of a call that fits are in the slice.** -/
theorem Miner.Fits.inSlice (h : m.Fits nThreads thrId throughput dev base max64)
    (hthr : thrId < nThreads) (hT : throughput.toNat < 2 ^ 24) {bs : List Batch} {m' : Miner}
    {r : ScanResult} (hscan : m.scan H throughput dev max64 bs = some (m', r)) :
    ∀ x ∈ r.launched, InSlice nThreads thrId base x throughput.toNat := by
  obtain ⟨hlo, hhi⟩ := h
  have hend := sliceEnd_le hthr
  intro x hx
  obtain ⟨hle, hbound⟩ := Miner.scan_bounds hT hscan x hx
  -- counted from the nonce of the job the batch does not wrap
  obtain ⟨d, hd⟩ := Nat.exists_eq_add_of_le hle
  have hoff : ((m.work2 dev).nonce - base).toNat + d < 2 ^ 32 := by
    have hp := ((m.work2 dev).nonce - base).isLt
    rcases Nat.eq_zero_or_pos throughput.toNat with hzero | hpos
    · simp only [hzero, Nat.mul_zero] at hbound
      omega
    · omega
  rw [InSlice, toNat_sub_of_eq_add hd hoff]
  omega

/-- **A call that does not fit can leave the slice**: if and only if it fits, all its
batches are in the slice whatever is found and whenever the flag is raised. -/
theorem scan_inSlice_iff (hthr : thrId < nThreads) (hn : 1 < nThreads) (hn' : nThreads < 2 ^ 24)
    (hT : throughput.toNat < 2 ^ 24) (hpos : 0 < throughput.toNat) :
    (∀ bs m' r, m.scan H throughput dev max64 bs = some (m', r) →
      ∀ x ∈ r.launched, InSlice nThreads thrId base x throughput.toNat) ↔
      m.Fits nThreads thrId throughput dev base max64 := by
  refine ⟨?_, fun h bs m' r hscan => h.inSlice hthr hT hscan⟩
  intro h
  have hend := sliceEnd_le hthr
  -- the scan that is stopped at once, and the one that nothing stops
  have hfirst : InSlice nThreads thrId base (m.work2 dev).nonce throughput.toNat :=
    h [.stopped] _ _ (congrArg (Option.map _) (scanLoop_stopped _)) _ (List.mem_singleton_self _)
  obtain ⟨k, bs, m', r, hk, hr, hall, -⟩ := m.exists_scan H dev max64 hT hpos
  have hin := h bs m' r hr
  refine ⟨hfirst.1, ?_⟩
  rw [hk]
  -- one batch after the other
  have hstep : ∀ j ≤ k, ((m.work2 dev).nonce - base).toNat + (j + 1) * throughput.toNat ≤
      sliceEnd nThreads thrId := by
    intro j hj
    induction j with
    | zero => simpa using hfirst.2
    | succ j ih =>
      have hprev := ih (by omega)
      obtain ⟨x, hx, hval⟩ := hall (j + 1) hj
      obtain ⟨hlo, hhi⟩ := hin x hx
      have hlt : ((m.work2 dev).nonce - base).toNat + (j + 1) * throughput.toNat < 2 ^ 32 := by
        -- else the batch would start again at the nonce of the job
        apply lt_of_le_of_ne (hprev.trans hend)
        intro heq
        have hzero : (x - base).toNat = 0 := by
          rw [BitVec.toNat_sub] at heq ⊢
          omega
        -- only the last slice goes that far, and it does not begin there
        have hlast : thrId + 1 = nThreads := by
          by_contra hne
          have := sliceSize_mul_le (k := thrId + 1) hthr
          rw [heq, sliceEnd, if_neg hne] at hprev
          omega
        have hsize : 0 < sliceSize nThreads := Nat.div_pos (by omega) (by omega)
        have := Nat.mul_pos hsize (show 0 < thrId by omega)
        omega
      rw [toNat_sub_of_eq_add hval hlt] at hhi
      rw [Nat.add_mul (j + 1)]
      omega
  exact hstep k le_rfl

end Fits

/-! ### Runs -/

/-- Every batch lies in the slice of its thread, unless there is only one. -/
def Search.Within (c : SearchConfig) (s : Search) : Prop :=
  ∀ t x, (t, x) ∈ s.launched → t < c.nThreads ∧
    (c.nThreads = 1 ∨ InSlice c.nThreads t c.job.nonce x (c.throughput t).toNat)

theorem Search.Within.disjoint {c : SearchConfig} {s : Search} (h : s.Within c) :
    s.Disjoint c := by
  intro t x t' x' hx hx' k hk k' hk' heq
  obtain ⟨hthr, hin⟩ := h t x hx
  obtain ⟨hthr', hin'⟩ := h t' x' hx'
  rcases hin with hone | hin
  · omega
  rcases hin' with hone | hin'
  · omega
  exact hin.eq_of_mem hin' hthr hthr' hk hk' heq

/-- What a thread has launched or found in a call, behind all that came before. -/
theorem mem_append_map_mk {L : List (ℕ × BitVec 32)} {l : List (BitVec 32)} {t thrId : ℕ}
    {x : BitVec 32} :
    (t, x) ∈ L ++ l.map (fun y => (thrId, y)) ↔ (t, x) ∈ L ∨ t = thrId ∧ x ∈ l := by
  rw [List.mem_append, List.mem_map]
  apply or_congr_right
  constructor
  · rintro ⟨y, hy, heq⟩
    obtain ⟨rfl, rfl⟩ : thrId = t ∧ y = x := by simpa using heq
    exact ⟨rfl, hy⟩
  · rintro ⟨rfl, hx⟩
    exact ⟨x, hx, rfl⟩

/-- **A call that fits keeps the batches in their slices.** -/
theorem SearchStep.within {c : SearchConfig} {s s' : Search} {e : ScanCall} (h : s.Within c)
    (hstep : SearchStep c s e s') (hfits : c.Fits s e) : s'.Within c := by
  cases hstep with
  | @call m m' r hthr hrefresh hscan =>
    obtain rfl := refreshBlock_eq_some hrefresh
    intro t x hx
    rcases mem_append_map_mk.mp hx with hold | ⟨rfl, hnew⟩
    · exact h t x hold
    -- a batch of this call
    refine ⟨hthr, hfits.imp_right ?_⟩
    rintro ⟨hT, hcall⟩
    exact hcall.inSlice hthr hT hscan x hnew

/-- **No nonce is hashed by two threads**, in every run whose calls all fit into the
slice of their thread: with any number of threads in any state, any batch sizes, any job
and any outcome of the scans. -/
theorem disjoint_of_run {c : SearchConfig} {miner : ℕ → Miner} {es : List ScanCall} {s : Search}
    (hrun : Trace.Run (Trace.restrict (SearchStep c) c.Fits) ⟨miner, []⟩ es s) :
    s.Disjoint c :=
  (hrun.invariant_state (Search.Within c) (fun _ _ hx => absurd hx List.not_mem_nil)
    fun _ _ _ hwithin hstep => hstep.1.within hwithin hstep.2).disjoint

/-- The state after a call that is stopped during its first batch. -/
def Search.afterStopped (c : SearchConfig) (s : Search) (thrId : ℕ) (max64 : ℤ) : Search :=
  let m := (s.miner thrId).refresh c.nThreads thrId c.dev c.job
  let nonce := (m.work2 c.dev).nonce
  let next := nextNonce (c.throughput thrId) (maxNonce max64 nonce m.endNonce) nonce
  { miner := Function.update s.miner thrId
      { m with hashesDone2 := Function.update m.hashesDone2 c.dev (next - nonce) }
    launched := s.launched ++ [(thrId, nonce)] }

theorem Miner.scan_stopped (H : CnHash) (throughput : BitVec 32) (dev : Pool) (max64 : ℤ)
    (m : Miner) :
    let nonce := (m.work2 dev).nonce
    let next := nextNonce throughput (maxNonce max64 nonce m.endNonce) nonce
    m.scan H throughput dev max64 [.stopped] =
      some ({ m with hashesDone2 := Function.update m.hashesDone2 dev (next - nonce) },
        ⟨[], next - nonce, [nonce]⟩) :=
  congrArg (Option.map _) (scanLoop_stopped _)

theorem SearchStep.stopped (c : SearchConfig) (s : Search) (thrId : ℕ) (max64 : ℤ)
    (hthr : thrId < c.nThreads) :
    SearchStep c s ⟨thrId, .stratum c.job, max64, [.stopped]⟩ (s.afterStopped c thrId max64) :=
  .call (e := ⟨thrId, .stratum c.job, max64, [.stopped]⟩) hthr
    (refreshBlock_stratum c.nThreads thrId c.dev c.job (s.miner thrId))
    (Miner.scan_stopped c.hash (c.throughput thrId) c.dev max64 _)

/-- Both threads scan a batch at the beginning of their slices. -/
theorem disjoint_of_run_both :
    let c : SearchConfig := ⟨fun _ _ _ => 0, 2, fun _ => 320, 0, ⟨fun _ => 7, fun _ => 1, [97], 0⟩⟩
    let s : Search := ⟨fun t => .initial 2 t, []⟩
    ((s.afterStopped c 0 0x200).afterStopped c 1 0x200).Disjoint c := by
  intro c s
  have h0 : c.Fits s ⟨0, .stratum c.job, 0x200, [.stopped]⟩ := by decide +kernel
  have h1 : c.Fits (s.afterStopped c 0 0x200) ⟨1, .stratum c.job, 0x200, [.stopped]⟩ := by
    decide +kernel
  exact disjoint_of_run ((Trace.Run.nil.snoc ⟨.stopped c s 0 0x200 (by decide), h0⟩).snoc
    ⟨.stopped c _ 1 0x200 (by decide), h1⟩)

/-- The nonce of the job is `0x00ffffff`: the first batch of the first thread is the last
one below a multiple of `2 ^ 24`, and the thread goes on `0x20` nonces before the end of
its slice.  The next batch reaches into the slice of the second thread. -/
theorem not_disjoint_of_jump :
    ¬ ∀ (c : SearchConfig) (miner : ℕ → Miner) (es : List ScanCall) (s : Search),
      Trace.Run (SearchStep c) ⟨miner, []⟩ es s → s.Disjoint c := by
  intro h
  let c : SearchConfig := ⟨fun _ _ _ => 0, 2, fun _ => 320, 0,
    (⟨fun _ => 7, fun _ => 1, [97], 0⟩ : Work).setNonce 0x00ffffff⟩
  let s : Search := ⟨fun t => .initial 2 t, []⟩
  have hrun : Trace.Run (SearchStep c) s _ _ :=
    ((Trace.Run.nil.snoc (.stopped c s 0 0x1000000 (by decide))).snoc
      (.stopped c _ 0 0x1000000 (by decide))).snoc (.stopped c _ 1 0x1000000 (by decide))
  have hdis := h c _ _ _ hrun 0 0x17fffde 1 0x17ffffe (by decide +kernel) (by decide +kernel)
    0x20 (by decide) 0 (by decide) (by decide)
  cases hdis

end XmrMiner
