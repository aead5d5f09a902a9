import XmrMiner.Lib.ByteMem
import XmrMiner.Lib.CString
import XmrMiner.Lib.Trace

/-!
# Work, and how a miner thread refreshes its own

The current job of a pool is published in `g_work2`.  Before each scan a miner
thread compares the blob of its private copy with the published one, in two
windows that leave out the nonce.  If they differ it takes the published work and
moves to its slice of the nonces; if not it keeps what it has and goes on behind
the nonces it has scanned.

## Main definitions

* `Work` — the fields of `struct work` in use.
* `Miner` — the variables of `miner_thread`.
* `obtainWork`, `Miner.refresh`, `refreshBlock` — the block under `g_work_lock2`.
* `Work.Follows` — the private work agrees with the published one.
* `Refreshing`, `RefreshStep` — a thread, and the jobs published meanwhile.

## Main results

* `follows_iff_of_run` — when it does after the block.
-/

namespace XmrMiner

open ByteMem

/-- The number of a pool: 0 is the main pool, 1 the developer's. -/
abbrev Pool := Fin 2

theorem Pool.eq_zero_or_eq_one (d : Pool) : d = 0 ∨ d = 1 := Fin.exists_fin_two.mp ⟨d, rfl⟩

/-- The fields of `struct work` that JSON-RPC mode uses. -/
structure Work where
  /-- The 128 bytes of `data`. -/
  data : ByteMem
  /-- The eight words of `target`. -/
  target : Fin 8 → BitVec 32
  /-- The characters of `job_id`. -/
  jobId : List Byte
  /-- The pool. -/
  dev : Pool

/-- A work that is all zero, but for the pool. -/
def Work.cleared (dev : Pool) : Work := ⟨fun _ => 0, fun _ => 0, [], dev⟩

/-- The nonce in the blob, at offset 39. -/
def Work.nonce (w : Work) : BitVec 32 := load32 w.data 39

/-- Writing the nonce. -/
def Work.setNonce (w : Work) (nonce : BitVec 32) : Work :=
  { w with data := store32 w.data 39 nonce }

@[simp] theorem Work.nonce_setNonce (w : Work) (nonce : BitVec 32) :
    (w.setNonce nonce).nonce = nonce := load32_store32_self _ _ _

theorem Work.setNonce_setNonce (w : Work) (nonce nonce' : BitVec 32) :
    (w.setNonce nonce).setNonce nonce' = w.setNonce nonce' :=
  congrArg (fun data => { w with data := data }) (store32_store32_self _ _ _ _)

@[simp] theorem Work.setNonce_nonce (w : Work) : w.setNonce w.nonce = w :=
  congrArg (fun data => { w with data := data }) (store32_load32_self _ _)

theorem Work.data_setNonce (w : Work) (nonce : BitVec 32) {i : ℕ} (hi : i < 39 ∨ 43 ≤ i) :
    (w.setNonce nonce).data i = w.data i := store32_of_disjoint _ _ hi

/-- The last byte of the nonce is its top byte. -/
theorem Work.data_42 (w : Work) : w.data 42 = w.nonce.extractLsb' 24 8 := (load32_top _ _).symm

/-- The test for a new job: two windows of the blob around the nonce. -/
def Work.blobDiffers (w g : Work) : Bool := memcmp w.data g.data 0 39 || memcmp w.data g.data 43 33

theorem Work.blobDiffers_eq_false_iff {w g : Work} :
    w.blobDiffers g = false ↔ ∀ i < 76, i < 39 ∨ 43 ≤ i → w.data i = g.data i := by
  rw [Work.blobDiffers, Bool.or_eq_false_iff, memcmp_eq_false_iff, memcmp_eq_false_iff]
  constructor
  · rintro ⟨hlow, hhigh⟩ i hi (h | h)
    · simpa using hlow i h
    · simpa [Nat.add_sub_cancel' h] using hhigh (i - 43) (by omega)
  · intro h
    exact ⟨fun i hi => h (0 + i) (by omega) (by omega),
      fun i hi => h (43 + i) (by omega) (by omega)⟩

/-! ### The refresh block -/

/-- What a miner thread keeps between its scans. -/
structure Miner where
  /-- `work2`. -/
  work2 : Pool → Work
  /-- `end_nonce`. -/
  endNonce : BitVec 32
  /-- `hashes_done2`, always the value of an unsigned 32-bit difference. -/
  hashesDone2 : Pool → BitVec 32

/-- `0x00ffffffU / opt_n_threads`. -/
def sliceSize (nThreads : ℕ) : ℕ := 0x00ffffff / nThreads

/-- The variables at the start of `miner_thread`. -/
def Miner.initial (nThreads thrId : ℕ) : Miner where
  work2 := Work.cleared
  endNonce := BitVec.ofNat 32 (sliceSize nThreads * (thrId + 1)) - 0x20
  hashesDone2 _ := 0

/-- `stratum_gen_work` in JSON-RPC mode: the whole structure is copied.  (A `job_id` of
its own the stratum job only has in the other mode.) -/
def stratumGenWork (storage : Work) : Work := storage

/-- Where the published work comes from. -/
inductive WorkSource
  /-- A stratum pool, with the work of its connection. -/
  | stratum (storage : Work)
  /-- An HTTP pool: whether it is time for new work, and what `get_work` fetches then. -/
  | http (due : Bool) (fetched : Option Work)

/-- The first part of the block: the published work, none if the thread has to end. -/
def obtainWork (m : Miner) (dev : Pool) (g : Work) : WorkSource → Option Work
  | .stratum storage =>
    if (m.work2 dev).nonce ≥ m.endNonce ∧ (m.work2 dev).blobDiffers g = false then
      some (stratumGenWork storage)
    else some g
  | .http due fetched => if due ∨ (m.work2 dev).nonce ≥ m.endNonce then fetched else some g

/-- The second part of the block, in thread `thrId` of `nThreads`. -/
def Miner.refresh (nThreads thrId : ℕ) (dev : Pool) (g : Work) (m : Miner) : Miner :=
  if (m.work2 dev).blobDiffers g then
    { m with
      work2 := Function.update m.work2 dev
        (g.setNonce (g.nonce + BitVec.ofNat 32 (sliceSize nThreads * thrId)))
      endNonce := g.nonce + BitVec.ofNat 32 (sliceSize nThreads * (thrId + 1)) - 0x20 }
  else
    { m with
      work2 := Function.update m.work2 dev
        ((m.work2 dev).setNonce ((m.work2 dev).nonce + m.hashesDone2 dev)) }

/-- The block under `g_work_lock2`: the published work and the thread after it. -/
def refreshBlock (nThreads thrId : ℕ) (dev : Pool) (source : WorkSource) (g : Work) (m : Miner) :
    Option (Work × Miner) :=
  (obtainWork m dev g source).map fun g => (g, m.refresh nThreads thrId dev g)

/-! ### When the private work follows the published one -/

/-- The private work has the job identifier, the target and the bytes of the published
one, but for the nonce, and of the nonce the top byte. -/
structure Work.Follows (w g : Work) : Prop where
  /-- The same job. -/
  jobId : w.jobId = g.jobId
  /-- The same target. -/
  target : w.target = g.target
  /-- The same bytes outside of the nonce. -/
  data : ∀ i < 128, i < 39 ∨ 43 ≤ i → w.data i = g.data i
  /-- The same top byte of the nonce. -/
  top : w.data 42 = g.data 42

/-- The work `w` is the job `b`, with the nonce moved on by `k`. -/
structure Work.Moved (w b : Work) (k : BitVec 32) : Prop where
  /-- The same job. -/
  jobId : w.jobId = b.jobId
  /-- The same target. -/
  target : w.target = b.target
  /-- The same bytes outside of the nonce. -/
  data : ∀ i < 128, i < 39 ∨ 43 ≤ i → w.data i = b.data i
  /-- The nonce. -/
  nonce : w.nonce = b.nonce + k

namespace Work.Moved

theorem refl (w : Work) : w.Moved w 0 := ⟨rfl, rfl, fun _ _ _ => rfl, (BitVec.add_zero _).symm⟩

theorem setNonce {w b : Work} {k : BitVec 32} (h : w.Moved b k) (l : BitVec 32) :
    (w.setNonce (w.nonce + l)).Moved b (k + l) where
  jobId := h.jobId
  target := h.target
  data i hi hout := (Work.data_setNonce _ _ hout).trans (h.data i hi hout)
  nonce := by rw [Work.nonce_setNonce, h.nonce, BitVec.add_assoc]

theorem blobDiffers_eq {w b : Work} {k : BitVec 32} (h : w.Moved b k) (g : Work) :
    w.blobDiffers g = b.blobDiffers g := by
  rw [Bool.eq_iff_iff, ← not_iff_not, Bool.not_eq_true, Bool.not_eq_true,
    Work.blobDiffers_eq_false_iff, Work.blobDiffers_eq_false_iff]
  apply forall₃_congr
  intro i hi hout
  rw [h.data i (by omega) hout]

/-- A moved job follows another one if the two agree, and the nonce is in its range. -/
theorem follows_iff {w b : Work} {k : BitVec 32} (h : w.Moved b k) (g : Work) :
    w.Follows g ↔ b.jobId = g.jobId ∧ b.target = g.target ∧
      (∀ i < 128, i < 39 ∨ 43 ≤ i → b.data i = g.data i) ∧
      (b.nonce + k).extractLsb' 24 8 = g.nonce.extractLsb' 24 8 := by
  have hdata : (∀ i < 128, i < 39 ∨ 43 ≤ i → w.data i = g.data i) ↔
      ∀ i < 128, i < 39 ∨ 43 ≤ i → b.data i = g.data i :=
    forall₃_congr fun i hi hout => by rw [h.data i hi hout]
  have htop : w.data 42 = g.data 42 ↔
      (b.nonce + k).extractLsb' 24 8 = g.nonce.extractLsb' 24 8 := by
    rw [Work.data_42, Work.data_42, h.nonce]
  rw [← h.jobId, ← h.target, ← hdata, ← htop]
  exact ⟨fun hf => ⟨hf.jobId, hf.target, hf.data, hf.top⟩,
    fun ⟨hjob, htarget, hd, ht⟩ => ⟨hjob, htarget, hd, ht⟩⟩

end Work.Moved

theorem sliceSize_mul_le {nThreads k : ℕ} (hk : k ≤ nThreads) :
    sliceSize nThreads * k ≤ 0x00ffffff :=
  (Nat.mul_le_mul_left _ hk).trans (Nat.div_mul_le_self _ _)

/-- Adding less than `2 ^ 24` keeps the top byte if and only if nothing is carried. -/
theorem extractLsb'_add_eq_iff (x : BitVec 32) {k : ℕ} (hk : k < 2 ^ 24) :
    (x + BitVec.ofNat 32 k).extractLsb' 24 8 = x.extractLsb' 24 8 ↔
      x.toNat % 2 ^ 24 + k < 2 ^ 24 := by
  have hx := x.isLt
  rw [← BitVec.toNat_inj, BitVec.extractLsb'_toNat, BitVec.extractLsb'_toNat, BitVec.toNat_add,
    BitVec.toNat_ofNat, Nat.shiftRight_eq_div_pow, Nat.shiftRight_eq_div_pow]
  omega

/-! ### Runs of one thread -/

/-- The published work and a miner thread.  The last two fields are not in the program:
they remember which job the thread took over last, and how far it moved the nonce. -/
structure Refreshing where
  /-- `g_work2`. -/
  published : Pool → Work
  /-- The thread. -/
  miner : Miner
  /-- The job taken over last. -/
  taken : Pool → Work
  /-- How far the nonce was moved since. -/
  ahead : Pool → BitVec 32

/-- The events: a job is published by another thread, the block is run, a scan ends. -/
inductive RefreshEvent
  | publish (dev : Pool) (g : Work)
  | refresh (dev : Pool) (source : WorkSource)
  | scanned (dev : Pool) (hashes : BitVec 32)

/-- A thread in any state, which counts as the job it took over last. -/
def Refreshing.start (published : Pool → Work) (m : Miner) : Refreshing :=
  ⟨published, m, m.work2, fun _ => 0⟩

/-- The state after the block, once the published work has been obtained. -/
def Refreshing.afterRefresh (nThreads thrId : ℕ) (dev : Pool) (s : Refreshing) (g : Work)
    (m : Miner) : Refreshing :=
  { published := Function.update s.published dev g
    miner := m
    taken := if (s.taken dev).blobDiffers g then Function.update s.taken dev g else s.taken
    ahead := Function.update s.ahead dev
      (if (s.taken dev).blobDiffers g then BitVec.ofNat 32 (sliceSize nThreads * thrId)
      else s.ahead dev + s.miner.hashesDone2 dev) }

/-- A step. -/
inductive RefreshStep (nThreads thrId : ℕ) : Refreshing → RefreshEvent → Refreshing → Prop
  | publish {s : Refreshing} (dev : Pool) (g : Work) :
      RefreshStep nThreads thrId s (.publish dev g)
        { s with published := Function.update s.published dev g }
  | refresh {s : Refreshing} {dev : Pool} {source : WorkSource} {g : Work} {m : Miner}
      (h : refreshBlock nThreads thrId dev source (s.published dev) s.miner = some (g, m)) :
      RefreshStep nThreads thrId s (.refresh dev source) (s.afterRefresh nThreads thrId dev g m)
  | scanned {s : Refreshing} (dev : Pool) (hashes : BitVec 32) :
      RefreshStep nThreads thrId s (.scanned dev hashes)
        { s with miner :=
            { s.miner with hashesDone2 := Function.update s.miner.hashesDone2 dev hashes } }

/-- The private works are the jobs taken over last. -/
def Refreshing.Remembers (s : Refreshing) : Prop :=
  ∀ dev, (s.miner.work2 dev).Moved (s.taken dev) (s.ahead dev)

/-- The condition for the published work `g`, in terms of the job taken over last. -/
def Refreshing.Continues (nThreads thrId : ℕ) (dev : Pool) (s : Refreshing) (g : Work) : Prop :=
  if (s.taken dev).blobDiffers g then
    g.nonce.toNat % 2 ^ 24 + sliceSize nThreads * thrId < 2 ^ 24
  else
    (s.taken dev).jobId = g.jobId ∧ (s.taken dev).target = g.target ∧
      (∀ i < 128, 76 ≤ i → (s.taken dev).data i = g.data i) ∧
      ((s.taken dev).nonce + (s.ahead dev + s.miner.hashesDone2 dev)).extractLsb' 24 8 =
        g.nonce.extractLsb' 24 8

theorem refreshBlock_eq_some {nThreads thrId : ℕ} {dev : Pool} {source : WorkSource} {g₀ g : Work}
    {m m' : Miner} (h : refreshBlock nThreads thrId dev source g₀ m = some (g, m')) :
    m' = m.refresh nThreads thrId dev g := by
  obtain ⟨g', -, heq⟩ := Option.map_eq_some_iff.mp h
  obtain ⟨rfl, rfl⟩ : g' = g ∧ m.refresh nThreads thrId dev g' = m' := by simpa using heq
  rfl

/-- A stratum pool whose current job is published already. -/
theorem refreshBlock_stratum (nThreads thrId : ℕ) (dev : Pool) (g : Work) (m : Miner) :
    refreshBlock nThreads thrId dev (.stratum g) g m =
      some (g, m.refresh nThreads thrId dev g) := by
  simp [refreshBlock, obtainWork, stratumGenWork]

/-- The private work after the block. -/
theorem Miner.moved_refresh (nThreads thrId : ℕ) {dev : Pool} {m : Miner} {b : Work}
    {k : BitVec 32} (h : (m.work2 dev).Moved b k) (g : Work) :
    ((m.refresh nThreads thrId dev g).work2 dev).Moved (if b.blobDiffers g then g else b)
      (if b.blobDiffers g then BitVec.ofNat 32 (sliceSize nThreads * thrId)
      else k + m.hashesDone2 dev) := by
  unfold Miner.refresh
  rw [h.blobDiffers_eq]
  split
  · have hg := (Work.Moved.refl g).setNonce (BitVec.ofNat 32 (sliceSize nThreads * thrId))
    simpa using hg
  · simpa using h.setNonce (m.hashesDone2 dev)

/-- The hashed bytes after the block, but for the nonce, are those of the published work,
whether it was copied or not. -/
theorem Miner.refresh_data (nThreads thrId : ℕ) (dev : Pool) (m : Miner) (g : Work) {i : ℕ}
    (hi : i < 76) (hout : i < 39 ∨ 43 ≤ i) :
    ((m.refresh nThreads thrId dev g).work2 dev).data i = g.data i := by
  unfold Miner.refresh
  split
  · simpa using Work.data_setNonce g _ hout
  · next hsame =>
    have hwin := Work.blobDiffers_eq_false_iff.mp (Bool.eq_false_iff.mpr hsame)
    simpa using (Work.data_setNonce (m.work2 dev) _ hout).trans (hwin i hi hout)

/-- After the block there is no new job any more. -/
theorem Miner.refresh_blobDiffers (nThreads thrId : ℕ) (dev : Pool) (m : Miner) (g : Work) :
    ((m.refresh nThreads thrId dev g).work2 dev).blobDiffers g = false :=
  Work.blobDiffers_eq_false_iff.mpr fun _ hi hout =>
    Miner.refresh_data nThreads thrId dev m g hi hout

/-- Without a new job the nonce moves on. -/
theorem Miner.refresh_nonce_of_same (nThreads thrId : ℕ) {dev : Pool} {m : Miner} {g : Work}
    (h : (m.work2 dev).blobDiffers g = false) :
    ((m.refresh nThreads thrId dev g).work2 dev).nonce =
      (m.work2 dev).nonce + m.hashesDone2 dev := by
  rw [Miner.refresh, h]
  simp

/-- The other pool's work stays. -/
theorem Miner.refresh_work2_of_ne {nThreads thrId : ℕ} {dev d : Pool} (hd : d ≠ dev) (m : Miner)
    (g : Work) : (m.refresh nThreads thrId dev g).work2 d = m.work2 d := by
  unfold Miner.refresh
  split <;> exact Function.update_of_ne hd _ _

theorem RefreshStep.remembers {nThreads thrId : ℕ} {s s' : Refreshing} {e : RefreshEvent}
    (h : s.Remembers) (hstep : RefreshStep nThreads thrId s e s') : s'.Remembers := by
  cases hstep with
  | publish => exact h
  | scanned => exact h
  | @refresh dev _ g m hblock =>
    obtain rfl := refreshBlock_eq_some hblock
    intro d
    by_cases hd : d = dev
    · -- the pool of the block, whose work is moved on from the job that is remembered
      subst hd
      have hmoved := Miner.moved_refresh nThreads thrId (h d) g
      simp only [Refreshing.afterRefresh, Function.update_self]
      split at hmoved
      · next hnew => simpa [hnew] using hmoved
      · next hsame => simpa [hsame] using hmoved
    · simp only [Refreshing.afterRefresh, Miner.refresh_work2_of_ne hd, Function.update_of_ne hd]
      split
      · rw [Function.update_of_ne hd]
        exact h d
      · exact h d

/-- **In every run, the private work follows the published one after the block if and
only if** the job is taken over and its slice of the nonces begins below the next
multiple of `2 ^ 24`, or the job taken over last was the same in all that the test leaves
out, and the nonce has not left its range. -/
theorem follows_iff_of_run {nThreads thrId : ℕ} (hthr : thrId < nThreads) {published : Pool → Work}
    {m : Miner} {es : List RefreshEvent} {s s' : Refreshing}
    (hrun : Trace.Run (RefreshStep nThreads thrId) (.start published m) es s) {dev : Pool}
    {source : WorkSource} (hstep : RefreshStep nThreads thrId s (.refresh dev source) s') :
    (s'.miner.work2 dev).Follows (s'.published dev) ↔
      s.Continues nThreads thrId dev (s'.published dev) := by
  have hrem : s.Remembers := hrun.invariant_state Refreshing.Remembers
    (fun d => Work.Moved.refl _) fun _ _ _ => RefreshStep.remembers
  have hslice : sliceSize nThreads * thrId < 2 ^ 24 :=
    (sliceSize_mul_le hthr.le).trans_lt (by decide)
  cases hstep with
  | @refresh _ _ g m hblock =>
    obtain rfl := refreshBlock_eq_some hblock
    simp only [Refreshing.afterRefresh, Function.update_self]
    rw [(Miner.moved_refresh nThreads thrId (hrem dev) g).follows_iff, Refreshing.Continues]
    split
    · -- taken over, and moved to the slice
      rw [extractLsb'_add_eq_iff _ hslice]
      simp
    · next hsame =>
      -- kept: the test has compared all bytes but those of the nonce and of the tail
      have hwin := Work.blobDiffers_eq_false_iff.mp (Bool.eq_false_iff.mpr hsame)
      refine and_congr_right' (and_congr_right' (and_congr_left' ?_))
      refine ⟨fun h i hi h76 => h i hi (by omega), ?_⟩
      intro h i hi hout
      by_cases h76 : i < 76
      · exact hwin i h76 hout
      · exact h i hi (by omega)

/-- The second of two threads has taken over a first job and scanned for it, and a second
job is published. -/
theorem follows_iff_of_run_second :
    let g : Work := ⟨fun _ => 7, fun _ => 1, [97], 0⟩
    let g' : Work := ⟨fun _ => 8, fun _ => 1, [98], 0⟩
    let m := (Miner.initial 2 1).refresh 2 1 0 g
    let first := (Refreshing.start (fun _ => g) (.initial 2 1)).afterRefresh 2 1 0 g m
    let scanned : Refreshing :=
      { first with miner := { m with hashesDone2 := Function.update m.hashesDone2 0 96 } }
    let s : Refreshing := { scanned with published := Function.update scanned.published 0 g' }
    let s' := s.afterRefresh 2 1 0 g' (s.miner.refresh 2 1 0 g')
    (s'.miner.work2 0).Follows (s'.published 0) ↔ s.Continues 2 1 0 (s'.published 0) := by
  intro g g' m first scanned s s'
  have htake : RefreshStep 2 1 (.start (fun _ => g) (.initial 2 1)) (.refresh 0 (.stratum g))
      first := .refresh (refreshBlock_stratum 2 1 0 g (.initial 2 1))
  have hscan : RefreshStep 2 1 first (.scanned 0 96) scanned := .scanned 0 96
  have hrun := ((Trace.Run.nil.snoc htake).snoc hscan).snoc (.publish 0 g')
  have hpub : s.published 0 = g' := by simp [s]
  have hblock : refreshBlock 2 1 0 (.stratum g') (s.published 0) s.miner = some (g', _) :=
    hpub ▸ refreshBlock_stratum 2 1 0 g' s.miner
  exact follows_iff_of_run (by decide) hrun (.refresh hblock)

/-- The pool sends the same blob again, with another target. -/
theorem not_follows_of_retarget :
    ¬ ∀ (nThreads thrId : ℕ) (published : Pool → Work) (m : Miner) (es : List RefreshEvent)
      (s s' : Refreshing) (dev : Pool) (source : WorkSource), thrId < nThreads →
      Trace.Run (RefreshStep nThreads thrId) (.start published m) es s →
      RefreshStep nThreads thrId s (.refresh dev source) s' →
      (s'.miner.work2 dev).Follows (s'.published dev) := by
  intro h
  let g : Work := ⟨fun _ => 7, fun _ => 1, [97], 0⟩
  let g' : Work := ⟨fun _ => 7, fun _ => 2, [98], 0⟩
  have hrun : Trace.Run (RefreshStep 2 1) (.start (fun _ => g) (.initial 2 1)) _ _ :=
    (Trace.Run.nil.snoc (.refresh (refreshBlock_stratum 2 1 0 g _))).snoc (.publish 0 g')
  have hfollows := h 2 1 _ _ _ _ _ 0 _ (by decide) hrun
    (.refresh (refreshBlock_stratum 2 1 0 g' _))
  exact absurd (congrFun hfollows.target 7) (by decide +kernel)

end XmrMiner
