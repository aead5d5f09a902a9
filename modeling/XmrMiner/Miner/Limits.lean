import XmrMiner.Miner.Work

/-!
# The end of the slice, for two pools

A miner thread keeps its work, its progress and its upper bound for each pool, but the end
of its slice in one variable.  This is set when a job is taken over, from the nonce of
this job, and is used for either pool from then on.

## Main definitions

* `sliceLimit` — the end of the slice of a job.
* `Limits`, `LimitsStep` — a thread, with the pool of the job that it took over last.
* `Limits.OwnLimit` — the limits belong to the pool being mined.

## Main results

* `ownLimit_iff_of_run` — when this is so.
-/

namespace XmrMiner

/-- `end_nonce` for a job with the given nonce. -/
def sliceLimit (nThreads thrId : ℕ) (nonce : BitVec 32) : BitVec 32 :=
  nonce + BitVec.ofNat 32 (sliceSize nThreads * (thrId + 1)) - 0x20

/-- A thread and the published jobs.  The second field is not in the program. -/
structure Limits where
  /-- The thread, with the jobs that it took over for the two pools. -/
  refreshing : Refreshing
  /-- The pool of the job that it took over last. -/
  newest : Pool

/-- The pool of the last job, after the refresh block. -/
def Limits.newestAfter (s : Limits) (dev : Pool) (g : Work) : Pool :=
  if (s.refreshing.taken dev).blobDiffers g then dev else s.newest

/-- The steps: those of the thread, of which the refresh block is before a scan of its
pool.  The pool is another one whenever `mine_for_dev` has changed. -/
inductive LimitsStep (nThreads thrId : ℕ) : Limits → RefreshEvent → Limits → Prop
  | publish {s : Limits} {dev : Pool} {g : Work} {r : Refreshing}
      (h : RefreshStep nThreads thrId s.refreshing (.publish dev g) r) :
      LimitsStep nThreads thrId s (.publish dev g) ⟨r, s.newest⟩
  | refresh {s : Limits} {dev : Pool} {source : WorkSource} {r : Refreshing}
      (h : RefreshStep nThreads thrId s.refreshing (.refresh dev source) r) :
      LimitsStep nThreads thrId s (.refresh dev source) ⟨r, s.newestAfter dev (r.published dev)⟩
  | scanned {s : Limits} {dev : Pool} {hashes : BitVec 32} {r : Refreshing}
      (h : RefreshStep nThreads thrId s.refreshing (.scanned dev hashes) r) :
      LimitsStep nThreads thrId s (.scanned dev hashes) ⟨r, s.newest⟩

/-- The start of a thread, which has a cleared work for each pool. -/
def Limits.start (nThreads thrId : ℕ) (published : Pool → Work) : Limits :=
  ⟨.start published (.initial nThreads thrId), 0⟩

/-- The end of the slice of the job that a pool's work is of. -/
def Limits.ownLimit (nThreads thrId : ℕ) (s : Limits) (dev : Pool) : BitVec 32 :=
  sliceLimit nThreads thrId (s.refreshing.taken dev).nonce

/-- **The limits belong to the pool being mined**: the nonce of its work is compared with
the end of the slice of this work at the head of the refresh block, in the state `s`, and
the upper bound of the scan is computed from it after the block, in the state `s'`. -/
def Limits.OwnLimit (nThreads thrId : ℕ) (s s' : Limits) (dev : Pool) : Prop :=
  s.refreshing.miner.endNonce = s.ownLimit nThreads thrId dev ∧
    s'.refreshing.miner.endNonce = s'.ownLimit nThreads thrId dev

/-- The invariant: the end of the slice is that of the job taken over last. -/
structure Limits.Kept (nThreads thrId : ℕ) (s : Limits) : Prop where
  /-- The private works are the jobs that were taken over. -/
  remembers : s.refreshing.Remembers
  /-- The end of the slice. -/
  limit : s.refreshing.miner.endNonce = s.ownLimit nThreads thrId s.newest

section Limits

variable {nThreads thrId : ℕ} {s s' : Limits}

theorem Limits.kept_start (published : Pool → Work) :
    (Limits.start nThreads thrId published).Kept nThreads thrId where
  remembers _ := Work.Moved.refl _
  limit := by
    have hnonce : (Work.cleared 0).nonce = 0#32 := rfl
    have hlimit : (Limits.start nThreads thrId published).ownLimit nThreads thrId 0 =
        sliceLimit nThreads thrId (Work.cleared 0).nonce := rfl
    change _ = (Limits.start nThreads thrId published).ownLimit nThreads thrId 0
    rw [hlimit, hnonce, sliceLimit, BitVec.zero_add]
    rfl

theorem Miner.refresh_endNonce (dev : Pool) (m : Miner) (g : Work) :
    (m.refresh nThreads thrId dev g).endNonce =
      if (m.work2 dev).blobDiffers g then sliceLimit nThreads thrId g.nonce else m.endNonce := by
  unfold Miner.refresh
  split <;> rfl

/-- What the refresh block does to the end of the slice. -/
theorem Limits.Kept.refresh (h : s.Kept nThreads thrId) {dev : Pool} {source : WorkSource}
    {r : Refreshing} (hstep : RefreshStep nThreads thrId s.refreshing (.refresh dev source) r) :
    r.miner.endNonce = Limits.ownLimit nThreads thrId ⟨r, s.newestAfter dev (r.published dev)⟩
        (s.newestAfter dev (r.published dev)) ∧
      ((s.refreshing.taken dev).blobDiffers (r.published dev) = false →
        r.taken = s.refreshing.taken ∧ s.newestAfter dev (r.published dev) = s.newest) := by
  cases hstep with
  | @refresh _ _ g m hblock =>
    obtain rfl := refreshBlock_eq_some hblock
    simp only [Limits.ownLimit, Limits.newestAfter, Refreshing.afterRefresh, Function.update_self,
      Miner.refresh_endNonce, (h.remembers dev).blobDiffers_eq]
    cases hnew : (s.refreshing.taken dev).blobDiffers g with
    | true =>
      refine ⟨?_, fun hfalse => absurd hfalse (by simp)⟩
      simp
    | false =>
      refine ⟨?_, fun _ => ⟨rfl, rfl⟩⟩
      simpa [Limits.ownLimit] using h.limit

theorem LimitsStep.kept (h : s.Kept nThreads thrId) {e : RefreshEvent}
    (hstep : LimitsStep nThreads thrId s e s') : s'.Kept nThreads thrId := by
  cases hstep with
  | publish hpub =>
    refine ⟨hpub.remembers h.remembers, ?_⟩
    cases hpub
    exact h.limit
  | refresh hblock => exact ⟨hblock.remembers h.remembers, (h.refresh hblock).1⟩
  | scanned hscan =>
    refine ⟨hscan.remembers h.remembers, ?_⟩
    cases hscan
    exact h.limit

theorem sliceLimit_inj {x y : BitVec 32} :
    sliceLimit nThreads thrId x = sliceLimit nThreads thrId y ↔ x = y := by
  rw [sliceLimit, sliceLimit, BitVec.sub_left_inj, BitVec.add_left_inj]

/-- **In every run, the limits belong to the pool being mined if and only if** the job that
was taken over last, for whichever pool, has the nonce of the job of this pool. -/
theorem ownLimit_iff_of_run {published : Pool → Work} {es : List RefreshEvent}
    (hrun : Trace.Run (LimitsStep nThreads thrId) (.start nThreads thrId published) es s)
    {dev : Pool} {source : WorkSource}
    (hstep : LimitsStep nThreads thrId s (.refresh dev source) s') :
    Limits.OwnLimit nThreads thrId s s' dev ↔
      (s.refreshing.taken s.newest).nonce = (s.refreshing.taken dev).nonce := by
  have hkept : s.Kept nThreads thrId := hrun.invariant_state (Limits.Kept nThreads thrId)
    (Limits.kept_start published) fun _ _ _ h hstep => LimitsStep.kept h hstep
  have hbefore : s.refreshing.miner.endNonce = s.ownLimit nThreads thrId dev ↔
      (s.refreshing.taken s.newest).nonce = (s.refreshing.taken dev).nonce := by
    rw [hkept.limit]
    exact sliceLimit_inj
  rw [Limits.OwnLimit, hbefore]
  refine and_iff_left_of_imp fun hsame => ?_
  -- after the block it is the limit of a job with the same nonce
  cases hstep with
  | @refresh _ _ r hblock =>
    obtain ⟨hlimit, hkeep⟩ := hkept.refresh hblock
    cases hnew : (s.refreshing.taken dev).blobDiffers (r.published dev) with
    | true =>
      have hdev : s.newestAfter dev (r.published dev) = dev := if_pos hnew
      rw [hdev] at hlimit ⊢
      exact hlimit
    | false =>
      obtain ⟨htaken, hnewest⟩ := hkeep hnew
      rw [hnewest] at hlimit ⊢
      rw [hlimit, Limits.ownLimit, Limits.ownLimit, htaken, hsame]

end Limits

/-- The state after the refresh block, for a stratum pool whose job is published. -/
def Limits.afterStratum (nThreads thrId : ℕ) (s : Limits) (dev : Pool) : Limits :=
  let g := s.refreshing.published dev
  let r := s.refreshing.afterRefresh nThreads thrId dev g
    (s.refreshing.miner.refresh nThreads thrId dev g)
  ⟨r, s.newestAfter dev (r.published dev)⟩

theorem LimitsStep.stratum (nThreads thrId : ℕ) (s : Limits) (dev : Pool) :
    LimitsStep nThreads thrId s (.refresh dev (.stratum (s.refreshing.published dev)))
      (s.afterStratum nThreads thrId dev) :=
  .refresh (.refresh (refreshBlock_stratum nThreads thrId dev _ _))

/-- The thread has taken over a job of the main pool and then one of the other pool, with
another nonce, and goes back to the first one. -/
theorem ownLimit_iff_of_run_switch :
    let start : Limits := .start 2 1
      ![⟨fun _ => 7, fun _ => 1, [97], 0⟩, ⟨fun _ => 8, fun _ => 1, [98], 1⟩]
    let s := (start.afterStratum 2 1 0).afterStratum 2 1 1
    s.newest = 1 ∧ (Limits.OwnLimit 2 1 s (s.afterStratum 2 1 0) 0 ↔
      (s.refreshing.taken s.newest).nonce = (s.refreshing.taken 0).nonce) := by
  intro start s
  have hrun : Trace.Run (LimitsStep 2 1) start _ s :=
    (Trace.Run.nil.snoc (.stratum 2 1 start 0)).snoc (.stratum 2 1 _ 1)
  exact ⟨by decide +kernel, ownLimit_iff_of_run hrun (.stratum 2 1 s 0)⟩

/-- The thread goes back to the job of the main pool after one of the other pool, whose
nonce is another one. -/
theorem not_ownLimit_of_switch :
    ¬ ∀ (nThreads thrId : ℕ) (published : Pool → Work) (es : List RefreshEvent) (s s' : Limits)
      (dev : Pool) (source : WorkSource),
      Trace.Run (LimitsStep nThreads thrId) (.start nThreads thrId published) es s →
      LimitsStep nThreads thrId s (.refresh dev source) s' →
      Limits.OwnLimit nThreads thrId s s' dev := by
  intro h
  let s : Limits := .start 2 1
    ![⟨fun _ => 7, fun _ => 1, [97], 0⟩, ⟨fun _ => 8, fun _ => 1, [98], 1⟩]
  have hrun : Trace.Run (LimitsStep 2 1) s _ _ :=
    (Trace.Run.nil.snoc (.stratum 2 1 s 0)).snoc (.stratum 2 1 _ 1)
  have hown := h 2 1 _ _ _ _ 0 _ hrun (.stratum 2 1 _ 0)
  have hscan := hown.2
  revert hscan
  decide +kernel

end XmrMiner
