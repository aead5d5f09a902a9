import XmrMiner.Miner.Search

/-!
# How a thread moves through the nonces of a job

While the job stays current a thread goes on behind the nonces of its last call.  The
start moves back if the last batch of a call reached the end of a block of `2 ^ 24`
nonces, for then it jumps to the upper bound of the call, which may lie within this batch
or before it.

That batch also crosses the end of the block, into nonces with another top byte: the test
is made after it.  A call that starts behind the end of its slice can be in the next block
altogether.

## Main definitions

* `Search.Advances` — no nonce is hashed twice by a thread, and the start moves forward.
* `Miner.Advances` — the condition on a call.
* `Hashing`, `HashingStep` — the threads with the nonces they submit, on devices that find
  nonces of their batches.
* `Hashing.KeepsByte` — all nonces have the top byte of the job's.
* `Miner.KeepsByte` — the condition on a call.

## Main results

* `advances_of_run`, `scan_advances_iff` — the first condition is enough, and is exact.
* `keepsByte_of_run`, `scan_keepsByte_iff` — and so is the second.
-/

namespace XmrMiner

open ByteMem

/-! ### The condition on a call -/

/-- The number of batches that reach the upper bound, one at least. -/
def upperCount (throughput maxNonce nonce : ℕ) : ℕ :=
  if nonce < maxNonce then (maxNonce - nonce + throughput - 1) / throughput else 1

/-- The call of a thread, after its refresh, moves forward: there is no jump, or it
goes to an upper bound behind all batches.  (A batch of `2 ^ 24` nonces or more never
jumps.) -/
def Miner.Advances (throughput : BitVec 32) (dev : Pool) (max64 : ℤ) (m : Miner) : Prop :=
  let nonce := (m.work2 dev).nonce
  let max := maxNonce max64 nonce m.endNonce
  let size := throughput.toNat
  0 < size ∧
    (size < 2 ^ 24 →
      nonce.toNat % 2 ^ 24 + batchCount size max.toNat nonce.toNat * size < 2 ^ 24 ∨
        nonce.toNat + batchCount size max.toNat nonce.toNat * size ≤ max.toNat) ∧
    (2 ^ 24 ≤ size → nonce.toNat + upperCount size max.toNat nonce.toNat * size < 2 ^ 32)

instance (throughput : BitVec 32) (dev : Pool) (max64 : ℤ) (m : Miner) :
    Decidable (m.Advances throughput dev max64) :=
  inferInstanceAs (Decidable (_ ∧ (_ → _) ∧ (_ → _)))

/-- The condition on a call, for the thread before it. -/
def SearchConfig.Advances (c : SearchConfig) (s : Search) (e : ScanCall) : Prop :=
  ((s.miner e.thrId).refresh c.nThreads e.thrId c.dev c.job).Advances (c.throughput e.thrId) c.dev
    e.max64

instance (c : SearchConfig) (s : Search) (e : ScanCall) : Decidable (c.Advances s e) :=
  inferInstanceAs (Decidable (Miner.Advances _ _ _ _))

/-- The start of the next call of a thread. -/
def Miner.nextStart (dev : Pool) (m : Miner) : BitVec 32 :=
  (m.work2 dev).nonce + m.hashesDone2 dev

/-- **A thread never hashes a nonce twice**: of two batches of one thread the later one
starts further on and has no nonce of the earlier one, and the next call of the thread
starts further on than all of them. -/
def Search.Advances (c : SearchConfig) (s : Search) : Prop :=
  (s.launched.Pairwise fun a b => a.1 = b.1 → a.2 < b.2 ∧
      ∀ k < (c.throughput a.1).toNat, ∀ k' < (c.throughput a.1).toNat,
        a.2 + BitVec.ofNat 32 k ≠ b.2 + BitVec.ofNat 32 k') ∧
    ∀ t x, (t, x) ∈ s.launched → x < (s.miner t).nextStart c.dev

section Advances

variable {H : CnHash} {throughput : BitVec 32} {dev : Pool} {max64 : ℤ} {m : Miner}

/-- A batch of `2 ^ 24` nonces or more never jumps. -/
theorem nextNonce_of_large (maxNonce nonce : BitVec 32) (hT : 2 ^ 24 ≤ throughput.toNat) :
    nextNonce throughput maxNonce nonce = nonce + throughput := by
  have hlow : (nonce &&& 0x00ffffff).toNat = nonce.toNat % 2 ^ 24 := toNat_and_mask nonce _ rfl
  have hsub : (0x00ffffff - throughput).toNat = 2 ^ 32 + 0x00ffffff - throughput.toNat := by
    have := throughput.isLt
    have hmask : (0x00ffffff : BitVec 32).toNat = 0x00ffffff := rfl
    rw [BitVec.toNat_sub, hmask]
    omega
  have := throughput.isLt
  rw [nextNonce, if_neg]
  rw [gt_iff_lt, BitVec.lt_def, hlow, hsub]
  omega

theorem upperCount_add {size max nonce : ℕ} (hpos : 0 < size) (hmax : nonce + size < max) :
    upperCount size max (nonce + size) + 1 = upperCount size max nonce := by
  rw [upperCount, upperCount, if_pos hmax, if_pos (by omega), ← Nat.add_div_right _ hpos]
  congr 1
  omega

theorem one_le_upperCount {size : ℕ} (hpos : 0 < size) (max nonce : ℕ) :
    1 ≤ upperCount size max nonce := by
  unfold upperCount
  split
  · exact (Nat.one_le_div_iff hpos).mpr (by omega)
  · exact le_rfl

section Scan

variable {pdata : ByteMem} {ptarget : Fin 8 → BitVec 32} {firstNonce maxNonce nonce : BitVec 32}
  {bs : List Batch} {r : ScanResult}

/-- A scan with small batches, that does not jump back. -/
theorem scanLoop_forward_of_small (hpos : 0 < throughput.toNat) (hT : throughput.toNat < 2 ^ 24)
    (hroom : nonce.toNat % 2 ^ 24 +
        batchCount throughput.toNat maxNonce.toNat nonce.toNat * throughput.toNat < 2 ^ 24 ∨
      nonce.toNat + batchCount throughput.toNat maxNonce.toNat nonce.toNat * throughput.toNat ≤
        maxNonce.toNat)
    (h : scanLoop H pdata ptarget throughput firstNonce maxNonce nonce bs = some r) :
    r.Forward throughput nonce firstNonce := by
  refine scanLoop_forward (P := fun x => x.toNat % 2 ^ 24 +
      batchCount throughput.toNat maxNonce.toNat x.toNat * throughput.toNat < 2 ^ 24 ∨
    x.toNat + batchCount throughput.toNat maxNonce.toNat x.toNat * throughput.toNat ≤
      maxNonce.toNat) (fun x hx => ?_) bs hroom h
  have hcount := Nat.mul_le_mul_right throughput.toNat
    (one_le_batchCount hpos maxNonce.toNat x.toNat)
  rcases nextNonce_of_low maxNonce x hT with ⟨hlow, hnext⟩ | ⟨hhigh, hnext⟩
  · refine ⟨hnext.ge, ?_⟩
    intro hgo
    rw [BitVec.lt_def, hnext] at hgo
    -- one batch less from the next nonce on
    rw [← batchCount_add hpos hlow hgo, Nat.add_mul] at hx
    rw [hnext]
    omega
  · rw [hnext]
    exact ⟨by omega, fun hgo => absurd hgo (BitVec.lt_irrefl _)⟩

/-- A scan with large batches, that does not wrap. -/
theorem scanLoop_forward_of_large (hpos : 0 < throughput.toNat) (hT : 2 ^ 24 ≤ throughput.toNat)
    (hroom : nonce.toNat +
      upperCount throughput.toNat maxNonce.toNat nonce.toNat * throughput.toNat < 2 ^ 32)
    (h : scanLoop H pdata ptarget throughput firstNonce maxNonce nonce bs = some r) :
    r.Forward throughput nonce firstNonce := by
  refine scanLoop_forward (P := fun x => x.toNat +
    upperCount throughput.toNat maxNonce.toNat x.toNat * throughput.toNat < 2 ^ 32)
    (fun x hx => ?_) bs hroom h
  have hcount := Nat.mul_le_mul_right throughput.toNat
    (one_le_upperCount hpos maxNonce.toNat x.toNat)
  have hnext : (nextNonce throughput maxNonce x).toNat = x.toNat + throughput.toNat := by
    rw [nextNonce_of_large _ _ hT]
    exact BitVec.toNat_add_of_lt (by omega)
  refine ⟨hnext.ge, ?_⟩
  intro hgo
  rw [BitVec.lt_def, hnext] at hgo
  rw [← upperCount_add hpos hgo, Nat.add_mul] at hx
  rw [hnext]
  omega

end Scan

/-- **What a call that meets the condition launches**, and where the next one starts. -/
theorem Miner.Advances.forward (h : m.Advances throughput dev max64) {bs : List Batch}
    {m' : Miner} {r : ScanResult} (hscan : m.scan H throughput dev max64 bs = some (m', r)) :
    r.Forward throughput (m.work2 dev).nonce (m.work2 dev).nonce := by
  obtain ⟨hpos, hsmall, hlarge⟩ := h
  have hloop := (Miner.scan_eq_some hscan).1
  rcases Nat.lt_or_ge throughput.toNat (2 ^ 24) with hT | hT
  · exact scanLoop_forward_of_small hpos hT (hsmall hT) hloop
  · exact scanLoop_forward_of_large hpos hT (hlarge hT) hloop

/-- **The condition is exact**: it holds if and only if the next call starts behind all
batches of the call, whatever is found and whenever the flag is raised. -/
theorem scan_advances_iff (hT : throughput.toNat < 2 ^ 24) (hpos : 0 < throughput.toNat) :
    (∀ bs m' r, m.scan H throughput dev max64 bs = some (m', r) → ∀ x ∈ r.launched,
      x.toNat + throughput.toNat ≤ ((m.work2 dev).nonce + r.hashesDone).toNat) ↔
      m.Advances throughput dev max64 := by
  refine ⟨?_, fun h bs m' r hscan x hx => ((h.forward hscan).bounds x hx).2⟩
  intro h
  refine ⟨hpos, ?_, fun hlarge => absurd hT (not_lt.mpr hlarge)⟩
  intro _
  obtain ⟨k, bs, m', r, hk, hr, hall, last, hlast, hend⟩ := m.exists_scan H dev max64 hT hpos
  obtain ⟨x, hx, hval⟩ := hall k le_rfl
  obtain rfl : x = last := BitVec.eq_of_toNat_eq (hval.trans hlast.symm)
  -- the last batch of the scan that nothing stops
  have hmove := h bs m' r hr x hx
  rw [hend] at hmove
  have hblock := batchCount_block hk
  rw [hk, Nat.add_mul]
  rcases nextNonce_of_low (maxNonce max64 (m.work2 dev).nonce m.endNonce) x hT with
    ⟨hlow, -⟩ | ⟨-, hnext⟩
  · exact Or.inl (by omega)
  · rw [hnext] at hmove
    exact Or.inr (by omega)

end Advances

/-! ### Runs -/

/-- The invariant: the batches of a thread lie one behind the other, the next call starts
behind them all, and the thread has got the job. -/
structure Search.Ordered (c : SearchConfig) (s : Search) : Prop where
  /-- One behind the other. -/
  pairwise : s.launched.Pairwise fun a b => a.1 = b.1 →
    a.2.toNat + (c.throughput a.1).toNat ≤ b.2.toNat
  /-- The next call starts behind them. -/
  next : ∀ t x, (t, x) ∈ s.launched →
    x.toNat + (c.throughput t).toNat ≤ ((s.miner t).nextStart c.dev).toNat
  /-- A thread that has launched a batch has got the job. -/
  current : ∀ t x, (t, x) ∈ s.launched →
    0 < (c.throughput t).toNat ∧ ((s.miner t).work2 c.dev).blobDiffers c.job = false

theorem Search.Ordered.advances {c : SearchConfig} {s : Search} (h : s.Ordered c) :
    s.Advances c := by
  constructor
  · apply h.pairwise.imp_of_mem
    intro a b ha hb hle heq
    have hle := hle heq
    obtain ⟨hpos, -⟩ := h.current a.1 a.2 ha
    have hnext := h.next b.1 b.2 hb
    rw [← heq] at hnext
    refine ⟨BitVec.lt_def.mpr (by omega), ?_⟩
    intro k hk k' hk' hsame
    -- neither of the two batches wraps
    have hlt := ((s.miner a.1).nextStart c.dev).isLt
    have hval := congrArg BitVec.toNat hsame
    simp only [BitVec.toNat_add, BitVec.toNat_ofNat] at hval
    omega
  · intro t x hx
    obtain ⟨hpos, -⟩ := h.current t x hx
    have hnext := h.next t x hx
    exact BitVec.lt_def.mpr (by omega)

/-- **A call that moves forward keeps the order.** -/
theorem SearchStep.ordered {c : SearchConfig} {s s' : Search} {e : ScanCall} (h : s.Ordered c)
    (hstep : SearchStep c s e s') (hadv : c.Advances s e) : s'.Ordered c := by
  cases hstep with
  | @call m m' r hthr hrefresh hscan =>
    obtain rfl := refreshBlock_eq_some hrefresh
    obtain ⟨hnew, hpair⟩ := hadv.forward hscan
    have hpos : 0 < (c.throughput e.thrId).toNat := hadv.1
    obtain ⟨-, rfl⟩ := Miner.scan_eq_some hscan
    generalize hm : (s.miner e.thrId).refresh c.nThreads e.thrId c.dev c.job = m at *
    -- the batches before, if there are any, lie before the start of this call
    have hold : ∀ x, (e.thrId, x) ∈ s.launched →
        x.toNat + (c.throughput e.thrId).toNat ≤ (m.work2 c.dev).nonce.toNat := by
      intro x hx
      have hstart := Miner.refresh_nonce_of_same c.nThreads e.thrId (h.current _ x hx).2
      rw [hm] at hstart
      rw [hstart]
      exact h.next _ x hx
    have hgo : (m.work2 c.dev).nonce.toNat ≤ ((m.work2 c.dev).nonce + r.hashesDone).toNat := by
      obtain ⟨x, hx⟩ := List.exists_mem_of_ne_nil _ (launched_ne_nil (Miner.scan_eq_some hscan).1)
      obtain ⟨hle, hend⟩ := hnew x hx
      omega
    have hother : ∀ t x, t ≠ e.thrId →
        (t, x) ∈ s.launched ++ r.launched.map (fun x => (e.thrId, x)) → (t, x) ∈ s.launched := by
      intro t x ht hx
      exact (mem_append_map_mk.mp hx).resolve_right fun hnew => ht hnew.1
    refine ⟨List.pairwise_append.mpr ⟨h.pairwise, ?_, ?_⟩, ?_, ?_⟩
    · refine List.pairwise_map.mpr (hpair.imp ?_)
      intro a b hle _
      exact hle
    · rintro ⟨t, x⟩ hx b hb (heq : t = b.1)
      obtain ⟨y, hy, rfl⟩ := List.mem_map.mp hb
      obtain rfl : t = e.thrId := heq
      exact (hold x hx).trans (hnew y hy).1
    · intro t x hx
      by_cases ht : t = e.thrId
      · subst ht
        simp only [Function.update_self, Miner.nextStart]
        rcases mem_append_map_mk.mp hx with hx | ⟨-, hx⟩
        · exact (hold x hx).trans hgo
        · exact (hnew x hx).2
      · simp only [Function.update_of_ne ht]
        exact h.next t x (hother t x ht hx)
    · intro t x hx
      by_cases ht : t = e.thrId
      · subst ht
        simp only [Function.update_self]
        refine ⟨hpos, ?_⟩
        rw [← hm]
        exact Miner.refresh_blobDiffers _ _ _ _ _
      · simp only [Function.update_of_ne ht]
        exact h.current t x (hother t x ht hx)

/-- **No thread hashes a nonce of its job twice**, in every run whose calls all move
forward: with any threads in any state, any batch sizes, any job and any outcome of the
scans. -/
theorem advances_of_run {c : SearchConfig} {miner : ℕ → Miner} {es : List ScanCall} {s : Search}
    (hrun : Trace.Run (Trace.restrict (SearchStep c) c.Advances) ⟨miner, []⟩ es s) :
    s.Advances c :=
  (hrun.invariant_state (Search.Ordered c) ⟨.nil, nofun, nofun⟩
    fun _ _ _ hordered hstep => hstep.1.ordered hordered hstep.2).advances

/-- Two calls of one thread. -/
theorem advances_of_run_second :
    let c : SearchConfig := ⟨fun _ _ _ => 0, 2, fun _ => 320, 0, ⟨fun _ => 7, fun _ => 1, [97], 0⟩⟩
    let s : Search := ⟨fun t => .initial 2 t, []⟩
    ((s.afterStopped c 0 0x200).afterStopped c 0 0x200).Advances c := by
  intro c s
  have h0 : c.Advances s ⟨0, .stratum c.job, 0x200, [.stopped]⟩ := by decide +kernel
  have h1 : c.Advances (s.afterStopped c 0 0x200) ⟨0, .stratum c.job, 0x200, [.stopped]⟩ := by
    decide +kernel
  exact advances_of_run ((Trace.Run.nil.snoc ⟨.stopped c s 0 0x200 (by decide), h0⟩).snoc
    ⟨.stopped c _ 0 0x200 (by decide), h1⟩)

/-- The first batch reaches the end of a block, and the thread goes on in the middle
of it. -/
theorem not_advances_of_jump :
    ¬ ∀ (c : SearchConfig) (miner : ℕ → Miner) (es : List ScanCall) (s : Search),
      Trace.Run (SearchStep c) ⟨miner, []⟩ es s → s.Advances c := by
  intro h
  let c : SearchConfig := ⟨fun _ _ _ => 0, 1, fun _ => 1024, 0,
    (⟨fun _ => 7, fun _ => 1, [97], 0⟩ : Work).setNonce 0x00ffffff⟩
  let s : Search := ⟨fun t => .initial 1 t, []⟩
  have hrun : Trace.Run (SearchStep c) s _ _ :=
    (Trace.Run.nil.snoc (.stopped c s 0 0x200 (by decide))).snoc
      (.stopped c _ 0 0x200 (by decide))
  have hlaunched : ((s.afterStopped c 0 0x200).afterStopped c 0 0x200).launched =
      [(0, 0x00ffffff), (0, 0x010001ff)] := by decide +kernel
  have hpair := (h c _ _ _ hrun).1
  rw [hlaunched] at hpair
  have hdis := (List.rel_of_pairwise_cons hpair (List.mem_singleton_self _) rfl).2
  exact hdis 0x200 (by decide) 0 (by decide) (by decide)

/-! ### The top byte -/

/-- The top byte of a nonce, at offset 42 of the blob. -/
def topByte (nonce : BitVec 32) : BitVec 8 := nonce.extractLsb' 24 8

/-- The batches of a call of a thread, after its refresh, stay below the end of the block of
`2 ^ 24` nonces that the job is in. -/
def Miner.KeepsByte (throughput : BitVec 32) (dev : Pool) (base : BitVec 32) (max64 : ℤ)
    (m : Miner) : Prop :=
  let nonce := (m.work2 dev).nonce
  let max := maxNonce max64 nonce m.endNonce
  throughput.toNat = 0 ∨ topByte nonce = topByte base ∧ nonce.toNat % 2 ^ 24 +
    batchCount throughput.toNat max.toNat nonce.toNat * throughput.toNat ≤ 2 ^ 24

instance (throughput : BitVec 32) (dev : Pool) (base : BitVec 32) (max64 : ℤ) (m : Miner) :
    Decidable (m.KeepsByte throughput dev base max64) :=
  inferInstanceAs (Decidable (_ ∨ _ ∧ _))

/-- The device has found nonces of the batch at `x`, or none. -/
def Batch.FoundIn (throughput x : BitVec 32) (b : Batch) : Prop :=
  ∀ n, n = b.foundNonce.1 ∨ n = b.foundNonce.2 →
    n = 0xffffffff ∨ ∃ k < throughput.toNat, n = x + BitVec.ofNat 32 k

/-- The threads, with the nonces that they submit. -/
structure Hashing where
  /-- The threads and their batches. -/
  search : Search
  /-- The thread and the nonce of each share. -/
  submitted : List (ℕ × BitVec 32)

/-- A round of `miner_thread`, on a device that finds nonces of its batches. -/
inductive HashingStep (c : SearchConfig) : Hashing → ScanCall → Hashing → Prop
  | call {s : Hashing} {e : ScanCall} {m m' : Miner} {r : ScanResult} (hthr : e.thrId < c.nThreads)
      (hrefresh : refreshBlock c.nThreads e.thrId c.dev e.source c.job (s.search.miner e.thrId) =
        some (c.job, m))
      (hscan : m.scan c.hash (c.throughput e.thrId) c.dev e.max64 e.batches = some (m', r))
      (hdevice : ∀ x b, (x, b) ∈ r.launched.zip e.batches → b.FoundIn (c.throughput e.thrId) x) :
      HashingStep c s e
        { search := ⟨Function.update s.search.miner e.thrId m',
            s.search.launched ++ r.launched.map fun x => (e.thrId, x)⟩
          submitted := s.submitted ++ r.results.map fun n => (e.thrId, n) }

/-- It is one of the rounds of a search. -/
theorem HashingStep.search {c : SearchConfig} {s s' : Hashing} {e : ScanCall}
    (h : HashingStep c s e s') : SearchStep c s.search e s'.search := by
  cases h with
  | call hthr hrefresh hscan _ => exact .call hthr hrefresh hscan

/-- **All nonces that are hashed or submitted have the top byte of the job's nonce.** -/
def Hashing.KeepsByte (c : SearchConfig) (s : Hashing) : Prop :=
  (∀ t x, (t, x) ∈ s.search.launched → ∀ k < (c.throughput t).toNat,
      topByte (x + BitVec.ofNat 32 k) = topByte c.job.nonce) ∧
    ∀ t n, (t, n) ∈ s.submitted → topByte n = topByte c.job.nonce

/-- The condition on a call, for the thread before it. -/
def SearchConfig.KeepsByte (c : SearchConfig) (s : Hashing) (e : ScanCall) : Prop :=
  ((s.search.miner e.thrId).refresh c.nThreads e.thrId c.dev c.job).KeepsByte
    (c.throughput e.thrId) c.dev c.job.nonce e.max64

instance (c : SearchConfig) (s : Hashing) (e : ScanCall) : Decidable (c.KeepsByte s e) :=
  inferInstanceAs (Decidable (Miner.KeepsByte _ _ _ _ _))

theorem topByte_eq_iff (x y : BitVec 32) :
    topByte x = topByte y ↔ x.toNat / 2 ^ 24 = y.toNat / 2 ^ 24 := by
  have hx := x.isLt
  have hy := y.isLt
  rw [topByte, topByte, ← BitVec.toNat_inj, BitVec.extractLsb'_toNat, BitVec.extractLsb'_toNat,
    Nat.shiftRight_eq_div_pow, Nat.shiftRight_eq_div_pow]
  omega

section KeepsByte

variable {H : CnHash} {throughput base : BitVec 32} {dev : Pool} {max64 : ℤ} {m : Miner}

/-- **All nonces of a call that meets the condition have the top byte of the job's.** -/
theorem Miner.KeepsByte.topByte_eq (h : m.KeepsByte throughput dev base max64)
    (hT : throughput.toNat < 2 ^ 24) {bs : List Batch} {m' : Miner} {r : ScanResult}
    (hscan : m.scan H throughput dev max64 bs = some (m', r)) :
    ∀ x ∈ r.launched, ∀ k < throughput.toNat, topByte (x + BitVec.ofNat 32 k) = topByte base := by
  intro x hx k hk
  rcases h with hzero | ⟨hbyte, hroom⟩
  · omega
  obtain ⟨hle, hbound⟩ := Miner.scan_bounds hT hscan x hx
  have hlt := (m.work2 dev).nonce.isLt
  rw [← hbyte, topByte_eq_iff, BitVec.toNat_add, BitVec.toNat_ofNat]
  omega

/-- **The condition is exact**: it holds if and only if all nonces of the call have the top
byte of the job's, whatever is found and whenever the flag is raised. -/
theorem scan_keepsByte_iff (hT : throughput.toNat < 2 ^ 24) (hpos : 0 < throughput.toNat) :
    (∀ bs m' r, m.scan H throughput dev max64 bs = some (m', r) → ∀ x ∈ r.launched,
      ∀ k < throughput.toNat, topByte (x + BitVec.ofNat 32 k) = topByte base) ↔
      m.KeepsByte throughput dev base max64 := by
  refine ⟨fun h => Or.inr ?_, fun h bs m' r hscan => h.topByte_eq hT hscan⟩
  obtain ⟨k, bs, m', r, hk, hr, hall, -⟩ := m.exists_scan H dev max64 hT hpos
  have hin := h bs m' r hr
  have hlt := (m.work2 dev).nonce.isLt
  obtain ⟨x₀, hx₀, hval₀⟩ := hall 0 (Nat.zero_le _)
  obtain ⟨x, hx, hval⟩ := hall k le_rfl
  have hfirst := hin x₀ hx₀ 0 hpos
  have hbyte : topByte (m.work2 dev).nonce = topByte base := by
    obtain rfl : x₀ = (m.work2 dev).nonce := BitVec.eq_of_toNat_eq (by omega)
    simpa using hfirst
  refine ⟨hbyte, ?_⟩
  rw [hk]
  -- the last batch starts in the block, and so all its nonces are in it
  have hblock := batchCount_block hk
  by_contra hover
  rw [Nat.add_mul] at hover
  have hlast := hin x hx (2 ^ 24 - ((m.work2 dev).nonce.toNat % 2 ^ 24 + k * throughput.toNat))
    (by omega)
  rw [← hbyte, topByte_eq_iff, BitVec.toNat_add, BitVec.toNat_ofNat] at hlast
  omega

end KeepsByte

/-- **A call that meets the condition keeps the top byte.** -/
theorem HashingStep.keepsByte {c : SearchConfig} (hT : ∀ t, (c.throughput t).toNat < 2 ^ 24)
    {s s' : Hashing} {e : ScanCall} (h : s.KeepsByte c) (hstep : HashingStep c s e s')
    (hcall : c.KeepsByte s e) : s'.KeepsByte c := by
  cases hstep with
  | @call m m' r hthr hrefresh hscan hdevice =>
    obtain rfl := refreshBlock_eq_some hrefresh
    have hnew := Miner.KeepsByte.topByte_eq hcall (hT e.thrId) hscan
    constructor
    · intro t x hx
      rcases mem_append_map_mk.mp hx with hold | ⟨rfl, hin⟩
      · exact h.1 t x hold
      · exact hnew x hin
    · intro t n hn
      rcases mem_append_map_mk.mp hn with hn | ⟨-, hn⟩
      · exact h.2 t n hn
      · -- a result is a nonce of a batch of this call
        obtain ⟨hlt, x, b, hzip, hfound⟩ :=
          scanLoop_results_found (Miner.scan_eq_some hscan).1 n hn
        rcases hdevice x b hzip n hfound with rfl | ⟨k, hk, rfl⟩
        · exact absurd hlt (BitVec.lt_irrefl _)
        · exact hnew x (List.of_mem_zip hzip).1 k hk

/-- **The top byte of the job's nonce is kept**, in every run whose calls all meet the
condition: with any threads in any state, any batches below `2 ^ 24` nonces and any job. -/
theorem keepsByte_of_run {c : SearchConfig} (hT : ∀ t, (c.throughput t).toNat < 2 ^ 24)
    {miner : ℕ → Miner} {es : List ScanCall} {s : Hashing}
    (hrun : Trace.Run (Trace.restrict (HashingStep c) c.KeepsByte) ⟨⟨miner, []⟩, []⟩ es s) :
    s.KeepsByte c :=
  hrun.invariant_state (Hashing.KeepsByte c) ⟨nofun, nofun⟩
    fun _ _ _ h hstep => hstep.1.keepsByte hT h hstep.2

/-- A call that is stopped during its first batch, with nothing found. -/
theorem HashingStep.stopped (c : SearchConfig) (s : Hashing) (thrId : ℕ) (max64 : ℤ)
    (hthr : thrId < c.nThreads) :
    HashingStep c s ⟨thrId, .stratum c.job, max64, [.stopped]⟩
      ⟨s.search.afterStopped c thrId max64, s.submitted⟩ := by
  have hstep : HashingStep c s ⟨thrId, .stratum c.job, max64, [.stopped]⟩
      ⟨s.search.afterStopped c thrId max64, s.submitted ++ []⟩ := by
    refine .call (e := ⟨thrId, .stratum c.job, max64, [.stopped]⟩) hthr
      (refreshBlock_stratum c.nThreads thrId c.dev c.job (s.search.miner thrId))
      (Miner.scan_stopped c.hash (c.throughput thrId) c.dev max64 _) fun x b hb n hn => ?_
    obtain rfl : b = .stopped := List.mem_singleton.mp (List.of_mem_zip hb).2
    exact Or.inl (hn.elim id id)
  rwa [List.append_nil] at hstep

/-- Two calls of one thread. -/
theorem keepsByte_of_run_second :
    let c : SearchConfig := ⟨fun _ _ _ => 0, 2, fun _ => 320, 0, ⟨fun _ => 7, fun _ => 1, [97], 0⟩⟩
    let s : Search := ⟨fun t => .initial 2 t, []⟩
    Hashing.KeepsByte c ⟨(s.afterStopped c 0 0x200).afterStopped c 0 0x200, []⟩ := by
  intro c s
  have h0 : c.KeepsByte ⟨s, []⟩ ⟨0, .stratum c.job, 0x200, [.stopped]⟩ := by decide +kernel
  have h1 : c.KeepsByte ⟨s.afterStopped c 0 0x200, []⟩ ⟨0, .stratum c.job, 0x200, [.stopped]⟩ := by
    decide +kernel
  have hT : ∀ t, (c.throughput t).toNat < 2 ^ 24 := fun _ => (by decide : 320 < 2 ^ 24)
  have hfirst : Trace.Run (Trace.restrict (HashingStep c) c.KeepsByte) ⟨s, []⟩ _ _ :=
    Trace.Run.nil.snoc ⟨.stopped c ⟨s, []⟩ 0 0x200 (by decide), h0⟩
  exact keepsByte_of_run hT (hfirst.snoc ⟨.stopped c _ 0 0x200 (by decide), h1⟩)

/-- A batch that begins with the last nonce of the job's block. -/
theorem not_keepsByte_of_cross :
    ¬ ∀ (c : SearchConfig) (miner : ℕ → Miner) (es : List ScanCall) (s : Hashing),
      (∀ t, (c.throughput t).toNat < 2 ^ 24) →
      Trace.Run (HashingStep c) ⟨⟨miner, []⟩, []⟩ es s → s.KeepsByte c := by
  intro h
  let c : SearchConfig := ⟨fun _ _ _ => 0, 1, fun _ => 1024, 0,
    (⟨fun _ => 7, fun _ => 1, [97], 0⟩ : Work).setNonce 0x00ffffff⟩
  let s : Search := ⟨fun t => .initial 1 t, []⟩
  have hrun : Trace.Run (HashingStep c) ⟨s, []⟩ _ _ :=
    Trace.Run.nil.snoc (.stopped c ⟨s, []⟩ 0 0x200 (by decide))
  have hT : ∀ t, (c.throughput t).toNat < 2 ^ 24 := fun _ => (by decide : 1024 < 2 ^ 24)
  have hbyte := (h c _ _ _ hT hrun).1 0 0x00ffffff (by decide +kernel) 1 (by decide)
  revert hbyte
  decide +kernel

end XmrMiner
