import XmrMiner.Cuda.Batches
import XmrMiner.Cuda.Final
import XmrMiner.Cuda.FinalHashes

/-!
# A scan with its device

The threads of the last kernel compare what the phases have computed with the target, and
leave two nonces at most in the slots, in an order that the device decides on.  The
processor hashes these nonces again and returns them as results.

Both compute the same hash, so that a nonce from a slot is always confirmed; and a batch
with a valid nonce is the last one of the scan.

## Main definitions

* `cnHash` — the hash of the processor, for `scanhashCryptonight`.
* `Device.finalLaunch`, `Device.Ends` — the last kernel of a batch, and what it ends with.

## Main results

* `FinalLaunch.Exchanged.slots` — the slots in the end, by the number of the winners.
* `Device.Ends.confirms` — **the processor confirms what the device finds.**
* `scanhashCryptonight_finds` — **a scan finds a valid nonce if it has hashed one**, and
  nothing else.
-/

namespace XmrMiner

open ByteMem Blocks

/-- The hash with which the processor confirms a nonce. -/
def cnHash : CnHash := fun input variant => digestWords (cryptonightDigest variant input)

/-! ### The slots, by the number of the winners -/

namespace FinalLaunch

variable {l : FinalLaunch} {order : List ℕ} {s : FinalState}

/-- The slots in the end: the first one is filled by the last winner, the second one by
another. -/
theorem Exchanged.slots (h : l.Exchanged order s) (hc : l.Complete s) :
    (order = [] ∧ s.resNonce = (0xffffffff, 0xffffffff)) ∨
      (∃ v, order = [v] ∧ s.resNonce = (l.nonce v, 0xffffffff)) ∨
      ∃ v w rest, order = v :: rest ∧ w ∈ rest ∧ s.resNonce = (l.nonce v, l.nonce w) := by
  obtain ⟨-, hsecond⟩ := h.complete hc
  rcases order with _ | ⟨v, _ | ⟨w, rest⟩⟩
  · exact Or.inl ⟨rfl, Prod.ext h.first (by simpa using h.second)⟩
  · exact Or.inr (Or.inl ⟨v, rfl, Prod.ext h.first (by simpa using h.second)⟩)
  · obtain ⟨u, hu, hval⟩ := h.exists_second (hsecond (List.cons_ne_nil w rest))
    exact Or.inr (Or.inr ⟨v, u, w :: rest, rfl, hu, Prod.ext h.first hval.symm⟩)

end FinalLaunch

/-! ### A batch -/

section Batch

variable (dev : Device) (pdata : ByteMem) (ptarget : Fin 8 → BitVec 32)

/-- The last kernel of the batch that starts at `nonce`.  The phases of a fair batch end, so
that each of its threads has a hash. -/
def Device.finalLaunch (r : BatchRun) (u : ℕ → HashStacks) (nonce : BitVec 32) : FinalLaunch where
  threads := dev.throughput
  startNonce := nonce
  target := ptarget
  hash thread := (dev.hash (cnExtraHashes dev.rotl dev.rotr (u thread)) r pdata nonce
    (blobVariant pdata) thread).getD fun _ => 0

/-- The batch that starts at `nonce` can end with `foundNonce`: for some content of the arrays
and stacks, and some order of all threads. -/
def Device.Ends (nonce : BitVec 32) (foundNonce : BitVec 32 × BitVec 32) : Prop :=
  ∃ (r : BatchRun) (u : ℕ → HashStacks) (schedule : List ℕ), r.Fair dev ∧
    let l := dev.finalLaunch pdata ptarget r u nonce
    l.Complete (l.run schedule FinalLaunch.init) ∧
      foundNonce = (l.run schedule FinalLaunch.init).resNonce

variable {dev pdata ptarget} {nonce : BitVec 32}

/-- The winners are the threads with a valid nonce. -/
theorem winner_finalLaunch (hthreads : 0 < dev.threads) (hf : dev.bfactor ≤ 10)
    (hfits : dev.Fits) {r : BatchRun} (hr : r.Fair dev) (u : ℕ → HashStacks) (thread : ℕ) :
    (dev.finalLaunch pdata ptarget r u nonce).Winner thread ↔
      thread < dev.throughput ∧
        validates cnHash pdata ptarget (nonce + BitVec.ofNat 32 thread) = true := by
  rw [FinalLaunch.Winner, validates_iff]
  refine and_congr_right fun hthread => ?_
  have hhash : (dev.finalLaunch pdata ptarget r u nonce).hash thread
      = hostHash cnHash pdata (nonce + BitVec.ofNat 32 thread) := by
    have hdigest := dev.hash_eq_digest (u thread) hthreads hf hfits hr pdata nonce
      (blobVariant pdata) hthread
    exact congrArg (Option.getD · fun _ => 0) hdigest
  rw [hhash]
  rfl

/-- What the processor confirms at the end of a batch: valid nonces of it, two of them if there
are as many. -/
structure Confirms (H : CnHash) (pdata : ByteMem) (ptarget : Fin 8 → BitVec 32)
    (nonces found : List (BitVec 32)) : Prop where
  /-- No nonce twice. -/
  nodup : found.Nodup
  /-- They are valid. -/
  valid : ∀ x ∈ found, x ∈ nonces ∧ validates H pdata ptarget x = true
  /-- Two at most, and all of them if there are not more. -/
  length : found.length = min 2 (nonces.countP (validates H pdata ptarget))

/-- Behind a batch in which nothing is found. -/
theorem Confirms.append_left {H : CnHash} {nonces nonces' found : List (BitVec 32)}
    (h : Confirms H pdata ptarget nonces []) (h' : Confirms H pdata ptarget nonces' found) :
    Confirms H pdata ptarget (nonces ++ nonces') found where
  nodup := h'.nodup
  valid x hx := ⟨List.mem_append_right nonces (h'.valid x hx).1, (h'.valid x hx).2⟩
  length := by
    have hnone := h.length
    have hfound := h'.length
    rw [List.length_nil] at hnone
    rw [hfound, List.countP_append]
    omega

/-- **The processor confirms what the device finds.** -/
theorem Device.Ends.confirms (hthreads : 0 < dev.threads) (hf : dev.bfactor ≤ 10)
    (hfits : dev.Fits) (hthroughput : dev.throughput ≤ 2 ^ 32) {foundNonce : BitVec 32 × BitVec 32}
    (h : dev.Ends pdata ptarget nonce foundNonce)
    (hsentinel : 0xffffffff ∉ noncesFrom nonce dev.throughput) :
    Confirms cnHash pdata ptarget (noncesFrom nonce dev.throughput)
      (confirmed cnHash pdata ptarget foundNonce) := by
  obtain ⟨r, u, schedule, hr, hcomplete, rfl⟩ := h
  set l := dev.finalLaunch pdata ptarget r u nonce with hl
  have hwinner (t : ℕ) : l.Winner t ↔
      t < dev.throughput ∧ validates cnHash pdata ptarget (l.nonce t) = true :=
    winner_finalLaunch hthreads hf hfits hr u t
  have hmemFrom {t : ℕ} (ht : l.Winner t) : l.nonce t ∈ noncesFrom nonce dev.throughput :=
    List.mem_map.mpr ⟨t, List.mem_range.mpr ((hwinner t).mp ht).1, rfl⟩
  have hne (t : ℕ) (ht : l.Winner t) : l.nonce t ≠ 0xffffffff := fun heq =>
    hsentinel (heq ▸ hmemFrom ht)
  obtain ⟨order, hex⟩ := FinalLaunch.exchanged_init.run hne schedule
  obtain ⟨hmem, -⟩ := hex.complete hcomplete
  -- the winners are counted by the valid nonces
  have hcount : (noncesFrom nonce dev.throughput).countP (validates cnHash pdata ptarget)
      = order.length := by
    rw [noncesFrom, List.countP_map, List.countP_eq_length_filter]
    refine List.Perm.length_eq ((List.perm_ext_iff_of_nodup (List.nodup_range.filter _)
      hex.nodup).mpr fun t => ?_)
    rw [List.mem_filter, List.mem_range, hmem, hwinner]
    rfl
  have hgood {t : ℕ} (ht : t ∈ order) : l.nonce t < 0xffffffff ∧
      validates cnHash pdata ptarget (l.nonce t) = true :=
    ⟨FinalLaunch.lt_sentinel_iff.mpr (hne t ((hmem t).mp ht)), ((hwinner t).mp ((hmem t).mp ht)).2⟩
  have hfrom {t : ℕ} (ht : t ∈ order) : l.nonce t ∈ noncesFrom nonce dev.throughput ∧
      validates cnHash pdata ptarget (l.nonce t) = true :=
    ⟨hmemFrom ((hmem t).mp ht), (hgood ht).2⟩
  rcases hex.slots hcomplete with ⟨rfl, hslots⟩ | ⟨v, rfl, hslots⟩ | ⟨v, w, rest, rfl, hw, hslots⟩
  · have hnone : confirmed cnHash pdata ptarget (0xffffffff, 0xffffffff) = [] :=
      if_neg fun h => BitVec.lt_irrefl _ h.1
    rw [hslots, hnone]
    exact ⟨List.nodup_nil, fun x hx => absurd hx List.not_mem_nil, by rw [hcount]; rfl⟩
  · have hv := hgood (List.mem_singleton_self v)
    have hone : confirmed cnHash pdata ptarget (l.nonce v, 0xffffffff) = [l.nonce v] := by
      rw [confirmed, if_pos hv, if_neg fun h => BitVec.lt_irrefl _ h.1]
    rw [hslots, hone]
    refine ⟨List.nodup_singleton _, fun x hx => ?_, by rw [hcount]; rfl⟩
    obtain rfl := List.mem_singleton.mp hx
    exact hfrom (List.mem_singleton_self v)
  · have hv : v ∈ v :: rest := List.mem_cons_self
    have hw' : w ∈ v :: rest := List.mem_cons_of_mem v hw
    have htwo : confirmed cnHash pdata ptarget (l.nonce v, l.nonce w)
        = [l.nonce v, l.nonce w] := by
      rw [confirmed, if_pos (hgood hv), if_pos (hgood hw')]
    have hother : l.nonce v ≠ l.nonce w := fun heq =>
      (hex.winner_of_mem hw).2 (FinalLaunch.nonce_inj hthroughput ((hmem w).mp hw').1
        ((hmem v).mp hv).1 heq.symm)
    have hlen := List.length_pos_of_mem hw
    rw [hslots, htwo]
    refine ⟨by simp [hother], fun x hx => ?_, ?_⟩
    · rcases List.mem_pair.mp hx with rfl | rfl
      · exact hfrom hv
      · exact hfrom hw'
    · have hmin : min 2 (v :: rest).length = 2 := by
        rw [List.length_cons]
        omega
      rw [hcount, hmin]
      rfl

end Batch

/-! ### A scan -/

section Scan

variable {dev : Device} {pdata : ByteMem} {ptarget : Fin 8 → BitVec 32}
  {throughput firstNonce maxNonce nonce : BitVec 32}

theorem scanLoop_finds (hthreads : 0 < dev.threads) (hf : dev.bfactor ≤ 10) (hfits : dev.Fits)
    (hthroughput : throughput.toNat = dev.throughput) (bs : List Batch) {r : ScanResult}
    (h : scanLoop cnHash pdata ptarget throughput firstNonce maxNonce nonce bs = some r)
    (hends : ∀ x b, (x, b) ∈ r.launched.zip bs → dev.Ends pdata ptarget x b.foundNonce)
    (hsentinel : 0xffffffff ∉ r.hashed throughput) :
    Confirms cnHash pdata ptarget (r.hashed throughput) r.results := by
  have hle : dev.throughput ≤ 2 ^ 32 := hthroughput ▸ throughput.isLt.le
  induction bs generalizing nonce r with
  | nil => cases h
  | cons b bs ih =>
    have hsingle (x : BitVec 32) (results : List (BitVec 32)) (done : BitVec 32) :
        (ScanResult.mk results done [x]).hashed throughput = noncesFrom x dev.throughput := by
      rw [ScanResult.hashed, List.flatMap_singleton, hthroughput]
    rcases scanLoop_cons h with ⟨-, rfl⟩ | ⟨hmissed, -, -, r', hr', rfl⟩ | ⟨hmissed, -, rfl⟩
    · rw [hsingle] at hsentinel ⊢
      exact (hends nonce b (List.mem_singleton_self _)).confirms hthreads hf hfits hle hsentinel
    · have hsplit : ({ r' with launched := nonce :: r'.launched } : ScanResult).hashed throughput
          = noncesFrom nonce dev.throughput ++ r'.hashed throughput := by
        rw [ScanResult.hashed, ScanResult.hashed, List.flatMap_cons, hthroughput]
      rw [hsplit, List.mem_append, not_or] at hsentinel
      rw [hsplit]
      have hbatch := (hends nonce b List.mem_cons_self).confirms hthreads hf hfits hle hsentinel.1
      rw [hmissed] at hbatch
      exact hbatch.append_left (ih hr' (fun x c hx => hends x c (List.mem_cons_of_mem _ hx))
        hsentinel.2)
    · rw [hsingle] at hsentinel ⊢
      have hbatch := (hends nonce b (List.mem_singleton_self _)).confirms hthreads hf hfits hle
        hsentinel
      rwa [hmissed] at hbatch

/-- **A scan finds a valid nonce if it has hashed one**, however the device goes through its
batches: it returns valid nonces only, each once, and two of them if there are as many.  No
nonce of the batches may be the one that stands for none. -/
theorem scanhashCryptonight_finds (hthreads : 0 < dev.threads) (hf : dev.bfactor ≤ 10)
    (hfits : dev.Fits) (hthroughput : throughput.toNat = dev.throughput) {bs : List Batch}
    {r : ScanResult}
    (h : scanhashCryptonight cnHash pdata ptarget throughput maxNonce bs = some r)
    (hends : ∀ x b, (x, b) ∈ r.launched.zip bs → dev.Ends pdata ptarget x b.foundNonce)
    (hsentinel : 0xffffffff ∉ r.hashed throughput) :
    Confirms cnHash pdata ptarget (r.hashed throughput) r.results :=
  scanLoop_finds hthreads hf hfits hthroughput bs h hends hsentinel

end Scan

/-- Every batch can end. -/
theorem Device.exists_ends (dev : Device) (pdata : ByteMem) (ptarget : Fin 8 → BitVec 32)
    (nonce : BitVec 32) : ∃ foundNonce, dev.Ends pdata ptarget nonce foundNonce := by
  let st : ByteMem := fun _ => 0
  let u : HashStacks := ⟨⟨blake256H, #v[0, 0, 0, 0], 0, 0, 0, false, st⟩,
    ⟨Vector.replicate 16 0, 0, 0, st, 0, 0⟩, ⟨0, 0, 0, Vector.replicate 16 0, st⟩,
    ⟨0, 0, 0, 0, skein512IV256, st⟩⟩
  refine ⟨_, lockstepRun dev, fun _ => u, (List.range dev.throughput).flatMap fun t => [t, t],
    lockstepRun_fair dev, fun t ht => ?_, rfl⟩
  have hpc := FinalLaunch.run_twice_pc
    (l := dev.finalLaunch pdata ptarget (lockstepRun dev) (fun _ => u) nonce)
    (List.range dev.throughput) (fun t ht => List.mem_range.mp ht) List.nodup_range
    FinalLaunch.init t
  exact hpc.trans (if_pos (List.mem_range.mpr ht))

/-- A scan of one batch of two nonces, both of which are valid. -/
theorem scanhashCryptonight_finds_of_one_batch :
    ∃ b r, scanhashCryptonight cnHash (nonceBlob 7) (fun _ => 0xffffffff) 2 0 [b] = some r ∧
      r.hashed 2 = [7, 8] ∧
      Confirms cnHash (nonceBlob 7) (fun _ => 0xffffffff) (r.hashed 2) r.results := by
  let dev : Device := ⟨.funnelShift, .shifts, .shfl, .int, 1, 2, 6⟩
  obtain ⟨foundNonce, hends⟩ := dev.exists_ends (nonceBlob 7) (fun _ => 0xffffffff) 7
  have hone : ∃ r, scanhashCryptonight cnHash (nonceBlob 7) (fun _ => 0xffffffff) 2 0
      [⟨foundNonce, false⟩] = some r ∧ r.launched = [7] := by
    have hload : load32 (nonceBlob 7) 39 = 7 := by decide
    rw [scanhashCryptonight, scanLoop, hload]
    dsimp only
    split
    · exact ⟨_, rfl, rfl⟩
    · rw [if_neg (by simp)]
      exact ⟨_, rfl, rfl⟩
  obtain ⟨r, hscan, hlaunched⟩ := hone
  have hhashed : r.hashed 2 = [7, 8] := by
    rw [ScanResult.hashed, hlaunched]
    rfl
  have hall (x : BitVec 32) (b : Batch) (hb : (x, b) ∈ r.launched.zip [⟨foundNonce, false⟩]) :
      dev.Ends (nonceBlob 7) (fun _ => 0xffffffff) x b.foundNonce := by
    rw [hlaunched] at hb
    obtain ⟨rfl, rfl⟩ := Prod.mk.inj (List.mem_singleton.mp hb)
    exact hends
  have hsentinel : 0xffffffff ∉ r.hashed 2 := by
    rw [hhashed]
    decide
  have hthroughput : (2 : BitVec 32).toNat = dev.throughput := rfl
  exact ⟨_, r, hscan, hhashed,
    scanhashCryptonight_finds (by decide) (by decide) (by decide) hthroughput hscan hall hsentinel⟩

end XmrMiner
