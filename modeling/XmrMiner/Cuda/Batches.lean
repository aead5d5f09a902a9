import Mathlib.Data.List.Flatten
import XmrMiner.Cuda.Scan

/-!
# The batches of a scan

A scan ends in one of three ways: a batch has found a nonce that the processor
confirms, `nonce` has been moved on to `max_nonce` behind the last batch of a block of
`2 ^ 24` nonces, or the loop condition has failed.  `hashes_done` is computed from
`nonce`, which only in the second case does not stand behind the last batch.

## Main definitions

* `noncesFrom` — consecutive nonces, those of a batch for instance.
* `Jumps` — a scan that moves `nonce` on to `max_nonce`.
* `batchesToMax` — the distance to the upper bound, in batches, rounded up.
* `validCandidates` — the candidates of a batch that the processor would confirm.

## Main results

* `scanLoop_hashesDone` — where `hashes_done` ends, in either case.
* `scanhashCryptonight_counted_iff` — **when `hashes_done` counts what was hashed.**
* `scanhashCryptonight_ends` — **every scan ends**, and `nonce` does not wrap around.
* `scanhashCryptonight_results_iff` — **when no valid candidate is dropped.**
-/

namespace XmrMiner

open ByteMem

/-! ### Consecutive nonces -/

/-- The `n` nonces from the given one on. -/
def noncesFrom (nonce : BitVec 32) (n : ℕ) : List (BitVec 32) :=
  (List.range n).map fun thread => nonce + BitVec.ofNat 32 thread

@[simp] theorem length_noncesFrom (nonce : BitVec 32) (n : ℕ) :
    (noncesFrom nonce n).length = n := by
  simp [noncesFrom]

theorem noncesFrom_add (nonce : BitVec 32) (m n : ℕ) :
    noncesFrom nonce (m + n)
      = noncesFrom nonce m ++ noncesFrom (nonce + BitVec.ofNat 32 m) n := by
  simp [noncesFrom, List.range_add, BitVec.ofNat_add, BitVec.add_assoc]

/-- The nonces that the batches of a scan have hashed, one thread a nonce. -/
def ScanResult.hashed (r : ScanResult) (throughput : BitVec 32) : List (BitVec 32) :=
  r.launched.flatMap fun nonce => noncesFrom nonce throughput.toNat

/-- `hashes_done` counts what was hashed: the nonces of all batches, which are the ones
from the first nonce on. -/
structure ScanResult.Counted (r : ScanResult) (throughput firstNonce : BitVec 32) : Prop where
  /-- The number. -/
  count : r.hashesDone.toNat = throughput.toNat * r.launched.length
  /-- The nonces. -/
  nonces : r.hashed throughput = noncesFrom firstNonce r.hashesDone.toNat

/-! ### The jump to the upper bound -/

/-- How many batches the loop launches before the one that the masked test ends it with. -/
def batchesBeforeJump (throughput nonce : ℕ) : ℕ := (0x00ffffff - nonce % 2 ^ 24) / throughput

section Batches

variable {H : CnHash} {pdata : ByteMem} {ptarget : Fin 8 → BitVec 32}
  {throughput firstNonce maxNonce nonce : BitVec 32}

/-- The first candidate of a batch is none, or not confirmed. -/
def Batch.Missed (H : CnHash) (pdata : ByteMem) (ptarget : Fin 8 → BitVec 32) (b : Batch) : Prop :=
  ¬ (b.foundNonce.1 < 0xffffffff ∧ validates H pdata ptarget b.foundNonce.1 = true)

/-- The scan moves `nonce` on to `max_nonce`: it gets as far as the batch for which the
masked test fires, and this one misses as well. -/
structure Jumps (H : CnHash) (pdata : ByteMem) (ptarget : Fin 8 → BitVec 32)
    (throughput maxNonce nonce : BitVec 32) (bs : List Batch) : Prop where
  /-- The batch is there. -/
  reached : batchesBeforeJump throughput.toNat nonce.toNat < bs.length
  /-- No batch up to it finds anything. -/
  missed : ∀ b ∈ bs.take (batchesBeforeJump throughput.toNat nonce.toNat + 1),
    b.Missed H pdata ptarget
  /-- The flag is not raised before it. -/
  running : ∀ b ∈ bs.take (batchesBeforeJump throughput.toNat nonce.toNat), b.restart = false
  /-- The upper bound is not reached before it. -/
  below : batchesBeforeJump throughput.toNat nonce.toNat = 0 ∨
    nonce.toNat + batchesBeforeJump throughput.toNat nonce.toNat * throughput.toNat
      < maxNonce.toNat

theorem eq_add_of_toNat {x y z : BitVec 32} (h : z.toNat = x.toNat + y.toNat) : z = x + y := by
  apply BitVec.eq_of_toNat_eq
  have := z.isLt
  rw [h, BitVec.toNat_add_of_lt (by omega)]

theorem confirmed_eq_nil_iff {b : Batch} :
    confirmed H pdata ptarget b.foundNonce = [] ↔ b.Missed H pdata ptarget := by
  unfold confirmed Batch.Missed
  split
  · next hfirst =>
    refine iff_of_false ?_ (not_not.mpr hfirst)
    split <;> simp
  · next hfirst => exact iff_of_true rfl hfirst

theorem batchesBeforeJump_of_high {throughput nonce : ℕ}
    (hhigh : 2 ^ 24 ≤ nonce % 2 ^ 24 + throughput) : batchesBeforeJump throughput nonce = 0 :=
  Nat.div_eq_of_lt (by omega)

theorem batchesBeforeJump_of_low {throughput nonce : ℕ} (hpos : 0 < throughput)
    (hlow : nonce % 2 ^ 24 + throughput < 2 ^ 24) :
    batchesBeforeJump throughput nonce = batchesBeforeJump throughput (nonce + throughput) + 1 := by
  have hmod : (nonce + throughput) % 2 ^ 24 = nonce % 2 ^ 24 + throughput := by omega
  rw [batchesBeforeJump, batchesBeforeJump, hmod, ← Nat.add_div_right _ hpos]
  congr 1
  omega

/-- In the last batch of a block. -/
theorem jumps_cons_of_high
    (hhigh : 2 ^ 24 ≤ nonce.toNat % 2 ^ 24 + throughput.toNat) (b : Batch) (bs : List Batch) :
    Jumps H pdata ptarget throughput maxNonce nonce (b :: bs) ↔ b.Missed H pdata ptarget := by
  have hzero := batchesBeforeJump_of_high hhigh
  constructor
  · intro h
    apply h.missed
    simp [hzero]
  · intro hb
    constructor <;> simp [hzero, hb]

/-- One batch further. -/
theorem jumps_cons_of_low {next : BitVec 32} (hpos : 0 < throughput.toNat)
    (hlow : nonce.toNat % 2 ^ 24 + throughput.toNat < 2 ^ 24)
    (hnext : next.toNat = nonce.toNat + throughput.toNat) (b : Batch) (bs : List Batch) :
    Jumps H pdata ptarget throughput maxNonce nonce (b :: bs) ↔
      b.Missed H pdata ptarget ∧ b.restart = false ∧ next < maxNonce ∧
        Jumps H pdata ptarget throughput maxNonce next bs := by
  have hsucc := batchesBeforeJump_of_low hpos hlow
  rw [← hnext] at hsucc
  have hmul : (batchesBeforeJump throughput.toNat next.toNat + 1) * throughput.toNat =
      batchesBeforeJump throughput.toNat next.toNat * throughput.toNat + throughput.toNat :=
    Nat.succ_mul _ _
  rw [BitVec.lt_def]
  constructor
  · rintro ⟨hreached, hmissed, hrunning, hbelow⟩
    simp only [hsucc, List.length_cons, List.take_succ_cons, List.forall_mem_cons] at *
    refine ⟨hmissed.1, hrunning.1, by omega, by omega, hmissed.2, hrunning.2, by omega⟩
  · rintro ⟨hb, hflag, hlt, hreached, hmissed, hrunning, hbelow⟩
    constructor
    · simp only [hsucc, List.length_cons]
      omega
    · simp only [hsucc, List.take_succ_cons, List.forall_mem_cons]
      exact ⟨hb, hmissed⟩
    · simp only [hsucc, List.take_succ_cons, List.forall_mem_cons]
      exact ⟨hflag, hrunning⟩
    · rw [hsucc, hmul]
      rcases hbelow with hzero | hbelow
      · rw [hzero, Nat.zero_mul]
        omega
      · omega

/-- **Where a scan ends**: behind its last batch, unless it has jumped, in which case this
is the one for which the masked test fires. -/
theorem scanLoop_hashesDone (hpos : 0 < throughput.toNat) (hT : throughput.toNat < 2 ^ 24)
    (bs : List Batch) {r : ScanResult}
    (h : scanLoop H pdata ptarget throughput firstNonce maxNonce nonce bs = some r) :
    (Jumps H pdata ptarget throughput maxNonce nonce bs →
        r.launched.length = batchesBeforeJump throughput.toNat nonce.toNat + 1 ∧
          r.hashesDone = maxNonce - firstNonce) ∧
      (¬ Jumps H pdata ptarget throughput maxNonce nonce bs →
        firstNonce + r.hashesDone
          = nonce + BitVec.ofNat 32 (r.launched.length * throughput.toNat)) := by
  have hone : BitVec.ofNat 32 (1 * throughput.toNat) = throughput := by simp
  have hfoundEnd (nonce : BitVec 32) :
      firstNonce + (nonce - firstNonce + throughput) = nonce + throughput := by
    rw [← BitVec.add_assoc, BitVec.add_comm firstNonce, BitVec.sub_add_cancel]
  induction bs generalizing nonce r with
  | nil => cases h
  | cons b bs ih =>
    rcases nextNonce_of_low maxNonce nonce hT with ⟨hlow, hnext⟩ | ⟨hhigh, hnext⟩
    · rw [jumps_cons_of_low hpos hlow hnext, batchesBeforeJump_of_low hpos hlow, ← hnext]
      have hadd : nextNonce throughput maxNonce nonce = nonce + throughput := eq_add_of_toNat hnext
      rcases scanLoop_cons h with ⟨hfound, rfl⟩ | ⟨hmissed, hlt, hflag, r', hr', rfl⟩ |
        ⟨-, hend, rfl⟩
      · refine ⟨fun hjump => absurd (confirmed_eq_nil_iff.mpr hjump.1) hfound, fun _ => ?_⟩
        rw [List.length_singleton, hone, hfoundEnd]
      · obtain ⟨hjump, hstay⟩ := ih hr'
        refine ⟨fun hj => ?_, fun hj => ?_⟩
        · obtain ⟨hlen, hdone⟩ := hjump hj.2.2.2
          exact ⟨by simp [hlen], hdone⟩
        · have hj' := fun h' => hj ⟨confirmed_eq_nil_iff.mp hmissed, hflag, hlt, h'⟩
          rw [hstay hj', hadd, List.length_cons, Nat.succ_mul, Nat.add_comm, BitVec.ofNat_add,
            BitVec.ofNat_toNat, BitVec.setWidth_eq, BitVec.add_assoc]
      · refine ⟨fun hj => absurd ⟨hj.2.2.1, hj.2.1⟩ hend, fun _ => ?_⟩
        rw [List.length_singleton, hone, hadd, BitVec.add_comm firstNonce, BitVec.sub_add_cancel]
    · rw [jumps_cons_of_high hhigh, batchesBeforeJump_of_high hhigh]
      rcases scanLoop_cons h with ⟨hfound, rfl⟩ | ⟨-, hlt, -⟩ | ⟨hmissed, -, rfl⟩
      · refine ⟨fun hmissed => absurd (confirmed_eq_nil_iff.mpr hmissed) hfound, fun _ => ?_⟩
        rw [List.length_singleton, hone, hfoundEnd]
      · exact absurd hlt (by rw [hnext]; exact BitVec.lt_irrefl _)
      · refine ⟨fun _ => ⟨rfl, by rw [hnext]⟩, fun hb => ?_⟩
        exact absurd (confirmed_eq_nil_iff.mp hmissed) hb

/-- The batches of a scan are consecutive. -/
theorem hashed_eq (hpos : 0 < throughput.toNat) (hT : throughput.toNat < 2 ^ 24)
    (bs : List Batch) {r : ScanResult}
    (h : scanLoop H pdata ptarget throughput firstNonce maxNonce nonce bs = some r) :
    r.hashed throughput = noncesFrom nonce (r.launched.length * throughput.toNat) ∧
      nonce.toNat % 2 ^ 24 + r.launched.length * throughput.toNat
        < 2 ^ 24 + throughput.toNat := by
  have hsingle (nonce : BitVec 32) : nonce.toNat % 2 ^ 24 + 1 * throughput.toNat
      < 2 ^ 24 + throughput.toNat := by omega
  induction bs generalizing nonce r with
  | nil => cases h
  | cons b bs ih =>
    rcases scanLoop_cons h with ⟨-, rfl⟩ | ⟨-, hlt, -, r', hr', rfl⟩ | ⟨-, -, rfl⟩
    · exact ⟨by simp [ScanResult.hashed], hsingle nonce⟩
    · rcases nextNonce_of_low maxNonce nonce hT with ⟨hlow, hnext⟩ | ⟨-, hnext⟩
      · obtain ⟨hrest, hbound⟩ := ih hr'
        have hadd : nextNonce throughput maxNonce nonce
            = nonce + BitVec.ofNat 32 throughput.toNat := by
          rw [BitVec.ofNat_toNat, BitVec.setWidth_eq, eq_add_of_toNat hnext]
        constructor
        · rw [List.length_cons, Nat.succ_mul, Nat.add_comm, noncesFrom_add, ← hadd, ← hrest]
          rfl
        · rw [List.length_cons, Nat.succ_mul]
          omega
      · exact absurd hlt (by rw [hnext]; exact BitVec.lt_irrefl _)
    · exact ⟨by simp [ScanResult.hashed], hsingle nonce⟩

/-- **`hashes_done` counts what was hashed** unless the scan jumps: then it is the distance
to the upper bound, which only by chance is what the batches have covered. -/
theorem scanhashCryptonight_counted_iff (hpos : 0 < throughput.toNat)
    (hT : throughput.toNat < 2 ^ 24) {bs : List Batch} {r : ScanResult}
    (h : scanhashCryptonight H pdata ptarget throughput maxNonce bs = some r) :
    r.Counted throughput (load32 pdata 39) ↔
      (Jumps H pdata ptarget throughput maxNonce (load32 pdata 39) bs →
        (maxNonce - load32 pdata 39).toNat =
          (batchesBeforeJump throughput.toNat (load32 pdata 39).toNat + 1)
            * throughput.toNat) := by
  obtain ⟨hjump, hstay⟩ := scanLoop_hashesDone hpos hT bs h
  obtain ⟨hashed, hbound⟩ := hashed_eq hpos hT bs h
  have hcounted : r.Counted throughput (load32 pdata 39) ↔
      r.hashesDone.toNat = r.launched.length * throughput.toNat := by
    constructor
    · intro hc
      rw [hc.count, Nat.mul_comm]
    · intro hc
      exact ⟨by rw [hc, Nat.mul_comm], by rw [hashed, hc]⟩
  rw [hcounted]
  by_cases hj : Jumps H pdata ptarget throughput maxNonce (load32 pdata 39) bs
  · obtain ⟨hlen, hdone⟩ := hjump hj
    rw [hlen, hdone]
    exact ⟨fun hc _ => hc, fun hc => hc hj⟩
  · refine iff_of_true ?_ (fun hj' => absurd hj' hj)
    have hdone : r.hashesDone = BitVec.ofNat 32 (r.launched.length * throughput.toNat) :=
      (BitVec.add_right_inj _).mp (hstay hj)
    rw [hdone, BitVec.toNat_ofNat]
    omega

/-- A blob that is zero but for the nonce. -/
def nonceBlob (nonce : BitVec 32) : ByteMem := store32 (fun _ => 0) 39 nonce

theorem counted_iff_of_two_batches : ∃ r,
    scanhashCryptonight (fun _ _ _ => 0) (nonceBlob 0) (fun _ => 0) 0x20 0x40 [.quiet, .quiet]
        = some r ∧
      (r.Counted 0x20 (load32 (nonceBlob 0) 39) ↔
        (Jumps (fun _ _ _ => 0) (nonceBlob 0) (fun _ => 0) 0x20 0x40 (load32 (nonceBlob 0) 39)
            [.quiet, .quiet] →
          (0x40 - load32 (nonceBlob 0) 39).toNat =
            (batchesBeforeJump 0x20 (load32 (nonceBlob 0) 39).toNat + 1) * 0x20)) := by
  have hscan : scanhashCryptonight (fun _ _ _ => 0) (nonceBlob 0) (fun _ => 0) 0x20 0x40
      [.quiet, .quiet] = some ⟨[], 0x40, [0, 0x20]⟩ := rfl
  exact ⟨_, hscan, scanhashCryptonight_counted_iff (by decide) (by decide) hscan⟩

/-- One batch of 32 nonces at the end of a block, and 512 of them are counted. -/
theorem jump_miscounts : ∃ r,
    scanhashCryptonight (fun _ _ _ => 0) (nonceBlob 0x00fffff0) (fun _ => 0) 0x20 0x010001f0
        [.quiet] = some r ∧
      r.launched = [0x00fffff0] ∧ r.hashesDone = 0x200 ∧
      ¬ r.Counted 0x20 (load32 (nonceBlob 0x00fffff0) 39) := by
  refine ⟨⟨[], 0x200, [0x00fffff0]⟩, rfl, rfl, rfl, ?_⟩
  intro h
  have hcount := h.count
  revert hcount
  decide

/-! ### The end of the loop -/

/-- How many batches it takes from `nonce` to the upper bound, which may lie before it. -/
def batchesToMax (throughput maxNonce nonce : ℕ) : ℕ :=
  (maxNonce - nonce + throughput - 1) / throughput

theorem batchCount_le_batchesToMax (throughput maxNonce nonce : ℕ) :
    batchCount throughput maxNonce nonce ≤ batchesToMax throughput maxNonce nonce + 1 := by
  refine (min_le_left _ _).trans ?_
  split
  · exact Nat.le_succ _
  · exact Nat.le_add_left _ _

/-- However its batches end, the loop launches no more than `batchCount` of them. -/
theorem exists_scanLoop_of_le (H : CnHash) (pdata : ByteMem) (ptarget : Fin 8 → BitVec 32)
    (firstNonce : BitVec 32) (hpos : 0 < throughput.toNat) (hT : throughput.toNat < 2 ^ 24)
    (bs : List Batch) {nonce : BitVec 32}
    (hbs : batchCount throughput.toNat maxNonce.toNat nonce.toNat ≤ bs.length) :
    ∃ r, scanLoop H pdata ptarget throughput firstNonce maxNonce nonce bs = some r ∧
      r.launched.length ≤ batchCount throughput.toNat maxNonce.toNat nonce.toNat := by
  have hone (nonce : BitVec 32) := one_le_batchCount hpos maxNonce.toNat nonce.toNat
  induction bs generalizing nonce with
  | nil => exact absurd hbs (not_le.mpr (hone nonce))
  | cons b bs ih =>
    simp only [scanLoop]
    split
    · exact ⟨_, rfl, hone nonce⟩
    · split
      · next hgo =>
        rcases nextNonce_of_low maxNonce nonce hT with ⟨hlow, hnext⟩ | ⟨-, hnext⟩
        · have hcount := batchCount_add hpos hlow (by rw [← hnext]; exact hgo.1)
          rw [← hnext] at hcount
          rw [List.length_cons] at hbs
          obtain ⟨r, hr, hlen⟩ := @ih (nextNonce throughput maxNonce nonce) (by omega)
          refine ⟨{ r with launched := nonce :: r.launched }, by rw [hr, Option.map_some], ?_⟩
          rw [List.length_cons]
          omega
        · exact absurd hgo.1 (by rw [hnext]; exact BitVec.lt_irrefl _)
      · exact ⟨_, rfl, hone nonce⟩

/-- **Every scan ends**, after as many batches as it takes to the upper bound, and one more
at most, and `nonce` never wraps around. -/
theorem scanhashCryptonight_ends (H : CnHash) (pdata : ByteMem) (ptarget : Fin 8 → BitVec 32)
    (maxNonce : BitVec 32) (hpos : 0 < throughput.toNat) (hT : throughput.toNat < 2 ^ 24)
    (ends : ℕ → Batch) :
    let most := batchesToMax throughput.toNat maxNonce.toNat (load32 pdata 39).toNat + 1
    ∃ r, scanhashCryptonight H pdata ptarget throughput maxNonce ((List.range most).map ends)
        = some r ∧
      r.launched.length ≤ most ∧
      ∀ nonce ∈ r.launched, ¬ nonce &&& 0x00ffffff > 0x00ffffff - throughput →
        nonce.toNat + throughput.toNat < 2 ^ 32 := by
  intro most
  have hcount := batchCount_le_batchesToMax throughput.toNat maxNonce.toNat
    (load32 pdata 39).toNat
  obtain ⟨r, hr, hlen⟩ := exists_scanLoop_of_le H pdata ptarget (load32 pdata 39) hpos hT
    ((List.range most).map ends) (by simpa using hcount)
  refine ⟨r, hr, hlen.trans hcount, ?_⟩
  intro nonce _ hgo
  have hlow := not_le.mp (mt (maskedTest_iff nonce hT).mpr hgo)
  have := nonce.isLt
  omega

theorem ends_at_top :
    let most := batchesToMax 0x20 0xffffffff (load32 (nonceBlob 0xfffffff0) 39).toNat + 1
    ∃ r, scanhashCryptonight (fun _ _ _ => 0) (nonceBlob 0xfffffff0) (fun _ => 0) 0x20 0xffffffff
        ((List.range most).map fun _ => .quiet) = some r ∧
      r.launched.length ≤ most ∧
      ∀ nonce ∈ r.launched, ¬ nonce &&& 0x00ffffff > 0x00ffffff - 0x20 →
        nonce.toNat + 0x20 < 2 ^ 32 :=
  scanhashCryptonight_ends (fun _ _ _ => 0) (nonceBlob 0xfffffff0) (fun _ => 0) 0xffffffff
    (by decide) (by decide) fun _ => .quiet

/-! ### The candidates of a batch -/

/-- Two concatenations, the first of sublists, are equal only part by part. -/
theorem flatMap_eq_iff_of_sublist {α β : Type*} {f g : α → List β} (l : List α)
    (h : ∀ x ∈ l, (f x).Sublist (g x)) :
    l.flatMap f = l.flatMap g ↔ ∀ x ∈ l, f x = g x := by
  induction l with
  | nil => simp
  | cons x l ih =>
    rw [List.forall_mem_cons] at h
    rw [List.forall_mem_cons, ← ih h.2, List.flatMap_cons, List.flatMap_cons]
    constructor
    · intro heq
      have hlen := congrArg List.length heq
      have hhead := h.1.length_le
      have htail := (List.Sublist.flatMap_right l h.2).length_le
      rw [List.length_append, List.length_append] at hlen
      exact List.append_inj heq (by omega)
    · rintro ⟨hhead, htail⟩
      rw [hhead, htail]

/-- A candidate that the processor confirms. -/
def Valid (H : CnHash) (pdata : ByteMem) (ptarget : Fin 8 → BitVec 32) (nonce : BitVec 32) : Prop :=
  nonce < 0xffffffff ∧ littleEndian (hostHash H pdata nonce) ≤ littleEndian ptarget

instance (H : CnHash) (pdata : ByteMem) (ptarget : Fin 8 → BitVec 32) :
    DecidablePred (Valid H pdata ptarget) :=
  fun _ => inferInstanceAs (Decidable (_ ∧ _))

/-- Those of a batch, whichever slot they are in. -/
def validCandidates (H : CnHash) (pdata : ByteMem) (ptarget : Fin 8 → BitVec 32) (b : Batch) :
    List (BitVec 32) :=
  [b.foundNonce.1, b.foundNonce.2].filter (Valid H pdata ptarget ·)

theorem confirmed_eq (b : Batch) : confirmed H pdata ptarget b.foundNonce =
    if Valid H pdata ptarget b.foundNonce.1 then
      if Valid H pdata ptarget b.foundNonce.2 then [b.foundNonce.1, b.foundNonce.2]
      else [b.foundNonce.1]
    else [] := by
  simp only [confirmed, validates_iff, Valid]
  rfl

theorem confirmed_sublist (b : Batch) :
    (confirmed H pdata ptarget b.foundNonce).Sublist (validCandidates H pdata ptarget b) := by
  rw [confirmed_eq, validCandidates]
  by_cases hfirst : Valid H pdata ptarget b.foundNonce.1 <;>
    by_cases hsecond : Valid H pdata ptarget b.foundNonce.2 <;> simp [hfirst, hsecond]

/-- A valid second candidate is lost behind a first one that is not. -/
theorem confirmed_eq_validCandidates_iff (b : Batch) :
    confirmed H pdata ptarget b.foundNonce = validCandidates H pdata ptarget b ↔
      (Valid H pdata ptarget b.foundNonce.2 → Valid H pdata ptarget b.foundNonce.1) := by
  rw [confirmed_eq, validCandidates]
  by_cases hfirst : Valid H pdata ptarget b.foundNonce.1 <;>
    by_cases hsecond : Valid H pdata ptarget b.foundNonce.2 <;> simp [hfirst, hsecond]

theorem scanLoop_results_eq (bs : List Batch) {r : ScanResult}
    (h : scanLoop H pdata ptarget throughput firstNonce maxNonce nonce bs = some r) :
    r.results = (bs.take r.launched.length).flatMap fun b =>
      confirmed H pdata ptarget b.foundNonce := by
  induction bs generalizing nonce r with
  | nil => cases h
  | cons b bs ih =>
    rcases scanLoop_cons h with ⟨-, rfl⟩ | ⟨hmissed, -, -, r', hr', rfl⟩ | ⟨hmissed, -, rfl⟩
    · simp
    · simpa [hmissed] using ih hr'
    · simp [hmissed]

/-- **No valid candidate is dropped** by a scan if and only if in each of its batches the
first candidate is valid when the second one is. -/
theorem scanhashCryptonight_results_iff {bs : List Batch} {r : ScanResult}
    (h : scanhashCryptonight H pdata ptarget throughput maxNonce bs = some r)
    (hall : r.launched.length = bs.length) :
    r.results = bs.flatMap (validCandidates H pdata ptarget) ↔
      ∀ b ∈ bs, Valid H pdata ptarget b.foundNonce.2 →
        Valid H pdata ptarget b.foundNonce.1 := by
  rw [scanLoop_results_eq bs h, hall, List.take_length,
    flatMap_eq_iff_of_sublist bs fun b _ => confirmed_sublist b]
  exact forall₂_congr fun b _ => confirmed_eq_validCandidates_iff b

/-- A hash whose words are the lowest byte of the nonce. -/
def nonceHash : CnHash := fun input _ _ => (input.getD 39 0).setWidth 32

theorem results_iff_of_first_valid : ∃ r,
    scanhashCryptonight nonceHash (nonceBlob 0) (fun _ => 1) 0x20 0x40 [⟨(1, 2), false⟩]
        = some r ∧
      (r.results = [⟨(1, 2), false⟩].flatMap (validCandidates nonceHash (nonceBlob 0) fun _ => 1) ↔
        ∀ b ∈ [(⟨(1, 2), false⟩ : Batch)],
          Valid nonceHash (nonceBlob 0) (fun _ => 1) b.foundNonce.2 →
          Valid nonceHash (nonceBlob 0) (fun _ => 1) b.foundNonce.1) := by
  have hscan : scanhashCryptonight nonceHash (nonceBlob 0) (fun _ => 1) 0x20 0x40
      [⟨(1, 2), false⟩] = some ⟨[1], 0x20, [0]⟩ := rfl
  exact ⟨_, hscan, scanhashCryptonight_results_iff hscan rfl⟩

/-- The first candidate is not valid, the second one is, and it is dropped. -/
theorem second_candidate_dropped : ∃ r,
    scanhashCryptonight nonceHash (nonceBlob 0) (fun _ => 1) 0x20 0x20 [⟨(2, 1), false⟩]
        = some r ∧
      r.launched.length = 1 ∧ r.results = [] ∧
      validCandidates nonceHash (nonceBlob 0) (fun _ => 1) ⟨(2, 1), false⟩ = [1] :=
  ⟨⟨[], 0x20, [0]⟩, rfl, rfl, rfl, by decide +kernel⟩

end Batches

end XmrMiner
