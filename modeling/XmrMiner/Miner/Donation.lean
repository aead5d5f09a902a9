import Mathlib.Algebra.Order.Field.Rat
import Mathlib.Algebra.Order.Field.Basic
import Mathlib.Algebra.Order.Archimedean.Basic
import Mathlib.Data.Fin.VecNotation
import Mathlib.Data.List.Induction
import Mathlib.Data.Rat.Floor
import Mathlib.Tactic.LinearCombination
import Mathlib.Tactic.Linarith
import Mathlib.Tactic.FieldSimp
import XmrMiner.Miner.Work

/-!
# The donation controller

After each share it has sent, the miner decides for which pool to mine next: for
the developer's as long as the ratio of the shares sent to it is below a weight,
for the main pool otherwise.  The weight is the configured fraction, rescaled by
the difficulties of the two pools.

The controller is fed back with a delay: a share is mined for the pool that was
selected when it was picked, and counted after it was sent.

The counters, of type `unsigned long`, are natural numbers here, and the weights, of type
`double`, are rational numbers.

## Main definitions

* `Donation` — the global variables of the controller.
* `updateDonation` — the end of `submit_upstream_work`.
* `Sched`, `SchedStep` — the controller with shares on their way.

## Main results

* `countDev_tracks` — the count of shares for the developer's pool follows the
  weight, up to the number of shares on their way.
* `devWork_le_iff` — it stays below the configured fraction of the work if and
  only if the developer's pool is not the easier one, but for the trivial fractions.
-/

namespace XmrMiner

/-- The global variables of the controller. -/
structure Donation where
  /-- `donate`, the configured fraction. -/
  donate : ℚ
  /-- `weightedDonate`. -/
  weightedDonate : ℚ
  /-- `pool_difficulty`, not positive as long as it is not known. -/
  poolDifficulty : Pool → ℚ
  /-- Whether `stratum_thr_id2[1] != -1`: the developer's pool has a thread. -/
  hasDevThread : Bool
  /-- `count_dev`. -/
  countDev : ℕ
  /-- `share_count`. -/
  shareCount : ℕ
  /-- `mine_for_dev`. -/
  mineForDev : Pool

/-- The rescaling of the weight. -/
def Donation.reweigh (g : Donation) : Donation :=
  if g.poolDifficulty 0 > 0 ∧ g.poolDifficulty 1 > 0 then
    let donateFactor := g.poolDifficulty 0 / g.poolDifficulty 1
    { g with weightedDonate := g.donate * donateFactor }
  else g

/-- The count of shares, and of those for the developer's pool. -/
def Donation.countShare (g : Donation) (dev : Pool) : Donation :=
  { g with
    shareCount := g.shareCount + 1
    countDev := if dev = 1 then g.countDev + 1 else g.countDev }

/-- The selection of the next pool, from the second share on. -/
def Donation.selectPool (g : Donation) : Donation :=
  if g.shareCount > 1 then
    let ratio : ℚ := (g.countDev : ℚ) / (g.shareCount : ℚ)
    if ratio < g.weightedDonate ∧ g.donate > 0 ∧ g.hasDevThread ∧ g.poolDifficulty 1 > 0 then
      { g with mineForDev := 1 }
    else { g with mineForDev := 0 }
  else g

/-- What `submit_upstream_work` does with the globals after a share for `dev` was sent. -/
def updateDonation (g : Donation) (dev : Pool) : Donation :=
  (g.reweigh.countShare dev).selectPool

/-! ### One share -/

/-- The globals that a share leaves alone. -/
theorem updateDonation_frame (g : Donation) (dev : Pool) :
    (updateDonation g dev).donate = g.donate ∧
      (updateDonation g dev).poolDifficulty = g.poolDifficulty ∧
      (updateDonation g dev).hasDevThread = g.hasDevThread := by
  unfold updateDonation Donation.selectPool Donation.countShare Donation.reweigh
  dsimp only
  split_ifs <;> exact ⟨rfl, rfl, rfl⟩

@[simp] theorem updateDonation_shareCount (g : Donation) (dev : Pool) :
    (updateDonation g dev).shareCount = g.shareCount + 1 := by
  unfold updateDonation Donation.selectPool Donation.countShare Donation.reweigh
  dsimp only
  split_ifs <;> rfl

@[simp] theorem updateDonation_countDev (g : Donation) (dev : Pool) :
    (updateDonation g dev).countDev = if dev = 1 then g.countDev + 1 else g.countDev := by
  unfold updateDonation Donation.selectPool Donation.countShare Donation.reweigh
  dsimp only
  split_ifs <;> rfl

@[simp] theorem updateDonation_weightedDonate (g : Donation) (dev : Pool) :
    (updateDonation g dev).weightedDonate = g.reweigh.weightedDonate := by
  unfold updateDonation Donation.selectPool Donation.countShare
  dsimp only
  split_ifs <;> rfl

/-- The selection, by a comparison without a division. -/
theorem Donation.selectPool_mineForDev {g : Donation} (hn : 1 < g.shareCount) :
    g.selectPool.mineForDev =
      if (g.countDev : ℚ) < g.weightedDonate * g.shareCount ∧
        g.donate > 0 ∧ g.hasDevThread ∧ g.poolDifficulty 1 > 0 then 1 else 0 := by
  have hpos : (0 : ℚ) < g.shareCount := by exact_mod_cast Nat.lt_of_succ_lt hn
  rw [Donation.selectPool, if_pos hn]
  simp only [div_lt_iff₀ hpos]
  split <;> rfl

/-- The first share does not select. -/
theorem updateDonation_mineForDev_first {g : Donation} (hn : g.shareCount = 0) (dev : Pool) :
    (updateDonation g dev).mineForDev = g.mineForDev := by
  have hcount : ¬ (g.reweigh.countShare dev).shareCount > 1 := by
    unfold Donation.countShare Donation.reweigh
    split_ifs <;> simp [hn]
  rw [updateDonation, Donation.selectPool, if_neg hcount]
  unfold Donation.countShare Donation.reweigh
  split_ifs <;> rfl

/-- Every later share does. -/
theorem updateDonation_mineForDev {g : Donation} (hn : 0 < g.shareCount) (dev : Pool) :
    (updateDonation g dev).mineForDev =
      if ((updateDonation g dev).countDev : ℚ)
          < g.reweigh.weightedDonate * (g.shareCount + 1 : ℕ) ∧
        g.donate > 0 ∧ g.hasDevThread ∧ g.poolDifficulty 1 > 0 then 1 else 0 := by
  have hframe : (g.reweigh.countShare dev).shareCount = g.shareCount + 1 ∧
      (g.reweigh.countShare dev).countDev = (updateDonation g dev).countDev ∧
      (g.reweigh.countShare dev).donate = g.donate ∧
      (g.reweigh.countShare dev).hasDevThread = g.hasDevThread ∧
      (g.reweigh.countShare dev).poolDifficulty = g.poolDifficulty := by
    rw [updateDonation_countDev]
    unfold Donation.countShare Donation.reweigh
    split_ifs <;> exact ⟨rfl, rfl, rfl, rfl, rfl⟩
  obtain ⟨hn', hc, hd, ht, hp⟩ := hframe
  rw [updateDonation, Donation.selectPool_mineForDev (by omega), hn', hc, hd, ht, hp]
  rfl

/-- The controller is active with weight `w`: something is to be donated, the
developer's pool is there, and every share leaves the weight at `w`. -/
structure Donation.Active (g : Donation) (w : ℚ) : Prop where
  /-- Something is to be donated. -/
  donate_pos : 0 < g.donate
  /-- The developer's pool has a thread. -/
  thread : g.hasDevThread = true
  /-- Its difficulty is known. -/
  difficulty_pos : 0 < g.poolDifficulty 1
  /-- The weight before the share, -/
  weight : g.weightedDonate = w
  /-- and after it. -/
  reweigh : g.reweigh.weightedDonate = w

theorem Donation.Active.update {g : Donation} {w : ℚ} (h : g.Active w) (dev : Pool) :
    (updateDonation g dev).Active w := by
  obtain ⟨hd, hp, ht⟩ := updateDonation_frame g dev
  have hw : (updateDonation g dev).weightedDonate = w := by
    rw [updateDonation_weightedDonate, h.reweigh]
  refine ⟨hd ▸ h.donate_pos, ht ▸ h.thread, hp ▸ h.difficulty_pos, hw, ?_⟩
  -- both pools keep their difficulties, so that the weight is computed as before
  have hre := h.reweigh
  unfold Donation.reweigh at hre ⊢
  rw [hd, hp]
  split
  · next hpos => rwa [if_pos hpos] at hre
  · exact hw

/-- The selection of an active controller. -/
theorem Donation.Active.selects_dev_iff {g : Donation} {w : ℚ} (h : g.Active w)
    (hn : 0 < g.shareCount) (dev : Pool) :
    (updateDonation g dev).mineForDev = 1 ↔
      ((updateDonation g dev).countDev : ℚ) < w * (g.shareCount + 1 : ℕ) := by
  rw [updateDonation_mineForDev hn, h.reweigh]
  have hactive : g.donate > 0 ∧ g.hasDevThread = true ∧ g.poolDifficulty 1 > 0 :=
    ⟨h.donate_pos, h.thread, h.difficulty_pos⟩
  simp only [hactive, and_true]
  split <;> simp_all

/-! ### Shares on their way -/

/-- The controller together with the shares that are picked but not yet sent, each
given by its pool. -/
structure Sched where
  /-- The global variables. -/
  globals : Donation
  /-- The shares on their way. -/
  outstanding : List Pool

/-- What can happen. -/
inductive SchedEvent
  /-- A share is picked for the pool that is selected. -/
  | pick
  /-- A share on its way is sent and counted. -/
  | submit (dev : Pool)
  /-- A share is picked and counted with nothing in between. -/
  | direct

/-- One event, with at most `k` shares on their way at any moment. -/
inductive SchedStep (k : ℕ) : Sched → SchedEvent → Sched → Prop
  | pick {s : Sched} (hk : s.outstanding.length < k) :
      SchedStep k s .pick { s with outstanding := s.globals.mineForDev :: s.outstanding }
  | submit {s : Sched} {dev : Pool} (hdev : dev ∈ s.outstanding) :
      SchedStep k s (.submit dev) ⟨updateDonation s.globals dev, s.outstanding.erase dev⟩
  | direct {s : Sched} :
      SchedStep k s .direct ⟨updateDonation s.globals s.globals.mineForDev, s.outstanding⟩

/-- The start of a run: nothing is counted, nothing is on its way, and the main pool
is selected. -/
structure Sched.Initial (s : Sched) : Prop where
  /-- No share is counted. -/
  shareCount : s.globals.shareCount = 0
  /-- Nor one for the developer's pool. -/
  countDev : s.globals.countDev = 0
  /-- The main pool is selected. -/
  mineForDev : s.globals.mineForDev = 0
  /-- Nothing is on its way. -/
  outstanding : s.outstanding = []

/-- What holds at all times.  While the main pool is selected the shares for the other
one that are still on their way only get fewer; while the developer's pool is selected
it is the other way round. -/
structure Sched.Tracks (w : ℚ) (k : ℕ) (s : Sched) : Prop where
  /-- The controller is active. -/
  active : s.globals.Active w
  /-- The bound on the shares on their way. -/
  length_le : s.outstanding.length ≤ k
  /-- Up to the first share, everything is for the main pool. -/
  first : s.globals.shareCount ≤ 1 →
    s.globals.mineForDev = 0 ∧ s.globals.countDev = 0 ∧ s.outstanding.count 1 = 0
  /-- The main pool is selected. -/
  main : 2 ≤ s.globals.shareCount → s.globals.mineForDev = 0 →
    w * s.globals.shareCount ≤ s.globals.countDev ∧
      (s.globals.countDev : ℚ) + s.outstanding.count 1 ≤ w * s.globals.shareCount + 1 + k
  /-- The developer's pool is selected. -/
  dev : s.globals.mineForDev = 1 →
    (s.globals.countDev : ℚ) < w * s.globals.shareCount ∧
      w * (s.globals.shareCount + s.outstanding.count 0) ≤ s.globals.countDev + 2 + k

theorem Sched.Initial.tracks {s : Sched} (h : s.Initial) {w : ℚ} (hactive : s.globals.Active w)
    (k : ℕ) : s.Tracks w k := by
  refine ⟨hactive, by simp [h.outstanding], fun _ => ⟨h.mineForDev, h.countDev, ?_⟩, ?_, ?_⟩
  · simp [h.outstanding]
  · intro hn
    have := h.shareCount
    omega
  · intro hdev
    simp [h.mineForDev] at hdev

/-- Picking a share moves neither bound. -/
theorem Sched.Tracks.pick {s : Sched} {w : ℚ} {k : ℕ} (h : s.Tracks w k)
    (hk : s.outstanding.length < k) :
    Sched.Tracks w k { s with outstanding := s.globals.mineForDev :: s.outstanding } := by
  refine ⟨h.active, Nat.succ_le_of_lt hk, ?_, ?_, ?_⟩
  · intro hn
    obtain ⟨hm, hc, hod⟩ := h.first hn
    exact ⟨hm, hc, by simp [hm, hod]⟩
  · intro hn hm
    have hcount : (s.globals.mineForDev :: s.outstanding).count 1 = s.outstanding.count 1 :=
      List.count_cons_of_ne (hm.trans_ne (by decide))
    rw [hcount]
    exact h.main hn hm
  · intro hm
    have hcount : (s.globals.mineForDev :: s.outstanding).count 0 = s.outstanding.count 0 :=
      List.count_cons_of_ne (hm.trans_ne (by decide))
    rw [hcount]
    exact h.dev hm

section Count

variable {g : Donation} {outstanding out : List Pool} {w : ℚ} {k : ℕ} {dev : Pool}

/-- Up to the first share nothing is for the developer's pool. -/
theorem Sched.Tracks.start (h : Sched.Tracks w k ⟨g, outstanding⟩)
    (hmain : g.mineForDev = 0 → out.count 1 + (if dev = 1 then 1 else 0) ≤ outstanding.count 1)
    (hn : g.shareCount ≤ 1) :
    g.mineForDev = 0 ∧ g.countDev = 0 ∧ out.count 1 = 0 ∧ dev ≠ 1 := by
  obtain ⟨hm, hc, ho⟩ := h.first hn
  have hle := hmain hm
  by_cases hd : dev = 1
  · simp [ho, hd] at hle
  · exact ⟨hm, hc, by simp only [ho] at hle; omega, hd⟩

/-- The upper bound after a share, from the pool that was selected before. -/
theorem Sched.Tracks.count_le (h : Sched.Tracks w k ⟨g, outstanding⟩) (hw0 : 0 < w)
    (hlen : out.length ≤ k)
    (hmain : g.mineForDev = 0 → out.count 1 + (if dev = 1 then 1 else 0) ≤ outstanding.count 1) :
    (g.countDev + if dev = 1 then 1 else 0 : ℚ) + out.count 1 ≤
      w * (g.shareCount + 1) + 1 + k := by
  have hod : (out.count 1 : ℚ) ≤ k := by exact_mod_cast (List.count_le_length).trans hlen
  have hwn : 0 ≤ w * (g.shareCount : ℚ) := mul_nonneg hw0.le (Nat.cast_nonneg _)
  have hone : (if dev = 1 then 1 else 0 : ℚ) ≤ 1 := by split <;> norm_num
  rcases Nat.lt_or_ge g.shareCount 2 with h2 | h2
  · obtain ⟨-, hc, ho, hd⟩ := h.start hmain (by omega)
    rw [hc, ho, if_neg hd]
    push_cast
    linarith
  · rcases Pool.eq_zero_or_eq_one g.mineForDev with hm0 | hm1
    · have hle : (out.count 1 : ℚ) + (if dev = 1 then 1 else 0) ≤ outstanding.count 1 := by
        exact_mod_cast hmain hm0
      have hub := (h.main h2 hm0).2
      linarith
    · have hlt := (h.dev hm1).1
      linarith

/-- The lower bound: only a share of the main pool can lower it, and this was on its way. -/
theorem Sched.Tracks.le_count (h : Sched.Tracks w k ⟨g, outstanding⟩) (hw0 : 0 < w) (hw1 : w ≤ 1)
    (hlen : out.length ≤ k) (hn : 0 < g.shareCount)
    (hmain : g.mineForDev = 0 → out.count 1 + (if dev = 1 then 1 else 0) ≤ outstanding.count 1)
    (hdev : g.mineForDev = 1 → out.count 0 + (if dev = 0 then 1 else 0) ≤ outstanding.count 0) :
    w * (g.shareCount + 1 + out.count 0) ≤
      (g.countDev + if dev = 1 then 1 else 0 : ℚ) + 2 + k := by
  have hom : w * (out.count 0 : ℚ) ≤ k :=
    calc w * (out.count 0 : ℚ) ≤ 1 * (out.count 0 : ℚ) :=
          mul_le_mul_of_nonneg_right hw1 (Nat.cast_nonneg _)
      _ ≤ k := by rw [one_mul]; exact_mod_cast (List.count_le_length).trans hlen
  have hzero : (0 : ℚ) ≤ if dev = 1 then 1 else 0 := by split <;> norm_num
  rcases Nat.lt_or_ge g.shareCount 2 with h2 | h2
  · obtain ⟨-, hc, -, hd⟩ := h.start hmain (by omega)
    have h1 : g.shareCount = 1 := by omega
    rw [hc, if_neg hd, h1]
    push_cast
    linarith
  · rcases Pool.eq_zero_or_eq_one g.mineForDev with hm0 | hm1
    · have hlb := (h.main h2 hm0).1
      linarith
    · have hlb := (h.dev hm1).2
      by_cases hd : dev = 1
      · have hle : (out.count 0 : ℚ) ≤ outstanding.count 0 := by
          exact_mod_cast (Nat.le_add_right _ _).trans (hdev hm1)
        have hmul := mul_le_mul_of_nonneg_left hle hw0.le
        rw [if_pos hd]
        linarith
      · have hd0 : dev = 0 := (Pool.eq_zero_or_eq_one dev).resolve_right hd
        have hle : (out.count 0 : ℚ) + 1 ≤ outstanding.count 0 := by
          have := hdev hm1
          rw [if_pos hd0] at this
          exact_mod_cast this
        have hmul := mul_le_mul_of_nonneg_left hle hw0.le
        rw [if_neg hd]
        linarith

/-- **Counting a share keeps the bounds.**  While one pool is selected, a share for the
other can only be one that was on its way. -/
theorem Sched.Tracks.count (h : Sched.Tracks w k ⟨g, outstanding⟩) (hw0 : 0 < w) (hw1 : w ≤ 1)
    (hlen : out.length ≤ k)
    (hmain : g.mineForDev = 0 → out.count 1 + (if dev = 1 then 1 else 0) ≤ outstanding.count 1)
    (hdev : g.mineForDev = 1 → out.count 0 + (if dev = 0 then 1 else 0) ≤ outstanding.count 0) :
    Sched.Tracks w k ⟨updateDonation g dev, out⟩ := by
  have hn' : ((updateDonation g dev).shareCount : ℚ) = (g.shareCount : ℚ) + 1 := by
    rw [updateDonation_shareCount, Nat.cast_add_one]
  have hc' : ((updateDonation g dev).countDev : ℚ) = g.countDev + if dev = 1 then 1 else 0 := by
    rw [updateDonation_countDev]
    split <;> simp
  have hselect (hn : 0 < g.shareCount) : (updateDonation g dev).mineForDev = 1 ↔
      ((updateDonation g dev).countDev : ℚ) < w * (g.shareCount + 1) := by
    rw [h.active.selects_dev_iff hn dev, Nat.cast_add_one]
  refine ⟨h.active.update dev, hlen, ?_, ?_, ?_⟩
  · intro hn
    rw [updateDonation_shareCount] at hn
    obtain ⟨hm, hc, ho, hd⟩ := h.start hmain (by omega)
    refine ⟨?_, ?_, ho⟩
    · rw [updateDonation_mineForDev_first (by omega), hm]
    · rw [updateDonation_countDev, if_neg hd, hc]
  · intro hn hm
    -- the main pool is selected next, so the ratio has reached the weight
    rw [updateDonation_shareCount] at hn
    have hge : w * (g.shareCount + 1) ≤ ((updateDonation g dev).countDev : ℚ) := by
      rw [← not_lt, ← hselect (by omega), hm]
      decide
    rw [hn']
    refine ⟨hge, ?_⟩
    rw [hc']
    exact h.count_le hw0 hlen hmain
  · intro hm
    -- the developer's pool is selected next, so the ratio is below the weight
    have hn : 0 < g.shareCount := by
      by_contra hn
      rw [updateDonation_mineForDev_first (by omega), (h.start hmain (by omega)).1] at hm
      exact absurd hm (by decide)
    have hlt := (hselect hn).mp hm
    rw [hn']
    refine ⟨hlt, ?_⟩
    rw [hc']
    exact h.le_count hw0 hw1 hlen hn hmain hdev

end Count

/-- A share that leaves the ones on their way is one less of its pool. -/
theorem count_erase_add_le {outstanding : List Pool} {dev : Pool} (hdev : dev ∈ outstanding)
    (d : Pool) :
    (outstanding.erase dev).count d + (if dev = d then 1 else 0) ≤ outstanding.count d := by
  by_cases hd : dev = d
  · subst hd
    have := List.count_pos_iff.mpr hdev
    rw [if_pos rfl, List.count_erase_self]
    omega
  · rw [if_neg hd, List.count_erase_of_ne (Ne.symm hd), Nat.add_zero]

theorem SchedStep.tracks {s s' : Sched} {e : SchedEvent} {w : ℚ} {k : ℕ} (hw0 : 0 < w)
    (hw1 : w ≤ 1) (h : s.Tracks w k) (hstep : SchedStep k s e s') : s'.Tracks w k := by
  cases hstep with
  | pick hk => exact h.pick hk
  | @submit dev hdev =>
    exact h.count hw0 hw1 ((List.length_erase_le).trans h.length_le)
      (fun _ => count_erase_add_le hdev 1) fun _ => count_erase_add_le hdev 0
  | direct =>
    -- the share is for the selected pool, so that neither hypothesis is about it
    refine h.count hw0 hw1 h.length_le (fun hm => ?_) fun hm => ?_ <;> simp [hm]

/-- **The count of shares for the developer's pool follows the weight**, whatever the
order in which the shares on their way are sent. -/
theorem countDev_tracks {w : ℚ} (hw0 : 0 < w) (hw1 : w ≤ 1) (k : ℕ) {s s' : Sched}
    {es : List SchedEvent} (hinit : s.Initial) (hactive : s.globals.Active w)
    (hrun : Trace.Run (SchedStep k) s es s') (hn : 1 ≤ s'.globals.shareCount) :
    w * s'.globals.shareCount - 2 - k ≤ s'.globals.countDev ∧
      (s'.globals.countDev : ℚ) ≤ w * s'.globals.shareCount + 1 + k := by
  have h : s'.Tracks w k := hrun.invariant_state (Sched.Tracks w k) (hinit.tracks hactive k)
    fun _ _ _ => SchedStep.tracks hw0 hw1
  have hk : (0 : ℚ) ≤ k := Nat.cast_nonneg k
  rcases Nat.lt_or_ge s'.globals.shareCount 2 with h2 | h2
  · -- the first share is never one for the developer's pool
    have h1 : s'.globals.shareCount = 1 := by omega
    rw [(h.first (by omega)).2.1, h1]
    push_cast
    constructor <;> linarith
  · rcases Pool.eq_zero_or_eq_one s'.globals.mineForDev with hm | hm
    · obtain ⟨hlb, hub⟩ := h.main h2 hm
      have hod : (0 : ℚ) ≤ s'.outstanding.count 1 := Nat.cast_nonneg _
      constructor <;> linarith
    · obtain ⟨hub, hlb⟩ := h.dev hm
      have hom : 0 ≤ w * (s'.outstanding.count 0 : ℚ) := mul_nonneg hw0.le (Nat.cast_nonneg _)
      constructor <;> linarith

/-- Two shares, the second one picked before the first was counted. -/
theorem countDev_tracks_two :
    let g : Donation := ⟨1/2, 1/2, ![1, 1], true, 0, 0, 0⟩
    let g' := updateDonation (updateDonation g 0) 0
    1/2 * (g'.shareCount : ℚ) - 2 - (2 : ℕ) ≤ g'.countDev ∧
      (g'.countDev : ℚ) ≤ 1/2 * g'.shareCount + 1 + (2 : ℕ) := by
  intro g g'
  have hrun : Trace.Run (SchedStep 2) ⟨g, []⟩ [.pick, .pick, .submit 0, .submit 0] ⟨g', []⟩ := by
    have h1 : SchedStep 2 ⟨g, []⟩ .pick ⟨g, [0]⟩ := .pick (by simp)
    have h2 : SchedStep 2 ⟨g, [0]⟩ .pick ⟨g, [0, 0]⟩ := .pick (by simp)
    have h3 : SchedStep 2 ⟨g, [0, 0]⟩ (.submit 0) ⟨updateDonation g 0, [0]⟩ := .submit (by simp)
    have h4 : SchedStep 2 ⟨updateDonation g 0, [0]⟩ (.submit 0) ⟨g', []⟩ := .submit (by simp)
    exact (((Trace.Run.nil.snoc h1).snoc h2).snoc h3).snoc h4
  have hactive : g.Active (1/2) :=
    ⟨by norm_num [g], rfl, by norm_num [g], rfl, by norm_num [g, Donation.reweigh]⟩
  have htracks := countDev_tracks (by norm_num) (by norm_num) 2 ⟨rfl, rfl, rfl, rfl⟩ hactive hrun
    (by simp [g'])
  exact htracks

/-! ### The share of the work -/

/-- The start, with known difficulties of both pools. -/
def initialDonation (donate d0 d1 : ℚ) : Donation := ⟨donate, donate, ![d0, d1], false, 0, 0, 0⟩

/-- A share mined for the pool selected after the one before; whether the developer's
pool has a thread is up to the network. -/
def nextShare (g : Donation) (hasDevThread : Bool) : Donation :=
  updateDonation { g with hasDevThread := hasDevThread } g.mineForDev

/-- The globals after a number of shares. -/
def afterShares (donate d0 d1 : ℚ) (threads : List Bool) : Donation :=
  threads.foldl nextShare (initialDonation donate d0 d1)

/-- The work given to the developer's pool, a share counting with the difficulty. -/
def Donation.devWork (g : Donation) : ℚ := g.countDev * g.poolDifficulty 1

/-- The work given to both pools. -/
def Donation.totalWork (g : Donation) : ℚ :=
  g.devWork + ((g.shareCount : ℚ) - g.countDev) * g.poolDifficulty 0

/-- What holds after any number of shares: the count is not more than one above what
the weight asks for. -/
structure Donation.Capped (donate d0 d1 : ℚ) (g : Donation) : Prop where
  /-- The fraction is the configured one. -/
  donate_eq : g.donate = donate
  /-- The difficulties are constant. -/
  poolDifficulty_eq : g.poolDifficulty = ![d0, d1]
  /-- Not more than all the shares. -/
  le_shareCount : g.countDev ≤ g.shareCount
  /-- The cap. -/
  cap : (g.countDev : ℚ) ≤ donate * (d0 / d1) * g.shareCount + 1
  /-- The developer's pool is only selected below it. -/
  dev : g.mineForDev = 1 →
    0 < g.shareCount ∧ (g.countDev : ℚ) < donate * (d0 / d1) * g.shareCount ∧ 0 < donate

theorem reweigh_weightedDonate {g : Donation} {d0 d1 : ℚ} (hp : g.poolDifficulty = ![d0, d1])
    (hd0 : 0 < d0) (hd1 : 0 < d1) : g.reweigh.weightedDonate = g.donate * (d0 / d1) := by
  have hpos : g.poolDifficulty 0 > 0 ∧ g.poolDifficulty 1 > 0 := by
    rw [hp]
    exact ⟨hd0, hd1⟩
  rw [Donation.reweigh, if_pos hpos, hp]
  rfl

@[simp] theorem nextShare_shareCount (g : Donation) (t : Bool) :
    (nextShare g t).shareCount = g.shareCount + 1 := updateDonation_shareCount _ _

@[simp] theorem nextShare_countDev (g : Donation) (t : Bool) :
    (nextShare g t).countDev = if g.mineForDev = 1 then g.countDev + 1 else g.countDev :=
  updateDonation_countDev _ _

theorem nextShare_frame (g : Donation) (t : Bool) :
    (nextShare g t).donate = g.donate ∧ (nextShare g t).poolDifficulty = g.poolDifficulty :=
  ⟨(updateDonation_frame _ _).1, (updateDonation_frame _ _).2.1⟩

/-- The selection after a share, in terms of the configuration. -/
theorem nextShare_mineForDev_eq_one_iff {g : Donation} {donate d0 d1 : ℚ}
    (hd : g.donate = donate) (hp : g.poolDifficulty = ![d0, d1]) (hd0 : 0 < d0) (hd1 : 0 < d1)
    (hn : 0 < g.shareCount) (t : Bool) :
    (nextShare g t).mineForDev = 1 ↔
      ((nextShare g t).countDev : ℚ) < donate * (d0 / d1) * ((g.shareCount : ℚ) + 1) ∧
        0 < donate ∧ t = true := by
  subst hd
  have hsel := updateDonation_mineForDev (g := { g with hasDevThread := t }) hn g.mineForDev
  have hw := reweigh_weightedDonate (g := { g with hasDevThread := t }) hp hd0 hd1
  have hd1' : g.poolDifficulty 1 > 0 := by rw [hp]; exact hd1
  rw [hw] at hsel
  simp only [hd1', and_true, Nat.cast_add_one] at hsel
  unfold nextShare
  rw [hsel]
  split
  · next h => exact iff_of_true rfl h
  · next h => exact iff_of_false (by decide) h

theorem capped_initialDonation (donate d0 d1 : ℚ) :
    (initialDonation donate d0 d1).Capped donate d0 d1 :=
  ⟨rfl, rfl, le_rfl, by simp [initialDonation], by simp [initialDonation]⟩

theorem Donation.Capped.nextShare {g : Donation} {donate d0 d1 : ℚ} (h : g.Capped donate d0 d1)
    (hd : 0 ≤ donate) (hd0 : 0 < d0) (hd1 : 0 < d1) (t : Bool) :
    (nextShare g t).Capped donate d0 d1 := by
  obtain ⟨hdon, hp⟩ := nextShare_frame g t
  have hw : 0 ≤ donate * (d0 / d1) := mul_nonneg hd (div_pos hd0 hd1).le
  refine ⟨hdon.trans h.donate_eq, hp.trans h.poolDifficulty_eq, ?_, ?_, ?_⟩
  · have := h.le_shareCount
    rw [nextShare_countDev, nextShare_shareCount]
    split <;> omega
  · rw [nextShare_countDev, nextShare_shareCount, Nat.cast_add_one]
    split
    · next hm =>
      have := (h.dev hm).2.1
      push_cast
      linarith
    · have := h.cap
      linarith
  · intro hm
    rcases Nat.eq_zero_or_pos g.shareCount with hn | hn
    · have hm0 : g.mineForDev = 1 := by
        rw [← hm]
        exact (updateDonation_mineForDev_first (g := { g with hasDevThread := t }) hn _).symm
      exact absurd (h.dev hm0).1 (by omega)
    · obtain ⟨hlt, hpos, -⟩ :=
        (nextShare_mineForDev_eq_one_iff h.donate_eq h.poolDifficulty_eq hd0 hd1 hn t).mp hm
      rw [nextShare_shareCount, Nat.cast_add_one]
      exact ⟨Nat.succ_pos _, hlt, hpos⟩

theorem capped_afterShares {donate d0 d1 : ℚ} (hd : 0 ≤ donate) (hd0 : 0 < d0) (hd1 : 0 < d1)
    (threads : List Bool) : (afterShares donate d0 d1 threads).Capped donate d0 d1 := by
  induction threads using List.reverseRecOn with
  | nil => exact capped_initialDonation donate d0 d1
  | append_singleton threads t ih =>
    rw [afterShares, List.foldl_append]
    exact ih.nextShare hd hd0 hd1 t

/-- What holds while the developer's pool has a thread all the time: the count is never
more than two below what the weight, or else all of the shares, asks for. -/
structure Donation.Pressed (donate d0 d1 : ℚ) (g : Donation) : Prop where
  /-- The fraction is the configured one. -/
  donate_eq : g.donate = donate
  /-- The difficulties are constant. -/
  poolDifficulty_eq : g.poolDifficulty = ![d0, d1]
  /-- The lower bound. -/
  press : min (donate * (d0 / d1)) 1 * g.shareCount ≤ g.countDev + 2
  /-- From the second share on, the main pool is only selected above the weight. -/
  main : g.mineForDev = 0 → g.shareCount ≤ 1 ∨
    donate * (d0 / d1) * g.shareCount ≤ g.countDev

theorem Donation.Pressed.nextShare {g : Donation} {donate d0 d1 : ℚ}
    (h : g.Pressed donate d0 d1) (hd : 0 < donate) (hd0 : 0 < d0) (hd1 : 0 < d1) :
    (nextShare g true).Pressed donate d0 d1 := by
  obtain ⟨hdon, hp⟩ := nextShare_frame g true
  have hw : 0 < donate * (d0 / d1) := mul_pos hd (div_pos hd0 hd1)
  set v := min (donate * (d0 / d1)) 1 with hv
  have hv1 : v ≤ 1 := min_le_right _ _
  have hvw : v * g.shareCount ≤ donate * (d0 / d1) * g.shareCount :=
    mul_le_mul_of_nonneg_right (min_le_left _ _) (Nat.cast_nonneg _)
  refine ⟨hdon.trans h.donate_eq, hp.trans h.poolDifficulty_eq, ?_, ?_⟩
  · -- a share of the main pool adds at most one to the left: it was selected with room
    -- for it, or it is one of the first two
    rw [nextShare_countDev, nextShare_shareCount, Nat.cast_add_one, ← hv]
    have hpress := h.press
    rcases Pool.eq_zero_or_eq_one g.mineForDev with hm | hm
    · rw [if_neg (by simp [hm])]
      have hc : (0 : ℚ) ≤ g.countDev := Nat.cast_nonneg _
      rcases h.main hm with hn | hge
      · have hn' : (g.shareCount : ℚ) ≤ 1 := by exact_mod_cast hn
        have hpos : 0 ≤ v := le_min hw.le zero_le_one
        have hle : v * ((g.shareCount : ℚ) + 1) ≤ 1 * (1 + 1) :=
          mul_le_mul hv1 (by linarith) (by positivity) zero_le_one
        linarith
      · linarith
    · rw [if_pos hm]
      push_cast
      linarith
  · intro hm
    rw [nextShare_shareCount]
    rcases Nat.eq_zero_or_pos g.shareCount with hn | hn
    · exact Or.inl (by omega)
    · right
      have hnot := (nextShare_mineForDev_eq_one_iff h.donate_eq h.poolDifficulty_eq hd0 hd1 hn
        true).not.mp (by simp [hm])
      rw [Nat.cast_add_one]
      by_contra hlt
      exact hnot ⟨not_le.mp hlt, hd, rfl⟩

/-- The shares of a miner whose developer's pool is always there. -/
theorem pressed_afterShares {donate d0 d1 : ℚ} (hd : 0 < donate) (hd0 : 0 < d0) (hd1 : 0 < d1)
    (n : ℕ) : (afterShares donate d0 d1 (List.replicate n true)).Pressed donate d0 d1 ∧
      (afterShares donate d0 d1 (List.replicate n true)).shareCount = n := by
  induction n with
  | zero =>
    refine ⟨⟨rfl, rfl, ?_, fun _ => Or.inl ?_⟩, rfl⟩ <;> simp [afterShares, initialDonation]
  | succ n ih =>
    rw [List.replicate_succ', afterShares, List.foldl_append]
    exact ⟨ih.1.nextShare hd hd0 hd1, (nextShare_shareCount _ _).trans (congrArg (· + 1) ih.2)⟩

/-- The work given to the developer's pool beyond the configured fraction of all. -/
theorem devWork_sub (g : Donation) (donate : ℚ) {d0 d1 : ℚ} (hp : g.poolDifficulty = ![d0, d1]) :
    g.devWork - donate * g.totalWork
      = g.countDev * (d1 * (1 - donate) + donate * d0) - donate * d0 * g.shareCount := by
  have h0 : g.poolDifficulty 0 = d0 := by rw [hp]; rfl
  have h1 : g.poolDifficulty 1 = d1 := by rw [hp]; rfl
  rw [Donation.totalWork, Donation.devWork, h0, h1]
  ring

/-- With the developer's pool the easier one, the work given to it grows without bound
beyond the configured fraction. -/
theorem exists_devWork_gt {donate d0 d1 : ℚ} (hd : 0 < donate) (hlt : donate < 1) (hd1 : 0 < d1)
    (h : d1 < d0) (b : ℚ) : ∃ n : ℕ,
      let g := afterShares donate d0 d1 (List.replicate n true)
      b < g.devWork - donate * g.totalWork := by
  have hd0 : 0 < d0 := hd1.trans h
  set w := donate * (d0 / d1) with hw
  set v := min w 1 with hv
  set K := d1 * (1 - donate) + donate * d0 with hK
  have hwd : w * d1 = donate * d0 := by
    rw [hw]
    field_simp
  have hKpos : 0 < K := add_pos (mul_pos hd1 (by linarith)) (mul_pos hd hd0)
  -- each share adds at least `v * K - donate * d0` to the excess
  have hgain : 0 < v * K - donate * d0 := by
    -- the count follows the smaller of the weight and one
    rcases min_choice w 1 with hmin | hmin
    · have hwgt : donate < w := by
        rw [hw]
        have hratio : 1 < d0 / d1 := (one_lt_div hd1).mpr h
        nlinarith
      have hexp : v * K - donate * d0 = donate * d0 * (w - donate) := by
        rw [hv, hmin, hK]
        linear_combination (1 - donate) * hwd
      rw [hexp]
      exact mul_pos (mul_pos hd hd0) (sub_pos.mpr hwgt)
    · have hexp : v * K - donate * d0 = d1 * (1 - donate) := by
        rw [hv, hmin, hK]
        ring
      rw [hexp]
      exact mul_pos hd1 (by linarith)
  obtain ⟨n, hn⟩ := exists_nat_gt ((b + 2 * K) / (v * K - donate * d0))
  refine ⟨n, ?_⟩
  obtain ⟨hpress, hcount⟩ := pressed_afterShares hd hd0 hd1 n
  intro g
  rw [devWork_sub g donate hpress.poolDifficulty_eq, hcount, ← hK]
  have hc := hpress.press
  rw [hcount] at hc
  have hmul := mul_le_mul_of_nonneg_right hc hKpos.le
  rw [div_lt_iff₀ hgain] at hn
  linarith

/-- **The donated work stays within the configured fraction, up to one share, if and
only if** nothing or everything is donated, or a share of the developer's pool is worth
at least one of the main pool. -/
theorem devWork_le_iff {donate d0 d1 : ℚ} (h0 : 0 ≤ donate) (h1 : donate ≤ 1) (hd0 : 0 < d0)
    (hd1 : 0 < d1) :
    (∀ threads : List Bool,
      let g := afterShares donate d0 d1 threads
      g.devWork ≤ donate * g.totalWork + d1) ↔ donate = 0 ∨ donate = 1 ∨ d0 ≤ d1 := by
  constructor
  · intro hle
    by_contra hnot
    rw [not_or, not_or, not_le] at hnot
    obtain ⟨hne0, hne1, hlt⟩ := hnot
    obtain ⟨n, hn⟩ := exists_devWork_gt (lt_of_le_of_ne h0 (Ne.symm hne0))
      (lt_of_le_of_ne h1 hne1) hd1 hlt d1
    have := hle (List.replicate n true)
    dsimp only at hn this
    linarith
  · intro hcond threads g
    have hcap := capped_afterShares h0 hd0 hd1 threads
    have hsub := devWork_sub g donate hcap.poolDifficulty_eq
    have hc : (0 : ℚ) ≤ g.countDev := Nat.cast_nonneg _
    have hcn : (g.countDev : ℚ) ≤ g.shareCount := by exact_mod_cast hcap.le_shareCount
    have hmul : (g.countDev : ℚ) * d1 ≤ donate * d0 * g.shareCount + d1 := by
      have hexp : donate * (d0 / d1) * g.shareCount * d1 = donate * d0 * g.shareCount := by
        field_simp
      have := mul_le_mul_of_nonneg_right hcap.cap hd1.le
      linarith
    rcases hcond with rfl | rfl | hle
    · linarith
    · -- everything is donated, and no more than everything is
      have := mul_le_mul_of_nonneg_right hcn hd0.le
      linarith
    · have := mul_nonneg (mul_nonneg h0 hc) (sub_nonneg.mpr hle)
      linarith

/-- Equal difficulties meet the condition. -/
theorem devWork_le_iff_equal :
    (∀ threads : List Bool,
      let g := afterShares (1/50) 5000 5000 threads
      g.devWork ≤ 1/50 * g.totalWork + 5000) ↔
        (1/50 : ℚ) = 0 ∨ (1/50 : ℚ) = 1 ∨ (5000 : ℚ) ≤ 5000 :=
  devWork_le_iff (by norm_num) (by norm_num) (by norm_num) (by norm_num)

/-- With a main pool fifty times as difficult the weight is one: after two shares for
the main pool, every share is for the developer's. -/
theorem devWork_gt_of_fifty_times :
    ¬ ∀ threads : List Bool,
      let g := afterShares (1/50) 50000 1000 threads
      g.devWork ≤ 1/50 * g.totalWork + 1000 := by
  intro h
  have := h [true, true, true, true, true, true]
  revert this
  decide +kernel

end XmrMiner
