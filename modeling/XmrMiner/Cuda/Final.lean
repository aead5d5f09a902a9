import Mathlib.Data.List.Nodup
import Mathlib.Logic.Function.Basic
import XmrMiner.Cuda.Scan

/-!
# The last kernel of a batch

Each thread of `cryptonight_extra_gpu_final` compares its hash with the target and, if
it does not exceed it, exchanges its nonce for the content of `resNonce[0]`; what it gets
back it stores in `resNonce[1]`, unless it is the `0xffffffff` that both slots start with.
The exchange is atomic, the store is a step of its own, and the threads take their steps
in any order.

The comparison of the device passes over all words and keeps the highest one that has
decided.

## Main definitions

* `deviceTest` — the comparison of the device.
* `FinalLaunch` — a launch of the kernel, and `FinalLaunch.run`, its run under a schedule.
* `FinalLaunch.Reports` — what the two slots should hold in the end.

## Main results

* `targetTests_iff` — **all comparisons with the target are the one of the numbers.**
* `FinalLaunch.Exchanged.step` — what every step keeps.
* `FinalLaunch.reports_iff` — **when no winning nonce is lost**, whatever the order.
-/

namespace XmrMiner

/-! ### The comparison of the device -/

/-- The highest deciding word so far, and what it has decided. -/
structure Decision where
  /-- `position`. -/
  position : ℤ
  /-- `rc`. -/
  rc : Bool

/-- The comparison of one word. -/
def decideWord (hash target : Fin 8 → BitVec 32) (d : Decision) (i : Fin 8) : Decision :=
  let d' : Decision :=
    if hash i > target i then if d.position < i then ⟨i, false⟩ else d else d
  if hash i < target i then if d'.position < i then ⟨i, true⟩ else d' else d'

/-- The comparison in `cryptonight_extra_gpu_final`. -/
def deviceTest (hash target : Fin 8 → BitVec 32) : Bool :=
  ([7, 6, 5, 4, 3, 2, 1, 0].foldl (decideWord hash target) ⟨-1, true⟩).rc

section Device

variable {hash target : Fin 8 → BitVec 32}

/-- A word below the one that has decided changes nothing. -/
theorem decideWord_of_le {d : Decision} {i : Fin 8} (h : (i : ℤ) ≤ d.position) :
    decideWord hash target d i = d := by
  simp [decideWord, not_lt.mpr h]

theorem foldl_decideWord_of_le (is : List (Fin 8)) {d : Decision}
    (h : ∀ i ∈ is, (i : ℤ) ≤ d.position) : is.foldl (decideWord hash target) d = d := by
  induction is with
  | nil => rfl
  | cons i is ih =>
    rw [List.forall_mem_cons] at h
    rw [List.foldl_cons, decideWord_of_le h.1, ih h.2]

/-- As long as no word has decided, both comparisons go on alike. -/
theorem foldl_decideWord_rc (is : List (Fin 8)) (h : is.Pairwise (· > ·)) :
    (is.foldl (decideWord hash target) ⟨-1, true⟩).rc = fulltestFrom hash target is := by
  induction is with
  | nil => rfl
  | cons i is ih =>
    rw [List.pairwise_cons] at h
    have hbelow (rc : Bool) : ∀ j ∈ is, (j : ℤ) ≤ (⟨i, rc⟩ : Decision).position :=
      fun j hj => by
        have := h.1 j hj
        simp only
        omega
    have hnew : (-1 : ℤ) < i := by omega
    rw [List.foldl_cons, fulltestFrom]
    rcases lt_trichotomy (hash i).toNat (target i).toNat with hlt | heq | hgt
    · have hword : decideWord hash target ⟨-1, true⟩ i = ⟨i, true⟩ := by
        simp [decideWord, BitVec.lt_def, hlt, not_lt_of_gt hlt, hnew]
      rw [hword, foldl_decideWord_of_le is (hbelow true)]
      simp [BitVec.lt_def, hlt, not_lt_of_gt hlt]
    · have hword : decideWord hash target ⟨-1, true⟩ i = ⟨-1, true⟩ := by
        simp [decideWord, BitVec.lt_def, heq]
      rw [hword, ih h.2]
      simp [BitVec.lt_def, heq]
    · have hword : decideWord hash target ⟨-1, true⟩ i = ⟨i, false⟩ := by
        simp [decideWord, BitVec.lt_def, hgt, not_lt_of_gt hgt, hnew]
      rw [hword, foldl_decideWord_of_le is (hbelow false)]
      simp [BitVec.lt_def, hgt]

theorem deviceTest_eq_fulltest (hash target : Fin 8 → BitVec 32) :
    deviceTest hash target = fulltest hash target :=
  foldl_decideWord_rc _ (by decide)

/-- **All comparisons with the target are the one of the numbers**: the one of the
processor, the one after a look at the top words, and the one of the device. -/
theorem targetTests_iff (hash target : Fin 8 → BitVec 32) :
    (fulltest hash target = true ↔ littleEndian hash ≤ littleEndian target) ∧
      ((decide (hash 7 ≤ target 7) && fulltest hash target) = true ↔
        littleEndian hash ≤ littleEndian target) ∧
      (deviceTest hash target = true ↔ littleEndian hash ≤ littleEndian target) := by
  refine ⟨fulltest_eq_true_iff, hostTest_iff, ?_⟩
  rw [deviceTest_eq_fulltest, fulltest_eq_true_iff]

end Device

/-! ### The race for the two slots -/

/-- Where a thread stands. -/
inductive FinalPc where
  /-- Before the comparison, which is followed by the exchange if it succeeds. -/
  | ready
  /-- With what the exchange has given back, to be stored in `resNonce[1]`. -/
  | holding (tmp : BitVec 32)
  /-- At the end. -/
  | done
  deriving DecidableEq

/-- The state of the kernel. -/
structure FinalState where
  /-- `resNonce`. -/
  resNonce : BitVec 32 × BitVec 32
  /-- The threads. -/
  pc : ℕ → FinalPc

/-- A launch of `cryptonight_extra_gpu_final`. -/
structure FinalLaunch where
  /-- `threads`. -/
  threads : ℕ
  /-- `startNonce`. -/
  startNonce : BitVec 32
  /-- `d_target`. -/
  target : Fin 8 → BitVec 32
  /-- The hash of each thread. -/
  hash : ℕ → Fin 8 → BitVec 32

namespace FinalLaunch

variable (l : FinalLaunch)

/-- `nonce`. -/
def nonce (thread : ℕ) : BitVec 32 := l.startNonce + BitVec.ofNat 32 thread

/-- The slots as `cryptonight_extra_cpu_final` has set them, and no thread started. -/
def init : FinalState := ⟨(0xffffffff, 0xffffffff), fun _ => .ready⟩

/-- A turn of a thread: up to the exchange, or the store. -/
def step (s : FinalState) (thread : ℕ) : FinalState :=
  if thread < l.threads then
    match s.pc thread with
    | .ready =>
      if deviceTest (l.hash thread) l.target then
        let tmp := s.resNonce.1
        ⟨(l.nonce thread, s.resNonce.2),
          Function.update s.pc thread (if tmp ≠ 0xffffffff then .holding tmp else .done)⟩
      else ⟨s.resNonce, Function.update s.pc thread .done⟩
    | .holding tmp => ⟨(s.resNonce.1, tmp), Function.update s.pc thread .done⟩
    | .done => s
  else s

/-- The threads take turns as the schedule says. -/
def run (schedule : List ℕ) (s : FinalState) : FinalState := schedule.foldl l.step s

/-- All threads are at the end. -/
def Complete (s : FinalState) : Prop := ∀ thread < l.threads, s.pc thread = .done

/-- A thread whose hash does not exceed the target. -/
def Winner (thread : ℕ) : Prop :=
  thread < l.threads ∧ littleEndian (l.hash thread) ≤ littleEndian l.target

/-- The nonce of such a thread. -/
def Winning (x : BitVec 32) : Prop := ∃ thread, l.Winner thread ∧ l.nonce thread = x

/-- What the slots should hold in the end; the host takes what is below `0xffffffff` for
found. -/
structure Reports (found : BitVec 32 × BitVec 32) : Prop where
  /-- With a winner, the first slot holds a winning nonce. -/
  first : (∃ t, l.Winner t) → l.Winning found.1 ∧ found.1 < 0xffffffff
  /-- With two, the second slot holds another one. -/
  second : (∃ t u, l.Winner t ∧ l.Winner u ∧ t ≠ u) →
    l.Winning found.2 ∧ found.2 ≠ found.1 ∧ found.2 < 0xffffffff
  /-- With two at most, all winning nonces are found, and no others. -/
  exact : (∀ t u v, l.Winner t → l.Winner u → l.Winner v → t = u ∨ t = v ∨ u = v) →
    ∀ x, (x = found.1 ∨ x = found.2) ∧ x < 0xffffffff ↔ l.Winning x
  /-- With none, both slots are as before. -/
  none : (∀ t, ¬ l.Winner t) → found = (0xffffffff, 0xffffffff)

/-! ### What every step keeps -/

/-- The threads in `order`, the last one first, have made their exchange. -/
structure Exchanged (order : List ℕ) (s : FinalState) : Prop where
  /-- Each of them once. -/
  nodup : order.Nodup
  /-- They are the winners that have started. -/
  mem : ∀ t, t ∈ order ↔ l.Winner t ∧ s.pc t ≠ .ready
  /-- The first slot holds the nonce of the last one. -/
  first : s.resNonce.1 = (order.map l.nonce).headD 0xffffffff
  /-- What is held is the nonce of an earlier one. -/
  held : ∀ t tmp, s.pc t = .holding tmp → tmp ∈ order.tail.map l.nonce
  /-- So is what the second slot holds. -/
  second : s.resNonce.2 = 0xffffffff ∨ s.resNonce.2 ∈ order.tail.map l.nonce
  /-- The earlier ones are in the second slot or on the way there. -/
  handed : order.tail ≠ [] →
    s.resNonce.2 ≠ 0xffffffff ∨ ∃ t < l.threads, ∃ tmp, s.pc t = .holding tmp

variable {l}

theorem winner_iff {t : ℕ} (ht : t < l.threads) :
    l.Winner t ↔ deviceTest (l.hash t) l.target = true := by
  rw [Winner, deviceTest_eq_fulltest, fulltest_eq_true_iff]
  exact and_iff_right ht

/-- Different threads have different nonces, though these may wrap around. -/
theorem nonce_inj (hthreads : l.threads ≤ 2 ^ 32) {t u : ℕ} (ht : t < l.threads)
    (hu : u < l.threads) (h : l.nonce t = l.nonce u) : t = u := by
  have hofNat := (BitVec.add_right_inj _).mp h
  have hval := congrArg BitVec.toNat hofNat
  rw [BitVec.toNat_ofNat, BitVec.toNat_ofNat] at hval
  omega

theorem exchanged_init : l.Exchanged [] init where
  nodup := List.nodup_nil
  mem := by simp [init]
  first := rfl
  held := by simp [init]
  second := Or.inl rfl
  handed := by simp

variable {order : List ℕ} {s : FinalState} {t : ℕ}

/-- A thread that does not win ends at once. -/
theorem Exchanged.lose (h : l.Exchanged order s) (hpc : s.pc t = .ready) (hlose : ¬ l.Winner t) :
    l.Exchanged order ⟨s.resNonce, Function.update s.pc t .done⟩ where
  nodup := h.nodup
  mem := by
    intro u
    rcases eq_or_ne u t with rfl | hu
    · simp [h.mem, hlose]
    · simp [h.mem, hu]
  first := h.first
  held := by
    intro u tmp hu
    rcases eq_or_ne u t with rfl | hne
    · simp at hu
    · exact h.held u tmp (by simpa [hne] using hu)
  second := h.second
  handed := by
    intro htail
    rcases h.handed htail with hsecond | ⟨u, hu, tmp, hheld⟩
    · exact Or.inl hsecond
    · refine Or.inr ⟨u, hu, tmp, ?_⟩
      have hne : u ≠ t := by
        rintro rfl
        simp [hpc] at hheld
      simpa [hne] using hheld

/-- What the last exchange has left, if there was one. -/
theorem Exchanged.first_cons {v : ℕ} (h : l.Exchanged (v :: order) s)
    (hsentinel : ∀ u, l.Winner u → l.nonce u ≠ 0xffffffff) :
    s.resNonce.1 = l.nonce v ∧ l.nonce v ≠ 0xffffffff :=
  ⟨h.first, hsentinel v ((h.mem v).mp List.mem_cons_self).1⟩

/-- A thread that wins is the last one to have made its exchange. -/
theorem Exchanged.exchange (h : l.Exchanged order s) (hpc : s.pc t = .ready) (hwin : l.Winner t)
    (hsentinel : ∀ u, l.Winner u → l.nonce u ≠ 0xffffffff) :
    l.Exchanged (t :: order) ⟨(l.nonce t, s.resNonce.2), Function.update s.pc t
      (if s.resNonce.1 ≠ 0xffffffff then .holding s.resNonce.1 else .done)⟩ where
  nodup := List.nodup_cons.mpr ⟨fun ht => ((h.mem t).mp ht).2 hpc, h.nodup⟩
  mem := by
    intro u
    rcases eq_or_ne u t with rfl | hu
    · simp only [List.mem_cons_self, hwin, Function.update_self, true_and, true_iff]
      split <;> simp
    · simp [h.mem, hu]
  first := rfl
  held := by
    intro u tmp hu
    rcases eq_or_ne u t with rfl | hne
    · -- what it holds is the nonce of the thread before it
      cases order with
      | nil =>
        have hempty : s.resNonce.1 = 0xffffffff := h.first
        simp [hempty] at hu
      | cons v order =>
        obtain ⟨hfirst, hv⟩ := h.first_cons hsentinel
        simp only [hfirst, Function.update_self, if_pos hv, FinalPc.holding.injEq] at hu
        simp [hu]
    · have := h.held u tmp (by simpa [hne] using hu)
      exact List.mem_of_mem_tail (by simpa using this)
  second := h.second.imp_right fun hmem => by
    exact List.mem_of_mem_tail (by simpa using hmem)
  handed := by
    intro htail
    refine Or.inr ⟨t, hwin.1, s.resNonce.1, ?_⟩
    cases order with
    | nil => exact absurd rfl htail
    | cons v order =>
      obtain ⟨hfirst, hv⟩ := h.first_cons hsentinel
      simpa [hfirst] using hv

/-- The store puts an earlier nonce into the second slot. -/
theorem Exchanged.store {tmp : BitVec 32} (h : l.Exchanged order s) (hpc : s.pc t = .holding tmp)
    (hsentinel : ∀ u, l.Winner u → l.nonce u ≠ 0xffffffff) :
    l.Exchanged order ⟨(s.resNonce.1, tmp), Function.update s.pc t .done⟩ where
  nodup := h.nodup
  mem := by
    intro u
    rcases eq_or_ne u t with rfl | hu
    · simp [h.mem, hpc]
    · simp [h.mem, hu]
  first := h.first
  held := by
    intro u tmp' hu
    rcases eq_or_ne u t with rfl | hne
    · simp at hu
    · exact h.held u tmp' (by simpa [hne] using hu)
  second := Or.inr (h.held t tmp hpc)
  handed := by
    intro _
    obtain ⟨u, hu, rfl⟩ := List.mem_map.mp (h.held t tmp hpc)
    exact Or.inl (hsentinel u ((h.mem u).mp (List.mem_of_mem_tail hu)).1)

/-- **What every step keeps**, if no winner has the nonce that stands for none. -/
theorem Exchanged.step (h : l.Exchanged order s)
    (hsentinel : ∀ u, l.Winner u → l.nonce u ≠ 0xffffffff) (t : ℕ) :
    ∃ order', l.Exchanged order' (l.step s t) := by
  unfold FinalLaunch.step
  split
  · next ht =>
    split
    · next hpc =>
      split
      · next hwin => exact ⟨t :: order, h.exchange hpc ((winner_iff ht).mpr hwin) hsentinel⟩
      · next hlose => exact ⟨order, h.lose hpc (mt (winner_iff ht).mp hlose)⟩
    · next hpc => exact ⟨order, h.store hpc hsentinel⟩
    · exact ⟨order, h⟩
  · exact ⟨order, h⟩

theorem Exchanged.run (hsentinel : ∀ u, l.Winner u → l.nonce u ≠ 0xffffffff)
    (schedule : List ℕ) {order : List ℕ} {s : FinalState} (h : l.Exchanged order s) :
    ∃ order', l.Exchanged order' (l.run schedule s) := by
  induction schedule generalizing order s with
  | nil => exact ⟨order, h⟩
  | cons t schedule ih =>
    obtain ⟨order', h'⟩ := h.step hsentinel t
    exact ih h'

/-! ### The slots in the end -/

theorem lt_sentinel_iff {x : BitVec 32} : x < 0xffffffff ↔ x ≠ 0xffffffff := by
  have := x.isLt
  have htop : (0xffffffff : BitVec 32).toNat = 0xffffffff := rfl
  rw [BitVec.lt_def, ne_eq, ← BitVec.toNat_inj, htop]
  omega

/-- When all threads are at the end, all winners have made their exchange, and nothing is
on the way to the second slot any more. -/
theorem Exchanged.complete (h : l.Exchanged order s) (hc : l.Complete s) :
    (∀ t, t ∈ order ↔ l.Winner t) ∧ (order.tail ≠ [] → s.resNonce.2 ≠ 0xffffffff) := by
  constructor
  · intro t
    rw [h.mem]
    refine and_iff_left_of_imp fun hwin => ?_
    simp [hc t hwin.1]
  · intro htail
    rcases h.handed htail with hsecond | ⟨t, ht, tmp, hheld⟩
    · exact hsecond
    · simp [hc t ht] at hheld

/-- Without a winner the slots are as before. -/
theorem Exchanged.reports_nil (h : l.Exchanged [] s) (hnone : ∀ t, ¬ l.Winner t) :
    l.Reports s.resNonce := by
  have hempty : s.resNonce = (0xffffffff, 0xffffffff) :=
    Prod.ext h.first (by simpa using h.second)
  refine ⟨fun ⟨t, ht⟩ => absurd ht (hnone t), fun ⟨t, _, ht, _⟩ => absurd ht (hnone t), ?_,
    fun _ => hempty⟩
  intro _ x
  constructor
  · rintro ⟨hx, hfound⟩
    refine absurd ?_ (lt_sentinel_iff.mp hfound)
    rw [hempty] at hx
    exact or_self_iff.mp hx
  · rintro ⟨t, ht, -⟩
    exact absurd ht (hnone t)

section Last

variable {v : ℕ} {rest : List ℕ}

/-- What the second slot holds, if anything, is the nonce of a thread before the last one. -/
theorem Exchanged.exists_second (h : l.Exchanged (v :: rest) s)
    (hne : s.resNonce.2 ≠ 0xffffffff) : ∃ u ∈ rest, l.nonce u = s.resNonce.2 :=
  List.mem_map.mp (h.second.resolve_left hne)

/-- The threads before the last one are other winners. -/
theorem Exchanged.winner_of_mem (h : l.Exchanged (v :: rest) s) {u : ℕ} (hu : u ∈ rest) :
    l.Winner u ∧ u ≠ v := by
  refine ⟨((h.mem u).mp (List.mem_cons_of_mem _ hu)).1, ?_⟩
  rintro rfl
  exact (List.nodup_cons.mp h.nodup).1 hu

/-- Of two winners in the end, one is in the second slot. -/
theorem Exchanged.reports_second (h : l.Exchanged (v :: rest) s) (hc : l.Complete s)
    (hthreads : l.threads ≤ 2 ^ 32) {t u : ℕ} (ht : l.Winner t) (hu : l.Winner u) (hne : t ≠ u) :
    ∃ w, l.Winner w ∧ l.nonce w = s.resNonce.2 ∧ s.resNonce.2 ≠ s.resNonce.1 := by
  obtain ⟨hmem, hsecond⟩ := h.complete hc
  have hv : l.Winner v := (hmem v).mp List.mem_cons_self
  have htail : rest ≠ [] := by
    rintro rfl
    have ht' := List.mem_singleton.mp ((hmem t).mpr ht)
    exact hne (ht'.trans (List.mem_singleton.mp ((hmem u).mpr hu)).symm)
  obtain ⟨w, hw, hval⟩ := h.exists_second (hsecond htail)
  obtain ⟨hwin, hwv⟩ := h.winner_of_mem hw
  refine ⟨w, hwin, hval, ?_⟩
  rw [← hval, h.first]
  exact fun heq => hwv (nonce_inj hthreads hwin.1 hv.1 heq)

/-- If there are two winners at most, each is in one of the slots. -/
theorem Exchanged.mem_slots (h : l.Exchanged (v :: rest) s) (hc : l.Complete s)
    (htwo : ∀ t u w, l.Winner t → l.Winner u → l.Winner w → t = u ∨ t = w ∨ u = w)
    {t : ℕ} (ht : l.Winner t) : l.nonce t = s.resNonce.1 ∨ l.nonce t = s.resNonce.2 := by
  obtain ⟨hmem, hsecond⟩ := h.complete hc
  have hv : l.Winner v := (hmem v).mp List.mem_cons_self
  rcases List.mem_cons.mp ((hmem t).mpr ht) with rfl | htrest
  · exact Or.inl h.first.symm
  · obtain ⟨w, hw, hval⟩ := h.exists_second (hsecond (List.ne_nil_of_mem htrest))
    obtain ⟨hwin, hwv⟩ := h.winner_of_mem hw
    have heq : t = w := by
      rcases htwo v t w hv ht hwin with hvt | hvw | htw
      · exact absurd hvt.symm (h.winner_of_mem htrest).2
      · exact absurd hvw.symm hwv
      · exact htw
    exact Or.inr (heq ▸ hval)

end Last

/-- Then the slots report the winners. -/
theorem Exchanged.reports (h : l.Exchanged order s) (hc : l.Complete s)
    (hthreads : l.threads ≤ 2 ^ 32) (hsentinel : ∀ u, l.Winner u → l.nonce u ≠ 0xffffffff) :
    l.Reports s.resNonce := by
  obtain ⟨hmem, -⟩ := h.complete hc
  have hlt : ∀ u, l.Winner u → l.nonce u < 0xffffffff := fun u hu =>
    lt_sentinel_iff.mpr (hsentinel u hu)
  cases order with
  | nil => exact h.reports_nil fun t ht => by simpa using (hmem t).mpr ht
  | cons v rest =>
    have hv : l.Winner v := (hmem v).mp List.mem_cons_self
    have hfirst : s.resNonce.1 = l.nonce v := h.first
    refine ⟨fun _ => ⟨⟨v, hv, hfirst.symm⟩, hfirst ▸ hlt v hv⟩, ?_, ?_,
      fun hnone => absurd hv (hnone v)⟩
    · rintro ⟨t, u, ht, hu, hne⟩
      obtain ⟨w, hw, hval, hother⟩ := h.reports_second hc hthreads ht hu hne
      exact ⟨⟨w, hw, hval⟩, hother, hval ▸ hlt w hw⟩
    · intro htwo x
      constructor
      · rintro ⟨rfl | rfl, hfound⟩
        · exact ⟨v, hv, hfirst.symm⟩
        · obtain ⟨w, hw, hval⟩ := h.exists_second (lt_sentinel_iff.mp hfound)
          exact ⟨w, (h.winner_of_mem hw).1, hval⟩
      · rintro ⟨t, ht, rfl⟩
        exact ⟨h.mem_slots hc htwo ht, hlt t ht⟩

/-! ### A winner whose nonce stands for none -/

theorem step_pc_of_ne {t u : ℕ} (h : u ≠ t) (s : FinalState) : (l.step s t).pc u = s.pc u := by
  unfold FinalLaunch.step
  split
  · split
    · split <;> simp [h]
    · simp [h]
    · rfl
  · rfl

/-- A thread is at the end after two turns. -/
theorem step_step_pc {t : ℕ} (ht : t < l.threads) (s : FinalState) :
    (l.step (l.step s t) t).pc t = .done := by
  have hhold (s : FinalState) (hs : s.pc t ≠ .ready) : (l.step s t).pc t = .done := by
    unfold FinalLaunch.step
    rw [if_pos ht]
    split
    · next hpc => exact absurd hpc hs
    · simp
    · next hpc => exact hpc
  apply hhold
  unfold FinalLaunch.step
  rw [if_pos ht]
  split
  · split
    · simp only [Function.update_self]
      split <;> simp
    · simp
  · simp
  · next hpc => simp [hpc]

/-- After two turns each of some of the threads these are at the end, and the others have
not moved. -/
theorem run_twice_pc (ts : List ℕ) (hts : ∀ t ∈ ts, t < l.threads) (hnodup : ts.Nodup)
    (s : FinalState) (u : ℕ) :
    (l.run (ts.flatMap fun t => [t, t]) s).pc u = if u ∈ ts then .done else s.pc u := by
  induction ts generalizing s with
  | nil => rfl
  | cons t ts ih =>
    rw [List.forall_mem_cons] at hts
    rw [List.nodup_cons] at hnodup
    have hrun : l.run ((t :: ts).flatMap fun t => [t, t]) s
        = l.run (ts.flatMap fun t => [t, t]) (l.step (l.step s t) t) := rfl
    rw [hrun, ih hts.2 hnodup.2]
    rcases eq_or_ne u t with rfl | hne
    · simp [hnodup.1, step_step_pc hts.1]
    · simp [hne, step_pc_of_ne hne]

/-- It leaves the first slot as if nothing had been found, if it comes last. -/
theorem exists_lost {w : ℕ} (hw : l.Winner w) (hnonce : l.nonce w = 0xffffffff) :
    ∃ schedule, l.Complete (l.run schedule init) ∧
      (l.run schedule init).resNonce.1 = 0xffffffff := by
  let others := (List.range l.threads).filter (· ≠ w)
  have hothers : ∀ t ∈ others, t < l.threads := fun t ht =>
    List.mem_range.mp (List.mem_of_mem_filter ht)
  have hnodup : others.Nodup := List.nodup_range.filter _
  let s := l.run (others.flatMap fun t => [t, t]) init
  have hpc : ∀ u, s.pc u = if u ∈ others then .done else .ready := fun u =>
    run_twice_pc others hothers hnodup init u
  have hready : s.pc w = .ready := by
    rw [hpc, if_neg]
    simp [others]
  refine ⟨(others.flatMap fun t => [t, t]) ++ [w, w], ?_, ?_⟩
  · intro u hu
    rw [run, List.foldl_append]
    change (l.step (l.step s w) w).pc u = .done
    rcases eq_or_ne u w with rfl | hne
    · exact step_step_pc hw.1 s
    · rw [step_pc_of_ne hne, step_pc_of_ne hne, hpc, if_pos]
      simp [others, hu, hne]
  · rw [run, List.foldl_append]
    change (l.step (l.step s w) w).resNonce.1 = _
    have hexch : (l.step s w).resNonce.1 = 0xffffffff ∧ (l.step s w).pc w ≠ .ready := by
      simp only [FinalLaunch.step, if_pos hw.1, hready, if_pos ((winner_iff hw.1).mp hw), hnonce,
        Function.update_self, true_and]
      split <;> simp
    generalize l.step s w = s' at hexch
    unfold FinalLaunch.step
    rw [if_pos hw.1]
    split
    · next h => exact absurd h hexch.2
    · exact hexch.1
    · exact hexch.1

variable (l)

/-- **No winning nonce is lost**, in whatever order the threads take their steps, if and
only if none of them is the nonce that stands for none. -/
theorem reports_iff (hthreads : l.threads ≤ 2 ^ 32) :
    (∀ schedule, l.Complete (l.run schedule init) → l.Reports (l.run schedule init).resNonce) ↔
      ∀ thread, l.Winner thread → l.nonce thread ≠ 0xffffffff := by
  constructor
  · intro h w hw hnonce
    obtain ⟨schedule, hc, hslot⟩ := exists_lost hw hnonce
    have hfound := ((h schedule hc).first ⟨w, hw⟩).2
    exact lt_sentinel_iff.mp hfound hslot
  · intro hsentinel schedule hc
    obtain ⟨order, h⟩ := exchanged_init.run hsentinel schedule
    exact h.reports hc hthreads hsentinel

/-- Two threads, which both win, on the two nonces from the given one on. -/
def pair (startNonce : BitVec 32) : FinalLaunch := ⟨2, startNonce, fun _ => 0, fun _ _ => 0⟩

theorem pair_reports_iff :
    (∀ schedule, (pair 7).Complete ((pair 7).run schedule init) →
        (pair 7).Reports ((pair 7).run schedule init).resNonce) ↔
      ∀ thread, (pair 7).Winner thread → (pair 7).nonce thread ≠ 0xffffffff :=
  reports_iff (pair 7) (by decide)

/-- The nonce `0xfffffffe` is lost behind `0xffffffff`. -/
theorem pair_loses_nonce :
    (pair 0xfffffffe).Winner 0 ∧ (pair 0xfffffffe).nonce 0 = 0xfffffffe ∧
      (pair 0xfffffffe).Complete ((pair 0xfffffffe).run [0, 1, 1] init) ∧
      ((pair 0xfffffffe).run [0, 1, 1] init).resNonce = (0xffffffff, 0xfffffffe) ∧
      ¬ (pair 0xfffffffe).Reports ((pair 0xfffffffe).run [0, 1, 1] init).resNonce := by
  have hwin : (pair 0xfffffffe).Winner 0 := ⟨by decide, le_rfl⟩
  have hslots : ((pair 0xfffffffe).run [0, 1, 1] init).resNonce = (0xffffffff, 0xfffffffe) := by
    decide +kernel
  refine ⟨hwin, by decide, ?_, hslots, ?_⟩
  · intro t ht
    have hcases : t = 0 ∨ t = 1 := by
      have : t < 2 := ht
      omega
    rcases hcases with rfl | rfl <;> decide +kernel
  · intro h
    have hfound := (h.first ⟨0, hwin⟩).2
    rw [hslots] at hfound
    exact absurd hfound (by decide)

end FinalLaunch

end XmrMiner
