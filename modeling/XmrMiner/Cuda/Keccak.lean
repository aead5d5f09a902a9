import XmrMiner.Crypto.Keccak

/-!
# Keccak on the device

`cuda_cryptonight_keccak.hpp` writes a round out by hand: theta's masks are added
while rho and pi walk their cycle in place, rotations by 32 or more first swap
the halves of the word, and chi is a `bitselect`.  `cn_keccak` is for inputs of
76 bytes only, whose padding is a constant, and leaves the lanes it knows to be
zero out of its first round.

## Main definitions

* `Rotl64Impl` — the two implementations of the rotation.
* `cnThetaRhoPi`, `cnChiRow`, `cnKeccakRound`, `cnKeccakf2` — the permutation.
* `cnFirstRound`, `cnKeccakf`, `cnKeccak` — the hash of a header.

## Main results

* `cnKeccakRound_eq` — a round of the device is a round of `keccakf`.
* `cnFirstRound_eq` — so is the specialised one, on a padded header.
-/

namespace XmrMiner

open ByteMem

/-! ### Rotations -/

/-- The two implementations of `rotl64_1`. -/
inductive Rotl64Impl
  /-- `__CUDA_ARCH__ >= 350`: two funnel shifts of the halves. -/
  | funnelShift
  /-- Two plain shifts. -/
  | shifts
  deriving DecidableEq, Repr

/-- `shf.l.wrap.b32`: the high word of `b:a`, shifted left by `c` modulo 32. -/
def shfLWrap (a b : BitVec 32) (c : ℕ) : BitVec 32 :=
  (b <<< (c % 32)) ||| (a >>> (32 - c % 32))

/-- `cuda_rotl64`. -/
def cudaRotl64 (value : BitVec 64) (offset : ℕ) : BitVec 64 :=
  let lo := value.extractLsb' 0 32
  let hi := value.extractLsb' 32 32
  if offset ≥ 32 then shfLWrap hi lo offset ++ shfLWrap lo hi offset
  else shfLWrap lo hi offset ++ shfLWrap hi lo offset

/-- `rotl64_1`. -/
def rotl64_1 (impl : Rotl64Impl) (x : BitVec 64) (y : ℕ) : BitVec 64 :=
  match impl with
  | .funnelShift => cudaRotl64 x y
  | .shifts => (x <<< y) ||| (x >>> (64 - y))

/-- `rotl64_2`. -/
def rotl64_2 (impl : Rotl64Impl) (x : BitVec 64) (y : ℕ) : BitVec 64 :=
  rotl64_1 impl ((x >>> 32) ||| (x <<< 32)) y

/-- `bitselect`. -/
def bitselect (a b c : BitVec 64) : BitVec 64 := a ^^^ (c &&& (b ^^^ a))

/-! ### The permutation -/

/-- The round constants in constant memory. -/
def cnKeccakfRndc : List (BitVec 64) := [
  0x0000000000000001, 0x0000000000008082, 0x800000000000808a,
  0x8000000080008000, 0x000000000000808b, 0x0000000080000001,
  0x8000000080008081, 0x8000000000008009, 0x000000000000008a,
  0x0000000000000088, 0x0000000080008009, 0x000000008000000a,
  0x000000008000808b, 0x800000000000008b, 0x8000000000008089,
  0x8000000000008003, 0x8000000000008002, 0x8000000000000080,
  0x000000000000800a, 0x800000008000000a, 0x8000000080008081,
  0x8000000000008080, 0x0000000080000001, 0x8000000080008008]

/-- `tmpxor` of a full round. -/
def cnTmpxor (s : KeccakState) : Fin 5 → BitVec 64 := ![
  s 0 ^^^ s 5 ^^^ s 10 ^^^ s 15 ^^^ s 20,
  s 1 ^^^ s 6 ^^^ s 11 ^^^ s 16 ^^^ s 21,
  s 2 ^^^ s 7 ^^^ s 12 ^^^ s 17 ^^^ s 22,
  s 3 ^^^ s 8 ^^^ s 13 ^^^ s 18 ^^^ s 23,
  s 4 ^^^ s 9 ^^^ s 14 ^^^ s 19 ^^^ s 24]

/-- `bc` from `tmpxor`. -/
def cnBc (impl : Rotl64Impl) (tmpxor : Fin 5 → BitVec 64) : Fin 5 → BitVec 64 := ![
  tmpxor 0 ^^^ rotl64_1 impl (tmpxor 2) 1,
  tmpxor 1 ^^^ rotl64_1 impl (tmpxor 3) 1,
  tmpxor 2 ^^^ rotl64_1 impl (tmpxor 4) 1,
  tmpxor 3 ^^^ rotl64_1 impl (tmpxor 0) 1,
  tmpxor 4 ^^^ rotl64_1 impl (tmpxor 1) 1]

/-- The assignments that add the masks and walk the cycle of rho and pi. -/
def cnThetaRhoPi (impl : Rotl64Impl) (bc : Fin 5 → BitVec 64) (s : KeccakState) : KeccakState :=
  let tmp1 := s 1 ^^^ bc 0
  let s := Function.update s 0 (s 0 ^^^ bc 4)
  let s := Function.update s 1 (rotl64_2 impl (s 6 ^^^ bc 0) 12)
  let s := Function.update s 6 (rotl64_1 impl (s 9 ^^^ bc 3) 20)
  let s := Function.update s 9 (rotl64_2 impl (s 22 ^^^ bc 1) 29)
  let s := Function.update s 22 (rotl64_2 impl (s 14 ^^^ bc 3) 7)
  let s := Function.update s 14 (rotl64_1 impl (s 20 ^^^ bc 4) 18)
  let s := Function.update s 20 (rotl64_2 impl (s 2 ^^^ bc 1) 30)
  let s := Function.update s 2 (rotl64_2 impl (s 12 ^^^ bc 1) 11)
  let s := Function.update s 12 (rotl64_1 impl (s 13 ^^^ bc 2) 25)
  let s := Function.update s 13 (rotl64_1 impl (s 19 ^^^ bc 3) 8)
  let s := Function.update s 19 (rotl64_2 impl (s 23 ^^^ bc 2) 24)
  let s := Function.update s 23 (rotl64_2 impl (s 15 ^^^ bc 4) 9)
  let s := Function.update s 15 (rotl64_1 impl (s 4 ^^^ bc 3) 27)
  let s := Function.update s 4 (rotl64_1 impl (s 24 ^^^ bc 3) 14)
  let s := Function.update s 24 (rotl64_1 impl (s 21 ^^^ bc 0) 2)
  let s := Function.update s 21 (rotl64_2 impl (s 8 ^^^ bc 2) 23)
  let s := Function.update s 8 (rotl64_2 impl (s 16 ^^^ bc 0) 13)
  let s := Function.update s 16 (rotl64_2 impl (s 5 ^^^ bc 4) 4)
  let s := Function.update s 5 (rotl64_1 impl (s 3 ^^^ bc 2) 28)
  let s := Function.update s 3 (rotl64_1 impl (s 18 ^^^ bc 2) 21)
  let s := Function.update s 18 (rotl64_1 impl (s 17 ^^^ bc 1) 15)
  let s := Function.update s 17 (rotl64_1 impl (s 11 ^^^ bc 0) 10)
  let s := Function.update s 11 (rotl64_1 impl (s 7 ^^^ bc 1) 6)
  let s := Function.update s 7 (rotl64_1 impl (s 10 ^^^ bc 4) 3)
  Function.update s 10 (rotl64_1 impl tmp1 1)

/-- Chi on the row that starts at lane `j`. -/
def cnChiRow (s : KeccakState) (j : Fin 25) : KeccakState :=
  let tmp1 := s j
  let tmp2 := s (j + 1)
  let s := Function.update s j (bitselect (s j ^^^ s (j + 2)) (s j) (s (j + 1)))
  let s := Function.update s (j + 1)
    (bitselect (s (j + 1) ^^^ s (j + 3)) (s (j + 1)) (s (j + 2)))
  let s := Function.update s (j + 2)
    (bitselect (s (j + 2) ^^^ s (j + 4)) (s (j + 2)) (s (j + 3)))
  let s := Function.update s (j + 3) (bitselect (s (j + 3) ^^^ tmp1) (s (j + 3)) (s (j + 4)))
  Function.update s (j + 4) (bitselect (s (j + 4) ^^^ tmp2) (s (j + 4)) tmp1)

/-- The five rows of chi. -/
def cnChi (s : KeccakState) : KeccakState := [0, 5, 10, 15, 20].foldl cnChiRow s

/-- The body of the loop of `cn_keccakf2`, and of that of `cn_keccakf`. -/
def cnKeccakRound (impl : Rotl64Impl) (s : KeccakState) (i : ℕ) : KeccakState :=
  let s := cnChi (cnThetaRhoPi impl (cnBc impl (cnTmpxor s)) s)
  Function.update s 0 (s 0 ^^^ cnKeccakfRndc.getD i 0)

/-- `cn_keccakf2`. -/
def cnKeccakf2 (impl : Rotl64Impl) (s : KeccakState) : KeccakState :=
  (List.range 24).foldl (cnKeccakRound impl) s

/-! ### The hash of a header -/

/-- `tmpxor` of the first round of `cn_keccakf`. -/
def cnFirstTmpxor (s : KeccakState) : Fin 5 → BitVec 64 := ![
  s 0 ^^^ s 5,
  s 1 ^^^ s 6 ^^^ 0x8000000000000000,
  s 2 ^^^ s 7,
  s 3 ^^^ s 8,
  s 4 ^^^ s 9]

/-- The assignments of the first round of `cn_keccakf`. -/
def cnFirstThetaRhoPi (impl : Rotl64Impl) (bc : Fin 5 → BitVec 64) (s : KeccakState) :
    KeccakState :=
  let tmp1 := s 1 ^^^ bc 0
  let s := Function.update s 0 (s 0 ^^^ bc 4)
  let s := Function.update s 1 (rotl64_2 impl (s 6 ^^^ bc 0) 12)
  let s := Function.update s 6 (rotl64_1 impl (s 9 ^^^ bc 3) 20)
  let s := Function.update s 9 (rotl64_2 impl (bc 1) 29)
  let s := Function.update s 22 (rotl64_2 impl (bc 3) 7)
  let s := Function.update s 14 (rotl64_1 impl (bc 4) 18)
  let s := Function.update s 20 (rotl64_2 impl (s 2 ^^^ bc 1) 30)
  let s := Function.update s 2 (rotl64_2 impl (bc 1) 11)
  let s := Function.update s 12 (rotl64_1 impl (bc 2) 25)
  let s := Function.update s 13 (rotl64_1 impl (bc 3) 8)
  let s := Function.update s 19 (rotl64_2 impl (bc 2) 24)
  let s := Function.update s 23 (rotl64_2 impl (bc 4) 9)
  let s := Function.update s 15 (rotl64_1 impl (s 4 ^^^ bc 3) 27)
  let s := Function.update s 4 (rotl64_1 impl (bc 3) 14)
  let s := Function.update s 24 (rotl64_1 impl (bc 0) 2)
  let s := Function.update s 21 (rotl64_2 impl (s 8 ^^^ bc 2) 23)
  let s := Function.update s 8 (rotl64_2 impl (0x8000000000000000 ^^^ bc 0) 13)
  let s := Function.update s 16 (rotl64_2 impl (s 5 ^^^ bc 4) 4)
  let s := Function.update s 5 (rotl64_1 impl (s 3 ^^^ bc 2) 28)
  let s := Function.update s 3 (rotl64_1 impl (bc 2) 21)
  let s := Function.update s 18 (rotl64_1 impl (bc 1) 15)
  let s := Function.update s 17 (rotl64_1 impl (bc 0) 10)
  let s := Function.update s 11 (rotl64_1 impl (s 7 ^^^ bc 1) 6)
  let s := Function.update s 7 (rotl64_1 impl (bc 4) 3)
  Function.update s 10 (rotl64_1 impl tmp1 1)

/-- The first round of `cn_keccakf`. -/
def cnFirstRound (impl : Rotl64Impl) (s : KeccakState) : KeccakState :=
  let s := cnChi (cnFirstThetaRhoPi impl (cnBc impl (cnFirstTmpxor s)) s)
  Function.update s 0 (s 0 ^^^ 0x0000000000000001)

/-- `cn_keccakf`. -/
def cnKeccakf (impl : Rotl64Impl) (s : KeccakState) : KeccakState :=
  (List.range' 1 23).foldl (cnKeccakRound impl) (cnFirstRound impl s)

/-! ### Word copies -/

/-- `MEMCPY4`. -/
def memcpy4 (dst : ByteMem) (d : ℕ) (src : ByteMem) (p cnt : ℕ) : ByteMem :=
  (List.range cnt).foldl (fun dst i => store32 dst (d + 4 * i) (load32 src (p + 4 * i))) dst

/-- `MEMCPY8`. -/
def memcpy8 (dst : ByteMem) (d : ℕ) (src : ByteMem) (p cnt : ℕ) : ByteMem :=
  (List.range cnt).foldl (fun dst i => store64 dst (d + 8 * i) (load64 src (p + 8 * i))) dst

/-- `MEMSET8`. -/
def memset8 (dst : ByteMem) (d : ℕ) (what : BitVec 64) (cnt : ℕ) : ByteMem :=
  (List.range cnt).foldl (fun dst i => store64 dst (d + 8 * i) what) dst

/-- The words of the array `st`. -/
def stateOf (st : ByteMem) : KeccakState := fun k => load64 st (8 * k)

/-- The array `st` of `cn_keccak` before the permutation. -/
def cnKeccakBlock (st m : ByteMem) (input : ℕ) : ByteMem :=
  let st := memcpy4 st 0 m input 19
  let st := memset8 st (8 * 10) 0 15
  let st := store64 st (8 * 9) ((load64 st (8 * 9) &&& 0x00000000FFFFFFFF) ||| 0x0000000100000000)
  store64 st (8 * 16) 0x8000000000000000

/-- `cn_keccak`: the buffer `md` after it, where `st` holds anything before.  The
permutation of the source is `cn_keccakf`. -/
def cnKeccak (perm : KeccakState → KeccakState) (st md m : ByteMem) (input : ℕ) : ByteMem :=
  memcpy8 md 0 (stateBytes (perm (stateOf (cnKeccakBlock st m input)))) 0 25

/-! ### Rotations, once more -/

theorem cudaRotl64_eq (x : BitVec 64) {y : ℕ} (hy : y < 64) : cudaRotl64 x y = rotl64 x y := by
  apply BitVec.eq_of_getLsbD_eq
  intro i hi
  unfold cudaRotl64 shfLWrap rotl64
  split <;>
  · simp only [BitVec.getLsbD_append, BitVec.getLsbD_or, BitVec.getLsbD_shiftLeft,
      BitVec.getLsbD_ushiftRight, BitVec.getLsbD_extractLsb', hi]
    grind

theorem rotl64_1_eq (impl : Rotl64Impl) (x : BitVec 64) {y : ℕ} (hy : y < 64) :
    rotl64_1 impl x y = rotl64 x y := by
  cases impl with
  | funnelShift => exact cudaRotl64_eq x hy
  | shifts => rfl

/-- Swapping the halves first is a rotation by 32 more. -/
theorem rotl64_2_eq (impl : Rotl64Impl) (x : BitVec 64) {y : ℕ} (hy : y < 32) :
    rotl64_2 impl x y = rotl64 x (y + 32) := by
  rw [rotl64_2, rotl64_1_eq impl _ (by omega)]
  apply BitVec.eq_of_getLsbD_eq
  intro i hi
  unfold rotl64
  simp only [BitVec.getLsbD_or, BitVec.getLsbD_shiftLeft, BitVec.getLsbD_ushiftRight, hi]
  grind

/-- The form in which the source calls `bitselect`. -/
theorem bitselect_xor (x y z : BitVec 64) :
    bitselect (x ^^^ z) x y = x ^^^ (~~~y &&& z) := by
  apply BitVec.eq_of_getLsbD_eq
  intro i hi
  simp only [bitselect, BitVec.getLsbD_xor, BitVec.getLsbD_and, BitVec.getLsbD_not, hi]
  cases x.getLsbD i <;> cases y.getLsbD i <;> cases z.getLsbD i <;> rfl

/-! ### A round, lane by lane -/

/-- The masks of the device are those of theta, four columns on. -/
theorem cnBc_eq (impl : Rotl64Impl) (t : Fin 5 → BitVec 64) (i : Fin 5) :
    cnBc impl t (i + 4) = thetaMask t i := by
  fin_cases i <;> exact congrArg (_ ^^^ ·) (rotl64_1_eq impl _ (by decide))

/-- How the assignments spell a rotation by `y`. -/
def cnRotl (impl : Rotl64Impl) (x : BitVec 64) (y : ℕ) : BitVec 64 :=
  if 32 ≤ y then rotl64_2 impl x (y - 32) else rotl64_1 impl x y

theorem cnRotl_eq (impl : Rotl64Impl) (x : BitVec 64) {y : ℕ} (hy : y < 64) :
    cnRotl impl x y = rotl64 x y := by
  unfold cnRotl
  split
  · next h => rw [rotl64_2_eq impl x (by omega), Nat.sub_add_cancel h]
  · exact rotl64_1_eq impl x hy

theorem rhoOffset_lt (j : Fin 25) : rhoOffset j < 64 := by
  revert j
  decide

/-- What the cycle of assignments leaves in a lane. -/
theorem cnThetaRhoPi_apply (impl : Rotl64Impl) (bc : Fin 5 → BitVec 64) (s : KeccakState)
    (j : Fin 25) : cnThetaRhoPi impl bc s j
      = rotl64 (s (piSource j) ^^^ bc (column (piSource j) + 4)) (rhoOffset j) := by
  rcases eq_or_ne j 0 with rfl | hj
  · exact (rotl64_zero _).symm
  · rw [← cnRotl_eq impl _ (rhoOffset_lt j)]
    fin_cases j
    · exact absurd rfl hj
    all_goals rfl

theorem cnThetaRhoPi_eq (impl : Rotl64Impl) (s : KeccakState) :
    cnThetaRhoPi impl (cnBc impl (cnTmpxor s)) s = rhoPi (theta s) := by
  funext j
  rw [cnThetaRhoPi_apply, rhoPi_apply, theta_apply, cnBc_eq]
  rfl

theorem cnChiRow_eq (s : KeccakState) {j : Fin 25} (hj : j ∈ [0, 5, 10, 15, 20]) :
    cnChiRow s j = chiRow s j := by
  simp only [List.mem_cons, List.not_mem_nil, or_false] at hj
  rcases hj with rfl | rfl | rfl | rfl | rfl <;>
  · simp only [cnChiRow, bitselect_xor]
    rfl

theorem cnChi_eq (s : KeccakState) : cnChi s = chi s := by
  simp only [cnChi, chi, List.foldl_cons, List.foldl_nil]
  rw [cnChiRow_eq s (by decide), cnChiRow_eq _ (by decide), cnChiRow_eq _ (by decide),
    cnChiRow_eq _ (by decide), cnChiRow_eq _ (by decide)]

/-- **A round of the device is a round of `keccakf`.** -/
theorem cnKeccakRound_eq (impl : Rotl64Impl) (s : KeccakState) (i : ℕ) :
    cnKeccakRound impl s i = keccakfRound s i := by
  have hrndc : cnKeccakfRndc = keccakfRndc := rfl
  rw [cnKeccakRound, cnThetaRhoPi_eq, cnChi_eq, hrndc]
  rfl

/-! ### The first round of a header -/

/-- The state of which the first round makes use: lanes 10 and up are constants. -/
def headerLanes (s : KeccakState) : KeccakState := fun k =>
  if (k : ℕ) < 10 then s k else if k = 16 then 0x8000000000000000 else 0

theorem cnFirstTmpxor_eq (s : KeccakState) : cnFirstTmpxor s = cnTmpxor (headerLanes s) := by
  funext i
  fin_cases i <;> simp [cnFirstTmpxor, cnTmpxor, headerLanes]

/-- How the assignments of the first round spell the sum of lane `k` and a mask. -/
def headerTerm (s : KeccakState) (b : BitVec 64) (k : Fin 25) : BitVec 64 :=
  if (k : ℕ) < 10 then s k ^^^ b else if k = 16 then 0x8000000000000000 ^^^ b else b

theorem headerTerm_eq (s : KeccakState) (b : BitVec 64) (k : Fin 25) :
    headerTerm s b k = headerLanes s k ^^^ b := by
  unfold headerTerm headerLanes
  split_ifs
  · rfl
  · rfl
  · exact (BitVec.zero_xor).symm

theorem cnFirstThetaRhoPi_eq (impl : Rotl64Impl) (bc : Fin 5 → BitVec 64) (s : KeccakState) :
    cnFirstThetaRhoPi impl bc s = cnThetaRhoPi impl bc (headerLanes s) := by
  funext j
  rcases eq_or_ne j 0 with rfl | hj
  · show s 0 ^^^ bc 4 = headerLanes s 0 ^^^ bc 4
    rfl
  · rw [cnThetaRhoPi_apply, ← headerTerm_eq, ← cnRotl_eq impl _ (rhoOffset_lt j)]
    fin_cases j
    · exact absurd rfl hj
    all_goals rfl

/-- **The specialised round is a round**, on a state whose last lanes are those of a
padded header. -/
theorem cnFirstRound_eq (impl : Rotl64Impl) {s : KeccakState} (hs : headerLanes s = s) :
    cnFirstRound impl s = keccakfRound s 0 := by
  rw [← cnKeccakRound_eq impl, cnFirstRound, cnKeccakRound, cnFirstTmpxor_eq,
    cnFirstThetaRhoPi_eq, hs]
  rfl

/-! ### Word copies, byte by byte -/

theorem memcpy4_apply (dst : ByteMem) (d : ℕ) (src : ByteMem) (p n q : ℕ) :
    memcpy4 dst d src p n q = if d ≤ q ∧ q < d + 4 * n then src (p + (q - d)) else dst q :=
  foldl_copy_apply (fun m _ q => store32_load32 m src _ _ q) dst n q

theorem memcpy8_apply (dst : ByteMem) (d : ℕ) (src : ByteMem) (p n q : ℕ) :
    memcpy8 dst d src p n q = if d ≤ q ∧ q < d + 8 * n then src (p + (q - d)) else dst q :=
  foldl_copy_apply (fun m _ q => store64_load64 m src _ _ q) dst n q

theorem load64_memset8 (dst : ByteMem) (d : ℕ) (what : BitVec 64) {i n : ℕ} (hi : i < n) :
    load64 (memset8 dst d what n) (d + 8 * i) = what := by
  refine foldl_range_invariant (P := fun k (t : ByteMem) => i < k → load64 t (d + 8 * i) = what)
    (fun h => absurd h i.not_lt_zero) n (fun k _ t ht hk => ?_) hi
  rcases eq_or_ne i k with rfl | hne
  · exact load64_store64_self _ _ _
  · rw [load64_store64_of_disjoint _ _ (by omega), ht (by omega)]

theorem memset8_of_lt (dst : ByteMem) {d q : ℕ} (what : BitVec 64) (hq : q < d) (n : ℕ) :
    memset8 dst d what n q = dst q :=
  foldl_range_invariant (P := fun _ (t : ByteMem) => t q = dst q) rfl n fun i _ t ht => by
    rw [store64_of_disjoint _ _ (by omega), ht]

/-! ### A header -/

/-- The ninth word: the low half is kept, and the padding starts in the high half. -/
theorem and_or_append (h l : BitVec 32) :
    ((h ++ l) &&& (0x00000000FFFFFFFF : BitVec 64)) ||| (0x0000000100000000 : BitVec 64)
      = (1 : BitVec 32) ++ l := by
  have hmask : (0x00000000FFFFFFFF : BitVec 64) = (0 : BitVec 32) ++ BitVec.allOnes 32 := rfl
  have hone : (0x0000000100000000 : BitVec 64) = (1 : BitVec 32) ++ (0 : BitVec 32) := rfl
  rw [hmask, hone, BitVec.and_append, BitVec.or_append, BitVec.and_allOnes]
  simp

/-- **The array of `cn_keccak` holds the padded header**, whatever was in it. -/
theorem stateOf_cnKeccakBlock (st m : ByteMem) (input : ℕ) :
    stateOf (cnKeccakBlock st m input) = paddedHeader m input := by
  -- the array after the copy and the zeroing
  have hlow : ∀ q < 76, memset8 (memcpy4 st 0 m input 19) (8 * 10) 0 15 q = m (input + q) := by
    intro q hq
    rw [memset8_of_lt _ _ (by omega), memcpy4_apply, if_pos (by omega), Nat.sub_zero]
  have hzero : ∀ i < 15, load64 (memset8 (memcpy4 st 0 m input 19) (8 * 10) 0 15)
      (8 * 10 + 8 * i) = 0 := fun i hi => load64_memset8 _ _ _ hi
  simp only [cnKeccakBlock]
  generalize memset8 (memcpy4 st 0 m input 19) (8 * 10) 0 15 = t at hlow hzero ⊢
  funext k
  unfold stateOf
  rcases eq_or_ne k 16 with rfl | h16
  · exact load64_store64_self _ _ _
  have hk16 : (k : ℕ) ≠ 16 := fun h => h16 (Fin.ext h)
  rw [load64_store64_of_disjoint _ _ (by omega)]
  rcases lt_trichotomy (k : ℕ) 9 with h9 | h9 | h9
  · rw [load64_store64_of_disjoint _ _ (by omega), paddedHeader_of_lt m input h9]
    refine load64_eq_of_bytes fun i hi => ?_
    rw [hlow _ (by omega), Nat.add_assoc]
  · obtain rfl : k = 9 := Fin.ext h9
    have hlo : load32 t 72 = load32 m (input + 72) := load32_eq_of_bytes fun i hi => by
      rw [hlow _ (by omega), Nat.add_assoc]
    refine (load64_store64_self _ _ _).trans ?_
    rw [show load64 t (8 * 9) = load32 t 76 ++ load32 t 72 from rfl, and_or_append, hlo]
    rfl
  · have hk : 8 * (k : ℕ) = 8 * 10 + 8 * ((k : ℕ) - 10) := by omega
    rw [load64_store64_of_disjoint _ _ (by omega), paddedHeader_of_gt m input h9, if_neg h16, hk,
      hzero _ (by omega)]

theorem headerLanes_paddedHeader (m : ByteMem) (input : ℕ) :
    headerLanes (paddedHeader m input) = paddedHeader m input := by
  funext k
  unfold headerLanes
  by_cases hk : (k : ℕ) < 10
  · rw [if_pos hk]
  · rw [if_neg hk, paddedHeader_of_gt m input (by omega)]

/-! ### The permutations agree -/

theorem cnKeccakRound_funext (impl : Rotl64Impl) : cnKeccakRound impl = keccakfRound := by
  funext s i
  exact cnKeccakRound_eq impl s i

theorem cnKeccakf2_eq (impl : Rotl64Impl) (s : KeccakState) :
    cnKeccakf2 impl s = keccakf s 24 := by
  rw [cnKeccakf2, cnKeccakRound_funext, keccakf]

theorem cnKeccakf_eq (impl : Rotl64Impl) {s : KeccakState} (hs : headerLanes s = s) :
    cnKeccakf impl s = keccakf s 24 := by
  have hrange : List.range 24 = 0 :: List.range' 1 23 := rfl
  rw [cnKeccakf, cnKeccakRound_funext, cnFirstRound_eq impl hs, keccakf, hrange, List.foldl_cons]

/-- **The hash of a header is the same on both sides**, whichever permutation they
share. -/
theorem bytes_cnKeccak (perm : KeccakState → KeccakState) (st md temp m : ByteMem) (input : ℕ) :
    bytes (cnKeccak perm st md m input) 0 200 = keccak1600 perm temp m input 76 := by
  rw [keccak1600_header, cnKeccak, stateOf_cnKeccakBlock]
  refine bytes_congr fun i hi => ?_
  rw [memcpy8_apply, if_pos (by omega), Nat.sub_zero, Nat.zero_add (0 + i)]

/-- Only the state of the header goes through the permutation. -/
theorem cnKeccak_congr (perm perm' : KeccakState → KeccakState) (st md m : ByteMem) (input : ℕ)
    (h : perm (paddedHeader m input) = perm' (paddedHeader m input)) :
    cnKeccak perm st md m input = cnKeccak perm' st md m input := by
  rw [cnKeccak, cnKeccak, stateOf_cnKeccakBlock, h]

/-- **The device computes the Keccak of the CPU**, with either rotation: the final
permutation on every state, and the hash of every input of 76 bytes. -/
theorem cnKeccak_refines (impl : Rotl64Impl) :
    (∀ s : KeccakState, cnKeccakf2 impl s = keccakf s 24) ∧
      ∀ (st md temp m : ByteMem) (input : ℕ),
        bytes (cnKeccak (cnKeccakf impl) st md m input) 0 200
          = keccak1600 (fun s => keccakf s 24) temp m input 76 := by
  refine ⟨cnKeccakf2_eq impl, fun st md temp m input => ?_⟩
  have hperm := cnKeccakf_eq impl (headerLanes_paddedHeader m input)
  rw [cnKeccak_congr (cnKeccakf impl) (fun s => keccakf s 24) st md m input hperm, bytes_cnKeccak]

end XmrMiner
