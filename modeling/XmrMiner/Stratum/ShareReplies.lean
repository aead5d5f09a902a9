import XmrMiner.Stratum.Response

/-!
# What the replies to the shares mean

A reply reports success if it carries no error and its status, if it has one, is `OK`; the
reply to a keepalive is about no share.  `stratum_handle_response` tests the error with
`json_is_null`, which an absent error does not pass, where `stratum_authorize` also lets
an absent error through: a success without the key is counted as rejected.

The counters, of type `unsigned long`, are natural numbers here: they agree as long as fewer
than `2 ^ 32` replies are counted, the least that the type holds.

## Main definitions

* `reportsSuccess`, `reportsFailure` — what a reply means.
* `handleReplies` — the counters after a sequence of replies.

## Main results

* `countsReplies_iff` — the counters are right if and only if every success has its error
  written out as null.
-/

namespace XmrMiner

open CString

/-! ### The meaning of a reply -/

/-- A reply with an identifier, and a result or an error, whose status if present is a
string. -/
structure Json.IsShareReply (val : Json) : Prop where
  /-- The identifier and the result or error. -/
  response : isResponse val = true
  /-- The status. -/
  status : ∀ status, responseStatus val = some status → ∃ s, status = .string s

/-- The status is a string of this text. -/
def hasStatus (text : List Byte) (val : Json) : Bool :=
  match responseStatus val with
  | some (.string s) => s == text
  | _ => false

/-- The reply to a keepalive. -/
def keepsAlive (val : Json) : Bool := hasStatus (ascii "KEEPALIVED") val

/-- The error is absent or null. -/
def reportsNoError (val : Json) : Bool :=
  (val.objectGet (ascii "error")).isNone || jsonIsNull (val.objectGet (ascii "error"))

/-- The reply reports that the share was taken. -/
def reportsSuccess (val : Json) : Bool :=
  reportsNoError val && ((responseStatus val).isNone || hasStatus (ascii "OK") val)

/-- The reply reports that the share was refused. -/
def reportsFailure (val : Json) : Bool := !keepsAlive val && !reportsSuccess val

/-- `stratum_handle_response` over a sequence of replies. -/
def handleReplies (replies : List Json) (n : ShareCounts) : Option ShareCounts :=
  replies.foldlM (fun n val => (stratumHandleResponse (some val) n).map Prod.snd) n

/-- **The counters grow by the numbers of the successes and the failures.** -/
def CountsReplies (replies : List Json) (n : ShareCounts) : Prop :=
  handleReplies replies n = some ⟨n.accepted + replies.countP reportsSuccess,
    n.rejected + replies.countP reportsFailure⟩

/-! ### What the code counts -/

/-- The share counts as accepted. -/
def countsAccepted (val : Json) : Bool :=
  jsonIsNull (val.objectGet (ascii "error")) && reportsSuccess val

/-- The share counts as rejected. -/
def countsRejected (val : Json) : Bool := !keepsAlive val && !countsAccepted val

/-- One reply: nothing for a keepalive, else one of the counters. -/
theorem stratumHandleResponse_reply {val : Json} {n : ShareCounts} (h : val.IsShareReply) :
    (stratumHandleResponse (some val) n).map Prod.snd =
      some ⟨n.accepted + (countsAccepted val).toNat, n.rejected + (countsRejected val).toNat⟩ := by
  unfold stratumHandleResponse
  simp only [h.response, if_true]
  cases hval : responseStatus val with
  | none =>
    have hkeeps : keepsAlive val = false := by simp [keepsAlive, hasStatus, hval]
    have haccept : countsAccepted val = jsonIsNull (val.objectGet (ascii "error")) := by
      simp only [countsAccepted, reportsSuccess, reportsNoError, hval]
      cases jsonIsNull (val.objectGet (ascii "error")) <;> simp
    simp only [countsRejected, hkeeps, haccept]
    cases jsonIsNull (val.objectGet (ascii "error")) <;> rfl
  | some status =>
    obtain ⟨s, rfl⟩ := h.status _ hval
    have hkeeps : keepsAlive val = (s == ascii "KEEPALIVED") := by
      simp [keepsAlive, hasStatus, hval]
    have haccept : countsAccepted val =
        (s == ascii "OK" && jsonIsNull (val.objectGet (ascii "error"))) := by
      simp only [countsAccepted, reportsSuccess, reportsNoError, hasStatus, hval]
      cases jsonIsNull (val.objectGet (ascii "error")) <;> simp
    simp only [Json.stringValue, Option.map_some, countsRejected, hkeeps, haccept]
    by_cases hs : s = ascii "KEEPALIVED"
    · subst hs
      rw [if_pos rfl]
      have hother : (ascii "KEEPALIVED" == ascii "OK") = false := by decide
      simp [hother]
    · rw [if_neg hs, beq_eq_false_iff_ne.mpr hs]
      cases (s == ascii "OK" && jsonIsNull (val.objectGet (ascii "error"))) <;> rfl

/-- A sequence of replies. -/
theorem handleReplies_eq {replies : List Json} (h : ∀ val ∈ replies, val.IsShareReply) :
    ∀ n : ShareCounts, handleReplies replies n =
      some ⟨n.accepted + replies.countP countsAccepted,
        n.rejected + replies.countP countsRejected⟩ := by
  induction replies with
  | nil =>
    intro n
    rfl
  | cons val replies ih =>
    intro n
    have hrest := ih fun v hv => h v (List.mem_cons_of_mem _ hv)
    unfold handleReplies at hrest ⊢
    rw [List.foldlM_cons, stratumHandleResponse_reply (h val List.mem_cons_self)]
    simp only [Option.bind_eq_bind, Option.bind_some, hrest, List.countP_cons]
    cases countsAccepted val <;> cases countsRejected val <;> simp <;> omega

/-! ### The condition -/

theorem jsonIsNull_iff {v : Option Json} : jsonIsNull v = true ↔ v = some .null := by
  unfold jsonIsNull
  split
  · exact iff_of_true rfl rfl
  · next hother => exact iff_of_false Bool.false_ne_true hother

theorem reportsSuccess_of_countsAccepted (val : Json) (h : countsAccepted val = true) :
    reportsSuccess val = true :=
  (Bool.and_eq_true _ _ ▸ h).2

/-- What was refused is never counted as accepted. -/
theorem countsRejected_of_reportsFailure (val : Json) (h : reportsFailure val = true) :
    countsRejected val = true := by
  simp only [reportsFailure, countsRejected, Bool.and_eq_true, Bool.not_eq_true'] at h ⊢
  exact ⟨h.1, by simpa [h.2] using mt (reportsSuccess_of_countsAccepted val)⟩

/-- A count under a stronger test is the same only if the tests agree on the list. -/
theorem countP_eq_iff_of_imp {p q : Json → Bool} {l : List Json}
    (himp : ∀ a, p a = true → q a = true) :
    l.countP p = l.countP q ↔ ∀ a ∈ l, q a = true → p a = true := by
  induction l with
  | nil => simp
  | cons a l ih =>
    have hle : l.countP p ≤ l.countP q := List.countP_mono_left fun x _ => himp x
    simp only [List.countP_cons, List.forall_mem_cons, ← ih]
    cases hp : p a with
    | true => simp [himp a hp]
    | false =>
      cases hq : q a with
      | true =>
        simp only [Bool.false_eq_true, if_false, if_true, forall_const, false_and, iff_false]
        omega
      | false => simp

/-- **The counters are right if and only if** every success among the replies has its error
written out as null. -/
theorem countsReplies_iff {replies : List Json} {n : ShareCounts}
    (h : ∀ val ∈ replies, val.IsShareReply) :
    CountsReplies replies n ↔ ∀ val ∈ replies, reportsSuccess val = true →
      val.objectGet (ascii "error") = some .null := by
  have haccepted : replies.countP countsAccepted = replies.countP reportsSuccess ↔
      ∀ val ∈ replies, reportsSuccess val = true →
        val.objectGet (ascii "error") = some .null := by
    rw [countP_eq_iff_of_imp reportsSuccess_of_countsAccepted]
    refine forall₂_congr fun val _ => forall_congr' fun hval => ?_
    rw [countsAccepted, hval, Bool.and_true, jsonIsNull_iff]
  rw [CountsReplies, handleReplies_eq h, ← haccepted]
  simp only [Option.some.injEq, ShareCounts.mk.injEq, Nat.add_left_cancel_iff]
  constructor
  · intro hcounts
    exact hcounts.1
  · intro hcounts
    refine ⟨hcounts, ?_⟩
    symm
    rw [countP_eq_iff_of_imp countsRejected_of_reportsFailure]
    -- a rejected reply is no success, since the successes are all accepted
    have hall := (countP_eq_iff_of_imp reportsSuccess_of_countsAccepted).mp hcounts
    intro val hmem hval
    simp only [reportsFailure, countsRejected, Bool.and_eq_true, Bool.not_eq_true'] at hval ⊢
    refine ⟨hval.1, ?_⟩
    by_contra hsuccess
    rw [hall val hmem (by simpa using hsuccess)] at hval
    exact absurd hval.2 (by simp)

/-- Three replies: a share taken, a keepalive, a share refused. -/
theorem countsReplies_of_three :
    CountsReplies
      [.object [(ascii "id", .integer 1), (ascii "error", .null),
          (ascii "result", .object [(ascii "status", .string (ascii "OK"))])],
        .object [(ascii "id", .integer 2),
          (ascii "result", .object [(ascii "status", .string (ascii "KEEPALIVED"))])],
        .object [(ascii "id", .integer 3),
          (ascii "error", .object [(ascii "message", .string (ascii "Low difficulty share"))])]]
      ⟨0, 0⟩ := by
  refine (countsReplies_iff ?_).mpr ?_
  · intro val hval
    simp only [List.mem_cons, List.not_mem_nil, or_false] at hval
    rcases hval with rfl | rfl | rfl
    · exact ⟨by decide +kernel, fun status hstatus => ⟨_, (Option.some.inj hstatus).symm⟩⟩
    · exact ⟨by decide +kernel, fun status hstatus => ⟨_, (Option.some.inj hstatus).symm⟩⟩
    · exact ⟨by decide +kernel, nofun⟩
  · intro val hval
    simp only [List.mem_cons, List.not_mem_nil, or_false] at hval
    rcases hval with rfl | rfl | rfl
    · intro _
      rfl
    · intro hsuccess
      exact absurd hsuccess (by decide +kernel)
    · intro hsuccess
      exact absurd hsuccess (by decide +kernel)

/-- The reply to a share that was taken, without a key for the error. -/
theorem not_countsReplies_of_absent :
    ¬ ∀ (replies : List Json) (n : ShareCounts), (∀ val ∈ replies, val.IsShareReply) →
      CountsReplies replies n := by
  intro h
  let val : Json := .object [(ascii "id", .integer 1),
    (ascii "result", .object [(ascii "status", .string (ascii "OK"))])]
  have hcounts := h [val] ⟨0, 0⟩ (by
    intro val' hval'
    obtain rfl := List.mem_singleton.mp hval'
    exact ⟨by decide +kernel, fun status hstatus => ⟨_, (Option.some.inj hstatus).symm⟩⟩)
  -- the reply is counted as rejected
  have hcode : handleReplies [val] ⟨0, 0⟩ = some ⟨0, 1⟩ := rfl
  rw [CountsReplies, hcode] at hcounts
  have hnone : (0 : ℕ) = 0 + [val].countP reportsSuccess :=
    congrArg ShareCounts.accepted (Option.some.inj hcounts)
  revert hnone
  decide +kernel

end XmrMiner
