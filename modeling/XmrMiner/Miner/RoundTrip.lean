import Mathlib.Tactic.IntervalCases
import XmrMiner.Miner.Share
import XmrMiner.Stratum.JsonText

/-!
# What a pool reads in the line

The line for a share is put together from the identifiers as they stand in their fields,
without escapes, and is cut to the size of its buffer.  A pool that decodes it finds the
identifiers only if they have been stored whole, need no escape, and leave room for the rest.

## Main definitions

* `submitValue` — what a pool should find.
* `Stores` — the identifiers in their fields.
* `RoundTrips` — a pool finds it.

## Main results

* `stores_of_decode` — a login and a job store the identifiers so.
* `roundTrips_iff` — when the line round-trips.
-/

namespace XmrMiner

open ByteMem CString

/-- The parameters of a share. -/
def shareMembers (id jobId nonce hash : List Byte) : List (List Byte × Json) :=
  [(ascii "id", .string id), (ascii "job_id", .string jobId), (ascii "nonce", .string nonce),
    (ascii "result", .string hash)]

/-- The value of a line. -/
def submitValue (id jobId nonce hash : List Byte) : Json :=
  .object [(ascii "method", .string (ascii "submit")),
    (ascii "params", .object (shareMembers id jobId nonce hash)), (ascii "id", .integer 1)]

/-- The identifiers as the client stores those that it accepts: that of the session by the
copy in `rpc2_login_decode`, that of the job by the one in `rpc2_job_decode`. -/
structure Stores (id jobId : List Byte) (ids : SessionIds) (w : Work) : Prop where
  /-- The row of the pool. -/
  id : ∃ heap, copyRow heap id = some (ids w.dev)
  /-- The field of the work. -/
  jobId : w.jobId = jobId.take 128

/-- They are stored so by a login and a job behind it. -/
theorem stores_of_decode {val job : Json} {id jobId hexblob : List Byte}
    (hval : val.IsLogin id) (hjob : job.OffersBlob (.string jobId) hexblob)
    {heap : Option ByteMem} {ids ids' : SessionIds} {s s' : Rpc2Job} {work work' : Work}
    {uninit : BitVec 32} {ret ret' : Bool}
    (hlogin : rpc2LoginDecode val work.dev heap ids = some (ret, ids'))
    (hdecode : rpc2JobDecode job uninit s work = some (ret', s', work')) :
    Stores id jobId ids' work' := by
  rw [rpc2LoginDecode_isLogin hval] at hlogin
  obtain ⟨row, hrow, heq⟩ := Option.map_eq_some_iff.mp hlogin
  obtain ⟨-, rfl⟩ : true = ret ∧ Function.update ids work.dev row = ids' := by simpa using heq
  cases rpc2JobDecode_decoded hdecode with
  | refused hnew => exact absurd hjob (hnew _ _)
  | again hmsg =>
    have hblob : some (Json.string hexblob) = some (.string []) := hjob.blob.symm.trans hmsg.2
    exact absurd (by simpa using hblob) hjob.nonempty
  | renewed hmsg =>
    have hid : some (Json.string jobId) = some (.string _) := hjob.id.symm.trans hmsg.id
    obtain rfl : jobId = _ := by simpa using hid
    refine ⟨⟨heap, ?_⟩, rfl⟩
    change copyRow heap id = some (Function.update ids work.dev row work.dev)
    rw [hrow, Function.update_self]

/-- **The line round-trips**: whatever lies behind the strings in memory, for every share and
every hash function, what `send_line` writes is the text of one object, with the identifiers,
the four bytes of the nonce and the hash. -/
def RoundTrips (id jobId : List Byte) : Prop :=
  ∀ (H : CnHash) (w : Work) (ids : SessionIds) (behind : List Byte) (answers : List SendEvent)
    (bs : List Byte), Stores id jobId ids w →
    sendLine (snprintf (submitMessage H (sessionId ids behind w.dev) w)) answers =
      some (bs, true) →
    decodeText bs = some (submitValue id jobId (bin2hex (bytes w.data 39 4))
      (bin2hex (hashBytes (submitHash H w))))

/-- The condition on the identifiers. -/
structure CanRoundTrip (id jobId : List Byte) : Prop where
  /-- That of the session fits its row. -/
  id_length : id.length ≤ 63
  /-- That of the job fits its field. -/
  jobId_length : jobId.length ≤ 128
  /-- Together they leave room for the rest of the line. -/
  room : id.length + jobId.length ≤ 181
  /-- No character of the one, -/
  id_plain : Plain id
  /-- and none of the other is a quotation mark, a backslash or a control character. -/
  jobId_plain : Plain jobId

/-! ### The text -/

/-- The text up to the parameters. -/
def paramsText (text : List Byte) : List Byte :=
  openBrace :: member (ascii "method") (stringText (ascii "submit")
    (comma :: space :: member (ascii "params") (openBrace :: text)))

/-- The text of the parameters, up to the quotation mark behind the hash. -/
def shareText (id jobId nonce hash text : List Byte) : List Byte :=
  member (ascii "id") (stringText id (comma :: space ::
    member (ascii "job_id") (stringText jobId (comma :: space ::
      member (ascii "nonce") (stringText nonce (comma :: space ::
        member (ascii "result") (stringText hash text)))))))

/-- The line up to there. -/
def submitText (id jobId nonce hash text : List Byte) : List Byte :=
  paramsText (shareText id jobId nonce hash text)

/-- What follows it. -/
def closing : List Byte := ascii "\x7d, \"id\":1\x7d"

theorem submitText_append (id jobId nonce hash text more : List Byte) :
    submitText id jobId nonce hash text ++ more =
      submitText id jobId nonce hash (text ++ more) := by
  simp [submitText, paramsText, shareText, member, stringText]

theorem messageHead_quote (id jobId : List Byte) (nonce : BitVec 32) (hash : Fin 8 → BitVec 32)
    (text : List Byte) : messageHead id jobId nonce hash ++ quote :: text =
      submitText id jobId (bin2hex (nonceBytes nonce)) (bin2hex (hashBytes hash)) text := by
  have hmethod : ascii "\x7b\"method\": \"submit\", \"params\": \x7b\"id\": \"" =
      paramsText (member (ascii "id") [quote]) := by decide +kernel
  have hjobId : ascii "\", \"job_id\": \"" =
      quote :: comma :: space :: member (ascii "job_id") [quote] := by decide +kernel
  have hnonce : ascii "\", \"nonce\": \"" =
      quote :: comma :: space :: member (ascii "nonce") [quote] := by decide +kernel
  have hresult : ascii "\", \"result\": \"" =
      quote :: comma :: space :: member (ascii "result") [quote] := by decide +kernel
  rw [messageHead, hmethod, hjobId, hnonce, hresult]
  simp [submitText, paramsText, shareText, member, stringText]

/-- The line, if it reaches behind the hash. -/
theorem snprintf_submitMessage {H : CnHash} {id : List Byte} {w : Work}
    (hroom : id.length + w.jobId.length ≤ 191) : snprintf (submitMessage H id w) =
      submitText id w.jobId (bin2hex (bytes w.data 39 4)) (bin2hex (hashBytes (submitHash H w)))
        (closing.take (191 - (id.length + w.jobId.length))) := by
  have hhash : submitHash H w = hostHash H w.data w.nonce := by
    rw [← submitHash_eq_hostHash, Work.setNonce_nonce]
  have hbytes : bytes w.data 39 4 = nonceBytes w.nonce := by
    rw [← bytes_setNonce, Work.setNonce_nonce]
  have hmessage : submitMessage H id w =
      messageHead id w.jobId w.nonce (hostHash H w.data w.nonce) ++ quote :: closing := by
    have heq := submitMessage_eq H id w w.nonce
    rwa [Work.setNonce_nonce] at heq
  have hlen := length_messageHead id w.jobId w.nonce (hostHash H w.data w.nonce)
  rw [hhash, hbytes, hmessage, snprintf, ← messageHead_quote, List.take_append,
    List.take_of_length_le (by rw [hlen, JSON_BUF_LEN]; omega), hlen]
  have hrest : JSON_BUF_LEN - 1 - (id.length + w.jobId.length + 152) =
      191 - (id.length + w.jobId.length) + 1 := by
    rw [JSON_BUF_LEN]
    omega
  rw [hrest, List.take_succ_cons]

/-! ### What is read -/

theorem plain_bin2hex (bs : List Byte) : Plain (bin2hex bs) := by
  have hdigit : ∀ v < 16, hexDigit v ≠ quote ∧ hexDigit v ≠ backslash ∧
      0x1F < (hexDigit v).toNat := by decide
  intro c hc
  obtain ⟨b, -, hb⟩ := List.mem_flatMap.mp hc
  have hlow : b.toNat % 16 < 16 := Nat.mod_lt _ (by decide)
  have hhigh : b.toNat / 16 < 16 := by omega
  rcases List.mem_cons.mp hb with rfl | hb
  · exact hdigit _ hhigh
  · rw [List.mem_singleton.mp hb]
    exact hdigit _ hlow

theorem plain_keys : Plain (ascii "method") ∧ Plain (ascii "submit") ∧ Plain (ascii "params") ∧
    Plain (ascii "id") ∧ Plain (ascii "job_id") ∧ Plain (ascii "nonce") ∧
    Plain (ascii "result") := by
  decide +kernel

theorem closing_eq : closing =
    [closeBrace, comma, space, quote, 105, 100, quote, colon, 49, closeBrace] := by
  decide +kernel

/-- The parameters are read from the text, and behind them the end of the line. -/
def Reads (text : List Byte) (params : List (List Byte × Json)) : Prop :=
  ∃ k n rest rest' rest'', jsonMembers k text = some (params, rest) ∧
    expect comma rest = some rest' ∧
    jsonMembers n rest' = some ([(ascii "id", .integer 1)], rest'') ∧ skipBlanks rest'' = []

theorem reads_of_decodeText {text id jobId nonce hash : List Byte}
    (h : decodeText (paramsText text) = some (submitValue id jobId nonce hash)) :
    Reads text (shareMembers id jobId nonce hash) := by
  obtain ⟨hmethod, hsubmit, hparams, -⟩ := plain_keys
  unfold decodeText at h
  split at h
  · obtain ⟨⟨v, rest''⟩, hvalue, hend⟩ := Option.bind_eq_some_iff.mp h
    split at hend
    · next hblank =>
      obtain rfl : v = submitValue id jobId nonce hash := Option.some.inj hend
      obtain ⟨k, hmembers⟩ := jsonValue_object_cases hvalue
      obtain ⟨-, k, hmembers⟩ := jsonMembers_string_cases hmethod hsubmit hmembers
      obtain ⟨k, value, rest, hobject, hmore⟩ := jsonMembers_member_cases hparams hmembers
      obtain ⟨-, rfl⟩ := Prod.mk.inj (moreMembers_head hmore)
      obtain ⟨n, hinner⟩ := jsonValue_object_cases hobject
      rcases moreMembers_cases hmore with ⟨heq, -⟩ | ⟨ms, rest', -, heq, hcomma, hlast⟩
      · cases (List.cons.inj heq).2
      · obtain rfl := (List.cons.inj heq).2
        exact ⟨n, k, rest, rest', rest'', hinner, hcomma, hlast, hblank⟩
    · cases hend
  · cases h

/-- The end of a line that is read is not cut off. -/
theorem length_closing_le {n j : ℕ} {rest rest' rest'' : List Byte}
    {ms : List (List Byte × Json)}
    (hclose : expect closeBrace (closing.take j ++ [newline]) = some rest)
    (hcomma : expect comma rest = some rest') (hlast : jsonMembers n rest' = some (ms, rest'')) :
    10 ≤ j := by
  -- a cut of this length is not read
  have hcut : ∀ i < 8, jsonMembers n ((closing.drop 2).take i ++ [newline]) = none := by
    rw [closing_eq]
    intro i hi
    rcases n with - | - | n
    · rfl
    · interval_cases i <;> rfl
    · interval_cases i <;> rfl
  by_contra hlt
  match j with
  | 0 => cases hclose
  | 1 =>
    rw [closing_eq] at hclose
    obtain rfl := Option.some.inj hclose
    cases hcomma
  | i + 2 =>
    have hdrop : closing.take (i + 2) = closeBrace :: comma :: (closing.drop 2).take i := by
      rw [closing_eq]
      rfl
    rw [hdrop] at hclose
    obtain rfl := Option.some.inj hclose
    obtain rfl := Option.some.inj hcomma
    cases (hcut i (by omega)).symm.trans hlast

/-- **A line that is read has plain identifiers, and is not cut off.** -/
theorem plain_of_decodeText {id jobId jobId' nonce hash : List Byte} {j : ℕ}
    (hbegins : jobId' <+: jobId) (hnonce : Plain nonce) (hhash : Plain hash)
    (h : decodeText (submitText id jobId' nonce hash (closing.take j ++ [newline])) =
      some (submitValue id jobId nonce hash)) :
    Plain id ∧ Plain jobId' ∧ jobId = jobId' ∧ 10 ≤ j := by
  obtain ⟨-, -, -, hkeyId, hkeyJob, hkeyNonce, hkeyResult⟩ := plain_keys
  obtain ⟨k, n, rest, rest', rest'', hparams, hcomma, hlast, -⟩ := reads_of_decodeText h
  obtain ⟨hid, -, k, hparams⟩ := jsonMembers_prefix_cases hkeyId List.prefix_rfl hparams
  obtain ⟨hjob, heq, k, hparams⟩ := jsonMembers_prefix_cases hkeyJob hbegins hparams
  obtain ⟨-, k, hparams⟩ := jsonMembers_string_cases hkeyNonce hnonce hparams
  refine ⟨hid, hjob, heq, ?_⟩
  obtain ⟨k, value, text, hvalue, hmore⟩ := jsonMembers_member_cases hkeyResult hparams
  obtain ⟨-, rfl⟩ := jsonValue_stringText_cases hhash hvalue
  rcases moreMembers_cases hmore with ⟨-, hclose⟩ | ⟨ms, _, hne, hms, -, -⟩
  · exact length_closing_le hclose hcomma hlast
  · exact absurd (List.cons.inj hms).2.symm hne

theorem jsonMembers_shareText {id jobId nonce hash : List Byte} (hid : Plain id)
    (hjob : Plain jobId) (hnonce : Plain nonce) (hhash : Plain hash) (n : ℕ) (text : List Byte) :
    jsonMembers (n + 5) (shareText id jobId nonce hash (closeBrace :: text)) =
      some (shareMembers id jobId nonce hash, text) := by
  obtain ⟨-, -, -, hkeyId, hkeyJob, hkeyNonce, hkeyResult⟩ := plain_keys
  rw [shareText, jsonMembers_string hkeyId hid, jsonMembers_string hkeyJob hjob,
    jsonMembers_string hkeyNonce hnonce, jsonMembers_member hkeyResult,
    jsonValue_stringText hhash, Option.bind_some, moreMembers_close]
  rfl

/-- **A line with plain identifiers is read.** -/
theorem decodeText_submitText {id jobId nonce hash : List Byte} (hid : Plain id)
    (hjob : Plain jobId) (hnonce : Plain nonce) (hhash : Plain hash) :
    decodeText (submitText id jobId nonce hash (closing ++ [newline])) =
      some (submitValue id jobId nonce hash) := by
  obtain ⟨hmethod, hsubmit, hparams, -⟩ := plain_keys
  have hsplit : closing ++ [newline] =
      closeBrace :: comma :: ((closing.drop 2) ++ [newline]) := by
    rw [closing_eq]
    rfl
  rw [hsplit]
  have hlast : ∀ n, jsonMembers (n + 2) (closing.drop 2 ++ [newline]) =
      some ([(ascii "id", .integer 1)], [newline]) := by
    intro n
    rw [closing_eq]
    rfl
  obtain ⟨n, hlen⟩ : ∃ n, (submitText id jobId nonce hash
      (closeBrace :: comma :: (closing.drop 2 ++ [newline]))).length = n + 9 := by
    refine Nat.exists_eq_add_of_le' ?_
    simp only [submitText, paramsText, member, stringText, List.length_cons, List.length_append]
    omega
  have hshare := jsonValue_object (jsonMembers_shareText hid hjob hnonce hhash n
    (comma :: (closing.drop 2 ++ [newline]))) rfl (by decide +kernel : [ascii "id",
      ascii "job_id", ascii "nonce", ascii "result"].Nodup)
  have hline : jsonMembers (n + 8) (member (ascii "method") (stringText (ascii "submit")
      (comma :: space :: member (ascii "params") (openBrace :: shareText id jobId nonce hash
        (closeBrace :: comma :: (closing.drop 2 ++ [newline])))))) =
      some ([(ascii "method", .string (ascii "submit")),
        (ascii "params", .object (shareMembers id jobId nonce hash)), (ascii "id", .integer 1)],
        [newline]) := by
    rw [jsonMembers_string hmethod hsubmit, jsonMembers_member hparams, hshare, Option.bind_some,
      moreMembers_comma, hlast]
    rfl
  have hobject := jsonValue_object hline rfl (by decide +kernel : [ascii "method",
    ascii "params", ascii "id"].Nodup)
  exact decodeText_object hlen hobject rfl

/-! ### The line that is sent -/

theorem sendLine_at_once (s : List Byte) :
    sendLine s [.sent (s.length + 1)] = some (s ++ [newline], true) := by
  simp [sendLine, sendLoop, SendCall.round, SendCall.ofMessage]

/-- The message up to the identifier of the session. -/
def messageStart : List Byte := paramsText (member (ascii "id") [quote])

theorem submitMessage_start (H : CnHash) (id : List Byte) (w : Work) :
    ∃ more, submitMessage H id w = messageStart ++ (id ++ more) := by
  have hstart : ascii "\x7b\"method\": \"submit\", \"params\": \x7b\"id\": \"" =
      messageStart := by decide +kernel
  rw [submitMessage, hstart]
  simp only [List.append_assoc]
  exact ⟨_, rfl⟩

/-- Reading a row that is filled goes on behind it. -/
theorem sessionId_of_long {row : List.Vector Byte 64} {id behind : List Byte}
    (hrow : copyRow none id = some row) (hlong : 64 ≤ id.length) (hnul : nul ∉ id)
    (hbehind : nul ∉ behind) : sessionId (fun _ => row) behind 1 = id.take 64 ++ behind := by
  have hnot : nul ∉ id.take 64 ++ behind := by
    intro hmem
    rcases List.mem_append.mp hmem with hid | hmem
    · exact hnul (List.mem_of_mem_take hid)
    · exact hbehind hmem
  rw [sessionId, if_neg (by decide), toList_copyRow hrow hlong]
  apply List.takeWhile_eq_self_iff.mpr
  intro c hc
  have hc' : c ≠ nul := fun heq => hnot (heq ▸ hc)
  simpa using hc'

/-- A line that is cut off before another quotation mark. -/
theorem snprintf_of_long {H : CnHash} {s behind : List Byte} {w : Work} (hs : s.length ≤ 64)
    (hbehind : JSON_BUF_LEN ≤ behind.length) :
    ∃ n, snprintf (submitMessage H (s ++ behind) w) = messageStart ++ (s ++ behind.take n) := by
  obtain ⟨more, hmore⟩ := submitMessage_start H (s ++ behind) w
  have hstart : messageStart.length = 39 := by decide +kernel
  have hshort : (messageStart ++ s).length ≤ JSON_BUF_LEN - 1 := by
    rw [List.length_append, hstart, JSON_BUF_LEN]
    omega
  refine ⟨JSON_BUF_LEN - 1 - (messageStart ++ s).length, ?_⟩
  rw [hmore, snprintf, List.append_assoc, ← List.append_assoc, List.take_append,
    List.take_of_length_le hshort, List.append_assoc, List.take_append_of_le_length (by omega)]

/-- The identifier that is read from it is shorter. -/
theorem length_lt_of_decodeText {s text id jobId nonce hash : List Byte} (htext : quote ∉ text)
    (h : decodeText (messageStart ++ (s ++ text)) = some (submitValue id jobId nonce hash)) :
    id.length < s.length := by
  have hstart : messageStart ++ (s ++ text) =
      paramsText (member (ascii "id") (quote :: (s ++ text))) := by
    simp [messageStart, paramsText, member, stringText]
  rw [hstart] at h
  obtain ⟨k, _, _, _, _, hparams, -⟩ := reads_of_decodeText h
  obtain ⟨m, value, rest, hvalue, hhead⟩ := jsonMembers_member_cases plain_keys.2.2.2.1 hparams
  obtain ⟨d, rfl, hscan⟩ := jsonValue_string_cases hvalue
  obtain rfl : id = d := by simpa using moreMembers_head hhead
  exact length_lt_of_scanString htext hscan

/-- **An identifier that fills its row is not read to its end**: what lies behind the rows may
have no quotation mark up to the end of the line. -/
theorem length_le_of_roundTrips {id jobId : List Byte} (hnul : nul ∉ id)
    (h : RoundTrips id jobId) : id.length ≤ 63 := by
  by_contra hlong
  obtain ⟨row, hrow⟩ : ∃ row, copyRow none id = some row := by
    rw [copyRow, if_pos (by omega)]
    exact ⟨_, rfl⟩
  let w : Work := ⟨fun _ => 0, fun _ => 0, jobId.take 128, 1⟩
  let behind : List Byte := List.replicate JSON_BUF_LEN 97
  have hbehind : ∀ c ∈ behind, c = 97 := fun c => List.eq_of_mem_replicate
  have hread : sessionId (fun _ => row) behind w.dev = id.take 64 ++ behind :=
    sessionId_of_long hrow (by omega) hnul fun hmem => absurd (hbehind _ hmem) (by decide)
  obtain ⟨n, hline⟩ := snprintf_of_long (H := fun _ _ _ => 0) (s := id.take 64) (w := w)
    (List.length_take_le _ _) (List.length_replicate.ge : JSON_BUF_LEN ≤ behind.length)
  have hdecode := h (fun _ _ _ => 0) w (fun _ => row) behind _ _ ⟨⟨none, hrow⟩, rfl⟩
    (sendLine_at_once _)
  rw [hread, hline, List.append_assoc, List.append_assoc] at hdecode
  have hquote : quote ∉ behind.take n ++ [newline] := by
    intro hmem
    rcases List.mem_append.mp hmem with hmem | hmem
    · exact absurd (hbehind _ (List.mem_of_mem_take hmem)) (by decide)
    · exact absurd (List.mem_singleton.mp hmem) (by decide)
  have hlt := length_lt_of_decodeText hquote hdecode
  rw [List.length_take] at hlt
  omega

/-! ### The identifiers -/

/-- The line for an identifier that fits its row. -/
theorem line_of_stores {id jobId behind : List Byte} {ids : SessionIds} {w : Work} (H : CnHash)
    (hstores : Stores id jobId ids w) (hnul : nul ∉ id) (hlen : id.length ≤ 63) :
    snprintf (submitMessage H (sessionId ids behind w.dev) w) =
      submitText id (jobId.take 128) (bin2hex (bytes w.data 39 4))
        (bin2hex (hashBytes (submitHash H w)))
        (closing.take (191 - (id.length + (jobId.take 128).length))) := by
  obtain ⟨heap, hrow⟩ := hstores.id
  have hjob : (jobId.take 128).length ≤ 128 := List.length_take_le _ _
  rw [(holdsString_copyRow hrow hnul hlen).sessionId_eq,
    snprintf_submitMessage (by rw [hstores.jobId]; omega), hstores.jobId]

theorem canRoundTrip_of_roundTrips {id jobId : List Byte} (hnul : nul ∉ id)
    (h : RoundTrips id jobId) : CanRoundTrip id jobId := by
  have hid := length_le_of_roundTrips hnul h
  obtain ⟨row, hrow⟩ : ∃ row, copyRow (some fun _ => 0) id = some row := by
    rw [copyRow]
    split <;> exact ⟨_, rfl⟩
  let w : Work := ⟨fun _ => 0, fun _ => 0, jobId.take 128, 0⟩
  have hstores : Stores id jobId (fun _ => row) w := ⟨⟨_, hrow⟩, rfl⟩
  have hdecode := h (fun _ _ _ => 0) w (fun _ => row) [] _ _ hstores (sendLine_at_once _)
  rw [line_of_stores _ hstores hnul hid, submitText_append] at hdecode
  obtain ⟨hplain, hjob, heq, hroom⟩ := plain_of_decodeText (List.take_prefix _ _)
    (plain_bin2hex _) (plain_bin2hex _) hdecode
  have hjobLen : jobId.length ≤ 128 := by
    rw [heq]
    exact List.length_take_le _ _
  rw [← heq] at hjob hroom
  exact ⟨hid, hjobLen, by omega, hplain, hjob⟩

theorem CanRoundTrip.roundTrips {id jobId : List Byte} (h : CanRoundTrip id jobId) :
    RoundTrips id jobId := by
  intro H w ids behind answers bs hstores hsend
  have hnul : nul ∉ id := fun hmem => absurd (h.id_plain nul hmem).2.2 (by decide)
  have htake : jobId.take 128 = jobId := List.take_of_length_le h.jobId_length
  have hclosing : closing.take (191 - (id.length + jobId.length)) = closing := by
    refine List.take_of_length_le ?_
    have hlen : closing.length = 10 := by decide +kernel
    have hroom := h.room
    omega
  rcases sendLine_spec hsend with ⟨-, rfl⟩ | ⟨hfalse, -⟩
  · rw [line_of_stores H hstores hnul h.id_length, htake, submitText_append, hclosing]
    exact decodeText_submitText h.id_plain h.jobId_plain (plain_bin2hex _) (plain_bin2hex _)
  · cases hfalse

/-- **The line round-trips if and only if** both identifiers are stored whole, leave room for
the rest of the line, and need no escape: for every nonce, hash and content of the memory. -/
theorem roundTrips_iff {id jobId : List Byte} (hnul : nul ∉ id) :
    RoundTrips id jobId ↔ CanRoundTrip id jobId :=
  ⟨canRoundTrip_of_roundTrips hnul, CanRoundTrip.roundTrips⟩

/-- The identifiers of a login and of a job. -/
theorem roundTrips_iff_first : RoundTrips (ascii "a1b2") (ascii "b") := by
  apply (roundTrips_iff (by decide +kernel)).mpr
  constructor <;> decide +kernel

/-- An identifier of a job with a quotation mark. -/
theorem not_roundTrips_of_quote :
    ¬ ∀ id jobId : List Byte, nul ∉ id → nul ∉ jobId → RoundTrips id jobId := by
  intro h
  have htrip := h (ascii "a1b2") (ascii "a\"b") (by decide +kernel) (by decide +kernel)
  have hplain := (canRoundTrip_of_roundTrips (by decide +kernel) htrip).jobId_plain
  revert hplain
  decide +kernel

end XmrMiner
