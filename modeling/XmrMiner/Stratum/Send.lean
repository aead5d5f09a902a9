import XmrMiner.Lib.CString
import XmrMiner.Lib.Trace
import XmrMiner.Stratum.Recv

/-!
# Sending lines

`stratum_send_line` writes a line to the connection while it holds `sock_lock`, in
as many pieces as the socket takes.  If the socket is not ready it gives up at
once and returns false, also in the middle of the line; its callers may send the
line again from its beginning.

## Main definitions

* `SendEvent`, `SendCall.round` — one round of the loop in `send_line`.
* `sendLine` — a whole call.
* `Conn`, `ConnStep` — a connection and the calls made on it.
* `Conn.Framed` — the bytes written are lines, and the beginning of one at most.

## Main results

* `framed_of_run` — the connection stays framed as long as no call is given up in the
  middle of a line.
* `sendLine_run`, `sendLine_spec` — a call is a run of its rounds, and what it writes.
-/

namespace XmrMiner

open CString

/-! ### One call -/

/-- The answers of the socket in one round. -/
inductive SendEvent
  /-- `select` finds the socket not writable. -/
  | notWritable
  /-- `send` takes `n` bytes, or all that are left. -/
  | sent (n : ℕ)
  /-- `send` fails with `EAGAIN` or `EWOULDBLOCK`. -/
  | wouldBlock
  /-- `send` fails for another reason. -/
  | error
  deriving DecidableEq

/-- A call on its way: the line with its newline, and the number of bytes written. -/
structure SendCall where
  /-- The line. -/
  line : List Byte
  /-- `sent`. -/
  sent : ℕ
  deriving DecidableEq

/-- The start of a call: the terminator of the message is replaced by a newline. -/
def SendCall.ofMessage (s : List Byte) : SendCall := ⟨s ++ [newline], 0⟩

/-- One round of the loop: the bytes written, the call after it, and what the call
returns if it returns. -/
def SendCall.round (k : SendCall) : SendEvent → List Byte × SendCall × Option Bool
  | .notWritable => ([], k, some false)
  | .error => ([], k, some false)
  | .wouldBlock => ([], k, none)
  | .sent n =>
    let n := min n (k.line.length - k.sent)
    let k' := { k with sent := k.sent + n }
    ((k.line.drop k.sent).take n, k', if k'.sent < k.line.length then none else some true)

/-- The loop of `send_line`: the bytes written and the value returned, none if the
answers do not last. -/
def sendLoop (k : SendCall) : List SendEvent → Option (List Byte × Bool)
  | [] => none
  | e :: es =>
    match k.round e with
    | (bs, _, some ret) => some (bs, ret)
    | (bs, k', none) => (sendLoop k' es).map fun r => (bs ++ r.1, r.2)

/-- `send_line`. -/
def sendLine (s : List Byte) (es : List SendEvent) : Option (List Byte × Bool) :=
  sendLoop (.ofMessage s) es

/-! ### The connection -/

/-- A connection. -/
structure Conn where
  /-- The bytes written so far. -/
  stream : List Byte
  /-- The call that holds `sock_lock`. -/
  call : Option SendCall
  /-- The lines handed to `stratum_send_line` so far. -/
  handed : List (List Byte)

/-- A new connection. -/
def Conn.initial : Conn := ⟨[], none, []⟩

/-- What can happen on a connection. -/
inductive ConnEvent
  /-- Some thread calls `stratum_send_line` and takes the lock. -/
  | start (s : List Byte)
  /-- The call that holds the lock makes a round. -/
  | round (e : SendEvent)

/-- One step. -/
inductive ConnStep : Conn → ConnEvent → Conn → Prop
  | start {c : Conn} {s : List Byte} (h : c.call = none) :
      ConnStep c (.start s)
        { c with call := some (.ofMessage s), handed := (s ++ [newline]) :: c.handed }
  | round {c : Conn} {k k' : SendCall} {e : SendEvent} {bs : List Byte} {ret : Option Bool}
      (h : c.call = some k) (hround : k.round e = (bs, k', ret)) :
      ConnStep c (.round e)
        { c with
          stream := c.stream ++ bs
          call := if ret.isSome then none else some k' }

/-- A round, with the connection after it given by an equation. -/
theorem ConnStep.of_round {c c' : Conn} {k : SendCall} {e : SendEvent} (h : c.call = some k)
    (hc' : c' = { c with
      stream := c.stream ++ (k.round e).1
      call := if (k.round e).2.2.isSome then none else some (k.round e).2.1 }) :
    ConnStep c (.round e) c' := hc' ▸ .round h rfl

/-- The bytes written are complete lines, followed by a proper prefix of a line. -/
def Conn.Framed (c : Conn) : Prop :=
  ∃ (ls : List (List Byte)) (p : List Byte), c.stream = ls.flatten ++ p ∧
    (∀ l ∈ ls, l ∈ c.handed) ∧ (p = [] ∨ ∃ l ∈ c.handed, p <+: l ∧ p.length < l.length)

/-- The round gives up. -/
def SendEvent.GivesUp (e : SendEvent) : Prop := e = .notWritable ∨ e = .error

/-- The condition on a step: a call is only given up before anything of its line is
written. -/
def Conn.GivesUpEarly (c : Conn) (e : ConnEvent) : Prop :=
  ∀ k a, c.call = some k → e = .round a → a.GivesUp → k.sent = 0

/-- What holds then: between the calls there are complete lines only. -/
def Conn.Whole (c : Conn) : Prop :=
  ∃ ls : List (List Byte), (∀ l ∈ ls, l ∈ c.handed) ∧
    match c.call with
    | none => c.stream = ls.flatten
    | some k => c.stream = ls.flatten ++ k.line.take k.sent ∧ k.sent < k.line.length ∧
        k.line ∈ c.handed

theorem Conn.Whole.framed {c : Conn} (h : c.Whole) : c.Framed := by
  obtain ⟨ls, hls, hcall⟩ := h
  cases hc : c.call with
  | none =>
    rw [hc] at hcall
    exact ⟨ls, [], by rw [hcall, List.append_nil], hls, Or.inl rfl⟩
  | some k =>
    rw [hc] at hcall
    obtain ⟨hstream, hlt, hmem⟩ := hcall
    refine ⟨ls, k.line.take k.sent, hstream, hls, Or.inr ⟨k.line, hmem, List.take_prefix _ _, ?_⟩⟩
    rw [List.length_take]
    omega

theorem Conn.whole_initial : Conn.initial.Whole := ⟨[], by simp, rfl⟩

/-- What a round does to the bytes of its call, and how it can end: the call is given
up, goes on, or is through. -/
theorem SendCall.round_cases {k k' : SendCall} {e : SendEvent} {bs : List Byte}
    {ret : Option Bool} (h : k.round e = (bs, k', ret)) (hlt : k.sent < k.line.length) :
    (k'.line = k.line ∧ k.line.take k'.sent = k.line.take k.sent ++ bs) ∧
      ((ret = some false ∧ e.GivesUp ∧ bs = []) ∨ (ret = none ∧ k'.sent < k.line.length) ∨
        (ret = some true ∧ k'.sent = k.line.length)) := by
  cases e with
  | notWritable =>
    obtain ⟨rfl, rfl, rfl⟩ : [] = bs ∧ k = k' ∧ some false = ret := by
      simpa [SendCall.round] using h
    exact ⟨⟨rfl, by simp⟩, Or.inl ⟨rfl, Or.inl rfl, rfl⟩⟩
  | error =>
    obtain ⟨rfl, rfl, rfl⟩ : [] = bs ∧ k = k' ∧ some false = ret := by
      simpa [SendCall.round] using h
    exact ⟨⟨rfl, by simp⟩, Or.inl ⟨rfl, Or.inr rfl, rfl⟩⟩
  | wouldBlock =>
    obtain ⟨rfl, rfl, rfl⟩ : [] = bs ∧ k = k' ∧ none = ret := by simpa [SendCall.round] using h
    exact ⟨⟨rfl, by simp⟩, Or.inr (Or.inl ⟨rfl, hlt⟩)⟩
  | sent n =>
    simp only [SendCall.round, Prod.mk.injEq] at h
    obtain ⟨rfl, rfl, rfl⟩ := h
    refine ⟨⟨rfl, List.take_add⟩, ?_⟩
    by_cases hn : k.sent + min n (k.line.length - k.sent) < k.line.length
    · exact Or.inr (Or.inl ⟨if_pos hn, hn⟩)
    · exact Or.inr (Or.inr ⟨if_neg hn, by dsimp only; omega⟩)

/-- **A step keeps the lines whole.** -/
theorem ConnStep.whole {c c' : Conn} {e : ConnEvent} (h : c.Whole) (hstep : ConnStep c e c')
    (hgood : c.GivesUpEarly e) : c'.Whole := by
  obtain ⟨ls, hls, hcall⟩ := h
  cases hstep with
  | @start s hnone =>
    rw [hnone] at hcall
    refine ⟨ls, fun l hl => List.mem_cons_of_mem _ (hls l hl), ?_, ?_, List.mem_cons_self⟩
    · simp [hcall, SendCall.ofMessage]
    · simp [SendCall.ofMessage]
  | @round k k' a bs ret hk hround =>
    rw [hk] at hcall
    obtain ⟨hstream, hlt, hmem⟩ := hcall
    obtain ⟨⟨hline, htake⟩, hend⟩ := SendCall.round_cases hround hlt
    rcases hend with ⟨rfl, hgive, rfl⟩ | ⟨rfl, hlt'⟩ | ⟨rfl, hfull⟩
    · -- given up, hence before anything was written
      refine ⟨ls, hls, ?_⟩
      have hzero : k.sent = 0 := hgood k a hk rfl hgive
      simpa [hzero] using hstream
    · -- the call goes on with a longer prefix written
      refine ⟨ls, hls, ?_, hline ▸ hlt', hline ▸ hmem⟩
      rw [hstream, hline, htake, List.append_assoc]
    · -- the line is through, and one more that is whole
      refine ⟨ls ++ [k.line], ?_, ?_⟩
      · intro l hl
        rcases List.mem_append.mp hl with hl | hl
        · exact hls l hl
        · exact (List.mem_singleton.mp hl) ▸ hmem
      · have hwhole : k.line = k.line.take k.sent ++ bs := by
          rw [← htake, hfull, List.take_length]
        show c.stream ++ bs = (ls ++ [k.line]).flatten
        rw [hstream, List.append_assoc, ← hwhole, List.flatten_append]
        simp

/-- **The bytes on a connection are lines, and the beginning of one at most**, at all
times of a run in which no call is given up in the middle of its line: whichever
messages are sent, by whichever threads, and however often they are sent again. -/
theorem framed_of_run {c : Conn} {es : List ConnEvent}
    (hrun : Trace.Run (Trace.restrict ConnStep Conn.GivesUpEarly) Conn.initial es c) :
    c.Framed :=
  (hrun.invariant_state Conn.Whole Conn.whole_initial
    fun _ _ _ hwhole hstep => hstep.1.whole hwhole hstep.2).framed

/-- A call that is given up at once, and the same message again. -/
theorem framed_of_run_again :
    Conn.Framed ⟨[98, newline], none, [[98, newline], [98, newline]]⟩ := by
  have h1 : ConnStep Conn.initial (.start [98]) ⟨[], some ⟨[98, newline], 0⟩, [[98, newline]]⟩ :=
    .start rfl
  have h2 : ConnStep ⟨[], some ⟨[98, newline], 0⟩, [[98, newline]]⟩ (.round .notWritable)
      ⟨[], none, [[98, newline]]⟩ := .of_round rfl rfl
  have h3 : ConnStep ⟨[], none, [[98, newline]]⟩ (.start [98])
      ⟨[], some ⟨[98, newline], 0⟩, [[98, newline], [98, newline]]⟩ := .start rfl
  have h4 : ConnStep ⟨[], some ⟨[98, newline], 0⟩, [[98, newline], [98, newline]]⟩
      (.round (.sent 2)) ⟨[98, newline], none, [[98, newline], [98, newline]]⟩ := .of_round rfl rfl
  have hfree : ∀ {c : Conn} {e : ConnEvent}, c.call = none → c.GivesUpEarly e := by
    intro c e hc k a hk
    rw [hc] at hk
    cases hk
  have hzero : ∀ {c : Conn} {e : ConnEvent} {s : List Byte}, c.call = some (.ofMessage s) →
      c.GivesUpEarly e := by
    intro c e s hc k a hk _ _
    rw [hc] at hk
    cases hk
    rfl
  exact framed_of_run ((((Trace.Run.nil.snoc ⟨h1, hfree rfl⟩).snoc ⟨h2, hzero (s := [98]) rfl⟩).snoc
    ⟨h3, hfree rfl⟩).snoc ⟨h4, hzero (s := [98]) rfl⟩)

/-- The socket takes the first byte of a message and is then not ready; the message is
sent again. -/
theorem not_framed_of_resend :
    ¬ ∀ (es : List ConnEvent) (c : Conn), Trace.Run ConnStep Conn.initial es c → c.Framed := by
  intro h
  have h1 : ConnStep Conn.initial (.start [97]) ⟨[], some ⟨[97, newline], 0⟩, [[97, newline]]⟩ :=
    .start rfl
  have h2 : ConnStep ⟨[], some ⟨[97, newline], 0⟩, [[97, newline]]⟩ (.round (.sent 1))
      ⟨[97], some ⟨[97, newline], 1⟩, [[97, newline]]⟩ := .of_round rfl rfl
  have h3 : ConnStep ⟨[97], some ⟨[97, newline], 1⟩, [[97, newline]]⟩ (.round .notWritable)
      ⟨[97], none, [[97, newline]]⟩ := .of_round rfl rfl
  have h4 : ConnStep ⟨[97], none, [[97, newline]]⟩ (.start [97])
      ⟨[97], some ⟨[97, newline], 0⟩, [[97, newline], [97, newline]]⟩ := .start rfl
  have h5 : ConnStep ⟨[97], some ⟨[97, newline], 0⟩, [[97, newline], [97, newline]]⟩
      (.round (.sent 2)) ⟨[97, 97, newline], none, [[97, newline], [97, newline]]⟩ :=
    .of_round rfl rfl
  obtain ⟨ls, p, hstream, hls, hp⟩ := h _ _
    (((((Trace.Run.nil.snoc h1).snoc h2).snoc h3).snoc h4).snoc h5)
  have hline : ∀ l ∈ [[97, newline], [97, newline]], l = [97, newline] := by decide
  -- the second byte of whole lines is a newline, and no line has a beginning of three
  cases ls with
  | nil =>
    obtain rfl : [97, 97, newline] = p := by simpa using hstream
    rcases hp with hp | ⟨l, hl, -, hlt⟩
    · exact absurd hp (by decide)
    · rw [hline l hl] at hlt
      exact absurd hlt (by decide)
  | cons l ls =>
    rw [hline l (hls l List.mem_cons_self)] at hstream
    have hsecond := congrArg (fun s => s[1]?) hstream
    exact absurd hsecond (by simp [newline])

/-! ### A call is a run of its rounds -/

theorem sendLoop_run : ∀ (es : List SendEvent) {k : SendCall} {bs : List Byte} {ret : Bool}
    {c : Conn}, sendLoop k es = some (bs, ret) → c.call = some k →
      ∃ es', Trace.Run ConnStep c es' ⟨c.stream ++ bs, none, c.handed⟩ := by
  intro es
  induction es with
  | nil =>
    intro k bs ret c h
    cases h
  | cons e es ih =>
    intro k bs ret c h hc
    obtain ⟨bs₁, k', ret', hround⟩ : ∃ bs₁ k' ret', k.round e = (bs₁, k', ret') := ⟨_, _, _, rfl⟩
    simp only [sendLoop, hround] at h
    have hstep := ConnStep.round hc hround
    cases ret' with
    | some r =>
      obtain ⟨rfl, rfl⟩ : bs₁ = bs ∧ r = ret := by simpa using h
      exact ⟨_, .single hstep⟩
    | none =>
      obtain ⟨⟨bs₂, r⟩, hloop, hbs⟩ := Option.map_eq_some_iff.mp h
      obtain ⟨rfl, rfl⟩ : bs₁ ++ bs₂ = bs ∧ r = ret := by simpa using hbs
      obtain ⟨es', hrun⟩ := ih (c := ⟨c.stream ++ bs₁, some k', c.handed⟩) hloop rfl
      rw [← List.append_assoc]
      exact ⟨_, (Trace.Run.single hstep).trans hrun⟩

/-- **A call is a run of its rounds** on a connection nobody else is writing to. -/
theorem sendLine_run {s bs : List Byte} {es : List SendEvent} {ret : Bool}
    (h : sendLine s es = some (bs, ret)) {c : Conn} (hc : c.call = none) :
    ∃ es', Trace.Run ConnStep c es' ⟨c.stream ++ bs, none, (s ++ [newline]) :: c.handed⟩ := by
  have hstart : ConnStep c (.start s)
      ⟨c.stream, some (.ofMessage s), (s ++ [newline]) :: c.handed⟩ := .start hc
  obtain ⟨es', hrun⟩ := sendLoop_run es (c := ⟨c.stream, some (.ofMessage s), _⟩) h rfl
  exact ⟨_, (Trace.Run.single hstart).trans hrun⟩

/-- What a call writes: the whole line if it returns true, else a proper prefix. -/
theorem sendLoop_spec : ∀ (es : List SendEvent) {k : SendCall} {bs : List Byte} {ret : Bool},
    k.sent < k.line.length → sendLoop k es = some (bs, ret) →
      (ret = true ∧ k.line.take k.sent ++ bs = k.line) ∨
      (ret = false ∧ ∃ n < k.line.length, k.line.take k.sent ++ bs = k.line.take n) := by
  intro es
  induction es with
  | nil =>
    intro k bs ret _ h
    cases h
  | cons e es ih =>
    intro k bs ret hlt h
    obtain ⟨bs₁, k', ret', hround⟩ : ∃ bs₁ k' ret', k.round e = (bs₁, k', ret') := ⟨_, _, _, rfl⟩
    simp only [sendLoop, hround] at h
    obtain ⟨⟨hline, htake⟩, hend⟩ := SendCall.round_cases hround hlt
    rcases hend with ⟨rfl, -, rfl⟩ | ⟨rfl, hlt'⟩ | ⟨rfl, hfull⟩
    · obtain ⟨rfl, rfl⟩ : [] = bs ∧ false = ret := by simpa using h
      exact Or.inr ⟨rfl, k.sent, hlt, by simp⟩
    · obtain ⟨⟨bs₂, r⟩, hloop, hbs⟩ := Option.map_eq_some_iff.mp h
      obtain ⟨rfl, rfl⟩ : bs₁ ++ bs₂ = bs ∧ r = ret := by simpa using hbs
      have hrest := ih (hline ▸ hlt') hloop
      rwa [hline, htake, List.append_assoc] at hrest
    · obtain ⟨rfl, rfl⟩ : bs₁ = bs ∧ true = ret := by simpa using h
      exact Or.inl ⟨rfl, by rw [← htake, hfull, List.take_length]⟩

theorem sendLine_spec {s bs : List Byte} {es : List SendEvent} {ret : Bool}
    (h : sendLine s es = some (bs, ret)) :
    (ret = true ∧ bs = s ++ [newline]) ∨
      (ret = false ∧ ∃ n < s.length + 1, bs = (s ++ [newline]).take n) := by
  have hspec := sendLoop_spec es (k := .ofMessage s) (by simp [SendCall.ofMessage]) h
  simpa [SendCall.ofMessage] using hspec

end XmrMiner
