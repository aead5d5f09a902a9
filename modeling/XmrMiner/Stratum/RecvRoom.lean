import XmrMiner.Lib.Outcome
import XmrMiner.Stratum.Recv

/-!
# Room in the receive buffer

`stratum_connect` allocates the receive buffer, `stratum_buffer_append` lets it grow, and
`stratum_recv_line` takes a line off it; a reconnection only empties it.  The `memmove` of
`stratum_recv_line` moves one byte more than the rest of the string with its terminator, so
that there has to be room for a byte behind the terminator after every operation.

The stratum thread, which alone uses the buffer, first connects.

## Main definitions

* `StratumCtx`, `SockbufOp`, `SockbufOp.exec` — a context, and the operations on its buffer.
* `ConnectsFirst` — the buffer is not used before it has been allocated.
* `StratumCtx.HasRoom` — what holds after every operation.
* `NoFault`, `Sockbuf.Roomy` — a computation without a fault, and the invariant of the buffer.

## Main results

* `Sockbuf.roomy_of_terminator` — a terminator with a byte behind it is enough.
* `takeLine_noFault`, `stratumRecvLine_noFault` — receiving a line, whatever the buffer holds.
* `SockbufOp.exec_noFault` — one operation.
* `sockbuf_room_of_run` — **there is always room**, and no access is out of bounds.
-/

namespace XmrMiner

open CString Outcome

/-! ### The operations -/

/-- The fields `curl`, of which it matters whether it is null, and `sockbuf`. -/
structure StratumCtx where
  /-- There is a connection. -/
  curl : Bool
  /-- The buffer; none is the null pointer. -/
  sockbuf : Option Sockbuf

/-- The context before its first connection. -/
def StratumCtx.initial : StratumCtx := ⟨false, none⟩

/-- What `stratum_connect` ends with. -/
inductive ConnectOutcome
  /-- `curl_easy_init` fails. -/
  | noCurl
  /-- `curl_easy_perform` fails. -/
  | refused
  /-- It is connected. -/
  | connected
  deriving DecidableEq

/-- `sockbuf[0] = '\0'`, which is a fault for the null pointer. -/
def clearSockbuf : Option Sockbuf → Except Stop Sockbuf
  | none => throw .fault
  | some sb => do
    let mem ← checked (store sb.mem 0 [nul])
    return { sb with mem := mem }

/-- `stratum_connect`, as far as the buffer is concerned. -/
def stratumConnect (ctx : StratumCtx) : ConnectOutcome → Except Stop StratumCtx
  | .noCurl => return { ctx with curl := false }
  | outcome => do
    let sb ← clearSockbuf (ctx.sockbuf.getD .initial)
    return ⟨outcome = .connected, sb⟩

/-- `stratum_disconnect`. -/
def stratumDisconnect (ctx : StratumCtx) : Except Stop StratumCtx :=
  if ctx.curl then do
    let sb ← clearSockbuf ctx.sockbuf
    return ⟨false, sb⟩
  else return ctx

/-- An operation on a context; `fresh` is what new memory contains. -/
inductive SockbufOp
  /-- `stratum_connect`. -/
  | connect (outcome : ConnectOutcome)
  /-- `stratum_buffer_append`, for a chunk that has been received. -/
  | append (fresh : ℕ → Byte) (bs : List Byte)
  /-- `stratum_recv_line`, with what it meets. -/
  | recvLine (fresh : ℕ → Byte) (es : List RecvEvent)
  /-- `stratum_disconnect`. -/
  | disconnect

/-- What an operation does.  A call that waits for more data does not end. -/
def SockbufOp.exec (ctx : StratumCtx) : SockbufOp → Except Stop StratumCtx
  | .connect outcome => stratumConnect ctx outcome
  | .append fresh bs => do
    let sb ← checked ctx.sockbuf
    let sb ← stratumBufferAppend fresh sb (str (bs ++ [nul]))
    return { ctx with sockbuf := sb }
  | .recvLine fresh es => do
    let sb ← checked ctx.sockbuf
    let (_, sb, _) ← stratumRecvLine fresh sb es
    return { ctx with sockbuf := sb }
  | .disconnect => stratumDisconnect ctx

/-- The buffer is used behind a call of `stratum_connect` that has allocated it. -/
def ConnectsFirst : List SockbufOp → Prop
  | [] => True
  | .connect .noCurl :: ops => ConnectsFirst ops
  | .connect _ :: _ => True
  | .disconnect :: ops => ConnectsFirst ops
  | .append _ _ :: _ => False
  | .recvLine _ _ :: _ => False

/-- There is room behind the string and its terminator, and `sockbuf_size` is the size of the
allocation. -/
def StratumCtx.HasRoom (ctx : StratumCtx) : Prop :=
  ∀ sb ∈ ctx.sockbuf, strlen sb.mem + 2 ≤ sb.size ∧ sb.mem.length = sb.size

/-- The computation waits for more data, or what it returns satisfies `P`. -/
abbrev NoFault {α : Type} (P : α → Prop) : Except Stop α → Prop := Yields (· = .blocked) P

/-! ### A terminator with a byte behind it -/

/-- The buffer holds a string, with room for one byte behind its terminator. -/
def Sockbuf.Roomy (sb : Sockbuf) : Prop := ∃ c, sb.Holds c

/-- **A terminator with a byte behind it is enough.** -/
theorem Sockbuf.roomy_of_terminator {sb : Sockbuf} (hsize : sb.mem.length = sb.size) {i : ℕ}
    (hi : sb.mem[i]? = some nul) (hroom : i + 2 ≤ sb.size) : sb.Roomy := by
  obtain ⟨hlen, rest, hmem⟩ := exists_of_terminator hi
  have hrest : 0 < rest.length := by
    have := congrArg List.length hmem
    rw [List.length_append, List.length_cons] at this
    omega
  obtain ⟨x, rest', rfl⟩ := List.exists_cons_of_length_pos hrest
  exact ⟨str sb.mem, nul_notMem_str _, ⟨x, rest', hmem⟩, hsize⟩

/-- Such a buffer has room. -/
theorem Sockbuf.Holds.room {sb : Sockbuf} {c : List Byte} (h : sb.Holds c) :
    strlen sb.mem + 2 ≤ sb.size := by
  obtain ⟨x, rest, hmem⟩ := h.mem
  rw [strlen, h.str_mem, ← h.size, hmem]
  simp

/-- Writing a terminator at the start. -/
theorem exists_store_nul {mem : List Byte} {size : ℕ} (hlen : mem.length = size)
    (hsize : 2 ≤ size) :
    ∃ mem', store mem 0 [nul] = some mem' ∧ (Sockbuf.mk mem' size).Roomy := by
  refine ⟨_, store_zero _ _ (by rw [List.length_singleton]; omega), ?_⟩
  refine Sockbuf.roomy_of_terminator (i := 0) ?_ rfl hsize
  rw [List.length_append, List.length_drop, List.length_singleton]
  show 1 + (mem.length - 1) = size
  omega

/-- Emptying the buffer. -/
theorem clearSockbuf_noFault {sb : Sockbuf} (h : sb.Roomy) :
    NoFault Sockbuf.Roomy (clearSockbuf sb) := by
  obtain ⟨c, h⟩ := h
  obtain ⟨mem, hstore, hmem⟩ := exists_store_nul h.size (Nat.le_of_add_left_le h.room)
  rw [clearSockbuf, hstore]
  exact hmem

/-- Appending a chunk. -/
theorem stratumBufferAppend_noFault (fresh : ℕ → Byte) {sb : Sockbuf} (h : sb.Roomy)
    (bs : List Byte) :
    NoFault Sockbuf.Roomy (stratumBufferAppend fresh sb (str (bs ++ [nul]))) := by
  obtain ⟨c, h⟩ := h
  obtain ⟨sb', happ, hsb'⟩ := stratumBufferAppend_holds fresh h (nul_notMem_str (bs ++ [nul]))
  rw [happ]
  exact ⟨_, hsb'⟩

/-! ### Receiving a line -/

/-- The receive loop, whatever it meets. -/
theorem recvLoop_noFault (fresh : ℕ → Byte) (es : List RecvEvent) {sb : Sockbuf} (h : sb.Roomy) :
    NoFault (fun r => r.2.1.Roomy) (recvLoop fresh es sb) := by
  induction es generalizing sb with
  | nil => rfl
  | cons e es ih =>
    cases e with
    | fail => exact h
    | again late =>
      rw [recvLoop]
      split
      · exact h
      · exact ih h
    | data bs late =>
      rw [recvLoop]
      refine (stratumBufferAppend_noFault fresh h bs).bind fun sb₁ h₁ => ?_
      split
      · exact h₁
      · exact ih h₁

/-- **Taking a line off the buffer**: its terminator is moved to the front together with the
byte behind it, which is within the allocation. -/
theorem takeLine_noFault {sb : Sockbuf} (h : sb.Roomy) :
    NoFault (fun r => r.2.Roomy) (takeLine sb) := by
  obtain ⟨c, h⟩ := h
  have hroom := h.room
  have hsize := h.size
  have hnul : sb.mem[strlen sb.mem]? = some nul := by
    obtain ⟨x, rest, hmem⟩ := h.mem
    rw [strlen, h.str_mem, hmem]
    simp
  unfold takeLine
  dsimp only
  rcases strtok_cases newline sb.mem with htok | ⟨tok, mem, htok, hlen, hmem⟩
  · rw [htok]
    exact ⟨c, h⟩
  · simp only [htok]
    split
    next hmore =>
      obtain ⟨mem', hmove, hlen', hmem'⟩ :=
        memmove_front (show tok.length + 1 + (strlen sb.mem - tok.length + 1) ≤ mem.length by omega)
      have hend : mem'[strlen sb.mem - tok.length - 1]? = some nul := by
        rw [hmem' _ (by omega), ← hmem _ hnul]
        congr 1
        omega
      rw [hmove]
      exact Sockbuf.roomy_of_terminator ((hlen'.trans hlen).trans hsize) hend
        (show _ ≤ sb.size by omega)
    next =>
      obtain ⟨mem', hstore, hmem'⟩ :=
        exists_store_nul (hlen.trans hsize) (Nat.le_of_add_left_le hroom)
      rw [hstore]
      exact hmem'

theorem stratumRecvLine_noFault (fresh : ℕ → Byte) (es : List RecvEvent) {sb : Sockbuf}
    (h : sb.Roomy) : NoFault (fun r => r.2.1.Roomy) (stratumRecvLine fresh sb es) := by
  have hfill : NoFault (fun r => r.2.1.Roomy) (fillLine fresh sb es) := by
    unfold fillLine
    split
    · exact h
    · exact recvLoop_noFault fresh es h
  refine hfill.bind fun ⟨ret, sb₁, es₁⟩ h₁ => ?_
  cases ret with
  | false => exact h₁
  | true => exact (takeLine_noFault h₁).bind fun _ h₂ => h₂

/-! ### Runs -/

/-- The buffer has been allocated and has room. -/
def StratumCtx.Ready (ctx : StratumCtx) : Prop := ∃ sb, ctx.sockbuf = some sb ∧ sb.Roomy

theorem StratumCtx.Ready.hasRoom {ctx : StratumCtx} (h : ctx.Ready) : ctx.HasRoom := by
  obtain ⟨sb, hsb, c, hc⟩ := h
  intro sb' hsb'
  obtain rfl : sb = sb' := Option.some.inj (hsb.symm.trans hsb')
  exact ⟨hc.room, hc.size⟩

/-- `stratum_connect`, with a buffer that it finds or allocates. -/
theorem stratumConnect_noFault {ctx : StratumCtx} {outcome : ConnectOutcome}
    (hout : outcome ≠ .noCurl) (h : (ctx.sockbuf.getD .initial).Roomy) :
    NoFault StratumCtx.Ready (stratumConnect ctx outcome) := by
  cases outcome with
  | noCurl => exact absurd rfl hout
  | refused => exact (clearSockbuf_noFault h).bind fun sb hsb => ⟨sb, rfl, hsb⟩
  | connected => exact (clearSockbuf_noFault h).bind fun sb hsb => ⟨sb, rfl, hsb⟩

/-- **One operation** on a buffer that has been allocated. -/
theorem SockbufOp.exec_noFault (ctx : StratumCtx) (op : SockbufOp) (h : ctx.Ready) :
    NoFault StratumCtx.Ready (SockbufOp.exec ctx op) := by
  obtain ⟨sb, hsb, hroomy⟩ := h
  have hchecked : checked ctx.sockbuf = .ok sb := by
    rw [hsb]
    rfl
  cases op with
  | connect outcome =>
    rcases eq_or_ne outcome .noCurl with rfl | hout
    · exact ⟨sb, hsb, hroomy⟩
    · exact stratumConnect_noFault hout (by rwa [hsb])
  | append fresh bs =>
    rw [SockbufOp.exec, hchecked]
    exact (stratumBufferAppend_noFault fresh hroomy bs).bind fun sb' hsb' => ⟨sb', rfl, hsb'⟩
  | recvLine fresh es =>
    rw [SockbufOp.exec, hchecked]
    exact (stratumRecvLine_noFault fresh es hroomy).bind fun r hr => ⟨r.2.1, rfl, hr⟩
  | disconnect =>
    rw [SockbufOp.exec, stratumDisconnect]
    split
    · rw [hsb]
      exact (clearSockbuf_noFault hroomy).bind fun sb' hsb' => ⟨sb', rfl, hsb'⟩
    · exact ⟨sb, hsb, hroomy⟩

/-- A run from the beginning: up to the first connection there is no buffer. -/
theorem run_noFault {ops : List SockbufOp} (h : ConnectsFirst ops) :
    NoFault StratumCtx.HasRoom (ops.foldlM SockbufOp.exec .initial) := by
  induction ops with
  | nil => exact fun sb hsb => absurd hsb (by simp [StratumCtx.initial])
  | cons op ops ih =>
    cases op with
    | connect outcome =>
      rcases eq_or_ne outcome .noCurl with rfl | hout
      · exact ih h
      · have hinit : (StratumCtx.initial.sockbuf.getD .initial).Roomy :=
          ⟨[], Sockbuf.holds_initial⟩
        rw [List.foldlM_cons]
        refine (stratumConnect_noFault hout hinit).bind fun ctx hctx => ?_
        exact (Yields.foldlM SockbufOp.exec_noFault ops hctx).mono fun _ =>
          StratumCtx.Ready.hasRoom
    | append fresh bs => exact absurd h id
    | recvLine fresh es => exact absurd h id
    | disconnect => exact ih h

/-- **There is always room**: after every operation the buffer has a byte behind the
terminator of its string, and no operation accesses memory out of bounds. -/
theorem sockbuf_room_of_run {ops : List SockbufOp} (h : ConnectsFirst ops) :
    ops.foldlM SockbufOp.exec .initial ≠ .error .fault ∧
      ∀ ctx, ops.foldlM SockbufOp.exec .initial = .ok ctx → ctx.HasRoom := by
  have hrun := run_noFault h
  refine ⟨hrun.ne_error (by decide), fun ctx hctx => ?_⟩
  rw [hctx] at hrun
  exact hrun

/-- A connection over which two lines arrive, of which one is taken off. -/
def twoLineOps : List SockbufOp :=
  [.connect .connected, .append (fun _ => 0) [97, newline, 98], .recvLine (fun _ => 0) [],
    .disconnect]

theorem sockbuf_room_of_run_two :
    twoLineOps.foldlM SockbufOp.exec .initial ≠ .error .fault ∧
      ∀ ctx, twoLineOps.foldlM SockbufOp.exec .initial = .ok ctx → ctx.HasRoom :=
  sockbuf_room_of_run trivial

end XmrMiner
