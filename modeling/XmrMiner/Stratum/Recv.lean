import XmrMiner.Lib.CString

/-!
# Receiving lines

`stratum_recv_line` keeps what it has received beyond a line in a buffer.  A call
first receives until the buffer holds a newline, and then takes the first line
off it: `strtok` finds the line, and `memmove` brings what follows to the front.

## Main definitions

* `Sockbuf` — the receive buffer.
* `RecvEvent` — what one round of the receive loop meets.
* `stratumBufferAppend`, `stratumRecvLine` — the functions of `util.c`.
* `recvCalls` — the results of successive calls.

## Main results

* `stratumRecvLine_of_line` — a call on a buffer that starts with a line.
* `recvCalls_eq_lines_iff` — the calls return the lines of the stream, however it
  is cut into chunks, if and only if none of them is blank.
-/

namespace XmrMiner

open CString

/-- The newline character. -/
def newline : Byte := 10

/-! ### The buffer -/

/-- The fields `sockbuf` and `sockbuf_size`. -/
structure Sockbuf where
  /-- The allocation. -/
  mem : List Byte
  /-- `sockbuf_size`. -/
  size : ℕ

/-- Why a call does not go on. -/
inductive Stop
  /-- It waits for more data. -/
  | blocked
  /-- It accesses memory out of bounds. -/
  | fault
  deriving DecidableEq

/-- What one round of the receive loop meets. -/
inductive RecvEvent
  /-- `recv` returns bytes; `late` if the sixty seconds are over afterwards. -/
  | data (bs : List Byte) (late : Bool)
  /-- `recv` would block, but the socket becomes readable within a second. -/
  | again (late : Bool)
  /-- The connection is closed, or an error or a timeout occurs. -/
  | fail

/-- `RBUFSIZE`. -/
def RBUFSIZE : ℕ := 2048

/-- `RECVSIZE`, the most that `recv` returns. -/
def RECVSIZE : ℕ := RBUFSIZE - 4

/-- The buffer of a new connection. -/
def Sockbuf.initial : Sockbuf := ⟨List.replicate RBUFSIZE nul, RBUFSIZE⟩

/-- An access that is out of bounds is a fault. -/
def checked {α : Type} : Option α → Except Stop α
  | some a => .ok a
  | none => .error .fault

/-- `realloc`: new memory has the contents `fresh`. -/
def realloc (fresh : ℕ → Byte) (mem : List Byte) (size : ℕ) : List Byte :=
  mem.take size ++ (List.range (size - mem.length)).map fresh

/-- `stratum_buffer_append`. -/
def stratumBufferAppend (fresh : ℕ → Byte) (sb : Sockbuf) (s : List Byte) :
    Except Stop Sockbuf := do
  let old := strlen sb.mem
  let snew := old + s.length + 1
  let sb :=
    if snew ≥ sb.size then
      let size := snew + (RBUFSIZE - snew % RBUFSIZE)
      ⟨realloc fresh sb.mem size, size⟩
    else sb
  let mem ← checked (strcpy sb.mem old s)
  return { sb with mem := mem }

/-- `strstr(sockbuf, "\n")`. -/
def Sockbuf.hasNewline (sb : Sockbuf) : Bool := newline ∈ str sb.mem

/-- The receive loop, up to a newline in the buffer; whether it succeeded, the buffer
and the events that are left. -/
def recvLoop (fresh : ℕ → Byte) :
    List RecvEvent → Sockbuf → Except Stop (Bool × Sockbuf × List RecvEvent)
  | [], _ => throw .blocked
  | .fail :: es, sb => return (false, sb, es)
  | .again late :: es, sb =>
    if late || sb.hasNewline then return (true, sb, es) else recvLoop fresh es sb
  | .data bs late :: es, sb => do
    -- the local array is cleared before, so that the bytes are a C string in it
    let sb ← stratumBufferAppend fresh sb (str (bs ++ [nul]))
    if late || sb.hasNewline then return (true, sb, es) else recvLoop fresh es sb

/-- The beginning of `stratum_recv_line`: nothing is received as long as the buffer
holds a newline. -/
def fillLine (fresh : ℕ → Byte) (sb : Sockbuf) (es : List RecvEvent) :
    Except Stop (Bool × Sockbuf × List RecvEvent) :=
  if sb.hasNewline then return (true, sb, es) else recvLoop fresh es sb

/-- The end of `stratum_recv_line`: the first line is taken off the buffer. -/
def takeLine (sb : Sockbuf) : Except Stop (Option (List Byte) × Sockbuf) :=
  let buflen := strlen sb.mem
  match strtok newline sb.mem with
  | (none, mem) => return (none, { sb with mem := mem })
  | (some sret, mem) => do
    let len := sret.length
    if buflen > len + 1 then
      let mem ← checked (memmove mem 0 (len + 1) (buflen - len + 1))
      return (some sret, { sb with mem := mem })
    else
      let mem ← checked (store mem 0 [nul])
      return (some sret, { sb with mem := mem })

/-- `stratum_recv_line`; `none` is the null pointer. -/
def stratumRecvLine (fresh : ℕ → Byte) (sb : Sockbuf) (es : List RecvEvent) :
    Except Stop (Option (List Byte) × Sockbuf × List RecvEvent) := do
  let (ret, sb, es) ← fillLine fresh sb es
  if ret then
    let (tok, sb) ← takeLine sb
    return (tok, sb, es)
  else
    return (none, sb, es)

/-- What a call comes to. -/
inductive RecvResult
  /-- It returns a line. -/
  | line (s : List Byte)
  /-- It returns the null pointer. -/
  | null
  /-- It faults. -/
  | fault
  deriving DecidableEq

/-- The results of at most `n` successive calls, up to one that waits for more data. -/
def recvCalls (fresh : ℕ → Byte) : ℕ → Sockbuf → List RecvEvent → List RecvResult
  | 0, _, _ => []
  | n + 1, sb, es =>
    match stratumRecvLine fresh sb es with
    | .error .blocked => []
    | .error .fault => [.fault]
    | .ok (none, sb, es) => .null :: recvCalls fresh n sb es
    | .ok (some s, sb, es) => .line s :: recvCalls fresh n sb es

/-! ### What each step computes -/

/-- The buffer holds the string `c`, with room for one byte behind its terminator. -/
structure Sockbuf.Holds (sb : Sockbuf) (c : List Byte) : Prop where
  /-- `c` is a C string. -/
  notMem : nul ∉ c
  /-- It is at the start of the buffer. -/
  mem : ∃ x rest, sb.mem = c ++ nul :: x :: rest
  /-- `sockbuf_size` is the size of the allocation. -/
  size : sb.mem.length = sb.size

theorem Sockbuf.holds_initial : Sockbuf.initial.Holds [] :=
  ⟨by simp, ⟨nul, List.replicate 2046 nul, rfl⟩, List.length_replicate⟩

theorem Sockbuf.Holds.str_mem {sb : Sockbuf} {c : List Byte} (h : sb.Holds c) : str sb.mem = c := by
  obtain ⟨x, rest, hmem⟩ := h.mem
  rw [hmem, str_append h.notMem]

theorem Sockbuf.Holds.hasNewline {sb : Sockbuf} {c : List Byte} (h : sb.Holds c) :
    sb.hasNewline = true ↔ newline ∈ c := by
  rw [Sockbuf.hasNewline, h.str_mem, decide_eq_true_iff]

/-- One round of the receive loop in which bytes arrive. -/
theorem recvLoop_data {fresh : ℕ → Byte} {sb sb₁ : Sockbuf} {bs : List Byte} (hbs : nul ∉ bs)
    (happ : stratumBufferAppend fresh sb bs = .ok sb₁) (es : List RecvEvent) :
    recvLoop fresh (.data bs false :: es) sb =
      if sb₁.hasNewline then .ok (true, sb₁, es) else recvLoop fresh es sb₁ := by
  have hstr : str (bs ++ [nul]) = bs := str_append hbs []
  rw [recvLoop, hstr, happ]
  rfl

/-- A call whose receive loop succeeds returns what `takeLine` returns. -/
theorem stratumRecvLine_of_fill {fresh : ℕ → Byte} {sb sb₁ sb' : Sockbuf}
    {es es₁ : List RecvEvent} {tok : Option (List Byte)}
    (hfill : fillLine fresh sb es = .ok (true, sb₁, es₁)) (htake : takeLine sb₁ = .ok (tok, sb')) :
    stratumRecvLine fresh sb es = .ok (tok, sb', es₁) := by
  have hbind : (takeLine sb₁ >>= fun r => pure (r.1, r.2, es₁)) =
      (.ok (tok, sb', es₁) : Except Stop _) := by
    rw [htake]
    rfl
  rw [stratumRecvLine, hfill]
  exact hbind

/-- After `realloc`, if any, there is room for `s`, a terminator and one byte. -/
theorem stratumBufferAppend_grow (fresh : ℕ → Byte) {sb : Sockbuf} {c : List Byte}
    (h : sb.Holds c) (s : List Byte) :
    ∃ (sb₁ : Sockbuf) (rest : List Byte),
      stratumBufferAppend fresh sb s =
        (do let mem ← checked (strcpy sb₁.mem c.length s); return { sb₁ with mem := mem }) ∧
      sb₁.mem = c ++ nul :: rest ∧ sb₁.mem.length = sb₁.size ∧ s.length < rest.length := by
  obtain ⟨x, rest, hmem⟩ := h.mem
  have hlen : sb.size = c.length + rest.length + 2 := by
    rw [← h.size, hmem]
    simp
    omega
  have hold : strlen sb.mem = c.length := by rw [strlen, h.str_mem]
  have hmod := Nat.mod_lt (c.length + s.length + 1) (show 0 < RBUFSIZE by decide)
  set size := c.length + s.length + 1 + (RBUFSIZE - (c.length + s.length + 1) % RBUFSIZE)
    with hsize
  by_cases hgrow : c.length + s.length + 1 ≥ sb.size
  · have htake : sb.mem.take size = sb.mem := List.take_of_length_le (by rw [h.size]; omega)
    refine ⟨⟨realloc fresh sb.mem size, size⟩,
      x :: rest ++ (List.range (size - sb.mem.length)).map fresh, ?_, ?_, ?_, ?_⟩
    · simp only [stratumBufferAppend, hold, if_pos hgrow, hsize]
    · rw [realloc, htake, hmem]
      simp
    · rw [realloc, htake]
      simp only [List.length_append, List.length_map, List.length_range, h.size]
      omega
    · simp only [List.length_append, List.length_map, List.length_range, List.length_cons, h.size]
      omega
  · refine ⟨sb, x :: rest, ?_, hmem, h.size, ?_⟩
    · simp only [stratumBufferAppend, hold, if_neg hgrow]
    · rw [List.length_cons]
      omega

/-- **Appending never faults**, and appends. -/
theorem stratumBufferAppend_holds (fresh : ℕ → Byte) {sb : Sockbuf} {c s : List Byte}
    (h : sb.Holds c) (hs : nul ∉ s) :
    ∃ sb', stratumBufferAppend fresh sb s = .ok sb' ∧ sb'.Holds (c ++ s) := by
  obtain ⟨sb₁, rest₁, hsb₁, hmem₁, hsize₁, hroom⟩ := stratumBufferAppend_grow fresh h s
  obtain ⟨y, rest₂, hdrop⟩ := List.exists_cons_of_length_pos
    (show 0 < (rest₁.drop s.length).length by rw [List.length_drop]; omega)
  have hcpy : strcpy sb₁.mem c.length s = some ((c ++ s) ++ nul :: y :: rest₂) := by
    rw [hmem₁, strcpy_end c s rest₁ hroom.le, hdrop]
  refine ⟨{ sb₁ with mem := (c ++ s) ++ nul :: y :: rest₂ }, ?_, ?_⟩
  · rw [hsb₁, hcpy]
    rfl
  · refine ⟨by simp [h.notMem, hs], ⟨y, rest₂, rfl⟩, ?_⟩
    have hrest := congrArg List.length hdrop
    rw [← hsize₁, hmem₁]
    simp only [List.length_drop, List.length_cons, List.length_append] at hrest ⊢
    omega

/-- Taking a line off a buffer that starts with it. -/
theorem takeLine_holds {sb : Sockbuf} {l r : List Byte} (h : sb.Holds (l ++ newline :: r))
    (hl : l ≠ []) (hnl : newline ∉ l) :
    ∃ sb', takeLine sb = .ok (some l, sb') ∧ sb'.Holds r := by
  obtain ⟨x, rest, hmem⟩ := h.mem
  have hnul : nul ∉ l ∧ nul ∉ r := by
    have := h.notMem
    simp only [List.mem_append, List.mem_cons, not_or] at this
    exact ⟨this.1, this.2.2⟩
  have htok : strtok newline sb.mem = (some l, l ++ nul :: (r ++ nul :: x :: rest)) := by
    rw [hmem, strtok_line hl hnl h.notMem]
  have hbuflen : strlen sb.mem = l.length + 1 + r.length := by
    rw [strlen, h.str_mem]
    simp
    omega
  have hlen : sb.mem.length = (l ++ nul :: (r ++ nul :: x :: rest)).length := by
    rw [hmem]
    simp
  unfold takeLine
  simp only [htok, hbuflen]
  by_cases hr : r = []
  · -- nothing behind the line: only the first byte is cleared
    subst hr
    rw [if_neg (by simp)]
    obtain ⟨b, l', rfl⟩ := List.exists_cons_of_ne_nil hl
    refine ⟨⟨nul :: (l' ++ nul :: (nul :: x :: rest)), sb.size⟩, ?_, ?_⟩
    · rw [store_zero _ _ (by simp)]
      rfl
    · refine ⟨by simp, ?_, ?_⟩
      · cases l' with
        | nil => exact ⟨_, _, rfl⟩
        | cons b' l' => exact ⟨_, _, rfl⟩
      · rw [← h.size, hlen]
        simp
  · obtain ⟨rest', hmove, hlen'⟩ := memmove_line l r x rest
    have hn : l.length + 1 + r.length - l.length + 1 = r.length + 2 := by omega
    have hpos := List.length_pos_iff.mpr hr
    rw [if_pos (by omega), hn, hmove]
    exact ⟨_, rfl, hnul.2, ⟨x, rest', rfl⟩, by rw [← h.size, hlen]; exact hlen'⟩

/-! ### Runs without a timeout or an error -/

/-- `recv` returns at least one byte and no more than asked for, and no time limit is
hit. -/
def RecvEvent.Clean : RecvEvent → Prop
  | .data bs late => bs ≠ [] ∧ bs.length ≤ RECVSIZE ∧ late = false
  | .again late => late = false
  | .fail => False

/-- The bytes received. -/
def received : List RecvEvent → List Byte
  | [] => []
  | .data bs _ :: es => bs ++ received es
  | .again _ :: es => received es
  | .fail :: es => received es

/-- The receive loop waits for more, or it ends with a newline in the buffer and no
byte lost. -/
theorem recvLoop_holds (fresh : ℕ → Byte) : ∀ (es : List RecvEvent) (sb : Sockbuf)
    (c : List Byte), sb.Holds c → newline ∉ c → nul ∉ received es → (∀ e ∈ es, e.Clean) →
      (recvLoop fresh es sb = .error .blocked ∧ newline ∉ c ++ received es) ∨
      ∃ sb' c' es', recvLoop fresh es sb = .ok (true, sb', es') ∧ sb'.Holds c' ∧ newline ∈ c' ∧
        c' ++ received es' = c ++ received es ∧ ∀ e ∈ es', e.Clean := by
  intro es
  induction es with
  | nil =>
    intro sb c _ hnl _ _
    exact Or.inl ⟨rfl, by simpa [received] using hnl⟩
  | cons e es ih =>
    intro sb c hsb hnl hnul hclean
    have hclean' : ∀ e ∈ es, e.Clean := fun e he => hclean e (List.mem_cons_of_mem _ he)
    have he := hclean e List.mem_cons_self
    cases e with
    | fail => exact absurd he id
    | again late =>
      obtain rfl : late = false := he
      have hno : sb.hasNewline = false := by
        rw [Bool.eq_false_iff, ne_eq, hsb.hasNewline]
        exact hnl
      simp only [recvLoop, hno, Bool.or_self, Bool.false_eq_true, if_false]
      exact ih sb c hsb hnl hnul hclean'
    | data bs late =>
      obtain ⟨-, -, rfl⟩ := he
      have hnul' : nul ∉ bs ∧ nul ∉ received es := by
        simpa [received] using hnul
      obtain ⟨sb₁, happ, hsb₁⟩ := stratumBufferAppend_holds fresh hsb hnul'.1
      have hassoc : c ++ received (.data bs false :: es) = (c ++ bs) ++ received es := by
        rw [received, List.append_assoc]
      rw [recvLoop_data hnul'.1 happ, hassoc]
      by_cases hnl₁ : newline ∈ c ++ bs
      · -- the loop ends with what has been received of the stream in the buffer
        rw [if_pos (hsb₁.hasNewline.mpr hnl₁)]
        exact Or.inr ⟨sb₁, c ++ bs, es, rfl, hsb₁, hnl₁, rfl, hclean'⟩
      · rw [if_neg (by rwa [hsb₁.hasNewline])]
        exact ih sb₁ (c ++ bs) hsb₁ hnl₁ hnul'.2 hclean'

theorem fillLine_holds (fresh : ℕ → Byte) {sb : Sockbuf} {c : List Byte} {es : List RecvEvent}
    (hsb : sb.Holds c) (hnul : nul ∉ received es) (hclean : ∀ e ∈ es, e.Clean) :
    (fillLine fresh sb es = .error .blocked ∧ newline ∉ c ++ received es) ∨
      ∃ sb' c' es', fillLine fresh sb es = .ok (true, sb', es') ∧ sb'.Holds c' ∧ newline ∈ c' ∧
        c' ++ received es' = c ++ received es ∧ ∀ e ∈ es', e.Clean := by
  unfold fillLine
  by_cases hnl : newline ∈ c
  · rw [if_pos (hsb.hasNewline.mpr hnl)]
    exact Or.inr ⟨sb, c, es, rfl, hsb, hnl, rfl, hclean⟩
  · rw [if_neg (by rwa [hsb.hasNewline])]
    exact recvLoop_holds fresh es sb c hsb hnl hnul hclean

/-- **One call** on a buffer that holds `c`, when no line of the stream is blank: it
waits for more, or it returns the first line. -/
theorem stratumRecvLine_of_line (fresh : ℕ → Byte) {sb : Sockbuf} {c : List Byte}
    {es : List RecvEvent} (hsb : sb.Holds c) (hnul : nul ∉ received es)
    (hclean : ∀ e ∈ es, e.Clean) (hblank : [] ∉ lines newline (c ++ received es)) :
    (stratumRecvLine fresh sb es = .error .blocked ∧ lines newline (c ++ received es) = []) ∨
    ∃ l sb' c' es', stratumRecvLine fresh sb es = .ok (some l, sb', es') ∧ sb'.Holds c' ∧
      nul ∉ received es' ∧ (∀ e ∈ es', e.Clean) ∧
      lines newline (c ++ received es) = l :: lines newline (c' ++ received es') := by
  rcases fillLine_holds fresh hsb hnul hclean with
    ⟨hfill, hnl⟩ | ⟨sb₁, c₁, es₁, hfill, hsb₁, hnl₁, htotal, hclean₁⟩
  · exact Or.inl ⟨by rw [stratumRecvLine, hfill]; rfl, lines_of_notMem hnl⟩
  · right
    obtain ⟨l, r, rfl, hl⟩ := List.eq_append_cons_of_mem hnl₁
    have hlines : lines newline (c ++ received es) = l :: lines newline (r ++ received es₁) := by
      rw [← htotal, List.append_assoc, List.cons_append, lines_append hl]
    have hne : l ≠ [] := fun h => hblank (by rw [hlines, h]; exact List.mem_cons_self)
    have hnul₁ : nul ∉ received es₁ := by
      have hall : nul ∉ c ++ received es := by simp [hsb.notMem, hnul]
      rw [← htotal] at hall
      exact fun h => hall (List.mem_append_right _ h)
    obtain ⟨sb', htake, hsb'⟩ := takeLine_holds hsb₁ hne hl
    exact ⟨l, sb', r, es₁, stratumRecvLine_of_fill hfill htake, hsb', hnul₁, hclean₁, hlines⟩

/-- **Without a blank line, the calls return the lines of the stream.** -/
theorem recvCalls_eq_lines (fresh : ℕ → Byte) : ∀ (n : ℕ) (sb : Sockbuf) (c : List Byte)
    (es : List RecvEvent), sb.Holds c → nul ∉ received es → (∀ e ∈ es, e.Clean) →
      [] ∉ lines newline (c ++ received es) →
      recvCalls fresh n sb es = ((lines newline (c ++ received es)).take n).map .line := by
  intro n
  induction n with
  | zero =>
    intro sb c es _ _ _ _
    rw [recvCalls, List.take_zero, List.map_nil]
  | succ n ih =>
    intro sb c es hsb hnul hclean hblank
    rcases stratumRecvLine_of_line fresh hsb hnul hclean hblank with
      ⟨hrun, hnone⟩ | ⟨l, sb', c', es', hrun, hsb', hnul', hclean', hlines⟩
    · rw [recvCalls, hrun, hnone]
      rfl
    · have hblank' : [] ∉ lines newline (c' ++ received es') := fun h =>
        hblank (hlines ▸ List.mem_cons_of_mem _ h)
      rw [recvCalls, hrun, hlines, List.take_succ_cons, List.map_cons]
      exact congrArg _ (ih sb' c' es' hsb' hnul' hclean' hblank')

/-! ### A blank line -/

/-- Every byte in a chunk of its own. -/
def bytewise (s : List Byte) : List RecvEvent := s.map fun b => .data [b] false

theorem received_bytewise (s : List Byte) : received (bytewise s) = s := by
  induction s with
  | nil => rfl
  | cons b s ih => exact congrArg (b :: ·) ih

theorem clean_bytewise (s : List Byte) : ∀ e ∈ bytewise s, e.Clean := by
  intro e he
  obtain ⟨b, -, rfl⟩ := List.mem_map.mp he
  exact ⟨List.cons_ne_nil _ _, by simp [RECVSIZE, RBUFSIZE], rfl⟩

/-- Received byte by byte, the buffer ends with the first newline. -/
theorem recvLoop_bytewise (fresh : ℕ → Byte) (s : List Byte) : ∀ (l : List Byte) (sb : Sockbuf)
    (c : List Byte), sb.Holds c → newline ∉ c → newline ∉ l → nul ∉ l →
      ∃ sb', recvLoop fresh (bytewise (l ++ newline :: s)) sb = .ok (true, sb', bytewise s) ∧
        sb'.Holds (c ++ l ++ [newline]) := by
  intro l
  induction l with
  | nil =>
    intro sb c hsb _ _ _
    obtain ⟨sb₁, happ, hsb₁⟩ := stratumBufferAppend_holds fresh hsb (s := [newline]) (by decide)
    refine ⟨sb₁, ?_, by simpa using hsb₁⟩
    have hloop := recvLoop_data (by decide) happ (bytewise s)
    rwa [if_pos (hsb₁.hasNewline.mpr (by simp))] at hloop
  | cons b l ih =>
    intro sb c hsb hc hl hnul
    have hb : newline ∉ c ++ [b] ∧ newline ∉ l := by
      simp only [List.mem_cons, not_or] at hl
      exact ⟨by simp [hc, hl.1], hl.2⟩
    have hbnul : nul ∉ [b] ∧ nul ∉ l := by
      simpa using hnul
    obtain ⟨sb₁, happ, hsb₁⟩ := stratumBufferAppend_holds fresh hsb hbnul.1
    have hno : ¬ sb₁.hasNewline = true := by rw [hsb₁.hasNewline]; exact hb.1
    obtain ⟨sb', hrun, hsb'⟩ := ih sb₁ (c ++ [b]) hsb₁ hb.1 hb.2 hbnul.2
    refine ⟨sb', ?_, by simpa using hsb'⟩
    have hloop := recvLoop_data hbnul.1 happ (bytewise (l ++ newline :: s))
    rwa [if_neg hno, hrun] at hloop

/-- The buffer holds a newline only: there is no token, and a null pointer is
returned. -/
theorem takeLine_blank {sb : Sockbuf} (h : sb.Holds [newline]) :
    takeLine sb = .ok (none, sb) := by
  obtain ⟨x, rest, hmem⟩ := h.mem
  have htok : strtok newline sb.mem = (none, sb.mem) := by
    rw [hmem]
    exact strtok_delim (by decide) _
  rw [takeLine]
  simp only [htok]
  rfl

/-- **A stream with a blank line, received byte by byte, makes a call fail.** -/
theorem exists_null_of_blank (fresh : ℕ → Byte) : ∀ (k : ℕ) (s : List Byte) (sb : Sockbuf),
    s.length ≤ k → sb.Holds [] → nul ∉ s → [] ∈ lines newline s →
      ∃ n, .null ∈ recvCalls fresh n sb (bytewise s) := by
  intro k
  induction k with
  | zero =>
    intro s sb hlen _ _ hblank
    obtain rfl : s = [] := List.length_eq_zero_iff.mp (Nat.le_zero.mp hlen)
    rw [lines_of_notMem (by simp)] at hblank
    exact absurd hblank (by simp)
  | succ k ih =>
    intro s sb hlen hsb hnul hblank
    have hmem : newline ∈ s := by
      by_contra h
      rw [lines_of_notMem h] at hblank
      exact absurd hblank (by simp)
    obtain ⟨l, r, rfl, hl⟩ := List.eq_append_cons_of_mem hmem
    have hnul' : nul ∉ l ∧ nul ∉ r := by
      simp only [List.mem_append, List.mem_cons, not_or] at hnul
      exact ⟨hnul.1, hnul.2.2⟩
    obtain ⟨sb₁, hloop, hsb₁⟩ := recvLoop_bytewise fresh r l sb [] hsb (by simp) hl hnul'.1
    rw [List.nil_append] at hsb₁
    have hfill :
        fillLine fresh sb (bytewise (l ++ newline :: r)) = .ok (true, sb₁, bytewise r) := by
      rw [fillLine, if_neg (by rw [hsb.hasNewline]; simp), hloop]
    rcases eq_or_ne l [] with rfl | hne
    · -- the blank line is at the front: this call fails
      refine ⟨1, ?_⟩
      rw [recvCalls, stratumRecvLine_of_fill hfill (takeLine_blank hsb₁)]
      exact List.mem_cons_self
    · -- it is further on: one line less, and the induction hypothesis
      obtain ⟨sb', htake, hsb'⟩ := takeLine_holds hsb₁ hne hl
      have hblank' : [] ∈ lines newline r := by
        rw [lines_append hl] at hblank
        exact (List.mem_cons.mp hblank).resolve_left (Ne.symm hne)
      have hlen' : r.length ≤ k := by
        simp only [List.length_append, List.length_cons] at hlen
        omega
      obtain ⟨n, hn⟩ := ih r sb' hlen' hsb' hnul'.2 hblank'
      refine ⟨n + 1, ?_⟩
      rw [recvCalls, stratumRecvLine_of_fill hfill htake]
      exact List.mem_cons_of_mem _ hn

/-- **The calls return the non-empty lines of the stream, however it is cut into chunks,
if and only if** the stream has no blank line. -/
theorem recvCalls_eq_lines_iff (fresh : ℕ → Byte) {stream : List Byte} (hnul : nul ∉ stream) :
    (∀ es : List RecvEvent, (∀ e ∈ es, e.Clean) → received es = stream → ∀ n : ℕ,
      recvCalls fresh n Sockbuf.initial es
        = (((lines newline stream).filter (· ≠ [])).take n).map .line) ↔
      [] ∉ lines newline stream := by
  constructor
  · intro h hblank
    obtain ⟨n, hn⟩ := exists_null_of_blank fresh _ stream Sockbuf.initial le_rfl
      Sockbuf.holds_initial hnul hblank
    rw [h _ (clean_bytewise stream) (received_bytewise stream) n] at hn
    obtain ⟨l, -, hl⟩ := List.mem_map.mp hn
    exact RecvResult.noConfusion hl
  · rintro hblank es hclean rfl n
    have hfilter : (lines newline (received es)).filter (· ≠ []) = lines newline (received es) :=
      List.filter_eq_self.mpr fun l hl => by
        simpa using fun h : l = [] => hblank (h ▸ hl)
    rw [hfilter]
    exact recvCalls_eq_lines fresh n Sockbuf.initial [] es Sockbuf.holds_initial hnul hclean hblank

/-- Two lines that are not blank. -/
theorem recvCalls_eq_lines_iff_two :
    (∀ es : List RecvEvent, (∀ e ∈ es, e.Clean) → received es = [97, newline, 98, newline] →
      ∀ n : ℕ, recvCalls (fun _ => 0) n Sockbuf.initial es
        = (((lines newline [97, newline, 98, newline]).filter (· ≠ [])).take n).map .line) ↔
      [] ∉ lines newline [97, newline, 98, newline] :=
  recvCalls_eq_lines_iff (fun _ => 0) (by decide)

/-- The four lines `a`, the blank one, `b` and `c` in one chunk: `c` is lost. -/
theorem recvCalls_blank_line :
    ¬ ∀ es : List RecvEvent, (∀ e ∈ es, e.Clean) →
      received es = [97, newline, newline, 98, newline, 99, newline] → ∀ n : ℕ,
        recvCalls (fun _ => 0) n Sockbuf.initial es
          = (((lines newline [97, newline, newline, 98, newline, 99, newline]).filter
              (· ≠ [])).take n).map .line := by
  intro h
  have hrun := h [.data [97, newline, newline, 98, newline, 99, newline] false]
    (by simp [RecvEvent.Clean, RECVSIZE, RBUFSIZE]) rfl 3
  revert hrun
  decide +kernel

end XmrMiner
