import XmrMiner.Lib.LockOrder
import XmrMiner.Miner.Work

/-!
# The mutexes of the miner

Each function of the miner, as far as it takes mutexes: a test of the source is a choice
between two paths, a `goto` to the end of a function or a `return` leaves the function.
What a function does between its calls is not seen here; so each path of the source is one
of the paths, whatever the data are.

A thread that waits in `tq_pop` has released the mutex of the queue.  Only a miner thread
holds another mutex meanwhile: `g_work_lock2` of the pool for which it asks for work.

## Main definitions

* `Mutex`, `rank` — the mutexes, and their ranking.
* `ThreadId`, `threadCode` — the threads, and what they run.

## Main results

* `locks_ordered` — every path of every thread takes the mutexes in the order of the ranking
  and releases them, and the threads never wait for each other in a circle.
-/

namespace XmrMiner

namespace Locks

open LockOrder LockOrder.Code

/-- The threads: any number of miner threads, a stratum thread for each pool, and the one
that sends the shares. -/
inductive ThreadId
  | miner (thrId : ℕ)
  | stratum (p : Pool)
  | workio
  deriving DecidableEq

/-- The mutexes. -/
inductive Mutex
  /-- `rpc2_login_lock2`. -/
  | rpc2Login (d : Pool)
  /-- `g_work_lock2`. -/
  | gWork (d : Pool)
  /-- `work_lock` of a connection. -/
  | work (d : Pool)
  /-- `rpc2_job_lock2`. -/
  | rpc2Job (d : Pool)
  /-- `stats_lock2`. -/
  | stats (d : Pool)
  /-- `dev_lock`. -/
  | dev
  /-- `sock_lock` of a connection. -/
  | sock (d : Pool)
  /-- The mutex of the queue of a thread. -/
  | queue (t : ThreadId)
  /-- `applog_lock`. -/
  | applog
  deriving DecidableEq

/-- The ranking. -/
def rank : Mutex → ℕ
  | .rpc2Login _ => 0
  | .gWork _ => 1
  | .work _ => 2
  | .rpc2Job _ => 3
  | .stats _ => 4
  | .dev => 5
  | .sock _ => 6
  | .queue _ => 7
  | .applog => 8

/-- A thread blocks with no mutex, or with the lock of the work that it asks for. -/
def MayBlock (held : List Mutex) : Prop := held = [] ∨ ∃ d, held = [.gWork d]

/-- The discipline. -/
def discipline : Discipline Mutex := ⟨rank, MayBlock⟩

/-! ### The functions of `util.c` -/

/-- `applog`, to the system log or to the output. -/
def applog : Code Mutex := skip <|> locked .applog skip >> locked .applog skip

/-- `hex2bin`. -/
def hex2bin : Code Mutex := scope (loop (bail applog >> bail applog))

/-- `tq_freezethaw`. -/
def tqFreezethaw (t : ThreadId) : Code Mutex := locked (.queue t) skip

/-- `tq_push`. -/
def tqPush (t : ThreadId) : Code Mutex := scope (bail skip >> locked (.queue t) skip)

/-- `tq_pop`, which releases the mutex for its wait. -/
def tqPop (t : ThreadId) : Code Mutex :=
  locked (.queue t) (maybe (unlock (.queue t) >> block >> lock (.queue t)))

/-- `json_rpc_call`; the scan for a long poll is not asked for by any caller. -/
def jsonRpcCall (d : Pool) : Code Mutex :=
  scope (maybe applog >> bail (maybe applog) >> maybe (tqPush (.stratum d)) >> bail applog >>
    bail applog >> maybe applog >> bail applog)

/-- `stratum_send_line`. -/
def stratumSendLine (d : Pool) : Code Mutex := maybe applog >> locked (.sock d) skip

/-- `stratum_recv_line`, whose label `out` writes to the log. -/
def stratumRecvLine : Code Mutex :=
  scope (maybe (bail applog >> bail applog) >> bail applog) >> maybe applog

/-- `stratum_connect`. -/
def stratumConnect (d : Pool) : Code Mutex :=
  scope (locked (.sock d) (bail (applog >> unlock (.sock d))) >> bail applog)

/-- `stratum_disconnect`. -/
def stratumDisconnect (d : Pool) : Code Mutex := locked (.sock d) skip

/-- `stratum_subscribe`, from its label `start` to its label `out`. -/
def stratumSubscribeTry (d : Pool) : Code Mutex :=
  scope (stratumSendLine d >> bail skip >> bail applog >> stratumRecvLine >> bail skip >>
    bail applog >> bail (maybe applog) >> maybe applog >> bail applog >> bail applog >>
    locked (.work d) hex2bin >> maybe applog)

/-- `stratum_subscribe`, with at most one retry. -/
def stratumSubscribe (d : Pool) : Code Mutex :=
  scope (bail skip >> stratumSubscribeTry d >> maybe (stratumSubscribeTry d))

/-! ### The functions that decode -/

/-- `jobj_binary`. -/
def jobjBinary : Code Mutex := scope (bail applog >> bail applog >> hex2bin)

/-- `rpc2_job_decode` for a job of this pool. -/
def rpc2JobDecode (d : Pool) : Code Mutex :=
  scope (bail applog >> bail applog >> bail applog >> bail applog >>
    maybe (locked (.rpc2Job d) (hex2bin >> bail (applog >> unlock (.rpc2Job d)) >> jobjBinary >>
      maybe (locked (.stats d) skip >> maybe applog))) >>
    maybe (bail applog))

/-- `work_decode`. -/
def workDecode (d : Pool) : Code Mutex :=
  scope (bail (rpc2JobDecode d) >> jobjBinary >> bail applog >> jobjBinary >> bail applog)

/-- `rpc2_login_decode`. -/
def rpc2LoginDecode : Code Mutex :=
  scope (bail applog >> bail applog >> bail applog >> maybe applog >> bail applog >> bail applog >>
    bail applog)

/-- `stratum_2_job`. -/
def stratum2Job (d : Pool) : Code Mutex := locked (.work d) (any rpc2JobDecode)

/-- `stratum_notify`. -/
def stratumNotify (d : Pool) : Code Mutex :=
  scope (bail skip >> bail applog >> loop (bail applog >> hex2bin) >>
    locked (.work d) (hex2bin >> hex2bin >> hex2bin >> hex2bin >> hex2bin >> hex2bin >>
      maybe hex2bin))

/-- `stratum_set_difficulty`. -/
def stratumSetDifficulty (d : Pool) : Code Mutex :=
  scope (bail skip >> locked (.work d) skip >> maybe applog)

/-- `stratum_reconnect`. -/
def stratumReconnect (d : Pool) : Code Mutex :=
  scope (bail skip >> applog >> stratumDisconnect d)

/-- `stratum_get_version`. -/
def stratumGetVersion (d : Pool) : Code Mutex := scope (bail skip >> stratumSendLine d)

/-- `stratum_show_message`. -/
def stratumShowMessage (d : Pool) : Code Mutex :=
  scope (maybe applog >> bail skip >> stratumSendLine d)

/-- `stratum_handle_method`. -/
def stratumHandleMethod (d : Pool) : Code Mutex :=
  scope (bail applog >> bail skip >>
    (stratum2Job d <|> stratumNotify d <|> stratumSetDifficulty d <|> stratumReconnect d <|>
      stratumGetVersion d <|> stratumShowMessage d <|> skip))

/-- `stratum_authorize`; its inner loop receives at least one line. -/
def stratumAuthorize (d : Pool) : Code Mutex :=
  scope (stratumSendLine d >> bail skip >>
    (stratumRecvLine >> bail skip >> stratumHandleMethod d) >>
    loop (stratumRecvLine >> bail skip >> stratumHandleMethod d) >> bail applog >> bail applog >>
    maybe (rpc2LoginDecode >> locked (.work d) (maybe (any rpc2JobDecode))))

/-- `stratum_keepalived`. -/
def stratumKeepalived (d : Pool) : Code Mutex := scope (bail skip >> stratumSendLine d)

/-! ### The thread that sends the shares -/

/-- `share_result`. -/
def shareResult (d : Pool) : Code Mutex := locked (.stats d) skip >> applog >> maybe applog

/-- `rpc2_login`. -/
def rpc2Login (d : Pool) : Code Mutex :=
  scope (bail skip >> jsonRpcCall d >> bail skip >> rpc2LoginDecode >> bail skip >>
    bail (any rpc2JobDecode) >> any rpc2JobDecode >> maybe applog)

/-- `json_rpc2_call_recur`, with the number of tries that are left. -/
def jsonRpc2CallRecur (d : Pool) : ℕ → Code Mutex
  | 0 => maybe applog
  | tries + 1 =>
    scope (bail (maybe applog) >> jsonRpcCall d >> bail skip >>
      (bail (locked (.rpc2Login d) (rpc2Login d) >> jsonRpc2CallRecur d tries) <|> bail skip <|>
        bail applog))

/-- `json_rpc2_call`. -/
def jsonRpc2Call (d : Pool) : Code Mutex := jsonRpc2CallRecur d 5

/-- `submit_upstream_work` for a share of this pool. -/
def submitUpstreamWork (d : Pool) : Code Mutex :=
  scope (bail (maybe applog >> maybe applog) >>
    (stratumSendLine d >> bail applog <|>
      jsonRpc2Call d >> bail applog >> shareResult d <|>
      bail applog >> jsonRpcCall d >> bail applog >> shareResult d) >>
    locked .dev (maybe applog))

/-- `get_upstream_work`. -/
def getUpstreamWork : Code Mutex :=
  locked .dev skip >>
    any fun d => scope (maybe (jsonRpc2Call d) >> bail skip >> bail skip >> workDecode d >>
      maybe applog)

/-- `workio_get_work` for a miner thread. -/
def workioGetWork (t : ThreadId) : Code Mutex :=
  scope (bail skip >> loop (getUpstreamWork >> bail applog >> applog) >> getUpstreamWork >>
    tqPush t)

/-- `workio_submit_work`. -/
def workioSubmitWork (d : Pool) : Code Mutex :=
  scope (loop (submitUpstreamWork d >> bail applog >> applog) >> submitUpstreamWork d)

/-- `workio_thread`. -/
def workioThread : Code Mutex :=
  scope (bail applog >>
    scope (loop (tqPop .workio >> bail skip >>
      (any (fun thrId => workioGetWork (.miner thrId)) <|> any workioSubmitWork <|> skip))) >>
    tqFreezethaw .workio)

/-! ### The miner threads -/

/-- `get_work`. -/
def getWork (t : ThreadId) : Code Mutex :=
  scope (bail skip >> bail skip >> tqPush .workio >> bail skip >> tqPop t >> bail skip)

/-- `submit_work`. -/
def submitWork : Code Mutex := scope (bail skip >> bail skip >> tqPush .workio)

/-- `stratum_gen_work`, which releases the lock in both branches. -/
def stratumGenWork (d : Pool) : Code Mutex :=
  lock (.work d) >> (unlock (.work d) <|> unlock (.work d) >> maybe applog)

/-- `fulltest`. -/
def fulltest : Code Mutex := maybe applog

/-- `scanhash_cryptonight`. -/
def scanhashCryptonight : Code Mutex :=
  scope (bail (applog >> applog) >> maybe (maybe applog) >>
    loop (maybe (maybe fulltest >> (bail (maybe (maybe fulltest >> maybe applog)) <|> applog))))

/-- A round of `miner_thread`, once it has selected its pool. -/
def minerRound (thrId : ℕ) (d : Pool) : Code Mutex :=
  (lock (.gWork d) >> maybe (stratumGenWork d) <|>
    lock (.gWork d) >> maybe (getWork (.miner thrId) >> bail (applog >> unlock (.gWork d)))) >>
  unlock (.gWork d) >> scanhashCryptonight >> maybe (locked (.stats d) skip) >> maybe applog >>
  maybe (maybe applog) >> maybe (submitWork >> maybe submitWork)

/-- `miner_thread`. -/
def minerThread (thrId : ℕ) : Code Mutex :=
  scope (maybe applog >> applog >> maybe applog >>
    forever (locked .dev skip >> any (minerRound thrId))) >>
  tqFreezethaw (.miner thrId)

/-! ### The stratum threads -/

/-- `stratum_handle_response`. -/
def stratumHandleResponse (d : Pool) : Code Mutex :=
  scope (bail applog >> bail skip >> bail skip >> shareResult d)

/-- `disableDonation`. -/
def disableDonation : Code Mutex := locked .dev skip

/-- The attempt to connect, and what follows if it fails. -/
def stratumReconnecting (p : Pool) : Code Mutex :=
  locked (.gWork p) skip >>
    (stratumConnect p >> maybe (stratumSubscribe p >> maybe (stratumAuthorize p))) >>
    maybe (stratumDisconnect p >>
      bail (maybe applog >> (disableDonation >> applog <|> applog >> tqPush .workio)) >>
      maybe (applog >> maybe (locked .dev skip)))

/-- `stratum_thread`. -/
def stratumThread (p : Pool) : Code Mutex :=
  scope (tqPop (.stratum p) >>
    maybe (loop (bail (disableDonation >> applog) >> bail (disableDonation >> applog))) >>
    bail skip >> maybe applog >> locked .dev skip >>
    forever (locked .dev skip >> loop (stratumReconnecting p) >>
      maybe (locked (.gWork p) (stratumGenWork p) >> maybe (maybe applog)) >>
      maybe (maybe applog >> stratumKeepalived p) >>
      (maybe applog <|> stratumRecvLine) >>
      (stratumDisconnect p >> maybe applog <|>
        stratumHandleMethod p >> maybe (stratumHandleResponse p))))

/-- What the threads run. -/
def threadCode : ThreadId → Code Mutex
  | .miner thrId => minerThread thrId
  | .stratum p => stratumThread p
  | .workio => workioThread

/-! ### What the functions keep -/

open Discipline

/-- A mutex that is taken and released at once. -/
theorem locked_skip_neutral (m : Mutex) : discipline.Neutral (rank m) (locked m skip) := by
  have hskip : discipline.Neutral (rank m + 1) (skip : Code Mutex) := .skip
  exact hskip.locked (Nat.lt_succ_self _) le_rfl

theorem applog_neutral : discipline.Neutral 8 applog := by
  have hlog : discipline.Neutral 8 (locked .applog skip) := locked_skip_neutral .applog
  exact Neutral.skip.choice (hlog.seq hlog)

theorem applog_keeps {k : ℕ} (hk : k ≤ 8) : discipline.Keeps k applog := applog_neutral.keeps hk

theorem hex2bin_neutral : discipline.Neutral 8 hex2bin := by
  have hlog := applog_keeps le_rfl
  exact .scope (hlog.bail.seq hlog.bail).loop

theorem jobjBinary_neutral : discipline.Neutral 8 jobjBinary := by
  have hlog := applog_keeps le_rfl
  exact .scope <| hlog.bail.seq <| hlog.bail.seq <| hex2bin_neutral.keeps le_rfl

theorem rpc2LoginDecode_neutral : discipline.Neutral 8 rpc2LoginDecode := by
  have hlog := applog_keeps le_rfl
  exact .scope <| hlog.bail.seq <| hlog.bail.seq <| hlog.bail.seq <| hlog.maybe.seq <|
    hlog.bail.seq <| hlog.bail.seq hlog.bail

theorem scanhashCryptonight_neutral : discipline.Neutral 8 scanhashCryptonight := by
  have hlog := applog_keeps le_rfl
  have htest : discipline.Keeps 8 fulltest := hlog.maybe
  have hsecond := (htest.maybe.seq hlog.maybe).maybe.bail
  exact .scope <| (hlog.seq hlog).bail.seq <| hlog.maybe.maybe.seq
    (htest.maybe.seq (hsecond.choice hlog)).maybe.loop

theorem stratumRecvLine_neutral : discipline.Neutral 8 stratumRecvLine := by
  have hlog := applog_keeps le_rfl
  have hreceive : discipline.Neutral 8
      (scope (maybe (bail applog >> bail applog) >> bail applog)) :=
    .scope ((hlog.bail.seq hlog.bail).maybe.seq hlog.bail)
  exact hreceive.seq applog_neutral.maybe

/-! Queues and connections. -/

theorem tqPush_neutral (t : ThreadId) : discipline.Neutral 7 (tqPush t) :=
  .scope (Keeps.skip.bail.seq ((locked_skip_neutral (.queue t)).keeps le_rfl))

theorem submitWork_neutral : discipline.Neutral 7 submitWork :=
  .scope <| Keeps.skip.bail.seq <| Keeps.skip.bail.seq <| (tqPush_neutral _).keeps le_rfl

theorem jsonRpcCall_neutral (d : Pool) : discipline.Neutral 7 (jsonRpcCall d) := by
  have hlog := applog_keeps (show 7 ≤ 8 by decide)
  have hpush := (tqPush_neutral (.stratum d)).keeps le_rfl
  exact .scope <| hlog.maybe.seq <| hlog.maybe.bail.seq <| hpush.maybe.seq <| hlog.bail.seq <|
    hlog.bail.seq <| hlog.maybe.seq hlog.bail

/-- A pop keeps what is held, if the thread may block with it. -/
theorem tqPop_meets {t : ThreadId} {held left : List Mutex} (hblock : MayBlock held)
    (hbelow : discipline.Below 7 held) : discipline.Meets (tqPop t) held held left := by
  have hlock : discipline.Meets (lock (.queue t)) held (.queue t :: held) left := .lock hbelow
  exact hlock.seq ((Meets.unlock.seq ((Meets.block hblock).seq hlock)).maybe.seq Meets.unlock)

theorem stratumSendLine_neutral (d : Pool) : discipline.Neutral 6 (stratumSendLine d) :=
  (applog_neutral.mono (by decide)).maybe.seq (locked_skip_neutral (.sock d))

theorem stratumDisconnect_neutral (d : Pool) : discipline.Neutral 6 (stratumDisconnect d) :=
  locked_skip_neutral (.sock d)

theorem stratumConnect_neutral (d : Pool) : discipline.Neutral 6 (stratumConnect d) := by
  have hlog := applog_keeps (show 6 ≤ 8 by decide)
  have hinside : discipline.Inside (.sock d) (bail (applog >> unlock (.sock d))) :=
    .bail applog_neutral (by simp [discipline, rank])
  exact .scope ((Keeps.locked hinside le_rfl).seq hlog.bail)

theorem stratumKeepalived_neutral (d : Pool) : discipline.Neutral 6 (stratumKeepalived d) :=
  .scope (Keeps.skip.bail.seq ((stratumSendLine_neutral d).keeps le_rfl))

/-! Shares and jobs. -/

theorem disableDonation_neutral : discipline.Neutral 5 disableDonation := locked_skip_neutral .dev

theorem shareResult_neutral (d : Pool) : discipline.Neutral 4 (shareResult d) := by
  have hlog := applog_neutral.mono (show 4 ≤ 8 by decide)
  exact (locked_skip_neutral (.stats d)).seq (hlog.seq hlog.maybe)

theorem stratumHandleResponse_neutral (d : Pool) :
    discipline.Neutral 4 (stratumHandleResponse d) := by
  have hlog := applog_keeps (show 4 ≤ 8 by decide)
  exact .scope <| hlog.bail.seq <| Keeps.skip.bail.seq <| Keeps.skip.bail.seq <|
    (shareResult_neutral d).keeps le_rfl

theorem rpc2JobDecode_neutral (d : Pool) : discipline.Neutral 3 (rpc2JobDecode d) := by
  have hlog := applog_keeps (show 3 ≤ 8 by decide)
  have hstats := (locked_skip_neutral (.stats d)).seq
    (applog_neutral.mono (show 4 ≤ 8 by decide)).maybe
  have hinside : discipline.Inside (.rpc2Job d) (hex2bin >>
      bail (applog >> unlock (.rpc2Job d)) >> jobjBinary >>
      maybe (locked (.stats d) skip >> maybe applog)) :=
    (hex2bin_neutral.inside (by simp [discipline, rank])).seq <|
      (Inside.bail applog_neutral (by simp [discipline, rank])).seq <|
        (jobjBinary_neutral.inside (by simp [discipline, rank])).seq
          (hstats.maybe.inside (by simp [discipline, rank]))
  exact .scope <| hlog.bail.seq <| hlog.bail.seq <| hlog.bail.seq <| hlog.bail.seq <|
    (Keeps.locked hinside le_rfl).maybe.seq hlog.bail.maybe

theorem workDecode_neutral (d : Pool) : discipline.Neutral 3 (workDecode d) := by
  have hlog := applog_keeps (show 3 ≤ 8 by decide)
  have hbinary := jobjBinary_neutral.keeps (show 3 ≤ 8 by decide)
  exact .scope <| ((rpc2JobDecode_neutral d).keeps le_rfl).bail.seq <| hbinary.seq <|
    hlog.bail.seq <| hbinary.seq hlog.bail

theorem rpc2Login_neutral (d : Pool) : discipline.Neutral 3 (rpc2Login d) := by
  have hlog := applog_keeps (show 3 ≤ 8 by decide)
  have hcall := (jsonRpcCall_neutral d).keeps (show 3 ≤ 7 by decide)
  have hlogin := rpc2LoginDecode_neutral.keeps (show 3 ≤ 8 by decide)
  have hjob : discipline.Keeps 3 (any rpc2JobDecode) :=
    .any fun d => (rpc2JobDecode_neutral d).keeps le_rfl
  exact .scope <| Keeps.skip.bail.seq <| hcall.seq <| Keeps.skip.bail.seq <| hlogin.seq <|
    Keeps.skip.bail.seq <| hjob.bail.seq <| hjob.seq hlog.maybe

/-! What is called with the lock of a connection. -/

/-- The lock of a connection around a job. -/
theorem locked_work_neutral (d : Pool) {c : Code Mutex} (hc : discipline.Neutral 3 c) :
    discipline.Neutral 2 (locked (.work d) c) :=
  hc.locked (by simp [discipline, rank]) (by simp [discipline, rank])

theorem anyJobDecode_neutral : discipline.Neutral 3 (any rpc2JobDecode) :=
  .any rpc2JobDecode_neutral

theorem stratum2Job_neutral (d : Pool) : discipline.Neutral 2 (stratum2Job d) :=
  locked_work_neutral d anyJobDecode_neutral

theorem stratumNotify_neutral (d : Pool) : discipline.Neutral 2 (stratumNotify d) := by
  have hlog := applog_keeps (show 2 ≤ 8 by decide)
  have hhex := hex2bin_neutral.mono (show 3 ≤ 8 by decide)
  have hlocked := locked_work_neutral d <| hhex.seq <| hhex.seq <| hhex.seq <| hhex.seq <|
    hhex.seq <| hhex.seq hhex.maybe
  exact .scope <| Keeps.skip.bail.seq <| hlog.bail.seq <|
    (hlog.bail.seq (hhex.keeps (by decide))).loop.seq (hlocked.keeps le_rfl)

theorem stratumSetDifficulty_neutral (d : Pool) :
    discipline.Neutral 2 (stratumSetDifficulty d) := by
  have hlog := applog_keeps (show 2 ≤ 8 by decide)
  exact .scope <| Keeps.skip.bail.seq <|
    ((locked_work_neutral d .skip).keeps le_rfl).seq hlog.maybe

theorem stratumHandleMethod_neutral (d : Pool) : discipline.Neutral 2 (stratumHandleMethod d) := by
  have hlog := applog_keeps (show 2 ≤ 8 by decide)
  have hsend := (stratumSendLine_neutral d).keeps (show 2 ≤ 6 by decide)
  have hreconnect : discipline.Neutral 2 (stratumReconnect d) :=
    .scope <| Keeps.skip.bail.seq <| hlog.seq <| (stratumDisconnect_neutral d).keeps (by decide)
  have hversion : discipline.Neutral 2 (stratumGetVersion d) := .scope (Keeps.skip.bail.seq hsend)
  have hmessage : discipline.Neutral 2 (stratumShowMessage d) :=
    .scope (hlog.maybe.seq (Keeps.skip.bail.seq hsend))
  have hmethods := (stratum2Job_neutral d).choice <| (stratumNotify_neutral d).choice <|
    (stratumSetDifficulty_neutral d).choice <| hreconnect.choice <| hversion.choice <|
      hmessage.choice .skip
  exact .scope <| hlog.bail.seq <| Keeps.skip.bail.seq <| hmethods.keeps le_rfl

theorem stratumSubscribe_neutral (d : Pool) : discipline.Neutral 2 (stratumSubscribe d) := by
  have hlog := applog_keeps (show 2 ≤ 8 by decide)
  have hsend := (stratumSendLine_neutral d).keeps (show 2 ≤ 6 by decide)
  have hreceive := stratumRecvLine_neutral.keeps (show 2 ≤ 8 by decide)
  have hwork := (locked_work_neutral d (hex2bin_neutral.mono (by decide))).keeps le_rfl
  have htry : discipline.Neutral 2 (stratumSubscribeTry d) :=
    .scope <| hsend.seq <| Keeps.skip.bail.seq <| hlog.bail.seq <| hreceive.seq <|
      Keeps.skip.bail.seq <| hlog.bail.seq <| hlog.maybe.bail.seq <| hlog.maybe.seq <|
        hlog.bail.seq <| hlog.bail.seq <| hwork.seq hlog.maybe
  exact .scope (Keeps.skip.bail.seq ((htry.keeps le_rfl).seq (htry.keeps le_rfl).maybe))

theorem stratumAuthorize_neutral (d : Pool) : discipline.Neutral 2 (stratumAuthorize d) := by
  have hlog := applog_keeps (show 2 ≤ 8 by decide)
  have hsend := (stratumSendLine_neutral d).keeps (show 2 ≤ 6 by decide)
  have hround := (stratumRecvLine_neutral.keeps (show 2 ≤ 8 by decide)).seq <|
    Keeps.skip.bail.seq <| (stratumHandleMethod_neutral d).keeps le_rfl
  have hlogin := (rpc2LoginDecode_neutral.keeps (show 2 ≤ 8 by decide)).seq
    ((locked_work_neutral d anyJobDecode_neutral.maybe).keeps le_rfl)
  exact .scope <| hsend.seq <| Keeps.skip.bail.seq <| hround.seq <| hround.loop.seq <|
    hlog.bail.seq <| hlog.bail.seq hlogin.maybe

/-- Both branches release the lock. -/
theorem stratumGenWork_neutral (d : Pool) : discipline.Neutral 2 (stratumGenWork d) := by
  intro held left hbelow
  have hlog := (applog_neutral held left (hbelow.mono (by decide))).maybe
  have hlock : discipline.Meets (lock (.work d)) held (.work d :: held) left := .lock hbelow
  exact hlock.seq (Meets.unlock.choice (Meets.unlock.seq hlog))

/-! The thread that sends the shares. -/

theorem jsonRpc2CallRecur_neutral (d : Pool) (tries : ℕ) :
    discipline.Neutral 0 (jsonRpc2CallRecur d tries) := by
  have hlog := applog_keeps (Nat.zero_le 8)
  induction tries with
  | zero => exact (applog_neutral.mono (Nat.zero_le _)).maybe
  | succ tries ih =>
    have hcall := (jsonRpcCall_neutral d).keeps (Nat.zero_le 7)
    have hlogin : discipline.Neutral 0 (locked (.rpc2Login d) (rpc2Login d)) :=
      (rpc2Login_neutral d).locked (by simp [discipline, rank]) (Nat.zero_le _)
    have hagain := ((hlogin.keeps le_rfl).seq (ih.keeps le_rfl)).bail
    exact .scope <| hlog.maybe.bail.seq <| hcall.seq <| Keeps.skip.bail.seq <|
      hagain.choice <| Keeps.skip.bail.choice hlog.bail

theorem submitUpstreamWork_neutral (d : Pool) : discipline.Neutral 0 (submitUpstreamWork d) := by
  have hlog := applog_keeps (Nat.zero_le 8)
  have hsend := ((stratumSendLine_neutral d).keeps (Nat.zero_le 6)).seq hlog.bail
  have hshare := (shareResult_neutral d).keeps (Nat.zero_le 4)
  have hcall2 := ((jsonRpc2CallRecur_neutral d 5).keeps le_rfl).seq (hlog.bail.seq hshare)
  have hcall := hlog.bail.seq <| ((jsonRpcCall_neutral d).keeps (Nat.zero_le 7)).seq <|
    hlog.bail.seq hshare
  have hdev : discipline.Neutral 0 (locked .dev (maybe applog)) :=
    applog_neutral.maybe.locked (by simp [discipline, rank]) (Nat.zero_le _)
  exact .scope <| (hlog.maybe.seq hlog.maybe).bail.seq <|
    (hsend.choice (hcall2.choice hcall)).seq (hdev.keeps le_rfl)

theorem getUpstreamWork_neutral : discipline.Neutral 0 getUpstreamWork := by
  have hlog := applog_keeps (Nat.zero_le 8)
  have hdev := (locked_skip_neutral .dev).mono (Nat.zero_le 5)
  refine hdev.seq (.any fun d => .scope ?_)
  exact ((jsonRpc2CallRecur_neutral d 5).keeps le_rfl).maybe.seq <| Keeps.skip.bail.seq <|
    Keeps.skip.bail.seq <| ((workDecode_neutral d).keeps (Nat.zero_le 3)).seq hlog.maybe

theorem workioGetWork_neutral (t : ThreadId) : discipline.Neutral 0 (workioGetWork t) := by
  have hlog := applog_keeps (Nat.zero_le 8)
  have hget := getUpstreamWork_neutral.keeps le_rfl
  exact .scope <| Keeps.skip.bail.seq <| (hget.seq (hlog.bail.seq hlog)).loop.seq <|
    hget.seq <| (tqPush_neutral t).keeps (Nat.zero_le 7)

theorem workioSubmitWork_neutral (d : Pool) : discipline.Neutral 0 (workioSubmitWork d) := by
  have hlog := applog_keeps (Nat.zero_le 8)
  have hsubmit := (submitUpstreamWork_neutral d).keeps le_rfl
  exact .scope ((hsubmit.seq (hlog.bail.seq hlog)).loop.seq hsubmit)

theorem workioThread_meets : discipline.Meets workioThread [] [] [] := by
  have hlog := applog_neutral [] [] below_nil
  have hpop : discipline.Meets (tqPop .workio) [] [] [] := tqPop_meets (Or.inl rfl) below_nil
  have hget : discipline.Meets (any fun thrId => workioGetWork (.miner thrId)) [] [] [] :=
    .any fun thrId => workioGetWork_neutral (.miner thrId) [] [] below_nil
  have hsubmit : discipline.Meets (any workioSubmitWork) [] [] [] :=
    .any fun d => workioSubmitWork_neutral d [] [] below_nil
  have hround := hpop.seq <| Meets.skip.bail.seq <| hget.choice (hsubmit.choice .skip)
  have hfreeze := locked_skip_neutral (.queue .workio) [] [] below_nil
  exact .scope (hlog.bail.seq (hround.loop.scope.seq hfreeze))

/-! The miner threads. -/

/-- The one call that blocks while a mutex is held. -/
theorem getWork_meets (t : ThreadId) (d : Pool) (left : List Mutex) :
    discipline.Meets (getWork t) [.gWork d] [.gWork d] left := by
  have hbelow : discipline.Below 7 [.gWork d] := below_nil.cons (by simp [discipline, rank])
  have hpush := tqPush_neutral .workio [.gWork d] [.gWork d] hbelow
  have hpop : discipline.Meets (tqPop t) [.gWork d] [.gWork d] [.gWork d] :=
    tqPop_meets (Or.inr ⟨d, rfl⟩) hbelow
  exact .scope <| Meets.skip.bail.seq <| Meets.skip.bail.seq <| hpush.seq <|
    Meets.skip.bail.seq <| hpop.seq Meets.skip.bail

theorem minerRound_meets (thrId : ℕ) (d : Pool) :
    discipline.Meets (minerRound thrId d) [] [] [] := by
  have hbelow : discipline.Below 2 [.gWork d] := below_nil.cons (by simp [discipline, rank])
  have hlock : discipline.Meets (lock (.gWork d)) [] [.gWork d] [] := .lock below_nil
  have hunlock : discipline.Meets (unlock (.gWork d)) [.gWork d] [] [] := .unlock
  -- inside, up to the return without any work
  have hgen := stratumGenWork_neutral d [.gWork d] [] hbelow
  have hlog' := applog_neutral [.gWork d] [] (hbelow.mono (by decide))
  have hwork := (getWork_meets (.miner thrId) d []).seq (hlog'.seq hunlock).bail
  -- behind
  have hscan := scanhashCryptonight_neutral [] [] below_nil
  have hstats := locked_skip_neutral (.stats d) [] [] below_nil
  have hlog := applog_neutral [] [] below_nil
  have hsubmit := submitWork_neutral [] [] below_nil
  exact ((hlock.seq hgen.maybe).choice (hlock.seq hwork.maybe)).seq <| hunlock.seq <|
    hscan.seq <| hstats.maybe.seq <| hlog.maybe.seq <| hlog.maybe.maybe.seq
      (hsubmit.seq hsubmit.maybe).maybe

theorem minerThread_meets (thrId : ℕ) : discipline.Meets (minerThread thrId) [] [] [] := by
  have hlog := applog_neutral [] [] below_nil
  have hdev := locked_skip_neutral .dev [] [] below_nil
  have hloop : discipline.Meets (forever (locked .dev skip >> any (minerRound thrId))) [] [] [] :=
    (hdev.seq (Meets.any (minerRound_meets thrId))).forever
  have hfreeze := locked_skip_neutral (.queue (.miner thrId)) [] [] below_nil
  exact (hlog.maybe.seq (hlog.seq (hlog.maybe.seq hloop))).scope.seq hfreeze

/-! The stratum threads. -/

theorem stratumReconnecting_meets (p : Pool) :
    discipline.Meets (stratumReconnecting p) [] [] [] := by
  have hlog := applog_neutral [] [] below_nil
  have hdev := locked_skip_neutral .dev [] [] below_nil
  have hwork := locked_skip_neutral (.gWork p) [] [] below_nil
  have hconnect := (stratumConnect_neutral p [] [] below_nil).seq
    ((stratumSubscribe_neutral p [] [] below_nil).seq
      (stratumAuthorize_neutral p [] [] below_nil).maybe).maybe
  have hdisconnect := stratumDisconnect_neutral p [] [] below_nil
  have hdisable := disableDonation_neutral [] [] below_nil
  have hpush := tqPush_neutral .workio [] [] below_nil
  exact hwork.seq <| hconnect.seq <| (hdisconnect.seq <|
    (hlog.maybe.seq ((hdisable.seq hlog).choice (hlog.seq hpush))).bail.seq
      (hlog.seq hdev.maybe).maybe).maybe

theorem stratumThread_meets (p : Pool) : discipline.Meets (stratumThread p) [] [] [] := by
  have hlog := applog_neutral [] [] below_nil
  have hdev := locked_skip_neutral .dev [] [] below_nil
  have hpop : discipline.Meets (tqPop (.stratum p)) [] [] [] :=
    tqPop_meets (Or.inl rfl) below_nil
  have hdisable := ((disableDonation_neutral [] [] below_nil).seq hlog).bail
  have hgen : discipline.Neutral 1 (locked (.gWork p) (stratumGenWork p)) :=
    (stratumGenWork_neutral p).locked (by simp [discipline, rank]) (by simp [discipline, rank])
  have hpublish := (hgen [] [] below_nil).seq hlog.maybe.maybe
  have hkeepalive := hlog.maybe.seq (stratumKeepalived_neutral p [] [] below_nil)
  have hreceive := stratumRecvLine_neutral [] [] below_nil
  have hlost := (stratumDisconnect_neutral p [] [] below_nil).seq hlog.maybe
  have hhandle := (stratumHandleMethod_neutral p [] [] below_nil).seq
    (stratumHandleResponse_neutral p [] [] below_nil).maybe
  have hround := hdev.seq <| (stratumReconnecting_meets p).loop.seq <| hpublish.maybe.seq <|
    hkeepalive.maybe.seq <| (hlog.maybe.choice hreceive).seq (hlost.choice hhandle)
  exact .scope <| hpop.seq <| (hdisable.seq hdisable).loop.maybe.seq <| Meets.skip.bail.seq <|
    hlog.maybe.seq <| hdev.seq <| hround.forever

theorem threadCode_meets : ∀ t, discipline.Meets (threadCode t) [] [] []
  | .miner thrId => minerThread_meets thrId
  | .stratum p => stratumThread_meets p
  | .workio => workioThread_meets

/-- **The mutexes are taken in the order of the ranking**: along every path of every thread
a mutex is taken while only mutexes of lower ranks are held, it is released by its holder,
nothing but the lock of the work is held while the thread blocks, and nothing at its end.
In no state that the threads reach do they wait for each other in a circle. -/
theorem locks_ordered :
    (∀ t, ∀ path ∈ (threadCode t).normal, discipline.Orderly [] path []) ∧
      ∀ (s₀ s : Threads ThreadId Mutex) (ts : List ThreadId), s₀.Initial threadCode →
        Trace.Run Threads.Step s₀ ts s → ∀ t, ¬ Relation.TransGen s.Waits t t := by
  refine ⟨fun t => (threadCode_meets t).normal, ?_⟩
  intro s₀ s ts hinit hrun t
  exact ((hinit.ordered threadCode_meets).run hrun).not_waits_circle t

/-- The path of a miner thread that asks for its first work and gets none: it holds the lock of
the work while it uses the queues. -/
def noWorkPath (thrId : ℕ) : List (Op Mutex) :=
  [.lock .dev, .unlock .dev, .lock (.gWork 0), .lock (.queue .workio), .unlock (.queue .workio),
    .lock (.queue (.miner thrId)), .unlock (.queue (.miner thrId)), .unlock (.gWork 0),
    .lock (.queue (.miner thrId)), .unlock (.queue (.miner thrId))]

theorem noWorkPath_mem (thrId : ℕ) : noWorkPath thrId ∈ (minerThread thrId).normal := by
  have hskip : [] ∈ (skip : Code Mutex).normal := rfl
  have hlog : [] ∈ applog.normal := Or.inl rfl
  have hpush : _ ∈ (tqPush .workio).normal := scope_mem (seq_mem bail_mem (locked_mem hskip))
  have hpop : _ ∈ (tqPop (.miner thrId)).normal := locked_mem maybe_nil
  have hget : _ ∈ (getWork (.miner thrId)).normal := scope_mem <| seq_mem bail_mem <|
    seq_mem bail_mem <| seq_mem hpush <| seq_mem bail_mem <| seq_mem hpop bail_mem
  -- the round is left where the work is missing
  have hfail : _ ∈ (getWork (.miner thrId) >> bail (applog >> unlock (Mutex.gWork 0))).exit :=
    seq_exit hget (bail_exit (seq_mem hlog unlock_mem))
  have hround : _ ∈ (minerRound thrId 0).exit :=
    exit_seq (Or.inr (seq_exit lock_mem (maybe_exit hfail)))
  have hrounds : _ ∈ (forever (locked Mutex.dev skip >> any (minerRound thrId))).exit :=
    forever_exit (seq_exit (locked_mem hskip) ⟨0, hround⟩)
  exact seq_mem (scope_exit (seq_exit maybe_nil (seq_exit hlog (seq_exit maybe_nil hrounds))))
    (locked_mem hskip)

/-- One miner thread holds the lock of the work and that of a queue, and another one waits for
it. -/
theorem locks_ordered_two_miners :
    let s₀ : Threads ThreadId Mutex := ⟨fun _ => none, fun _ => [], fun t =>
      if t = .miner 0 then noWorkPath 0 else if t = .miner 1 then noWorkPath 1 else []⟩
    let s := [.miner 0, .miner 0, .miner 1, .miner 1, .miner 0, .miner 0].foldl Threads.next s₀
    s.held (.miner 0) = [.queue .workio, .gWork 0] ∧ s.Waits (.miner 1) (.miner 0) ∧
      discipline.Orderly [] (noWorkPath 0) [] ∧ ∀ t, ¬ Relation.TransGen s.Waits t t := by
  intro s₀ s
  have hinit : s₀.Initial threadCode := by
    refine ⟨fun _ => rfl, fun _ => rfl, fun t => ?_⟩
    by_cases h0 : t = .miner 0
    · subst h0
      exact Or.inr (noWorkPath_mem 0)
    · by_cases h1 : t = .miner 1
      · subst h1
        exact Or.inr (noWorkPath_mem 1)
      · exact Or.inl ((if_neg h0).trans (if_neg h1))
  have hrun : Trace.Run Threads.Step s₀
      [.miner 0, .miner 0, .miner 1, .miner 1, .miner 0, .miner 0] s :=
    Trace.Run.of_legal _ ⟨rfl, trivial, rfl, trivial, rfl, rfl, trivial⟩
  exact ⟨rfl, ⟨.gWork 0, _, rfl, rfl⟩, locks_ordered.1 (.miner 0) _ (noWorkPath_mem 0),
    locks_ordered.2 s₀ s _ hinit hrun⟩

end Locks

end XmrMiner
