import PgQueue.Channel.Maintenance
import PgQueue.Events

/-!
# The channel: runs

* `Op`       a call, or the transaction of one page or one receipt group of a call;
* `step`     the tables after one transaction, and what the callers learnt from it;
* `Reach`    the states a new channel gets to, with the history and the database clock;
* `runFrom`  several transactions;
* `ackReadCommitted`   the two statements of an ack, with transactions between them.

The keys of the history are message ids.
-/

namespace PgQueue.Channel
open Relational Lease

inductive Op where
  | publish (m : PublishMessage)
  | publishBatch (ms : List PublishMessage)
  | receive (vis : Duration)
  | ack (r : Receipt)
  | nack (r : Receipt) (reason : Bytes) (delay : Duration)
  | extend (r : Receipt) (d : Duration)
  | ackBatch (rs : List Receipt) (k : ReceiptGroupKey)
  | nackBatch (rs : List Receipt) (k : ReceiptGroupKey) (reason : Bytes) (delay : Duration)
  | promotePage
  | resetPage
  | purgeCompleted (ttl : Duration)
  | purgeOldPending (maxAge : Duration)
  | purgeDLQ (retention : Duration)
  | replayFrom (since : Time) (afterID : UUID) (pageLimit : Nat) (performedBy : Option String)
  | replayMessage (id : UUID) (performedBy : Option String)
  | replayDLQ (afterID : UUID) (pageLimit : Nat) (performedBy : Option String) (dryRun : Bool)
  | purgeQueue
  | deleteChannel

/-! ## one transaction -/

def step (q : Queue) (env : Env) (s : State) : Op → State × History UUID
  | .publish m => commit' s (publishToChannel q env m s) (publishedEvents [m.id])
  | .publishBatch ms =>
    commit' s (publishBatchToChannel q env ms s) (publishedEvents (ms.map PublishMessage.id))
  | .receive vis => commit s (consumeFromChannel q env vis s)
      (deliveredEvents Receipt.messageID (env.now + vis))
  | .ack r => commit' s (ackChannel env r s) (ackedEvents Receipt.messageID [r])
  | .nack r reason delay =>
    commit' s (nackChannelImpl q env r reason delay s) (nackedEvents Receipt.messageID [r])
  | .extend r d =>
    commit' s (extendChannelVisibility env r d s)
      [(r.messageID, .extended r.claimID (env.now + d))]
  | .ackBatch rs k =>
    commit s (ackChannelBatch env (receiptGroup rs k) s)
      fun res => ackedEvents Receipt.messageID res.succeeded
  | .nackBatch rs k reason delay =>
    commit s (nackChannelBatch q env (receiptGroup rs k) reason delay s)
      fun res => nackedEvents Receipt.messageID res.succeeded
  | .promotePage => ((promoteExhaustedChannelPage q env s).2, [])
  | .resetPage => ((resetTimedOutPage q env s).2, [])
  | .purgeCompleted ttl => ((purgeCompletedPage env ttl s).2, [])
  | .purgeOldPending maxAge => ((purgeOldPendingPage env maxAge s).2, [])
  | .purgeDLQ retention => ((purgeDLQPage env retention s).2, [])
  | .replayFrom since afterID pageLimit performedBy =>
    let (page, s') := replayFromPage q env since afterID pageLimit performedBy s
    (s', replayedEvents page.reinstated)
  | .replayMessage id performedBy =>
    commit' s (executeReplayMessage q env id performedBy s) (replayedEvents [id])
  | .replayDLQ afterID pageLimit performedBy dryRun =>
    let (page, s') := replayDLQPage q env afterID pageLimit performedBy dryRun s
    (s', if dryRun then [] else publishedEvents page.reinstated)
  | .purgeQueue => (executePurge s, wipedEvents (s.msgs.rows.map Row.id))
  | .deleteChannel => (deleteChannel s, wipedEvents (s.msgs.rows.map Row.id))

/-! ## runs -/

/-- the states of a channel, the history so far, the database clock -/
inductive Reach (q : Queue) : State → History UUID → Time → Prop
  | init (t : Time) : Reach q State.init [] t
  | next {s : State} {h : History UUID} {t : Time} (hr : Reach q s h t) (env : Env) (op : Op)
      (ht : t ≤ env.now) : Reach q (step q env s op).1 (h ++ (step q env s op).2) env.now

/-- some transactions one after another: the tables after them, and their events -/
def runFrom (q : Queue) (s : State) : List (Env × Op) → State × History UUID
  | [] => (s, [])
  | (env, op) :: rest =>
    let (s₁, es) := step q env s op
    let (s₂, es') := runFrom q s₁ rest
    (s₂, es ++ es')

theorem Reach.ran {q : Queue} {s : State} {h : History UUID} {t : Time} (hr : Reach q s h t)
    {ops : List (Env × Op)} (hc : Clocked t ops) :
    Reach q (runFrom q s ops).1 (h ++ (runFrom q s ops).2) (clockAfter t ops) := by
  induction ops generalizing s h t with
  | nil =>
    rw [runFrom, List.append_nil]
    exact hr
  | cons a rest ih =>
    have hr' := ih (hr.next a.1 a.2 hc.1) hc.2
    rw [List.append_assoc] at hr'
    exact hr'

theorem Reach.later {q : Queue} {s : State} {h : History UUID} {t : Time} (hr : Reach q s h t)
    {ops : List (Env × Op)} (hc : Clocked t ops) :
    ∃ t', Reach q (runFrom q s ops).1 (h ++ (runFrom q s ops).2) t' :=
  ⟨_, hr.ran hc⟩

/-- `ackChannel` at READ COMMITTED.  The `UPDATE` sees the tables `s`; if it matches no row, the
classifying `SELECT` sees them as the transactions that have committed meanwhile left them -/
def ackReadCommitted (q : Queue) (env : Env) (r : Receipt) (s : State) (gap : List (Env × Op)) :
    Except QueueError State :=
  let (matched, s') := ackUpdate env r s
  if matched then .ok s' else .error (classifyChannelAckMiss r (runFrom q s' gap).1)

end PgQueue.Channel
