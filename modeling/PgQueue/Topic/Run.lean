import PgQueue.Topic.Maintenance
import PgQueue.Events

/-!
# The topic: runs

* `Op`       a call, or the transaction of one page or one receipt group of a call;
* `step`     the tables after one transaction, and what the callers learnt from it;
* `Reach`    the states a new topic gets to, with the history and the database clock;
* `runFrom`  several transactions.

The keys of the history are a message id and a subscriber.  A publish is recorded for every
subscription row it creates.
-/

namespace PgQueue.Topic
open Relational Lease

inductive Op where
  | subscribe (subscriberID : String)
  | unsubscribe (subscriberID : String)
  | publish (m : PublishMessage)
  | publishBatch (ms : List PublishMessage)
  | receive (subscriberID : String) (vis : Duration)
  | ack (r : Receipt)
  | nack (r : Receipt) (reason : Bytes) (delay : Duration)
  | extend (r : Receipt) (d : Duration)
  | ackBatch (rs : List Receipt) (k : ReceiptGroupKey)
  | nackBatch (rs : List Receipt) (k : ReceiptGroupKey) (reason : Bytes) (delay : Duration)
  | promotePage
  | resetPage
  | purgeCompleted (ttl : Duration)
  | purgeOldPending (maxAge : Duration)
  | purgeDLQ (retention : Duration)
  | purgeInactive
  | reclaimOrphans
  | replayFrom (since : Time) (afterID : UUID) (pageLimit : Nat) (performedBy : Option String)
  | replayDLQ (afterID : UUID) (pageLimit : Nat) (performedBy : Option String) (dryRun : Bool)
  | purgeQueue
  | deleteTopic

def subKey (r : Receipt) : UUID × String := (r.messageID, r.subscriberID)

/-! ## one transaction -/

def commitCreated (s : State) (r : Except QueueError State) : State × History (UUID × String) :=
  match r with
  | .ok s' => (s', publishedEvents (s.created s'))
  | .error _ => (s, [])

theorem commitCreated_cases {s : State} {r : Except QueueError State}
    (P : State × History (UUID × String) → Prop) (h0 : P (s, []))
    (h1 : ∀ s', r = .ok s' → P (s', publishedEvents (s.created s'))) : P (commitCreated s r) := by
  cases r with
  | error e => exact h0
  | ok s' => exact h1 s' rfl

def step (q : Queue) (env : Env) (s : State) : Op → State × History (UUID × String)
  | .subscribe subscriberID => commit' s (registerSubscriber env subscriberID s) []
  | .unsubscribe subscriberID => commit' s (unregisterSubscriber subscriberID s) []
  | .publish m => commitCreated s (publishToPubSub q env m s)
  | .publishBatch ms => commitCreated s (publishBatchToPubSub q env ms s)
  | .receive subscriberID vis =>
    commit s (consumeFromTopic q env subscriberID vis s) (deliveredEvents subKey (env.now + vis))
  | .ack r => commit' s (ackTopic env r.subscriberID r s) (ackedEvents subKey [r])
  | .nack r reason delay =>
    commit' s (nackTopicImpl q env r.subscriberID r reason delay s) (nackedEvents subKey [r])
  | .extend r d =>
    commit' s (extendTopicVisibility env r.subscriberID r d s)
      [(subKey r, .extended r.claimID (env.now + d))]
  | .ackBatch rs k =>
    commit s (ackTopicBatch env k.subscriberID (receiptGroup rs k) s)
      fun res => ackedEvents subKey res.succeeded
  | .nackBatch rs k reason delay =>
    commit s (nackTopicBatch q env k.subscriberID (receiptGroup rs k) reason delay s)
      fun res => nackedEvents subKey res.succeeded
  | .promotePage => ((promoteExhaustedTopicPage q env s).2, [])
  | .resetPage => ((resetTimedOutPage q env s).2, [])
  | .purgeCompleted ttl => ((purgeCompletedPage env ttl s).2, [])
  | .purgeOldPending maxAge => ((purgeOldPendingPage env maxAge s).2, [])
  | .purgeDLQ retention => ((purgeDLQPage env retention s).2, [])
  | .purgeInactive => ((purgeInactiveSubscriptionsPage env s).2, [])
  | .reclaimOrphans => ((reclaimOrphanTopicMessagesPage s).2, [])
  | .replayFrom since afterID pageLimit performedBy =>
    let (page, s') := replayFromPage q env since afterID pageLimit performedBy s
    (s', replayedEvents page.reinstated)
  | .replayDLQ afterID pageLimit performedBy dryRun =>
    commit s (replayDLQPage q env afterID pageLimit performedBy dryRun s)
      fun page => if dryRun then [] else publishedEvents page.reinstated
  | .purgeQueue => (executePurge s, wipedEvents (s.subs.rows.map Sub.key))
  | .deleteTopic => (deleteTopic s, wipedEvents (s.subs.rows.map Sub.key))

/-! ## runs -/

inductive Reach (q : Queue) : State → History (UUID × String) → Time → Prop
  | init (t : Time) : Reach q State.init [] t
  | next {s : State} {h : History (UUID × String)} {t : Time} (hr : Reach q s h t) (env : Env)
      (op : Op) (ht : t ≤ env.now) :
      Reach q (step q env s op).1 (h ++ (step q env s op).2) env.now

def runFrom (q : Queue) (s : State) : List (Env × Op) → State × History (UUID × String)
  | [] => (s, [])
  | (env, op) :: rest =>
    let (s₁, es) := step q env s op
    let (s₂, es') := runFrom q s₁ rest
    (s₂, es ++ es')

theorem Reach.ran {q : Queue} {s : State} {h : History (UUID × String)} {t : Time}
    (hr : Reach q s h t) {ops : List (Env × Op)} (hc : Clocked t ops) :
    Reach q (runFrom q s ops).1 (h ++ (runFrom q s ops).2) (clockAfter t ops) := by
  induction ops generalizing s h t with
  | nil =>
    rw [runFrom, List.append_nil]
    exact hr
  | cons a rest ih =>
    have hr' := ih (hr.next a.1 a.2 hc.1) hc.2
    rw [List.append_assoc] at hr'
    exact hr'

end PgQueue.Topic
