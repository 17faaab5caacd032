import PgQueue.Topic.Model
import PgQueue.Pages

/-!
# The topic: garbage collection, replay, purge

As for a channel, in pages, with what only a topic has:

* `purgeCompletedPage`, `reclaimOrphanTopicMessagesPage`   delete message rows, and by the
  cascade their subscription rows; both spare a message a dead letter refers to;
* `purgeInactiveSubscriptionsPage`   the leftover rows of subscribers that have unsubscribed;
* `replayDLQPage`                    re-creates the subscription row of the subscriber that failed.
-/

namespace PgQueue.Topic
open Relational

namespace Sub

/-- `resetTimedOutSubscriptions` leaves `available_at` alone -/
def reset (r : Sub) : Sub :=
  { r with
    status := .pending
    check := MessageStatus.pending_ne_completed
    claimID := none
    visibilityTimeout := none
    retryCount := r.retryCount + 1 }

/-- `applyReplayFrom` leaves `available_at` alone, too -/
def replay (r : Sub) : Sub :=
  { r with
    status := .pending
    check := MessageStatus.pending_ne_completed
    retryCount := 0
    visibilityTimeout := none
    claimID := none
    ackedAt := none
    errorMessage := none }

theorem key_reset (r : Sub) : r.reset.key = r.key := rfl
theorem key_replay (r : Sub) : r.replay.key = r.key := rfl

def settled (r : Sub) : Bool := decide (r.status ≠ .pending) && decide (r.status ≠ .processing)

end Sub

/-! ## garbage collection -/

def promoteExhaustedTopicSubscriptionsPageSize : Nat := 100

def scanExhaustedTopicSubscriptions (q : Queue) (env : Env) (s : State) : List Candidate :=
  ((s.subs.select
    (fun r => r.timedOut env.now && decide (r.retryCount ≥ q.resolveMaxRetries))
    (fun a b => a.id ≤ b.id)).filterMap s.candidate).take
      promoteExhaustedTopicSubscriptionsPageSize

def promoteExhaustedTopicPage (q : Queue) (env : Env) (s : State) : Nat × State :=
  let batch := scanExhaustedTopicSubscriptions q env s
  (batch.length,
   batch.foldl (fun s e => moveSubToDLQ q env e.sub.messageID e.sub.subscriberID
     errReasonVisibilityTimeout ⟨e.sub.retryCount, e.msg.payload, e.msg.metadata⟩ s) s)

def listed (rows : List Sub) (r : Sub) : Bool := rows.any fun x => decide (x.id = r.id)

def pageOf (p : Sub → Bool) (s : State) : List Sub :=
  (s.subs.select p (fun a b => a.id ≤ b.id)).take retentionPurgePageSize

def timedOutWithRetries (q : Queue) (env : Env) (s : State) : List Sub :=
  pageOf (fun r => r.timedOut env.now && decide (r.retryCount < q.resolveMaxRetries)) s

def resetTimedOutPage (q : Queue) (env : Env) (s : State) : Nat × State :=
  let page := timedOutWithRetries q env s
  (page.length,
   { s with tables := s.tables.updateChildren (listed page) Sub.reset Sub.key_reset })

def purgeSubsPage (p : Sub → Bool) (s : State) : Nat × State :=
  let page := pageOf p s
  (page.length, { s with tables := s.tables.deleteChildren (listed page) })

def purgeMessagesPage (p : MessageRow → Bool) (s : State) : Nat × State :=
  let page := (s.msgs.select p (fun a b => a.id ≤ b.id)).take retentionPurgePageSize
  (page.length,
   { s with tables := s.tables.deleteParents fun m => page.any fun x => decide (x.id = m.id) })

def State.deadLettered (s : State) (m : MessageRow) : Bool :=
  s.dlq.any fun d => decide (d.originalMessageID = m.id)

/-- a policy field that is not positive turns its purge off -/
def purgeCompletedPage (env : Env) (ttl : Duration) (s : State) : Nat × State :=
  if ttl > 0 then
    purgeMessagesPage
      (fun m => decide (m.createdAt < env.now - ttl)
        && !(s.subs.rows.any fun r => decide (r.messageID = m.id) && decide (r.status ≠ .acked))
        && !s.deadLettered m) s
  else (0, s)

/-- only the pending rows go, never the message -/
def purgeOldPendingPage (env : Env) (maxAge : Duration) (s : State) : Nat × State :=
  if maxAge > 0 then
    purgeSubsPage
      (fun r => decide (r.status = .pending)
        && s.tables.parentIs (fun m => decide (m.createdAt < env.now - maxAge)) r) s
  else (0, s)

def purgeDLQPage (env : Env) (retention : Duration) (s : State) : Nat × State :=
  let (n, dlq) := purgeDLQRows env retention s.dlq
  (n, { s with dlq := dlq })

/-- being processed under a visibility timeout in the future; on a NULL timeout the SQL predicate
is NULL for a processing row, which its negation keeps out of the `DELETE` as well -/
def Sub.inFlight (now : Time) (r : Sub) : Bool :=
  decide (r.status = .processing) && r.visibilityTimeout.all fun t => decide (t > now)

def purgeInactiveSubscriptionsPage (env : Env) (s : State) : Nat × State :=
  purgeSubsPage
    (fun r => (s.subscribers.rows.any fun x => decide (x.subscriberID = r.subscriberID) && !x.active)
      && !r.inFlight env.now) s

def reclaimOrphanTopicMessagesPage (s : State) : Nat × State :=
  purgeMessagesPage
    (fun m => !(s.subs.rows.any fun r => decide (r.messageID = m.id)) && !s.deadLettered m) s

/-! ## replay -/

def writeReplayLog (q : Queue) (env : Env) (operation : ReplayOperation) (count : Nat)
    (performedBy : Option String) (s : State) : State :=
  { s with
    replayLog := s.replayLog ++ [q.replayLogRow env .pubsub s.seq operation count performedBy]
    seq := s.seq + 1 }

/-- pages over subscription rows, with the publish time of the message -/
def fetchReplayCandidateIDs (since : Time) (afterID : UUID) (pageLimit : Nat) (s : State) :
    List UUID :=
  ((s.subs.select
    (fun r => s.tables.parentIs (fun m => decide (m.createdAt ≥ since)) r && r.settled
      && afterCursor afterID r.id)
    (fun a b => a.id ≤ b.id)).take pageLimit).map Sub.id

def applyReplayFrom (ids : List UUID) (s : State) : List (UUID × String) × State :=
  let p := fun r : Sub => ids.contains r.id && r.settled
  ((s.subs.rows.filter p).map Sub.key,
   { s with tables := s.tables.updateChildren p Sub.replay Sub.key_replay })

def replayFromPage (q : Queue) (env : Env) (since : Time) (afterID : UUID) (pageLimit : Nat)
    (performedBy : Option String) (s : State) : ReplayPage (UUID × String) × State :=
  let ids := fetchReplayCandidateIDs since afterID pageLimit s
  let (replayed, s') := applyReplayFrom ids s
  (⟨replayed, replayed.length, lastCursor ids afterID, ids.length⟩,
   if replayed.isEmpty then s'
   else writeReplayLog q env (.timestamp since) replayed.length performedBy s')

def filterExistingMessages (dlqMessages : List DLQRow) (s : State) : List DLQRow :=
  dlqMessages.filter fun d => (s.msgs.find? d.originalMessageID).isSome

/-- the subscriptions a dead letter is replayed to: the one that failed; a legacy row without a
subscriber goes to all that are active -/
def dlqRecords (active : List String) (d : DLQRow) : List (UUID × String) :=
  match d.subscriberID with
  | some subscriberID => [(d.originalMessageID, subscriberID)]
  | none => active.map fun subscriberID => (d.originalMessageID, subscriberID)

/-- the records to re-create, each once, and the dead letters that go; the active subscribers are
asked for only if there is a legacy row -/
def resolvePubSubDLQRecords (env : Env) (dlqMessages : List DLQRow) (s : State) :
    Except QueueError (List (UUID × String) × List DLQRow) :=
  match if dlqMessages.all fun d => d.subscriberID.isSome then .ok []
    else getActiveSubscribers env s with
  | .error e => .error e
  | .ok active =>
    .ok (firstBy id (dlqMessages.flatMap (dlqRecords active)),
      dlqMessages.filter fun d => !(dlqRecords active d).isEmpty)

/-- the number of dead letters replayed, and the tables after it -/
def reinsertDLQPubSub (q : Queue) (env : Env) (dlqMessages : List DLQRow) (s : State) :
    Except QueueError (Nat × State) :=
  match resolvePubSubDLQRecords env (filterExistingMessages dlqMessages s) s with
  | .error e => .error e
  | .ok (records, replayed) =>
    match insertSubscriptionRecords q env records s with
    | .error e => .error e
    | .ok s' =>
      .ok (replayed.length,
        { s' with dlq := s.dlq.filter fun d => !replayed.any fun x => decide (x.id = d.id) })

def replayDLQPage (q : Queue) (env : Env) (afterID : UUID) (pageLimit : Nat)
    (performedBy : Option String) (dryRun : Bool) (s : State) :
    Except QueueError (ReplayPage (UUID × String) × State) :=
  let dlqMessages := fetchDLQMessages afterID pageLimit s.dlq
  match reinsertDLQPubSub q env dlqMessages s with
  | .error e => .error e
  | .ok (replayed, s') =>
    .ok (⟨s.created s', replayed, lastCursor (dlqMessages.map DLQRow.id) afterID,
        dlqMessages.length⟩,
      if dryRun then s
      else if replayed = 0 then s'
      else writeReplayLog q env .dlq replayed performedBy s')

/-! ## purge -/

def executePurge (s : State) : State := { s with tables := Linked.empty, dlq := [] }

/-- the tables are dropped, the audit rows and the registrations deleted -/
def deleteTopic (s : State) : State :=
  { executePurge s with subscribers := Table.empty, replayLog := [] }

end PgQueue.Topic
