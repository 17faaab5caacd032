import PgQueue.Channel.Model
import PgQueue.Pages

/-!
# The channel: garbage collection, replay, purge

The garbage collector and the replays work in pages, each page a transaction of its own.

* `promoteExhaustedChannelPage`   timed-out messages without a retry left go to the DLQ;
* `resetTimedOutPage`             the other timed-out messages become pending again;
* `purgeCompletedPage`, `purgeOldPendingPage`, `purgeDLQPage`   retention;
* `replayFromPage`, `executeReplayMessage`   completed messages become pending again;
* `replayDLQPage`                 dead letters are inserted again;
* `executePurge`                  everything goes.
-/

namespace PgQueue.Channel
open Relational

namespace Row

/-- `resetTimedOutMessages` leaves `available_at` alone -/
def reset (r : Row) : Row :=
  { r with
    status := .pending
    check := MessageStatus.pending_ne_acked
    claimID := none
    visibilityTimeout := none
    retryCount := r.retryCount + 1 }

/-- `applyReplayFrom` leaves `available_at` alone, too -/
def replay (r : Row) : Row :=
  { r with
    status := .pending
    check := MessageStatus.pending_ne_acked
    retryCount := 0
    visibilityTimeout := none
    claimID := none
    processedAt := none
    errorMessage := none }

/-- `executeReplayMessage` makes the message available at once -/
def replayNow (now : Time) (r : Row) : Row := { r.replay with availableAt := now }

theorem id_reset (r : Row) : r.reset.id = r.id := rfl
theorem id_replay (r : Row) : r.replay.id = r.id := rfl
theorem id_replayNow (now : Time) (r : Row) : (r.replayNow now).id = r.id := rfl

def settled (r : Row) : Bool := decide (r.status ≠ .pending) && decide (r.status ≠ .processing)

end Row

/-! ## garbage collection -/

def promoteExhaustedChannelMessagesPageSize : Nat := 100

def scanExhaustedChannelMessages (q : Queue) (env : Env) (s : State) : List Row :=
  (s.msgs.select (fun r => r.timedOut env.now && decide (r.retryCount ≥ r.cap q))
    (fun a b => a.id ≤ b.id)).take promoteExhaustedChannelMessagesPageSize

def promoteExhaustedChannelPage (q : Queue) (env : Env) (s : State) : Nat × State :=
  let batch := scanExhaustedChannelMessages q env s
  (batch.length,
   batch.foldl (fun s e => moveToDLQ q env e.id errReasonVisibilityTimeout e.payload
     (e.retryCount + 1) e.metadata s) s)

def listed (rows : List Row) (r : Row) : Bool := rows.any fun x => decide (x.id = r.id)

def timedOutWithRetries (q : Queue) (env : Env) (s : State) : List Row :=
  (s.msgs.select (fun r => r.timedOut env.now && decide (r.retryCount < r.cap q))
    (fun a b => Earlier (a.visibilityTimeout.getD 0, a.id)
      (b.visibilityTimeout.getD 0, b.id))).take retentionPurgePageSize

def resetTimedOutPage (q : Queue) (env : Env) (s : State) : Nat × State :=
  let page := timedOutWithRetries q env s
  (page.length, { s with msgs := s.msgs.update (listed page) Row.reset Row.id_reset })

def purgeMessagesPage (p : Row → Bool) (le : Row → Row → Prop) [DecidableRel le] (s : State) :
    Nat × State :=
  let page := (s.msgs.select p le).take retentionPurgePageSize
  (page.length, { s with msgs := s.msgs.delete (listed page) })

/-- a policy field that is not positive turns its purge off -/
def purgeCompletedPage (env : Env) (ttl : Duration) (s : State) : Nat × State :=
  if ttl > 0 then
    purgeMessagesPage
      (fun r => decide (r.status = .completed)
        && r.processedAt.any fun t => decide (t < env.now - ttl))
      (fun a b => Earlier (a.processedAt.getD 0, a.id) (b.processedAt.getD 0, b.id)) s
  else (0, s)

def purgeOldPendingPage (env : Env) (maxAge : Duration) (s : State) : Nat × State :=
  if maxAge > 0 then
    purgeMessagesPage
      (fun r => decide (r.status = .pending) && decide (r.createdAt < env.now - maxAge))
      (fun a b => a.id ≤ b.id) s
  else (0, s)

def purgeDLQPage (env : Env) (retention : Duration) (s : State) : Nat × State :=
  let (n, dlq) := purgeDLQRows env retention s.dlq
  (n, { s with dlq := dlq })

/-! ## replay -/

def writeReplayLog (q : Queue) (env : Env) (operation : ReplayOperation) (count : Nat)
    (performedBy : Option String) (s : State) : State :=
  { s with
    replayLog := s.replayLog ++ [q.replayLogRow env .channel s.seq operation count performedBy]
    seq := s.seq + 1 }

def fetchReplayCandidateIDs (since : Time) (afterID : UUID) (pageLimit : Nat) (s : State) :
    List UUID :=
  (((s.msgs.select (fun r => decide (r.createdAt ≥ since) && r.settled && afterCursor afterID r.id)
    (fun a b => a.id ≤ b.id)).take pageLimit).map Row.id)

def applyReplayFrom (ids : List UUID) (s : State) : List UUID × State :=
  let p := fun r : Row => ids.contains r.id && r.settled
  ((s.msgs.rows.filter p).map Row.id, { s with msgs := s.msgs.update p Row.replay Row.id_replay })

def replayFromPage (q : Queue) (env : Env) (since : Time) (afterID : UUID) (pageLimit : Nat)
    (performedBy : Option String) (s : State) : ReplayPage UUID × State :=
  let ids := fetchReplayCandidateIDs since afterID pageLimit s
  let (replayed, s') := applyReplayFrom ids s
  (⟨replayed, replayed.length, lastCursor ids afterID, ids.length⟩,
   if replayed.isEmpty then s'
   else writeReplayLog q env (.timestamp since) replayed.length performedBy s')

def executeReplayMessage (q : Queue) (env : Env) (messageID : UUID) (performedBy : Option String)
    (s : State) : Except QueueError State :=
  let p := fun r : Row => decide (r.id = messageID) && decide (r.status ≠ .processing)
  if s.msgs.rows.any p then
    .ok (writeReplayLog q env (.messageID messageID) 1 performedBy
      { s with msgs := s.msgs.update p (Row.replayNow env.now) (Row.id_replayNow env.now) })
  else if (s.msgs.find? messageID).isSome then .error .messageInProcessing
  else .error .replayMessageNotFound

theorem executeReplayMessage_ok {q : Queue} {env : Env} {id : UUID} {performedBy : Option String}
    {s s' : State} (h : executeReplayMessage q env id performedBy s = .ok s') :
    (s.msgs.rows.any fun r => decide (r.id = id) && decide (r.status ≠ .processing)) = true ∧
      s' = writeReplayLog q env (.messageID id) 1 performedBy
        { s with
          msgs := s.msgs.update (fun r => decide (r.id = id) && decide (r.status ≠ .processing))
            (Row.replayNow env.now) (Row.id_replayNow env.now) } := by
  unfold executeReplayMessage at h
  dsimp only at h
  split at h
  · rename_i hany
    exact ⟨hany, (Except.ok.inj h).symm⟩
  · split at h <;> cases h

def replayedRow (q : Queue) (env : Env) (d : DLQRow) : Row :=
  newRow env q.resolveMaxRetries ⟨d.originalMessageID, d.payload, d.metadata⟩

def dedupeDLQByMessageID (dlqMessages : List DLQRow) : List DLQRow :=
  firstBy DLQRow.originalMessageID dlqMessages

/-- `INSERT .. ON CONFLICT DO NOTHING RETURNING`, then the dead letters that were inserted are
deleted -/
def reinsertDLQChannel (q : Queue) (env : Env) (dlqMessages : List DLQRow) (s : State) :
    List UUID × State :=
  let unique := dedupeDLQByMessageID dlqMessages
  let inserted := unique.filter fun d => (s.msgs.find? d.originalMessageID).isNone
  (inserted.map DLQRow.originalMessageID,
   { s with
     msgs := s.msgs.insertAll (unique.map (replayedRow q env))
     dlq := s.dlq.filter fun d => !inserted.any fun x => decide (x.id = d.id) })

/-- a dry run does the same work and rolls it back -/
def replayDLQPage (q : Queue) (env : Env) (afterID : UUID) (pageLimit : Nat)
    (performedBy : Option String) (dryRun : Bool) (s : State) :
    ReplayPage UUID × State :=
  let dlqMessages := fetchDLQMessages afterID pageLimit s.dlq
  let (replayed, s') := reinsertDLQChannel q env dlqMessages s
  (⟨replayed, replayed.length, lastCursor (dlqMessages.map DLQRow.id) afterID, dlqMessages.length⟩,
   if dryRun then s
   else if replayed.isEmpty then s'
   else writeReplayLog q env .dlq replayed.length performedBy s')

/-! ## purge -/

def executePurge (s : State) : State := { s with msgs := Table.empty, dlq := [] }

/-- the tables are dropped and the audit rows deleted; a channel of the same name starts empty -/
def deleteChannel (s : State) : State := { executePurge s with replayLog := [] }

end PgQueue.Channel
