import PgQueue.Types
import PgQueue.Relational.Table

/-!
# The channel: publish, consume, acknowledge

A point-to-point channel is a message table and a dead-letter table.  Every function below is
the body of one transaction of the source (under the source's name), as a function of the
tables; a body that fails leaves the tables alone, which is what the rollback does.

* `publishToChannel`, `publishBatchToChannel`    insert with conflict detection;
* `consumeFromChannel`      the two probes, the reclaim of timed-out messages, the claim;
* `ackChannel`, `extendChannelVisibility`, `nackChannelImpl`   fenced on the receipt's claim;
* `ackChannelBatch`, `nackChannelBatch`          the set-based versions of one receipt group.

`State.seq` counts the values drawn from `uuidv7()` so far.
-/

namespace PgQueue.Channel
open Relational

/-- a row of the message table; `check` is the table's constraint on the status column -/
structure Row where
  id : UUID
  payload : Bytes
  createdAt : Time
  status : MessageStatus
  check : status ≠ .acked
  retryCount : Nat
  maxRetries : Option Nat
  visibilityTimeout : Option Time
  availableAt : Time
  claimID : Option UUID
  processedAt : Option Time
  errorMessage : Option Bytes
  metadata : Option Bytes
deriving DecidableEq, Repr

structure State where
  msgs : Table Row UUID Row.id
  dlq : List DLQRow
  replayLog : List ReplayLogRow
  seq : Nat

def State.init : State := ⟨Table.empty, [], [], 0⟩

/-! ## the columns each statement sets -/

namespace Row

/-- the row carries the receipt's claim and is being processed -/
def underClaim (r : Row) (messageID claimID : UUID) : Bool :=
  decide (r.id = messageID) && decide (r.claimID = some claimID) && decide (r.status = .processing)

/-- being processed, with the visibility timeout in the past; a NULL timeout is not -/
def timedOut (now : Time) (r : Row) : Bool :=
  decide (r.status = .processing) && r.visibilityTimeout.any fun t => decide (t < now)

def claim (now : Time) (vis : Duration) (claimID : UUID) (retryCount : Nat) (r : Row) : Row :=
  { r with
    status := .processing
    check := MessageStatus.processing_ne_acked
    retryCount := retryCount
    claimID := some claimID
    visibilityTimeout := some (now + vis) }

def defer (now : Time) (delay : Duration) (retryCount : Nat) (r : Row) : Row :=
  { r with
    status := .pending
    check := MessageStatus.pending_ne_acked
    claimID := none
    retryCount := retryCount
    visibilityTimeout := none
    availableAt := now + delay }

def complete (now : Time) (r : Row) : Row :=
  { r with status := .completed, check := MessageStatus.completed_ne_acked, processedAt := some now }

def extend (now : Time) (d : Duration) (r : Row) : Row :=
  { r with visibilityTimeout := some (now + d) }

def retry (now : Time) (delay : Duration) (errorMsg : Bytes) (r : Row) : Row :=
  { r with
    status := .pending
    check := MessageStatus.pending_ne_acked
    claimID := none
    retryCount := r.retryCount + 1
    visibilityTimeout := none
    availableAt := now + delay
    errorMessage := some errorMsg }

theorem id_claim (now : Time) (vis : Duration) (claimID : UUID) (n : Nat) (r : Row) :
    (r.claim now vis claimID n).id = r.id := rfl
theorem id_defer (now : Time) (delay : Duration) (n : Nat) (r : Row) :
    (r.defer now delay n).id = r.id := rfl
theorem id_complete (now : Time) (r : Row) : (r.complete now).id = r.id := rfl
theorem id_extend (now : Time) (d : Duration) (r : Row) : (r.extend now d).id = r.id := rfl
theorem id_retry (now : Time) (delay : Duration) (errorMsg : Bytes) (r : Row) :
    (r.retry now delay errorMsg).id = r.id := rfl

end Row

/-- `channelMaxRetries`: the row's own cap, or the configured default for a NULL -/
def channelMaxRetries (defaultMax : Nat) (maxRetries : Option Nat) : Nat :=
  maxRetries.getD defaultMax

def Row.cap (q : Queue) (r : Row) : Nat := channelMaxRetries q.defaultMaxRetries r.maxRetries

/-! ## publish -/

/-- a row as `publishToChannel` inserts it: the other columns take their defaults -/
def newRow (env : Env) (maxRetries : Nat) (m : PublishMessage) : Row :=
  { id := m.id
    payload := m.payload
    createdAt := env.now
    status := .pending
    check := MessageStatus.pending_ne_acked
    retryCount := 0
    maxRetries := some maxRetries
    visibilityTimeout := none
    availableAt := env.now
    claimID := none
    processedAt := none
    errorMessage := none
    metadata := m.metadata }

def publishToChannel (q : Queue) (env : Env) (m : PublishMessage) (s : State) :
    Except QueueError State :=
  if (s.msgs.find? m.id).isSome then .error .duplicateMessageID
  else .ok { s with msgs := s.msgs.insertNew (newRow env q.resolveMaxRetries m) }

/-- all or nothing: one duplicate id, also inside the batch, rolls the whole insert back -/
def publishBatchToChannel (q : Queue) (env : Env) (ms : List PublishMessage) (s : State) :
    Except QueueError State :=
  match validateBatchSize ms.length with
  | .error e => .error e
  | .ok () =>
    let msgs := s.msgs.insertAll (ms.map (newRow env q.resolveMaxRetries))
    if msgs.rows.length < s.msgs.rows.length + ms.length then .error .duplicateMessageID
    else .ok { s with msgs := msgs }

/-! ## dead-lettering -/

/-- `INSERT` into the dead-letter table (one row per message, the ids drawn one after another),
then `DELETE` of the messages -/
def batchMoveToDLQ (q : Queue) (env : Env) (messages : List DLQMessage) (errorMsg : Bytes)
    (s : State) : State :=
  { s with
    msgs := s.msgs.delete fun r => messages.any fun m => decide (m.id = r.id)
    dlq := s.dlq ++ dlqRows q.gen s.seq env.now none (truncateErrorMsg errorMsg) messages
    seq := s.seq + messages.length }

def moveToDLQ (q : Queue) (env : Env) (messageID : UUID) (errorMsg payload : Bytes)
    (retryCount : Nat) (metadata : Option Bytes) (s : State) : State :=
  batchMoveToDLQ q env [⟨messageID, payload, retryCount, metadata⟩] errorMsg s

/-! ## consume -/

def pendingProbe (env : Env) (s : State) : Option Row :=
  (s.msgs.select
    (fun r => decide (r.status = .pending) && decide (r.availableAt ≤ env.now)
      && env.withinTTL r.createdAt)
    (fun a b => Earlier (a.availableAt, a.id) (b.availableAt, b.id))).head?

/-- the rows this probe orders all have a visibility timeout -/
def reclaimProbe (env : Env) (s : State) : Option Row :=
  (s.msgs.select
    (fun r => r.timedOut env.now && env.withinTTL r.createdAt)
    (fun a b => Earlier (a.visibilityTimeout.getD 0, a.id)
      (b.visibilityTimeout.getD 0, b.id))).head?

def deferReclaimedChannelMessage (env : Env) (messageID : UUID) (retryCount : Nat)
    (delay : Duration) (s : State) : State :=
  { s with
    msgs := s.msgs.update (fun r => decide (r.id = messageID))
      (Row.defer env.now delay retryCount) (Row.id_defer env.now delay retryCount) }

def reclaimChannelAttempt (q : Queue) (env : Env) (row : Row) (s : State) :
    Except QueueError (Reclaim × State) :=
  match row.status with
  | .pending => .ok (.deliver row.retryCount, s)
  | .completed | .acked => .error .unexpectedMessageStatus
  | .processing =>
    let retryCount := row.retryCount + 1
    if retryCount > row.cap q then
      .ok (.skipped, moveToDLQ q env row.id errReasonVisibilityTimeout row.payload retryCount
        row.metadata s)
    else if env.backoffConfigured then
      .ok (.skipped, deferReclaimedChannelMessage env row.id retryCount
        (env.computeRetryDelay row.id retryCount 0) s)
    else .ok (.deliver retryCount, s)

def claimChannelMessage (q : Queue) (env : Env) (vis : Duration) (row : Row) (retryCount : Nat)
    (s : State) : Option Message × State :=
  let claimID := q.gen.draw s.seq
  (some
    { id := row.id
      claimID := claimID
      payload := row.payload
      createdAt := row.createdAt
      status := .processing
      retryCount := retryCount
      maxRetries := row.cap q
      metadata := row.metadata
      processedAt := row.processedAt
      errorMessage := row.errorMessage
      visibilityTimeout := some (env.now + vis)
      receipt := ⟨row.id, claimID, q.name, some .channel, ""⟩ },
   { s with
     msgs := s.msgs.update (fun r => decide (r.id = row.id))
       (Row.claim env.now vis claimID retryCount) (Row.id_claim env.now vis claimID retryCount)
     seq := s.seq + 1 })

/-- the loop of `fetchPendingChannelMessage`; the first argument is the number of skips left -/
def fetchPendingChannelMessage (q : Queue) (env : Env) (vis : Duration) :
    Nat → State → Except QueueError (Option Message × State)
  | 0, s => .ok (none, s)
  | skips + 1, s =>
    match pendingProbe env s with
    | some row => .ok (claimChannelMessage q env vis row row.retryCount s)
    | none =>
      match reclaimProbe env s with
      | none => .ok (none, s)
      | some row =>
        match reclaimChannelAttempt q env row s with
        | .error e => .error e
        | .ok (.skipped, s') => fetchPendingChannelMessage q env vis skips s'
        | .ok (.deliver retryCount, s') => .ok (claimChannelMessage q env vis row retryCount s')

def consumeFromChannel (q : Queue) (env : Env) (vis : Duration) (s : State) :
    Except QueueError (Option Message × State) :=
  match validateVisibilityTimeout vis with
  | .error e => .error e
  | .ok () =>
    if env.paused then .error .queuePaused
    else fetchPendingChannelMessage q env vis maxConsumeReclaimDefers s

/-! ## acknowledge one receipt -/

def claimState (s : State) (messageID : UUID) : Option (MessageStatus × Option UUID) :=
  (s.msgs.find? messageID).map fun r => (r.status, r.claimID)

def classifyChannelAckMiss (r : Receipt) (s : State) : QueueError :=
  classifyClaimState (claimState s r.messageID) r.claimID

/-- a fenced `UPDATE`: whether it matched a row, and the tables after it -/
def updateUnderClaim (f : Row → Row) (hf : ∀ r, (f r).id = r.id) (r : Receipt) (s : State) :
    Bool × State :=
  (s.msgs.rows.any fun row => row.underClaim r.messageID r.claimID,
   { s with msgs := s.msgs.update (fun row => row.underClaim r.messageID r.claimID) f hf })

/-- the first statement of `ackChannel` -/
def ackUpdate (env : Env) (r : Receipt) (s : State) : Bool × State :=
  updateUnderClaim (Row.complete env.now) (Row.id_complete env.now) r s

/-- the fenced `UPDATE`, then on zero rows the classifying `SELECT` -/
def ackChannel (env : Env) (r : Receipt) (s : State) : Except QueueError State :=
  let (matched, s') := ackUpdate env r s
  if matched then .ok s' else .error (classifyChannelAckMiss r s')

def extendChannelVisibility (env : Env) (r : Receipt) (d : Duration) (s : State) :
    Except QueueError State :=
  match validateVisibilityTimeout d with
  | .error e => .error e
  | .ok () =>
    let (matched, s') := updateUnderClaim (Row.extend env.now d) (Row.id_extend env.now d) r s
    if matched then .ok s' else .error (classifyChannelAckMiss r s')

def getProcessingMessageState (r : Receipt) (s : State) : Except QueueError Row :=
  match s.msgs.rows.find? fun row => row.underClaim r.messageID r.claimID with
  | some row => .ok row
  | none => .error (classifyChannelAckMiss r s)

def retryMessage (env : Env) (messageID : UUID) (errorMsg : Bytes) (delay : Duration)
    (s : State) : State :=
  { s with
    msgs := s.msgs.update (fun r => decide (r.id = messageID))
      (Row.retry env.now delay errorMsg) (Row.id_retry env.now delay errorMsg) }

def handleNack (q : Queue) (env : Env) (messageID : UUID) (errorMsg : Bytes) (state : Row)
    (retryDelay : Duration) (s : State) : State :=
  if state.retryCount + 1 > state.cap q then
    moveToDLQ q env messageID errorMsg state.payload (state.retryCount + 1) state.metadata s
  else
    retryMessage env messageID errorMsg
      (env.computeRetryDelay messageID (state.retryCount + 1) retryDelay) s

def nackChannelImpl (q : Queue) (env : Env) (r : Receipt) (errorMsg : Bytes)
    (retryDelay : Duration) (s : State) : Except QueueError State :=
  match getProcessingMessageState r s with
  | .error e => .error e
  | .ok state => .ok (handleNack q env r.messageID (truncateErrorMsg errorMsg) state retryDelay s)

/-! ## acknowledge one group of receipts -/

def matching (rs : List Receipt) (row : Row) : List Receipt :=
  rs.filter fun r => row.underClaim r.messageID r.claimID

def hit (rs : List Receipt) (row : Row) : Bool := !(matching rs row).isEmpty

/-- the tables after the `UPDATE` of `ackChannelBatch` -/
def ackAll (env : Env) (rs : List Receipt) (s : State) : State :=
  { s with msgs := s.msgs.update (hit rs) (Row.complete env.now) (Row.id_complete env.now) }

def classifyChannelBatchMisses (misses : List Receipt) (s : State) : List FailedReceipt :=
  misses.map fun r => ⟨r, classifyClaimState (claimState s r.messageID) r.claimID⟩

/-- `UPDATE .. FROM unnest .. RETURNING`, then the misses are classified on the new tables -/
def ackChannelBatch (env : Env) (rs : List Receipt) (s : State) :
    Except QueueError (BatchResult × State) :=
  match validateBatchSize rs.length with
  | .error e => .error e
  | .ok () =>
    let matched := s.msgs.rows.flatMap fun row =>
      (matching rs row).map fun r => (r.messageID, r.claimID)
    let s' := ackAll env rs s
    .ok (finishBatch rs matched fun misses => classifyChannelBatchMisses misses s', s')

/-- the join yields a row once per receipt that matches it -/
def fetchBatchMessageStates (rs : List Receipt) (s : State) : List Row :=
  (s.msgs.select (hit rs) (fun a b => a.id ≤ b.id)).flatMap
    fun row => (matching rs row).map fun _ => row

/-- each message's own delay; a message of the list occurs in it once per matching receipt,
with the same delay -/
def batchRetryMessages (env : Env) (retries : List (UUID × Duration)) (errorMsg : Bytes)
    (s : State) : State :=
  { s with
    msgs := s.msgs.update (fun row => (retries.lookup row.id).isSome)
      (fun row => row.retry env.now ((retries.lookup row.id).getD 0) errorMsg)
      (fun row => Row.id_retry env.now _ errorMsg row) }

def processNackBatch (q : Queue) (env : Env) (states : List Row) (errorMsg : Bytes)
    (retryDelay : Duration) (s : State) : State :=
  let exhausted := fun row : Row => decide (row.retryCount + 1 > row.cap q)
  let retries := (states.filter fun row => !exhausted row).map fun row =>
    (row.id, env.computeRetryDelay row.id (row.retryCount + 1) retryDelay)
  let dlqMessages := (states.filter exhausted).map fun row =>
    (⟨row.id, row.payload, row.retryCount + 1, row.metadata⟩ : DLQMessage)
  batchMoveToDLQ q env dlqMessages errorMsg (batchRetryMessages env retries errorMsg s)

def nackChannelBatch (q : Queue) (env : Env) (rs : List Receipt) (errorMsg : Bytes)
    (retryDelay : Duration) (s : State) : Except QueueError (BatchResult × State) :=
  match validateBatchSize rs.length with
  | .error e => .error e
  | .ok () =>
    let states := fetchBatchMessageStates rs s
    let s' := processNackBatch q env states (truncateErrorMsg errorMsg) retryDelay s
    let matched := states.filterMap fun row => row.claimID.map fun c => (row.id, c)
    .ok (finishBatch rs matched fun misses => classifyChannelBatchMisses misses s', s')

/-! ## what a call that succeeds has passed and what it commits -/

section
variable {q : Queue} {env : Env} {s s' : State} {r : Receipt} {rs : List Receipt}

theorem publishToChannel_ok {m : PublishMessage} (h : publishToChannel q env m s = .ok s') :
    s.msgs.find? m.id = none ∧
      s' = { s with msgs := s.msgs.insertNew (newRow env q.resolveMaxRetries m) } := by
  unfold publishToChannel at h
  split at h
  · cases h
  · rename_i hnone
    exact ⟨Option.not_isSome_iff_eq_none.mp hnone, (Except.ok.inj h).symm⟩

theorem publishBatchToChannel_ok {ms : List PublishMessage}
    (h : publishBatchToChannel q env ms s = .ok s') :
    s.msgs.rows.length + ms.length ≤
        (s.msgs.insertAll (ms.map (newRow env q.resolveMaxRetries))).rows.length ∧
      s' = { s with msgs := s.msgs.insertAll (ms.map (newRow env q.resolveMaxRetries)) } := by
  unfold publishBatchToChannel at h
  split at h
  · cases h
  · dsimp only at h
    split at h
    · cases h
    · rename_i hlen
      exact ⟨Nat.not_lt.mp hlen, (Except.ok.inj h).symm⟩

theorem consumeFromChannel_ok {vis : Duration} {m : Option Message}
    (h : consumeFromChannel q env vis s = .ok (m, s')) :
    fetchPendingChannelMessage q env vis maxConsumeReclaimDefers s = .ok (m, s') := by
  unfold consumeFromChannel at h
  split at h
  · cases h
  · split at h
    · cases h
    · exact h

theorem ackChannel_ok (h : ackChannel env r s = .ok s') : s' = (ackUpdate env r s).2 := by
  unfold ackChannel at h
  dsimp only at h
  split at h
  · exact (Except.ok.inj h).symm
  · cases h

theorem extendChannelVisibility_ok {d : Duration} (h : extendChannelVisibility env r d s = .ok s') :
    validateVisibilityTimeout d = .ok () ∧
      s' = (updateUnderClaim (Row.extend env.now d) (Row.id_extend env.now d) r s).2 := by
  unfold extendChannelVisibility at h
  split at h
  · cases h
  · rename_i hd
    dsimp only at h
    split at h
    · exact ⟨hd, (Except.ok.inj h).symm⟩
    · cases h

theorem nackChannelImpl_ok {errorMsg : Bytes} {delay : Duration}
    (h : nackChannelImpl q env r errorMsg delay s = .ok s') :
    ∃ state, s' = handleNack q env r.messageID (truncateErrorMsg errorMsg) state delay s := by
  unfold nackChannelImpl at h
  split at h
  · cases h
  · exact ⟨_, (Except.ok.inj h).symm⟩

theorem ackChannelBatch_ok {res : BatchResult} (h : ackChannelBatch env rs s = .ok (res, s')) :
    validateBatchSize rs.length = .ok () ∧ s' = ackAll env rs s := by
  unfold ackChannelBatch at h
  split at h
  · cases h
  · rename_i hsize
    exact ⟨hsize, (Prod.mk.inj (Except.ok.inj h)).2.symm⟩

theorem nackChannelBatch_ok {errorMsg : Bytes} {delay : Duration} {res : BatchResult}
    (h : nackChannelBatch q env rs errorMsg delay s = .ok (res, s')) :
    validateBatchSize rs.length = .ok () ∧
      s' = processNackBatch q env (fetchBatchMessageStates rs s) (truncateErrorMsg errorMsg) delay s := by
  unfold nackChannelBatch at h
  split at h
  · cases h
  · rename_i hsize
    exact ⟨hsize, (Prod.mk.inj (Except.ok.inj h)).2.symm⟩

end
end PgQueue.Channel
