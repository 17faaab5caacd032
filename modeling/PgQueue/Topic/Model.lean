import PgQueue.Types
import PgQueue.Relational.Linked

/-!
# The topic: subscribe, publish, consume, acknowledge

A topic keeps each message once and one subscription row per message and subscriber; the rows of
a message go with it.  The delivery state (status, claim, retries) is on the subscription rows.
Every function below is the body of one transaction of the source, under the source's name.

* `registerSubscriber`, `unregisterSubscriber`   the registry; to unsubscribe is soft;
* `publishToPubSub`, `publishBatchToPubSub`      a message and its fan-out;
* `consumeFromTopic`                             one subscriber's two probes, reclaim, claim;
* `ackTopic`, `extendTopicVisibility`, `nackTopicImpl`   fenced on the receipt's claim;
* `ackTopicBatch`, `nackTopicBatch`              the set-based versions of one receipt group.
-/

namespace PgQueue.Topic
open Relational

structure MessageRow where
  id : UUID
  payload : Bytes
  createdAt : Time
  metadata : Option Bytes
deriving DecidableEq, Repr

/-- a row of the subscription table; `check` is the table's constraint on the status column -/
structure Sub where
  id : UUID
  messageID : UUID
  subscriberID : String
  status : MessageStatus
  check : status ≠ .completed
  ackedAt : Option Time
  visibilityTimeout : Option Time
  availableAt : Time
  claimID : Option UUID
  retryCount : Nat
  errorMessage : Option Bytes
deriving DecidableEq, Repr

def Sub.key (r : Sub) : UUID × String := (r.messageID, r.subscriberID)

structure Subscriber where
  subscriberID : String
  createdAt : Time
  active : Bool
deriving DecidableEq, Repr

structure State where
  tables : Linked MessageRow UUID Sub (UUID × String) MessageRow.id Sub.key Prod.fst
  subscribers : Table Subscriber String Subscriber.subscriberID
  dlq : List DLQRow
  replayLog : List ReplayLogRow
  seq : Nat

abbrev State.msgs (s : State) : Table MessageRow UUID MessageRow.id := s.tables.parents
abbrev State.subs (s : State) : Table Sub (UUID × String) Sub.key := s.tables.children

/-- the subscriptions that are in the second state and were not in the first -/
def State.created (s s' : State) : List (UUID × String) :=
  (s'.subs.rows.filter fun r => (s.subs.find? r.key).isNone).map Sub.key

def State.init : State := ⟨Linked.empty, Table.empty, [], [], 0⟩

/-! ## the columns each statement sets -/

namespace Sub

def underClaim (r : Sub) (messageID : UUID) (subscriberID : String) (claimID : UUID) : Bool :=
  decide (r.messageID = messageID) && decide (r.subscriberID = subscriberID)
    && decide (r.claimID = some claimID) && decide (r.status = .processing)

/-- being processed, with the visibility timeout in the past; a NULL timeout is not -/
def timedOut (now : Time) (r : Sub) : Bool :=
  decide (r.status = .processing) && r.visibilityTimeout.any fun t => decide (t < now)

def claim (now : Time) (vis : Duration) (claimID : UUID) (retryCount : Nat) (r : Sub) : Sub :=
  { r with
    status := .processing
    check := MessageStatus.processing_ne_completed
    retryCount := retryCount
    claimID := some claimID
    visibilityTimeout := some (now + vis) }

def defer (now : Time) (delay : Duration) (retryCount : Nat) (r : Sub) : Sub :=
  { r with
    status := .pending
    check := MessageStatus.pending_ne_completed
    claimID := none
    retryCount := retryCount
    visibilityTimeout := none
    availableAt := now + delay }

def ack (now : Time) (r : Sub) : Sub :=
  { r with status := .acked, check := MessageStatus.acked_ne_completed, ackedAt := some now }

def extend (now : Time) (d : Duration) (r : Sub) : Sub :=
  { r with visibilityTimeout := some (now + d) }

def retry (now : Time) (delay : Duration) (errorMsg : Bytes) (r : Sub) : Sub :=
  { r with
    status := .pending
    check := MessageStatus.pending_ne_completed
    claimID := none
    retryCount := r.retryCount + 1
    visibilityTimeout := none
    availableAt := now + delay
    errorMessage := some errorMsg }

theorem key_claim (now : Time) (vis : Duration) (claimID : UUID) (n : Nat) (r : Sub) :
    (r.claim now vis claimID n).key = r.key := rfl
theorem key_defer (now : Time) (delay : Duration) (n : Nat) (r : Sub) :
    (r.defer now delay n).key = r.key := rfl
theorem key_ack (now : Time) (r : Sub) : (r.ack now).key = r.key := rfl
theorem key_extend (now : Time) (d : Duration) (r : Sub) : (r.extend now d).key = r.key := rfl
theorem key_retry (now : Time) (delay : Duration) (errorMsg : Bytes) (r : Sub) :
    (r.retry now delay errorMsg).key = r.key := rfl

end Sub

/-! ## the subscriber registry -/

def Subscriber.setActive (active : Bool) (x : Subscriber) : Subscriber := { x with active := active }

theorem Subscriber.id_setActive (active : Bool) (x : Subscriber) :
    (x.setActive active).subscriberID = x.subscriberID := rfl

/-- an upsert: a subscriber that comes back keeps its place -/
def registerSubscriber (env : Env) (subscriberID : String) (s : State) : Except QueueError State :=
  match validateSubscriberID subscriberID with
  | .error e => .error e
  | .ok () =>
    .ok { s with
      subscribers := (s.subscribers.insertNew ⟨subscriberID, env.now, true⟩).update
        (fun x => decide (x.subscriberID = subscriberID)) (Subscriber.setActive true)
        (Subscriber.id_setActive true) }

def unregisterSubscriber (subscriberID : String) (s : State) : Except QueueError State :=
  match validateSubscriberID subscriberID with
  | .error e => .error e
  | .ok () =>
    let p := fun x : Subscriber => decide (x.subscriberID = subscriberID) && x.active
    if s.subscribers.rows.any p then
      .ok { s with
        subscribers := s.subscribers.update p (Subscriber.setActive false)
          (Subscriber.id_setActive false) }
    else .error .subscriberNotFound

/-- a cap of `0` is no cap -/
def getActiveSubscribers (env : Env) (s : State) : Except QueueError (List String) :=
  let active := (s.subscribers.select Subscriber.active (fun a b => a.createdAt ≤ b.createdAt)).map
    Subscriber.subscriberID
  if env.maxSubscribersPerTopic > 0 ∧ active.length > env.maxSubscribersPerTopic then
    .error .tooManySubscribers
  else .ok active

/-! ## publish -/

/-- a subscription row as it is inserted: the other columns take their defaults -/
def newSub (id : UUID) (now : Time) (record : UUID × String) : Sub :=
  { id := id
    messageID := record.1
    subscriberID := record.2
    status := .pending
    check := MessageStatus.pending_ne_completed
    ackedAt := none
    visibilityTimeout := none
    availableAt := now
    claimID := none
    retryCount := 0
    errorMessage := none }

/-- the rows one `INSERT` into the subscription table offers, the ids drawn one after another -/
def subRows (gen : Generator) (seq : Nat) (now : Time) : List (UUID × String) → List Sub
  | [] => []
  | record :: records => newSub (gen.draw seq) now record :: subRows gen (seq + 1) now records

/-- `ON CONFLICT (message_id, subscriber_id) DO NOTHING`; the chunks are not modelled -/
def insertSubscriptionRecords (q : Queue) (env : Env) (records : List (UUID × String))
    (s : State) : Except QueueError State :=
  match s.tables.insertChildren (subRows q.gen s.seq env.now records) with
  | none => .error .foreignKeyViolation
  | some tables => .ok { s with tables := tables, seq := s.seq + records.length }

def newMessage (env : Env) (m : PublishMessage) : MessageRow := ⟨m.id, m.payload, env.now, m.metadata⟩

/-- the fan-out of some messages to the subscribers that are active now -/
def batchCreateSubscriptionRecords (q : Queue) (env : Env) (ids : List UUID) (s : State) :
    Except QueueError State :=
  match getActiveSubscribers env s with
  | .error e => .error e
  | .ok subscribers =>
    insertSubscriptionRecords q env
      (ids.flatMap fun id => subscribers.map fun subscriberID => (id, subscriberID)) s

def createSubscriptionRecords (q : Queue) (env : Env) (messageID : UUID) (s : State) :
    Except QueueError State :=
  batchCreateSubscriptionRecords q env [messageID] s

def publishToPubSub (q : Queue) (env : Env) (m : PublishMessage) (s : State) :
    Except QueueError State :=
  if (s.msgs.find? m.id).isSome then .error .duplicateMessageID
  else
    createSubscriptionRecords q env m.id
      { s with tables := s.tables.insertParents [newMessage env m] }

/-- all or nothing: one duplicate id, also inside the batch, rolls the whole insert back; an
empty batch does not look at the topic -/
def publishBatchToPubSub (q : Queue) (env : Env) (ms : List PublishMessage) (s : State) :
    Except QueueError State :=
  if ms = [] then .ok s
  else
    match validateBatchSize ms.length with
    | .error e => .error e
    | .ok () =>
      let tables := s.tables.insertParents (ms.map (newMessage env))
      if tables.parents.rows.length < s.msgs.rows.length + ms.length then
        .error .duplicateMessageID
      else
        batchCreateSubscriptionRecords q env (ms.map PublishMessage.id) { s with tables := tables }

/-! ## dead-lettering -/

/-- `INSERT` into the dead-letter table with the subscriber that failed, then `DELETE` of that
subscriber's rows -/
def batchMoveSubToDLQ (q : Queue) (env : Env) (subscriberID : String) (messages : List DLQMessage)
    (errorMsg : Bytes) (s : State) : State :=
  { s with
    tables := s.tables.deleteChildren fun r =>
      (messages.any fun m => decide (m.id = r.messageID)) && decide (r.subscriberID = subscriberID)
    dlq := s.dlq ++
      dlqRows q.gen s.seq env.now (some subscriberID) (truncateErrorMsg errorMsg) messages
    seq := s.seq + messages.length }

structure SubState where
  retryCount : Nat
  payload : Bytes
  metadata : Option Bytes
deriving DecidableEq, Repr

/-- counts the failed attempt itself, unlike the channel's `moveToDLQ` -/
def moveSubToDLQ (q : Queue) (env : Env) (messageID : UUID) (subscriberID : String)
    (errorMsg : Bytes) (state : SubState) (s : State) : State :=
  batchMoveSubToDLQ q env subscriberID
    [⟨messageID, state.payload, state.retryCount + 1, state.metadata⟩] errorMsg s

/-! ## consume -/

structure Candidate where
  sub : Sub
  msg : MessageRow
deriving DecidableEq, Repr

def State.candidate (s : State) (r : Sub) : Option Candidate := (s.tables.parentOf r).map (⟨r, ·⟩)

def pendingProbe (env : Env) (subscriberID : String) (s : State) : Option Candidate :=
  (s.subs.select
    (fun r => decide (r.subscriberID = subscriberID) && decide (r.status = .pending)
      && decide (r.availableAt ≤ env.now)
      && s.tables.parentIs (fun m => env.withinTTL m.createdAt) r)
    (fun a b => Earlier (a.availableAt, a.messageID) (b.availableAt, b.messageID))).head?.bind
      s.candidate

def reclaimProbe (env : Env) (subscriberID : String) (s : State) : Option Candidate :=
  (s.subs.select
    (fun r => decide (r.subscriberID = subscriberID) && r.timedOut env.now
      && s.tables.parentIs (fun m => env.withinTTL m.createdAt) r)
    (fun a b => Earlier (a.visibilityTimeout.getD 0, a.messageID)
      (b.visibilityTimeout.getD 0, b.messageID))).head?.bind s.candidate

def deferReclaimedSubscription (env : Env) (subID : UUID) (retryCount : Nat) (delay : Duration)
    (s : State) : State :=
  { s with
    tables := s.tables.updateChildren (fun r => decide (r.id = subID))
      (Sub.defer env.now delay retryCount) (Sub.key_defer env.now delay retryCount) }

def reclaimTopicAttempt (q : Queue) (env : Env) (subscriberID : String) (row : Candidate)
    (s : State) : Except QueueError (Reclaim × State) :=
  match row.sub.status with
  | .pending => .ok (.deliver row.sub.retryCount, s)
  | .completed | .acked => .error .unexpectedMessageStatus
  | .processing =>
    if row.sub.retryCount + 1 > q.resolveMaxRetries then
      .ok (.skipped, moveSubToDLQ q env row.sub.messageID subscriberID errReasonVisibilityTimeout
        ⟨row.sub.retryCount, row.msg.payload, row.msg.metadata⟩ s)
    else
      let retryCount := row.sub.retryCount + 1
      if env.backoffConfigured then
        .ok (.skipped, deferReclaimedSubscription env row.sub.id retryCount
          (env.computeRetryDelay row.sub.messageID retryCount 0) s)
      else .ok (.deliver retryCount, s)

def claimTopicSubscription (q : Queue) (env : Env) (subscriberID : String) (vis : Duration)
    (row : Candidate) (retryCount : Nat) (s : State) : Option Message × State :=
  let claimID := q.gen.draw s.seq
  (some
    { id := row.sub.messageID
      claimID := claimID
      payload := row.msg.payload
      createdAt := row.msg.createdAt
      status := .processing
      retryCount := retryCount
      maxRetries := q.resolveMaxRetries
      metadata := row.msg.metadata
      processedAt := none
      errorMessage := row.sub.errorMessage
      visibilityTimeout := some (env.now + vis)
      receipt := ⟨row.sub.messageID, claimID, q.name, some .pubsub, subscriberID⟩ },
   { s with
     tables := s.tables.updateChildren (fun r => decide (r.id = row.sub.id))
       (Sub.claim env.now vis claimID retryCount) (Sub.key_claim env.now vis claimID retryCount)
     seq := s.seq + 1 })

/-- the loop of `fetchPendingTopicMessage`; `Nat` is the number of skips left -/
def fetchPendingTopicMessage (q : Queue) (env : Env) (subscriberID : String) (vis : Duration) :
    Nat → State → Except QueueError (Option Message × State)
  | 0, s => .ok (none, s)
  | skips + 1, s =>
    match pendingProbe env subscriberID s with
    | some row => .ok (claimTopicSubscription q env subscriberID vis row row.sub.retryCount s)
    | none =>
      match reclaimProbe env subscriberID s with
      | none => .ok (none, s)
      | some row =>
        match reclaimTopicAttempt q env subscriberID row s with
        | .error e => .error e
        | .ok (.skipped, s') => fetchPendingTopicMessage q env subscriberID vis skips s'
        | .ok (.deliver retryCount, s') =>
          .ok (claimTopicSubscription q env subscriberID vis row retryCount s')

def consumeFromTopic (q : Queue) (env : Env) (subscriberID : String) (vis : Duration) (s : State) :
    Except QueueError (Option Message × State) :=
  match validateVisibilityTimeout vis with
  | .error e => .error e
  | .ok () =>
    match validateSubscriberID subscriberID with
    | .error e => .error e
    | .ok () =>
      if env.paused then .error .queuePaused
      else fetchPendingTopicMessage q env subscriberID vis maxConsumeReclaimDefers s

/-! ## acknowledge one receipt -/

def claimState (s : State) (messageID : UUID) (subscriberID : String) :
    Option (MessageStatus × Option UUID) :=
  (s.subs.find? (messageID, subscriberID)).map fun r => (r.status, r.claimID)

def classifyTopicAckMiss (subscriberID : String) (r : Receipt) (s : State) : QueueError :=
  classifyClaimState (claimState s r.messageID subscriberID) r.claimID

/-- a fenced `UPDATE`: whether it matched a row, and the tables after it -/
def updateUnderClaim (f : Sub → Sub) (hf : ∀ r, (f r).key = r.key) (subscriberID : String)
    (r : Receipt) (s : State) : Bool × State :=
  (s.subs.rows.any fun row => row.underClaim r.messageID subscriberID r.claimID,
   { s with
     tables := s.tables.updateChildren
       (fun row => row.underClaim r.messageID subscriberID r.claimID) f hf })

/-- the fenced `UPDATE`, then on zero rows the classifying `SELECT` -/
def ackTopic (env : Env) (subscriberID : String) (r : Receipt) (s : State) :
    Except QueueError State :=
  match validateSubscriberID subscriberID with
  | .error e => .error e
  | .ok () =>
    let (matched, s') := updateUnderClaim (Sub.ack env.now) (Sub.key_ack env.now) subscriberID r s
    if matched then .ok s' else .error (classifyTopicAckMiss subscriberID r s')

/-- the tables after an ack that passed the check of its subscriber -/
def ackUpdate (env : Env) (sub : String) (r : Receipt) (s : State) : State :=
  (updateUnderClaim (Sub.ack env.now) (Sub.key_ack env.now) sub r s).2

def extendTopicVisibility (env : Env) (subscriberID : String) (r : Receipt) (d : Duration)
    (s : State) : Except QueueError State :=
  match validateVisibilityTimeout d with
  | .error e => .error e
  | .ok () =>
    match validateSubscriberID subscriberID with
    | .error e => .error e
    | .ok () =>
      let (matched, s') :=
        updateUnderClaim (Sub.extend env.now d) (Sub.key_extend env.now d) subscriberID r s
      if matched then .ok s' else .error (classifyTopicAckMiss subscriberID r s')

def getProcessingSubState (r : Receipt) (subscriberID : String) (s : State) :
    Except QueueError SubState :=
  let row := s.subs.rows.find? fun row => row.underClaim r.messageID subscriberID r.claimID
  match row.bind s.candidate with
  | some c => .ok ⟨c.sub.retryCount, c.msg.payload, c.msg.metadata⟩
  | none => .error (classifyTopicAckMiss subscriberID r s)

def retrySubscription (env : Env) (messageID : UUID) (subscriberID : String) (errorMsg : Bytes)
    (delay : Duration) (s : State) : State :=
  { s with
    tables := s.tables.updateChildren (fun r => decide (r.key = (messageID, subscriberID)))
      (Sub.retry env.now delay errorMsg) (Sub.key_retry env.now delay errorMsg) }

/-- the body of `nackTopicImpl` once the row is found -/
def nackFound (q : Queue) (env : Env) (subscriberID : String) (r : Receipt) (errorMsg : Bytes)
    (retryDelay : Duration) (state : SubState) (s : State) : State :=
  if state.retryCount + 1 > q.resolveMaxRetries then
    moveSubToDLQ q env r.messageID subscriberID errorMsg state s
  else
    retrySubscription env r.messageID subscriberID errorMsg
      (env.computeRetryDelay r.messageID (state.retryCount + 1) retryDelay) s

def nackTopicImpl (q : Queue) (env : Env) (subscriberID : String) (r : Receipt) (errorMsg : Bytes)
    (retryDelay : Duration) (s : State) : Except QueueError State :=
  match validateSubscriberID subscriberID with
  | .error e => .error e
  | .ok () =>
    match getProcessingSubState r subscriberID s with
    | .error e => .error e
    | .ok state =>
      .ok (nackFound q env subscriberID r (truncateErrorMsg errorMsg) retryDelay state s)

/-! ## acknowledge one group of receipts -/

def matching (subscriberID : String) (rs : List Receipt) (row : Sub) : List Receipt :=
  rs.filter fun r => row.underClaim r.messageID subscriberID r.claimID

def hit (subscriberID : String) (rs : List Receipt) (row : Sub) : Bool :=
  !(matching subscriberID rs row).isEmpty

/-- the tables after the `UPDATE` of `ackTopicBatch` -/
def ackAll (env : Env) (subscriberID : String) (rs : List Receipt) (s : State) : State :=
  { s with
    tables := s.tables.updateChildren (hit subscriberID rs) (Sub.ack env.now) (Sub.key_ack env.now) }

def classifyTopicBatchMisses (subscriberID : String) (misses : List Receipt) (s : State) :
    List FailedReceipt :=
  misses.map fun r => ⟨r, classifyClaimState (claimState s r.messageID subscriberID) r.claimID⟩

/-- `UPDATE .. FROM unnest .. RETURNING`, then the misses are classified on the new tables -/
def ackTopicBatch (env : Env) (subscriberID : String) (rs : List Receipt) (s : State) :
    Except QueueError (BatchResult × State) :=
  match validateSubscriberID subscriberID with
  | .error e => .error e
  | .ok () =>
    match validateBatchSize rs.length with
    | .error e => .error e
    | .ok () =>
      let matched := s.subs.rows.flatMap fun row =>
        (matching subscriberID rs row).map fun r => (r.messageID, r.claimID)
      let s' := ackAll env subscriberID rs s
      .ok (finishBatch rs matched fun misses => classifyTopicBatchMisses subscriberID misses s', s')

def fetchBatchSubStates (rs : List Receipt) (subscriberID : String) (s : State) : List Candidate :=
  ((s.subs.select (hit subscriberID rs) (fun a b => a.messageID ≤ b.messageID)).filterMap s.candidate).flatMap
      fun c => (matching subscriberID rs c.sub).map fun _ => c

def batchRetrySubscriptions (env : Env) (retries : List (UUID × Duration)) (subscriberID : String)
    (errorMsg : Bytes) (s : State) : State :=
  { s with
    tables := s.tables.updateChildren
      (fun row => (retries.lookup row.messageID).isSome && decide (row.subscriberID = subscriberID))
      (fun row => row.retry env.now ((retries.lookup row.messageID).getD 0) errorMsg)
      (fun row => Sub.key_retry env.now _ errorMsg row) }

def processNackTopicBatch (q : Queue) (env : Env) (subscriberID : String) (states : List Candidate)
    (errorMsg : Bytes) (retryDelay : Duration) (s : State) : State :=
  let exhausted := fun c : Candidate => decide (c.sub.retryCount + 1 > q.resolveMaxRetries)
  let retries := (states.filter fun c => !exhausted c).map fun c =>
    (c.sub.messageID, env.computeRetryDelay c.sub.messageID (c.sub.retryCount + 1) retryDelay)
  let dlqMessages := (states.filter exhausted).map fun c =>
    (⟨c.sub.messageID, c.msg.payload, c.sub.retryCount + 1, c.msg.metadata⟩ : DLQMessage)
  batchMoveSubToDLQ q env subscriberID dlqMessages errorMsg
    (batchRetrySubscriptions env retries subscriberID errorMsg s)

def nackTopicBatch (q : Queue) (env : Env) (subscriberID : String) (rs : List Receipt)
    (errorMsg : Bytes) (retryDelay : Duration) (s : State) :
    Except QueueError (BatchResult × State) :=
  match validateSubscriberID subscriberID with
  | .error e => .error e
  | .ok () =>
    match validateBatchSize rs.length with
    | .error e => .error e
    | .ok () =>
      let states := fetchBatchSubStates rs subscriberID s
      let s' := processNackTopicBatch q env subscriberID states (truncateErrorMsg errorMsg)
        retryDelay s
      let matched := states.filterMap fun c => c.sub.claimID.map fun claim => (c.sub.messageID, claim)
      .ok (finishBatch rs matched fun misses => classifyTopicBatchMisses subscriberID misses s', s')

/-! ## what a call that succeeds has passed and what it commits -/

section
variable {q : Queue} {env : Env} {s s' : State} {sub : String} {r : Receipt} {rs : List Receipt}

theorem registerSubscriber_ok (h : registerSubscriber env sub s = .ok s') :
    validateSubscriberID sub = .ok () ∧
      s' = { s with
        subscribers := (s.subscribers.insertNew ⟨sub, env.now, true⟩).update
          (fun x => decide (x.subscriberID = sub)) (Subscriber.setActive true)
          (Subscriber.id_setActive true) } := by
  unfold registerSubscriber at h
  split at h
  · cases h
  · rename_i hv
    exact ⟨hv, (Except.ok.inj h).symm⟩

theorem unregisterSubscriber_ok (h : unregisterSubscriber sub s = .ok s') :
    s' = { s with
      subscribers := s.subscribers.update (fun x => decide (x.subscriberID = sub) && x.active)
        (Subscriber.setActive false) (Subscriber.id_setActive false) } := by
  unfold unregisterSubscriber at h
  split at h
  · cases h
  · dsimp only at h
    split at h
    · exact (Except.ok.inj h).symm
    · cases h

theorem consumeFromTopic_ok {vis : Duration} {m : Option Message}
    (h : consumeFromTopic q env sub vis s = .ok (m, s')) :
    validateSubscriberID sub = .ok () ∧
      fetchPendingTopicMessage q env sub vis maxConsumeReclaimDefers s = .ok (m, s') := by
  unfold consumeFromTopic at h
  split at h
  · cases h
  · split at h
    · cases h
    · rename_i hv
      split at h
      · cases h
      · exact ⟨hv, h⟩

theorem ackTopic_ok (h : ackTopic env sub r s = .ok s') :
    validateSubscriberID sub = .ok () ∧ s' = ackUpdate env sub r s := by
  unfold ackTopic at h
  split at h
  · cases h
  · rename_i hv
    dsimp only at h
    split at h
    · exact ⟨hv, (Except.ok.inj h).symm⟩
    · cases h

theorem extendTopicVisibility_ok {d : Duration} (h : extendTopicVisibility env sub r d s = .ok s') :
    validateVisibilityTimeout d = .ok () ∧ validateSubscriberID sub = .ok () ∧
      s' = (updateUnderClaim (Sub.extend env.now d) (Sub.key_extend env.now d) sub r s).2 := by
  unfold extendTopicVisibility at h
  split at h
  · cases h
  · rename_i hd
    split at h
    · cases h
    · rename_i hv
      dsimp only at h
      split at h
      · exact ⟨hd, hv, (Except.ok.inj h).symm⟩
      · cases h

theorem nackTopicImpl_ok {errorMsg : Bytes} {delay : Duration}
    (h : nackTopicImpl q env sub r errorMsg delay s = .ok s') :
    validateSubscriberID sub = .ok () ∧
      ∃ state, s' = nackFound q env sub r (truncateErrorMsg errorMsg) delay state s := by
  unfold nackTopicImpl at h
  split at h
  · cases h
  · rename_i hv
    split at h
    · cases h
    · exact ⟨hv, _, (Except.ok.inj h).symm⟩

theorem ackTopicBatch_ok {res : BatchResult} (h : ackTopicBatch env sub rs s = .ok (res, s')) :
    validateSubscriberID sub = .ok () ∧ validateBatchSize rs.length = .ok () ∧
      s' = ackAll env sub rs s := by
  unfold ackTopicBatch at h
  split at h
  · cases h
  · rename_i hv
    split at h
    · cases h
    · rename_i hsize
      exact ⟨hv, hsize, (Prod.mk.inj (Except.ok.inj h)).2.symm⟩

theorem nackTopicBatch_ok {errorMsg : Bytes} {delay : Duration} {res : BatchResult}
    (h : nackTopicBatch q env sub rs errorMsg delay s = .ok (res, s')) :
    validateSubscriberID sub = .ok () ∧ validateBatchSize rs.length = .ok () ∧
      s' = processNackTopicBatch q env sub (fetchBatchSubStates rs sub s) (truncateErrorMsg errorMsg)
        delay s := by
  unfold nackTopicBatch at h
  split at h
  · cases h
  · rename_i hv
    split at h
    · cases h
    · rename_i hsize
      exact ⟨hv, hsize, (Prod.mk.inj (Except.ok.inj h)).2.symm⟩

end
end PgQueue.Topic
