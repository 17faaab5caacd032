import Mathlib.Data.List.Sort
import Mathlib.Data.Multiset.AddSub
import PgQueue.Events

/-!
# A mailbox: what a queue is to its one consumer

The behaviour that a channel and a topic with one subscriber share, without their tables: items in
the order of publication, dead letters, and deliveries that are counted.  A caller holds the number
of a delivery where the queues hand out a claim.

* `Item`        a message on its way to the consumer;
* `Call`        what a client or the collector does, a receipt being a message id and a delivery;
* `Answer`      what the client is told;
* `State.step`, `State.run`   one call, and several;
* `State.Unburied`            no publish of a run reuses the id of a dead letter.

Nothing reads the dead letters, so they are a multiset.
-/

namespace PgQueue.Mailbox
open Lease

/-- a message on its way to its consumer; `delivery` is the number of the delivery that claimed it
last, unless it was released since -/
structure Item where
  id : UUID
  payload : Bytes
  createdAt : Time
  metadata : Option Bytes
  phase : Phase
  retryCount : Nat
  visibilityTimeout : Option Time
  availableAt : Time
  errorMessage : Option Bytes
  delivery : Option Nat
deriving DecidableEq, Repr

/-- a dead letter is a row of a dead-letter table without its own id and its subscriber -/
@[ext] structure State where
  items : List Item
  dead : Multiset DLQRow
  deliveries : Nat

/-- what a delivered message says, but for its claim and the binding of its receipt -/
structure Delivered where
  id : UUID
  payload : Bytes
  createdAt : Time
  status : MessageStatus
  retryCount : Nat
  maxRetries : Nat
  metadata : Option Bytes
  processedAt : Option Time
  errorMessage : Option Bytes
  visibilityTimeout : Option Time
deriving DecidableEq, Repr

inductive Call where
  | publish (m : PublishMessage)
  | publishBatch (ms : List PublishMessage)
  | receive (vis : Duration)
  | ack (id : UUID) (delivery : Nat)
  | nack (id : UUID) (delivery : Nat) (reason : Bytes) (delay : Duration)
  | extend (id : UUID) (delivery : Nat) (d : Duration)
  | collect

inductive Answer where
  | done
  | failed (e : QueueError)
  | received (m : Option Delivered)
deriving DecidableEq, Repr

def Call.published : Call → List UUID
  | .publish m => [m.id]
  | .publishBatch ms => ms.map PublishMessage.id
  | _ => []

/-! ## items -/

namespace Item

def fresh (now : Time) (m : PublishMessage) : Item :=
  ⟨m.id, m.payload, now, m.metadata, .pending, 0, none, now, none, none⟩

/-- the receipt names the delivery under which the item is being processed -/
def held (id : UUID) (n : Nat) (x : Item) : Bool :=
  decide (x.id = id) && decide (x.delivery = some n) && decide (x.phase = .processing)

def timedOut (now : Time) (x : Item) : Bool :=
  decide (x.phase = .processing) && x.visibilityTimeout.any fun t => decide (t < now)

def take (now : Time) (vis : Duration) (n : Nat) (retryCount : Nat) (x : Item) : Item :=
  { x with
    phase := .processing
    retryCount := retryCount
    delivery := some n
    visibilityTimeout := some (now + vis) }

/-- pending again, with one more attempt behind it -/
def release (x : Item) : Item :=
  { x with
    phase := .pending
    retryCount := x.retryCount + 1
    delivery := none
    visibilityTimeout := none }

def defer (now : Time) (delay : Duration) (x : Item) : Item :=
  { x.release with availableAt := now + delay }

def retry (now : Time) (delay : Duration) (reason : Bytes) (x : Item) : Item :=
  { x.defer now delay with errorMessage := some reason }

def finish (x : Item) : Item := { x with phase := .done }

def extend (now : Time) (d : Duration) (x : Item) : Item :=
  { x with visibilityTimeout := some (now + d) }

/-- the dead letter of an item, the failed attempt counted -/
def letter (now : Time) (reason : Bytes) (x : Item) : DLQRow :=
  ⟨UUID.nil, x.id, none, x.payload, truncateErrorMsg reason, x.retryCount + 1, now, x.metadata⟩

/-- nobody acknowledged it in time, and it has no retry left -/
def exhausted (max : Nat) (now : Time) (x : Item) : Bool :=
  x.timedOut now && decide (x.retryCount ≥ max)

def resettable (max : Nat) (now : Time) (x : Item) : Bool :=
  x.timedOut now && decide (x.retryCount < max)

end Item

/-! ## probes -/

def pendingProbe (env : Env) (items : List Item) : Option Item :=
  ((items.filter fun x => decide (x.phase = .pending) && decide (x.availableAt ≤ env.now)
      && env.withinTTL x.createdAt).insertionSort
    fun a b => Earlier (a.availableAt, a.id) (b.availableAt, b.id)).head?

def reclaimProbe (env : Env) (items : List Item) : Option Item :=
  ((items.filter fun x => x.timedOut env.now && env.withinTTL x.createdAt).insertionSort
    fun a b => Earlier (a.visibilityTimeout.getD 0, a.id) (b.visibilityTimeout.getD 0, b.id)).head?

/-! ## one call -/

namespace State

def edit (id : UUID) (f : Item → Item) (s : State) : State :=
  { s with items := s.items.map fun x => if decide (x.id = id) then f x else x }

def bury (now : Time) (reason : Bytes) (x : Item) (s : State) : State :=
  { s with
    items := s.items.filter fun y => !decide (x.id = y.id)
    dead := s.dead + {x.letter now reason} }

def Admits (ids : List UUID) (s : State) : Prop := ids.Nodup ∧ ∀ x ∈ s.items, x.id ∉ ids

instance (ids : List UUID) (s : State) : Decidable (s.Admits ids) :=
  inferInstanceAs (Decidable (ids.Nodup ∧ ∀ x ∈ s.items, x.id ∉ ids))

def publish (now : Time) (ms : List PublishMessage) (s : State) : Except QueueError State :=
  if s.Admits (ms.map PublishMessage.id) then
    .ok { s with items := s.items ++ ms.map (Item.fresh now) }
  else .error .duplicateMessageID

def publishBatch (now : Time) (ms : List PublishMessage) (s : State) : Except QueueError State :=
  match validateBatchSize ms.length with
  | .error e => .error e
  | .ok () => s.publish now ms

def deliver (max : Nat) (env : Env) (vis : Duration) (x : Item) (retryCount : Nat)
    (s : State) : Option Delivered × State :=
  (some ⟨x.id, x.payload, x.createdAt, .processing, retryCount, max, x.metadata, none, x.errorMessage,
      some (env.now + vis)⟩,
   { s.edit x.id (Item.take env.now vis s.deliveries retryCount) with
     deliveries := s.deliveries + 1 })

def fetch (max : Nat) (env : Env) (vis : Duration) : Nat → State → Option Delivered × State
  | 0, s => (none, s)
  | skips + 1, s =>
    match pendingProbe env s.items with
    | some x => s.deliver max env vis x x.retryCount
    | none =>
      match reclaimProbe env s.items with
      | none => (none, s)
      | some x =>
        if x.retryCount + 1 > max then
          fetch max env vis skips (s.bury env.now errReasonVisibilityTimeout x)
        else if env.backoffConfigured then
          fetch max env vis skips
            (s.edit x.id (Item.defer env.now (env.computeRetryDelay x.id (x.retryCount + 1) 0)))
        else s.deliver max env vis x (x.retryCount + 1)

def receive (max : Nat) (env : Env) (vis : Duration) (s : State) :
    Except QueueError (Option Delivered × State) :=
  match validateVisibilityTimeout vis with
  | .error e => .error e
  | .ok () =>
    if env.paused then .error .queuePaused else .ok (s.fetch max env vis maxConsumeReclaimDefers)

/-- why a receipt is refused; no claim goes with a delivery that has not been made -/
def refusal (id : UUID) (n : Nat) (s : State) : QueueError :=
  match s.items.find? fun x => decide (x.id = id) with
  | none => .messageNotFound
  | some x =>
    if s.deliveries ≤ n then .messageAlreadyAcked
    else if x.delivery = some n ∧ x.phase ≠ .processing then .messageAlreadyAcked
    else .claimExpired

/-- a call with a receipt that rewrites the item it holds -/
def rewrite (id : UUID) (n : Nat) (f : Item → Item) (s : State) : Except QueueError State :=
  if s.items.any (Item.held id n) then
    .ok { s with items := s.items.map fun x => if x.held id n then f x else x }
  else .error (s.refusal id n)

def ack (id : UUID) (n : Nat) (s : State) : Except QueueError State := s.rewrite id n Item.finish

def extend (now : Time) (id : UUID) (n : Nat) (d : Duration) (s : State) :
    Except QueueError State :=
  match validateVisibilityTimeout d with
  | .error e => .error e
  | .ok () => s.rewrite id n (Item.extend now d)

def nack (max : Nat) (env : Env) (id : UUID) (n : Nat) (reason : Bytes) (delay : Duration)
    (s : State) : Except QueueError State :=
  match s.items.find? (Item.held id n) with
  | none => .error (s.refusal id n)
  | some x =>
    if x.retryCount + 1 > max then .ok (s.bury env.now (truncateErrorMsg reason) x)
    else
      .ok (s.edit id (Item.retry env.now (env.computeRetryDelay id (x.retryCount + 1) delay)
        (truncateErrorMsg reason)))

def promote (max : Nat) (now : Time) (s : State) : State :=
  { s with
    items := s.items.filter fun x => !x.exhausted max now
    dead := s.dead +
      (s.items.filter (Item.exhausted max now)).map (Item.letter now errReasonVisibilityTimeout) }

def reset (max : Nat) (now : Time) (s : State) : State :=
  { s with items := s.items.map fun x => if x.resettable max now then x.release else x }

def collect (max : Nat) (now : Time) (s : State) : State := (s.promote max now).reset max now

def tell (s : State) : Except QueueError State → Answer × State
  | .ok s' => (.done, s')
  | .error e => (.failed e, s)

def step (max : Nat) (env : Env) (s : State) : Call → Answer × State
  | .publish m => s.tell (s.publish env.now [m])
  | .publishBatch ms => s.tell (s.publishBatch env.now ms)
  | .receive vis =>
    match s.receive max env vis with
    | .error e => (.failed e, s)
    | .ok (m, s') => (.received m, s')
  | .ack id n => s.tell (s.ack id n)
  | .nack id n reason delay => s.tell (s.nack max env id n reason delay)
  | .extend id n d => s.tell (s.extend env.now id n d)
  | .collect => (.done, s.collect max env.now)

def run (max : Nat) (s : State) : List (Env × Call) → List Answer × State
  | [] => ([], s)
  | (env, c) :: rest =>
    ((s.step max env c).1 :: (run max (s.step max env c).2 rest).1,
     (run max (s.step max env c).2 rest).2)

def Free (ids : List UUID) (s : State) : Prop := ∀ d ∈ s.dead, d.originalMessageID ∉ ids

/-- no publish of the run uses the id of a message that is a dead letter at the time -/
def Unburied (max : Nat) (s : State) : List (Env × Call) → Prop
  | [] => True
  | (env, c) :: rest => s.Free c.published ∧ Unburied max (s.step max env c).2 rest

end State
end PgQueue.Mailbox
