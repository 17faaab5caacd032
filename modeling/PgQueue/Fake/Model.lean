import PgQueue.Guarantees.Publishing
import PgQueue.Receive

/-!
# The fake queue

Package `fake` is a test double: a channel is three collections of entries in memory, without a clock.

* `publish`           the publish call of a channel; the new entry goes to the end;
* `receiveChannel`    the first entry is claimed under a fresh claim;
* `ack`, `nack`       fenced on the receipt's claim; a nacked entry is inserted before the first entry
                      with an id that is not smaller, or becomes a dead letter.

A comparison with the real channel is a history of calls made on both sides (`Setup`, `Sides`,
`serve`).  Whatever an ack or a nack is about is named by the number of the receive that returned it,
and each side passes the receipt it got there itself.
-/

namespace PgQueue.Fake
open Relational Process

variable {μ : Type}

structure Entry (μ : Type) where
  id : UUID
  claimID : UUID
  payload : Bytes
  metadata : Option μ
  status : MessageStatus
  retryCount : Nat
deriving DecidableEq, Repr

/-- `claimed` is a map from message ids to entries -/
structure Channel (μ : Type) where
  paused : Bool
  pending : List (Entry μ)
  claimed : List (Entry μ)
  dlq : List (Entry μ)
deriving DecidableEq, Repr

def newChannel : Channel μ := ⟨false, [], [], []⟩

def Channel.hasMessage (ch : Channel μ) (id : UUID) : Bool :=
  (ch.pending.any fun e => decide (e.id = id)) || (ch.claimed.any fun e => decide (e.id = id)) ||
    ch.dlq.any fun e => decide (e.id = id)

/-- `ch.claimed[id]` -/
def Channel.lookup (ch : Channel μ) (id : UUID) : Option (Entry μ) :=
  ch.claimed.find? fun e => decide (e.id = id)

/-- `ch.claimed` without the key `id` -/
def Channel.without (ch : Channel μ) (id : UUID) : List (Entry μ) :=
  ch.claimed.filter fun e => decide (e.id ≠ id)

structure Queue where
  name : String
  maxRetries : Nat

def defaultMaxRetries : Nat := 3

def withMaxRetries (n : Int) (q : Queue) : Queue :=
  if n ≥ 0 then { q with maxRetries := n.toNat } else q

def new (name : String) (opts : List (Queue → Queue)) : Queue :=
  opts.foldl (fun q o => o q) ⟨name, defaultMaxRetries⟩

/-! ## the calls -/

def publish (c : Call μ) (ch : Channel μ) : Except PublishError UUID × Channel μ :=
  match c.message.payload with
  | none => (.error .nilPayload, ch)
  | some payload =>
    match Publisher.messageID c with
    | .error e => (.error e, ch)
    | .ok id =>
      if ch.hasMessage id then (.error (.rejected .duplicateMessageID), ch)
      else (.ok id, { ch with
        pending := ch.pending ++ [⟨id, UUID.nil, payload, c.message.metadata, .pending, 0⟩] })

inductive ConsumeError where
  | queuePaused
  | queueEmpty
  | generateClaimID
deriving DecidableEq, Repr

/-- what a receive returns; the receipt carries the binding to the queue -/
structure Delivery (μ : Type) where
  id : UUID
  claimID : UUID
  payload : Bytes
  metadata : Option μ
  status : MessageStatus
  retryCount : Nat
  maxRetries : Nat
  receipt : Receipt
deriving DecidableEq, Repr

/-- `claimID` is what `NewUUIDv7` returns; if it fails the entry goes back to the front -/
def claim (q : Queue) (claimID : Option UUID) (base : Receipt) (ch : Channel μ) :
    Except ConsumeError (Delivery μ) × Channel μ :=
  match ch.pending with
  | [] => (.error .queueEmpty, ch)
  | e :: pending =>
    match claimID with
    | none => (.error .generateClaimID, { ch with pending := e :: pending })
    | some claimID =>
      (.ok ⟨e.id, claimID, e.payload, e.metadata, .processing, e.retryCount, q.maxRetries,
        { base with messageID := e.id, claimID := claimID }⟩,
       { ch with
         pending := pending
         claimed := { e with claimID := claimID, status := .processing } :: ch.without e.id })

def receiveChannel (q : Queue) (claimID : Option UUID) (ch : Channel μ) :
    Except ConsumeError (Delivery μ) × Channel μ :=
  if ch.paused then (.error .queuePaused, ch)
  else claim q claimID ⟨UUID.nil, UUID.nil, q.name, some .channel, ""⟩ ch

def Channel.held (ch : Channel μ) (r : Receipt) : Option (Entry μ) :=
  (ch.lookup r.messageID).filter fun e => decide (e.claimID = r.claimID)

def ack (r : Receipt) (ch : Channel μ) : Except QueueError (Channel μ) :=
  match ch.held r with
  | none => .error .claimExpired
  | some _ => .ok { ch with claimed := ch.without r.messageID }

/-- before the first entry whose id is not smaller -/
def insertSortedByID (pending : List (Entry μ)) (e : Entry μ) : List (Entry μ) :=
  pending.takeWhile (fun x => decide (x.id < e.id)) ++
    e :: pending.dropWhile fun x => decide (x.id < e.id)

def nack (q : Queue) (r : Receipt) (ch : Channel μ) : Except QueueError (Channel μ) :=
  match ch.held r with
  | none => .error .claimExpired
  | some e =>
    let ch := { ch with claimed := ch.without r.messageID }
    if e.retryCount + 1 > q.maxRetries then
      .ok { ch with dlq := ch.dlq ++ [{ e with status := .completed }] }
    else
      .ok { ch with
        pending := insertSortedByID ch.pending
          { e with retryCount := e.retryCount + 1, claimID := UUID.nil, status := .pending } }

/-! ## histories on both sides -/

/-- the real queue with its client, and the fake; `gen` makes the claims of the fake -/
structure Setup (μ : Type) where
  publisher : Publisher μ
  real : PgQueue.Queue
  fake : Queue
  gen : Generator

/-- `receipts` has one entry for each receive so far: what it returned on the real channel and on the
fake, `none` for an error -/
structure Sides (μ : Type) where
  real : PgQueue.Channel.State
  fake : Channel μ
  drawn : Nat
  receipts : List (Option Receipt × Option Receipt)

def Sides.start : Sides μ := ⟨.init, newChannel, 0, []⟩

/-- an ack and a nack are about what the `n`-th receive returned -/
inductive Act (μ : Type) where
  | publish (c : Call μ)
  | receive (vis : Duration)
  | ack (n : Nat)
  | nack (n : Nat) (reason : Bytes) (delay : Duration)

def keep {σ ε : Type} (s : σ) : Except ε σ → σ
  | .ok s' => s'
  | .error _ => s

namespace Setup

variable (u : Setup μ) (env : Env)

def receiveReal (vis : Duration) (w : Sides μ) : Except ReceiveError Message × PgQueue.Channel.State :=
  PgQueue.Channel.receiveChannel u.real env vis w.real

def receiveFake (w : Sides μ) : Except ConsumeError (Delivery μ) × Channel μ :=
  receiveChannel u.fake (some (u.gen.draw w.drawn)) w.fake

def receive (vis : Duration) (w : Sides μ) : Sides μ where
  real := (u.receiveReal env vis w).2
  fake := (u.receiveFake w).2
  drawn := w.drawn + 1
  receipts := w.receipts ++ [((u.receiveReal env vis w).1.toOption.map Message.receipt,
    (u.receiveFake w).1.toOption.map Delivery.receipt)]

def ack (p : Option Receipt × Option Receipt) (w : Sides μ) : Sides μ :=
  { w with
    real := p.1.elim w.real fun r => keep w.real (PgQueue.Channel.ackChannel env r w.real)
    fake := p.2.elim w.fake fun r => keep w.fake (Fake.ack r w.fake) }

def nack (p : Option Receipt × Option Receipt) (reason : Bytes) (delay : Duration) (w : Sides μ) :
    Sides μ :=
  { w with
    real := p.1.elim w.real fun r =>
      keep w.real (PgQueue.Channel.nackChannelImpl u.real env r reason delay w.real)
    fake := p.2.elim w.fake fun r => keep w.fake (Fake.nack u.fake r w.fake) }

def receiptsOf (w : Sides μ) (n : Nat) : Option Receipt × Option Receipt :=
  w.receipts.getD n (none, none)

def serve (w : Sides μ) : Act μ → Sides μ
  | .publish c =>
    { w with
      real := (PgQueue.Channel.publish u.publisher u.real env c w.real).2
      fake := (Fake.publish c w.fake).2 }
  | .receive vis => u.receive env vis w
  | .ack n => ack env (receiptsOf w n) w
  | .nack n reason delay => u.nack env (receiptsOf w n) reason delay w

def step (w : Sides μ) (e : Env × Act μ) : Option (Sides μ) := some (u.serve e.1 w e.2)

end Setup

end PgQueue.Fake
