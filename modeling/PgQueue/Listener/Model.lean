import Mathlib.Data.Finset.Basic
import PgQueue.Process.Runs

/-!
# The `pglisten` listener

Callers register channels with `Listen` and take them back with `Unlisten`; the run loop owns the
connection and issues the statements.  The two sides share the fields below under one mutex, which
is free between the loop's snapshot of the queues, each statement, and each confirmation.  So one
event is one section under the mutex, one statement on the connection, or one answer on a `done`
channel.

* `State`   the fields of the listener, where the loop stands, the session on the server, and the
  `Listen` calls that were made;
* `Ev`      what a caller, the loop or the network does next;
* `step`    its effect.
-/

set_option linter.unusedVariables false

namespace PgQueue.Pglisten

inductive ListenError where
  | channelContainsNUL
  | listenerClosed
  | canceled (channel : String)
  /-- the error of the server, wrapped with the statement -/
  | refused (channel : String)
deriving DecidableEq, Repr

/-- a `Listen` call: what it returned, if it has, and whether an `Unlisten` of the channel was called
after it began -/
structure Call where
  channel : String
  result : Option (Except ListenError Unit)
  revoked : Bool
deriving DecidableEq

/-- `done` is the call that waits for the request, `none` for one that `reconnect` queued -/
structure ListenReq where
  channel : String
  done : Option Nat
deriving DecidableEq, Repr

/-- where the run loop stands -/
inductive Pc where
  /-- at the head of the loop -/
  | top
  /-- in `drainPending`, with the requests and the `UNLISTEN`s it has not issued yet -/
  | drain (pending : List ListenReq) (unpending : List String)
  /-- the `LISTEN` of `req` succeeded, `markConfirmed` comes next -/
  | mark (req : ListenReq) (pending : List ListenReq) (unpending : List String)
  /-- the channel of `req` is confirmed, `req.signal(nil)` comes next -/
  | tell (req : ListenReq) (pending : List ListenReq) (unpending : List String)
  /-- a `LISTEN` failed, these requests were not issued -/
  | requeue (reqs : List ListenReq)
  /-- in `receiveOne` -/
  | receive
  /-- at the start of `reconnect` -/
  | reconnect
  /-- in the loop of `reconnect`, without a connection -/
  | dial
  | stopped
deriving DecidableEq, Repr

/-- `session` is what the server session of `conn` listens on, `none` once the connection is lost or
closed -/
structure State where
  channels : Finset String
  confirmed : Finset String
  pending : List ListenReq
  unpending : List String
  closed : Bool
  pc : Pc
  session : Option (Finset String)
  calls : List Call
deriving DecidableEq

/-- the listener that `New` returns -/
def new : State := ⟨∅, ∅, [], [], false, .top, some ∅, []⟩

inductive Ev where
  /-- `Listen`, up to the wait for its answer -/
  | listen (channel : String)
  | unlisten (channel : String)
  /-- the context of a waiting call ends -/
  | cancel (call : Nat)
  /-- a waiting call sees that the listener is closed -/
  | leave (call : Nat)
  | close
  /-- the connection is lost -/
  | lose
  | snapshot
  | listenOK
  | listenFails
  | markConfirmed
  | signal
  | requeue
  | unlistenOK
  | unlistenFails
  | drained
  /-- `receiveOne` returns to the loop: a notification, an interrupt, or a probe that succeeded -/
  | received
  /-- `receiveOne` meets a connection error, or its probe fails -/
  | receiveFails
  | closeConn
  /-- a connection attempt succeeds; `order` is the order in which the map of channels is read -/
  | connect (order : List String)
  | stop
deriving DecidableEq, Repr

/-! ## the callers -/

def containsNUL (channel : String) : Bool := '\x00' ∈ channel.toList

/-- a result is sent once: the channel is buffered, and the caller may have left -/
def Call.answer (r : Except ListenError Unit) (c : Call) : Call :=
  if c.result.isNone then { c with result := some r } else c

/-- `signal` -/
def signal (done : Option Nat) (r : Except ListenError Unit) (calls : List Call) : List Call :=
  match done with
  | none => calls
  | some i => calls.modify i (Call.answer r)

def Call.revoke (channel : String) (c : Call) : Call :=
  if c.channel = channel then { c with revoked := true } else c

def listen (channel : String) (s : State) : State :=
  if containsNUL channel then
    { s with calls := s.calls ++ [⟨channel, some (.error .channelContainsNUL), false⟩] }
  else if s.closed then
    { s with calls := s.calls ++ [⟨channel, some (.error .listenerClosed), false⟩] }
  else if channel ∈ s.confirmed then
    { s with calls := s.calls ++ [⟨channel, some (.ok ()), false⟩] }
  else
    { s with
      channels := insert channel s.channels
      pending := s.pending ++ [⟨channel, some s.calls.length⟩]
      calls := s.calls ++ [⟨channel, none, false⟩] }

def unlisten (channel : String) (s : State) : State :=
  let s := { s with calls := s.calls.map (Call.revoke channel) }
  if containsNUL channel then s
  else if s.closed then s
  else if channel ∉ s.channels then s
  else
    { s with
      channels := s.channels.erase channel
      confirmed := s.confirmed.erase channel
      unpending := s.unpending ++ [channel] }

/-! ## the run loop -/

/-- the calls that wait for `channel` -/
def waiters (pending : List ListenReq) (channel : String) : List Nat :=
  pending.filterMap fun r => if r.channel = channel then r.done else none

/-- the requests for one channel after a reconnect: one for each waiter -/
def requestsFor (pending : List ListenReq) (channel : String) : List ListenReq :=
  match waiters pending channel with
  | [] => [⟨channel, none⟩]
  | dones => dones.map fun done => ⟨channel, some done⟩

/-- the waiters of channels that are no longer registered are answered at once -/
def rebuildPendingForReconnect (order : List String) (s : State) : State :=
  let leftover := s.pending.filter fun r => r.channel ∉ order
  { s with
    pending := order.flatMap (requestsFor s.pending)
    calls := leftover.foldl (fun calls r => signal r.done (.ok ()) calls) s.calls }

/-- `order` reads the map of channels -/
def Reads (order : List String) (channels : Finset String) : Prop :=
  order.Nodup ∧ order.toFinset = channels

instance (order : List String) (channels : Finset String) : Decidable (Reads order channels) := by
  unfold Reads
  infer_instance

/-- the part of `reconnect` after the connection succeeded -/
def reconnected (order : List String) (s : State) : State :=
  rebuildPendingForReconnect order
    { s with session := some ∅, confirmed := ∅, unpending := [], pc := .top }

def step (s : State) : Ev → Option State
  | .listen channel => some (listen channel s)
  | .unlisten channel => some (unlisten channel s)
  | .cancel i => some { s with calls := s.calls.modify i fun c => c.answer (.error (.canceled c.channel)) }
  | .leave i =>
    if s.closed then some { s with calls := s.calls.modify i (Call.answer (.error .listenerClosed)) }
    else none
  | .close => some { s with closed := true }
  | .lose => some { s with session := none }
  | .snapshot =>
    match s.pc with
    | .top => some { s with pending := [], unpending := [], pc := .drain s.pending s.unpending }
    | _ => none
  | .listenOK =>
    match s.pc, s.session with
    | .drain (r :: reqs) us, some S =>
      some { s with session := some (insert r.channel S), pc := .mark r reqs us }
    | _, _ => none
  | .listenFails =>
    match s.pc with
    | .drain (r :: reqs) us =>
      some { s with calls := signal r.done (.error (.refused r.channel)) s.calls, pc := .requeue reqs }
    | _ => none
  | .markConfirmed =>
    match s.pc with
    | .mark r reqs us =>
      some { s with confirmed := insert r.channel s.confirmed, pc := .tell r reqs us }
    | _ => none
  | .signal =>
    match s.pc with
    | .tell r reqs us =>
      some { s with calls := signal r.done (.ok ()) s.calls, pc := .drain reqs us }
    | _ => none
  | .requeue =>
    match s.pc with
    | .requeue reqs => some { s with pending := reqs ++ s.pending, pc := .reconnect }
    | _ => none
  | .unlistenOK =>
    match s.pc, s.session with
    | .drain [] (u :: us), some S => some { s with session := some (S.erase u), pc := .drain [] us }
    | _, _ => none
  | .unlistenFails =>
    match s.pc with
    | .drain [] (u :: us) => some { s with pc := .drain [] us }
    | _ => none
  | .drained =>
    match s.pc with
    | .drain [] [] => some { s with pc := .receive }
    | _ => none
  | .received =>
    match s.pc with
    | .receive => some { s with pc := .top }
    | _ => none
  | .receiveFails =>
    match s.pc with
    | .receive => some { s with pc := .reconnect }
    | _ => none
  | .closeConn =>
    match s.pc with
    | .reconnect => some { s with session := none, pc := .dial }
    | _ => none
  | .connect order =>
    match s.pc with
    | .dial => if Reads order s.channels then some (reconnected order s) else none
    | _ => none
  | .stop =>
    match s.pc with
    | .top | .receive | .dial =>
      if s.closed then some { s with session := none, pc := .stopped } else none
    | _ => none

/-! ## the transitions, one by one -/

inductive Moves (s : State) : Ev → State → Prop
  | listen (ch : String) : Moves s (.listen ch) (listen ch s)
  | unlisten (ch : String) : Moves s (.unlisten ch) (unlisten ch s)
  | cancel (i : Nat) : Moves s (.cancel i)
      { s with calls := s.calls.modify i fun c => c.answer (.error (.canceled c.channel)) }
  | leave (i : Nat) (hclosed : s.closed = true) : Moves s (.leave i)
      { s with calls := s.calls.modify i (Call.answer (.error .listenerClosed)) }
  | close : Moves s .close { s with closed := true }
  | lose : Moves s .lose { s with session := none }
  | snapshot (hpc : s.pc = .top) : Moves s .snapshot
      { s with pending := [], unpending := [], pc := .drain s.pending s.unpending }
  | listenOK {r reqs us S} (hpc : s.pc = .drain (r :: reqs) us) (hS : s.session = some S) :
      Moves s .listenOK { s with session := some (insert r.channel S), pc := .mark r reqs us }
  | listenFails {r reqs us} (hpc : s.pc = .drain (r :: reqs) us) : Moves s .listenFails
      { s with calls := signal r.done (.error (.refused r.channel)) s.calls, pc := .requeue reqs }
  | markConfirmed {r reqs us} (hpc : s.pc = .mark r reqs us) : Moves s .markConfirmed
      { s with confirmed := insert r.channel s.confirmed, pc := .tell r reqs us }
  | signal {r reqs us} (hpc : s.pc = .tell r reqs us) : Moves s .signal
      { s with calls := signal r.done (.ok ()) s.calls, pc := .drain reqs us }
  | requeue {reqs} (hpc : s.pc = .requeue reqs) : Moves s .requeue
      { s with pending := reqs ++ s.pending, pc := .reconnect }
  | unlistenOK {u us S} (hpc : s.pc = .drain [] (u :: us)) (hS : s.session = some S) :
      Moves s .unlistenOK { s with session := some (S.erase u), pc := .drain [] us }
  | unlistenFails {u us} (hpc : s.pc = .drain [] (u :: us)) : Moves s .unlistenFails
      { s with pc := .drain [] us }
  | drained (hpc : s.pc = .drain [] []) : Moves s .drained { s with pc := .receive }
  | received (hpc : s.pc = .receive) : Moves s .received { s with pc := .top }
  | receiveFails (hpc : s.pc = .receive) : Moves s .receiveFails { s with pc := .reconnect }
  | closeConn (hpc : s.pc = .reconnect) : Moves s .closeConn { s with session := none, pc := .dial }
  | connect {order} (hpc : s.pc = .dial) (hread : Reads order s.channels) :
      Moves s (.connect order) (reconnected order s)
  | stop (hclosed : s.closed = true) : Moves s .stop { s with session := none, pc := .stopped }

theorem moves_of_step {s t : State} {e : Ev} (h : step s e = some t) : Moves s e t := by
  unfold step at h
  repeat' split at h
  all_goals cases h
  · exact .listen _
  · exact .unlisten _
  · exact .cancel _
  · exact .leave _ ‹_›
  · exact .close
  · exact .lose
  · exact .snapshot ‹_›
  · exact .listenOK ‹_› ‹_›
  · exact .listenFails ‹_›
  · exact .markConfirmed ‹_›
  · exact .signal ‹_›
  · exact .requeue ‹_›
  · exact .unlistenOK ‹_› ‹_›
  · exact .unlistenFails ‹_›
  · exact .drained ‹_›
  · exact .received ‹_›
  · exact .receiveFails ‹_›
  · exact .closeConn ‹_›
  · exact .connect ‹_› ‹_›
  all_goals exact .stop ‹_›

/-! ## what is asked of the listener -/

/-- the loop waits for notifications and has nothing left to issue -/
def State.idle (s : State) : Bool := s.pc = .receive ∧ s.pending = [] ∧ s.unpending = []

/-- the session is subscribed to what callers were told it is: each call that returned nil with no
`Unlisten` after it, and each channel for which `Listen` would return nil at once -/
def Truthful (s : State) : Prop :=
  (s.idle = true → ∀ c ∈ s.calls, c.result = some (.ok ()) → c.revoked = false →
    ∀ S ∈ s.session, c.channel ∈ S) ∧
  ∀ channel ∈ s.confirmed, ∀ S ∈ s.session, channel ∈ S

instance (s : State) : Decidable (Truthful s) := by
  unfold Truthful
  infer_instance

end PgQueue.Pglisten
