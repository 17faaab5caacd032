import Mathlib.Data.List.Infix
import PgQueue.Process.Runs

/-!
# The handler loop

`ConsumeChannel` and `ConsumeTopic` run a pool of workers, which differ in their receive only.  A worker
fetches and handles messages until it is told to stop, or until a receive fails for good; then it
leaves the error for the caller and cancels the context that the workers share.

* `Err`        Go's error values: what `errors.Is`, `errors.As` and `Error` see of them;
* `dispatch`   the switch of `fetchNext` over the error of a receive;
* `Pool`, `Ev`, `step`   the workers and the contexts, one section at a time.
-/

namespace PgQueue.Consume

/-! ## errors -/

inductive Sentinel where
  | queueEmpty
  | queuePaused
  | queueClosed
  | canceled
  | deadlineExceeded
deriving DecidableEq, Repr

def Sentinel.text : Sentinel → String
  | .queueEmpty => "queue is empty: no message currently available"
  | .queuePaused => "queue is paused"
  | .queueClosed => "pgqueue handle is closed"
  | .canceled => "context canceled"
  | .deadlineExceeded => "context deadline exceeded"

/-- `library` is an error of the driver or of the standard library, with the `SQLState` it has and the
sentinels for which its own `Is` answers -/
inductive Err where
  | sentinel (x : Sentinel)
  | library (text : String) (sqlState : Option String) (is : List Sentinel)
  | wrap (before : String) (e : Err) (after : String)
  | join (a b : Err)
deriving DecidableEq, Repr

/-- `errors.Is` -/
def Err.is (x : Sentinel) : Err → Bool
  | .sentinel y => y = x
  | .library _ _ is => x ∈ is
  | .wrap _ e _ => e.is x
  | .join a b => a.is x || b.is x

/-- `Error` -/
def Err.text : Err → String
  | .sentinel x => x.text
  | .library text _ _ => text
  | .wrap before e after => before ++ e.text ++ after
  | .join a b => a.text ++ "\n" ++ b.text

/-- `errors.As` for `sqlStater`: the first error of the tree that has a `SQLState` -/
def Err.sqlState : Err → Option String
  | .sentinel _ => none
  | .library _ sqlState _ => sqlState
  | .wrap _ e _ => e.sqlState
  | .join a b => a.sqlState.or b.sqlState

def contains (s phrase : String) : Bool := phrase.toList <:+: s.toList

def pgSerializationFailure : String := "40001"
def pgDeadlockDetected : String := "40P01"

def isTransientError (e : Err) : Bool :=
  e.sqlState = some pgSerializationFailure || e.sqlState = some pgDeadlockDetected ||
  contains e.text "could not serialize access" ||
  contains e.text "deadlock detected" ||
  contains e.text "connection refused" ||
  contains e.text "connection reset" ||
  contains e.text "bad connection" ||
  contains e.text "broken pipe"

def isEmptySignal (e : Err) : Bool := e.is .queueEmpty || e.is .queuePaused

def Err.contextual (e : Err) : Bool := e.is .canceled || e.is .deadlineExceeded

/-- `done` says that the context of the loop has ended -/
def isStopSignal (done : Bool) (e : Err) : Bool := done || e.contextual

/-! ## the workers -/

def maxConsumeTransientRetries : Nat := 5
def maxConcurrency : Nat := 1024

/-- where a worker stands; `fails` counts the transient errors in a row -/
inductive Phase where
  /-- at the head of `fetchNext` -/
  | fetch (fails : Nat)
  | receive (fails : Nat)
  | failed (e : Err) (fails : Nat)
  /-- in `waitForWork`, after an empty receive -/
  | wait
  /-- in `waitForWork`, after a transient error -/
  | backoff (fails : Nat)
  | handle
  /-- in `setFatal`, before its section -/
  | report (e : Err)
  /-- in `setFatal`, before it cancels the context -/
  | cancel (e : Err)
  /-- the worker has returned, with the error it reported -/
  | stopped (reported : Option Err)
deriving DecidableEq, Repr

/-- the switch of `fetchNext`, with `retryTransient`, for a receive that returned an error -/
def dispatch (done : Bool) (e : Err) (fails : Nat) : Phase :=
  if isEmptySignal e then .wait
  else if isStopSignal done e then .stopped none
  else if isTransientError e then
    if fails + 1 > maxConsumeTransientRetries then .report e else .backoff (fails + 1)
  else .report e

/-- `ctxDone` is the context of the caller, `bgDone` that of the Queue; `canceled` says that `cancel`
of the loop's context was called; `returned` is what the call returned, nil or an error -/
structure Pool where
  ctxDone : Bool
  bgDone : Bool
  canceled : Bool
  fatalErr : Option Err
  workers : List Phase
  returned : Option (Option Err)
deriving DecidableEq

/-- `Err` of the loop's context, a child of the caller's -/
def Pool.done (p : Pool) : Bool := p.ctxDone || p.canceled

def poolSize (concurrency : Int) : Nat :=
  if concurrency ≤ 0 then 1 else min concurrency.toNat maxConcurrency

/-- `runHandlerLoop` when it has started its workers -/
def runHandlerLoop (concurrency : Int) : Pool :=
  ⟨false, false, false, none, List.replicate (poolSize concurrency) (.fetch 0), none⟩

inductive Ev where
  /-- the caller's context ends -/
  | cancelCtx
  /-- `Close` cancels the Queue's context -/
  | cancelBg
  /-- the goroutine that watches the Queue's context cancels the loop's -/
  | watch
  | check (i : Nat)
  /-- the receive of a worker returns a message, or an error -/
  | receive (i : Nat) (r : Except Err Unit)
  | dispatch (i : Nat)
  /-- `waitForWork` returns true -/
  | work (i : Nat)
  /-- `waitForWork` returns false -/
  | quit (i : Nat)
  | handled (i : Nat)
  | setFatal (i : Nat)
  | cancel (i : Nat)
  /-- the workers have returned, and the call returns -/
  | join
deriving DecidableEq, Repr

def Pool.turn (p : Pool) (i : Nat) (w : Phase) : Pool := { p with workers := p.workers.set i w }

def Phase.isStopped : Phase → Bool
  | .stopped _ => true
  | _ => false

def step (p : Pool) : Ev → Option Pool
  | .cancelCtx => some { p with ctxDone := true }
  | .cancelBg => some { p with bgDone := true }
  | .watch => if p.bgDone then some { p with canceled := true } else none
  | .check i =>
    match p.workers[i]? with
    | some (.fetch fails) => some (p.turn i (if p.done then .stopped none else .receive fails))
    | _ => none
  | .receive i r =>
    match p.workers[i]? with
    | some (.receive fails) =>
      match r with
      | .ok () => some (p.turn i .handle)
      | .error e => some (p.turn i (.failed e fails))
    | _ => none
  | .dispatch i =>
    match p.workers[i]? with
    | some (.failed e fails) => some (p.turn i (dispatch p.done e fails))
    | _ => none
  | .work i =>
    match p.workers[i]? with
    | some .wait => some (p.turn i (.fetch 0))
    | some (.backoff fails) => some (p.turn i (.fetch fails))
    | _ => none
  | .quit i =>
    match p.workers[i]? with
    | some .wait => if p.done then some (p.turn i (.stopped none)) else none
    | some (.backoff _) => if p.done then some (p.turn i (.stopped none)) else none
    | _ => none
  | .handled i =>
    match p.workers[i]? with
    | some .handle => some (p.turn i (.fetch 0))
    | _ => none
  | .setFatal i =>
    match p.workers[i]? with
    | some (.report e) => some ({ p with fatalErr := p.fatalErr.or (some e) }.turn i (.cancel e))
    | _ => none
  | .cancel i =>
    match p.workers[i]? with
    | some (.cancel e) => some ({ p with canceled := true }.turn i (.stopped (some e)))
    | _ => none
  | .join =>
    if p.returned = none ∧ ∀ w ∈ p.workers, w.isStopped then some { p with returned := some p.fatalErr }
    else none

/-! ## what is asked of the loop -/

/-- the caller's context or the Queue's was cancelled -/
def Pool.told (p : Pool) : Bool := p.ctxDone || p.bgDone

/-- the call returns nil, and a worker stops without an error, only when told to -/
def EndsOnCancel (p : Pool) : Prop :=
  (p.returned = some none → p.told = true) ∧ (.stopped none ∈ p.workers → p.told = true)

instance (p : Pool) : Decidable (EndsOnCancel p) := by
  unfold EndsOnCancel
  infer_instance

end PgQueue.Consume
