import Mathlib.Logic.Function.Basic
import PgQueue.Consume.Model
import PgQueue.Process.Calls

/-!
# The loops of a Queue

A Queue owns the loops of its garbage collectors and the handler loops of `ConsumeChannel` and
`ConsumeTopic`.  `Close` marks it closed and takes the list of its collectors under `gcMu`, stops and joins
each of them, and then joins the handler loops.

* `Memory`, `Collector`   the fields the calls share;
* `start`, `stop`, `consume`, `close`   the steps of each call.  A section under `gcMu` is one step, and so is
               each operation of `Start`, which reads the mark without that mutex;
* `State`, `Event`, `step`   any number of calls, and the ends of the loops.
-/

set_option linter.unusedVariables false

namespace PgQueue.Lifecycle
open Process

/-! ## the shared fields -/

/-- `mu` is the call that holds the mutex, `loops` the number of `run` goroutines -/
structure Collector where
  mu : Option Nat
  stopChanClosed : Bool
  started : Bool
  wg : Nat
  loops : Nat

/-- the collectors are numbered as they are made; `created` is how many there are -/
structure Memory where
  closed : Bool
  bgCancelled : Bool
  gcs : List Nat
  workerWG : Nat
  created : Nat
  collectors : Nat → Collector

def Memory.init : Memory := ⟨false, false, [], 0, 0, fun _ => ⟨none, false, false, 0, 0⟩⟩

def Memory.setGC (m : Memory) (g : Nat) (c : Collector) : Memory :=
  { m with collectors := Function.update m.collectors g c }

/-! ## the calls -/

inductive StartAt where
  | call
  /-- holds `gc.mu` -/
  | locked
  /-- has seen that the Queue is not closed -/
  | seenOpen
  /-- has won `started` -/
  | won
  /-- has added to `gc.wg` -/
  | added
  | unlock
  | returned
deriving DecidableEq, Repr

inductive StopAt where
  | call
  | join
  | returned
deriving DecidableEq, Repr

inductive ConsumeError where
  | queueClosed
  | invalidConfig
deriving DecidableEq, Repr

inductive ConsumeAt where
  | call
  /-- has passed `checkClosed` and the options -/
  | checked
  /-- on the wait group, with so many workers still to start and so many running -/
  | loop (toStart live : Nat)
  | refused (e : ConsumeError)
  | returned
deriving DecidableEq, Repr

inductive CloseAt where
  | call
  /-- has closed the Queue and taken these collectors -/
  | cancel (gcs : List Nat)
  | stop (gcs : List Nat)
  /-- waits for the loop of a collector -/
  | join (gc : Nat) (gcs : List Nat)
  /-- waits for the handler loops -/
  | wait
  | notifier
  | returned (failed : Bool)
  /-- was not the first -/
  | nothing
deriving DecidableEq, Repr

structure ConsumeOpts where
  concurrency : Int
  pollInterval : Int
deriving DecidableEq, Repr

inductive Call where
  | start (gc : Nat) (pc : StartAt)
  | stop (gc : Nat) (pc : StopAt)
  | consume (opts : ConsumeOpts) (pc : ConsumeAt)
  | close (pc : CloseAt)
deriving DecidableEq, Repr

def validateConsumeOptions (o : ConsumeOpts) : Except ConsumeError Unit :=
  if o.concurrency < 0 then .error .invalidConfig
  else if o.pollInterval < 0 then .error .invalidConfig
  else .ok ()

/-- `GarbageCollector.Start`; the call has the number `i` -/
def start (i : Nat) (m : Memory) (g : Nat) : StartAt → Option (Memory × StartAt)
  | .call =>
    if (m.collectors g).mu = none then some (m.setGC g { m.collectors g with mu := some i }, .locked)
    else none
  | .locked => some (m, if m.closed then .unlock else .seenOpen)
  | .seenOpen =>
    if (m.collectors g).started then some (m, .unlock)
    else some (m.setGC g { m.collectors g with started := true }, .won)
  | .won => some (m.setGC g { m.collectors g with wg := (m.collectors g).wg + 1 }, .added)
  | .added => some (m.setGC g { m.collectors g with loops := (m.collectors g).loops + 1 }, .unlock)
  | .unlock => some (m.setGC g { m.collectors g with mu := none }, .returned)
  | .returned => none

/-- the section of `GarbageCollector.Stop`, which closes `stopChan` once -/
def stopSection (m : Memory) (g : Nat) : Option Memory :=
  if (m.collectors g).mu = none then some (m.setGC g { m.collectors g with stopChanClosed := true })
  else none

def stop (m : Memory) (g : Nat) : StopAt → Option (Memory × StopAt)
  | .call => (stopSection m g).map fun m' => (m', .join)
  | .join => if (m.collectors g).wg = 0 then some (m, .returned) else none
  | .returned => none

/-- `ConsumeChannel` and `ConsumeTopic`, with `trackWorker` and the pool of `runHandlerLoop` -/
def consume (m : Memory) (o : ConsumeOpts) : ConsumeAt → Option (Memory × ConsumeAt)
  | .call =>
    if m.closed then some (m, .refused .queueClosed)
    else
      match validateConsumeOptions o with
      | .error e => some (m, .refused e)
      | .ok () => some (m, .checked)
  | .checked =>
    if m.closed then some (m, .refused .queueClosed)
    else some ({ m with workerWG := m.workerWG + 1 }, .loop (Consume.poolSize o.concurrency) 0)
  | .loop (toStart + 1) live => some (m, .loop toStart (live + 1))
  | .loop 0 0 => some ({ m with workerWG := m.workerWG - 1 }, .returned)
  | .loop 0 (live + 1) => none
  | .refused _ | .returned => none

/-- `Close`; `failed` is what the notifier makes of its own close -/
def close (failed : Bool) (m : Memory) : CloseAt → Option (Memory × CloseAt)
  | .call =>
    if m.closed then some (m, .nothing)
    else some ({ m with closed := true }, .cancel m.gcs)
  | .cancel gcs => some ({ m with bgCancelled := true }, .stop gcs)
  | .stop [] => some (m, .wait)
  | .stop (g :: gcs) => (stopSection m g).map fun m' => (m', .join g gcs)
  | .join g gcs => if (m.collectors g).wg = 0 then some (m, .stop gcs) else none
  | .wait => if m.workerWG = 0 then some (m, .notifier) else none
  | .notifier => some (m, .returned failed)
  | .returned _ | .nothing => none

/-- the next step of a call; `failed` is for the last step of `Close` only -/
def next (failed : Bool) (i : Nat) (m : Memory) : Call → Option (Memory × Call)
  | .start g pc => (start i m g pc).map fun p => (p.1, .start g p.2)
  | .stop g pc => (stop m g pc).map fun p => (p.1, .stop g p.2)
  | .consume o pc => (consume m o pc).map fun p => (p.1, .consume o p.2)
  | .close pc => (close failed m pc).map fun p => (p.1, .close p.2)

/-- a worker of a handler loop returns: its context is cancelled, or a receive has failed for good -/
def workerEnds (i : Nat) (m : Memory) : Call → Option (Memory × Call)
  | .consume o (.loop toStart (live + 1)) => some (m, .consume o (.loop toStart live))
  | _ => none

/-! ## the Queue -/

abbrev State := Calls Memory Call

def State.init : State := ⟨.init, []⟩

inductive Event where
  | newGarbageCollector
  | callStart (gc : Nat)
  | callStop (gc : Nat)
  | callConsume (opts : ConsumeOpts)
  | callClose
  | next (i : Nat) (failed : Bool)
  | workerEnds (i : Nat)
  /-- the loop of a collector returns, and its deferred `wg.Done` with it -/
  | loopEnds (gc : Nat)
deriving DecidableEq, Repr

/-- `registerGC` -/
def newGarbageCollector (m : Memory) : Memory :=
  { m with
    created := m.created + 1
    gcs := if m.closed then m.gcs else m.gcs ++ [m.created] }

def loopEnds (m : Memory) (g : Nat) : Option Memory :=
  if (m.collectors g).loops = 0 then none
  else
    some (m.setGC g { m.collectors g with
      wg := (m.collectors g).wg - 1
      loops := (m.collectors g).loops - 1 })

/-- a collector can be started and stopped once `NewGarbageCollector` has returned it -/
def step (s : State) : Event → Option State
  | .newGarbageCollector => some { s with mem := newGarbageCollector s.mem }
  | .callStart g => if g < s.mem.created then some (s.push (.start g .call)) else none
  | .callStop g => if g < s.mem.created then some (s.push (.stop g .call)) else none
  | .callConsume o => some (s.push (.consume o .call))
  | .callClose => some (s.push (.close .call))
  | .next i failed => s.act (next failed) i
  | .workerEnds i => s.act workerEnds i
  | .loopEnds g => (loopEnds s.mem g).map fun m => { s with mem := m }

end PgQueue.Lifecycle
