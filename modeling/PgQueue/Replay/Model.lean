import PgQueue.Channel.Maintenance
import PgQueue.Topic.Maintenance

/-!
# ReplayDLQ: the pages of one call

`executeReplayDLQ` goes through the dead letters in pages, each a transaction of its own, with a
keyset cursor and, if the caller set a limit, a budget of rows to examine.  It is one function for
both kinds of queue; the page is the queue's own (`replayDLQPage`).

* `ReplayDLQCall`       what a call returned, what it left, and which rows its pages read;
* `executeReplayDLQ`    the loop;
* `Channel.replayDLQ`, `Topic.replayDLQ`   the calls.

A negative limit is refused before the loop, so the limit is a `Nat`; `0` is no limit.
-/

namespace PgQueue

structure ReplayDLQResult where
  replayed : Int
  skipped : Int
deriving DecidableEq, Repr

/-- a call that has returned.  `pages` are the rows the pages read, with what their transactions
saw; the source does not return them -/
structure ReplayDLQCall (σ : Type) where
  result : ReplayDLQResult
  error : Option QueueError
  pages : List (Env × List DLQRow)
  final : σ

section
variable {σ κ : Type}

def ReplayDLQCall.read (env : Env) (rows : List DLQRow) (call : ReplayDLQCall σ) : ReplayDLQCall σ :=
  { call with pages := (env, rows) :: call.pages }

/-- the loop.  `txn i` is what the transaction of page `i` sees, or the error the database fails it
with; the first argument bounds the number of pages -/
def executeReplayDLQ (size limit : Nat) (dlq : σ → List DLQRow)
    (page : Env → UUID → Nat → σ → Except QueueError (ReplayPage κ × σ))
    (txn : Nat → Except QueueError Env) :
    Nat → Nat → UUID → ReplayDLQResult → σ → Option (ReplayDLQCall σ)
  | 0, _, _, _, _ => none
  | fuel + 1, i, afterID, result, s =>
    let remaining := limit - result.replayed - result.skipped
    if limit > 0 ∧ remaining ≤ 0 then some ⟨result, none, [], s⟩
    else
      let pageLimit := if limit > 0 ∧ remaining < size then remaining.toNat else size
      match txn i with
      | .error e => some ⟨result, some e, [], s⟩
      | .ok env =>
        match page env afterID pageLimit s with
        | .error e => some ⟨result, some e, [], s⟩
        | .ok (p, s') =>
          let result' : ReplayDLQResult :=
            ⟨result.replayed + p.replayed, result.skipped + (p.fetched - p.replayed)⟩
          if p.fetched = 0 then some ⟨result', none, [], s'⟩
          else
            (executeReplayDLQ size limit dlq page txn fuel (i + 1) p.lastID result' s').map
              (ReplayDLQCall.read env (fetchDLQMessages afterID pageLimit (dlq s)))

/-- what the caller gets: a dry run that fails reports nothing -/
def ReplayDLQCall.reported (dryRun : Bool) (call : ReplayDLQCall σ) : ReplayDLQResult :=
  if dryRun ∧ call.error ≠ none then ⟨0, 0⟩ else call.result

end

/-- one page more than there are dead letters is enough -/
def Channel.replayDLQ (q : Queue) (size limit : Nat) (performedBy : Option String) (dryRun : Bool)
    (txn : Nat → Except QueueError Env) (s : Channel.State) :
    Option (ReplayDLQCall Channel.State) :=
  executeReplayDLQ size limit Channel.State.dlq
    (fun env afterID pageLimit s =>
      .ok (Channel.replayDLQPage q env afterID pageLimit performedBy dryRun s))
    txn (s.dlq.length + 1) 0 UUID.nil ⟨0, 0⟩ s

def Topic.replayDLQ (q : Queue) (size limit : Nat) (performedBy : Option String) (dryRun : Bool)
    (txn : Nat → Except QueueError Env) (s : Topic.State) : Option (ReplayDLQCall Topic.State) :=
  executeReplayDLQ size limit Topic.State.dlq
    (fun env afterID pageLimit s => Topic.replayDLQPage q env afterID pageLimit performedBy dryRun s)
    txn (s.dlq.length + 1) 0 UUID.nil ⟨0, 0⟩ s

end PgQueue
