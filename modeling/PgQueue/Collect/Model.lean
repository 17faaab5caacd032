import PgQueue.Channel.Maintenance
import PgQueue.Topic.Maintenance
import PgQueue.Relational.SetOps

/-!
# One pass of the garbage collector over a queue

`doCollectQueue` runs its phases one after another, each of them a loop of pages: the retention purges,
for a topic the purges of inactive subscriptions and of orphans, the promotion of exhausted rows to the
dead-letter queue, the reset of the other timed-out rows.  Its result are the rows purged, the rows
reclaimed (promoted or reset) and the tables; `none` is a pass that has not returned.

* `Channel.Collect.doCollectQueue`, `Topic.Collect.doCollectQueue`   the passes, as the code runs them;
* `Channel.Collect.purges`, `reclaims`, and those of topics          the same phases as statements on
                                                                   whole tables.

The clock stands still: every page runs in the same `Env`.
-/

namespace PgQueue
open Relational List

/-- a duration that is not positive keeps forever -/
structure RetentionPolicy where
  completedMessageTTL : Duration
  maxPendingAge : Duration
  dlqRetention : Duration
deriving DecidableEq, Repr

structure GarbageCollectorConfig where
  policies : List (String × RetentionPolicy)
  defaultPolicy : RetentionPolicy
deriving DecidableEq, Repr

def GarbageCollectorConfig.getPolicy (config : GarbageCollectorConfig) (queueName : String) :
    RetentionPolicy :=
  (config.policies.lookup queueName).getD config.defaultPolicy

def DLQRow.old (env : Env) (retention : Duration) (d : DLQRow) : Bool :=
  decide (d.movedAt < env.now - retention)

/-- the id of a dead letter is the primary key of its table -/
def KeyedDLQ (dlq : List DLQRow) : Prop := (dlq.map DLQRow.id).Nodup

theorem insertionSort_id {ρ : Type} (id : ρ → UUID) (l : List ρ) :
    (l.insertionSort fun a b => id a ≤ id b).Pairwise fun a b => id a ≤ id b := by
  have htotal : Std.Total fun a b : ρ => id a ≤ id b := ⟨fun a b => Nat.le_total _ _⟩
  have htrans : IsTrans ρ fun a b => id a ≤ id b := ⟨fun _ _ _ h h' => Nat.le_trans h h'⟩
  exact pairwise_insertionSort _ l

theorem realises_purgeDLQ {σ : Type} {P : σ → Prop} {dlq : σ → List DLQRow} {env : Env}
    {retention : Duration} (put : List DLQRow → σ → σ) (hkeyed : retention > 0 → ∀ s, P s → KeyedDLQ (dlq s))
    (hkeeps : ∀ s d, KeyedDLQ d → P s → P (put d s)) (hget : ∀ s d, dlq (put d s) = d)
    (hput : ∀ s d d', put d' (put d s) = put d' s) (hself : ∀ s, put (dlq s) s = s) :
    Realises P (loopPages retentionPurgePageSize fun s => ((purgeDLQRows env retention (dlq s)).1,
        put (purgeDLQRows env retention (dlq s)).2 s))
      (SetOp.when (retention > 0) ⟨fun s => ((dlq s).filter (DLQRow.old env retention)).length,
        fun s => put ((dlq s).filter fun d => !d.old env retention) s⟩) := by
  have hpage : (fun s => ((purgeDLQRows env retention (dlq s)).1,
      put (purgeDLQRows env retention (dlq s)).2 s)) = fun s => if retention > 0 then
        (((((dlq s).filter (DLQRow.old env retention)).insertionSort fun a b => a.id ≤ b.id).take
            retentionPurgePageSize).length,
          put ((dlq s).filter fun d => !hits DLQRow.id
            ((((dlq s).filter (DLQRow.old env retention)).insertionSort fun a b => a.id ≤ b.id).take
              retentionPurgePageSize) d) s) else (0, s) := by
    funext s
    unfold purgeDLQRows
    split
    · rfl
    · rw [hself]
  rw [hpage]
  refine Realises.when (by decide) fun hon => ?_
  have hsub : ∀ s xs, P s → KeyedDLQ ((dlq s).filter fun d => !hits DLQRow.id xs d) := fun s xs hs =>
    (filter_sublist.map DLQRow.id).nodup (hkeyed hon s hs)
  refine Due.realises_query (Due.of_delete (insertionSort_id DLQRow.id)
    (fun a b hab hba => Nat.le_antisymm hab hba) (fun s _ => rfl)
    (fun s xs hs => hkeeps s _ (hsub s xs hs) hs) (hkeyed hon) (fun s xs => hget s _)
    (fun _ _ _ _ _ => rfl) fun s xs ys _ => ?_) (by decide) (fun _ => rfl) fun s xs hs hxs => ?_
  · rw [hput, hget, filter_filter]
    refine congrArg (put · s) (filter_congr fun d _ => ?_)
    rw [hits_append, Bool.not_or, Bool.and_comm]
  · exact congrArg (put · s) (filter_hits (hkeyed hon s hs) hxs)

/-! ## timed-out rows -/

/-- what a pass does to the timed-out rows: `before` are the rows after the purges, `after` those at the
end, `letters` the keys of the new dead letters -/
structure Handled {ρ κ : Type} (timedOut : ρ → Bool) (reset : ρ → ρ) (key : ρ → κ) (before after : List ρ)
    (letters : List κ) (reclaimed : Nat) : Prop where
  once : ∀ r ∈ before, timedOut r = true → (key r ∈ letters ↔ reset r ∉ after)
  none : ∀ r ∈ after, timedOut r = false
  count : reclaimed = (before.filter timedOut).length

theorem timedOut_split (timedOut : Bool) (retryCount cap : Nat) :
    timedOut = (timedOut && decide (retryCount ≥ cap) || timedOut && decide (retryCount < cap)) := by
  rw [← Bool.and_or_distrib_left]
  by_cases h : retryCount < cap
  · rw [decide_eq_true h, Bool.or_true, Bool.and_true]
  · rw [decide_eq_true (Nat.le_of_not_lt h), Bool.true_or, Bool.and_true]

section
variable {ρ κ : Type} {timedOut exhausted resettable : ρ → Bool} {reset : ρ → ρ} {key : ρ → κ}
variable {before : List ρ}

theorem length_split (hsplit : ∀ r, timedOut r = (exhausted r || resettable r)) (l : List ρ) :
    (l.filter exhausted).length + ((l.filter fun r => !exhausted r).filter resettable).length =
      (l.filter timedOut).length := by
  have hsum := (List.filter_append_perm exhausted (l.filter timedOut)).length_eq
  have hex : (l.filter timedOut).filter exhausted = l.filter exhausted := by
    rw [List.filter_filter]
    refine List.filter_congr fun r _ => ?_
    rw [hsplit]
    cases exhausted r <;> rfl
  have hres : (l.filter timedOut).filter (fun r => !exhausted r) =
      (l.filter fun r => !exhausted r).filter resettable := by
    rw [List.filter_filter, List.filter_filter]
    refine List.filter_congr fun r _ => ?_
    rw [hsplit]
    cases exhausted r <;> cases resettable r <;> rfl
  rw [← hsum, List.length_append, hex, hres]

theorem mem_reset_iff (hkey : ∀ r, key (reset r) = key r) (hn : (before.map key).Nodup) {r : ρ}
    (hr : r ∈ before) (hres : exhausted r = false → resettable r = true) :
    (reset r ∈ (before.filter fun r => !exhausted r).map fun r => if resettable r then reset r else r) ↔
      exhausted r = false := by
  rw [List.mem_map]
  constructor
  · rintro ⟨x, hx, he⟩
    obtain ⟨hx, hnot⟩ := List.mem_filter.mp hx
    have hk : key x = key r := by
      rw [← hkey r, ← he]
      split
      · exact (hkey x).symm
      · rfl
    rwa [List.inj_on_of_nodup_map hn hx hr hk, Bool.not_eq_true'] at hnot
  · exact fun hex => ⟨r, List.mem_filter.mpr ⟨hr, by rw [hex]; rfl⟩, if_pos (hres hex)⟩

theorem Handled.of_split {letters : List κ} (hsplit : ∀ r, timedOut r = (exhausted r || resettable r))
    (hkey : ∀ r, key (reset r) = key r) (hreset : ∀ r, timedOut (reset r) = false)
    (hn : (before.map key).Nodup)
    (hletters : letters.Perm ((before.filter exhausted).map key)) :
    Handled timedOut reset key before
      ((before.filter fun r => !exhausted r).map fun r => if resettable r then reset r else r) letters
      ((before.filter exhausted).length +
        ((before.filter fun r => !exhausted r).filter resettable).length) := by
  have hmem : ∀ r ∈ before, key r ∈ letters ↔ exhausted r = true := by
    intro r hr
    rw [hletters.mem_iff, List.mem_map]
    constructor
    · rintro ⟨x, hx, he⟩
      obtain ⟨hx, hex⟩ := List.mem_filter.mp hx
      rwa [← List.inj_on_of_nodup_map hn hx hr he]
    · exact fun hex => ⟨r, List.mem_filter.mpr ⟨hr, hex⟩, rfl⟩
  refine ⟨fun r hr ht => ?_, fun r hr => ?_, ?_⟩
  · have hres : exhausted r = false → resettable r = true := fun hex => by
      rwa [hsplit, hex, Bool.false_or] at ht
    rw [hmem r hr, mem_reset_iff hkey hn hr hres, Bool.not_eq_false]
  · obtain ⟨x, hx, rfl⟩ := List.mem_map.mp hr
    obtain ⟨-, hex⟩ := List.mem_filter.mp hx
    split
    · exact hreset x
    · rename_i hres
      rw [Bool.not_eq_true'] at hex
      rw [hsplit, hex, Bool.false_or]
      exact Bool.eq_false_iff.mpr hres
  · exact length_split hsplit before

end

/-! ## channels -/

namespace Channel

def Row.exhausted (q : Queue) (env : Env) (r : Row) : Bool :=
  r.timedOut env.now && decide (r.retryCount ≥ r.cap q)

def Row.resettable (q : Queue) (env : Env) (r : Row) : Bool :=
  r.timedOut env.now && decide (r.retryCount < r.cap q)

def Row.completedBefore (env : Env) (ttl : Duration) (r : Row) : Bool :=
  decide (r.status = .completed) && r.processedAt.any fun t => decide (t < env.now - ttl)

def Row.pendingSince (env : Env) (maxAge : Duration) (r : Row) : Bool :=
  decide (r.status = .pending) && decide (r.createdAt < env.now - maxAge)

def Row.letter (r : Row) : DLQMessage := ⟨r.id, r.payload, r.retryCount + 1, r.metadata⟩

namespace Collect

def purgeCompletedMessages (env : Env) (ttl : Duration) : Nat → State → Option (Nat × State) :=
  loopPages retentionPurgePageSize (purgeCompletedPage env ttl)

def purgeOldPendingMessages (env : Env) (maxAge : Duration) : Nat → State → Option (Nat × State) :=
  loopPages retentionPurgePageSize (purgeOldPendingPage env maxAge)

def purgeDLQMessages (env : Env) (retention : Duration) : Nat → State → Option (Nat × State) :=
  loopPages retentionPurgePageSize (purgeDLQPage env retention)

def promoteExhaustedChannelMessages (q : Queue) (env : Env) : Nat → State → Option (Nat × State) :=
  loopPages promoteExhaustedChannelMessagesPageSize (promoteExhaustedChannelPage q env)

def resetTimedOutMessages (q : Queue) (env : Env) : Nat → State → Option (Nat × State) :=
  loopPages retentionPurgePageSize (resetTimedOutPage q env)

/-- the pages test whether their purge is on -/
def applyRetentionPolicy (env : Env) (policy : RetentionPolicy) : Nat → State → Option (Nat × State) :=
  inTurn [purgeCompletedMessages env policy.completedMessageTTL,
    purgeOldPendingMessages env policy.maxPendingAge, purgeDLQMessages env policy.dlqRetention]

def reclaimTimedOut (q : Queue) (env : Env) : Nat → State → Option (Nat × State) :=
  inTurn [promoteExhaustedChannelMessages q env, resetTimedOutMessages q env]

def doCollectQueue (config : GarbageCollectorConfig) (q : Queue) (env : Env) (fuel : Nat) (s : State) :
    Option ((Nat × Nat) × State) :=
  (applyRetentionPolicy env (config.getPolicy q.name) fuel s).bind fun purged =>
    (reclaimTimedOut q env fuel purged.2).map fun reclaimed => ((purged.1, reclaimed.1), reclaimed.2)

/-! the phases as statements on the whole tables -/

def delete (p : Row → Bool) : SetOp State :=
  ⟨fun s => (s.msgs.rows.filter p).length, fun s => { s with msgs := s.msgs.delete p }⟩

def deleteDLQ (p : DLQRow → Bool) : SetOp State :=
  ⟨fun s => (s.dlq.filter p).length, fun s => { s with dlq := s.dlq.filter fun d => !p d }⟩

def promote (q : Queue) (env : Env) : SetOp State :=
  ⟨fun s => (s.msgs.rows.filter (Row.exhausted q env)).length, fun s =>
    { s with
      msgs := s.msgs.delete (Row.exhausted q env)
      dlq := s.dlq ++ dlqRows q.gen s.seq env.now none (truncateErrorMsg errReasonVisibilityTimeout)
        ((s.msgs.select (Row.exhausted q env) (fun a b => a.id ≤ b.id)).map Row.letter)
      seq := s.seq + (s.msgs.rows.filter (Row.exhausted q env)).length }⟩

def reset (q : Queue) (env : Env) : SetOp State :=
  ⟨fun s => (s.msgs.rows.filter (Row.resettable q env)).length,
    fun s => { s with msgs := s.msgs.update (Row.resettable q env) Row.reset Row.id_reset }⟩

def purges (env : Env) (policy : RetentionPolicy) : SetOp State :=
  .all [(delete (Row.completedBefore env policy.completedMessageTTL)).when
      (policy.completedMessageTTL > 0),
    (delete (Row.pendingSince env policy.maxPendingAge)).when (policy.maxPendingAge > 0),
    (deleteDLQ (DLQRow.old env policy.dlqRetention)).when (policy.dlqRetention > 0)]

def reclaims (q : Queue) (env : Env) : SetOp State := .all [promote q env, reset q env]

end Collect
end Channel

/-! ## topics -/

namespace Topic

def Sub.exhausted (q : Queue) (env : Env) (r : Sub) : Bool :=
  r.timedOut env.now && decide (r.retryCount ≥ q.resolveMaxRetries)

def Sub.resettable (q : Queue) (env : Env) (r : Sub) : Bool :=
  r.timedOut env.now && decide (r.retryCount < q.resolveMaxRetries)

/-- old, acknowledged by all that still have a row, and no dead letter refers to it -/
def State.completedBefore (env : Env) (ttl : Duration) (s : State) (m : MessageRow) : Bool :=
  decide (m.createdAt < env.now - ttl)
    && !(s.subs.rows.any fun r => decide (r.messageID = m.id) && decide (r.status ≠ .acked))
    && !s.deadLettered m

def State.pendingSince (env : Env) (maxAge : Duration) (s : State) (r : Sub) : Bool :=
  decide (r.status = .pending)
    && s.tables.parentIs (fun m => decide (m.createdAt < env.now - maxAge)) r

/-- the row of a subscriber that has unsubscribed, and not in flight -/
def State.abandoned (env : Env) (s : State) (r : Sub) : Bool :=
  (s.subscribers.rows.any fun x => decide (x.subscriberID = r.subscriberID) && !x.active)
    && !r.inFlight env.now

def State.orphan (s : State) (m : MessageRow) : Bool :=
  !(s.subs.rows.any fun r => decide (r.messageID = m.id)) && !s.deadLettered m

namespace Collect

def purgeCompletedMessages (env : Env) (ttl : Duration) : Nat → State → Option (Nat × State) :=
  loopPages retentionPurgePageSize (purgeCompletedPage env ttl)

def purgeOldPendingMessages (env : Env) (maxAge : Duration) : Nat → State → Option (Nat × State) :=
  loopPages retentionPurgePageSize (purgeOldPendingPage env maxAge)

def purgeDLQMessages (env : Env) (retention : Duration) : Nat → State → Option (Nat × State) :=
  loopPages retentionPurgePageSize (purgeDLQPage env retention)

def purgeInactiveSubscriptions (env : Env) : Nat → State → Option (Nat × State) :=
  loopPages retentionPurgePageSize (purgeInactiveSubscriptionsPage env)

def reclaimOrphanTopicMessages : Nat → State → Option (Nat × State) :=
  loopPages retentionPurgePageSize reclaimOrphanTopicMessagesPage

def promoteExhaustedTopicSubscriptions (q : Queue) (env : Env) : Nat → State → Option (Nat × State) :=
  loopPages promoteExhaustedTopicSubscriptionsPageSize (promoteExhaustedTopicPage q env)

def resetTimedOutSubscriptions (q : Queue) (env : Env) : Nat → State → Option (Nat × State) :=
  loopPages retentionPurgePageSize (resetTimedOutPage q env)

/-- the pages test whether their purge is on -/
def applyRetentionPolicy (env : Env) (policy : RetentionPolicy) : Nat → State → Option (Nat × State) :=
  inTurn [purgeCompletedMessages env policy.completedMessageTTL,
    purgeOldPendingMessages env policy.maxPendingAge, purgeDLQMessages env policy.dlqRetention]

def reclaimTimedOut (q : Queue) (env : Env) : Nat → State → Option (Nat × State) :=
  inTurn [promoteExhaustedTopicSubscriptions q env, resetTimedOutSubscriptions q env]

def doCollectQueue (config : GarbageCollectorConfig) (q : Queue) (env : Env) (fuel : Nat) (s : State) :
    Option ((Nat × Nat) × State) :=
  (inTurn [applyRetentionPolicy env (config.getPolicy q.name), purgeInactiveSubscriptions env,
      reclaimOrphanTopicMessages] fuel s).bind fun purged =>
    (reclaimTimedOut q env fuel purged.2).map fun reclaimed => ((purged.1, reclaimed.1), reclaimed.2)

/-! the phases as statements on the whole tables; what the cascade deletes is not counted -/

def deleteMessages (p : State → MessageRow → Bool) : SetOp State :=
  ⟨fun s => (s.msgs.rows.filter (p s)).length, fun s => { s with tables := s.tables.deleteParents (p s) }⟩

def deleteSubs (p : State → Sub → Bool) : SetOp State :=
  ⟨fun s => (s.subs.rows.filter (p s)).length, fun s => { s with tables := s.tables.deleteChildren (p s) }⟩

def deleteDLQ (p : DLQRow → Bool) : SetOp State :=
  ⟨fun s => (s.dlq.filter p).length, fun s => { s with dlq := s.dlq.filter fun d => !p d }⟩

def letterRow (q : Queue) (env : Env) (seq : Nat) (c : Candidate) : List DLQRow :=
  dlqRows q.gen seq env.now (some c.sub.subscriberID) (truncateErrorMsg errReasonVisibilityTimeout)
    [⟨c.sub.messageID, c.msg.payload, c.sub.retryCount + 1, c.msg.metadata⟩]

def letters (q : Queue) (env : Env) : Nat → List Candidate → List DLQRow
  | _, [] => []
  | seq, c :: cs => letterRow q env seq c ++ letters q env (seq + 1) cs

def promote (q : Queue) (env : Env) : SetOp State :=
  ⟨fun s => (s.subs.rows.filter (Sub.exhausted q env)).length, fun s =>
    { s with
      tables := s.tables.deleteChildren (Sub.exhausted q env)
      dlq := s.dlq ++ letters q env s.seq
        ((s.subs.select (Sub.exhausted q env) (fun a b => a.id ≤ b.id)).filterMap s.candidate)
      seq := s.seq + (s.subs.rows.filter (Sub.exhausted q env)).length }⟩

def reset (q : Queue) (env : Env) : SetOp State :=
  ⟨fun s => (s.subs.rows.filter (Sub.resettable q env)).length, fun s =>
    { s with tables := s.tables.updateChildren (Sub.resettable q env) Sub.reset Sub.key_reset }⟩

def retention (env : Env) (policy : RetentionPolicy) : SetOp State :=
  .all [(deleteMessages (State.completedBefore env policy.completedMessageTTL)).when
      (policy.completedMessageTTL > 0),
    (deleteSubs (State.pendingSince env policy.maxPendingAge)).when (policy.maxPendingAge > 0),
    (deleteDLQ (DLQRow.old env policy.dlqRetention)).when (policy.dlqRetention > 0)]

def purges (env : Env) (policy : RetentionPolicy) : SetOp State :=
  .all [retention env policy, deleteSubs (State.abandoned env), deleteMessages State.orphan]

def reclaims (q : Queue) (env : Env) : SetOp State := .all [promote q env, reset q env]

end Collect
end Topic
end PgQueue
