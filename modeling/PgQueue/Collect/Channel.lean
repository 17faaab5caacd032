import PgQueue.Channel.Refine
import PgQueue.Collect.Model

/-!
# The collection of a channel is its phases on whole tables

* `realises_delete`, `realises_deleteDLQ`   a purge in pages deletes what the whole statement deletes;
* `realises_promote`, `realises_reset`      the promotion and the reset of the timed-out rows;
* `doCollectQueue_returns`   **a pass returns, with the counts and the tables of the statements**;
* `handled`                  every timed-out row is promoted or reset, and none is left.
-/

namespace PgQueue
open Relational List

namespace Channel.Collect

section
variable {q : Queue} {env : Env} {s : State}

def Keyed (s : State) : Prop := KeyedDLQ s.dlq

/-! ## purges -/

theorem realises_delete {p : Row → Bool} {le : Row → Row → Prop} [DecidableRel le]
    (hsorted : ∀ l : List Row, (l.insertionSort le).Pairwise le)
    (hanti : ∀ a b, le a b → le b a → a.id = b.id) :
    Realises Keyed (loopPages retentionPurgePageSize (purgeMessagesPage p le)) (delete p) := by
  have hdue : Due Keyed retentionPurgePageSize (purgeMessagesPage p le)
      (fun s => (s.msgs.rows.filter p).insertionSort le)
      (fun xs s => { s with msgs := s.msgs.delete (listed xs) }) :=
    Due.of_delete hsorted hanti (fun _ _ => rfl) (fun _ _ hs => hs) (fun s _ => s.msgs.nodup)
      (fun _ _ => rfl) (fun _ _ _ _ _ => rfl) fun s xs ys _ =>
        congrArg (fun t => { s with msgs := t }) Table.delete_append
  refine hdue.realises_query (by decide) (fun _ => rfl) fun s xs _ hxs => ?_
  exact congrArg (fun t => { s with msgs := t }) (Table.delete_query s.msgs.nodup hxs)

theorem realises_applyRetentionPolicy (policy : RetentionPolicy) :
    Realises Keyed (applyRetentionPolicy env policy) (purges env policy) := by
  refine .inTurn (.cons ?_ (.cons ?_ (.cons ?_ .nil)))
  · refine Realises.when (by decide) fun _ => realises_delete ?_ ?_
    · exact Earlier.pairwise_insertionSort fun r : Row => (r.processedAt.getD 0, r.id)
    · exact fun a b hab hba => hab.antisymm hba
  · refine Realises.when (by decide) fun _ => realises_delete (insertionSort_id Row.id) ?_
    exact fun a b hab hba => Nat.le_antisymm hab hba
  · exact realises_purgeDLQ (fun dlq (s : State) => { s with dlq := dlq }) (fun _ _ hs => hs)
      (fun _ _ h _ => h) (fun _ _ => rfl) (fun _ _ _ => rfl) fun _ => rfl

/-! ## timed-out rows -/

theorem hits_letters (xs : List Row) (r : Row) :
    ((xs.map Row.letter).any fun m => decide (m.id = r.id)) = hits Row.id xs r := any_map

theorem realises_promote :
    Realises (fun _ => True) (promoteExhaustedChannelMessages q env) (promote q env) := by
  have hdue : Due (fun _ => True) promoteExhaustedChannelMessagesPageSize
      (promoteExhaustedChannelPage q env)
      (fun s => (s.msgs.rows.filter (Row.exhausted q env)).insertionSort fun a b => a.id ≤ b.id)
      (fun xs s => batchMoveToDLQ q env (xs.map Row.letter) errReasonVisibilityTimeout s) := by
    refine Due.of_delete (insertionSort_id Row.id) (fun a b hab hba => Nat.le_antisymm hab hba)
      (fun s _ => ?_) (fun _ _ hs => hs) (fun s _ => s.msgs.nodup) (fun s xs => ?_)
      (fun _ _ _ _ _ => rfl) fun s xs ys _ => ?_
    · unfold promoteExhaustedChannelPage
      dsimp only
      rw [foldl_moveToDLQ]
      rfl
    · show s.msgs.rows.filter _ = _
      simp only [hits_letters]
    · rw [map_append]
      exact batchMoveToDLQ_append _ _ _
  refine hdue.realises (by decide) (fun s _ => ?_) fun s _ => ?_
  · exact (perm_insertionSort _ _).length_eq.symm
  · have hperm := perm_insertionSort (fun a b : Row => a.id ≤ b.id)
      (s.msgs.rows.filter (Row.exhausted q env))
    unfold batchMoveToDLQ
    simp only [hits_letters]
    rw [Table.delete_query s.msgs.nodup hperm, length_map, hperm.length_eq]
    rfl

theorem realises_reset :
    Realises (fun _ => True) (resetTimedOutMessages q env) (reset q env) := by
  have hdue : Due (fun _ => True) retentionPurgePageSize (resetTimedOutPage q env)
      (fun s => (s.msgs.rows.filter (Row.resettable q env)).insertionSort fun a b =>
        Earlier (a.visibilityTimeout.getD 0, a.id) (b.visibilityTimeout.getD 0, b.id))
      (fun xs s => { s with msgs := s.msgs.update (listed xs) Row.reset Row.id_reset }) :=
    Due.of_update (Earlier.pairwise_insertionSort fun r : Row => (r.visibilityTimeout.getD 0, r.id))
      (fun a b hab hba => hab.antisymm hba) (fun _ _ => rfl) (fun _ _ hs => hs)
      (fun s _ => s.msgs.nodup) (fun _ _ => rfl) (fun _ => rfl) fun s xs ys hdisj =>
        congrArg (fun t => { s with msgs := t }) (Table.update_append _ Row.id_reset hdisj)
  refine hdue.realises_query (by decide) (fun _ => rfl) fun s xs _ hxs => ?_
  exact congrArg (fun t => { s with msgs := t }) (Table.update_query _ s.msgs.nodup hxs)

/-! ## the pass -/

theorem realises_reclaims : Realises (fun _ => True) (reclaimTimedOut q env) (reclaims q env) :=
  .inTurn (.cons realises_promote (.cons realises_reset .nil))

theorem doCollectQueue_returns (config : GarbageCollectorConfig) (hs : Keyed s) :
    Returns (fun fuel => doCollectQueue config q env fuel s)
      (((purges env (config.getPolicy q.name)).count s,
          (reclaims q env).count ((purges env (config.getPolicy q.name)).apply s)),
        (reclaims q env).apply ((purges env (config.getPolicy q.name)).apply s)) := by
  exact ((realises_applyRetentionPolicy _).returns s hs).bind (realises_reclaims.returns _ trivial).map

theorem handled (q : Queue) (env : Env) (s : State) :
    ∃ new, ((reclaims q env).apply s).dlq = s.dlq ++ new ∧
      Handled (Row.timedOut env.now) Row.reset Row.id s.msgs.rows ((reclaims q env).apply s).msgs.rows
        (new.map DLQRow.originalMessageID) ((reclaims q env).count s) := by
  refine ⟨_, rfl, Handled.of_split (fun r => timedOut_split _ r.retryCount (r.cap q)) Row.id_reset
    (fun _ => rfl) s.msgs.nodup ?_⟩
  rw [originalMessageID_dlqRows, map_map]
  exact (s.msgs.select_perm _ _).map Row.id

end
end Channel.Collect
end PgQueue
