import PgQueue.Collect.Channel
import PgQueue.Collect.Topic
import PgQueue.Guarantees.OneCall

/-!
# What one pass of the garbage collector does

`collect_exact`: **at a clock that stands still, a pass over a channel or a topic of any size returns, and
what it returns and leaves are its phases as statements on whole tables; every row that the purges leave
timed out is dead-lettered or reset, one of the two, and none stays timed out.**

The ids of dead letters and of subscription rows are the primary keys of their tables.
-/

namespace PgQueue
open Relational

theorem collect_exact (config : GarbageCollectorConfig) (q : Queue) (env : Env) :
    (∀ s : Channel.State, KeyedDLQ s.dlq →
      let purges := Channel.Collect.purges env (config.getPolicy q.name)
      let reclaims := Channel.Collect.reclaims q env
      let kept := purges.apply s
      Returns (fun fuel => Channel.Collect.doCollectQueue config q env fuel s)
          ((purges.count s, reclaims.count kept), reclaims.apply kept) ∧
        ∃ new, (reclaims.apply kept).dlq = kept.dlq ++ new ∧
          Handled (Channel.Row.timedOut env.now) Channel.Row.reset Channel.Row.id kept.msgs.rows
            (reclaims.apply kept).msgs.rows (new.map DLQRow.originalMessageID)
            (reclaims.count kept)) ∧
      (∀ s : Topic.State, KeyedDLQ s.dlq → (s.subs.rows.map Topic.Sub.id).Nodup →
        let purges := Topic.Collect.purges env (config.getPolicy q.name)
        let reclaims := Topic.Collect.reclaims q env
        let kept := purges.apply s
        Returns (fun fuel => Topic.Collect.doCollectQueue config q env fuel s)
            ((purges.count s, reclaims.count kept), reclaims.apply kept) ∧
          ∃ new, (reclaims.apply kept).dlq = kept.dlq ++ new ∧
            Handled (Topic.Sub.timedOut env.now) Topic.Sub.reset Topic.Sub.pair kept.subs.rows
              (reclaims.apply kept).subs.rows (new.map Topic.dlqPair) (reclaims.count kept)) := by
  refine ⟨fun s hdlq => ⟨?_, ?_⟩, fun s hdlq hsubs => ⟨?_, ?_⟩⟩
  · exact Channel.Collect.doCollectQueue_returns config hdlq
  · exact Channel.Collect.handled q env _
  · exact Topic.Collect.doCollectQueue_returns config ⟨hsubs, fun _ => hdlq⟩
  · exact Topic.Collect.handled q env _

/-- 7 was delivered twice and 8 once, each time for 1000 µs, and nobody answered; 9 was acknowledged -/
def halfAnswered : Channel.State :=
  (Channel.runFrom (.counting 1) .init
    [(.bare 0, .publish ⟨7, [1], none⟩), (.bare 0, .receive 1000), (.bare 5000, .receive 1000),
      (.bare 5000, .publish ⟨8, [2], none⟩), (.bare 5000, .receive 1000),
      (.bare 5000, .publish ⟨9, [3], none⟩), (.bare 5000, .receive 1000),
      (.bare 5500, .ack ⟨9, 4, "orders", some .channel, ""⟩)]).1

def purgeCompleted : GarbageCollectorConfig := ⟨[("orders", ⟨1000, 0, 0⟩)], ⟨-1, -1, -1⟩⟩

/-- a pass at 9000 purges 9, dead-letters 7 and resets 8 -/
theorem collect_exact_halfAnswered :
    (∃ final, Returns (fun fuel => Channel.Collect.doCollectQueue purgeCompleted (.counting 1)
        (.bare 9000) fuel halfAnswered) ((1, 2), final) ∧
      final.msgs.rows.map (fun r => (r.id, r.status, r.retryCount)) = [(8, .pending, 1)] ∧
      final.dlq.map DLQRow.originalMessageID = [7]) ∧
    (∃ final, Returns (fun fuel => Topic.Collect.doCollectQueue purgeCompleted (.counting 1)
        (.bare 9000) fuel abandonedTopic) ((0, 2), final) ∧
      final.subs.rows.map (fun r => (r.messageID, r.status, r.retryCount)) = [(8, .pending, 1)] ∧
      final.dlq.map Topic.dlqPair = [(7, some "a")]) := by
  have h := collect_exact purgeCompleted (.counting 1) (.bare 9000)
  refine ⟨⟨_, (h.1 halfAnswered ?_).1, rfl, rfl⟩, _, (h.2 abandonedTopic ?_ ?_).1, rfl, rfl⟩
  · exact List.nodup_nil
  · exact List.nodup_nil
  · decide

end PgQueue
