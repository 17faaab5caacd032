import PgQueue.Channel.Conserve
import PgQueue.Topic.Conserve

/-!
# Nothing is lost, nothing is there twice

* `contents_conserved`   the messages of a channel, counted over its two tables;
* `pairs_conserved`      the pairs of a message and a subscriber of a topic, and the messages the
                         dead letters refer to.
-/

namespace PgQueue
open Relational Lease

/-- **Channel conservation.**  In every state a channel can get to, a transaction that is not a
publish, a purge or a deletion keeps the multiset of ids, payloads and metadata over the message
table and the dead letters.  A publish only adds to it, a purge or a deletion only removes. -/
theorem contents_conserved (q : Queue) (s : Channel.State) (h : History UUID) (t : Time)
    (hr : Channel.Reach q s h t) (env : Env) (op : Channel.Op) :
    op.effect.Relates (Channel.contents s) (Channel.contents (Channel.step q env s op).1) :=
  Channel.step_relates op hr.ids

/-- a message is dead-lettered (no retry is configured), its id is published again, and then the
dead letter is replayed: it stays, since the id is live -/
theorem contents_conserved_live_id :
    ∃ s h t, Channel.Reach (.counting 0) s h t ∧
      Channel.contents s = [(7, [2], none), (7, [1], none)] ∧
      (Channel.contents (Channel.step (.counting 0) (.bare 9) s (.replayDLQ 0 0 none false)).1).Perm
        [(7, [2], none), (7, [1], none)] := by
  have hc := Channel.Reach.next (.next (.next (.next (.init (q := .counting 0) 0) (.bare 0)
    (.publish ⟨7, [1], none⟩) (by decide)) (.bare 5) (.receive hour) (by decide)) (.bare 6)
    (.nack ⟨7, 1, "orders", some .channel, ""⟩ [] 0) (by decide)) (.bare 7)
    (.publish ⟨7, [2], none⟩) (by decide)
  exact ⟨_, _, _, hc, by decide,
    contents_conserved (.counting 0) _ _ _ hc (.bare 9) (.replayDLQ 0 0 none false)⟩

/-- **Topic conservation.**  In every state a topic can get to, every dead letter's message is in
the message table, and no pair of a message and a subscriber is held twice, be it by a
subscription row or by a dead letter.  A transaction only adds pairs (a publish), only removes
some, or keeps them; a pair goes for one of the reasons in `Removed` only; and but for an explicit
purge or deletion, a message with a row that is not acked, or with a dead letter, stays. -/
theorem pairs_conserved (q : Queue) (s : Topic.State) (h : History (UUID × String)) (t : Time)
    (hr : Topic.Reach q s h t) :
    (∀ d ∈ s.dlq, d.originalMessageID ∈ s.msgs.rows.map Topic.MessageRow.id) ∧
    (Topic.pairs s).Nodup ∧
    ∀ env op,
      op.effect.Relates (Topic.pairs s) (Topic.pairs (Topic.step q env s op).1) ∧
      (∀ p ∈ Topic.pairs s, p ∈ Topic.pairs (Topic.step q env s op).1 ∨ Topic.Removed env s p op) ∧
      (op ≠ .purgeQueue → op ≠ .deleteTopic → ∀ m ∈ s.msgs.rows, Topic.Needed s m →
        m ∈ (Topic.step q env s op).1.msgs.rows) := by
  refine ⟨fun d hd => ?_, hr.intact.nodup, fun env op => ⟨Topic.step_relates op hr.intact hr.wf,
    fun p hp => Topic.step_removed op hr.intact hr.wf hp,
    fun hne hne' m hm hneed => Topic.step_needed op hne hne' hr.intact hr.wf hm hneed⟩⟩
  obtain ⟨m, hm⟩ := Option.isSome_iff_exists.mp
    (hr.intact.resolves _ (Topic.mem_pairs_dlq hd))
  exact List.mem_map.mpr ⟨m, Table.find?_eq_some.mp hm⟩

/-- a subscription is dead-lettered; the garbage collector then spares the message -/
theorem pairs_conserved_dead_letter :
    ∃ s h t, Topic.Reach (.counting 0) s h t ∧ Topic.pairs s = [(7, some "a")] ∧
      s.subs.rows = [] ∧ (Topic.pairs s).Nodup ∧
      ((7, some "a") ∈ Topic.pairs (Topic.step (.counting 0) (.bare 9) s .reclaimOrphans).1 ∨
        Topic.Removed (.bare 9) s (7, some "a") .reclaimOrphans) := by
  have ht := Topic.Reach.next (.next (.next (.next (.init (q := .counting 0) 0) (.bare 0)
    (.subscribe "a") (by decide)) (.bare 0) (.publish ⟨7, [], none⟩) (by decide)) (.bare 5)
    (.receive "a" hour) (by decide)) (.bare 6)
    (.nack ⟨7, 2, "orders", some .pubsub, "a"⟩ [] 0) (by decide)
  have hres := pairs_conserved (.counting 0) _ _ _ ht
  exact ⟨_, _, _, ht, by decide, by decide, hres.2.1,
    (hres.2.2 (.bare 9) .reclaimOrphans).2.1 (7, some "a") (by decide)⟩

end PgQueue
