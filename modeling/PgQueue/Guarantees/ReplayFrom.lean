import PgQueue.Replay.From
import PgQueue.Channel.Run
import PgQueue.Topic.Maintenance

/-!
# What ReplayFrom resets

* `Channel.replaying`, `Topic.replaying`   a replay of a channel works on its messages, a replay of a topic
                         on its subscription rows, with the publish time of their message;
* `Channel.lawful`, `Topic.lawful`         their pages reset what they fetch.

`replayFrom_exact`: **a call that is alone resets the first rows in the order of their ids, up to the
limit, and nothing else, reports and logs their number, and a dry run announces it; among other
transactions it resets no row twice and stays within the limit.**
-/

namespace PgQueue
open Relational List

theorem logged_page {ρ κ : Type} {rows : List ρ} {fetched : List κ} (h : rows.length = fetched.length)
    (log : List Nat) :
    (if rows.isEmpty then log else log ++ [rows.length]) =
      log ++ if fetched = [] then [] else [fetched.length] := by
  cases rows with
  | nil =>
    rw [length_eq_zero_iff.mp h.symm]
    exact (append_nil log).symm
  | cons r rows =>
    have hne : fetched ≠ [] := by
      rintro rfl
      cases h
    rw [if_neg hne, ← h]
    rfl

namespace Channel

def replaying (q : Queue) (since : Time) (performedBy : Option String) :
    Replaying State Row UUID (List DLQRow) where
  rows s := s.msgs.rows
  id := Row.id
  eligible _ r := decide (r.createdAt ≥ since) && r.settled
  reset := Row.replay
  page env afterID n := replayFromPage q env since afterID n performedBy
  logged s := s.replayLog.map ReplayLogRow.messageCount
  rest := State.dlq

section
variable (q : Queue) (since : Time) (performedBy : Option String)

theorem distinct (s : State) : (replaying q since performedBy).Distinct s := s.msgs.nodup

theorem settled_of_eligible {s : State} (r : Row)
    (h : (replaying q since performedBy).eligible s r = true) : r.settled = true :=
  (Bool.and_eq_true _ _ ▸ h : _ ∧ _).2

theorem length_reinstated (a : UUID) (n : Nat) (s : State) :
    (applyReplayFrom (fetchReplayCandidateIDs since a n s) s).1.length =
      ((replaying q since performedBy).fetch a n s).length := by
  show ((s.msgs.rows.filter _).map Row.id).length = _
  rw [length_map]
  exact ((distinct q since performedBy s).perm_fetch
    (settled_of_eligible q since performedBy)).length_eq

theorem replayFromPage_tables (env : Env) (a : UUID) (n : Nat) (s : State) :
    (replayFromPage q env since a n performedBy s).2.msgs =
        (applyReplayFrom (fetchReplayCandidateIDs since a n s) s).2.msgs ∧
      (replayFromPage q env since a n performedBy s).2.dlq = s.dlq ∧
      (replayFromPage q env since a n performedBy s).2.replayLog.map ReplayLogRow.messageCount =
        if (applyReplayFrom (fetchReplayCandidateIDs since a n s) s).1.isEmpty then
          s.replayLog.map ReplayLogRow.messageCount
        else s.replayLog.map ReplayLogRow.messageCount ++
          [(applyReplayFrom (fetchReplayCandidateIDs since a n s) s).1.length] := by
  unfold replayFromPage
  dsimp only
  split
  · exact ⟨rfl, rfl, rfl⟩
  · exact ⟨rfl, rfl, map_append⟩

theorem lawful : (replaying q since performedBy).Lawful where
  id_reset _ := rfl
  eligible_reset s r := Bool.and_false _
  replayed env a n s _ := length_reinstated q since performedBy a n s
  fetched env a n s := length_map _
  lastID env a n s := rfl
  rows env a n s hd := by
    show (replayFromPage q env since a n performedBy s).2.msgs.rows = _
    rw [(replayFromPage_tables q since performedBy env a n s).1]
    exact hd.map_fetch (settled_of_eligible q since performedBy)
  eligible _ _ _ _ := rfl
  logged env a n s _ := by
    show (replayFromPage q env since a n performedBy s).2.replayLog.map ReplayLogRow.messageCount = _
    rw [(replayFromPage_tables q since performedBy env a n s).2.2]
    exact logged_page (length_reinstated q since performedBy a n s) _
  rest env a n s := (replayFromPage_tables q since performedBy env a n s).2.1

end
end Channel

namespace Topic

def replaying (q : Queue) (since : Time) (performedBy : Option String) :
    Replaying State Sub (UUID × String)
      (Table MessageRow UUID MessageRow.id × Table Subscriber String Subscriber.subscriberID ×
        List DLQRow) where
  rows s := s.subs.rows
  id := Sub.id
  eligible s r := s.tables.parentIs (fun m => decide (m.createdAt ≥ since)) r && r.settled
  reset := Sub.replay
  page env afterID n := replayFromPage q env since afterID n performedBy
  logged s := s.replayLog.map ReplayLogRow.messageCount
  rest s := (s.msgs, s.subscribers, s.dlq)

section
variable (q : Queue) (since : Time) (performedBy : Option String)

theorem settled_of_eligible {s : State} (r : Sub)
    (h : (replaying q since performedBy).eligible s r = true) : r.settled = true :=
  (Bool.and_eq_true _ _ ▸ h : _ ∧ _).2

theorem length_reinstated (a : UUID) (n : Nat) {s : State}
    (hd : (replaying q since performedBy).Distinct s) :
    (applyReplayFrom (fetchReplayCandidateIDs since a n s) s).1.length =
      ((replaying q since performedBy).fetch a n s).length := by
  show ((s.subs.rows.filter _).map Sub.key).length = _
  rw [length_map]
  exact (hd.perm_fetch (settled_of_eligible q since performedBy)).length_eq

theorem replayFromPage_tables (env : Env) (a : UUID) (n : Nat) (s : State) :
    (replayFromPage q env since a n performedBy s).2.subs =
        (applyReplayFrom (fetchReplayCandidateIDs since a n s) s).2.subs ∧
      (replayFromPage q env since a n performedBy s).2.msgs = s.msgs ∧
      (replayFromPage q env since a n performedBy s).2.subscribers = s.subscribers ∧
      (replayFromPage q env since a n performedBy s).2.dlq = s.dlq ∧
      (replayFromPage q env since a n performedBy s).2.replayLog.map ReplayLogRow.messageCount =
        if (applyReplayFrom (fetchReplayCandidateIDs since a n s) s).1.isEmpty then
          s.replayLog.map ReplayLogRow.messageCount
        else s.replayLog.map ReplayLogRow.messageCount ++
          [(applyReplayFrom (fetchReplayCandidateIDs since a n s) s).1.length] := by
  unfold replayFromPage
  dsimp only
  split
  · exact ⟨rfl, rfl, rfl, rfl, rfl⟩
  · exact ⟨rfl, rfl, rfl, rfl, map_append⟩

theorem lawful : (replaying q since performedBy).Lawful where
  id_reset _ := rfl
  eligible_reset s r := Bool.and_false _
  replayed env a n s hd := length_reinstated q since performedBy a n hd
  fetched env a n s := length_map _
  lastID env a n s := rfl
  rows env a n s hd := by
    show (replayFromPage q env since a n performedBy s).2.subs.rows = _
    rw [(replayFromPage_tables q since performedBy env a n s).1]
    exact hd.map_fetch (settled_of_eligible q since performedBy)
  eligible env a n s := by
    funext r
    have hmsgs := (replayFromPage_tables q since performedBy env a n s).2.1
    show ((replayFromPage q env since a n performedBy s).2.tables.parentIs _ r && _) = _
    unfold Linked.parentIs
    rw [show (replayFromPage q env since a n performedBy s).2.tables.parents = s.tables.parents from
      hmsgs]
    rfl
  logged env a n s hd := by
    show (replayFromPage q env since a n performedBy s).2.replayLog.map ReplayLogRow.messageCount = _
    rw [(replayFromPage_tables q since performedBy env a n s).2.2.2.2]
    exact logged_page (length_reinstated q since performedBy a n hd) _
  rest env a n s := by
    obtain ⟨-, hmsgs, hsubs, hdlq, -⟩ := replayFromPage_tables q since performedBy env a n s
    exact Prod.ext hmsgs (Prod.ext hsubs hdlq)

end
end Topic

/-- The id of a subscription row is the primary key of its table. `Publish` stores no nil id: it takes
one for the request to draw an id. -/
theorem replayFrom_exact (q : Queue) (since : Time) (opts : ReplayOptions)
    (hopts : validateReplayOpts opts = .ok ()) (hreal : opts.dryRun = false) :
    (∀ envs s, (Channel.replaying q since opts.performedBy).Exact opts envs s) ∧
      (∀ envs (s : Topic.State), (s.subs.rows.map Topic.Sub.id).Nodup →
        (Topic.replaying q since opts.performedBy).Exact opts envs s) ∧
      (∀ txn fuel s, (Channel.replaying q since opts.performedBy).Among opts txn fuel s) ∧
      (∀ (txn : Nat → Topic.State → Except QueueError (Env × Topic.State)) fuel s,
        (∀ i s env s', txn i s = .ok (env, s') → (s'.subs.rows.map Topic.Sub.id).Nodup) →
        (Topic.replaying q since opts.performedBy).Among opts txn fuel s) := by
  have hc := Channel.lawful q since opts.performedBy
  have ht := Topic.lawful q since opts.performedBy
  refine ⟨fun envs s => ?_, fun envs s hd => ht.exact hopts hreal hd envs, fun txn fuel s => ?_,
    fun txn fuel s htxn => ht.among htxn fuel⟩
  · exact hc.exact hopts hreal (Channel.distinct q since opts.performedBy s) envs
  · exact hc.among (fun _ _ _ s' _ => Channel.distinct q since opts.performedBy s') fuel

/-- message 7 has been acknowledged, message 8 has not been received -/
def acknowledgedAndPending : Channel.State :=
  (Channel.runFrom (.counting 3) .init
    [(.bare 0, .publish ⟨7, [1], none⟩), (.bare 1, .receive 1000),
      (.bare 2, .ack ⟨7, 1, "orders", some .channel, ""⟩), (.bare 3, .publish ⟨8, [2], none⟩)]).1

/-- with a limit of one: message 7 is reset, message 8 is not -/
theorem replayFrom_exact_limitOne :
    ∃ s', (Channel.replaying (.counting 3) 0 none).replayFrom false true ⟨false, 1, none⟩
        (fun _ s => .ok (.bare 4, s)) 3 acknowledgedAndPending = some (.ok 1, s') ∧
      s'.msgs.rows.map Channel.Row.status = [.pending, .pending] ∧
      acknowledgedAndPending.msgs.rows.map Channel.Row.status = [.completed, .pending] := by
  obtain ⟨s', hrun, hrows, -⟩ := ((replayFrom_exact (.counting 3) 0 ⟨false, 1, none⟩ rfl rfl).1
    (fun _ => .bare 4) acknowledgedAndPending).run
  exact ⟨s', hrun, congrArg (List.map Channel.Row.status) hrows, rfl⟩

end PgQueue
