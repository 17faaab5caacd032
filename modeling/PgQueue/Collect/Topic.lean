import PgQueue.Topic.Conserve
import PgQueue.Collect.Model

/-!
# The collection of a topic is its phases on whole tables

* `realises_deleteSubs`, `realises_deleteMessages`   a purge in pages deletes what the whole statement
                         deletes; a page of messages does not change which others are due;
* `foldl_moveSubToDLQ`   the loop of a promotion page is one statement;
* `realises_promote`, `realises_reset`   the promotion and the reset of the timed-out rows;
* `doCollectQueue_returns`   **a pass returns, with the counts and the tables of the statements**;
* `handled`                  every timed-out row is promoted or reset, and none is left.
-/

namespace PgQueue.Topic.Collect
open Relational List

def KeyedSubs (s : State) : Prop := (s.subs.rows.map Sub.id).Nodup

/-- the ids a pass with this policy relies on -/
structure Keyed (policy : RetentionPolicy) (s : State) : Prop where
  subs : KeyedSubs s
  dlq : policy.dlqRetention > 0 → KeyedDLQ s.dlq

section
variable {q : Queue} {env : Env} {s : State} {xs : List Sub} {m : MessageRow}
  {policy : RetentionPolicy}

/-! ## purges -/

theorem Keyed.deleteChildren (hs : Keyed policy s) (p : Sub → Bool) :
    Keyed policy { s with tables := s.tables.deleteChildren p } :=
  ⟨(filter_sublist.map Sub.id).nodup hs.subs, hs.dlq⟩

theorem Keyed.deleteParents (hs : Keyed policy s) (p : MessageRow → Bool) :
    Keyed policy { s with tables := s.tables.deleteParents p } :=
  ⟨(filter_sublist.map Sub.id).nodup hs.subs, hs.dlq⟩

theorem realises_deleteSubs {p : State → Sub → Bool}
    (hp : ∀ s q r, p { s with tables := s.tables.deleteChildren q } r = p s r) :
    Realises (Keyed policy) (loopPages retentionPurgePageSize fun s => purgeSubsPage (p s) s) (deleteSubs p) := by
  have hdue : Due (Keyed policy) retentionPurgePageSize (fun s => purgeSubsPage (p s) s)
      (fun s => (s.subs.rows.filter (p s)).insertionSort fun a b => a.id ≤ b.id)
      (fun xs s => { s with tables := s.tables.deleteChildren (listed xs) }) :=
    Due.of_delete (insertionSort_id Sub.id) (fun a b hab hba => Nat.le_antisymm hab hba)
      (fun _ _ => rfl) (fun _ _ hs => hs.deleteChildren _) (fun _ hs => hs.subs) (fun _ _ => rfl)
      (fun s xs r _ _ => hp s _ r) fun s xs ys _ =>
        congrArg (fun t => { s with tables := t }) Linked.deleteChildren_append
  refine hdue.realises_query (by decide) (fun _ => rfl) fun s xs hs hxs => ?_
  exact congrArg (fun t => { s with tables := t }) (Linked.deleteChildren_query hs.subs hxs)

theorem realises_deleteMessages {p : State → MessageRow → Bool}
    (hp : ∀ s q m, m ∈ s.msgs.rows → q m = false →
      p { s with tables := s.tables.deleteParents q } m = p s m) :
    Realises (Keyed policy) (loopPages retentionPurgePageSize fun s => purgeMessagesPage (p s) s)
      (deleteMessages p) := by
  have hdue : Due (Keyed policy) retentionPurgePageSize (fun s => purgeMessagesPage (p s) s)
      (fun s => (s.msgs.rows.filter (p s)).insertionSort fun a b => a.id ≤ b.id)
      (fun xs s => { s with tables := s.tables.deleteParents (hits MessageRow.id xs) }) := by
    refine Due.of_delete (insertionSort_id MessageRow.id) (fun a b hab hba => Nat.le_antisymm hab hba)
      (fun _ _ => rfl) (fun _ _ hs => hs.deleteParents _) (fun s _ => s.msgs.nodup) (fun _ _ => rfl)
      (fun s xs m _ hm => ?_) fun s xs ys _ => ?_
    · obtain ⟨hm, hkept⟩ := mem_filter.mp hm
      rw [Bool.not_eq_true'] at hkept
      exact hp s _ m hm hkept
    · have happend : (s.tables.deleteParents (hits MessageRow.id xs)).deleteParents
          (hits MessageRow.id ys) = s.tables.deleteParents (hits MessageRow.id (xs ++ ys)) :=
        Linked.deleteParents_append
      exact congrArg (fun t => { s with tables := t }) happend
  refine hdue.realises_query (by decide) (fun _ => rfl) fun s xs _ hxs => ?_
  exact congrArg (fun t => { s with tables := t }) (Linked.deleteParents_congr fun m hm =>
    hits_of_perm s.msgs.nodup hxs hm)

/-! a message that stays keeps its subscription rows -/

theorem completedBefore_deleteParents (ttl : Duration) (s : State) (p : MessageRow → Bool)
    (hm : m ∈ s.msgs.rows) (hp : p m = false) :
    State.completedBefore env ttl { s with tables := s.tables.deleteParents p } m =
      s.completedBefore env ttl m := by
  have hsubs : (s.tables.deleteParents p).children.rows.any
      (fun r => decide (r.messageID = m.id) && decide (r.status ≠ .acked)) =
      s.subs.rows.any fun r => decide (r.messageID = m.id) && decide (r.status ≠ .acked) :=
    Linked.any_deleteParents hm hp fun r hr => of_decide_eq_true (Bool.and_eq_true _ _ ▸ hr : _ ∧ _).1
  unfold State.completedBefore
  rw [← hsubs]
  rfl

theorem orphan_deleteParents (s : State) (p : MessageRow → Bool) (hm : m ∈ s.msgs.rows)
    (hp : p m = false) : State.orphan { s with tables := s.tables.deleteParents p } m = s.orphan m := by
  have hsubs : (s.tables.deleteParents p).children.rows.any (fun r => decide (r.messageID = m.id)) =
      s.subs.rows.any fun r => decide (r.messageID = m.id) :=
    Linked.any_deleteParents hm hp fun r hr => of_decide_eq_true hr
  unfold State.orphan
  rw [← hsubs]
  rfl

theorem realises_applyRetentionPolicy (policy : RetentionPolicy) :
    Realises (Keyed policy) (applyRetentionPolicy env policy) (retention env policy) := by
  refine .inTurn (.cons ?_ (.cons ?_ (.cons ?_ .nil)))
  · exact Realises.when (by decide) fun _ => realises_deleteMessages fun s p m hm hp =>
      completedBefore_deleteParents _ s p hm hp
  · exact Realises.when (by decide) fun _ => realises_deleteSubs fun _ _ _ => rfl
  · exact realises_purgeDLQ (fun dlq (s : State) => { s with dlq := dlq }) (fun hon _ hs => hs.dlq hon)
      (fun _ _ h hs => ⟨hs.subs, fun _ => h⟩) (fun _ _ => rfl) (fun _ _ _ => rfl) fun _ => rfl

theorem realises_purges (env : Env) (policy : RetentionPolicy) :
    Realises (Keyed policy) (inTurn [applyRetentionPolicy env policy, purgeInactiveSubscriptions env,
      reclaimOrphanTopicMessages]) (purges env policy) := by
  refine .inTurn (.cons (realises_applyRetentionPolicy policy) (.cons ?_ (.cons ?_ .nil)))
  · exact realises_deleteSubs (p := State.abandoned env) fun _ _ _ => rfl
  · exact realises_deleteMessages (p := State.orphan) fun s p m hm hp => orphan_deleteParents s p hm hp

/-! ## timed-out rows -/

theorem moveSubToDLQ_eq (c : Candidate) (s : State) :
    moveSubToDLQ q env c.sub.messageID c.sub.subscriberID errReasonVisibilityTimeout
        ⟨c.sub.retryCount, c.msg.payload, c.msg.metadata⟩ s =
      { s with
        tables := s.tables.deleteChildren (hits Sub.key [c.sub])
        dlq := s.dlq ++ letterRow q env s.seq c
        seq := s.seq + 1 } := by
  have hhit : (fun r : Sub => ([c.sub.messageID].any fun id => decide (id = r.messageID)) &&
      decide (r.subscriberID = c.sub.subscriberID)) = hits Sub.key [c.sub] := by
    funext r
    rw [Bool.eq_iff_iff]
    simp only [hits, any_cons, any_nil, Bool.or_false, Bool.and_eq_true, decide_eq_true_eq,
      Sub.key, Prod.mk.injEq, @eq_comm _ c.sub.subscriberID]
  rw [← hhit]
  rfl

theorem foldl_moveSubToDLQ (cs : List Candidate) (s : State) :
    cs.foldl (fun s e => moveSubToDLQ q env e.sub.messageID e.sub.subscriberID
        errReasonVisibilityTimeout ⟨e.sub.retryCount, e.msg.payload, e.msg.metadata⟩ s) s =
      { s with
        tables := s.tables.deleteChildren (hits Sub.key (cs.map Candidate.sub))
        dlq := s.dlq ++ letters q env s.seq cs
        seq := s.seq + cs.length } := by
  induction cs generalizing s with
  | nil =>
    show s = State.mk (s.tables.deleteChildren (hits Sub.key [])) _ (s.dlq ++ []) _ _
    rw [Linked.deleteChildren_nil, append_nil]
    rfl
  | cons c cs ih =>
    have hseq : s.seq + 1 + cs.length = s.seq + (c :: cs).length := by
      rw [length_cons]
      omega
    rw [foldl_cons, ih, moveSubToDLQ_eq]
    rw [Linked.deleteChildren_append, append_assoc, hseq]
    rfl

theorem map_candidate (hxs : ∀ x ∈ xs, x ∈ s.subs.rows) :
    (xs.filterMap s.candidate).map Candidate.sub = xs := by
  induction xs with
  | nil => rfl
  | cons x xs ih =>
    obtain ⟨m, hm⟩ := s.tables.exists_parentOf (hxs x mem_cons_self)
    have hc : s.candidate x = some ⟨x, m⟩ := by
      unfold State.candidate
      rw [hm]
      rfl
    rw [filterMap_cons_some hc, map_cons, ih fun y hy => hxs y (mem_cons_of_mem x hy)]

theorem length_candidate (hxs : ∀ x ∈ xs, x ∈ s.subs.rows) :
    (xs.filterMap s.candidate).length = xs.length := by
  rw [← length_map Candidate.sub, map_candidate hxs]

theorem letters_append (seq : Nat) (cs ds : List Candidate) :
    letters q env seq (cs ++ ds) = letters q env seq cs ++ letters q env (seq + cs.length) ds := by
  induction cs generalizing seq with
  | nil => rfl
  | cons c cs ih =>
    show letterRow q env seq c ++ letters q env (seq + 1) (cs ++ ds) = _
    rw [ih, length_cons, Nat.add_assoc, Nat.add_comm 1, ← append_assoc]
    rfl

theorem dlqPair_letters (seq : Nat) (cs : List Candidate) :
    (letters q env seq cs).map dlqPair = cs.map (Sub.pair ∘ Candidate.sub) := by
  induction cs generalizing seq with
  | nil => rfl
  | cons c cs ih => exact congrArg (c.sub.pair :: ·) (ih (seq + 1))

def moveAll (q : Queue) (env : Env) (xs : List Sub) (s : State) : State :=
  { s with
    tables := s.tables.deleteChildren (hits Sub.id xs)
    dlq := s.dlq ++ letters q env s.seq (xs.filterMap s.candidate)
    seq := s.seq + (xs.filterMap s.candidate).length }

theorem moveAll_append (xs ys : List Sub) (s : State) :
    moveAll q env ys (moveAll q env xs s) = moveAll q env (xs ++ ys) s := by
  unfold moveAll
  rw [filterMap_append, letters_append, length_append, ← append_assoc, ← Nat.add_assoc,
    ← Linked.deleteChildren_append]
  rfl

theorem take_candidate (hxs : ∀ x ∈ xs, x ∈ s.subs.rows) (n : Nat) :
    (xs.filterMap s.candidate).take n = (xs.take n).filterMap s.candidate := by
  have happend : xs.filterMap s.candidate =
      (xs.take n).filterMap s.candidate ++ (xs.drop n).filterMap s.candidate := by
    rw [← filterMap_append, take_append_drop]
  have hlen := length_candidate fun x hx => hxs x (mem_of_mem_take (i := n) hx)
  rw [happend]
  by_cases hn : n ≤ xs.length
  · exact take_left' (hlen.trans (length_take_of_le hn))
  · have hle : xs.length ≤ n := Nat.le_of_not_le hn
    rw [drop_of_length_le hle, filterMap_nil, append_nil]
    exact take_of_length_le (hlen ▸ length_take_le n xs)

theorem deleteChildren_key (hs : KeyedSubs s) (hxs : ∀ x ∈ xs, x ∈ s.subs.rows) :
    s.tables.deleteChildren (hits Sub.key xs) = s.tables.deleteChildren (hits Sub.id xs) := by
  refine Linked.ext rfl (Table.ext (filter_congr fun r hr => congrArg not ?_))
  rw [Bool.eq_iff_iff, hits_iff s.subs.nodup hxs hr, hits_iff hs hxs hr]

theorem promotePage_eq (hs : KeyedSubs s) :
    promoteExhaustedTopicPage q env s =
      ((((s.subs.rows.filter (Sub.exhausted q env)).insertionSort fun a b => a.id ≤ b.id).take
          promoteExhaustedTopicSubscriptionsPageSize).length,
        moveAll q env (((s.subs.rows.filter (Sub.exhausted q env)).insertionSort fun a b =>
          a.id ≤ b.id).take promoteExhaustedTopicSubscriptionsPageSize) s) := by
  have hrows : ∀ x ∈ s.subs.select (Sub.exhausted q env) (fun a b => a.id ≤ b.id), x ∈ s.subs.rows :=
    fun x hx => (Table.mem_select.mp hx).1
  have hpage : ∀ x ∈ (s.subs.select (Sub.exhausted q env) (fun a b => a.id ≤ b.id)).take
      promoteExhaustedTopicSubscriptionsPageSize, x ∈ s.subs.rows :=
    fun x hx => hrows x (mem_of_mem_take hx)
  have hbatch : scanExhaustedTopicSubscriptions q env s =
      ((s.subs.select (Sub.exhausted q env) (fun a b => a.id ≤ b.id)).take
        promoteExhaustedTopicSubscriptionsPageSize).filterMap s.candidate := take_candidate hrows _
  unfold promoteExhaustedTopicPage
  dsimp only
  rw [foldl_moveSubToDLQ, hbatch, map_candidate hpage, deleteChildren_key hs hpage,
    length_candidate hpage]
  refine Prod.ext rfl ?_
  show _ = moveAll q env ((s.subs.select (Sub.exhausted q env) (fun a b => a.id ≤ b.id)).take
    promoteExhaustedTopicSubscriptionsPageSize) s
  unfold moveAll
  rw [length_candidate hpage]

theorem realises_promote :
    Realises KeyedSubs (promoteExhaustedTopicSubscriptions q env) (promote q env) := by
  have hdue : Due KeyedSubs promoteExhaustedTopicSubscriptionsPageSize (promoteExhaustedTopicPage q env)
      (fun s => (s.subs.rows.filter (Sub.exhausted q env)).insertionSort fun a b => a.id ≤ b.id)
      (moveAll q env) :=
    Due.of_delete (insertionSort_id Sub.id) (fun a b hab hba => Nat.le_antisymm hab hba)
      (fun _ hs => promotePage_eq hs) (fun _ _ hs => (filter_sublist.map Sub.id).nodup hs)
      (fun _ hs => hs) (fun _ _ => rfl) (fun _ _ _ _ _ => rfl) fun s xs ys _ => moveAll_append xs ys s
  have hperm : ∀ s : State, ((s.subs.rows.filter (Sub.exhausted q env)).insertionSort fun a b =>
      a.id ≤ b.id).Perm (s.subs.rows.filter (Sub.exhausted q env)) := fun s => perm_insertionSort _ _
  refine hdue.realises (by decide) (fun s _ => (hperm s).length_eq.symm) fun s hs => ?_
  have hrows : ∀ x ∈ (s.subs.rows.filter (Sub.exhausted q env)).insertionSort fun a b => a.id ≤ b.id,
      x ∈ s.subs.rows := fun x hx => (mem_filter.mp ((hperm s).subset hx)).1
  unfold moveAll
  rw [Linked.deleteChildren_query hs (hperm s), length_candidate hrows, (hperm s).length_eq]
  rfl

theorem id_reset (r : Sub) : r.reset.id = r.id := rfl

theorem KeyedSubs.reset (hs : KeyedSubs s) (p : Sub → Bool) :
    KeyedSubs { s with tables := s.tables.updateChildren p Sub.reset Sub.key_reset } := by
  have hids : (s.subs.rows.map fun r => if p r then r.reset else r).map Sub.id =
      s.subs.rows.map Sub.id := by
    rw [map_map]
    refine map_congr_left fun r _ => ?_
    show (if p r then r.reset else r).id = r.id
    split <;> rfl
  show ((s.subs.rows.map fun r => if p r then r.reset else r).map Sub.id).Nodup
  rw [hids]
  exact hs

theorem realises_reset :
    Realises KeyedSubs (resetTimedOutSubscriptions q env) (reset q env) := by
  have hdue : Due KeyedSubs retentionPurgePageSize (resetTimedOutPage q env)
      (fun s => (s.subs.rows.filter (Sub.resettable q env)).insertionSort fun a b => a.id ≤ b.id)
      (fun xs s => { s with tables := s.tables.updateChildren (listed xs) Sub.reset Sub.key_reset }) :=
    Due.of_update (insertionSort_id Sub.id) (fun a b hab hba => Nat.le_antisymm hab hba)
      (fun _ _ => rfl) (fun _ _ hs => hs.reset _) (fun _ hs => hs) (fun _ _ => rfl) (fun _ => rfl)
      fun s xs ys hdisj =>
        congrArg (fun t => { s with tables := t })
          (Linked.updateChildren_append Sub.key_reset id_reset hdisj)
  refine hdue.realises_query (by decide) (fun _ => rfl) fun s xs hs hxs => ?_
  exact congrArg (fun t => { s with tables := t }) (Linked.updateChildren_query _ hs hxs)

/-! ## the pass -/

theorem realises_reclaims : Realises KeyedSubs (reclaimTimedOut q env) (reclaims q env) :=
  .inTurn (.cons realises_promote (.cons realises_reset .nil))

theorem doCollectQueue_returns (config : GarbageCollectorConfig)
    (hs : Keyed (config.getPolicy q.name) s) :
    Returns (fun fuel => doCollectQueue config q env fuel s)
      (((purges env (config.getPolicy q.name)).count s,
          (reclaims q env).count ((purges env (config.getPolicy q.name)).apply s)),
        (reclaims q env).apply ((purges env (config.getPolicy q.name)).apply s)) := by
  have hpurges := realises_purges env (config.getPolicy q.name)
  exact (hpurges.returns s hs).bind (realises_reclaims.returns _ (hpurges.keeps s hs).subs).map

theorem handled (q : Queue) (env : Env) (s : State) :
    ∃ new, ((reclaims q env).apply s).dlq = s.dlq ++ new ∧
      Handled (Sub.timedOut env.now) Sub.reset Sub.pair s.subs.rows
        ((reclaims q env).apply s).subs.rows (new.map dlqPair) ((reclaims q env).count s) := by
  refine ⟨_, rfl, Handled.of_split (fun r => timedOut_split _ r.retryCount q.resolveMaxRetries)
    (fun _ => rfl) (fun _ => rfl) ?_ ?_⟩
  · have hpairs : s.subs.rows.map Sub.pair =
        (s.subs.rows.map Sub.key).map fun k => (k.1, some k.2) := by
      rw [map_map]
      rfl
    rw [hpairs]
    exact s.subs.nodup.map fun k k' h => by
      obtain ⟨h1, h2⟩ := Prod.mk.inj h
      exact Prod.ext h1 (Option.some.inj h2)
  · rw [dlqPair_letters, ← map_map, map_candidate fun x hx => (Table.mem_select.mp hx).1]
    exact (s.subs.select_perm _ _).map Sub.pair

end
end PgQueue.Topic.Collect
