import PgQueue.Replay.Rules
import PgQueue.Channel.Refine
import PgQueue.Topic.Conserve

/-!
# Guarantees: what is replayed can be delivered

A replay makes rows pending and counts them.  A consumer's probe asks for more: the row has to be
available, and its message must not have outlived the queue's TTL.

* `Started`     a row that is not pending was available; so is a row that is replayed as it is;
* `replayed_deliverable_iff`   a row that a replay counts is deliverable at once exactly if its message
                is within the TTL.  Only the dead letters of a channel get a new publish time;
* `reset_deliverable`   without a TTL, a row that the timeout reset returns to pending is deliverable
                at once.
-/

namespace PgQueue
open Relational List

/-! ## channels -/

namespace Channel

def Row.deliverable (env : Env) (r : Row) : Bool :=
  decide (r.status = .pending) && decide (r.availableAt ≤ env.now) && env.withinTTL r.createdAt

theorem pendingProbe_deliverable (env : Env) (s : State) : pendingProbe env s =
    (s.msgs.select (Row.deliverable env)
      (fun a b => Earlier (a.availableAt, a.id) (b.availableAt, b.id))).head? := rfl

def State.withinTTL (env : Env) (s : State) (id : UUID) : Bool :=
  (s.msgs.find? id).any fun r => env.withinTTL r.createdAt

def State.deliverable (env : Env) (s : State) (id : UUID) : Bool :=
  (s.msgs.find? id).any (Row.deliverable env)

def Row.Started (t : Time) (r : Row) : Prop := r.status ≠ .pending → r.availableAt ≤ t

def Started (t : Time) (s : State) : Prop := ∀ r ∈ s.msgs.rows, r.Started t

theorem Row.started_of_pending {t : Time} {r : Row} (h : r.status = .pending) : r.Started t :=
  fun hst => absurd h hst

theorem Row.Started.available {t : Time} {r : Row} (h : r.Started t) (hst : r.status = .processing) :
    r.availableAt ≤ t := h (by rw [hst]; exact MessageStatus.noConfusion)

section
variable {q : Queue} {env : Env} {s s' : State} {r : Row} {t t' : Time} {id afterID : UUID}
  {performedBy : Option String} {p : Row → Bool} {f : Row → Row} {vis : Duration}

theorem Started.mono (h : Started t s) (ht : t ≤ t') : Started t' s :=
  fun r hr hst => Int.le_trans (h r hr hst) ht

theorem Started.toPending (h : Started t s) (hf : ∀ r, (f r).status = .pending) :
    ∀ r ∈ s.msgs.rows.map fun r => if p r then f r else r, r.Started t :=
  Table.forall_update h fun r _ _ => Row.started_of_pending (hf r)

theorem Started.delete (h : Started t s) : ∀ r ∈ (s.msgs.delete p).rows, r.Started t :=
  Table.forall_delete h

theorem Started.insertAll {rows : List Row} (h : Started t s) (hrows : ∀ r ∈ rows, r.status = .pending) :
    ∀ r ∈ (s.msgs.insertAll rows).rows, r.Started t :=
  Table.forall_insertAll h fun r hr => Row.started_of_pending (hrows r hr)

theorem Started.claim {n : Nat} (h : Started env.now s) (hr : r ∈ s.msgs.rows)
    (hle : r.availableAt ≤ env.now) : Started env.now (claimChannelMessage q env vis r n s).2 := by
  refine Table.forall_update h fun x hx hid _ => ?_
  rw [Table.eq_of_key hx hr (of_decide_eq_true hid)]
  exact hle

theorem Started.fetch {m : Option Message} (h : Started env.now s) (hf : Fetched q env vis s m s') :
    Started env.now s' := by
  induction hf with
  | nothing => exact h
  | pending hr _ hav => exact h.claim hr hav
  | buried _ _ _ _ ih => exact ih h.delete
  | deferred _ _ _ _ ih => exact ih (h.toPending fun _ => rfl)
  | reclaimed hr ht => exact h.claim hr ((h _ hr).available (status_of_timedOut ht))

theorem Started.underClaim {hf : ∀ r, (f r).id = r.id} {x : Receipt} (h : Started t s)
    (hav : ∀ r, (f r).availableAt = r.availableAt) : Started t (updateUnderClaim f hf x s).2 := by
  refine Table.forall_update h fun r hr hu _ => ?_
  rw [hav]
  exact (h r hr).available (underClaim_eq.mp hu).2.2

theorem Started.promotePage (h : Started t s) :
    Started t (promoteExhaustedChannelPage q env s).2 := by
  show Started t ((scanExhaustedChannelMessages q env s).foldl _ s)
  generalize scanExhaustedChannelMessages q env s = batch
  induction batch generalizing s with
  | nil => exact h
  | cons e batch ih => exact ih h.delete

theorem Started.replayFromPage {since : Time} {limit : Nat} (h : Started t s) :
    Started t (replayFromPage q env since afterID limit performedBy s).2 := by
  have happly : ∀ ids, Started t (applyReplayFrom ids s).2 := fun ids => h.toPending fun _ => rfl
  unfold Channel.replayFromPage
  dsimp only
  split
  · exact happly _
  · exact happly _

theorem Started.replayDLQPage {limit : Nat} {dryRun : Bool} (h : Started t s) :
    Started t (replayDLQPage q env afterID limit performedBy dryRun s).2 := by
  have hinsert : ∀ ds, Started t (reinsertDLQChannel q env ds s).2 := fun ds => by
    refine h.insertAll fun r hr => ?_
    obtain ⟨d, -, rfl⟩ := mem_map.mp hr
    rfl
  unfold Channel.replayDLQPage
  dsimp only
  split
  · exact h
  · split
    · exact hinsert _
    · exact hinsert _

/-- **no transaction makes a row leave pending before it is available** -/
theorem Started.step (op : Op) (h : Started env.now s) : Started env.now (step q env s op).1 := by
  let P := fun x : State × History UUID => Started env.now x.1
  have h0 : P (s, []) := h
  cases op with
  | publish m =>
    refine commit'_cases P h0 fun s' hs => ?_
    obtain ⟨-, rfl⟩ := publishToChannel_ok hs
    have hpending : ∀ r ∈ [newRow env q.resolveMaxRetries m], r.status = .pending := fun r hr => by
      rw [mem_singleton.mp hr]
      rfl
    exact h.insertAll hpending
  | publishBatch ms =>
    refine commit'_cases P h0 fun s' hs => ?_
    obtain ⟨-, rfl⟩ := publishBatchToChannel_ok hs
    refine h.insertAll fun r hr => ?_
    obtain ⟨m, -, rfl⟩ := mem_map.mp hr
    rfl
  | receive vis =>
    exact commit_cases P h0 fun m s' hs => h.fetch (fetched_of_consume hs)
  | ack r =>
    refine commit'_cases P h0 fun s' hs => ?_
    obtain rfl := ackChannel_ok hs
    exact h.underClaim fun _ => rfl
  | nack r reason delay =>
    refine commit'_cases P h0 fun s' hs => ?_
    obtain ⟨state, rfl⟩ := nackChannelImpl_ok hs
    unfold handleNack
    split
    · exact h.delete
    · exact h.toPending fun _ => rfl
  | extend r d =>
    refine commit'_cases P h0 fun s' hs => ?_
    obtain ⟨-, rfl⟩ := extendChannelVisibility_ok hs
    exact h.underClaim fun _ => rfl
  | ackBatch rs k =>
    refine commit_cases P h0 fun res s' hs => ?_
    obtain ⟨-, rfl⟩ := ackChannelBatch_ok hs
    refine Table.forall_update h fun r hr hh _ => ?_
    obtain ⟨x, -, hu⟩ := hit_iff.mp hh
    exact (h r hr).available (underClaim_eq.mp hu).2.2
  | nackBatch rs k reason delay =>
    refine commit_cases P h0 fun res s' hs => ?_
    obtain ⟨-, rfl⟩ := nackChannelBatch_ok hs
    have hretry : Started env.now (batchRetryMessages env (((fetchBatchMessageStates
        (receiptGroup rs k) s).filter fun row => !decide (row.retryCount + 1 > row.cap q)).map
        fun row => (row.id, env.computeRetryDelay row.id (row.retryCount + 1) delay))
        (truncateErrorMsg reason) s) := h.toPending fun _ => rfl
    exact hretry.delete
  | promotePage => exact h.promotePage
  | resetPage => exact h.toPending fun _ => rfl
  | purgeCompleted ttl =>
    show Started env.now (purgeCompletedPage env ttl s).2
    unfold purgeCompletedPage
    split
    · exact h.delete
    · exact h
  | purgeOldPending maxAge =>
    show Started env.now (purgeOldPendingPage env maxAge s).2
    unfold purgeOldPendingPage
    split
    · exact h.delete
    · exact h
  | purgeDLQ retention => exact h
  | replayFrom since afterID limit performedBy => exact h.replayFromPage
  | replayMessage id performedBy =>
    refine commit'_cases P h0 fun s' hs => ?_
    obtain ⟨-, rfl⟩ := executeReplayMessage_ok hs
    exact h.toPending fun _ => rfl
  | replayDLQ afterID limit performedBy dryRun => exact h.replayDLQPage
  | purgeQueue | deleteChannel => exact fun r hr => absurd hr not_mem_nil

theorem Reach.started {h : History UUID} (hr : Reach q s h t) : Started t s := by
  induction hr with
  | init t => exact fun r hr => absurd hr not_mem_nil
  | next hr env op ht ih => exact (ih.mono ht).step op

/-! ### what a probe asks -/

theorem deliverable_eq (h : s.msgs.find? id = some r) : s.deliverable env id = r.deliverable env := by
  unfold State.deliverable
  rw [h]
  rfl

theorem withinTTL_eq (h : s.msgs.find? id = some r) :
    s.withinTTL env id = env.withinTTL r.createdAt := by
  unfold State.withinTTL
  rw [h]
  rfl

theorem Row.deliverable_of (hst : r.status = .pending) (hle : r.availableAt ≤ env.now) :
    r.deliverable env = env.withinTTL r.createdAt := by
  unfold Row.deliverable
  rw [decide_eq_true hst, decide_eq_true hle]
  rfl

/-! ### timeout reset -/

theorem withinTTL_of_no_ttl (h : env.ttl ≤ 0) (createdAt : Time) : env.withinTTL createdAt = true := by
  unfold Env.withinTTL
  rw [decide_eq_true h, Bool.true_or]

theorem find?_resetTimedOutPage (q : Queue) (env : Env) (s : State) (id : UUID) :
    (resetTimedOutPage q env s).2.msgs.find? id =
      (s.msgs.find? id).map fun r => if listed (timedOutWithRetries q env s) r then r.reset else r :=
  Table.find?_update s.msgs _ Row.reset Row.id_reset id

/-- the row has been available since before it was claimed -/
theorem deliverable_resetTimedOutPage (hs : Started env.now s) (httl : env.ttl ≤ 0) {r' : Row}
    (hfind : s.msgs.find? id = some r) (hst : r.status ≠ .pending)
    (hfind' : (resetTimedOutPage q env s).2.msgs.find? id = some r') (hst' : r'.status = .pending) :
    r' = r.reset ∧ (resetTimedOutPage q env s).2.deliverable env id = true := by
  have he := hfind'
  rw [find?_resetTimedOutPage, hfind, Option.map_some, Option.some.injEq] at he
  split at he
  · subst he
    refine ⟨rfl, ?_⟩
    have hle : r.availableAt ≤ env.now := hs r (Table.mem_of_find? hfind) hst
    rw [deliverable_eq hfind', Row.deliverable_of (r := r.reset) rfl hle]
    exact withinTTL_of_no_ttl httl _
  · exact absurd (he ▸ hst') hst

/-! ### replay -/

theorem withinTTL_now (env : Env) : env.withinTTL env.now = true := by
  unfold Env.withinTTL
  rw [Bool.or_eq_true, decide_eq_true_eq, decide_eq_true_eq]
  by_cases h : env.ttl ≤ 0
  · exact Or.inl h
  · exact Or.inr (Int.sub_lt_self _ (Int.not_le.mp h))

theorem deliverable_applyReplayFrom (hs : Started env.now s) {ids : List UUID}
    (hid : id ∈ (applyReplayFrom ids s).1) :
    (applyReplayFrom ids s).2.deliverable env id = s.withinTTL env id := by
  obtain ⟨r, hr, rfl⟩ := mem_map.mp hid
  obtain ⟨hr, hp⟩ := mem_filter.mp hr
  have hfind : (applyReplayFrom ids s).2.msgs.find? r.id = some r.replay := by
    show (s.msgs.update (fun r => ids.contains r.id && r.settled) Row.replay Row.id_replay).find?
      r.id = _
    rw [Table.find?_update, Table.find?_of_mem hr]
    show some (if _ then _ else _) = _
    rw [if_pos hp]
  have hle : r.availableAt ≤ env.now := by
    rw [Bool.and_eq_true, Row.settled, Bool.and_eq_true, decide_eq_true_eq] at hp
    exact hs r hr hp.2.1
  rw [deliverable_eq hfind, withinTTL_eq (Table.find?_of_mem hr)]
  exact Row.deliverable_of (r := r.replay) rfl hle

theorem deliverable_executeReplayMessage (h : executeReplayMessage q env id performedBy s = .ok s') :
    s'.deliverable env id = s.withinTTL env id := by
  obtain ⟨hany, rfl⟩ := executeReplayMessage_ok h
  obtain ⟨r, hr, hp⟩ := any_eq_true.mp hany
  have hid : r.id = id := of_decide_eq_true (Bool.and_eq_true _ _ ▸ hp).1
  subst hid
  have hfind : (s.msgs.update (fun x => decide (x.id = r.id) && decide (x.status ≠ .processing))
      (Row.replayNow env.now) (Row.id_replayNow env.now)).find? r.id =
      some (r.replayNow env.now) := by
    rw [Table.find?_update, Table.find?_of_mem hr]
    show some (if _ then _ else _) = _
    rw [if_pos hp]
  refine Eq.trans (deliverable_eq hfind) ?_
  rw [withinTTL_eq (Table.find?_of_mem hr)]
  exact Row.deliverable_of (r := r.replayNow env.now) rfl (Int.le_refl _)

theorem deliverable_reinsertDLQChannel {ds : List DLQRow} (hid : id ∈ (reinsertDLQChannel q env ds s).1) :
    (reinsertDLQChannel q env ds s).2.deliverable env id = true := by
  obtain ⟨d, hd, rfl⟩ := mem_map.mp hid
  obtain ⟨hd, hnone⟩ := mem_filter.mp hd
  have hsome : ((s.msgs.insertAll ((dedupeDLQByMessageID ds).map (replayedRow q env))).find?
      d.originalMessageID).isSome := by
    rw [Table.find?_insertAll, Option.isSome_or, Bool.or_eq_true]
    right
    exact find?_isSome.mpr ⟨_, mem_map_of_mem hd, decide_eq_true rfl⟩
  obtain ⟨r, hr⟩ := Option.isSome_iff_exists.mp hsome
  have hnew := hr
  rw [Table.find?_insertAll, Option.isNone_iff_eq_none.mp hnone, Option.none_or] at hnew
  obtain ⟨d', -, rfl⟩ := mem_map.mp (mem_of_find?_eq_some hnew)
  refine Eq.trans (deliverable_eq hr) ?_
  rw [Row.deliverable_of rfl (Int.le_refl _)]
  exact withinTTL_now env

section
variable {since : Time} {afterID : UUID} {n : Nat} {performedBy : Option String} {id : UUID}

theorem deliverable_replayFromPage (hs : Started env.now s)
    (hid : id ∈ (replayFromPage q env since afterID n performedBy s).1.reinstated) :
    (replayFromPage q env since afterID n performedBy s).2.deliverable env id = s.withinTTL env id := by
  have hlog : (replayFromPage q env since afterID n performedBy s).2.deliverable env id =
      (applyReplayFrom (fetchReplayCandidateIDs since afterID n s) s).2.deliverable env id := by
    unfold replayFromPage
    dsimp only
    split <;> rfl
  exact hlog.trans (deliverable_applyReplayFrom hs hid)

theorem deliverable_replayDLQPage
    (hid : id ∈ (replayDLQPage q env afterID n performedBy false s).1.reinstated) :
    (replayDLQPage q env afterID n performedBy false s).2.deliverable env id = true := by
  have hlog : (replayDLQPage q env afterID n performedBy false s).2.deliverable env id =
      (reinsertDLQChannel q env (fetchDLQMessages afterID n s.dlq) s).2.deliverable env id := by
    unfold replayDLQPage
    dsimp only
    rw [if_neg Bool.false_ne_true]
    split <;> rfl
  exact hlog.trans (deliverable_reinsertDLQChannel hid)

end
end
end Channel

/-! ## topics -/

namespace Topic

def Sub.deliverable (env : Env) (s : State) (r : Sub) : Bool :=
  decide (r.status = .pending) && decide (r.availableAt ≤ env.now)
    && s.tables.parentIs (fun m => env.withinTTL m.createdAt) r

theorem pendingProbe_deliverable (env : Env) (subscriberID : String) (s : State) :
    pendingProbe env subscriberID s =
      (s.subs.select (fun r => decide (r.subscriberID = subscriberID) && r.deliverable env s)
        (fun a b => Earlier (a.availableAt, a.messageID) (b.availableAt, b.messageID))).head?.bind
          s.candidate := by
  unfold pendingProbe Sub.deliverable
  simp only [Bool.and_assoc]

def State.withinTTL (env : Env) (s : State) (id : UUID) : Bool :=
  (s.msgs.find? id).any fun m => env.withinTTL m.createdAt

def State.deliverable (env : Env) (s : State) (k : UUID × String) : Bool :=
  (s.subs.find? k).any (Sub.deliverable env s)

def Sub.Started (t : Time) (r : Sub) : Prop := r.status ≠ .pending → r.availableAt ≤ t

def Started (t : Time) (s : State) : Prop := ∀ r ∈ s.subs.rows, r.Started t

theorem Sub.started_of_pending {t : Time} {r : Sub} (h : r.status = .pending) : r.Started t :=
  fun hst => absurd h hst

theorem Sub.Started.available {t : Time} {r : Sub} (h : r.Started t) (hst : r.status = .processing) :
    r.availableAt ≤ t := h (by rw [hst]; exact MessageStatus.noConfusion)

section
variable {q : Queue} {env : Env} {s s' : State} {r : Sub} {t t' : Time} {sub : String} {p : Sub → Bool}
  {k : UUID × String} {f : Sub → Sub} {ids : List UUID} {vis : Duration} {afterID : UUID}
  {performedBy : Option String}

theorem Started.mono (h : Started t s) (ht : t ≤ t') : Started t' s :=
  fun r hr hst => Int.le_trans (h r hr hst) ht

theorem Started.toPending (h : Started t s) (hf : ∀ r, (f r).status = .pending) :
    ∀ r ∈ s.subs.rows.map fun r => if p r then f r else r, r.Started t :=
  Table.forall_update h fun r _ _ => Sub.started_of_pending (hf r)

theorem Started.delete (h : Started t s) : ∀ r ∈ (s.subs.delete p).rows, r.Started t :=
  Table.forall_delete h

theorem Started.insertRecords {records : List (UUID × String)} (h : Started t s)
    (hs : insertSubscriptionRecords q env records s = .ok s') : Started t s' := by
  unfold Started
  rw [(insertSubscriptionRecords_spec hs).1]
  refine Table.forall_insertAll h fun r hr => Sub.started_of_pending ?_
  obtain ⟨i, -, -, k, -, rfl⟩ := mem_subRows hr
  rfl

theorem Started.fanOut {ms : List MessageRow} (h : Started t s)
    (hs : batchCreateSubscriptionRecords q env ids { s with tables := s.tables.insertParents ms } =
      .ok s') : Started t s' := by
  obtain ⟨active, -, hs⟩ := fanOut_spec hs
  have h' : Started t { s with tables := s.tables.insertParents ms } := h
  exact h'.insertRecords hs

theorem Started.claim (sub : String) {n : Nat} {c : Candidate} (hw : Wf q s) (h : Started env.now s)
    (hr : c.sub ∈ s.subs.rows) (hle : c.sub.availableAt ≤ env.now) :
    Started env.now (claimTopicSubscription q env sub vis c n s).2 := by
  refine Table.forall_update h fun x hx hid _ => ?_
  rw [hw.eq_of_id hx hr (of_decide_eq_true hid)]
  exact hle

theorem Started.fetch {m : Option Message} (hw : Wf q s) (h : Started env.now s)
    (hf : Fetched q env sub vis s m s') : Started env.now s' := by
  induction hf with
  | nothing => exact h
  | pending hr _ _ hav => exact h.claim sub hw hr hav
  | buried _ _ _ _ _ ih => exact ih hw.moveSubToDLQ h.delete
  | deferred _ _ _ _ _ ih => exact ih hw.defer (h.toPending fun _ => rfl)
  | reclaimed hr _ ht => exact h.claim sub hw hr ((h _ hr).available (status_of_timedOut ht))

theorem Started.underClaim {hf : ∀ r, (f r).key = r.key} {x : Receipt} (h : Started t s)
    (hav : ∀ r, (f r).availableAt = r.availableAt) : Started t (updateUnderClaim f hf sub x s).2 := by
  refine Table.forall_update h fun r hr hu _ => ?_
  rw [hav]
  exact (h r hr).available (underClaim_eq.mp hu).2.2

theorem Started.promotePage (h : Started t s) : Started t (promoteExhaustedTopicPage q env s).2 := by
  show Started t ((scanExhaustedTopicSubscriptions q env s).foldl _ s)
  generalize scanExhaustedTopicSubscriptions q env s = batch
  induction batch generalizing s with
  | nil => exact h
  | cons e batch ih => exact ih h.delete

theorem Started.replayFromPage {since : Time} {limit : Nat} (h : Started t s) :
    Started t (replayFromPage q env since afterID limit performedBy s).2 := by
  have happly : ∀ ids, Started t (applyReplayFrom ids s).2 := fun ids => h.toPending fun _ => rfl
  unfold Topic.replayFromPage
  dsimp only
  split
  · exact happly _
  · exact happly _

theorem Started.replayDLQPage {limit : Nat} {dryRun : Bool} {page : ReplayPage (UUID × String)}
    (h : Started t s) (hs : replayDLQPage q env afterID limit performedBy dryRun s = .ok (page, s')) :
    Started t s' := by
  unfold Topic.replayDLQPage at hs
  dsimp only at hs
  split at hs
  · cases hs
  · rename_i n s₁ hre
    obtain ⟨records, replayed, s₂, -, hins, -, rfl⟩ := reinsertDLQPubSub_spec hre
    have hnew : Started t s₂ := h.insertRecords hins
    cases hs
    split
    · exact h
    · split
      · exact hnew
      · exact hnew

/-- **no transaction makes a row leave pending before it is available** -/
theorem Started.step (op : Op) (hw : Wf q s) (h : Started env.now s) :
    Started env.now (step q env s op).1 := by
  let P := fun x : State × History (UUID × String) => Started env.now x.1
  have h0 : P (s, []) := h
  cases op with
  | subscribe subscriberID =>
    refine commit'_cases P h0 fun s' hs => ?_
    obtain ⟨-, rfl⟩ := registerSubscriber_ok hs
    exact h
  | unsubscribe subscriberID =>
    refine commit'_cases P h0 fun s' hs => ?_
    obtain rfl := unregisterSubscriber_ok hs
    exact h
  | publish m =>
    exact commitCreated_cases P h0 fun s' hs => h.fanOut (publishToPubSub_spec hs).2
  | publishBatch ms =>
    refine commitCreated_cases P h0 fun s' hs => ?_
    rcases publishBatchToPubSub_spec hs with ⟨-, rfl⟩ | ⟨-, hs⟩
    · exact h
    · exact h.fanOut hs
  | receive subscriberID vis =>
    exact commit_cases P h0 fun m s' hs => h.fetch hw (fetched_of_consume hs)
  | ack r =>
    refine commit'_cases P h0 fun s' hs => ?_
    obtain ⟨-, rfl⟩ := ackTopic_ok hs
    exact h.underClaim fun _ => rfl
  | nack r reason delay =>
    refine commit'_cases P h0 fun s' hs => ?_
    obtain ⟨-, state, rfl⟩ := nackTopicImpl_ok hs
    unfold nackFound
    split
    · exact h.delete
    · exact h.toPending fun _ => rfl
  | extend r d =>
    refine commit'_cases P h0 fun s' hs => ?_
    obtain ⟨-, -, rfl⟩ := extendTopicVisibility_ok hs
    exact h.underClaim fun _ => rfl
  | ackBatch rs k =>
    refine commit_cases P h0 fun res s' hs => ?_
    obtain ⟨-, -, rfl⟩ := ackTopicBatch_ok hs
    refine Table.forall_update h fun r hr hh _ => ?_
    obtain ⟨x, -, hu⟩ := hit_iff.mp hh
    exact (h r hr).available (underClaim_eq.mp hu).2.2
  | nackBatch rs k reason delay =>
    refine commit_cases P h0 fun res s' hs => ?_
    obtain ⟨-, -, rfl⟩ := nackTopicBatch_ok hs
    have hretry : Started env.now (batchRetrySubscriptions env (((fetchBatchSubStates
        (receiptGroup rs k) k.subscriberID s).filter fun c =>
          !decide (c.sub.retryCount + 1 > q.resolveMaxRetries)).map fun c =>
        (c.sub.messageID, env.computeRetryDelay c.sub.messageID (c.sub.retryCount + 1) delay))
        k.subscriberID (truncateErrorMsg reason) s) := h.toPending fun _ => rfl
    exact hretry.delete
  | promotePage => exact h.promotePage
  | resetPage => exact h.toPending fun _ => rfl
  | purgeCompleted ttl =>
    show Started env.now (purgeCompletedPage env ttl s).2
    unfold purgeCompletedPage
    split
    · exact h.delete
    · exact h
  | purgeOldPending maxAge =>
    show Started env.now (purgeOldPendingPage env maxAge s).2
    unfold purgeOldPendingPage
    split
    · exact h.delete
    · exact h
  | purgeDLQ retention => exact h
  | purgeInactive => exact h.delete
  | reclaimOrphans => exact h.delete
  | replayFrom since afterID limit performedBy => exact h.replayFromPage
  | replayDLQ afterID limit performedBy dryRun =>
    exact commit_cases P h0 fun page s' hs => h.replayDLQPage hs
  | purgeQueue | deleteTopic => exact fun r hr => absurd hr not_mem_nil

theorem Reach.started {h : History (UUID × String)} (hr : Reach q s h t) : Started t s := by
  induction hr with
  | init t => exact fun r hr => absurd hr not_mem_nil
  | next hr env op ht ih => exact (ih.mono ht).step op hr.wf

/-! ### what a probe asks -/

theorem deliverable_eq (h : s.subs.find? k = some r) : s.deliverable env k = r.deliverable env s := by
  unfold State.deliverable
  rw [h]
  rfl

theorem Sub.deliverable_of (hst : r.status = .pending) (hle : r.availableAt ≤ env.now) :
    r.deliverable env s = s.withinTTL env r.messageID := by
  unfold Sub.deliverable
  rw [decide_eq_true hst, decide_eq_true hle]
  rfl

/-! ### timeout reset -/

theorem withinTTL_of_no_ttl (h : env.ttl ≤ 0) (hr : r ∈ s.subs.rows) :
    s.withinTTL env r.messageID = true := by
  obtain ⟨m, hm⟩ := s.tables.exists_parentOf hr
  have hm : s.msgs.find? r.messageID = some m := hm
  unfold State.withinTTL
  rw [hm]
  exact Channel.withinTTL_of_no_ttl h m.createdAt

theorem find?_resetTimedOutPage (q : Queue) (env : Env) (s : State) (k : UUID × String) :
    (resetTimedOutPage q env s).2.subs.find? k =
      (s.subs.find? k).map fun r => if listed (timedOutWithRetries q env s) r then r.reset else r :=
  Table.find?_update s.subs _ Sub.reset Sub.key_reset k

/-- the row has been available since before it was claimed -/
theorem deliverable_resetTimedOutPage (hs : Started env.now s) (httl : env.ttl ≤ 0) {r' : Sub}
    (hfind : s.subs.find? k = some r) (hst : r.status ≠ .pending)
    (hfind' : (resetTimedOutPage q env s).2.subs.find? k = some r') (hst' : r'.status = .pending) :
    r' = r.reset ∧ (resetTimedOutPage q env s).2.deliverable env k = true := by
  have he := hfind'
  rw [find?_resetTimedOutPage, hfind, Option.map_some, Option.some.injEq] at he
  split at he
  · subst he
    refine ⟨rfl, ?_⟩
    have hle : r.availableAt ≤ env.now := hs r (Table.mem_of_find? hfind) hst
    rw [deliverable_eq hfind', Sub.deliverable_of (r := r.reset) rfl hle]
    exact withinTTL_of_no_ttl httl (Table.mem_of_find? hfind')
  · exact absurd (he ▸ hst') hst

/-! ### replay -/

theorem deliverable_applyReplayFrom (hs : Started env.now s) (hk : k ∈ (applyReplayFrom ids s).1) :
    (applyReplayFrom ids s).2.deliverable env k = s.withinTTL env k.1 := by
  obtain ⟨r, hr, rfl⟩ := mem_map.mp hk
  obtain ⟨hr, hp⟩ := mem_filter.mp hr
  have hfind : (applyReplayFrom ids s).2.subs.find? r.key = some r.replay := by
    show (s.subs.update (fun r => ids.contains r.id && r.settled) Sub.replay Sub.key_replay).find?
      r.key = _
    rw [Table.find?_update, Table.find?_of_mem hr]
    show some (if _ then _ else _) = _
    rw [if_pos hp]
  have hle : r.availableAt ≤ env.now := by
    rw [Bool.and_eq_true, Sub.settled, Bool.and_eq_true, decide_eq_true_eq] at hp
    exact hs r hr hp.2.1
  rw [deliverable_eq hfind]
  exact Sub.deliverable_of (r := r.replay) rfl hle

theorem created_reinsertDLQ (hi : Intact q s) {ds : List DLQRow} (hds : ∀ d ∈ ds, d ∈ s.dlq)
    (hnd : ds.Nodup) {n : Nat} (h : reinsertDLQPubSub q env ds s = .ok (n, s')) :
    n = (s.created s').length ∧ s'.msgs = s.msgs ∧ ∀ k ∈ s.created s', ∃ r, s'.subs.find? k = some r ∧
      r.status = .pending ∧ r.availableAt = env.now := by
  obtain ⟨records, replayed, s₁, hres, hins, hn, rfl⟩ := reinsertDLQPubSub_spec h
  rw [filterExistingMessages_eq hi hds, resolvePubSubDLQRecords_eq hi hds hnd] at hres
  obtain ⟨rfl, rfl⟩ := Prod.mk.inj (Except.ok.inj hres)
  obtain ⟨hsubs, hmsgs, -⟩ := insertSubscriptionRecords_spec hins
  obtain ⟨rows, hrows⟩ : ∃ rows, rows = subRows q.gen s.seq env.now (ds.map fun d =>
      (d.originalMessageID, d.subscriberID.getD "")) := ⟨_, rfl⟩
  have hkeys : rows.map Sub.key = ds.map fun d => (d.originalMessageID, d.subscriberID.getD "") := by
    rw [hrows, key_subRows]
  have hnew : ∀ r ∈ rows, (s.subs.find? r.key).isNone = true := by
    intro r hr
    have hk : r.key ∈ rows.map Sub.key := mem_map_of_mem hr
    rw [hkeys] at hk
    obtain ⟨d, hd, he⟩ := mem_map.mp hk
    rw [← he, find?_record hi hds hd]
    rfl
  have hall : s₁.subs.rows = s.subs.rows ++ rows := by
    rw [hsubs, ← hrows, Table.rows_insertAll (by rw [hkeys]; exact nodup_records hi hds hnd),
      filter_eq_self.mpr hnew]
  have hcreated : ∀ dlq, s.created { s₁ with dlq := dlq } = rows.map Sub.key := by
    intro dlq
    show (s₁.subs.rows.filter fun r => (s.subs.find? r.key).isNone).map Sub.key = _
    rw [hall, filter_append, filter_eq_self.mpr hnew, filter_eq_nil_iff.mpr,
      nil_append]
    intro r hr
    rw [Table.find?_of_mem hr]
    exact Bool.false_ne_true
  rw [hcreated]
  refine ⟨?_, hmsgs, fun k hk => ?_⟩
  · rw [hn, hkeys, length_map]
  · obtain ⟨r, hr, rfl⟩ := mem_map.mp hk
    have hmem : r ∈ s₁.subs.rows := by
      rw [hall]
      exact mem_append_right _ hr
    rw [hrows] at hr
    obtain ⟨i, -, -, k, -, rfl⟩ := mem_subRows hr
    exact ⟨_, Table.find?_of_mem hmem, rfl, rfl⟩

section
variable {since : Time} {afterID : UUID} {n : Nat} {performedBy : Option String}

theorem deliverable_replayFromPage {k : UUID × String} (hs : Started env.now s)
    (hk : k ∈ (replayFromPage q env since afterID n performedBy s).1.reinstated) :
    (replayFromPage q env since afterID n performedBy s).2.deliverable env k =
      s.withinTTL env k.1 := by
  have hlog : (replayFromPage q env since afterID n performedBy s).2.deliverable env k =
      (applyReplayFrom (fetchReplayCandidateIDs since afterID n s) s).2.deliverable env k := by
    unfold replayFromPage
    dsimp only
    split <;> rfl
  exact hlog.trans (deliverable_applyReplayFrom hs hk)

theorem deliverable_replayDLQPage {page : ReplayPage (UUID × String)} (hi : Intact q s)
    (hp : replayDLQPage q env afterID n performedBy false s = .ok (page, s')) :
    page.replayed = page.reinstated.length ∧
      ∀ k ∈ page.reinstated, s'.deliverable env k = s.withinTTL env k.1 := by
  unfold replayDLQPage at hp
  dsimp only at hp
  split at hp
  · cases hp
  · rename_i m s₁ hre
    obtain ⟨hlen, hmsgs, hrows⟩ := created_reinsertDLQ hi (fun d hd => mem_fetchDLQMessages hd)
      (nodup_fetchDLQMessages hi.ids.nodup) hre
    cases hp
    refine ⟨hlen, fun k hk => ?_⟩
    obtain ⟨r, hfind, hst, hav⟩ := hrows k hk
    have hdel : s₁.deliverable env k = s.withinTTL env k.1 := by
      rw [deliverable_eq hfind, Sub.deliverable_of hst (Int.le_of_eq hav), ← Table.key_of_find? hfind]
      unfold State.withinTTL
      rw [hmsgs]
      rfl
    rw [if_neg Bool.false_ne_true, ← hdel]
    split <;> rfl

end
end
end Topic

/-- **Replayed means deliverable, up to the TTL.**  In every state a queue can get to, and right
after a page of ReplayFrom or ReplayDLQ or a ReplayMessage has committed: a row it counts is one the
probe of a consumer asks for at this clock if and only if its message was within the TTL before.
The dead letters of a channel are published anew and always deliverable. -/
theorem replayed_deliverable_iff (q : Queue) (performedBy : Option String) :
    (∀ s h t, Channel.Reach q s h t → ∀ env : Env, t ≤ env.now →
      (∀ since afterID n,
        let p := Channel.replayFromPage q env since afterID n performedBy s
        p.1.replayed = p.1.reinstated.length ∧
        ∀ id ∈ p.1.reinstated, p.2.deliverable env id = true ↔ s.withinTTL env id = true) ∧
      (∀ id s', Channel.executeReplayMessage q env id performedBy s = .ok s' →
        (s'.deliverable env id = true ↔ s.withinTTL env id = true)) ∧
      (∀ afterID n,
        let p := Channel.replayDLQPage q env afterID n performedBy false s
        p.1.replayed = p.1.reinstated.length ∧
        ∀ id ∈ p.1.reinstated, p.2.deliverable env id = true)) ∧
    (∀ s h t, Topic.Reach q s h t → ∀ env : Env, t ≤ env.now →
      (∀ since afterID n,
        let p := Topic.replayFromPage q env since afterID n performedBy s
        p.1.replayed = p.1.reinstated.length ∧
        ∀ k ∈ p.1.reinstated, p.2.deliverable env k = true ↔ s.withinTTL env k.1 = true) ∧
      ∀ afterID n page s', Topic.replayDLQPage q env afterID n performedBy false s = .ok (page, s') →
        page.replayed = page.reinstated.length ∧
        ∀ k ∈ page.reinstated, s'.deliverable env k = true ↔ s.withinTTL env k.1 = true) := by
  constructor
  · intro s h t hr env ht
    have hs := hr.started.mono ht
    refine ⟨fun since afterID n => ⟨rfl, fun id hid => ?_⟩, fun id s' hs' => ?_,
      fun afterID n => ⟨rfl, ?_⟩⟩
    · rw [Channel.deliverable_replayFromPage hs hid]
    · rw [Channel.deliverable_executeReplayMessage hs']
    · exact fun id hid => Channel.deliverable_replayDLQPage hid
  · intro s h t hr env ht
    have hs := hr.started.mono ht
    refine ⟨fun since afterID n => ⟨rfl, fun k hk => ?_⟩, fun afterID n page s' hp => ?_⟩
    · rw [Topic.deliverable_replayFromPage hs hk]
    · obtain ⟨hlen, hdel⟩ := Topic.deliverable_replayDLQPage hr.intact hp
      refine ⟨hlen, fun k hk => ?_⟩
      rw [hdel k hk]

def ackedOnce : List (Env × Channel.Op) :=
  [(Env.bare 0, .publish ⟨7, [], none⟩), (Env.bare 1, .receive 1000),
    (Env.bare 2, .ack ⟨7, 1, "orders", some .channel, ""⟩)]

/-- a topic without retries whose one subscriber rejects the one message -/
def rejectedOnce : List (Env × Topic.Op) :=
  [(Env.bare 0, .subscribe "a"), (Env.bare 0, .publish ⟨7, [], none⟩),
    (Env.bare 1, .receive "a" 1000),
    (Env.bare 2, .nack ⟨7, 2, "orders", some .pubsub, "a"⟩ [] 0)]

/-- without a TTL the replayed message is deliverable -/
theorem replayed_deliverable_iff_no_ttl :
    let s := (Channel.runFrom (Queue.counting 0) Channel.State.init ackedOnce).1
    let p := Channel.replayFromPage (Queue.counting 0) (Env.bare 100) 0 UUID.nil 1000 none s
    p.1.reinstated = [7] ∧ ∀ id ∈ p.1.reinstated, p.2.deliverable (Env.bare 100) id = true := by
  have hr : Channel.Reach (Queue.counting 0)
      (Channel.runFrom (Queue.counting 0) Channel.State.init ackedOnce).1 _ 2 :=
    (Channel.Reach.init 0).ran ⟨by decide, by decide, by decide, trivial⟩
  refine ⟨by decide, fun id hid => ?_⟩
  refine ((((replayed_deliverable_iff (Queue.counting 0) none).1 _ _ _ hr (Env.bare 100)
    (by decide)).1 0 UUID.nil 1000).2 id hid).mpr ?_
  obtain rfl := mem_singleton.mp hid
  decide

/-- a TTL of 10 and a clock of 100: both replays count the message, and no probe finds it -/
theorem replayed_expired_not_delivered :
    let env := { Env.bare 100 with ttl := 10 }
    let s := (Channel.runFrom (Queue.counting 0) Channel.State.init ackedOnce).1
    let p := Channel.replayFromPage (Queue.counting 0) env 0 UUID.nil 1000 none s
    let s' := (Topic.runFrom (Queue.counting 0) Topic.State.init rejectedOnce).1
    let p' := Topic.replayDLQPage (Queue.counting 0) env UUID.nil 100 none false s'
    (p.1.replayed = 1 ∧ p.1.reinstated = [7] ∧ p.2.deliverable env 7 = false ∧
      Channel.pendingProbe env p.2 = none) ∧
    ∃ page s₁, p' = .ok (page, s₁) ∧ page.replayed = 1 ∧ page.reinstated = [(7, "a")] ∧
      s₁.deliverable env (7, "a") = false ∧ Topic.pendingProbe env "a" s₁ = none := by
  exact ⟨by decide, _, _, rfl, by decide, by decide, by decide, by decide⟩

/-- **A row that is reset is not stuck behind an old delay.**  In every state a queue can get to, a row
that is not pending has an `available_at` that has passed.  The timeout reset leaves that column alone;
so, on a queue without TTL, every row it returns to pending is one the probe of a consumer asks for
at this clock. -/
theorem reset_deliverable (q : Queue) :
    (∀ s h t, Channel.Reach q s h t →
      (∀ r ∈ s.msgs.rows, r.status ≠ .pending → r.availableAt ≤ t) ∧
      ∀ env : Env, t ≤ env.now → env.ttl ≤ 0 →
        let s' := (Channel.resetTimedOutPage q env s).2
        ∀ id r r', s.msgs.find? id = some r → r.status ≠ .pending →
          s'.msgs.find? id = some r' → r'.status = .pending →
            r' = r.reset ∧ s'.deliverable env id = true) ∧
    (∀ s h t, Topic.Reach q s h t →
      (∀ r ∈ s.subs.rows, r.status ≠ .pending → r.availableAt ≤ t) ∧
      ∀ env : Env, t ≤ env.now → env.ttl ≤ 0 →
        let s' := (Topic.resetTimedOutPage q env s).2
        ∀ k r r', s.subs.find? k = some r → r.status ≠ .pending →
          s'.subs.find? k = some r' → r'.status = .pending →
            r' = r.reset ∧ s'.deliverable env k = true) := by
  constructor
  · intro s h t hr
    refine ⟨hr.started, fun env ht httl => ?_⟩
    intro s' id r r' hfind hst hfind' hst'
    exact Channel.deliverable_resetTimedOutPage (hr.started.mono ht) httl hfind hst hfind' hst'
  · intro s h t hr
    refine ⟨hr.started, fun env ht httl => ?_⟩
    intro s' k r r' hfind hst hfind' hst'
    exact Topic.deliverable_resetTimedOutPage (hr.started.mono ht) httl hfind hst hfind' hst'

/-- a message that is nacked with a delay of 5, claimed again when it has passed, and left to expire -/
def delayedThenExpired : List (Env × Channel.Op) :=
  [(Env.bare 0, .publish ⟨7, [], none⟩), (Env.bare 1, .receive 1000),
    (Env.bare 2, .nack ⟨7, 1, "orders", some .channel, ""⟩ [] 5), (Env.bare 7, .receive 1000)]

/-- it is available since 7; at 2000 the reset makes it deliverable -/
theorem reset_deliverable_delayed :
    let s := (Channel.runFrom (Queue.counting 3) Channel.State.init delayedThenExpired).1
    let s' := (Channel.resetTimedOutPage (Queue.counting 3) (Env.bare 2000) s).2
    (s.msgs.rows.map fun r => (r.id, r.status, r.availableAt)) = [(7, .processing, 7)] ∧
      s'.deliverable (Env.bare 2000) 7 = true := by
  have hr : Channel.Reach (Queue.counting 3)
      (Channel.runFrom (Queue.counting 3) Channel.State.init delayedThenExpired).1 _ 7 :=
    (Channel.Reach.init 0).ran ⟨by decide, by decide, by decide, by decide, trivial⟩
  refine ⟨by decide, ?_⟩
  exact (((reset_deliverable (Queue.counting 3)).1 _ _ _ hr).2 (Env.bare 2000) (by decide)
    (by decide) 7 _ _ rfl (by decide) rfl rfl).2

end PgQueue
