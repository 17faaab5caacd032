import PgQueue.Topic.Conserve

/-!
# The topic: only validated subscribers

A subscriber id enters the tables through `Subscribe`, which validates it.

* `step_subscribers`   the transactions that leave the registry alone: all but three;
* `Registered`         every id of the registry, of a subscription row and of a dead letter is valid;
* `Reach.registered`   **it holds in every run.**
-/

namespace PgQueue.Topic
open Relational List

structure Registered (s : State) : Prop where
  registry : ∀ x ∈ s.subscribers.rows, validateSubscriberID x.subscriberID = .ok ()
  pairs : ∀ p ∈ pairs s, ∀ sub, p.2 = some sub → validateSubscriberID sub = .ok ()

section
variable {q : Queue} {env : Env} {s s' : State}

theorem Registered.sub (h : Registered s) {r : Sub} (hr : r ∈ s.subs.rows) :
    validateSubscriberID r.subscriberID = .ok () := h.pairs _ (mem_pairs_sub hr) _ rfl

theorem Registered.of_liveClaim (h : Registered s) {id c : UUID} {sub : String}
    (hl : liveClaim s (id, sub) = some c) : validateSubscriberID sub = .ok () := by
  obtain ⟨r, hr, hu⟩ := liveClaim_eq_some.mp hl
  obtain ⟨-, rfl⟩ := Prod.mk.inj (underClaim_eq.mp hu).1
  exact h.sub hr

theorem registered_init : Registered .init :=
  ⟨fun _ h => absurd h not_mem_nil, fun _ h => absurd h not_mem_nil⟩

/-! ## the registry -/

theorem subscribers_fetch {sub : String} {vis : Duration} {m : Option Message}
    (h : Fetched q env sub vis s m s') : s'.subscribers = s.subscribers := by
  induction h with
  | nothing | pending | reclaimed => rfl
  | buried _ _ _ _ _ ih => exact ih
  | deferred _ _ _ _ _ ih => exact ih

theorem subscribers_fanOut {ids : List UUID} {ms : List MessageRow}
    (h : batchCreateSubscriptionRecords q env ids { s with tables := s.tables.insertParents ms } =
      .ok s') : s'.subscribers = s.subscribers := by
  obtain ⟨active, -, hins⟩ := fanOut_spec h
  exact (insertSubscriptionRecords_spec hins).2.2.1

theorem subscribers_promote (batch : List Candidate) :
    (batch.foldl (fun s e => moveSubToDLQ q env e.sub.messageID e.sub.subscriberID
      errReasonVisibilityTimeout ⟨e.sub.retryCount, e.msg.payload, e.msg.metadata⟩ s)
        s).subscribers = s.subscribers := by
  induction batch generalizing s with
  | nil => rfl
  | cons c batch ih => rw [foldl_cons, ih]; rfl

theorem subscribers_replayDLQ {afterID : UUID} {limit : Nat} {performedBy : Option String}
    {dryRun : Bool} {page : ReplayPage (UUID × String)}
    (h : replayDLQPage q env afterID limit performedBy dryRun s = .ok (page, s')) :
    s'.subscribers = s.subscribers := by
  unfold replayDLQPage at h
  dsimp only at h
  split at h
  · cases h
  · rename_i n s₁ hre
    obtain ⟨records, replayed, s₂, -, hins, -, rfl⟩ := reinsertDLQPubSub_spec hre
    have hs := (insertSubscriptionRecords_spec hins).2.2.1
    cases h
    split
    · rfl
    · split
      · exact hs
      · exact hs

/-- only these write to the registry -/
def Op.registers : Op → Bool
  | .subscribe _ | .unsubscribe _ | .deleteTopic => true
  | _ => false

theorem step_subscribers (op : Op) (hop : op.registers = false) :
    (step q env s op).1.subscribers = s.subscribers := by
  let P := fun x : State × History (UUID × String) => x.1.subscribers = s.subscribers
  have h0 : P (s, []) := rfl
  cases op with
  | subscribe | unsubscribe | deleteTopic => cases hop
  | publish m =>
    exact commitCreated_cases P h0 fun s' h => subscribers_fanOut (publishToPubSub_spec h).2
  | publishBatch ms =>
    refine commitCreated_cases P h0 fun s' h => ?_
    rcases publishBatchToPubSub_spec h with ⟨-, rfl⟩ | ⟨-, h⟩
    · rfl
    · exact subscribers_fanOut h
  | receive subscriberID vis =>
    exact commit_cases P h0 fun m s' h => subscribers_fetch (fetched_of_consume h)
  | ack r =>
    refine commit'_cases P h0 fun s' h => ?_
    obtain ⟨-, rfl⟩ := ackTopic_ok h
    rfl
  | nack r reason delay =>
    refine commit'_cases P h0 fun s' h => ?_
    obtain ⟨-, state, rfl⟩ := nackTopicImpl_ok h
    unfold nackFound
    split <;> rfl
  | extend r d =>
    refine commit'_cases P h0 fun s' h => ?_
    obtain ⟨-, -, rfl⟩ := extendTopicVisibility_ok h
    rfl
  | ackBatch rs k =>
    refine commit_cases P h0 fun res s' h => ?_
    obtain ⟨-, -, rfl⟩ := ackTopicBatch_ok h
    rfl
  | nackBatch rs k reason delay =>
    refine commit_cases P h0 fun res s' h => ?_
    obtain ⟨-, -, rfl⟩ := nackTopicBatch_ok h
    rfl
  | promotePage => exact subscribers_promote _
  | purgeCompleted ttl =>
    show (purgeCompletedPage env ttl s).2.subscribers = _
    unfold purgeCompletedPage
    split <;> rfl
  | purgeOldPending maxAge =>
    show (purgeOldPendingPage env maxAge s).2.subscribers = _
    unfold purgeOldPendingPage
    split <;> rfl
  | replayFrom since afterID limit performedBy =>
    show (replayFromPage q env since afterID limit performedBy s).2.subscribers = _
    unfold replayFromPage
    dsimp only
    split <;> rfl
  | replayDLQ afterID limit performedBy dryRun =>
    exact commit_cases P h0 fun page s' h => subscribers_replayDLQ h
  | resetPage | purgeDLQ | purgeInactive | reclaimOrphans | purgeQueue => rfl

theorem step_registry (op : Op)
    (h : ∀ x ∈ s.subscribers.rows, validateSubscriberID x.subscriberID = .ok ()) :
    ∀ x ∈ (step q env s op).1.subscribers.rows, validateSubscriberID x.subscriberID = .ok () := by
  let P := fun x : State × History (UUID × String) =>
    ∀ y ∈ x.1.subscribers.rows, validateSubscriberID y.subscriberID = .ok ()
  have h0 : P (s, []) := h
  cases op with
  | subscribe subscriberID =>
    refine commit'_cases P h0 fun s' hs => ?_
    obtain ⟨hv, rfl⟩ := registerSubscriber_ok hs
    refine Table.forall_update (fun x hx => ?_) fun x hx hp => ?_
    · rcases Table.mem_insertNew hx with hx | ⟨rfl, -⟩
      · exact h x hx
      · exact hv
    · rw [Subscriber.id_setActive, of_decide_eq_true hp]
      exact hv
  | unsubscribe subscriberID =>
    refine commit'_cases P h0 fun s' hs => ?_
    obtain rfl := unregisterSubscriber_ok hs
    exact Table.forall_update h fun x hx _ => h x hx
  | deleteTopic => exact fun x hx => absurd hx not_mem_nil
  | _ =>
    rw [step_subscribers _ rfl]
    exact h

/-! ## the rows -/

theorem mem_getActiveSubscribers {active : List String} {sub : String}
    (h : getActiveSubscribers env s = .ok active) (hs : sub ∈ active) :
    ∃ x ∈ s.subscribers.rows, x.subscriberID = sub := by
  unfold getActiveSubscribers at h
  dsimp only at h
  split at h
  · cases h
  · cases h
    obtain ⟨x, hx, rfl⟩ := mem_map.mp hs
    exact ⟨x, (Table.mem_select.mp hx).1, rfl⟩

theorem pairs_fanOut (h : Registered s) {ids : List UUID} {ms : List MessageRow}
    (hf : batchCreateSubscriptionRecords q env ids { s with tables := s.tables.insertParents ms } =
      .ok s') :
    ∀ p ∈ pairs s', ∀ sub, p.2 = some sub → validateSubscriberID sub = .ok () := by
  obtain ⟨active, hact, hins⟩ := fanOut_spec hf
  obtain ⟨hsubs, -, -, hd, -, -⟩ := insertSubscriptionRecords_spec hins
  intro p hp sub hsub
  rcases mem_append.mp hp with hp | hp
  · obtain ⟨r, hr, rfl⟩ := mem_map.mp hp
    rw [hsubs] at hr
    rcases Table.mem_insertAll hr with hr | hr
    · exact h.pairs _ (mem_pairs_sub hr) sub hsub
    · obtain ⟨i, -, -, k, hk, rfl⟩ := mem_subRows hr
      obtain ⟨id, -, hmem⟩ := mem_flatMap.mp hk
      obtain ⟨x, hx, rfl⟩ := mem_map.mp hmem
      obtain ⟨y, hy, rfl⟩ := mem_getActiveSubscribers hact hx
      obtain rfl := Option.some.inj hsub
      exact h.registry y hy
  · rw [hd] at hp
    exact h.pairs p (mem_append_right _ hp) sub hsub

theorem step_registered (op : Op) (h : Registered s) (hi : Intact q s) (hw : Wf q s) :
    Registered (step q env s op).1 := by
  refine ⟨step_registry op h.registry, ?_⟩
  cases he : op.effect with
  | keeps =>
    intro p hp
    exact h.pairs p ((step_preserved op he hi).pairs.mem_iff.mp hp)
  | removes =>
    have hd : Deleted env s (step q env s op).1 op := step_deleted op he hi hw
    intro p hp
    exact h.pairs p (((hd.subs.map _).append (hd.dlq.map _)).subset hp)
  | adds =>
    let P := fun x : State × History (UUID × String) =>
      ∀ p ∈ Topic.pairs x.1, ∀ sub, p.2 = some sub → validateSubscriberID sub = .ok ()
    have h0 : P (s, []) := h.pairs
    cases op with
    | publish m =>
      exact commitCreated_cases P h0 fun s' hs => pairs_fanOut h (publishToPubSub_spec hs).2
    | publishBatch ms =>
      refine commitCreated_cases P h0 fun s' hs => ?_
      rcases publishBatchToPubSub_spec hs with ⟨-, rfl⟩ | ⟨-, hs⟩
      · exact h.pairs
      · exact pairs_fanOut h hs
    | _ => cases he

/-- **Only validated subscribers have rows.** -/
theorem Reach.registered {h : History (UUID × String)} {t : Time} (hr : Reach q s h t) :
    Registered s := by
  induction hr with
  | init t => exact registered_init
  | next hr env op ht ih => exact step_registered op ih hr.intact hr.wf

end
end PgQueue.Topic
