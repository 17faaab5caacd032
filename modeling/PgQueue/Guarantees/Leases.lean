import PgQueue.Channel.Conserve
import PgQueue.Topic.Conserve
import PgQueue.Lease.Invariants

/-!
# What holds of the leases of a queue

A channel and a topic are systems of leases (`Channel.Reach.run`, `Topic.Reach.run`), so what
`PgQueue.Lease.Invariants` proves of every run holds of their rows:

* `retries_accounted`   the retry count of a row counts its failed deliveries, and is bounded;
* `claims_fenced`       a claim settles at most once, and a claim that is not live does nothing;
* `lease_exclusive`     until its deadline a lease is not taken away;
* `rows_shaped`         which columns a row of each status fills; no two rows share a claim.
-/

namespace PgQueue
open Relational Lease

/-! ## a channel -/

namespace Channel
section
variable {q : Queue} {env : Env} {s : State} {h : History UUID} {t : Time} {r : Row} {id c : UUID}
  {l : Slot UUID Time}

theorem slot_of_mem (hr : r ∈ s.msgs.rows) : (lease q s).slot r.id = some (r.slot q) := by
  show (s.msgs.find? r.id).map (Row.slot q) = _
  rw [Table.find?_of_mem hr]
  rfl

theorem row_of_slot (hl : (lease q s).slot id = some l) :
    ∃ r ∈ s.msgs.rows, r.id = id ∧ r.slot q = l := by
  obtain ⟨r, hf, he⟩ := Option.map_eq_some_iff.mp hl
  exact ⟨r, Table.mem_of_find? hf, Table.key_of_find? hf, he⟩

theorem Reach.sound (hr : Reach q s h t) (id : UUID) :
    Sound q.gen.draw q.resolveMaxRetries t s.seq ((lease q s).slot id) (about id h) :=
  hr.run.sound q.gen.injective id

theorem live_of_ok {x : Receipt} {s' : State}
    (hok : ackChannel env x s = .ok s' ∨ (∃ reason delay, nackChannelImpl q env x reason delay s =
      .ok s') ∨ ∃ d, extendChannelVisibility env x d s = .ok s') :
    liveClaim s x.messageID = some x.claimID := by
  by_contra hl
  rcases hok with h | ⟨reason, delay, h⟩ | ⟨d, h⟩
  · rw [ackChannel_miss hl] at h
    cases h
  · rw [nackChannelImpl_miss hl] at h
    cases h
  · rw [extendChannelVisibility_miss (extendChannelVisibility_ok h).1 hl] at h
    cases h

theorem step_of_not_live {x : Receipt} (hl : liveClaim s x.messageID ≠ some x.claimID) :
    (step q env s (.ack x)).1 = s ∧ (∀ reason delay, (step q env s (.nack x reason delay)).1 = s) ∧
      ∀ d, (step q env s (.extend x d)).1 = s := by
  refine ⟨commit'_cases (fun p => p.1 = s) rfl fun s' h => ?_, fun reason delay =>
    commit'_cases (fun p => p.1 = s) rfl fun s' h => ?_, fun d =>
    commit'_cases (fun p => p.1 = s) rfl fun s' h => ?_⟩
  · exact absurd (live_of_ok (q := q) (Or.inl h)) hl
  · exact absurd (live_of_ok (Or.inr (Or.inl ⟨reason, delay, h⟩))) hl
  · exact absurd (live_of_ok (q := q) (Or.inr (Or.inr ⟨d, h⟩))) hl

theorem step_wiped {op : Op} (hw : (id, Event.wiped) ∈ (step q env s op).2) :
    op = .purgeQueue ∨ op = .deleteChannel := by
  let P := fun x : State × History UUID => (id, Event.wiped) ∉ x.2
  have h0 : P (s, []) := List.not_mem_nil
  cases op with
  | purgeQueue => exact Or.inl rfl
  | deleteChannel => exact Or.inr rfl
  | receive vis =>
    refine absurd hw (commit_cases P h0 fun m s' _ => ?_)
    cases m <;> simp [P, deliveredEvents]
  | ackBatch | nackBatch =>
    exact absurd hw (commit_cases P h0 fun _ _ _ => by simp [P, ackedEvents, nackedEvents])
  | publish | publishBatch | ack | nack | extend | replayMessage =>
    refine absurd hw (commit'_cases P h0 fun _ _ => ?_)
    simp [P, publishedEvents, ackedEvents, nackedEvents, replayedEvents]
  | replayFrom since afterID limit performedBy => simp [step, replayedEvents] at hw
  | replayDLQ afterID limit performedBy dryRun =>
    cases dryRun <;> simp [step, publishedEvents] at hw
  | promotePage | resetPage | purgeCompleted | purgeOldPending | purgeDLQ => cases hw

/-- the row `id` is being processed under the claim `c` until `T` -/
def Held (s : State) (id c : UUID) (T : Time) (retryCount : Nat) : Prop :=
  ∃ r ∈ s.msgs.rows, r.id = id ∧ r.status = .processing ∧ r.claimID = some c ∧
    r.visibilityTimeout = some T ∧ r.retryCount = retryCount

theorem held_of_slot {T : Time} (hl : (lease q s).slot id = some l) (hh : l.HeldBy c)
    (hT : l.deadline = some T) : Held s id c T l.attempts := by
  obtain ⟨r, hr, hid, rfl⟩ := row_of_slot hl
  exact ⟨r, hr, hid, phaseOf_eq_processing.mp hh.1, hh.2, hT, rfl⟩

structure Row.Shaped (r : Row) : Prop where
  pending : r.status = .pending → r.claimID = none ∧ r.visibilityTimeout = none
  processing : r.status = .processing → r.claimID.isSome ∧ r.visibilityTimeout.isSome
  completed : r.status = .completed → r.claimID.isSome ∧ r.processedAt.isSome
  processedAt : r.processedAt.isSome → r.status = .completed

theorem Reach.shaped (hr : Reach q s h t) (hmem : r ∈ s.msgs.rows) : r.Shaped := by
  have hs := (hr.sound r.id).shape _ (slot_of_mem hmem)
  refine ⟨fun h => hs.pending (phaseOf_eq_pending.mpr h),
    fun h => hs.processing (phaseOf_eq_processing.mpr h), fun h => ?_, fun h => ?_⟩
  · have hdone := phaseOf_eq_done.mpr (Or.inl h)
    exact ⟨hs.done hdone, hs.doneAt.mpr hdone⟩
  · rcases phaseOf_eq_done.mp (hs.doneAt.mp h) with h | h
    · exact h
    · exact absurd h r.check

theorem Reach.claim_unique (hr : Reach q s h t) {r' : Row} (hmem : r ∈ s.msgs.rows)
    (hmem' : r' ∈ s.msgs.rows) (hc : r.claimID = some c) (hc' : r'.claimID = some c) : r = r' :=
  Table.eq_of_key hmem hmem' (hr.run.token_unique q.gen.injective (slot_of_mem hmem)
    (slot_of_mem hmem') hc hc')

/-- a row that is being processed is found by the reclaim probes, and by one of the two passes of
the garbage collector, as soon as its timeout has passed -/
theorem Reach.reclaimed (hr : Reach q s h t) (hmem : r ∈ s.msgs.rows)
    (hp : r.status = .processing) :
    ∃ T, r.visibilityTimeout = some T ∧ ∀ now, T < now → r.timedOut now = true := by
  obtain ⟨T, hT⟩ := Option.isSome_iff_exists.mp ((hr.shaped hmem).processing hp).2
  refine ⟨T, hT, fun now hlt => ?_⟩
  unfold Row.timedOut
  rw [hp, hT, decide_eq_true rfl, Option.any_some, decide_eq_true hlt]
  rfl

end
end Channel

/-! ## a topic -/

namespace Topic
section
variable {q : Queue} {env : Env} {s : State} {h : History (UUID × String)} {t : Time} {r : Sub}
  {k : UUID × String} {c : UUID} {l : Slot UUID Time}

theorem slot_of_mem (hr : r ∈ s.subs.rows) : (lease q s).slot r.key = some (r.slot q) := by
  show (s.subs.find? r.key).map (Sub.slot q) = _
  rw [Table.find?_of_mem hr]
  rfl

theorem row_of_slot (hl : (lease q s).slot k = some l) :
    ∃ r ∈ s.subs.rows, r.key = k ∧ r.slot q = l := by
  obtain ⟨r, hf, he⟩ := Option.map_eq_some_iff.mp hl
  exact ⟨r, Table.mem_of_find? hf, Table.key_of_find? hf, he⟩

theorem Reach.sound (hr : Reach q s h t) (k : UUID × String) :
    Sound q.gen.draw q.resolveMaxRetries t s.seq ((lease q s).slot k) (about k h) :=
  hr.run.sound q.gen.injective k

theorem live_of_ok {x : Receipt} {s' : State}
    (hok : ackTopic env x.subscriberID x s = .ok s' ∨
      (∃ reason delay, nackTopicImpl q env x.subscriberID x reason delay s = .ok s') ∨
      ∃ d, extendTopicVisibility env x.subscriberID x d s = .ok s') :
    liveClaim s (subKey x) = some x.claimID := by
  by_contra hl
  rcases hok with h | ⟨reason, delay, h⟩ | ⟨d, h⟩
  · rw [ackTopic_miss (ackTopic_ok h).1 hl] at h
    cases h
  · rw [nackTopicImpl_miss (nackTopicImpl_ok h).1 hl] at h
    cases h
  · obtain ⟨hd, hv, -⟩ := extendTopicVisibility_ok h
    rw [extendTopicVisibility_miss hv hd hl] at h
    cases h

theorem step_of_not_live {x : Receipt} (hl : liveClaim s (subKey x) ≠ some x.claimID) :
    (step q env s (.ack x)).1 = s ∧ (∀ reason delay, (step q env s (.nack x reason delay)).1 = s) ∧
      ∀ d, (step q env s (.extend x d)).1 = s := by
  refine ⟨commit'_cases (fun p => p.1 = s) rfl fun s' h => ?_, fun reason delay =>
    commit'_cases (fun p => p.1 = s) rfl fun s' h => ?_, fun d =>
    commit'_cases (fun p => p.1 = s) rfl fun s' h => ?_⟩
  · exact absurd (live_of_ok (q := q) (Or.inl h)) hl
  · exact absurd (live_of_ok (Or.inr (Or.inl ⟨reason, delay, h⟩))) hl
  · exact absurd (live_of_ok (q := q) (Or.inr (Or.inr ⟨d, h⟩))) hl

theorem step_wiped {op : Op} (hw : (k, Event.wiped) ∈ (step q env s op).2) :
    op = .purgeQueue ∨ op = .deleteTopic := by
  let P := fun x : State × History (UUID × String) => (k, Event.wiped) ∉ x.2
  have h0 : P (s, []) := List.not_mem_nil
  cases op with
  | purgeQueue => exact Or.inl rfl
  | deleteTopic => exact Or.inr rfl
  | receive subscriberID vis =>
    refine absurd hw (commit_cases P h0 fun m s' _ => ?_)
    cases m <;> simp [P, deliveredEvents]
  | ackBatch | nackBatch =>
    exact absurd hw (commit_cases P h0 fun _ _ _ => by simp [P, ackedEvents, nackedEvents])
  | publish | publishBatch =>
    exact absurd hw (commitCreated_cases P h0 fun _ _ => by simp [P, publishedEvents])
  | subscribe | unsubscribe | ack | nack | extend =>
    exact absurd hw (commit'_cases P h0 fun _ _ => by simp [P, ackedEvents, nackedEvents])
  | replayFrom since afterID limit performedBy => simp [step, replayedEvents] at hw
  | replayDLQ afterID limit performedBy dryRun =>
    refine absurd hw (commit_cases P h0 fun page s' _ => ?_)
    cases dryRun <;> simp [P, publishedEvents]
  | promotePage | resetPage | purgeCompleted | purgeOldPending | purgeDLQ | purgeInactive
  | reclaimOrphans => cases hw

/-- the row `k` is being processed under the claim `c` until `T` -/
def Held (s : State) (k : UUID × String) (c : UUID) (T : Time) (retryCount : Nat) : Prop :=
  ∃ r ∈ s.subs.rows, r.key = k ∧ r.status = .processing ∧ r.claimID = some c ∧
    r.visibilityTimeout = some T ∧ r.retryCount = retryCount

theorem held_of_slot {T : Time} (hl : (lease q s).slot k = some l) (hh : l.HeldBy c)
    (hT : l.deadline = some T) : Held s k c T l.attempts := by
  obtain ⟨r, hr, hid, rfl⟩ := row_of_slot hl
  exact ⟨r, hr, hid, phaseOf_eq_processing.mp hh.1, hh.2, hT, rfl⟩

structure Sub.Shaped (r : Sub) : Prop where
  pending : r.status = .pending → r.claimID = none ∧ r.visibilityTimeout = none
  processing : r.status = .processing → r.claimID.isSome ∧ r.visibilityTimeout.isSome
  acked : r.status = .acked → r.claimID.isSome ∧ r.ackedAt.isSome
  ackedAt : r.ackedAt.isSome → r.status = .acked

theorem Reach.shaped (hr : Reach q s h t) (hmem : r ∈ s.subs.rows) : r.Shaped := by
  have hs := (hr.sound r.key).shape _ (slot_of_mem hmem)
  refine ⟨fun h => hs.pending (phaseOf_eq_pending.mpr h),
    fun h => hs.processing (phaseOf_eq_processing.mpr h), fun h => ?_, fun h => ?_⟩
  · have hdone := phaseOf_eq_done.mpr (Or.inr h)
    exact ⟨hs.done hdone, hs.doneAt.mpr hdone⟩
  · rcases phaseOf_eq_done.mp (hs.doneAt.mp h) with h | h
    · exact absurd h r.check
    · exact h

theorem Reach.claim_unique (hr : Reach q s h t) {r' : Sub} (hmem : r ∈ s.subs.rows)
    (hmem' : r' ∈ s.subs.rows) (hc : r.claimID = some c) (hc' : r'.claimID = some c) : r = r' :=
  Table.eq_of_key hmem hmem' (hr.run.token_unique q.gen.injective (slot_of_mem hmem)
    (slot_of_mem hmem') hc hc')

theorem Reach.reclaimed (hr : Reach q s h t) (hmem : r ∈ s.subs.rows)
    (hp : r.status = .processing) :
    ∃ T, r.visibilityTimeout = some T ∧ ∀ now, T < now → r.timedOut now = true := by
  obtain ⟨T, hT⟩ := Option.isSome_iff_exists.mp ((hr.shaped hmem).processing hp).2
  refine ⟨T, hT, fun now hlt => ?_⟩
  unfold Sub.timedOut
  rw [hp, hT, decide_eq_true rfl, Option.any_some, decide_eq_true hlt]
  rfl

end
end Topic

/-! ## the retry count -/

/-- **In every state a queue can get to**, a row's retry count is at most the effective cap, and
its deliveries since it was last published or replayed are the retry count, and one more unless it
is pending.  So nothing is delivered more than `max_retries + 1` times between reinstatements, and
every dead letter was attempted exactly that often. -/
theorem retries_accounted (q : Queue) :
    (∀ s h t, Channel.Reach q s h t →
      (∀ r ∈ s.msgs.rows, r.cap q = q.resolveMaxRetries ∧ r.retryCount ≤ r.cap q ∧
        deliveries (about r.id h) = r.retryCount + if r.status = .pending then 0 else 1) ∧
      (∀ id, deliveries (about id h) ≤ q.resolveMaxRetries + 1) ∧
      ∀ d ∈ s.dlq, d.retryCount = q.resolveMaxRetries + 1) ∧
    ∀ s h t, Topic.Reach q s h t →
      (∀ r ∈ s.subs.rows, r.retryCount ≤ q.resolveMaxRetries ∧
        deliveries (about r.key h) = r.retryCount + if r.status = .pending then 0 else 1) ∧
      (∀ k, deliveries (about k h) ≤ q.resolveMaxRetries + 1) ∧
      ∀ d ∈ s.dlq, d.retryCount = q.resolveMaxRetries + 1 := by
  constructor
  · intro s h t hr
    refine ⟨fun r hmem => ?_, fun id => (hr.sound id).accounted.bounded, fun d hd => ?_⟩
    · have ha := (hr.sound r.id).accounted
      obtain ⟨hcap, hle⟩ := ha.capped _ (Channel.slot_of_mem hmem)
      refine ⟨hcap, hle.trans_eq hcap.symm, ?_⟩
      rw [ha.counted _ (Channel.slot_of_mem hmem)]
      simp only [Channel.Row.slot, phaseOf_eq_pending]
    · exact hr.run.buried q.gen.injective ⟨d, hd, rfl, rfl⟩
  · intro s h t hr
    refine ⟨fun r hmem => ?_, fun k => (hr.sound k).accounted.bounded, fun d hd => ?_⟩
    · have ha := (hr.sound r.key).accounted
      refine ⟨(ha.capped _ (Topic.slot_of_mem hmem)).2, ?_⟩
      rw [ha.counted _ (Topic.slot_of_mem hmem)]
      simp only [Topic.Sub.slot, phaseOf_eq_pending]
    · obtain ⟨x, hx⟩ := Option.isSome_iff_exists.mp (hr.intact.named _ (Topic.mem_pairs_dlq hd))
      exact hr.run.buried q.gen.injective (k := (d.originalMessageID, x)) ⟨d, hd, rfl, hx, rfl⟩

/-- a message that is nacked once and delivered again; a subscription that is delivered -/
theorem retries_accounted_redelivery :
    (∃ s h t, Channel.Reach (.counting 3) s h t ∧ s.msgs.rows.map Channel.Row.retryCount = [1] ∧
      deliveries (about 7 h) ≤ 4) ∧
    ∃ s h t, Topic.Reach (.counting 3) s h t ∧ s.subs.rows.map Topic.Sub.key = [(7, "a")] ∧
      deliveries (about (7, "a") h) ≤ 4 := by
  have hc := Channel.Reach.next (.next (.next (.next (.init (q := .counting 3) 0) (.bare 0)
    (.publish ⟨7, [], none⟩) (by decide)) (.bare 5) (.receive hour) (by decide)) (.bare 6)
    (.nack ⟨7, 1, "orders", some .channel, ""⟩ [] 0) (by decide)) (.bare 7) (.receive hour) (by decide)
  have ht := Topic.Reach.next (.next (.next (.init (q := .counting 3) 0) (.bare 0)
    (.subscribe "a") (by decide)) (.bare 0) (.publish ⟨7, [], none⟩) (by decide)) (.bare 5)
    (.receive "a" hour) (by decide)
  exact ⟨⟨_, _, _, hc, by decide, ((retries_accounted (.counting 3)).1 _ _ _ hc).2.1 7⟩,
    ⟨_, _, _, ht, by decide, ((retries_accounted (.counting 3)).2 _ _ _ ht).2.1 (7, "a")⟩⟩

/-! ## claims -/

/-- **Claim fencing.**  Over a whole run a claim is consumed by at most one ack or nack, single or
in a batch.  A single ack, nack or extension that succeeds found the row it names being processed
under the receipt's claim; where there is no such row, the tables stay as they are. -/
theorem claims_fenced (q : Queue) :
    ((∀ s h t, Channel.Reach q s h t → ∀ c, h.countP (fun e => e.2.consumes c) ≤ 1) ∧
      (∀ env s (x : Receipt) s', (Channel.ackChannel env x s = .ok s' ∨
          (∃ reason delay, Channel.nackChannelImpl q env x reason delay s = .ok s') ∨
          ∃ d, Channel.extendChannelVisibility env x d s = .ok s') →
        ∃ r ∈ s.msgs.rows, r.id = x.messageID ∧ r.claimID = some x.claimID ∧
          r.status = .processing) ∧
      ∀ env s (x : Receipt), (∀ r ∈ s.msgs.rows, r.id = x.messageID →
          r.claimID = some x.claimID → r.status ≠ .processing) →
        (Channel.step q env s (.ack x)).1 = s ∧
        (∀ reason delay, (Channel.step q env s (.nack x reason delay)).1 = s) ∧
        ∀ d, (Channel.step q env s (.extend x d)).1 = s) ∧
    (∀ s h t, Topic.Reach q s h t → ∀ c, h.countP (fun e => e.2.consumes c) ≤ 1) ∧
    (∀ env s (x : Receipt) s', (Topic.ackTopic env x.subscriberID x s = .ok s' ∨
        (∃ reason delay, Topic.nackTopicImpl q env x.subscriberID x reason delay s = .ok s') ∨
        ∃ d, Topic.extendTopicVisibility env x.subscriberID x d s = .ok s') →
      ∃ r ∈ s.subs.rows, r.key = (x.messageID, x.subscriberID) ∧ r.claimID = some x.claimID ∧
        r.status = .processing) ∧
    ∀ env s (x : Receipt), (∀ r ∈ s.subs.rows, r.key = (x.messageID, x.subscriberID) →
        r.claimID = some x.claimID → r.status ≠ .processing) →
      (Topic.step q env s (.ack x)).1 = s ∧
      (∀ reason delay, (Topic.step q env s (.nack x reason delay)).1 = s) ∧
      ∀ d, (Topic.step q env s (.extend x d)).1 = s := by
  refine ⟨⟨fun s h t hr => hr.run.consumed_le_one q.gen.injective, fun env s x s' hok => ?_,
      fun env s x hno => ?_⟩,
    fun s h t hr => hr.run.consumed_le_one q.gen.injective, fun env s x s' hok => ?_,
      fun env s x hno => ?_⟩
  · obtain ⟨r, hr, hu⟩ := Channel.liveClaim_eq_some.mp (Channel.live_of_ok hok)
    exact ⟨r, hr, Channel.underClaim_eq.mp hu⟩
  · refine Channel.step_of_not_live fun hl => ?_
    obtain ⟨r, hr, hu⟩ := Channel.liveClaim_eq_some.mp hl
    obtain ⟨hid, hc, hp⟩ := Channel.underClaim_eq.mp hu
    exact hno r hr hid hc hp
  · obtain ⟨r, hr, hu⟩ := Topic.liveClaim_eq_some.mp (Topic.live_of_ok hok)
    exact ⟨r, hr, Topic.underClaim_eq.mp hu⟩
  · refine Topic.step_of_not_live fun hl => ?_
    obtain ⟨r, hr, hu⟩ := Topic.liveClaim_eq_some.mp hl
    obtain ⟨hid, hc, hp⟩ := Topic.underClaim_eq.mp hu
    exact hno r hr hid hc hp

/-- a message is acked; the second ack with the same receipt does nothing -/
theorem claims_fenced_ack_twice :
    ∃ s h t, Channel.Reach (.counting 3) s h t ∧ (7, Event.acked 1) ∈ h ∧
      h.countP (fun e => e.2.consumes 1) ≤ 1 ∧
      (Channel.step (.counting 3) (.bare 8) s (.ack ⟨7, 1, "orders", some .channel, ""⟩)).1 = s := by
  have hc := Channel.Reach.next (.next (.next (.init (q := .counting 3) 0) (.bare 0)
    (.publish ⟨7, [], none⟩) (by decide)) (.bare 5) (.receive hour) (by decide)) (.bare 6)
    (.ack ⟨7, 1, "orders", some .channel, ""⟩) (by decide)
  exact ⟨_, _, _, hc, by decide, (claims_fenced (.counting 3)).1.1 _ _ _ hc 1,
    ((claims_fenced (.counting 3)).1.2.2 _ _ _ (by decide)).1⟩

/-! ## leases -/

/-- **Lease exclusivity.**  `T` is the deadline that the delivery under the claim `c`, or the last
extension with `c`, has set.  Before `T` the row is being processed under `c`.  A transaction at a
time before `T` that neither acks nor nacks with `c` and is not an explicit purge or deletion of
the queue leaves it there: it neither delivers nor replays it (an extension with `c` is all that
can happen to it), and the row is still there under `c` with the same retry count, so it was not
reset, dead-lettered, purged or cascaded away either. -/
theorem lease_exclusive (q : Queue) :
    (∀ s h t, Channel.Reach q s h t → ∀ id c T, deadlineOf c (about id h) = some T → t < T →
      ∃ n, Channel.Held s id c T n ∧ ∀ env op, t ≤ env.now → env.now < T →
        op ≠ .purgeQueue → op ≠ .deleteChannel →
        (id, Event.acked c) ∉ (Channel.step q env s op).2 →
        (id, Event.nacked c) ∉ (Channel.step q env s op).2 →
        (∀ e ∈ about id (Channel.step q env s op).2, ∃ T', e = .extended c T') ∧
        ∃ T', env.now < T' ∧ Channel.Held (Channel.step q env s op).1 id c T' n ∧
          (about id (Channel.step q env s op).2 = [] → T' = T)) ∧
    ∀ s h t, Topic.Reach q s h t → ∀ k c T, deadlineOf c (about k h) = some T → t < T →
      ∃ n, Topic.Held s k c T n ∧ ∀ env op, t ≤ env.now → env.now < T →
        op ≠ .purgeQueue → op ≠ .deleteTopic →
        (k, Event.acked c) ∉ (Topic.step q env s op).2 →
        (k, Event.nacked c) ∉ (Topic.step q env s op).2 →
        (∀ e ∈ about k (Topic.step q env s op).2, ∃ T', e = .extended c T') ∧
        ∃ T', env.now < T' ∧ Topic.Held (Topic.step q env s op).1 k c T' n ∧
          (about k (Topic.step q env s op).2 = [] → T' = T) := by
  constructor
  · intro s h t hr id c T hd hT
    obtain ⟨l, hl, hh, hdl⟩ := (hr.sound id).leased c T hd hT
    refine ⟨l.attempts, Channel.held_of_slot hl hh hdl, fun env op ht hlt hp hq hack hnack => ?_⟩
    obtain ⟨ds, hpath, -⟩ := (@Channel.step_moves q env s op).path id
    rw [hl] at hpath
    obtain ⟨-, hext, T', hT', ho, hsame⟩ := hpath.live hh hdl hlt fun e he =>
      ⟨ne_of_mem_about he hack, ne_of_mem_about he hnack,
        ne_of_mem_about he fun hw => (Channel.step_wiped hw).elim hp hq⟩
    exact ⟨hext, T', hT', Channel.held_of_slot (l := l.prolong T') ho hh rfl, hsame⟩
  · intro s h t hr k c T hd hT
    obtain ⟨l, hl, hh, hdl⟩ := (hr.sound k).leased c T hd hT
    refine ⟨l.attempts, Topic.held_of_slot hl hh hdl, fun env op ht hlt hp hq hack hnack => ?_⟩
    obtain ⟨ds, hpath, -⟩ := (@Topic.step_moves q env s op hr.wf).2.path k
    rw [hl] at hpath
    obtain ⟨-, hext, T', hT', ho, hsame⟩ := hpath.live hh hdl hlt fun e he =>
      ⟨ne_of_mem_about he hack, ne_of_mem_about he hnack,
        ne_of_mem_about he fun hw => (Topic.step_wiped hw).elim hp hq⟩
    exact ⟨hext, T', hT', Topic.held_of_slot (l := l.prolong T') ho hh rfl, hsame⟩

/-- the subscriber unsubscribes, and the garbage collector comes by while the lease is in force -/
theorem lease_exclusive_unsubscribed :
    ∃ s h t n T', Topic.Reach (.counting 3) s h t ∧
      Topic.Held (Topic.step (.counting 3) (.bare 9) s .purgeInactive).1 (7, "a") 2 T' n := by
  have ht := Topic.Reach.next (.next (.next (.next (.init (q := .counting 3) 0) (.bare 0)
    (.subscribe "a") (by decide)) (.bare 0) (.publish ⟨7, [], none⟩) (by decide)) (.bare 5)
    (.receive "a" hour) (by decide)) (.bare 6) (.unsubscribe "a") (by decide)
  obtain ⟨n, -, hkeep⟩ := (lease_exclusive (.counting 3)).2 _ _ _ ht (7, "a") 2 (5 + hour)
    (by decide) (by decide)
  obtain ⟨-, T', -, hheld, -⟩ := hkeep (.bare 9) .purgeInactive (by decide) (by decide) nofun nofun
    (by decide) (by decide)
  exact ⟨_, _, _, n, T', ht, hheld⟩

/-! ## the columns of a row -/

/-- **The shape of the rows, in every state a queue can get to**: which columns a row of each
status fills, and no two rows share a claim.  So a row that is being processed has a timeout, and
once that has passed it is eligible for the promotion or for the reset of the garbage collector
(and for the reclaim probe of a consumer, which asks for `timedOut` as well). -/
theorem rows_shaped (q : Queue) :
    (∀ s h t, Channel.Reach q s h t →
      (∀ r ∈ s.msgs.rows, r.Shaped) ∧
      (∀ r ∈ s.msgs.rows, ∀ r' ∈ s.msgs.rows, ∀ c, r.claimID = some c → r'.claimID = some c →
        r = r') ∧
      ∀ r ∈ s.msgs.rows, r.status = .processing → ∃ T, r.visibilityTimeout = some T ∧
        ∀ now, T < now → (r.timedOut now && decide (r.retryCount ≥ r.cap q)) = true ∨
          (r.timedOut now && decide (r.retryCount < r.cap q)) = true) ∧
    ∀ s h t, Topic.Reach q s h t →
      (∀ r ∈ s.subs.rows, r.Shaped) ∧
      (∀ r ∈ s.subs.rows, ∀ r' ∈ s.subs.rows, ∀ c, r.claimID = some c → r'.claimID = some c →
        r = r') ∧
      ∀ r ∈ s.subs.rows, r.status = .processing → ∃ T, r.visibilityTimeout = some T ∧
        ∀ now, T < now → (r.timedOut now && decide (r.retryCount ≥ q.resolveMaxRetries)) = true ∨
          (r.timedOut now && decide (r.retryCount < q.resolveMaxRetries)) = true := by
  refine ⟨fun s h t hr => ⟨fun r hm => hr.shaped hm, fun r hm r' hm' c => hr.claim_unique hm hm',
    fun r hm hp => ?_⟩, fun s h t hr => ⟨fun r hm => hr.shaped hm,
    fun r hm r' hm' c => hr.claim_unique hm hm', fun r hm hp => ?_⟩⟩
  · obtain ⟨T, hT, hout⟩ := hr.reclaimed hm hp
    refine ⟨T, hT, fun now hlt => ?_⟩
    rw [hout now hlt, Bool.true_and, Bool.true_and, decide_eq_true_eq, decide_eq_true_eq]
    exact (Nat.lt_or_ge _ _).symm
  · obtain ⟨T, hT, hout⟩ := hr.reclaimed hm hp
    refine ⟨T, hT, fun now hlt => ?_⟩
    rw [hout now hlt, Bool.true_and, Bool.true_and, decide_eq_true_eq, decide_eq_true_eq]
    exact (Nat.lt_or_ge _ _).symm

/-- one message that is being processed, one that is pending -/
theorem rows_shaped_delivered :
    ∃ s h t, Channel.Reach (.counting 3) s h t ∧
      s.msgs.rows.map Channel.Row.status = [.processing, .pending] ∧
      ∀ r ∈ s.msgs.rows, r.Shaped := by
  have hc := Channel.Reach.next (.next (.init (q := .counting 3) 0) (.bare 0)
    (.publishBatch [⟨7, [], none⟩, ⟨8, [], none⟩]) (by decide)) (.bare 5) (.receive hour) (by decide)
  exact ⟨_, _, _, hc, by decide, ((rows_shaped (.counting 3)).1 _ _ _ hc).1⟩

end PgQueue
