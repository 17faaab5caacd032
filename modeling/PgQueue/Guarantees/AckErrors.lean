import PgQueue.Guarantees.Leases

/-!
# What an acknowledgement that fails is told

A receipt whose claim is not live is classified from the row it names, which has only a status and
a claim.  `Channel.Reach.classify` and `Topic.Reach.classify` say what that tells about the history
of the claim.

* `ack_errors_truthful`   which error an ack, a nack or an extension returns;
* `ack_stable_iff`        when the classification survives the transactions that commit between
                          the two statements of an ack.
-/

namespace PgQueue
open Relational Lease List

/-! ## the answers of an ack -/

/-- the answers, against the facts: `live`, the row is being processed under the receipt's claim;
`there`, the row exists; `acked`, an ack with the claim succeeded and nothing reinstated the row -/
structure Truthful {α : Type} (ack : Except QueueError α) (live there acked : Prop) : Prop where
  ok : (∃ a, ack = .ok a) ↔ live
  notFound : ack = .error .messageNotFound ↔ ¬ there
  alreadyAcked : ack = .error .messageAlreadyAcked ↔ acked ∧ there
  claimExpired : ack = .error .claimExpired ↔ ¬ live ∧ there ∧ ¬ acked

theorem Truthful.of_classified {α : Type} {ack : Except QueueError α} {live there acked : Prop}
    (row : Option (MessageStatus × Option UUID)) {c : UUID} (hc : c ≠ UUID.nil)
    (hhit : live → ∃ a, ack = .ok a) (hmiss : ¬ live → ack = .error (classifyClaimState row c))
    (hrow : row = none ↔ ¬ there)
    (hacked : (∃ status, row = some (status, some c) ∧ status ≠ .processing) ↔ there ∧ acked)
    (hlive : live → there ∧ ¬ acked) : Truthful ack live there acked := by
  by_cases hl : live
  · obtain ⟨a, ha⟩ := hhit hl
    obtain ⟨hth, hna⟩ := hlive hl
    exact ⟨⟨fun _ => hl, fun _ => ⟨a, ha⟩⟩, by simp [ha, hth], by simp [ha, hna], by simp [ha, hl]⟩
  · have he := hmiss hl
    refine ⟨by simp [he, hl], ?_, ?_, ?_⟩
    · rw [he, Except.error.injEq, classifyClaimState_notFound, hrow]
    · rw [he, Except.error.injEq, classifyClaimState_alreadyAcked hc, hacked, and_comm]
    · rw [he, Except.error.injEq]
      have hnf := @classifyClaimState_notFound row c
      have haa := @classifyClaimState_alreadyAcked row c hc
      rw [hrow] at hnf
      rw [hacked] at haa
      constructor
      · intro hx
        rw [hx] at hnf haa
        have hth : there := not_not.mp fun hn => absurd (hnf.mpr hn) nofun
        exact ⟨hl, hth, fun ha => absurd (haa.mpr ⟨hth, ha⟩) nofun⟩
      · rintro ⟨-, hth, hna⟩
        rcases classifyClaimState_cases row c with hx | hx | hx
        · exact absurd hth (hnf.mp hx)
        · exact absurd (haa.mp hx).2 hna
        · exact hx

/-! ## a channel -/

namespace Channel
section
variable {q : Queue} {env : Env} {s : State} {h : History UUID} {t : Time} {x : Receipt} {id c : UUID}

theorem Reach.claim_ne_nil (hr : Reach q s h t) {T : Time} (hd : (id, Event.delivered c T) ∈ h) :
    c ≠ UUID.nil := by
  obtain ⟨i, -, rfl⟩ := (hr.sound id).fenced.drawn c T (mem_about.mpr hd)
  exact q.gen.ne_nil i

theorem Reach.acked_iff (hr : Reach q s h t) :
    (∃ status, claimState s id = some (status, some c) ∧ status ≠ .processing) ↔
      (s.msgs.find? id).isSome ∧ AckStands c (about id h) := by
  have hsound := hr.sound id
  unfold claimState
  cases hf : s.msgs.find? id with
  | none => simp
  | some r =>
    have hslot : (lease q s).slot id = some (r.slot q) := by
      show (s.msgs.find? id).map (Row.slot q) = _
      rw [hf]
      rfl
    rw [hsound.stands _ c hslot]
    rw [Option.map_some, phaseOf_done_of_claim fun hp =>
      ((hr.shaped (Table.mem_of_find? hf)).pending hp).1]
    exact ⟨fun hd => ⟨rfl, hd⟩, fun hd => hd.2⟩

theorem Reach.not_acked_of_live (hr : Reach q s h t) (hl : liveClaim s id = some c) :
    (s.msgs.find? id).isSome ∧ ¬ AckStands c (about id h) := by
  obtain ⟨r, hmem, hu⟩ := liveClaim_eq_some.mp hl
  obtain ⟨rfl, hc, hp⟩ := underClaim_eq.mp hu
  refine ⟨by rw [Table.find?_of_mem hmem]; rfl, fun hack => ?_⟩
  have hd := (((hr.sound r.id).stands _ c (slot_of_mem hmem)).mp hack).1
  rw [show (r.slot q).phase = .processing from phaseOf_eq_processing.mpr hp] at hd
  cases hd

/-- **which error an ack of a delivered receipt returns** -/
theorem Reach.truthful (hr : Reach q s h t) {T : Time}
    (hd : (x.messageID, Event.delivered x.claimID T) ∈ h) :
    Truthful (ackChannel env x s) (liveClaim s x.messageID = some x.claimID)
      (s.msgs.find? x.messageID).isSome (AckStands x.claimID (about x.messageID h)) := by
  refine Truthful.of_classified (claimState s x.messageID) (hr.claim_ne_nil hd)
    (fun hl => ⟨_, ackChannel_hit hl⟩) (fun hl => ackChannel_miss hl) ?_ hr.acked_iff
    hr.not_acked_of_live
  rw [claimState, Option.map_eq_none_iff, Option.not_isSome_iff_eq_none]

theorem same_error {e : QueueError} (he : ackChannel env x s = .error e) :
    (∀ reason delay, nackChannelImpl q env x reason delay s = .error e) ∧
      ∀ d, validateVisibilityTimeout d = .ok () → extendChannelVisibility env x d s = .error e := by
  have hl : liveClaim s x.messageID ≠ some x.claimID := by
    intro hl
    rw [ackChannel_hit hl] at he
    cases he
  rw [ackChannel_miss hl] at he
  cases he
  exact ⟨fun _ _ => nackChannelImpl_miss hl, fun _ hd => extendChannelVisibility_miss hd hl⟩

/-! ## transactions between the two statements -/

theorem not_heldBy_of_not_live (hl : liveClaim s id ≠ some c) :
    ∀ l, (lease q s).slot id = some l → ¬ l.HeldBy c := by
  intro l hs hh
  obtain ⟨r, hr, hid, rfl⟩ := row_of_slot hs
  exact hl (liveClaim_of_underClaim hr (underClaim_iff.mpr ⟨hid, hh⟩))

theorem not_acked_runFrom (ops : List (Env × Op)) (hc : ∀ i, s.seq ≤ i → q.gen.draw i ≠ c)
    (h0 : ∀ l, (lease q s).slot id = some l → ¬ l.HeldBy c) :
    .acked c ∉ about id (runFrom q s ops).2 := by
  induction ops generalizing s with
  | nil => exact not_mem_nil
  | cons a rest ih =>
    have hm := @step_moves q a.1 s a.2
    obtain ⟨ds, hp, -⟩ := hm.path id
    obtain ⟨hheld, hack⟩ := hp.stale hc h0
    show .acked c ∉ about id ((step q a.1 s a.2).2 ++ (runFrom q (step q a.1 s a.2).1 rest).2)
    rw [about_append, mem_append, not_or]
    exact ⟨hack, ih (fun i hi => hc i (Nat.le_trans hm.seq_le hi)) hheld⟩

theorem Reach.completed_iff (hr : Reach q s h t) :
    claimState s id = some (.completed, some c) ↔
      (s.msgs.find? id).isSome ∧ AckStands c (about id h) := by
  rw [← hr.acked_iff]
  constructor
  · exact fun he => ⟨.completed, he, nofun⟩
  · rintro ⟨status, he, hne⟩
    obtain ⟨r, hf, hrow⟩ := Option.map_eq_some_iff.mp he
    obtain ⟨rfl, hcl⟩ := Prod.mk.inj hrow
    rw [he]
    cases hst : r.status with
    | pending =>
      rw [((hr.shaped (Table.mem_of_find? hf)).pending hst).1] at hcl
      cases hcl
    | processing => exact absurd hst hne
    | completed => rfl
    | acked => exact absurd hst r.check

theorem Reach.not_completed_nil (hr : Reach q s h t) {status : MessageStatus} :
    claimState s id ≠ some (status, some UUID.nil) := by
  intro he
  obtain ⟨r, hf, hrow⟩ := Option.map_eq_some_iff.mp he
  have hslot : (lease q s).slot id = some (r.slot q) := by
    show (s.msgs.find? id).map (Row.slot q) = _
    rw [hf]
    rfl
  obtain ⟨T, hT⟩ := (hr.sound id).fenced.held _ _ hslot (Prod.mk.inj hrow).2
  exact hr.claim_ne_nil (mem_about.mp hT) rfl

/-- the row is there after the gap exactly if it was before, and if it was completed under the
receipt's claim, it has been neither replayed nor inserted again -/
def Undisturbed (q : Queue) (x : Receipt) (s : State) (gap : List (Env × Op)) : Prop :=
  (((runFrom q s gap).1.msgs.find? x.messageID).isSome ↔ (s.msgs.find? x.messageID).isSome) ∧
  (claimState s x.messageID = some (.completed, some x.claimID) →
    ∀ e ∈ about x.messageID (runFrom q s gap).2, e ≠ .published ∧ e ≠ .replayed)

theorem isSome_claimState (s : State) (id : UUID) :
    (claimState s id).isSome = (s.msgs.find? id).isSome := Option.isSome_map

theorem claimState_eq_none : claimState s id = none ↔ ¬ (s.msgs.find? id).isSome := by
  rw [← isSome_claimState, Option.not_isSome_iff_eq_none]

theorem Reach.classify_eq_iff (hr : Reach q s h t)
    (hx : ∀ i, s.seq ≤ i → q.gen.draw i ≠ x.claimID) {gap : List (Env × Op)} (hc : Clocked t gap)
    (hl : liveClaim s x.messageID ≠ some x.claimID) :
    classifyChannelAckMiss x (runFrom q s gap).1 = classifyChannelAckMiss x s ↔
      Undisturbed q x s gap := by
  obtain ⟨t', hr'⟩ := hr.later hc
  have hack := not_acked_runFrom gap hx (not_heldBy_of_not_live hl)
  unfold classifyChannelAckMiss Undisturbed
  rw [classifyClaimState_eq_iff, classifyClaimState_notFound, classifyClaimState_notFound,
    claimState_eq_none, claimState_eq_none, not_iff_not]
  refine and_congr_right fun hsome => ?_
  by_cases hnil : x.claimID = UUID.nil
  · rw [hnil, classifyClaimState_nil, classifyClaimState_nil, isSome_claimState, isSome_claimState]
    exact ⟨fun _ he => absurd he hr.not_completed_nil, fun _ => hsome⟩
  · rw [classifyClaimState_alreadyAcked hnil, classifyClaimState_alreadyAcked hnil, hr.acked_iff,
      hr'.acked_iff, hr.completed_iff, about_append, ackStands_append hack, hsome]
    tauto

end
end Channel

/-! ## a topic -/

namespace Topic
section
variable {q : Queue} {env : Env} {s : State} {h : History (UUID × String)} {t : Time} {x : Receipt}
  {k : UUID × String} {c : UUID} {T : Time}

theorem Reach.claim_ne_nil (hr : Reach q s h t) (hd : (k, Event.delivered c T) ∈ h) :
    c ≠ UUID.nil := by
  obtain ⟨i, -, rfl⟩ := (hr.sound k).fenced.drawn c T (mem_about.mpr hd)
  exact q.gen.ne_nil i

theorem subscriberID_of_fetch {sub : String} {vis : Duration} {o : Option Message} {s s' : State}
    (h : Fetched q env sub vis s o s') : ∀ m ∈ o, m.receipt.subscriberID = sub := by
  induction h with
  | nothing =>
    intro m hm
    cases hm
  | pending | reclaimed =>
    intro m hm
    cases hm
    rfl
  | buried _ _ _ _ _ ih => exact ih
  | deferred _ _ _ _ _ ih => exact ih

theorem step_delivered {op : Op} (hd : (k, Event.delivered c T) ∈ (step q env s op).2) :
    validateSubscriberID k.2 = .ok () := by
  let P := fun x : State × History (UUID × String) => (k, Event.delivered c T) ∉ x.2
  have h0 : P (s, []) := not_mem_nil
  cases op with
  | receive subscriberID vis =>
    refine commit_cases (fun x => (k, Event.delivered c T) ∈ x.2 →
      validateSubscriberID k.2 = .ok ()) nofun (fun m s' hm hmem => ?_) hd
    have hv := (consumeFromTopic_ok hm).1
    cases m with
    | none => cases hmem
    | some m =>
      obtain ⟨rfl, -⟩ := Prod.mk.inj (mem_singleton.mp hmem)
      rw [subKey, subscriberID_of_fetch (fetched_of_consume hm) m rfl, hv]
  | ackBatch | nackBatch =>
    exact absurd hd (commit_cases P h0 fun _ _ _ => by simp [P, ackedEvents, nackedEvents])
  | publish | publishBatch =>
    exact absurd hd (commitCreated_cases P h0 fun _ _ => by simp [P, publishedEvents])
  | subscribe | unsubscribe | ack | nack | extend =>
    exact absurd hd (commit'_cases P h0 fun _ _ => by simp [P, ackedEvents, nackedEvents])
  | replayFrom since afterID limit performedBy => simp [step, replayedEvents] at hd
  | replayDLQ afterID limit performedBy dryRun =>
    refine absurd hd (commit_cases P h0 fun page s' _ => ?_)
    cases dryRun <;> simp [P, publishedEvents]
  | purgeQueue | deleteTopic => simp [step, wipedEvents] at hd
  | promotePage | resetPage | purgeCompleted | purgeOldPending | purgeDLQ | purgeInactive
  | reclaimOrphans => cases hd

theorem Reach.valid (hr : Reach q s h t) (hd : (k, Event.delivered c T) ∈ h) :
    validateSubscriberID k.2 = .ok () := by
  induction hr with
  | init t => cases hd
  | next hr env op ht ih =>
    rcases mem_append.mp hd with hd | hd
    · exact ih hd
    · exact step_delivered hd

theorem Reach.acked_iff (hr : Reach q s h t) :
    (∃ status, claimState s k.1 k.2 = some (status, some c) ∧ status ≠ .processing) ↔
      (s.subs.find? k).isSome ∧ AckStands c (about k h) := by
  have hsound := hr.sound k
  show (∃ status, (s.subs.find? k).map _ = _ ∧ _) ↔ _
  cases hf : s.subs.find? k with
  | none => simp
  | some r =>
    have hslot : (lease q s).slot k = some (r.slot q) := by
      show (s.subs.find? k).map (Sub.slot q) = _
      rw [hf]
      rfl
    rw [hsound.stands _ c hslot]
    rw [Option.map_some, phaseOf_done_of_claim fun hp =>
      ((hr.shaped (Table.mem_of_find? hf)).pending hp).1]
    exact ⟨fun hd => ⟨rfl, hd⟩, fun hd => hd.2⟩

theorem Reach.not_acked_of_live (hr : Reach q s h t) (hl : liveClaim s k = some c) :
    (s.subs.find? k).isSome ∧ ¬ AckStands c (about k h) := by
  obtain ⟨r, hmem, hu⟩ := liveClaim_eq_some.mp hl
  obtain ⟨hk, hc, hp⟩ := underClaim_eq.mp hu
  obtain rfl : r.key = k := hk
  refine ⟨by rw [Table.find?_of_mem hmem]; rfl, fun hack => ?_⟩
  have hd := (((hr.sound r.key).stands _ c (slot_of_mem hmem)).mp hack).1
  rw [show (r.slot q).phase = .processing from phaseOf_eq_processing.mpr hp] at hd
  cases hd

theorem Reach.truthful (hr : Reach q s h t) (hd : (subKey x, Event.delivered x.claimID T) ∈ h) :
    Truthful (ackTopic env x.subscriberID x s) (liveClaim s (subKey x) = some x.claimID)
      (s.subs.find? (subKey x)).isSome (AckStands x.claimID (about (subKey x) h)) := by
  have hv : validateSubscriberID x.subscriberID = .ok () := hr.valid hd
  refine Truthful.of_classified (claimState s x.messageID x.subscriberID)
    (hr.claim_ne_nil hd) (fun hl => ⟨_, ackTopic_hit hv hl⟩) (fun hl => ackTopic_miss hv hl) ?_
    (hr.acked_iff (k := subKey x)) hr.not_acked_of_live
  rw [claimState, Option.map_eq_none_iff, Option.not_isSome_iff_eq_none]
  rfl

theorem same_error (hv : validateSubscriberID x.subscriberID = .ok ()) {e : QueueError}
    (he : ackTopic env x.subscriberID x s = .error e) :
    (∀ reason delay, nackTopicImpl q env x.subscriberID x reason delay s = .error e) ∧
      ∀ d, validateVisibilityTimeout d = .ok () →
        extendTopicVisibility env x.subscriberID x d s = .error e := by
  have hl : liveClaim s (subKey x) ≠ some x.claimID := by
    intro hl
    rw [ackTopic_hit hv hl] at he
    cases he
  rw [ackTopic_miss hv hl] at he
  cases he
  exact ⟨fun _ _ => nackTopicImpl_miss hv hl, fun _ hd => extendTopicVisibility_miss hv hd hl⟩

end
end Topic

/-! ## the errors of ack, nack and extension -/

/-- **Ack-miss errors tell the truth.**  Take any state a queue can get to and any receipt an
earlier delivery of it returned.  An ack succeeds exactly if the row is being processed under the
receipt's claim.  It returns `ErrMessageNotFound` exactly if the row does not exist,
`ErrMessageAlreadyAcked` exactly if an ack with this claim succeeded, the row was neither replayed
nor inserted again since, and it still exists, and `ErrClaimExpired` in every other case.  A nack
returns the same error, and so does an extension by a valid duration. -/
theorem ack_errors_truthful (q : Queue) :
    (∀ s h t, Channel.Reach q s h t → ∀ (x : Receipt) T,
      (x.messageID, Event.delivered x.claimID T) ∈ h → ∀ env,
      Truthful (Channel.ackChannel env x s) (Channel.liveClaim s x.messageID = some x.claimID)
        (s.msgs.find? x.messageID).isSome (AckStands x.claimID (about x.messageID h)) ∧
      ∀ e, Channel.ackChannel env x s = .error e →
        (∀ reason delay, Channel.nackChannelImpl q env x reason delay s = .error e) ∧
        ∀ d, validateVisibilityTimeout d = .ok () →
          Channel.extendChannelVisibility env x d s = .error e) ∧
    ∀ s h t, Topic.Reach q s h t → ∀ (x : Receipt) T,
      (Topic.subKey x, Event.delivered x.claimID T) ∈ h → ∀ env,
      Truthful (Topic.ackTopic env x.subscriberID x s)
        (Topic.liveClaim s (Topic.subKey x) = some x.claimID)
        (s.subs.find? (Topic.subKey x)).isSome (AckStands x.claimID (about (Topic.subKey x) h)) ∧
      ∀ e, Topic.ackTopic env x.subscriberID x s = .error e →
        (∀ reason delay, Topic.nackTopicImpl q env x.subscriberID x reason delay s = .error e) ∧
        ∀ d, validateVisibilityTimeout d = .ok () →
          Topic.extendTopicVisibility env x.subscriberID x d s = .error e :=
  ⟨fun _ _ _ hr _ _ hd _ => ⟨hr.truthful hd, fun _ => Channel.same_error⟩,
    fun _ _ _ hr _ _ hd _ => ⟨hr.truthful hd, fun _ => Topic.same_error (hr.valid hd)⟩⟩

/-- a message that was acked and not replayed: the second ack is told so, and so is a nack -/
theorem ack_errors_truthful_acked :
    ∃ s h t, Channel.Reach (.counting 3) s h t ∧ AckStands 1 (about 7 h) ∧
      Channel.ackChannel (.bare 9) ⟨7, 1, "orders", some .channel, ""⟩ s =
        .error .messageAlreadyAcked ∧
      Channel.nackChannelImpl (.counting 3) (.bare 9) ⟨7, 1, "orders", some .channel, ""⟩ [] 0 s =
        .error .messageAlreadyAcked := by
  have hc := Channel.Reach.next (.next (.next (.init (q := .counting 3) 0) (.bare 0)
    (.publish ⟨7, [], none⟩) (by decide)) (.bare 5) (.receive hour) (by decide)) (.bare 6)
    (.ack ⟨7, 1, "orders", some .channel, ""⟩) (by decide)
  have hs : AckStands 1 [Event.published, .delivered 1 (5 + hour), .acked 1] :=
    ⟨[.published, .delivered 1 (5 + hour)], [], rfl, nofun⟩
  obtain ⟨htruth, hsame⟩ := (ack_errors_truthful (.counting 3)).1 _ _ _ hc
    ⟨7, 1, "orders", some .channel, ""⟩ (5 + hour) (by decide) (.bare 9)
  have hack := htruth.alreadyAcked.mpr ⟨hs, by decide⟩
  exact ⟨_, _, _, hc, hs, hack, (hsame _ hack).1 [] 0⟩

/-- a message is acked, never replayed nor inserted again, and purged by retention: the ack is not
told that it was acked before -/
theorem acked_purged_not_found :
    ∃ s h t, Channel.Reach (.counting 3) s h t ∧ (7, Event.delivered 1 (5 + hour)) ∈ h ∧
      AckStands 1 (about 7 h) ∧
      Channel.ackChannel (.bare 99) ⟨7, 1, "orders", some .channel, ""⟩ s =
        .error .messageNotFound := by
  refine ⟨_, _, _, Channel.Reach.next (.next (.next (.next (.init (q := .counting 3) 0) (.bare 0)
    (.publish ⟨7, [], none⟩) (by decide)) (.bare 5) (.receive hour) (by decide)) (.bare 6)
    (.ack ⟨7, 1, "orders", some .channel, ""⟩) (by decide)) (.bare 99) (.purgeCompleted 10)
    (by decide), by decide, ?_, rfl⟩
  exact ⟨[.published, .delivered 1 (5 + hour)], [], rfl, nofun⟩

/-! ## an ack at READ COMMITTED -/

/-- **When the classification of a missed ack is stable.**  The receipt's claim is not one that
`uuidv7()` has yet to return.  The `UPDATE` sees a state the channel can get to, then any
transactions commit, then the `SELECT` classifies.  The error is the one for the row the `UPDATE`
saw exactly if the `UPDATE` matched (there is no error), or the transactions in between leave the
row undisturbed. -/
theorem ack_stable_iff (q : Queue) (s : Channel.State) (h : History UUID) (t : Time)
    (hr : Channel.Reach q s h t) (x : Receipt) (hx : ∀ i, s.seq ≤ i → q.gen.draw i ≠ x.claimID)
    (env : Env) (ht : t ≤ env.now) (gap : List (Env × Channel.Op)) (hc : Clocked env.now gap) :
    (∀ e, Channel.ackReadCommitted q env x s gap = .error e →
      e = classifyClaimState (Channel.claimState s x.messageID) x.claimID) ↔
    Channel.liveClaim s x.messageID = some x.claimID ∨ Channel.Undisturbed q x s gap := by
  by_cases hl : Channel.liveClaim s x.messageID = some x.claimID
  · have hok : Channel.ackReadCommitted q env x s gap = .ok (Channel.ackUpdate env x s).2 := by
      unfold Channel.ackReadCommitted Channel.ackUpdate Channel.updateUnderClaim
      rw [Channel.any_underClaim, decide_eq_true hl]
      rfl
    rw [hok]
    exact ⟨fun _ => Or.inl hl, fun _ => nofun⟩
  · have herr : Channel.ackReadCommitted q env x s gap =
        .error (Channel.classifyChannelAckMiss x (Channel.runFrom q s gap).1) := by
      unfold Channel.ackReadCommitted Channel.ackUpdate
      rw [Channel.updateUnderClaim_miss hl]
      rfl
    rw [herr, or_iff_right hl, ← hr.classify_eq_iff hx (hc.mono ht) hl]
    exact ⟨fun he => he _ rfl, fun he e heq => by cases heq; exact he⟩

/-- a message that is being processed under a new claim is acked by its consumer in the gap; the
stale ack is still told that its claim has expired -/
theorem ack_stable_concurrent_ack :
    ∃ s h t, Channel.Reach (.counting 3) s h t ∧
      ∀ e, Channel.ackReadCommitted (.counting 3) (.bare 9) ⟨7, 1, "orders", some .channel, ""⟩ s
        [(.bare 9, .ack ⟨7, 2, "orders", some .channel, ""⟩)] = .error e →
        e = classifyClaimState (Channel.claimState s 7) 1 := by
  have hc := Channel.Reach.next (.next (.next (.next (.init (q := .counting 3) 0) (.bare 0)
    (.publish ⟨7, [], none⟩) (by decide)) (.bare 5) (.receive hour) (by decide)) (.bare 6)
    (.nack ⟨7, 1, "orders", some .channel, ""⟩ [] 0) (by decide)) (.bare 7) (.receive hour) (by decide)
  refine ⟨_, _, _, hc, (ack_stable_iff (.counting 3) _ _ _ hc
    ⟨7, 1, "orders", some .channel, ""⟩ ?_ (.bare 9) (by decide)
    [(.bare 9, .ack ⟨7, 2, "orders", some .channel, ""⟩)] ⟨Int.le_refl _, trivial⟩).mpr
    (Or.inr ⟨by decide, by decide⟩)⟩
  intro i hi he
  have hseq : (2 : Nat) ≤ i := hi
  have heq : i + 1 = 1 := he
  omega

/-- a message was acked; a second ack misses, the message is replayed by an operator, and the
`SELECT` finds it pending: the caller is told that the claim has expired -/
theorem ack_flipped_by_replay :
    ∃ s h t, Channel.Reach (.counting 3) s h t ∧
      classifyClaimState (Channel.claimState s 7) 1 = .messageAlreadyAcked ∧
      Channel.ackReadCommitted (.counting 3) (.bare 9) ⟨7, 1, "orders", some .channel, ""⟩ s
        [(.bare 9, .replayMessage 7 none)] = .error .claimExpired := by
  refine ⟨_, _, _, Channel.Reach.next (.next (.next (.init (q := .counting 3) 0) (.bare 0)
    (.publish ⟨7, [], none⟩) (by decide)) (.bare 5) (.receive hour) (by decide)) (.bare 6)
    (.ack ⟨7, 1, "orders", some .channel, ""⟩) (by decide), by decide, rfl⟩

end PgQueue
