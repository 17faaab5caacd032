import PgQueue.Topic.Refine

/-!
# The topic: every message keeps its place for every subscriber

A message that was published to a subscriber is a PAIR of the two; it is held by a subscription
row or by a dead letter.  `pairs s` lists the pairs a topic holds.  `Preserved` says that a
transaction permutes the pairs and leaves the messages alone; it is shown for every statement
that moves or rewrites rows.

There is no foreign key from the dead letters to the messages.  `Intact` says that nothing is
missing all the same (every pair names a message that is there) and that no pair is held twice;
`step_intact` and `Reach.intact` carry it through every run.  `Removed` lists the ways a pair can
go, `step_removed` shows that there is no other.
-/

namespace PgQueue.Topic
open Relational Lease List

def Sub.pair (r : Sub) : UUID × Option String := (r.messageID, some r.subscriberID)

/-- a dead letter of old times, without a subscriber, is a pair with none -/
def dlqPair (d : DLQRow) : UUID × Option String := (d.originalMessageID, d.subscriberID)

def pairs (s : State) : List (UUID × Option String) :=
  s.subs.rows.map Sub.pair ++ s.dlq.map dlqPair

structure Preserved (q : Queue) (s s' : State) : Prop where
  pairs : (pairs s').Perm (pairs s)
  msgs : s'.msgs = s.msgs
  ids : Drawn q.gen s.seq (s.dlq.map DLQRow.id) → Drawn q.gen s'.seq (s'.dlq.map DLQRow.id)

section
variable {q : Queue} {env : Env} {s s' : State} {r : Sub} {sub : String} {reason : Bytes}
  {m : MessageRow} {d : DLQRow} {op : Op} {p : Sub → Bool} {f : Sub → Sub} {vis : Duration}
  {performedBy : Option String}

theorem Preserved.refl (s : State) : Preserved q s s := ⟨Perm.refl _, rfl, id⟩

theorem Preserved.trans {s'' : State} (h : Preserved q s s') (h' : Preserved q s' s'') :
    Preserved q s s'' :=
  ⟨h'.pairs.trans h.pairs, h'.msgs.trans h.msgs, fun hi => h'.ids (h.ids hi)⟩

/-! ## statements -/

theorem pair_of_key {x : Sub} (h : x.key = r.key) : x.pair = r.pair :=
  congrArg (fun k : UUID × String => (k.1, some k.2)) h

theorem preserved_update (hf : ∀ r, (f r).key = r.key)
    (hs' : s'.tables = s.tables.updateChildren p f hf) (hd : s'.dlq = s.dlq) (hn : s.seq ≤ s'.seq) :
    Preserved q s s' := by
  refine ⟨?_, ?_, fun hi => ?_⟩
  · have hrows : s'.subs.rows.map Sub.pair = s.subs.rows.map Sub.pair := by
      show s'.tables.children.rows.map _ = _
      rw [hs']
      show (s.subs.update p f hf).rows.map _ = _
      rw [Table.rows_update, map_map]
      apply map_congr_left
      intro r hr
      show (if p r then f r else r).pair = r.pair
      split
      · exact pair_of_key (hf r)
      · rfl
    unfold Topic.pairs
    rw [hrows, hd]
  · show s'.tables.parents = _
    rw [hs']
    rfl
  · rw [hd]
    exact hi.sublist (Sublist.refl _) hn

theorem map_pair_dlqRows {seq : Nat} (cs : List Candidate) (hsub : ∀ c ∈ cs, c.sub.subscriberID = sub) :
    (dlqRows q.gen seq env.now (some sub) reason (cs.map fun c =>
      (⟨c.sub.messageID, c.msg.payload, c.sub.retryCount + 1, c.msg.metadata⟩ : DLQMessage))).map
        dlqPair = (cs.map Candidate.sub).map Sub.pair := by
  induction cs generalizing seq with
  | nil => rfl
  | cons c cs ih =>
    have hc : (c.sub.messageID, some sub) = c.sub.pair := by
      rw [Sub.pair, hsub c mem_cons_self]
    show (c.sub.messageID, some sub) :: List.map _ _ = c.sub.pair :: _
    rw [ih fun c' hc' => hsub c' (mem_cons_of_mem _ hc'), hc]

theorem preserved_bury (cs : List Candidate) (hmem : ∀ c ∈ cs, c.sub ∈ s.subs.rows)
    (hsub : ∀ c ∈ cs, c.sub.subscriberID = sub) (hnd : (cs.map Candidate.sub).Nodup)
    (hs' : s'.subs.rows.map Sub.pair = (s.subs.rows.filter fun x =>
      !(cs.map Candidate.sub).any fun y => decide (y.key = x.key)).map Sub.pair) (hm : s'.msgs = s.msgs)
    (hd : s'.dlq = s.dlq ++ dlqRows q.gen s.seq env.now (some sub) reason (cs.map fun c =>
      (⟨c.sub.messageID, c.msg.payload, c.sub.retryCount + 1, c.msg.metadata⟩ : DLQMessage)))
    (hn : s.seq + cs.length ≤ s'.seq) : Preserved q s s' := by
  refine ⟨?_, hm, fun hi => ?_⟩
  · have hp := (perm_extract s.subs.nodup (fun x hx => by
      obtain ⟨c, hc, rfl⟩ := mem_map.mp hx
      exact hmem c hc) hnd).map Sub.pair
    rw [map_append] at hp
    unfold Topic.pairs
    rw [hs', hd, map_append, map_pair_dlqRows cs hsub, ← append_assoc]
    refine perm_append_comm.trans ?_
    rw [← append_assoc]
    exact hp.symm.append_right _
  · rw [hd]
    exact hi.dlqRows (by rw [length_map]; exact hn)

theorem preserved_moveSubToDLQ (c : Candidate) (hr : c.sub ∈ s.subs.rows)
    (hsub : c.sub.subscriberID = sub) :
    Preserved q s (moveSubToDLQ q env c.sub.messageID sub reason
      ⟨c.sub.retryCount, c.msg.payload, c.msg.metadata⟩ s) := by
  refine preserved_bury [c] (fun x hx => mem_singleton.mp hx ▸ hr)
    (fun x hx => mem_singleton.mp hx ▸ hsub) (nodup_singleton _) ?_ rfl rfl
    (Nat.le_refl _)
  show (s.subs.rows.filter _).map _ = _
  congr 2
  funext x
  simp only [any_cons, any_nil, Bool.or_false, map_cons, map_nil, Sub.key, hsub,
    Prod.mk.injEq, Bool.decide_and, @eq_comm _ sub]

/-! ## consume and acknowledge -/

variable (sub) in
theorem preserved_claim {n : Nat} {c : Candidate} :
    Preserved q s (claimTopicSubscription q env sub vis c n s).2 :=
  preserved_update (Sub.key_claim _ _ _ _) rfl rfl (Nat.le_succ _)

theorem preserved_fetch {m : Option Message} (h : Fetched q env sub vis s m s') : Preserved q s s' := by
  induction h with
  | nothing => exact Preserved.refl _
  | pending | reclaimed => exact preserved_claim sub
  | buried hr hsub _ _ _ ih => exact (preserved_moveSubToDLQ _ hr hsub).trans ih
  | deferred _ _ _ _ _ ih =>
    refine Preserved.trans ?_ ih
    exact preserved_update (Sub.key_defer _ _ _) rfl rfl (Nat.le_refl _)

theorem preserved_nack {x : Receipt} {msg : Bytes} {delay : Duration} (hr : r ∈ s.subs.rows)
    (hu : r.underClaim x.messageID sub x.claimID = true) :
    Preserved q s (nackFound q env sub x msg delay ⟨r.retryCount, m.payload, m.metadata⟩ s) := by
  obtain ⟨hid, hsub⟩ := Prod.mk.inj (underClaim_eq.mp hu).1
  unfold nackFound
  rw [← hid]
  split
  · exact preserved_moveSubToDLQ ⟨r, m⟩ hr hsub
  · exact preserved_update (Sub.key_retry _ _ _) rfl rfl (Nat.le_refl _)

section
variable {rs : List Receipt} (hn : (rs.map fun r => (r.messageID, r.claimID)).Nodup)
include hn

theorem matching_sublist (c : Candidate) :
    ((matching sub rs c.sub).map fun _ => c).Sublist [c] := by
  have hn' : (rs.map fun x => (x.messageID, some x.claimID)).Nodup := by
    refine Nodup.of_map (fun p => (p.1, p.2.getD UUID.nil)) ?_
    rwa [map_map]
  refine map_filter_sublist_singleton (k := (c.sub.messageID, c.sub.claimID)) hn'
    (fun x _ hu => ?_) c
  obtain ⟨hid, hc, -⟩ := underClaim_eq.mp hu
  rw [hc]
  exact congrArg (·, some x.claimID) (congrArg Prod.fst hid).symm

theorem flatMap_matching_sublist (cs : List Candidate) :
    (cs.flatMap fun c => (matching sub rs c.sub).map fun _ => c).Sublist cs := by
  induction cs with
  | nil => exact Sublist.slnil
  | cons c cs ih =>
    rw [flatMap_cons]
    exact (matching_sublist hn c).append ih

theorem nodup_fetchBatchSubStates : ((fetchBatchSubStates rs sub s).map Candidate.sub).Nodup := by
  refine ((flatMap_matching_sublist hn _).map Candidate.sub).nodup ?_
  refine (map_sub_candidates s _).nodup ?_
  exact Nodup.of_map Sub.key (Table.nodup_select s.subs _ _)

omit hn in
theorem any_key_batchStates (hr : r ∈ s.subs.rows) (p : Sub → Bool) :
    ((((fetchBatchSubStates rs sub s).filter fun c => p c.sub).map Candidate.sub).any
      fun y => decide (y.key = r.key)) = (hit sub rs r && p r) := by
  rw [Bool.eq_iff_iff, any_eq_true, Bool.and_eq_true]
  constructor
  · rintro ⟨y, hy, hk⟩
    obtain ⟨c, hc, rfl⟩ := mem_map.mp hy
    obtain ⟨hc, hp⟩ := mem_filter.mp hc
    obtain ⟨hmem, hh, -⟩ := mem_fetchBatchSubStates.mp hc
    have he := Table.eq_of_key hmem hr (of_decide_eq_true hk)
    exact ⟨he ▸ hh, he ▸ hp⟩
  · rintro ⟨hh, hp⟩
    obtain ⟨m, -, hc⟩ := exists_state_of_hit hr hh
    exact ⟨r, mem_map.mpr ⟨⟨r, m⟩, mem_filter.mpr ⟨hc, hp⟩, rfl⟩, decide_eq_true rfl⟩

theorem preserved_nackAll {msg : Bytes} {delay : Duration} :
    Preserved q s (processNackTopicBatch q env sub (fetchBatchSubStates rs sub s) msg delay s) := by
  refine preserved_bury ((fetchBatchSubStates rs sub s).filter
      fun c => decide (c.sub.retryCount + 1 > q.resolveMaxRetries))
    (fun c hc => (mem_fetchBatchSubStates.mp (mem_filter.mp hc).1).1)
    (fun c hc => subscriberID_of_hit (mem_fetchBatchSubStates.mp (mem_filter.mp hc).1).2.1)
    ((filter_sublist.map _).nodup (nodup_fetchBatchSubStates hn)) ?_ rfl rfl ?_
  · rw [rows_processNackTopicBatch, ← filterMap_eq_filter, map_filterMap,
      map_filterMap]
    apply filterMap_congr
    intro row hr
    rw [Option.guard, any_key_batchStates hr fun x => decide (x.retryCount + 1 > q.resolveMaxRetries)]
    unfold nackSub
    by_cases hh : hit sub rs row = true
    · by_cases hc : row.retryCount + 1 > q.resolveMaxRetries
      · simp [hh, hc]
      · simp [hh, hc, Sub.pair, Sub.retry]
    · simp [hh]
  · show _ ≤ s.seq + (List.map _ _).length
    rw [length_map]

end

/-! ## garbage collection and replay -/

theorem preserved_promote (batch : List Candidate) (hnd : (batch.map fun c => c.sub.key).Nodup)
    (hb : ∀ c ∈ batch, c.sub ∈ s.subs.rows) :
    Preserved q s (batch.foldl (fun s e => moveSubToDLQ q env e.sub.messageID e.sub.subscriberID
      errReasonVisibilityTimeout ⟨e.sub.retryCount, e.msg.payload, e.msg.metadata⟩ s) s) := by
  induction batch generalizing s with
  | nil => exact Preserved.refl s
  | cons c batch ih =>
    rw [map_cons, nodup_cons] at hnd
    refine (preserved_moveSubToDLQ c (hb c mem_cons_self) rfl).trans (ih hnd.2 ?_)
    intro c' hc'
    refine mem_moveSubToDLQ (hb c' (mem_cons_of_mem _ hc')) fun he => hnd.1 ?_
    exact he ▸ mem_map.mpr ⟨c', hc', rfl⟩

theorem preserved_promotePage : Preserved q s (promoteExhaustedTopicPage q env s).2 :=
  preserved_promote _ nodup_scanExhausted fun _ hc => (mem_scanExhausted hc).1

theorem Preserved.writeReplayLog {op : ReplayOperation} {n : Nat} (h : Preserved q s s') :
    Preserved q s (writeReplayLog q env op n performedBy s') :=
  h.trans ⟨Perm.refl _, rfl, fun hi => hi.sublist (Sublist.refl _) (Nat.le_succ _)⟩

/-! ## what every transaction keeps -/

/-- no pair is held twice, every pair has its message and its subscriber, and the ids of the dead
letters are distinct values of the generator -/
structure Intact (q : Queue) (s : State) : Prop where
  nodup : (pairs s).Nodup
  resolves : ∀ p ∈ pairs s, (s.msgs.find? p.1).isSome
  named : ∀ p ∈ pairs s, p.2.isSome
  ids : Drawn q.gen s.seq (s.dlq.map DLQRow.id)

theorem Preserved.intact (h : Preserved q s s') (hi : Intact q s) : Intact q s' :=
  ⟨h.pairs.nodup_iff.mpr hi.nodup,
   fun p hp => h.msgs ▸ hi.resolves p (h.pairs.mem_iff.mp hp),
   fun p hp => hi.named p (h.pairs.mem_iff.mp hp), h.ids hi.ids⟩

theorem mem_pairs_sub (hr : r ∈ s.subs.rows) : r.pair ∈ pairs s :=
  mem_append_left _ (mem_map_of_mem hr)

theorem mem_pairs_dlq (hd : d ∈ s.dlq) : dlqPair d ∈ pairs s :=
  mem_append_right _ (mem_map_of_mem hd)

/-- the foreign key of the subscription rows leaves only the dead letters to look at -/
theorem resolves_of_dlq (h : ∀ d ∈ s.dlq, (s.msgs.find? d.originalMessageID).isSome) :
    ∀ p ∈ pairs s, (s.msgs.find? p.1).isSome := by
  intro p hp
  rcases mem_append.mp hp with hp | hp
  · obtain ⟨r, hr, rfl⟩ := mem_map.mp hp
    exact s.tables.linked r hr
  · obtain ⟨d, hd, rfl⟩ := mem_map.mp hp
    exact h d hd

theorem Intact.of_sublist (hi : Intact q s) (hsubs : s'.subs.rows.Sublist s.subs.rows)
    (hdlq : s'.dlq.Sublist s.dlq)
    (hm : ∀ d ∈ s'.dlq, (s'.msgs.find? d.originalMessageID).isSome) (hn : s.seq ≤ s'.seq) :
    Intact q s' := by
  have hsub : (pairs s').Sublist (pairs s) := (hsubs.map _).append (hdlq.map _)
  exact ⟨hsub.nodup hi.nodup, resolves_of_dlq hm, fun p hp => hi.named p (hsub.subset hp),
    hi.ids.sublist (hdlq.map _) hn⟩

/-! ## replay of dead letters -/

theorem Intact.disjoint (hi : Intact q s) (hr : r ∈ s.subs.rows) (hd : d ∈ s.dlq) :
    r.pair ≠ dlqPair d :=
  (nodup_append.mp hi.nodup).2.2 _ (mem_map_of_mem hr) _ (mem_map_of_mem hd)

theorem dlqRecords_of_isSome {active : List String} (h : d.subscriberID.isSome) :
    dlqRecords active d = [(d.originalMessageID, d.subscriberID.getD "")] := by
  obtain ⟨x, hx⟩ := Option.isSome_iff_exists.mp h
  unfold dlqRecords
  rw [hx]
  rfl

theorem key_subRows (gen : Generator) (seq : Nat) (now : Time) (records : List (UUID × String)) :
    (subRows gen seq now records).map Sub.key = records := by
  induction records generalizing seq with
  | nil => rfl
  | cons k records ih =>
    show k :: _ = _
    rw [ih]

section
variable {ds : List DLQRow} (hi : Intact q s) (hds : ∀ d ∈ ds, d ∈ s.dlq) (hnd : ds.Nodup)
include hi hds

theorem filterExistingMessages_eq : filterExistingMessages ds s = ds :=
  filter_eq_self.mpr fun d hd => hi.resolves _ (mem_pairs_dlq (hds d hd))

theorem isSome_subscriberID {d : DLQRow} (hd : d ∈ ds) : d.subscriberID.isSome :=
  hi.named _ (mem_pairs_dlq (hds d hd))

theorem find?_record {d : DLQRow} (hd : d ∈ ds) :
    s.subs.find? (d.originalMessageID, d.subscriberID.getD "") = none := by
  rw [Table.find?_eq_none]
  intro r hr hk
  refine hi.disjoint hr (hds d hd) ?_
  obtain ⟨x, hx⟩ := Option.isSome_iff_exists.mp (isSome_subscriberID hi hds hd)
  obtain ⟨h1, h2⟩ := Prod.mk.inj hk
  rw [hx] at h2
  unfold Sub.pair dlqPair
  rw [h1, h2, hx]
  rfl

include hnd

theorem nodup_records :
    (ds.map fun d => (d.originalMessageID, d.subscriberID.getD "")).Nodup := by
  have hdlq : (s.dlq.map dlqPair).Nodup := (nodup_append.mp hi.nodup).2.1
  refine hnd.map_on fun d hd d' hd' he => ?_
  obtain ⟨h1, h2⟩ := Prod.mk.inj he
  refine inj_on_of_nodup_map hdlq (hds d hd) (hds d' hd') (Prod.ext h1 ?_)
  obtain ⟨x, hx⟩ := Option.isSome_iff_exists.mp (isSome_subscriberID hi hds hd)
  obtain ⟨y, hy⟩ := Option.isSome_iff_exists.mp (isSome_subscriberID hi hds hd')
  rw [hx, hy] at h2
  show d.subscriberID = d'.subscriberID
  rw [hx, hy]
  exact congrArg some h2

theorem resolvePubSubDLQRecords_eq : resolvePubSubDLQRecords env ds s =
    .ok (ds.map (fun d => (d.originalMessageID, d.subscriberID.getD "")), ds) := by
  have hall : (ds.all fun d => d.subscriberID.isSome) = true :=
    all_eq_true.mpr fun d hd => isSome_subscriberID hi hds hd
  have hflat : ds.flatMap (dlqRecords []) =
      ds.map fun d => (d.originalMessageID, d.subscriberID.getD "") := by
    rw [← flatMap_singleton' (ds.map _), flatMap_map]
    refine flatMap_congr fun d hd => ?_
    exact dlqRecords_of_isSome (isSome_subscriberID hi hds hd)
  have hkeep : (ds.filter fun d => !(dlqRecords [] d).isEmpty) = ds := by
    refine filter_eq_self.mpr fun d hd => ?_
    rw [dlqRecords_of_isSome (isSome_subscriberID hi hds hd)]
    rfl
  unfold resolvePubSubDLQRecords
  rw [if_pos hall]
  dsimp only
  rw [hflat, hkeep, firstBy_of_nodup (by rw [map_id]; exact nodup_records hi hds hnd)]

theorem preserved_reinsertDLQ {n : Nat} (h : reinsertDLQPubSub q env ds s = .ok (n, s')) :
    Preserved q s s' := by
  obtain ⟨records, replayed, s₁, hres, hins, -, rfl⟩ := reinsertDLQPubSub_spec h
  rw [filterExistingMessages_eq hi hds, resolvePubSubDLQRecords_eq hi hds hnd] at hres
  obtain ⟨rfl, rfl⟩ := Prod.mk.inj (Except.ok.inj hres)
  obtain ⟨hsubs, hmsgs, -, -, -, hseq⟩ := insertSubscriptionRecords_spec hins
  refine ⟨?_, hmsgs, fun hids => hids.sublist (filter_sublist.map _) (by
    show s.seq ≤ s₁.seq
    omega)⟩
  have hkeys : ((subRows q.gen s.seq env.now (ds.map fun d =>
      (d.originalMessageID, d.subscriberID.getD ""))).map Sub.key).Nodup := by
    rw [key_subRows]
    exact nodup_records hi hds hnd
  have hnew : ∀ r ∈ subRows q.gen s.seq env.now (ds.map fun d =>
      (d.originalMessageID, d.subscriberID.getD "")), (s.subs.find? r.key).isNone = true := by
    intro r hr
    have hk : r.key ∈ (subRows q.gen s.seq env.now (ds.map fun d =>
      (d.originalMessageID, d.subscriberID.getD ""))).map Sub.key := mem_map_of_mem hr
    rw [key_subRows] at hk
    obtain ⟨d, hd, he⟩ := mem_map.mp hk
    rw [← he, find?_record hi hds hd]
    rfl
  have hpairs : s₁.subs.rows.map Sub.pair = s.subs.rows.map Sub.pair ++ ds.map dlqPair := by
    rw [hsubs, Table.rows_insertAll hkeys, filter_eq_self.mpr hnew, map_append]
    congr 1
    show List.map ((fun k : UUID × String => (k.1, some k.2)) ∘ Sub.key) _ = _
    rw [← map_map, key_subRows, map_map]
    refine map_congr_left fun d hd => ?_
    obtain ⟨x, hx⟩ := Option.isSome_iff_exists.mp (isSome_subscriberID hi hds hd)
    show (d.originalMessageID, some (d.subscriberID.getD "")) = (d.originalMessageID, d.subscriberID)
    rw [hx]
    rfl
  unfold Topic.pairs
  rw [hpairs, append_assoc]
  refine Perm.append_left _ ?_
  have hp := ((perm_extract hi.ids.nodup hds hnd).map dlqPair).symm
  rwa [map_append] at hp

end

theorem preserved_replayDLQ (hi : Intact q s) {afterID : UUID} {limit : Nat} {dryRun : Bool}
    {page : ReplayPage (UUID × String)}
    (h : replayDLQPage q env afterID limit performedBy dryRun s = .ok (page, s')) :
    Preserved q s s' := by
  unfold replayDLQPage at h
  dsimp only at h
  split at h
  · cases h
  · rename_i n s₁ hre
    have hp : Preserved q s s₁ := preserved_reinsertDLQ hi
      (fun d hd => mem_fetchDLQMessages hd) (nodup_fetchDLQMessages hi.ids.nodup) hre
    cases h
    split
    · exact Preserved.refl s
    · split
      · exact hp
      · exact hp.writeReplayLog

/-! ## transactions that keep the pairs -/

def Op.effect : Op → Effect
  | .publish _ | .publishBatch _ => .adds
  | .purgeCompleted _ | .purgeOldPending _ | .purgeDLQ _ => .removes
  | .purgeInactive | .reclaimOrphans => .removes
  | .purgeQueue | .deleteTopic => .removes
  | _ => .keeps

theorem preserved_underClaim (hf : ∀ r, (f r).key = r.key) {x : Receipt} :
    Preserved q s (updateUnderClaim f hf sub x s).2 :=
  preserved_update hf rfl rfl (Nat.le_refl _)

/-- **every transaction but a publish, a purge and a deletion keeps the pairs** -/
theorem step_preserved (op : Op) (hop : op.effect = .keeps) (hi : Intact q s) :
    Preserved q s (step q env s op).1 := by
  let P := fun x : State × History (UUID × String) => Preserved q s x.1
  have h0 : P (s, []) := Preserved.refl s
  cases op with
  | subscribe subscriberID =>
    refine commit'_cases P h0 fun s' h => ?_
    obtain ⟨-, rfl⟩ := registerSubscriber_ok h
    exact ⟨Perm.refl _, rfl, id⟩
  | unsubscribe subscriberID =>
    refine commit'_cases P h0 fun s' h => ?_
    obtain rfl := unregisterSubscriber_ok h
    exact ⟨Perm.refl _, rfl, id⟩
  | receive subscriberID vis =>
    exact commit_cases P h0 fun m s' h => preserved_fetch (fetched_of_consume h)
  | ack r =>
    refine commit'_cases P h0 fun s' h => ?_
    obtain ⟨-, rfl⟩ := ackTopic_ok h
    exact preserved_underClaim (Sub.key_ack _)
  | nack r reason delay =>
    refine commit'_cases P h0 fun s' h => ?_
    have hv := (nackTopicImpl_ok h).1
    by_cases hl : liveClaim s (subKey r) = some r.claimID
    · obtain ⟨row, hr, hu⟩ := liveClaim_eq_some.mp hl
      obtain ⟨m, hm⟩ := s.tables.exists_parentOf hr
      rw [nackTopicImpl_hit hv hr hu hm] at h
      cases h
      exact preserved_nack hr hu
    · rw [nackTopicImpl_miss hv hl] at h
      cases h
  | extend r d =>
    refine commit'_cases P h0 fun s' h => ?_
    obtain ⟨-, -, rfl⟩ := extendTopicVisibility_ok h
    exact preserved_underClaim (Sub.key_extend _ _)
  | ackBatch rs k =>
    refine commit_cases P h0 fun res s' h => ?_
    obtain ⟨-, -, rfl⟩ := ackTopicBatch_ok h
    exact preserved_update (Sub.key_ack _) rfl rfl (Nat.le_refl _)
  | nackBatch rs k reason delay =>
    refine commit_cases P h0 fun res s' h => ?_
    obtain ⟨-, -, rfl⟩ := nackTopicBatch_ok h
    exact preserved_nackAll (nodup_receiptGroup rs k)
  | promotePage => exact preserved_promotePage
  | resetPage => exact preserved_update Sub.key_reset rfl rfl (Nat.le_refl _)
  | replayFrom since afterID limit performedBy =>
    have h : Preserved q s (applyReplayFrom (fetchReplayCandidateIDs since afterID limit s) s).2 :=
      preserved_update Sub.key_replay rfl rfl (Nat.le_refl _)
    show Preserved q s (replayFromPage q env since afterID limit performedBy s).2
    unfold replayFromPage
    dsimp only
    split
    · exact h
    · exact h.writeReplayLog
  | replayDLQ afterID limit performedBy dryRun =>
    exact commit_cases P h0 fun page s' h => preserved_replayDLQ hi h
  | _ => cases hop

/-! ## publish -/

/-- what a publish inserts is new to the topic -/
structure Added (s s' : State) : Prop where
  subs : s.subs.rows.Sublist s'.subs.rows
  new : ∀ r ∈ s'.subs.rows, r ∈ s.subs.rows ∨ s.msgs.find? r.messageID = none
  msgs : s.msgs.rows.Sublist s'.msgs.rows
  dlq : s'.dlq = s.dlq
  seq : s.seq ≤ s'.seq

theorem Added.intact (h : Added s s') (hi : Intact q s) : Intact q s' := by
  obtain ⟨-, hdlq, hdisj⟩ := nodup_append.mp hi.nodup
  refine ⟨nodup_append.mpr ⟨?_, h.dlq ▸ hdlq, ?_⟩, resolves_of_dlq fun d hd => ?_, ?_, ?_⟩
  · refine (s'.subs.nodup.of_map (f := Sub.key)).map_on fun a ha b hb he => ?_
    obtain ⟨h1, h2⟩ := Prod.mk.inj he
    exact Table.eq_of_key ha hb (Prod.ext h1 (Option.some.inj h2))
  · intro a ha b hb hab
    obtain ⟨r, hr, rfl⟩ := mem_map.mp ha
    rcases h.new r hr with hr | hr
    · exact hdisj _ (mem_map_of_mem hr) b (h.dlq ▸ hb) hab
    · have hres := hi.resolves b (mem_append_right _ (h.dlq ▸ hb))
      rw [← hab] at hres
      exact absurd hres (by rw [show r.pair.1 = r.messageID from rfl, hr]; exact nofun)
  · obtain ⟨m, hm⟩ := Option.isSome_iff_exists.mp (hi.resolves _ (mem_pairs_dlq (h.dlq ▸ hd)))
    obtain ⟨hm, hid⟩ := Table.find?_eq_some.mp hm
    rw [show d.originalMessageID = m.id from hid.symm, Table.find?_of_mem (h.msgs.subset hm)]
    rfl
  · intro p hp
    rcases mem_append.mp hp with hp | hp
    · obtain ⟨r, -, rfl⟩ := mem_map.mp hp
      rfl
    · exact hi.named p (mem_append_right _ (h.dlq ▸ hp))
  · rw [h.dlq]
    exact hi.ids.sublist (Sublist.refl _) h.seq

theorem added_fanOut {ids : List UUID} {ms : List MessageRow}
    (hids : ∀ id ∈ ids, s.msgs.find? id = none)
    (h : batchCreateSubscriptionRecords q env ids { s with tables := s.tables.insertParents ms } =
      .ok s') : Added s s' := by
  obtain ⟨active, -, hins⟩ := fanOut_spec h
  obtain ⟨hsubs, hmsgs, -, hd, -, hseq⟩ := insertSubscriptionRecords_spec hins
  refine ⟨?_, fun r hr => ?_, ?_, hd, by rw [hseq]; exact Nat.le_add_right _ _⟩
  · rw [hsubs]
    exact Table.sublist_insertAll _ _
  · rw [hsubs] at hr
    rcases Table.mem_insertAll hr with hr | hr
    · exact Or.inl hr
    · obtain ⟨i, -, -, k, hk, rfl⟩ := mem_subRows hr
      obtain ⟨id, hid, hmem⟩ := mem_flatMap.mp hk
      obtain ⟨x, -, rfl⟩ := mem_map.mp hmem
      exact Or.inr (hids id hid)
  · rw [hmsgs]
    exact Table.sublist_insertAll _ _

theorem Added.refl (s : State) : Added s s :=
  ⟨Sublist.refl _, fun _ hr => Or.inl hr, Sublist.refl _, rfl, Nat.le_refl _⟩

theorem step_added (op : Op) (hop : op.effect = .adds) : Added s (step q env s op).1 := by
  cases op with
  | publish m =>
    refine commitCreated_cases (fun x => Added s x.1) (Added.refl s) fun s' h => ?_
    obtain ⟨hnone, h⟩ := publishToPubSub_spec h
    exact added_fanOut (fun id hid => mem_singleton.mp hid ▸ hnone) h
  | publishBatch ms =>
    refine commitCreated_cases (fun x => Added s x.1) (Added.refl s) fun s' h => ?_
    rcases publishBatchToPubSub_spec h with ⟨-, rfl⟩ | ⟨hlen, h⟩
    · exact Added.refl _
    · refine added_fanOut (fun id hid => ?_) h
      obtain ⟨m, hm, rfl⟩ := mem_map.mp hid
      have hlen' : s.msgs.rows.length + (ms.map (newMessage env)).length ≤
          (s.msgs.insertAll (ms.map (newMessage env))).rows.length := by
        rw [length_map]
        exact hlen
      exact (Table.insertAll_fresh hlen').2 (newMessage env m) (mem_map_of_mem hm)
  | _ => cases hop

/-! ## transactions that delete -/

/-- why a pair may go: its message is fully acked and past `CompletedMessageTTL`, its row is
pending past `MaxPendingAge`, its dead letter is past `DLQRetention`, its subscriber is inactive,
or the topic is purged or deleted -/
def Removed (env : Env) (s : State) (p : UUID × Option String) : Op → Prop
  | .purgeCompleted ttl => 0 < ttl ∧ ∃ m ∈ s.msgs.rows, m.id = p.1 ∧ m.createdAt < env.now - ttl ∧
      ∀ r ∈ s.subs.rows, r.messageID = m.id → r.status = .acked
  | .purgeOldPending maxAge => 0 < maxAge ∧ ∃ r ∈ s.subs.rows, r.pair = p ∧ r.status = .pending ∧
      ∃ m, s.tables.parentOf r = some m ∧ m.createdAt < env.now - maxAge
  | .purgeDLQ retention => 0 < retention ∧ ∃ d ∈ s.dlq, dlqPair d = p ∧
      d.movedAt < env.now - retention
  | .purgeInactive => ∃ r ∈ s.subs.rows, r.pair = p ∧
      ∃ x ∈ s.subscribers.rows, x.subscriberID = r.subscriberID ∧ x.active = false
  | .purgeQueue | .deleteTopic => True
  | _ => False

/-- a message that is not fully acked, or that a dead letter refers to -/
def Needed (s : State) (m : MessageRow) : Prop :=
  (∃ r ∈ s.subs.rows, r.messageID = m.id ∧ r.status ≠ .acked) ∨
    ∃ d ∈ s.dlq, d.originalMessageID = m.id

/-- what a deleting transaction may do -/
structure Deleted (env : Env) (s s' : State) (op : Op) : Prop where
  subs : s'.subs.rows.Sublist s.subs.rows
  dlq : s'.dlq.Sublist s.dlq
  seq : s'.seq = s.seq
  why : ∀ p ∈ pairs s, p ∈ pairs s' ∨ Removed env s p op
  needed : op ≠ .purgeQueue → op ≠ .deleteTopic → ∀ m ∈ s.msgs.rows, Needed s m → m ∈ s'.msgs.rows

theorem Deleted.refl (op : Op) (s : State) : Deleted env s s op :=
  ⟨Sublist.refl _, Sublist.refl _, rfl, fun _ hp => Or.inl hp, fun _ _ _ hm _ => hm⟩

theorem deleted_subs (hw : Wf q s) (h : ∀ r ∈ s.subs.rows, p r = true → Removed env s r.pair op) :
    Deleted env s (purgeSubsPage p s).2 op := by
  refine ⟨filter_sublist, Sublist.refl _, rfl, fun x hx => ?_, fun _ _ _ hm _ => hm⟩
  rcases mem_append.mp hx with hx | hx
  · obtain ⟨r, hr, rfl⟩ := mem_map.mp hx
    cases hl : listed (pageOf p s) r with
    | true => exact Or.inr (h r hr (listed_pageOf hw hr hl))
    | false =>
      refine Or.inl (mem_pairs_sub (mem_filter.mpr ⟨hr, ?_⟩))
      rw [hl]
      rfl
  · exact Or.inl (mem_append_right _ hx)

theorem deleted_msgs {p : MessageRow → Bool} (h : ∀ m ∈ s.msgs.rows, p m = true → ¬ Needed s m)
    (hw : ∀ r ∈ s.subs.rows, ∀ m ∈ s.msgs.rows, r.messageID = m.id → p m = true →
      Removed env s r.pair op) : Deleted env s (purgeMessagesPage p s).2 op := by
  refine ⟨filter_sublist, Sublist.refl _, rfl, fun x hx => ?_, fun _ _ m hm hneed => ?_⟩
  · rcases mem_append.mp hx with hx | hx
    · obtain ⟨r, hr, rfl⟩ := mem_map.mp hx
      let page := (s.msgs.select p (fun a b => a.id ≤ b.id)).take retentionPurgePageSize
      cases hl : s.tables.parentIs (fun m => page.any fun x => decide (x.id = m.id)) r with
      | true =>
        obtain ⟨m, hm, hmem, hp⟩ := of_parentIs_page hl
        exact Or.inr (hw r hr m hmem (Table.key_of_find? hm).symm hp)
      | false =>
        refine Or.inl (mem_pairs_sub (mem_filter.mpr ⟨hr, ?_⟩))
        rw [hl]
        rfl
    · exact Or.inl (mem_append_right _ hx)
  · refine mem_filter.mpr ⟨hm, ?_⟩
    rw [Bool.not_eq_true', any_eq_false]
    intro x hx he
    obtain ⟨hx, hp⟩ := Table.mem_select.mp (mem_of_mem_take hx)
    rw [Table.eq_of_key hx hm (of_decide_eq_true he)] at hp
    exact h m hm hp hneed

theorem not_needed (hsub : ∀ r ∈ s.subs.rows, r.messageID = m.id → r.status = .acked)
    (hd : s.deadLettered m = false) : ¬ Needed s m := by
  rintro (⟨r, hr, hid, hst⟩ | ⟨d, hmem, hid⟩)
  · exact hst (hsub r hr hid)
  · exact any_eq_false.mp hd d hmem (decide_eq_true hid)

theorem deleted_purgeDLQ {retention : Duration} (hn : (s.dlq.map DLQRow.id).Nodup) :
    Deleted env s (purgeDLQPage env retention s).2 (.purgeDLQ retention) := by
  refine ⟨Sublist.refl _, purgeDLQRows_sublist _ _ _, rfl, fun x hx => ?_, fun _ _ _ hm _ => hm⟩
  rcases mem_append.mp hx with hx | hx
  · exact Or.inl (mem_append_left _ hx)
  · obtain ⟨d, hd, rfl⟩ := mem_map.mp hx
    rcases mem_purgeDLQRows hn hd with hkeep | ⟨hpos, hold⟩
    · exact Or.inl (mem_pairs_dlq (s := (purgeDLQPage env retention s).2) hkeep)
    · exact Or.inr ⟨hpos, d, hd, rfl, hold⟩

theorem step_deleted (op : Op) (hop : op.effect = .removes) (hi : Intact q s) (hw : Wf q s) :
    Deleted env s (step q env s op).1 op := by
  cases op with
  | purgeCompleted ttl =>
    show Deleted env s (purgeCompletedPage env ttl s).2 _
    unfold purgeCompletedPage
    split
    · rename_i hpos
      have hspec : ∀ m : MessageRow, (decide (m.createdAt < env.now - ttl)
          && !(s.subs.rows.any fun r => decide (r.messageID = m.id) && decide (r.status ≠ .acked))
          && !s.deadLettered m) = true →
          m.createdAt < env.now - ttl ∧ s.deadLettered m = false ∧
            ∀ r ∈ s.subs.rows, r.messageID = m.id → r.status = .acked := by
        intro m hp
        simp only [Bool.and_eq_true, Bool.not_eq_true', any_eq_false, decide_eq_true_eq] at hp
        exact ⟨hp.1.1, hp.2, fun r hr hid => not_not.mp fun hst => hp.1.2 r hr ⟨hid, hst⟩⟩
      refine deleted_msgs (fun m hm hp => ?_) fun r hr m hm hid hp => ?_
      · exact not_needed (hspec m hp).2.2 (hspec m hp).2.1
      · exact ⟨hpos, m, hm, hid.symm, (hspec m hp).1, (hspec m hp).2.2⟩
    · exact Deleted.refl _ s
  | purgeOldPending maxAge =>
    show Deleted env s (purgeOldPendingPage env maxAge s).2 _
    unfold purgeOldPendingPage
    split
    · rename_i hpos
      refine deleted_subs hw fun r hr hp => ?_
      rw [Bool.and_eq_true, decide_eq_true_eq] at hp
      obtain ⟨m, hm, hold⟩ := (Option.any_eq_true _ _).mp hp.2
      exact ⟨hpos, r, hr, rfl, hp.1, m, hm, of_decide_eq_true hold⟩
    · exact Deleted.refl _ s
  | purgeDLQ retention => exact deleted_purgeDLQ hi.ids.nodup
  | purgeInactive =>
    refine deleted_subs hw fun r hr hp => ?_
    rw [Bool.and_eq_true] at hp
    obtain ⟨x, hx, hin⟩ := any_eq_true.mp hp.1
    rw [Bool.and_eq_true, decide_eq_true_eq, Bool.not_eq_true'] at hin
    exact ⟨r, hr, rfl, x, hx, hin⟩
  | reclaimOrphans =>
    have hspec : ∀ m : MessageRow, (!(s.subs.rows.any fun r => decide (r.messageID = m.id))
        && !s.deadLettered m) = true →
        s.deadLettered m = false ∧ ∀ r ∈ s.subs.rows, r.messageID ≠ m.id := by
      intro m hp
      simp only [Bool.and_eq_true, Bool.not_eq_true', any_eq_false, decide_eq_true_eq] at hp
      exact ⟨hp.2, hp.1⟩
    refine deleted_msgs (fun m hm hp => ?_) fun r hr m hm hid hp => ?_
    · exact not_needed (fun r hr hid => absurd hid ((hspec m hp).2 r hr)) (hspec m hp).1
    · exact absurd hid ((hspec m hp).2 r hr)
  | purgeQueue =>
    exact ⟨nil_sublist _, nil_sublist _, rfl, fun _ _ => Or.inr trivial,
      fun h => absurd rfl h⟩
  | deleteTopic =>
    exact ⟨nil_sublist _, nil_sublist _, rfl, fun _ _ => Or.inr trivial,
      fun _ h => absurd rfl h⟩
  | _ => cases hop

theorem Deleted.resolves (h : Deleted env s s' op) (hi : Intact q s) (hne : op ≠ .purgeQueue)
    (hne' : op ≠ .deleteTopic) : ∀ d ∈ s'.dlq, (s'.msgs.find? d.originalMessageID).isSome := by
  intro d hd
  have hmem := h.dlq.subset hd
  obtain ⟨m, hm⟩ := Option.isSome_iff_exists.mp (hi.resolves _ (mem_pairs_dlq hmem))
  obtain ⟨hm, hid⟩ := Table.find?_eq_some.mp hm
  have hkeep := h.needed hne hne' m hm (Or.inr ⟨d, hmem, hid.symm⟩)
  rw [show d.originalMessageID = m.id from hid.symm, Table.find?_of_mem hkeep]
  rfl

/-! ## runs -/

theorem step_intact (op : Op) (hi : Intact q s) (hw : Wf q s) : Intact q (step q env s op).1 := by
  cases hop : op.effect with
  | keeps => exact (step_preserved op hop hi).intact hi
  | adds => exact (step_added op hop).intact hi
  | removes =>
    have hd : Deleted env s (step q env s op).1 op := step_deleted op hop hi hw
    refine hi.of_sublist hd.subs hd.dlq ?_ (Nat.le_of_eq hd.seq.symm)
    by_cases hp : op = .purgeQueue
    · subst hp
      exact fun d hd => absurd hd not_mem_nil
    · by_cases hq : op = .deleteTopic
      · subst hq
        exact fun d hd => absurd hd not_mem_nil
      · exact hd.resolves hi hp hq

theorem Reach.intact {h : History (UUID × String)} {t : Time} (hr : Reach q s h t) :
    Intact q s := by
  induction hr with
  | init t => exact ⟨nodup_nil, nofun, nofun, nodup_nil, nofun⟩
  | next hr env op ht ih => exact step_intact op ih hr.wf

theorem step_relates (op : Op) (hi : Intact q s) (hw : Wf q s) :
    op.effect.Relates (pairs s) (pairs (step q env s op).1) := by
  cases hop : op.effect with
  | keeps => exact (step_preserved op hop hi).pairs
  | adds =>
    have h : Added s (step q env s op).1 := step_added op hop
    refine Sublist.subperm ?_
    unfold pairs
    rw [h.dlq]
    exact (h.subs.map _).append_right _
  | removes =>
    have h : Deleted env s (step q env s op).1 op := step_deleted op hop hi hw
    exact ((h.subs.map _).append (h.dlq.map _)).subperm

/-- **a pair goes only for one of the reasons in `Removed`** -/
theorem step_removed (op : Op) (hi : Intact q s) (hw : Wf q s) {p : UUID × Option String}
    (hp : p ∈ pairs s) : p ∈ pairs (step q env s op).1 ∨ Removed env s p op := by
  have hrel := @step_relates q env s op hi hw
  cases hop : op.effect with
  | keeps =>
    rw [hop] at hrel
    exact Or.inl (Perm.mem_iff hrel |>.mpr hp)
  | adds =>
    rw [hop] at hrel
    exact Or.inl (Subperm.subset hrel hp)
  | removes => exact (step_deleted op hop hi hw).why p hp

/-- **a message that is not fully acked, or dead-lettered, stays** -/
theorem step_needed (op : Op) (hne : op ≠ .purgeQueue) (hne' : op ≠ .deleteTopic) (hi : Intact q s)
    (hw : Wf q s) (hm : m ∈ s.msgs.rows) (hneed : Needed s m) : m ∈ (step q env s op).1.msgs.rows := by
  cases hop : op.effect with
  | keeps => exact (step_preserved op hop hi).msgs ▸ hm
  | adds => exact (step_added op hop).msgs.subset hm
  | removes => exact (step_deleted op hop hi hw).needed hne hne' m hm hneed

end
end PgQueue.Topic
