import PgQueue.Topic.Conserve
import PgQueue.Relational.Fenced

/-!
# The topic: a group of receipts, or its receipts one by one

As for a channel, with the subscription table under `ackTopic` and `nackTopicImpl`: a group is of
one subscriber, and a dead letter takes the payload of the message the subscription is about.

* `ackTopic_serves`, `nackTopicImpl_serves`       one receipt follows the rule;
* `ackTopicBatch_settled`, `nackTopicBatch_settled`   a group follows it.
-/

namespace PgQueue.Topic
open Relational
open List hiding after

/-- what no acknowledgement writes -/
structure Frame where
  msgs : Table MessageRow UUID MessageRow.id
  subscribers : Table Subscriber String Subscriber.subscriberID
  replayLog : List ReplayLogRow

def store : Store State Frame Sub DLQRow where
  rows s := s.subs.rows
  letters s := s.dlq.map DLQRow.withoutID
  frame s := ⟨s.msgs, s.subscribers, s.replayLog⟩

def refusal (subscriberID : String) (rows : List Sub) (r : Receipt) : QueueError :=
  classifyClaimState ((rows.find? fun row => decide (row.key = (r.messageID, subscriberID))).map
    fun row => (row.status, row.claimID)) r.claimID

theorem not_underClaim_of_status {row : Sub} (h : row.status ≠ .processing) (sub : String)
    (r : Receipt) : row.underClaim r.messageID sub r.claimID = false :=
  Bool.eq_false_iff.mpr fun hu => h (underClaim_eq.mp hu).2.2

theorem not_underClaim_ack {now : Time} {sub : String} {row row' : Sub}
    (h : some (row.ack now) = some row') (r : Receipt) :
    row'.underClaim r.messageID sub r.claimID = false := by
  cases h
  exact not_underClaim_of_status MessageStatus.processing_ne_acked.symm sub r

def ackRule (env : Env) (subscriberID : String) : Rule Frame Sub DLQRow Receipt QueueError where
  hit r row := row.underClaim r.messageID subscriberID r.claimID
  after row := some (row.ack env.now)
  letter _ _ := none
  why := refusal subscriberID
  settled := not_underClaim_ack

def nackLetter (q : Queue) (env : Env) (subscriberID : String) (errorMsg : Bytes) (f : Frame)
    (row : Sub) : Option DLQRow :=
  if row.retryCount + 1 > q.resolveMaxRetries then
    (f.msgs.find? row.messageID).map fun m =>
      ⟨UUID.nil, row.messageID, some subscriberID, m.payload, truncateErrorMsg errorMsg,
        row.retryCount + 1, env.now, m.metadata⟩
  else none

theorem not_underClaim_nackSub {q : Queue} {env : Env} {msg : Bytes} {delay : Duration}
    {sub : String} {row row' : Sub} (h : nackSub q env msg delay row = some row') (r : Receipt) :
    row'.underClaim r.messageID sub r.claimID = false := by
  unfold nackSub at h
  split at h
  · cases h
  · cases h
    exact not_underClaim_of_status (show MessageStatus.pending ≠ .processing by decide) sub r

/-- `errorMsg` is the reason as the nack has truncated it -/
def nackRule (q : Queue) (env : Env) (subscriberID : String) (errorMsg : Bytes)
    (retryDelay : Duration) : Rule Frame Sub DLQRow Receipt QueueError where
  hit r row := row.underClaim r.messageID subscriberID r.claimID
  after := nackSub q env errorMsg retryDelay
  letter := nackLetter q env subscriberID errorMsg
  why := refusal subscriberID
  settled := not_underClaim_nackSub

section
variable {q : Queue} {env : Env} {s : State} {row : Sub} {r : Receipt} {rs : List Receipt}
  {sub : String} {msg : Bytes} {delay : Duration}

theorem live_ackRule : (ackRule env sub).live (store.rows s) r = live s sub r :=
  any_underClaim s r.messageID r.claimID

theorem live_nackRule : (nackRule q env sub msg delay).live (store.rows s) r = live s sub r :=
  any_underClaim s r.messageID r.claimID

theorem hits_eq_hit :
    (rs.any fun r => row.underClaim r.messageID sub r.claimID) = hit sub rs row := by
  rw [Bool.eq_iff_iff, any_eq_true, hit_iff]

theorem distinct_of_nodup {rule : Rule Frame Sub DLQRow Receipt QueueError}
    (hrule : ∀ r row, rule.hit r row = row.underClaim r.messageID sub r.claimID)
    (hn : (rs.map fun r => (r.messageID, r.claimID)).Nodup) : rule.Distinct rs := by
  refine (pairwise_map.mp hn).imp fun {r r'} hne row hh => ?_
  rw [hrule] at hh ⊢
  rw [Bool.eq_false_iff]
  intro hh'
  obtain ⟨hid, hc, -⟩ := underClaim_eq.mp hh
  obtain ⟨hid', hc', -⟩ := underClaim_eq.mp hh'
  have hm : r.messageID = r'.messageID := (Prod.mk.inj (hid.symm.trans hid')).1
  exact hne (Prod.ext hm (Option.some.inj (hc.symm.trans hc')))

/-! ## one receipt -/

theorem not_live_iff : live s sub r = false ↔ liveClaim s (r.messageID, sub) ≠ some r.claimID :=
  decide_eq_false_iff_not

theorem ackTopic_serves (hv : validateSubscriberID sub = .ok ()) :
    Serves store (ackRule env sub) (ackTopic env sub) where
  hit {r s} h := by
    rw [live_ackRule, live_iff] at h
    exact ⟨_, ackTopic_hit hv h, .of_update (fun _ => rfl) (fun _ _ => rfl) rfl rfl rfl⟩
  miss {r s} h := by
    rw [live_ackRule, not_live_iff] at h
    exact ackTopic_miss hv h

theorem after_ackTopic (hv : validateSubscriberID sub = .ok ()) (s : State) :
    after (ackTopic env sub) r s = ackUpdate env sub r s := by
  unfold after ackUpdate
  by_cases h : liveClaim s (r.messageID, sub) = some r.claimID
  · rw [ackTopic_hit hv h]
  · rw [ackTopic_miss hv h, updateUnderClaim_miss h]

theorem ackUpdate_comm {env' : Env} {sub' : String} (hnow : env'.now = env.now) (a b : Receipt)
    (s : State) :
    ackUpdate env' sub' b (ackUpdate env sub a s) = ackUpdate env sub a (ackUpdate env' sub' b s) := by
  unfold ackUpdate updateUnderClaim
  dsimp only
  congr 1
  refine Linked.ext rfl (Table.ext ?_)
  show List.map _ (List.map _ s.subs.rows) = List.map _ (List.map _ s.subs.rows)
  rw [map_map, map_map, hnow]
  refine map_congr_left fun row _ => ?_
  have hc : ∀ (sub : String) (r : Receipt),
      (row.ack env.now).underClaim r.messageID sub r.claimID = false :=
    fun sub r => not_underClaim_ack rfl r
  dsimp only [Function.comp_apply]
  by_cases ha : row.underClaim a.messageID sub a.claimID = true
  · by_cases hb : row.underClaim b.messageID sub' b.claimID = true
    · simp only [ha, hb, hc, ↓reduceIte, Bool.false_eq_true]
    · simp only [ha, hb, hc, ↓reduceIte, Bool.false_eq_true]
  · by_cases hb : row.underClaim b.messageID sub' b.claimID = true
    · simp only [ha, hb, hc, ↓reduceIte, Bool.false_eq_true]
    · simp only [ha, hb, ↓reduceIte, Bool.false_eq_true]

theorem underClaim_eq_key {x : Sub} (hr : row ∈ s.subs.rows)
    (hu : row.underClaim r.messageID sub r.claimID = true) (hx : x ∈ s.subs.rows) :
    x.underClaim r.messageID sub r.claimID = decide (x.key = (r.messageID, sub)) := by
  rw [Bool.eq_iff_iff, decide_eq_true_eq]
  constructor
  · exact fun h => (underClaim_eq.mp h).1
  · intro hid
    rw [Table.eq_of_key hx hr (hid.trans (underClaim_eq.mp hu).1.symm)]
    exact hu

theorem rows_nackFound {payload : Bytes} {metadata : Option Bytes} (hr : row ∈ s.subs.rows)
    (hu : row.underClaim r.messageID sub r.claimID = true) :
    (nackFound q env sub r msg delay ⟨row.retryCount, payload, metadata⟩ s).subs.rows =
      (nackRule q env sub msg delay).rowsAfter ((nackRule q env sub msg delay).hit r)
        s.subs.rows := by
  have hid := (underClaim_eq.mp hu).1
  unfold nackFound Rule.rowsAfter
  split
  · rename_i hc
    show List.filter _ s.subs.rows = _
    rw [← filterMap_eq_filter]
    refine filterMap_congr fun x hx => ?_
    show Option.guard _ x =
      if x.underClaim r.messageID sub r.claimID then nackSub q env msg delay x else _
    rw [underClaim_eq_key hr hu hx]
    by_cases he : x.key = (r.messageID, sub)
    · obtain rfl := Table.eq_of_key hx hr (he.trans hid.symm)
      obtain ⟨h1, h2⟩ := Prod.mk.inj he
      simp [Option.guard, nackSub, hc, he, h1, h2]
    · have hne : r.messageID = x.messageID → ¬ x.subscriberID = sub :=
        fun h h' => he (Prod.ext h.symm h')
      simpa [Option.guard, he] using hne
  · rename_i hc
    show List.map _ s.subs.rows = _
    rw [← filterMap_eq_map]
    refine filterMap_congr fun x hx => ?_
    show some _ = if x.underClaim r.messageID sub r.claimID then nackSub q env msg delay x else _
    rw [underClaim_eq_key hr hu hx]
    by_cases he : x.key = (r.messageID, sub)
    · obtain rfl := Table.eq_of_key hx hr (he.trans hid.symm)
      simp only [nackSub, hc, he, decide_true, ↓reduceIte, (Prod.mk.inj he).1]
    · simp [he]

theorem letters_nackFound {m : MessageRow} (hr : row ∈ s.subs.rows)
    (hu : row.underClaim r.messageID sub r.claimID = true) (hm : s.tables.parentOf row = some m) :
    (nackFound q env sub r msg delay ⟨row.retryCount, m.payload, m.metadata⟩ s).dlq.map
        DLQRow.withoutID =
      s.dlq.map DLQRow.withoutID ++ (nackRule q env sub msg delay).lettersOf (store.frame s)
        ((nackRule q env sub msg delay).hit r) s.subs.rows := by
  have hid := (underClaim_eq.mp hu).1
  have hone : s.subs.rows.filter ((nackRule q env sub msg delay).hit r) = [row] := by
    rw [← Table.filter_key hr, hid]
    exact filter_congr fun x hx => underClaim_eq_key hr hu hx
  unfold Rule.lettersOf
  rw [hone]
  show _ = _ ++ [row].filterMap (nackLetter q env sub msg (store.frame s))
  have hid' : row.messageID = r.messageID := (Prod.mk.inj hid).1
  have hm' : s.msgs.find? r.messageID = some m := by
    rw [← hid']
    exact hm
  unfold nackFound
  split
  · rename_i hc
    show (s.dlq ++ dlqRows _ _ _ _ _ _).map DLQRow.withoutID = _
    rw [map_append, withoutID_dlqRows]
    simp only [nackLetter, store, hc, hm', filterMap_cons, filterMap_nil, ↓reduceIte,
      map_cons, map_nil, Option.map_some, hid']
  · rename_i hc
    simp only [nackLetter, hc, filterMap_cons, filterMap_nil, ↓reduceIte, append_nil]
    rfl

theorem nackTopicImpl_serves (hv : validateSubscriberID sub = .ok ()) :
    Serves store (nackRule q env sub (truncateErrorMsg msg) delay)
      (fun r => nackTopicImpl q env sub r msg delay) where
  hit {r s} h := by
    rw [live_nackRule, live_iff, liveClaim_eq_some] at h
    obtain ⟨row, hr, hu⟩ := h
    obtain ⟨m, hm⟩ := s.tables.exists_parentOf hr
    refine ⟨_, nackTopicImpl_hit hv hr hu hm, rows_nackFound hr hu, ?_, ?_⟩
    · exact Perm.of_eq (letters_nackFound hr hu hm)
    · unfold nackFound
      split <;> rfl
  miss {r s} h := by
    rw [live_nackRule, not_live_iff] at h
    exact nackTopicImpl_miss hv h

/-! ## a group of receipts -/

theorem ackTopicBatch_settled {res : BatchResult} {s' : State}
    (hv : validateSubscriberID sub = .ok ()) (hsize : validateBatchSize rs.length = .ok ())
    (h : ackTopicBatch env sub rs s = .ok (res, s')) :
    Settled store (ackRule env sub) rs s res.succeeded (res.failed.map FailedReceipt.pair) s' := by
  rw [ackTopicBatch_eq hv hsize] at h
  cases h
  refine ⟨filter_congr fun r _ => live_ackRule.symm, ?_, ?_⟩
  · unfold classifyTopicBatchMisses
    rw [map_map]
    refine congrArg _ (filter_congr fun r _ => ?_)
    rw [live_ackRule]
  · refine .of_update (fun _ => rfl) (fun _ _ => rfl) ?_ rfl rfl
    refine map_congr_left fun row _ => ?_
    rw [← hits_eq_hit]
    rfl

section
variable (hn : (rs.map fun r => (r.messageID, r.claimID)).Nodup)
include hn

theorem perm_fetchBatchSubStates :
    ((fetchBatchSubStates rs sub s).map Candidate.sub).Perm (s.subs.rows.filter (hit sub rs)) := by
  refine (perm_ext_iff_of_nodup (nodup_fetchBatchSubStates hn)
    ((Nodup.of_map Sub.key s.subs.nodup).filter _)).mpr fun row => ?_
  rw [mem_map, mem_filter]
  constructor
  · rintro ⟨c, hc, rfl⟩
    obtain ⟨hmem, hh, -⟩ := mem_fetchBatchSubStates.mp hc
    exact ⟨hmem, hh⟩
  · rintro ⟨hmem, hh⟩
    obtain ⟨m, -, hc⟩ := exists_state_of_hit hmem hh
    exact ⟨_, hc, rfl⟩

theorem letters_processNackTopicBatch :
    ((processNackTopicBatch q env sub (fetchBatchSubStates rs sub s) msg delay s).dlq.map
      DLQRow.withoutID).Perm
      (s.dlq.map DLQRow.withoutID ++ (nackRule q env sub msg delay).lettersOf (store.frame s)
        ((nackRule q env sub msg delay).hits rs) s.subs.rows) := by
  show ((s.dlq ++ dlqRows _ _ _ _ _ _).map DLQRow.withoutID).Perm _
  rw [map_append, withoutID_dlqRows]
  refine Perm.append_left _ ?_
  -- both lists are the dead letters of the rows that are hit
  have hl : (((fetchBatchSubStates rs sub s).filter
        fun c => decide (c.sub.retryCount + 1 > q.resolveMaxRetries)).map fun c =>
        (⟨c.sub.messageID, c.msg.payload, c.sub.retryCount + 1, c.msg.metadata⟩ : DLQMessage)).map
        (fun m => (⟨UUID.nil, m.id, some sub, m.payload, truncateErrorMsg msg, m.retryCount, env.now,
          m.metadata⟩ : DLQRow)) =
      ((fetchBatchSubStates rs sub s).map Candidate.sub).filterMap
        (nackLetter q env sub msg (store.frame s)) := by
    rw [map_map, ← filterMap_eq_filter, map_filterMap, filterMap_map]
    refine filterMap_congr fun c hc => ?_
    have hm : s.msgs.find? c.sub.messageID = some c.msg := (mem_fetchBatchSubStates.mp hc).2.2
    simp only [Function.comp_apply]
    unfold nackLetter Option.guard
    split <;> rename_i hx
    · rw [if_pos (of_decide_eq_true hx)]
      simp only [store, hm, Option.map_some, Function.comp_apply]
    · rw [if_neg fun h => hx (decide_eq_true h)]
      rfl
  rw [hl]
  have hp : (((fetchBatchSubStates rs sub s).map Candidate.sub).filterMap
      (nackLetter q env sub msg (store.frame s))).Perm _ :=
    (perm_fetchBatchSubStates hn).filterMap _
  rwa [filter_congr fun row _ => hits_eq_hit.symm] at hp

theorem nackTopicBatch_settled {res : BatchResult} {s' : State}
    (hv : validateSubscriberID sub = .ok ()) (hsize : validateBatchSize rs.length = .ok ())
    (h : nackTopicBatch q env sub rs msg delay s = .ok (res, s')) :
    Settled store (nackRule q env sub (truncateErrorMsg msg) delay) rs s res.succeeded
      (res.failed.map FailedReceipt.pair) s' := by
  rw [nackTopicBatch_eq hv hsize] at h
  cases h
  refine ⟨filter_congr fun r _ => live_nackRule.symm, ?_, ?_, letters_processNackTopicBatch hn,
    rfl⟩
  · unfold classifyTopicBatchMisses
    rw [map_map]
    refine congrArg _ (filter_congr fun r _ => ?_)
    rw [live_nackRule]
  · show Table.rows _ = _
    rw [rows_processNackTopicBatch]
    exact (nackRule q env sub (truncateErrorMsg msg) delay).rowsAfter_congr
      fun row _ => hits_eq_hit.symm

end
end
end PgQueue.Topic
