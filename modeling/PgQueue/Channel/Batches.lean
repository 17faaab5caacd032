import PgQueue.Channel.Conserve
import PgQueue.Relational.Fenced

/-!
# The channel: a group of receipts, or its receipts one by one

The message table under `ackChannel` and `nackChannelImpl`, read as a table under a fenced
statement (`Relational.Rule`); the dead letters are compared without their own ids.

* `ackChannel_serves`, `nackChannelImpl_serves`       one receipt follows the rule;
* `ackChannelBatch_settled`, `nackChannelBatch_settled`   a group follows it.
-/

namespace PgQueue.Channel
open Relational
open List hiding after

def store : Store State (List ReplayLogRow) Row DLQRow where
  rows s := s.msgs.rows
  letters s := s.dlq.map DLQRow.withoutID
  frame s := s.replayLog

def refusal (rows : List Row) (r : Receipt) : QueueError :=
  classifyClaimState ((rows.find? fun row => decide (row.id = r.messageID)).map
    fun row => (row.status, row.claimID)) r.claimID

theorem not_underClaim_of_status {row : Row} (h : row.status ≠ .processing) (r : Receipt) :
    row.underClaim r.messageID r.claimID = false :=
  Bool.eq_false_iff.mpr fun hu => h (underClaim_eq.mp hu).2.2

theorem not_underClaim_complete {now : Time} {row row' : Row}
    (h : some (row.complete now) = some row') (r : Receipt) :
    row'.underClaim r.messageID r.claimID = false := by
  cases h
  exact not_underClaim_of_status MessageStatus.processing_ne_completed.symm r

def ackRule (env : Env) : Rule (List ReplayLogRow) Row DLQRow Receipt QueueError where
  hit r row := row.underClaim r.messageID r.claimID
  after row := some (row.complete env.now)
  letter _ _ := none
  why := refusal
  settled := not_underClaim_complete

def nackLetter (q : Queue) (env : Env) (errorMsg : Bytes) (row : Row) : Option DLQRow :=
  if row.retryCount + 1 > row.cap q then
    some ⟨UUID.nil, row.id, none, row.payload, truncateErrorMsg errorMsg, row.retryCount + 1, env.now,
      row.metadata⟩
  else none

theorem not_underClaim_nackRow {q : Queue} {env : Env} {msg : Bytes} {delay : Duration}
    {row row' : Row} (h : nackRow q env msg delay row = some row') (r : Receipt) :
    row'.underClaim r.messageID r.claimID = false := by
  unfold nackRow at h
  split at h
  · cases h
  · cases h
    exact not_underClaim_of_status (show MessageStatus.pending ≠ .processing by decide) r

/-- `errorMsg` is the reason as the nack has truncated it -/
def nackRule (q : Queue) (env : Env) (errorMsg : Bytes) (retryDelay : Duration) :
    Rule (List ReplayLogRow) Row DLQRow Receipt QueueError where
  hit r row := row.underClaim r.messageID r.claimID
  after := nackRow q env errorMsg retryDelay
  letter _ := nackLetter q env errorMsg
  why := refusal
  settled := not_underClaim_nackRow

section
variable {q : Queue} {env : Env} {s : State} {row : Row} {r : Receipt} {rs : List Receipt}
  {msg : Bytes} {delay : Duration}

theorem live_ackRule : (ackRule env).live (store.rows s) r = live s r :=
  any_underClaim s r.messageID r.claimID

theorem live_nackRule : (nackRule q env msg delay).live (store.rows s) r = live s r :=
  any_underClaim s r.messageID r.claimID

theorem hits_eq_hit : (rs.any fun r => row.underClaim r.messageID r.claimID) = hit rs row := by
  rw [Bool.eq_iff_iff, any_eq_true, hit_iff]

theorem distinct_of_nodup {rule : Rule (List ReplayLogRow) Row DLQRow Receipt QueueError}
    (hrule : ∀ r row, rule.hit r row = row.underClaim r.messageID r.claimID)
    (hn : (rs.map fun r => (r.messageID, r.claimID)).Nodup) : rule.Distinct rs := by
  refine (pairwise_map.mp hn).imp fun {r r'} hne row hh => ?_
  rw [hrule] at hh ⊢
  rw [Bool.eq_false_iff]
  intro hh'
  obtain ⟨hid, hc, -⟩ := underClaim_eq.mp hh
  obtain ⟨hid', hc', -⟩ := underClaim_eq.mp hh'
  exact hne (Prod.ext (hid.symm.trans hid') (Option.some.inj (hc.symm.trans hc')))

/-! ## one receipt -/

theorem not_live_iff : live s r = false ↔ liveClaim s r.messageID ≠ some r.claimID :=
  decide_eq_false_iff_not

theorem ackChannel_serves : Serves store (ackRule env) (ackChannel env) where
  hit {r s} h := by
    rw [live_ackRule, live_iff] at h
    exact ⟨_, ackChannel_hit h, .of_update (fun _ => rfl) (fun _ _ => rfl) rfl rfl rfl⟩
  miss {r s} h := by
    rw [live_ackRule, not_live_iff] at h
    exact ackChannel_miss h

theorem after_ackChannel (s : State) : after (ackChannel env) r s = (ackUpdate env r s).2 := by
  unfold after
  by_cases h : liveClaim s r.messageID = some r.claimID
  · rw [ackChannel_hit h]
  · rw [ackChannel_miss h]
    unfold ackUpdate
    rw [updateUnderClaim_miss h]

theorem ackUpdate_comm {env' : Env} (hnow : env'.now = env.now) (a b : Receipt) (s : State) :
    (ackUpdate env' b (ackUpdate env a s).2).2 = (ackUpdate env a (ackUpdate env' b s).2).2 := by
  unfold ackUpdate updateUnderClaim
  dsimp only
  congr 1
  refine Table.ext ?_
  show List.map _ (List.map _ s.msgs.rows) = List.map _ (List.map _ s.msgs.rows)
  rw [map_map, map_map, hnow]
  refine map_congr_left fun row _ => ?_
  have hc := not_underClaim_complete (rfl : some (row.complete env.now) = _)
  dsimp only [Function.comp_apply]
  by_cases ha : row.underClaim a.messageID a.claimID = true
  · by_cases hb : row.underClaim b.messageID b.claimID = true
    · simp only [ha, hb, hc, ↓reduceIte, Bool.false_eq_true]
    · simp only [ha, hb, hc, ↓reduceIte, Bool.false_eq_true]
  · by_cases hb : row.underClaim b.messageID b.claimID = true
    · simp only [ha, hb, hc, ↓reduceIte, Bool.false_eq_true]
    · simp only [ha, hb, ↓reduceIte, Bool.false_eq_true]

theorem underClaim_eq_id {x : Row} (hr : row ∈ s.msgs.rows)
    (hu : row.underClaim r.messageID r.claimID = true) (hx : x ∈ s.msgs.rows) :
    x.underClaim r.messageID r.claimID = decide (x.id = r.messageID) := by
  rw [Bool.eq_iff_iff, decide_eq_true_eq]
  constructor
  · exact fun h => (underClaim_eq.mp h).1
  · intro hid
    rw [Table.eq_of_key hx hr (hid.trans (underClaim_eq.mp hu).1.symm)]
    exact hu

theorem rows_handleNack (hr : row ∈ s.msgs.rows)
    (hu : row.underClaim r.messageID r.claimID = true) :
    (handleNack q env r.messageID msg row delay s).msgs.rows =
      (nackRule q env msg delay).rowsAfter ((nackRule q env msg delay).hit r) s.msgs.rows := by
  have hid := (underClaim_eq.mp hu).1
  unfold handleNack Rule.rowsAfter
  split
  · rename_i hc
    show List.filter _ s.msgs.rows = _
    rw [← filterMap_eq_filter]
    refine filterMap_congr fun x hx => ?_
    show Option.guard _ x = if x.underClaim r.messageID r.claimID then nackRow q env msg delay x else _
    rw [underClaim_eq_id hr hu hx]
    by_cases he : x.id = r.messageID
    · obtain rfl := Table.eq_of_key hx hr (he.trans hid.symm)
      simp [Option.guard, nackRow, hc, he]
    · simp [Option.guard, he, Ne.symm he]
  · rename_i hc
    show List.map _ s.msgs.rows = _
    rw [← filterMap_eq_map]
    refine filterMap_congr fun x hx => ?_
    show some _ = if x.underClaim r.messageID r.claimID then nackRow q env msg delay x else _
    rw [underClaim_eq_id hr hu hx]
    by_cases he : x.id = r.messageID
    · obtain rfl := Table.eq_of_key hx hr (he.trans hid.symm)
      simp [nackRow, hc, he]
    · simp [he]

theorem letters_handleNack (hr : row ∈ s.msgs.rows)
    (hu : row.underClaim r.messageID r.claimID = true) :
    (handleNack q env r.messageID msg row delay s).dlq.map DLQRow.withoutID =
      s.dlq.map DLQRow.withoutID ++ (nackRule q env msg delay).lettersOf s.replayLog
        ((nackRule q env msg delay).hit r) s.msgs.rows := by
  have hid := (underClaim_eq.mp hu).1
  have hone : s.msgs.rows.filter ((nackRule q env msg delay).hit r) = [row] := by
    rw [← Table.filter_key hr, hid]
    exact filter_congr fun x hx => underClaim_eq_id hr hu hx
  unfold Rule.lettersOf
  rw [hone]
  show _ = _ ++ [row].filterMap (nackLetter q env msg)
  unfold handleNack
  split
  · rename_i hc
    show (s.dlq ++ dlqRows _ _ _ _ _ _).map DLQRow.withoutID = _
    rw [map_append, withoutID_dlqRows]
    simp only [nackLetter, hc, filterMap_cons, filterMap_nil, ↓reduceIte, map_cons,
      map_nil, hid]
  · rename_i hc
    simp only [nackLetter, hc, filterMap_cons, filterMap_nil, ↓reduceIte, append_nil]
    rfl

theorem nackChannelImpl_serves :
    Serves store (nackRule q env (truncateErrorMsg msg) delay)
      (fun r => nackChannelImpl q env r msg delay) where
  hit {r s} h := by
    rw [live_nackRule, live_iff, liveClaim_eq_some] at h
    obtain ⟨row, hr, hu⟩ := h
    refine ⟨_, nackChannelImpl_hit hr hu, rows_handleNack hr hu, ?_, ?_⟩
    · exact Perm.of_eq (letters_handleNack hr hu)
    · unfold handleNack
      split <;> rfl
  miss {r s} h := by
    rw [live_nackRule, not_live_iff] at h
    exact nackChannelImpl_miss h

/-! ## a group of receipts -/

theorem ackChannelBatch_settled {res : BatchResult} {s' : State}
    (h : ackChannelBatch env rs s = .ok (res, s')) :
    Settled store (ackRule env) rs s res.succeeded (res.failed.map FailedReceipt.pair) s' := by
  rw [ackChannelBatch_eq (ackChannelBatch_ok h).1] at h
  cases h
  refine ⟨filter_congr fun r _ => live_ackRule.symm, ?_, ?_⟩
  · unfold classifyChannelBatchMisses
    rw [map_map]
    refine congrArg _ (filter_congr fun r _ => ?_)
    rw [live_ackRule]
  · refine .of_update (fun _ => rfl) (fun _ _ => rfl) ?_ rfl rfl
    refine map_congr_left fun row _ => ?_
    rw [← hits_eq_hit]
    rfl

section
variable (hn : (rs.map fun r => (r.messageID, r.claimID)).Nodup)
include hn

theorem perm_fetchBatchMessageStates :
    (fetchBatchMessageStates rs s).Perm (s.msgs.rows.filter (hit rs)) := by
  refine (perm_ext_iff_of_nodup (nodup_fetchBatchMessageStates hn)
    ((Nodup.of_map Row.id s.msgs.nodup).filter _)).mpr fun row => ?_
  rw [mem_fetchBatchMessageStates, mem_filter]

theorem letters_processNackBatch :
    ((processNackBatch q env (fetchBatchMessageStates rs s) msg delay s).dlq.map
      DLQRow.withoutID).Perm
      (s.dlq.map DLQRow.withoutID ++ (nackRule q env msg delay).lettersOf s.replayLog
        ((nackRule q env msg delay).hits rs) s.msgs.rows) := by
  show ((s.dlq ++ dlqRows _ _ _ _ _ _).map DLQRow.withoutID).Perm _
  rw [map_append, withoutID_dlqRows]
  refine Perm.append_left _ ?_
  -- both lists are the dead letters of the rows that are hit
  have hl : ∀ rows : List Row,
      ((rows.filter fun row => decide (row.retryCount + 1 > row.cap q)).map fun row =>
        (⟨row.id, row.payload, row.retryCount + 1, row.metadata⟩ : DLQMessage)).map
        (fun m => (⟨UUID.nil, m.id, none, m.payload, truncateErrorMsg msg, m.retryCount, env.now,
          m.metadata⟩ : DLQRow)) = rows.filterMap (nackLetter q env msg) := by
    intro rows
    rw [map_map, ← filterMap_eq_filter, map_filterMap]
    refine filterMap_congr fun row _ => ?_
    unfold nackLetter Option.guard
    split <;> rename_i hc
    · rw [if_pos (of_decide_eq_true hc)]
      rfl
    · rw [if_neg fun h => hc (decide_eq_true h)]
      rfl
  rw [hl]
  have hp := (perm_fetchBatchMessageStates (s := s) hn).filterMap (nackLetter q env msg)
  rwa [filter_congr fun row _ => hits_eq_hit.symm] at hp

theorem nackChannelBatch_settled {res : BatchResult} {s' : State}
    (h : nackChannelBatch q env rs msg delay s = .ok (res, s')) :
    Settled store (nackRule q env (truncateErrorMsg msg) delay) rs s res.succeeded
      (res.failed.map FailedReceipt.pair) s' := by
  rw [nackChannelBatch_eq (nackChannelBatch_ok h).1] at h
  cases h
  refine ⟨filter_congr fun r _ => live_nackRule.symm, ?_, ?_, letters_processNackBatch hn, rfl⟩
  · unfold classifyChannelBatchMisses
    rw [map_map]
    refine congrArg _ (filter_congr fun r _ => ?_)
    rw [live_nackRule]
  · show Table.rows _ = _
    rw [rows_processNackBatch]
    exact (nackRule q env (truncateErrorMsg msg) delay).rowsAfter_congr
      fun row _ => hits_eq_hit.symm

end
end
end PgQueue.Channel
