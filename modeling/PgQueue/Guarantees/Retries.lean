import PgQueue.Retry
import PgQueue.Channel.Batches
import PgQueue.Topic.Batches
import PgQueue.Guarantees.Leases

/-!
# A batch acknowledgement that is run again

`withBatchRetry` runs the transaction of a receipt group again after a transient error, also when
it had been committed.  A receipt takes effect in a transaction that finds its claim live, and
after that transaction the claim is spent for good (`Lease.Fenced`), whatever others do meanwhile:

* `applied`     the effect of one receipt in one transaction, read off the tables;
* `applied_eq_live`   it takes effect where its claim is live;
* `idle_of_not_live`  elsewhere the tables are as they would be without the receipt;
* `batch_applied_once`   **over all attempts it takes effect at most once.**
-/

namespace PgQueue
open Relational Lease List

theorem validateBatchSize_of_le {n m : Nat} (hle : n ≤ m) (h : validateBatchSize m = .ok ()) :
    validateBatchSize n = .ok () :=
  validateBatchSize_ok.mpr (Nat.le_trans hle (validateBatchSize_ok.mp h))

/-! ## a channel -/

namespace Channel

def settleGroup (q : Queue) (how : Settlement) (rs : List Receipt) (env : Env) (s : State) :
    Except QueueError (BatchResult × State) :=
  match how with
  | .ack => ackChannelBatch env rs s
  | .nack reason delay => nackChannelBatch q env rs reason delay s

def groupOp (how : Settlement) (rs : List Receipt) (k : ReceiptGroupKey) : Op :=
  match how with
  | .ack => .ackBatch rs k
  | .nack reason delay => .nackBatch rs k reason delay

def deadLetters (s : State) (id : UUID) : Nat :=
  s.dlq.countP fun d => decide (d.originalMessageID = id)

/-- the row is completed; it is pending with its retry count raised by one; or it is gone and
there is one more dead letter of its message -/
def settledAs (q : Queue) (how : Settlement) (x : Commit State) (row : Row) : Bool :=
  match how with
  | .ack => decide (row.complete x.env.now ∈ x.after.msgs.rows)
  | .nack reason delay =>
    if row.retryCount + 1 > row.cap q then
      (x.after.msgs.find? row.id).isNone &&
        decide (deadLetters x.after row.id = deadLetters x.before row.id + 1)
    else
      decide (row.retry x.env.now (x.env.computeRetryDelay row.id (row.retryCount + 1) delay)
        (truncateErrorMsg reason) ∈ x.after.msgs.rows)

/-- the transaction found a row under the receipt's claim and settled it -/
def applied (q : Queue) (how : Settlement) (r : Receipt) (x : Commit State) : Bool :=
  x.before.msgs.rows.any fun row =>
    row.underClaim r.messageID r.claimID && settledAs q how x row

/-- the tables are those of the same transaction without the receipt -/
def Idle (q : Queue) (how : Settlement) (rs : List Receipt) (r : Receipt) (x : Commit State) : Prop :=
  ∃ res, settleGroup q how (rs.filter fun y => decide (y ≠ r)) x.env x.before = .ok (res, x.after)

section
variable {q : Queue} {env : Env} {s s' : State} {row : Row} {r : Receipt} {rs : List Receipt}
  {how : Settlement} {res : BatchResult}

def settledTables (q : Queue) (how : Settlement) (rs : List Receipt) (env : Env) (s : State) : State :=
  match how with
  | .ack => ackAll env rs s
  | .nack reason delay =>
    processNackBatch q env (fetchBatchMessageStates rs s) (truncateErrorMsg reason) delay s

theorem exists_settleGroup (hsize : validateBatchSize rs.length = .ok ()) :
    ∃ res, settleGroup q how rs env s = .ok (res, settledTables q how rs env s) := by
  cases how with
  | ack => exact ⟨_, ackChannelBatch_eq hsize⟩
  | nack reason delay => exact ⟨_, nackChannelBatch_eq hsize⟩

theorem settleGroup_ok (h : settleGroup q how rs env s = .ok (res, s')) :
    validateBatchSize rs.length = .ok () ∧ res.succeeded = rs.filter (live s) ∧
      s' = settledTables q how rs env s := by
  cases how with
  | ack =>
    have hsize := (ackChannelBatch_ok h).1
    have he : ackChannelBatch env rs s = _ := ackChannelBatch_eq hsize
    cases h.symm.trans he
    exact ⟨hsize, rfl, rfl⟩
  | nack reason delay =>
    have hsize := (nackChannelBatch_ok h).1
    have he : nackChannelBatch q env rs reason delay s = _ := nackChannelBatch_eq hsize
    cases h.symm.trans he
    exact ⟨hsize, rfl, rfl⟩

/-! ### where the claim is live -/

def settleRule (q : Queue) (env : Env) (how : Settlement) :
    Rule (List ReplayLogRow) Row DLQRow Receipt QueueError :=
  match how with
  | .ack => ackRule env
  | .nack reason delay => nackRule q env (truncateErrorMsg reason) delay

theorem settleGroup_settled (hn : (rs.map fun r => (r.messageID, r.claimID)).Nodup)
    (h : settleGroup q how rs env s = .ok (res, s')) :
    Settled store (settleRule q env how) rs s res.succeeded (res.failed.map FailedReceipt.pair) s' := by
  cases how with
  | ack => exact ackChannelBatch_settled h
  | nack reason delay => exact nackChannelBatch_settled hn h

theorem hits_settleRule : (settleRule q env how).hits rs row = hit rs row := by
  cases how with
  | ack | nack => exact hits_eq_hit

theorem deadLetters_eq (s : State) (id : UUID) :
    deadLetters s id = (store.letters s).countP fun d => decide (d.originalMessageID = id) := by
  show _ = (s.dlq.map DLQRow.withoutID).countP _
  rw [countP_map]
  rfl

theorem settledAs_of_hit (hn : (rs.map fun r => (r.messageID, r.claimID)).Nodup)
    (h : settleGroup q how rs env s = .ok (res, s')) (hmem : row ∈ s.msgs.rows)
    (hh : hit rs row = true) : settledAs q how ⟨env, s, s'⟩ row = true := by
  have happ := (settleGroup_settled hn h).applied
  have hh' : (settleRule q env how).hits rs row = true := hits_settleRule.trans hh
  have hrows : s'.msgs.rows = (settleRule q env how).rowsAfter _ s.msgs.rows := happ.rows
  cases how with
  | ack =>
    have hin : row.complete env.now ∈ s'.msgs.rows := by
      rw [hrows]
      exact Rule.mem_rowsAfter hmem hh' rfl
    exact decide_eq_true hin
  | nack reason delay =>
    unfold settledAs
    dsimp only
    split
    · rename_i hc
      have hnone : nackRow q env (truncateErrorMsg reason) delay row = none := if_pos hc
      have hgone : s'.msgs.find? row.id = none := by
        rw [Table.find?_eq_none, hrows]
        exact Rule.not_mem_rowsAfter (fun x x' => id_nackRow) s.msgs.nodup hmem hh' hnone
      have hone : deadLetters s' row.id = deadLetters s row.id + 1 := by
        rw [deadLetters_eq, deadLetters_eq, happ.letters.countP_eq, countP_append]
        congr 1
        refine Rule.countP_lettersOf s.msgs.nodup hmem hh' ⟨_, if_pos hc, decide_eq_true rfl⟩ ?_
        intro x hx _ d hd hw
        change nackLetter q env (truncateErrorMsg reason) x = some d at hd
        unfold nackLetter at hd
        split at hd
        · cases hd
          exact of_decide_eq_true hw
        · cases hd
      rw [hgone, hone, decide_eq_true rfl]
      rfl
    · rename_i hc
      have hsome : nackRow q env (truncateErrorMsg reason) delay row = some _ := if_neg hc
      refine decide_eq_true ?_
      rw [hrows]
      exact Rule.mem_rowsAfter hmem hh' hsome

/-- **a receipt takes effect in the transactions that find its claim live** -/
theorem applied_eq_live (hn : (rs.map fun r => (r.messageID, r.claimID)).Nodup) (hr : r ∈ rs)
    (h : settleGroup q how rs env s = .ok (res, s')) : applied q how r ⟨env, s, s'⟩ = live s r := by
  rw [Bool.eq_iff_iff, live_iff, liveClaim_eq_some, applied, any_eq_true]
  constructor
  · rintro ⟨row, hmem, ha⟩
    exact ⟨row, hmem, (Bool.and_eq_true_iff.mp ha).1⟩
  · rintro ⟨row, hmem, hu⟩
    refine ⟨row, hmem, ?_⟩
    rw [hu, Bool.true_and]
    exact settledAs_of_hit hn h hmem (hit_iff.mpr ⟨r, hr, hu⟩)

/-! ### where it is not -/

theorem matching_without (hu : row.underClaim r.messageID r.claimID = false) :
    matching (rs.filter fun y => decide (y ≠ r)) row = matching rs row := by
  unfold matching
  rw [filter_filter]
  refine filter_congr fun y _ => ?_
  by_cases he : y = r
  · rw [he, hu, Bool.false_and]
  · rw [decide_eq_true he, Bool.and_true]

theorem settledTables_congr {rs' : List Receipt}
    (h : ∀ row ∈ s.msgs.rows, matching rs' row = matching rs row) :
    settledTables q how rs' env s = settledTables q how rs env s := by
  have hhit : ∀ row ∈ s.msgs.rows, hit rs' row = hit rs row := by
    intro row hr
    rw [hit, h row hr, hit]
  cases how with
  | ack =>
    show ackAll env rs' s = ackAll env rs s
    unfold ackAll
    congr 1
    apply Table.ext
    rw [Table.rows_update, Table.rows_update]
    exact map_congr_left fun row hr => by rw [hhit row hr]
  | nack reason delay =>
    have hst : fetchBatchMessageStates rs' s = fetchBatchMessageStates rs s := by
      unfold fetchBatchMessageStates Table.select
      rw [filter_congr hhit]
      refine flatMap_congr fun row hr => ?_
      have hmem := (mem_filter.mp ((mem_insertionSort _).mp hr)).1
      rw [h row hmem]
    show processNackBatch q env (fetchBatchMessageStates rs' s) _ delay s = _
    rw [hst]
    rfl

/-- **elsewhere the tables are as they would be without the receipt** -/
theorem idle_of_not_live (h : settleGroup q how rs env s = .ok (res, s'))
    (hl : live s r = false) : Idle q how rs r ⟨env, s, s'⟩ := by
  obtain ⟨hsize, -, rfl⟩ := settleGroup_ok h
  have hl' : liveClaim s r.messageID ≠ some r.claimID := not_live_iff.mp hl
  have hle := validateBatchSize_of_le (length_filter_le (fun y => decide (y ≠ r)) rs) hsize
  have hsame : settledTables q how (rs.filter fun y => decide (y ≠ r)) env s =
      settledTables q how rs env s :=
    settledTables_congr fun row hr => matching_without (underClaim_of_not_live hl' row hr)
  rw [Idle, ← hsame]
  exact exists_settleGroup hle

/-! ### over a run -/

theorem step_groupOp {k : ReceiptGroupKey}
    (h : settleGroup q how (receiptGroup rs k) env s = .ok (res, s')) :
    step q env s (groupOp how rs k) = (s', how.events Receipt.messageID res.succeeded) := by
  have hcommit : step q env s (groupOp how rs k) =
      commit s (settleGroup q how (receiptGroup rs k) env s)
        fun res => how.events Receipt.messageID res.succeeded := by
    cases how with
    | ack | nack => rfl
  rw [hcommit, h]
  rfl

theorem ledger (q : Queue) (how : Settlement) (rs : List Receipt) (k : ReceiptGroupKey)
    (hr : r ∈ receiptGroup rs k) :
    Ledger (Reach q) (fun s ops => (runFrom q s ops).1) (settleGroup q how (receiptGroup rs k))
      (fun s => live s r) r.messageID r.claimID where
  others hreach hc := ⟨_, hreach.ran hc⟩
  own {s h t env res s'} hreach ht ha := by
    have hstep := hreach.next env (groupOp how rs k) ht
    rw [step_groupOp ha] at hstep
    refine ⟨_, hstep, fun hl => how.consumed_events ?_⟩
    rw [(settleGroup_ok ha).2.1]
    exact mem_filter.mpr ⟨hr, hl⟩
  unspent {s h t} hreach hl := by
    obtain ⟨row, hmem, hu, hheld⟩ := exists_row_of_live (q := q) (live_iff.mp hl)
    have hslot := slot_of_mem (q := q) hmem
    rw [(underClaim_eq.mp hu).1] at hslot
    exact (hreach.sound r.messageID).fenced.unspent _ _ hslot hheld

end
end Channel

/-! ## a topic -/

namespace Topic

def settleGroup (q : Queue) (sub : String) (how : Settlement) (rs : List Receipt) (env : Env)
    (s : State) : Except QueueError (BatchResult × State) :=
  match how with
  | .ack => ackTopicBatch env sub rs s
  | .nack reason delay => nackTopicBatch q env sub rs reason delay s

def groupOp (how : Settlement) (rs : List Receipt) (k : ReceiptGroupKey) : Op :=
  match how with
  | .ack => .ackBatch rs k
  | .nack reason delay => .nackBatch rs k reason delay

def deadLetters (s : State) (k : UUID × String) : Nat :=
  s.dlq.countP fun d => decide ((d.originalMessageID, d.subscriberID) = (k.1, some k.2))

/-- the row is acked; it is pending with its retry count raised by one; or it is gone and there is
one more dead letter of its message and subscriber -/
def settledAs (q : Queue) (how : Settlement) (x : Commit State) (row : Sub) : Bool :=
  match how with
  | .ack => decide (row.ack x.env.now ∈ x.after.subs.rows)
  | .nack reason delay =>
    if row.retryCount + 1 > q.resolveMaxRetries then
      (x.after.subs.find? row.key).isNone &&
        decide (deadLetters x.after row.key = deadLetters x.before row.key + 1)
    else
      decide (row.retry x.env.now (x.env.computeRetryDelay row.messageID (row.retryCount + 1) delay)
        (truncateErrorMsg reason) ∈ x.after.subs.rows)

/-- the transaction found a row under the receipt's claim and settled it -/
def applied (q : Queue) (sub : String) (how : Settlement) (r : Receipt) (x : Commit State) : Bool :=
  x.before.subs.rows.any fun row =>
    row.underClaim r.messageID sub r.claimID && settledAs q how x row

/-- the tables are those of the same transaction without the receipt -/
def Idle (q : Queue) (sub : String) (how : Settlement) (rs : List Receipt) (r : Receipt)
    (x : Commit State) : Prop :=
  ∃ res, settleGroup q sub how (rs.filter fun y => decide (y ≠ r)) x.env x.before =
    .ok (res, x.after)

section
variable {q : Queue} {env : Env} {s s' : State} {row : Sub} {r : Receipt} {rs : List Receipt}
  {sub : String} {how : Settlement} {res : BatchResult}

def settledTables (q : Queue) (sub : String) (how : Settlement) (rs : List Receipt) (env : Env)
    (s : State) : State :=
  match how with
  | .ack => ackAll env sub rs s
  | .nack reason delay =>
    processNackTopicBatch q env sub (fetchBatchSubStates rs sub s) (truncateErrorMsg reason) delay s

theorem exists_settleGroup (hv : validateSubscriberID sub = .ok ())
    (hsize : validateBatchSize rs.length = .ok ()) :
    ∃ res, settleGroup q sub how rs env s = .ok (res, settledTables q sub how rs env s) := by
  cases how with
  | ack => exact ⟨_, ackTopicBatch_eq hv hsize⟩
  | nack reason delay => exact ⟨_, nackTopicBatch_eq hv hsize⟩

theorem valid_of_settleGroup (h : settleGroup q sub how rs env s = .ok (res, s')) :
    validateSubscriberID sub = .ok () ∧ validateBatchSize rs.length = .ok () := by
  cases how with
  | ack =>
    obtain ⟨hv, hsize, -⟩ := ackTopicBatch_ok h
    exact ⟨hv, hsize⟩
  | nack reason delay =>
    obtain ⟨hv, hsize, -⟩ := nackTopicBatch_ok h
    exact ⟨hv, hsize⟩

theorem settleGroup_ok (h : settleGroup q sub how rs env s = .ok (res, s')) :
    res.succeeded = rs.filter (live s sub) ∧ s' = settledTables q sub how rs env s := by
  obtain ⟨hv, hsize⟩ := valid_of_settleGroup h
  cases how with
  | ack =>
    have he : ackTopicBatch env sub rs s = _ := ackTopicBatch_eq hv hsize
    cases h.symm.trans he
    exact ⟨rfl, rfl⟩
  | nack reason delay =>
    have he : nackTopicBatch q env sub rs reason delay s = _ := nackTopicBatch_eq hv hsize
    cases h.symm.trans he
    exact ⟨rfl, rfl⟩

/-! ### where the claim is live -/

def settleRule (q : Queue) (env : Env) (sub : String) (how : Settlement) :
    Rule Frame Sub DLQRow Receipt QueueError :=
  match how with
  | .ack => ackRule env sub
  | .nack reason delay => nackRule q env sub (truncateErrorMsg reason) delay

theorem settleGroup_settled (hn : (rs.map fun r => (r.messageID, r.claimID)).Nodup)
    (h : settleGroup q sub how rs env s = .ok (res, s')) :
    Settled store (settleRule q env sub how) rs s res.succeeded
      (res.failed.map FailedReceipt.pair) s' := by
  obtain ⟨hv, hsize⟩ := valid_of_settleGroup h
  cases how with
  | ack => exact ackTopicBatch_settled hv hsize h
  | nack reason delay => exact nackTopicBatch_settled hn hv hsize h

theorem hits_settleRule : (settleRule q env sub how).hits rs row = hit sub rs row := by
  cases how with
  | ack | nack => exact hits_eq_hit

theorem deadLetters_eq (s : State) (k : UUID × String) :
    deadLetters s k = (store.letters s).countP
      fun d => decide ((d.originalMessageID, d.subscriberID) = (k.1, some k.2)) := by
  show _ = (s.dlq.map DLQRow.withoutID).countP _
  rw [countP_map]
  rfl

section
variable {msg : Bytes} {d : DLQRow} {m : MessageRow}

theorem nackLetter_exhausted (hc : row.retryCount + 1 > q.resolveMaxRetries)
    (hm : s.tables.parentOf row = some m) :
    nackLetter q env sub msg (store.frame s) row =
      some ⟨UUID.nil, row.messageID, some sub, m.payload, truncateErrorMsg msg, row.retryCount + 1,
        env.now, m.metadata⟩ := by
  have hm' : (store.frame s).msgs.find? row.messageID = some m := hm
  rw [nackLetter, if_pos hc, hm']
  rfl

theorem originalMessageID_nackLetter
    (hd : nackLetter q env sub msg (store.frame s) row = some d) :
    d.originalMessageID = row.messageID := by
  unfold nackLetter at hd
  split at hd
  · obtain ⟨m, -, rfl⟩ := Option.map_eq_some_iff.mp hd
    rfl
  · cases hd

end

theorem settledAs_of_hit (hn : (rs.map fun r => (r.messageID, r.claimID)).Nodup)
    (h : settleGroup q sub how rs env s = .ok (res, s')) (hmem : row ∈ s.subs.rows)
    (hh : hit sub rs row = true) : settledAs q how ⟨env, s, s'⟩ row = true := by
  have happ := (settleGroup_settled hn h).applied
  have hh' : (settleRule q env sub how).hits rs row = true := hits_settleRule.trans hh
  have hrows : s'.subs.rows = (settleRule q env sub how).rowsAfter _ s.subs.rows := happ.rows
  cases how with
  | ack =>
    have hin : row.ack env.now ∈ s'.subs.rows := by
      rw [hrows]
      exact Rule.mem_rowsAfter hmem hh' rfl
    exact decide_eq_true hin
  | nack reason delay =>
    unfold settledAs
    dsimp only
    split
    · rename_i hc
      have hnone : nackSub q env (truncateErrorMsg reason) delay row = none := if_pos hc
      have hgone : s'.subs.find? row.key = none := by
        rw [Table.find?_eq_none, hrows]
        exact Rule.not_mem_rowsAfter (fun x x' => key_nackSub) s.subs.nodup hmem hh' hnone
      have hone : deadLetters s' row.key = deadLetters s row.key + 1 := by
        rw [deadLetters_eq, deadLetters_eq, happ.letters.countP_eq, countP_append]
        congr 1
        obtain ⟨m, hm⟩ := s.tables.exists_parentOf hmem
        have hsub : row.subscriberID = sub := subscriberID_of_hit hh
        refine Rule.countP_lettersOf s.subs.nodup hmem hh' ⟨_, nackLetter_exhausted hc hm, ?_⟩ ?_
        · rw [← hsub]
          exact decide_eq_true rfl
        · intro x hx hhx d hd hw
          obtain ⟨hid, -⟩ := Prod.mk.inj (of_decide_eq_true hw)
          have hsubx : x.subscriberID = sub := subscriberID_of_hit (hits_settleRule.symm.trans hhx)
          exact Prod.ext ((originalMessageID_nackLetter hd).symm.trans hid) (hsubx.trans hsub.symm)
      rw [hgone, hone, decide_eq_true rfl]
      rfl
    · rename_i hc
      have hsome : nackSub q env (truncateErrorMsg reason) delay row = some _ := if_neg hc
      refine decide_eq_true ?_
      rw [hrows]
      exact Rule.mem_rowsAfter hmem hh' hsome

/-- **a receipt takes effect in the transactions that find its claim live** -/
theorem applied_eq_live (hn : (rs.map fun r => (r.messageID, r.claimID)).Nodup) (hr : r ∈ rs)
    (h : settleGroup q sub how rs env s = .ok (res, s')) :
    applied q sub how r ⟨env, s, s'⟩ = live s sub r := by
  rw [Bool.eq_iff_iff, live_iff, liveClaim_eq_some, applied, any_eq_true]
  constructor
  · rintro ⟨row, hmem, ha⟩
    exact ⟨row, hmem, (Bool.and_eq_true_iff.mp ha).1⟩
  · rintro ⟨row, hmem, hu⟩
    refine ⟨row, hmem, ?_⟩
    rw [hu, Bool.true_and]
    exact settledAs_of_hit hn h hmem (hit_iff.mpr ⟨r, hr, hu⟩)

/-! ### where it is not -/

theorem matching_without (hu : row.underClaim r.messageID sub r.claimID = false) :
    matching sub (rs.filter fun y => decide (y ≠ r)) row = matching sub rs row := by
  unfold matching
  rw [filter_filter]
  refine filter_congr fun y _ => ?_
  by_cases he : y = r
  · rw [he, hu, Bool.false_and]
  · rw [decide_eq_true he, Bool.and_true]

theorem settledTables_congr {rs' : List Receipt}
    (h : ∀ row ∈ s.subs.rows, matching sub rs' row = matching sub rs row) :
    settledTables q sub how rs' env s = settledTables q sub how rs env s := by
  have hhit : ∀ row ∈ s.subs.rows, hit sub rs' row = hit sub rs row := by
    intro row hr
    rw [hit, h row hr, hit]
  cases how with
  | ack =>
    show ackAll env sub rs' s = ackAll env sub rs s
    unfold ackAll
    congr 1
    refine Linked.ext rfl (Table.ext ?_)
    exact map_congr_left fun row hr => by rw [hhit row hr]
  | nack reason delay =>
    have hst : fetchBatchSubStates rs' sub s = fetchBatchSubStates rs sub s := by
      unfold fetchBatchSubStates Table.select
      rw [filter_congr hhit]
      refine flatMap_congr fun c hc => ?_
      obtain ⟨row, hr, hcand⟩ := mem_filterMap.mp hc
      have hmem := (mem_filter.mp ((mem_insertionSort _).mp hr)).1
      obtain ⟨m, -, rfl⟩ := Option.map_eq_some_iff.mp hcand
      rw [h row hmem]
    show processNackTopicBatch q env sub (fetchBatchSubStates rs' sub s) _ delay s = _
    rw [hst]
    rfl

/-- **elsewhere the tables are as they would be without the receipt** -/
theorem idle_of_not_live (h : settleGroup q sub how rs env s = .ok (res, s'))
    (hl : live s sub r = false) : Idle q sub how rs r ⟨env, s, s'⟩ := by
  obtain ⟨hv, hsize⟩ := valid_of_settleGroup h
  obtain ⟨-, rfl⟩ := settleGroup_ok h
  have hl' : liveClaim s (r.messageID, sub) ≠ some r.claimID := not_live_iff.mp hl
  have hle := validateBatchSize_of_le (length_filter_le (fun y => decide (y ≠ r)) rs) hsize
  have hsame : settledTables q sub how (rs.filter fun y => decide (y ≠ r)) env s =
      settledTables q sub how rs env s :=
    settledTables_congr fun row hr => matching_without (underClaim_of_not_live hl' row hr)
  rw [Idle, ← hsame]
  exact exists_settleGroup hv hle

/-! ### over a run -/

theorem step_groupOp {k : ReceiptGroupKey}
    (h : settleGroup q k.subscriberID how (receiptGroup rs k) env s = .ok (res, s')) :
    step q env s (groupOp how rs k) = (s', how.events subKey res.succeeded) := by
  have hcommit : step q env s (groupOp how rs k) =
      commit s (settleGroup q k.subscriberID how (receiptGroup rs k) env s)
        fun res => how.events subKey res.succeeded := by
    cases how with
    | ack | nack => rfl
  rw [hcommit, h]
  rfl

theorem ledger (q : Queue) (how : Settlement) (rs : List Receipt) (k : ReceiptGroupKey)
    (hr : r ∈ receiptGroup rs k) :
    Ledger (Reach q) (fun s ops => (runFrom q s ops).1)
      (settleGroup q k.subscriberID how (receiptGroup rs k)) (fun s => live s k.subscriberID r)
      (subKey r) r.claimID where
  others hreach hc := ⟨_, hreach.ran hc⟩
  own {s h t env res s'} hreach ht ha := by
    have hstep := hreach.next env (groupOp how rs k) ht
    rw [step_groupOp ha] at hstep
    refine ⟨_, hstep, fun hl => how.consumed_events ?_⟩
    rw [(settleGroup_ok ha).1]
    exact mem_filter.mpr ⟨hr, hl⟩
  unspent {s h t} hreach hl := by
    obtain ⟨row, hmem, hu⟩ := liveClaim_eq_some.mp (live_iff.mp hl)
    obtain ⟨hkey, hclaim, hst⟩ := underClaim_eq.mp hu
    have hgroup : r.groupKey = k := of_decide_eq_true (mem_filter.mp hr).2
    have hk : subKey r = row.key := by
      rw [hkey, ← hgroup]
      rfl
    have hslot := slot_of_mem (q := q) hmem
    rw [← hk] at hslot
    exact (hreach.sound (subKey r)).fenced.unspent _ _ hslot ⟨phaseOf_eq_processing.mpr hst, hclaim⟩

end
end Topic

/-! ## the loop -/

/-- **A batch acknowledgement that is run again.**  Whatever attempts are rolled back, committed,
or committed and reported as failed, and whatever others commit between them: the effect of a
receipt is applied at most once, and once if its claim was current at the first commit. -/
theorem batch_applied_once (q : Queue) (how : Settlement) (rs : List Receipt)
    (k : ReceiptGroupKey) :
    (∀ s h t (tries : List (Try Channel.Op)), Channel.Reach q s h t →
      Clocked t (tries.flatMap (Try.ops (Channel.groupOp how rs k))) → ∀ r ∈ receiptGroup rs k,
      Once (Channel.applied q how r) (fun s => Channel.live s r)
        (Channel.Idle q how (receiptGroup rs k) r)
        (withBatchRetry (fun s ops => (Channel.runFrom q s ops).1)
          (Channel.settleGroup q how (receiptGroup rs k)) tries s).commits) ∧
    (∀ s h t (tries : List (Try Topic.Op)), Topic.Reach q s h t →
      Clocked t (tries.flatMap (Try.ops (Topic.groupOp how rs k))) → ∀ r ∈ receiptGroup rs k,
      Once (Topic.applied q k.subscriberID how r) (fun s => Topic.live s k.subscriberID r)
        (Topic.Idle q k.subscriberID how (receiptGroup rs k) r)
        (withBatchRetry (fun s ops => (Topic.runFrom q s ops).1)
          (Topic.settleGroup q k.subscriberID how (receiptGroup rs k)) tries s).commits) := by
  constructor
  · intro s h t tries hr hc r hmem
    exact (Channel.ledger q how rs k hmem).once
      (fun ha => Channel.applied_eq_live (nodup_receiptGroup rs k) hmem ha)
      Channel.idle_of_not_live hr hc
  · intro s h t tries hr hc r hmem
    exact (Topic.ledger q how rs k hmem).once
      (fun ha => Topic.applied_eq_live (nodup_receiptGroup rs k) hmem ha)
      Topic.idle_of_not_live hr hc

def oneDelivered : Channel.State :=
  (Channel.runFrom (Queue.counting 3) Channel.State.init
    [(Env.bare 0, .publish ⟨100, [], none⟩), (Env.bare 0, .receive 1000)]).1

/-- two attempts: the commit of the first is reported as a failure -/
def ambiguousTwice {ω : Type} : List (Try ω) :=
  [⟨[], Env.bare 1, .unconfirmed, false⟩, ⟨[], Env.bare 2, .committed, false⟩]

/-- a topic that has delivered its one message to its one subscriber, under the claim 2 -/
def oneDeliveredTopic : Topic.State :=
  (Topic.runFrom (Queue.counting 3) Topic.State.init
    [(Env.bare 0, .subscribe "a"), (Env.bare 0, .publish ⟨100, [], none⟩),
      (Env.bare 0, .receive "a" 1000)]).1

/-- both attempts commit, and the first of them takes effect -/
theorem batch_applied_once_ambiguous :
    let r : Receipt := ⟨100, 1, "orders", some .channel, ""⟩
    let r' : Receipt := ⟨100, 2, "orders", some .pubsub, "a"⟩
    let commits := (withBatchRetry (fun s ops => (Channel.runFrom (Queue.counting 3) s ops).1)
      (Channel.settleGroup (Queue.counting 3) (.nack [] 0) (receiptGroup [r] r.groupKey))
      ambiguousTwice oneDelivered).commits
    let commits' := (withBatchRetry (fun s ops => (Topic.runFrom (Queue.counting 3) s ops).1)
      (Topic.settleGroup (Queue.counting 3) "a" .ack (receiptGroup [r'] r'.groupKey))
      ambiguousTwice oneDeliveredTopic).commits
    (commits.length = 2 ∧
      commits.countP (Channel.applied (Queue.counting 3) (.nack [] 0) r) = 1) ∧
    commits'.length = 2 ∧ commits'.countP (Topic.applied (Queue.counting 3) "a" .ack r') = 1 := by
  refine ⟨⟨by decide, ?_⟩, by decide, ?_⟩
  · have hr : Channel.Reach (Queue.counting 3) oneDelivered _ 0 :=
      (Channel.Reach.init 0).ran ⟨Int.le_refl _, Int.le_refl _, trivial⟩
    have honce := (batch_applied_once (Queue.counting 3) (.nack [] 0)
      [⟨100, 1, "orders", some .channel, ""⟩] ⟨some .channel, "orders", ""⟩).1 _ _ _ ambiguousTwice
      hr ⟨by decide, by decide, trivial⟩ ⟨100, 1, "orders", some .channel, ""⟩ (by decide)
    exact honce.first _ _ rfl (by decide)
  · have hr : Topic.Reach (Queue.counting 3) oneDeliveredTopic _ 0 :=
      (Topic.Reach.init 0).ran ⟨Int.le_refl _, Int.le_refl _, Int.le_refl _, trivial⟩
    have honce := (batch_applied_once (Queue.counting 3) .ack
      [⟨100, 2, "orders", some .pubsub, "a"⟩] ⟨some .pubsub, "orders", "a"⟩).2 _ _ _ ambiguousTwice
      hr ⟨by decide, by decide, trivial⟩ ⟨100, 2, "orders", some .pubsub, "a"⟩ (by decide)
    exact honce.first _ _ rfl (by decide)

end PgQueue
