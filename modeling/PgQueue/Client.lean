import PgQueue.Channel.Model
import PgQueue.Topic.Model
import PgQueue.Relational.Fenced

/-!
# The client: receipts of any queue

The calls that take receipts dispatch on the queue a receipt is bound to.

* `Database`               the queues by name;
* `ack`, `nack`            one receipt;
* `groupReceiptsByQueue`   the groups of a batch: a queue and, for a topic, a subscriber;
* `ackBatch`, `nackBatch`  one transaction per group, in the iteration order of the map.

A call to a queue that was closed, and the retries of a transaction that was rolled back, are
left out.
-/

namespace PgQueue
open Relational List

structure Database where
  channels : String → Option (Queue × Channel.State)
  topics : String → Option (Queue × Topic.State)

namespace Database

/-- `getQueueMetadata` for a channel, with its tables -/
def channel (db : Database) (name : String) : Except QueueError (Queue × Channel.State) :=
  match db.channels name with
  | none => .error .channelNotFound
  | some x => .ok x

def topic (db : Database) (name : String) : Except QueueError (Queue × Topic.State) :=
  match db.topics name with
  | none => .error .topicNotFound
  | some x => .ok x

def setChannel (db : Database) (name : String) (q : Queue) (s : Channel.State) : Database :=
  { db with channels := Function.update db.channels name (some (q, s)) }

def setTopic (db : Database) (name : String) (q : Queue) (s : Topic.State) : Database :=
  { db with topics := Function.update db.topics name (some (q, s)) }

section
variable {db : Database} {name : String} {q q' : Queue}

theorem channel_setChannel {s : Channel.State} : (db.setChannel name q s).channel name = .ok (q, s) := by
  unfold channel setChannel
  dsimp only
  rw [Function.update_self]

theorem topic_setTopic {s : Topic.State} : (db.setTopic name q s).topic name = .ok (q, s) := by
  unfold topic setTopic
  dsimp only
  rw [Function.update_self]

theorem setChannel_setChannel {s s' : Channel.State} :
    (db.setChannel name q s).setChannel name q' s' = db.setChannel name q' s' := by
  unfold setChannel
  rw [Function.update_idem]

theorem setTopic_setTopic {s s' : Topic.State} :
    (db.setTopic name q s).setTopic name q' s' = db.setTopic name q' s' := by
  unfold setTopic
  rw [Function.update_idem]

theorem setChannel_self {s : Channel.State} (h : db.channels name = some (q, s)) :
    db.setChannel name q s = db := by
  unfold setChannel
  rw [← h, Function.update_eq_self]

theorem setTopic_self {s : Topic.State} (h : db.topics name = some (q, s)) :
    db.setTopic name q s = db := by
  unfold setTopic
  rw [← h, Function.update_eq_self]

theorem channel_eq_ok {x : Queue × Channel.State} :
    db.channel name = .ok x ↔ db.channels name = some x := by
  unfold channel
  cases db.channels name <;> simp

theorem topic_eq_ok {x : Queue × Topic.State} : db.topic name = .ok x ↔ db.topics name = some x := by
  unfold topic
  cases db.topics name <;> simp

end
end Database

/-! ## one receipt -/

def ack (env : Env) (r : Receipt) (db : Database) : Except QueueError Database :=
  match r.queueType with
  | some .channel => do
    let (q, s) ← db.channel r.queueName
    let s' ← Channel.ackChannel env r s
    return db.setChannel r.queueName q s'
  | some .pubsub => do
    validateSubscriberID r.subscriberID
    let (q, s) ← db.topic r.queueName
    let s' ← Topic.ackTopic env r.subscriberID r s
    return db.setTopic r.queueName q s'
  | none => .error .receiptMissingQueueType

def nack (env : Env) (reason : Bytes) (delay : Duration) (r : Receipt) (db : Database) :
    Except QueueError Database :=
  match r.queueType with
  | some .channel => do
    let (q, s) ← db.channel r.queueName
    let s' ← Channel.nackChannelImpl q env r reason delay s
    return db.setChannel r.queueName q s'
  | some .pubsub => do
    validateSubscriberID r.subscriberID
    let (q, s) ← db.topic r.queueName
    let s' ← Topic.nackTopicImpl q env r.subscriberID r reason delay s
    return db.setTopic r.queueName q s'
  | none => .error .receiptMissingQueueType

/-! ## groups -/

/-- the entries of the map of `groupReceiptsByQueue` -/
abbrev ReceiptGroups := List (ReceiptGroupKey × List Receipt)

/-- `groups[k] = append(groups[k], r)` -/
def ReceiptGroups.add (k : ReceiptGroupKey) (r : Receipt) : ReceiptGroups → ReceiptGroups
  | [] => [(k, [r])]
  | (k', rs) :: groups =>
    if k' = k then (k', rs ++ [r]) :: groups else (k', rs) :: ReceiptGroups.add k r groups

def groupLoop (seen : List Receipt) (groups : ReceiptGroups) :
    List Receipt → Except QueueError ReceiptGroups
  | [] => .ok groups
  | r :: rs =>
    if r.queueType = none then .error .receiptMissingQueueType
    else if r ∈ seen then groupLoop seen groups rs
    else groupLoop (r :: seen) (ReceiptGroups.add r.groupKey r groups) rs

def groupReceiptsByQueue (rs : List Receipt) : Except QueueError ReceiptGroups := groupLoop [] [] rs

/-- the order in which `range` yields the entries of a map: any -/
structure MapOrder where
  range : ReceiptGroups → ReceiptGroups
  perm : ∀ groups, (range groups).Perm groups

/-! ## batches -/

/-- one transaction of `AckBatch`; a group is not empty -/
def ackGroup (env : Env) (k : ReceiptGroupKey) (rs : List Receipt) (db : Database) :
    Except QueueError (BatchResult × Database) :=
  match k.queueType with
  | some .channel => do
    validateBatchSize rs.length
    let (q, s) ← db.channel k.queueName
    let (res, s') ← Channel.ackChannelBatch env rs s
    return (res, db.setChannel k.queueName q s')
  | some .pubsub => do
    validateSubscriberID k.subscriberID
    validateBatchSize rs.length
    let (q, s) ← db.topic k.queueName
    let (res, s') ← Topic.ackTopicBatch env k.subscriberID rs s
    return (res, db.setTopic k.queueName q s')
  | none => .ok (⟨[], []⟩, db)

def nackGroup (env : Env) (reason : Bytes) (delay : Duration) (k : ReceiptGroupKey)
    (rs : List Receipt) (db : Database) : Except QueueError (BatchResult × Database) :=
  match k.queueType with
  | some .channel => do
    validateBatchSize rs.length
    let (q, s) ← db.channel k.queueName
    let (res, s') ← Channel.nackChannelBatch q env rs reason delay s
    return (res, db.setChannel k.queueName q s')
  | some .pubsub => do
    validateSubscriberID k.subscriberID
    validateBatchSize rs.length
    let (q, s) ← db.topic k.queueName
    let (res, s') ← Topic.nackTopicBatch q env k.subscriberID rs reason delay s
    return (res, db.setTopic k.queueName q s')
  | none => .ok (⟨[], []⟩, db)

/-- what a batch call returns next to the tables: the result, and the errors it joins -/
structure BatchReturn where
  result : BatchResult
  errs : List QueueError
deriving DecidableEq, Repr

def BatchResult.append (a b : BatchResult) : BatchResult :=
  ⟨a.succeeded ++ b.succeeded, a.failed ++ b.failed⟩

/-- the loop over the groups: one that fails leaves its error and nothing else -/
def eachGroup (call : ReceiptGroupKey → List Receipt → Database →
      Except QueueError (BatchResult × Database)) :
    ReceiptGroups → Database → BatchReturn × Database
  | [], db => (⟨⟨[], []⟩, []⟩, db)
  | (k, rs) :: groups, db =>
    match call k rs db with
    | .error e =>
      let (ret, db') := eachGroup call groups db
      ({ ret with errs := e :: ret.errs }, db')
    | .ok (res, db₁) =>
      let (ret, db') := eachGroup call groups db₁
      (⟨res.append ret.result, ret.errs⟩, db')

/-- `envs k` is what the transaction of the group `k` sees -/
def ackBatch (order : MapOrder) (envs : ReceiptGroupKey → Env) (rs : List Receipt)
    (db : Database) : Except QueueError (BatchReturn × Database) := do
  let groups ← groupReceiptsByQueue rs
  return eachGroup (fun k => ackGroup (envs k) k) (order.range groups) db

def nackBatch (order : MapOrder) (envs : ReceiptGroupKey → Env) (reason : Bytes) (delay : Duration)
    (rs : List Receipt) (db : Database) : Except QueueError (BatchReturn × Database) := do
  let groups ← groupReceiptsByQueue rs
  return eachGroup (fun k => nackGroup (envs k) reason delay k) (order.range groups) db

/-! ## the groups are those of the receipts -/

def groupKeys (rs : List Receipt) : List ReceiptGroupKey := firstBy id (rs.map Receipt.groupKey)

def groupsOf (rs : List Receipt) : ReceiptGroups :=
  (groupKeys rs).map fun k => (k, receiptGroup rs k)

section
variable {rs : List Receipt} {r : Receipt} {k : ReceiptGroupKey}

theorem mem_groupKeys : k ∈ groupKeys rs ↔ ∃ r ∈ rs, r.groupKey = k := by
  unfold groupKeys
  rw [mem_firstBy_id, mem_map]

theorem nodup_groupKeys (rs : List Receipt) : (groupKeys rs).Nodup := by
  have h := nodup_firstBy id (rs.map Receipt.groupKey)
  rwa [map_id] at h

theorem mem_receiptGroup : r ∈ receiptGroup rs k ↔ r ∈ rs ∧ r.groupKey = k := by
  unfold receiptGroup
  rw [mem_filter, mem_firstBy_id, decide_eq_true_eq]

theorem receiptGroup_concat (h : r ∉ rs) :
    receiptGroup (rs ++ [r]) k =
      if k = r.groupKey then receiptGroup rs k ++ [r] else receiptGroup rs k := by
  unfold receiptGroup
  rw [firstBy_concat, if_neg (by rwa [map_id]), filter_append]
  by_cases hk : k = r.groupKey
  · rw [if_pos hk, filter_cons_of_pos (by simp [hk]), filter_nil]
  · rw [if_neg hk, filter_cons_of_neg (by simp [Ne.symm hk]), filter_nil,
      append_nil]

theorem add_groups {g : ReceiptGroupKey → List Receipt} {ks : List ReceiptGroupKey}
    (hn : ks.Nodup) :
    ReceiptGroups.add k r (ks.map fun k' => (k', g k')) =
      (ks.map fun k' => (k', if k' = k then g k' ++ [r] else g k')) ++
        if k ∈ ks then [] else [(k, [r])] := by
  induction ks with
  | nil => rfl
  | cons a ks ih =>
    obtain ⟨ha, hn⟩ := nodup_cons.mp hn
    rw [map_cons, map_cons, ReceiptGroups.add]
    by_cases hk : a = k
    · subst hk
      rw [if_pos rfl, if_pos rfl, if_pos mem_cons_self, append_nil]
      refine congrArg _ (map_congr_left fun k' hk' => ?_)
      rw [if_neg (ne_of_mem_of_not_mem hk' ha)]
    · have hmem : k ∈ a :: ks ↔ k ∈ ks := by simp [Ne.symm hk]
      rw [if_neg hk, if_neg hk, ih hn, cons_append]
      simp only [hmem]

theorem add_groupsOf (h : r ∉ rs) :
    ReceiptGroups.add r.groupKey r (groupsOf rs) = groupsOf (rs ++ [r]) := by
  have hkeys : groupKeys (rs ++ [r]) =
      if r.groupKey ∈ groupKeys rs then groupKeys rs else groupKeys rs ++ [r.groupKey] := by
    have hmem : r.groupKey ∈ groupKeys rs ↔ r.groupKey ∈ (rs.map Receipt.groupKey).map id := by
      rw [mem_groupKeys, map_id, mem_map]
    unfold groupKeys at hmem ⊢
    rw [map_append, map_cons, map_nil, firstBy_concat]
    simp only [hmem, id_eq]
  unfold groupsOf
  rw [add_groups (nodup_groupKeys rs), hkeys]
  simp only [receiptGroup_concat h]
  by_cases hk : r.groupKey ∈ groupKeys rs
  · rw [if_pos hk, if_pos hk, append_nil]
  · have hnil : receiptGroup rs r.groupKey = [] := by
      rw [eq_nil_iff_forall_not_mem]
      intro x hx
      obtain ⟨hx, he⟩ := mem_receiptGroup.mp hx
      exact hk (mem_groupKeys.mpr ⟨x, hx, he⟩)
    rw [if_neg hk, if_neg hk, map_append, map_cons, map_nil, if_pos rfl, hnil]
    rfl

theorem groupsOf_concat (h : r ∈ rs) : groupsOf (rs ++ [r]) = groupsOf rs := by
  have hid : firstBy id (rs ++ [r]) = firstBy id rs := by
    rw [firstBy_concat, if_pos (by rwa [map_id])]
  have hkeys : groupKeys (rs ++ [r]) = groupKeys rs := by
    unfold groupKeys
    rw [map_append, map_cons, map_nil, firstBy_concat, if_pos]
    rw [map_id]
    exact mem_map_of_mem h
  unfold groupsOf receiptGroup
  rw [hid, hkeys]

theorem groupLoop_eq {seen pre : List Receipt} (hseen : ∀ r, r ∈ seen ↔ r ∈ pre)
    (rs : List Receipt) :
    groupLoop seen (groupsOf pre) rs =
      if ∃ r ∈ rs, r.queueType = none then .error .receiptMissingQueueType
      else .ok (groupsOf (pre ++ rs)) := by
  induction rs generalizing seen pre with
  | nil => simp [groupLoop]
  | cons r rs ih =>
    rw [groupLoop]
    by_cases hq : r.queueType = none
    · rw [if_pos hq, if_pos ⟨r, mem_cons_self, hq⟩]
    · have hex : (∃ x ∈ r :: rs, x.queueType = none) ↔ ∃ x ∈ rs, x.queueType = none := by
        simp [hq]
      rw [if_neg hq]
      simp only [hex]
      rw [append_cons pre r rs]
      by_cases hr : r ∈ seen
      · have hpre := (hseen r).mp hr
        rw [if_pos hr, ← groupsOf_concat hpre, ih]
        intro x
        rw [mem_append, mem_singleton, hseen]
        exact ⟨Or.inl, fun h => h.elim id fun he => he ▸ hpre⟩
      · have hpre : r ∉ pre := fun h => hr ((hseen r).mpr h)
        rw [if_neg hr, add_groupsOf hpre, ih]
        intro x
        rw [mem_cons, mem_append, mem_singleton, hseen, or_comm]

/-- **the groups of a batch are the receipts of each queue and subscriber** -/
theorem groupReceiptsByQueue_eq (rs : List Receipt) :
    groupReceiptsByQueue rs =
      if ∃ r ∈ rs, r.queueType = none then .error .receiptMissingQueueType
      else .ok (groupsOf rs) :=
  groupLoop_eq (fun _ => Iff.rfl : ∀ r, r ∈ [] ↔ r ∈ []) rs

end

end PgQueue
