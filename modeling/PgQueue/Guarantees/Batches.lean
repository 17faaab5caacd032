import PgQueue.Channel.Batches
import PgQueue.Topic.Batches
import PgQueue.Topic.Run
import PgQueue.Client

/-!
# A batch call refines the single calls

* `Database.Same`     equal tables, up to the ids the dead letters have drawn;
* `Refines`           a batch call told each receipt what its single call is told, and left the
                      tables of these calls: group by group, the receipts that succeed first;
* `KeepsOrder`        the receipts of the result are in the order of the input, for each value of
                      a function of the receipt;
* `Contract`          both, whatever the order the groups are run in.

`batch_contract`: **`AckBatch` and `NackBatch` refine `Ack` and `Nack`, and keep the input order
within a group; they keep it within a queue exactly if no queue is named with two subscribers.**
-/

namespace PgQueue
open Relational
open List hiding after

/-! ## what a result says -/

def BatchResult.receipts (res : BatchResult) : List Receipt :=
  res.succeeded ++ res.failed.map FailedReceipt.receipt

def BatchResult.answers (res : BatchResult) : List (Receipt × Option QueueError) :=
  res.succeeded.map (fun r => (r, none)) ++ res.failed.map (fun f => (f.receipt, some f.reason))

/-- the single calls: the groups one after another, in a group the receipts that succeeded first -/
def BatchResult.calls (res : BatchResult) (groups : List ReceiptGroupKey) : List Receipt :=
  groups.flatMap fun k => res.receipts.filter fun r => decide (r.groupKey = k)

def Receipt.queue (r : Receipt) : Option QueueType × String := (r.queueType, r.queueName)

/-- the order of the input is kept among the receipts with one value of `f` -/
def KeepsOrder {κ : Type} [DecidableEq κ] (f : Receipt → κ) (rs : List Receipt)
    (res : BatchResult) : Prop :=
  ∀ k, (res.succeeded.filter fun r => decide (f r = k)).Sublist (firstBy id rs) ∧
    ((res.failed.map FailedReceipt.receipt).filter fun r => decide (f r = k)).Sublist (firstBy id rs)

/-! ## equal tables -/

def SameNamed {σ φ ρ δ : Type} (st : Store σ φ ρ δ) (a b : String → Option (Queue × σ)) : Prop :=
  ∀ name, Option.Rel (fun x y => x.1 = y.1 ∧ st.Same x.2 y.2) (a name) (b name)

structure Database.Same (db db' : Database) : Prop where
  channels : SameNamed Channel.store db.channels db'.channels
  topics : SameNamed Topic.store db.topics db'.topics

structure Refines (single : Receipt → Database → Except QueueError Database)
    (groups : List ReceiptGroupKey) (rs : List Receipt) (db : Database) (res : BatchResult)
    (db' : Database) : Prop where
  once : res.receipts.Perm (firstBy id rs)
  answers : (sequence single (res.calls groups) db).1.Perm res.answers
  tables : db'.Same (sequence single (res.calls groups) db).2

/-- no queue is named with two subscribers -/
def OneSubscriber (rs : List Receipt) : Prop :=
  ∀ r ∈ rs, ∀ r' ∈ rs, r.queue = r'.queue → r.subscriberID = r'.subscriberID

/-- there are databases in which every group commits -/
structure Committable (rs : List Receipt) : Prop where
  bound : ∀ r ∈ rs, r.queueType ≠ none
  subscriber : ∀ r ∈ rs, r.queueType = some .pubsub → validateSubscriberID r.subscriberID = .ok ()
  size : ∀ k, validateBatchSize (receiptGroup rs k).length = .ok ()

/-- the contract of both batch calls, for the calls of which every group commits; `f` says among
which receipts the order is kept -/
structure Contract {κ : Type} [DecidableEq κ] (f : Receipt → κ) (rs : List Receipt) : Prop where
  ack : ∀ order envs db ret db', ackBatch order envs rs db = .ok (ret, db') → ret.errs = [] →
    let single := fun r : Receipt => PgQueue.ack (envs r.groupKey) r
    Refines single ((order.range (groupsOf rs)).map Prod.fst) rs db ret.result db' ∧
      KeepsOrder f rs ret.result ∧
      -- at one clock, the single calls may come in any order
      ((∀ k k', (envs k).now = (envs k').now) →
        ∀ calls, calls.Perm (firstBy id rs) → db'.Same (sequence single calls db).2)
  nack : ∀ order envs reason delay db ret db',
    nackBatch order envs reason delay rs db = .ok (ret, db') → ret.errs = [] →
    let single := fun r : Receipt => PgQueue.nack (envs r.groupKey) reason delay r
    Refines single ((order.range (groupsOf rs)).map Prod.fst) rs db ret.result db' ∧
      KeepsOrder f rs ret.result

/-! ## one group -/

section
variable {σ φ ρ δ : Type} {st : Store σ φ ρ δ} {a b : String → Option (Queue × σ)} {name : String}
  {q : Queue} {s t : σ}

theorem SameNamed.refl (st : Store σ φ ρ δ) (a : String → Option (Queue × σ)) :
    SameNamed st a a := by
  intro name
  cases a name with
  | none => exact .none
  | some x => exact .some ⟨rfl, Store.Same.refl _ _⟩

theorem SameNamed.update (h : SameNamed st a b) (hs : st.Same s t) :
    SameNamed st (Function.update a name (some (q, s))) (Function.update b name (some (q, t))) := by
  intro n
  by_cases hn : n = name
  · subst hn
    rw [Function.update_self, Function.update_self]
    exact .some ⟨rfl, hs⟩
  · rw [Function.update_of_ne hn, Function.update_of_ne hn]
    exact h n

theorem SameNamed.lookup (h : SameNamed st a b) (ha : a name = some (q, s)) :
    ∃ t, b name = some (q, t) ∧ st.Same s t := by
  have hr := h name
  rw [ha] at hr
  cases hb : b name with
  | none =>
    rw [hb] at hr
    cases hr
  | some x =>
    rw [hb] at hr
    obtain ⟨hq, hs⟩ : q = x.1 ∧ st.Same s x.2 := by cases hr; assumption
    exact ⟨x.2, by rw [hq], hs⟩

end

theorem Database.Same.refl (db : Database) : db.Same db := ⟨SameNamed.refl _ _, SameNamed.refl _ _⟩

/-- what one group's transaction owes: the single calls, from equal tables -/
structure GroupRefines (single : Receipt → Database → Except QueueError Database)
    (rs : List Receipt) (db₂ : Database) (res : BatchResult) (db' : Database) : Prop where
  answers : (sequence single res.receipts db₂).1 = res.answers
  tables : db'.Same (sequence single res.receipts db₂).2
  split : ∃ p : Receipt → Bool, res.succeeded = rs.filter p ∧
    res.failed.map FailedReceipt.receipt = rs.filter fun r => !p r

section
variable {rs : List Receipt} {res : BatchResult} {db db' db₂ : Database}
  {single : Receipt → Database → Except QueueError Database}

theorem GroupRefines.of_store {σ φ ρ : Type} {st : Store σ φ ρ DLQRow}
    {rule : Rule φ ρ DLQRow Receipt QueueError} {on : Receipt → σ → Except QueueError σ}
    {put : σ → Database} {s s' t : σ}
    (hput : ∀ r ∈ rs, ∀ u, single r (put u) = (on r u).map put) (hserves : Serves st rule on)
    (hset : Settled st rule rs s res.succeeded (res.failed.map FailedReceipt.pair) s')
    (hd : rule.Distinct rs) (hst : st.Same s t) (hdb : ∀ u, st.Same s' u → db'.Same (put u)) :
    GroupRefines single rs (put t) res db' := by
  have hbad : (res.failed.map FailedReceipt.pair).map Prod.fst =
      res.failed.map FailedReceipt.receipt := by
    rw [map_map]
    rfl
  have hfail : res.failed.map FailedReceipt.receipt =
      rs.filter fun r => !rule.live (st.rows s) r := by
    rw [← hbad, hset.bad, map_map]
    exact map_id _
  obtain ⟨hans, hsame⟩ := hserves.refines hset hd hst
  rw [hbad] at hans hsame
  have hlift : sequence single res.receipts (put t) = _ :=
    sequence_lift (fun r hr => hput r ?_) t
  · refine ⟨?_, ?_, _, hset.ok, hfail⟩
    · rw [hlift]
      show (sequence on (res.succeeded ++ _) t).1 = _
      rw [hans, map_map]
      rfl
    · rw [hlift]
      exact hdb _ hsame
  · rcases mem_append.mp hr with hr | hr
    · rw [hset.ok] at hr
      exact (mem_filter.mp hr).1
    · rw [hfail] at hr
      exact (mem_filter.mp hr).1

/-! ## the four kinds of group -/

section
variable {env : Env} {k : ReceiptGroupKey} {q : Queue} {r : Receipt} {reason : Bytes}
  {delay : Duration} {name : String} {x : BatchResult × Database}

theorem map_setChannel (x : Except QueueError Channel.State) {u : Channel.State} :
    (x.bind fun s' => .ok ((db.setChannel name q u).setChannel name q s')) =
      x.map (db.setChannel name q) := by
  cases x with
  | error e => rfl
  | ok s' => exact congrArg Except.ok Database.setChannel_setChannel

theorem map_setTopic (x : Except QueueError Topic.State) {u : Topic.State} :
    (x.bind fun s' => .ok ((db.setTopic name q u).setTopic name q s')) =
      x.map (db.setTopic name q) := by
  cases x with
  | error e => rfl
  | ok s' => exact congrArg Except.ok Database.setTopic_setTopic

theorem ack_channel (hr : r.groupKey = k) (hk : k.queueType = some .channel) (u : Channel.State) :
    ack env r (db.setChannel k.queueName q u) =
      (Channel.ackChannel env r u).map (db.setChannel k.queueName q) := by
  subst hr
  unfold ack
  rw [show r.queueType = some .channel from hk]
  dsimp only [Receipt.groupKey]
  rw [Database.channel_setChannel]
  exact map_setChannel _

theorem nack_channel (hr : r.groupKey = k) (hk : k.queueType = some .channel) (u : Channel.State) :
    nack env reason delay r (db.setChannel k.queueName q u) =
      (Channel.nackChannelImpl q env r reason delay u).map (db.setChannel k.queueName q) := by
  subst hr
  unfold nack
  rw [show r.queueType = some .channel from hk]
  dsimp only [Receipt.groupKey]
  rw [Database.channel_setChannel]
  exact map_setChannel _

theorem ack_topic (hr : r.groupKey = k) (hk : k.queueType = some .pubsub)
    (hv : validateSubscriberID k.subscriberID = .ok ()) (u : Topic.State) :
    ack env r (db.setTopic k.queueName q u) =
      (Topic.ackTopic env k.subscriberID r u).map (db.setTopic k.queueName q) := by
  subst hr
  unfold ack
  rw [show r.queueType = some .pubsub from hk]
  dsimp only [Receipt.groupKey] at hv ⊢
  rw [hv, Database.topic_setTopic]
  exact map_setTopic _

theorem nack_topic (hr : r.groupKey = k) (hk : k.queueType = some .pubsub)
    (hv : validateSubscriberID k.subscriberID = .ok ()) (u : Topic.State) :
    nack env reason delay r (db.setTopic k.queueName q u) =
      (Topic.nackTopicImpl q env k.subscriberID r reason delay u).map (db.setTopic k.queueName q) := by
  subst hr
  unfold nack
  rw [show r.queueType = some .pubsub from hk]
  dsimp only [Receipt.groupKey] at hv ⊢
  rw [hv, Database.topic_setTopic]
  exact map_setTopic _

theorem ok_of_bind {ε α β : Type} {x : Except ε α} {f : α → Except ε β} {b : β}
    (h : x.bind f = .ok b) : ∃ a, x = .ok a ∧ f a = .ok b := by
  cases x with
  | error e => cases h
  | ok a => exact ⟨a, rfl, h⟩

section
variable (hk : k.queueType ≠ none) (hrs : ∀ r ∈ rs, r.groupKey = k)
  (hn : (rs.map fun r => (r.messageID, r.claimID)).Nodup) (hdb : db.Same db₂)
include hk hrs hn hdb

theorem ackGroup_refines (hsingle : ∀ r, r.groupKey = k → single r = ack env r)
    (h : ackGroup env k rs db = .ok (res, db')) : GroupRefines single rs db₂ res db' := by
  unfold ackGroup at h
  split at h
  · rename_i hch
    obtain ⟨-, -, h⟩ := ok_of_bind h
    obtain ⟨⟨q, s⟩, hc, h⟩ := ok_of_bind h
    obtain ⟨⟨res', s'⟩, hb, h⟩ := ok_of_bind h
    cases h
    obtain ⟨t, ht, hst⟩ := hdb.channels.lookup (Database.channel_eq_ok.mp hc)
    rw [← Database.setChannel_self ht]
    refine .of_store (fun r hr u => ?_) Channel.ackChannel_serves (Channel.ackChannelBatch_settled hb)
      (Channel.distinct_of_nodup (fun _ _ => rfl) hn) hst
      fun u hu => ⟨hdb.channels.update hu, hdb.topics⟩
    rw [hsingle r (hrs r hr)]
    exact ack_channel (hrs r hr) hch u
  · rename_i hch
    obtain ⟨⟨⟩, hv, h⟩ := ok_of_bind h
    obtain ⟨⟨⟩, hsize, h⟩ := ok_of_bind h
    obtain ⟨⟨q, s⟩, hc, h⟩ := ok_of_bind h
    obtain ⟨⟨res', s'⟩, hb, h⟩ := ok_of_bind h
    cases h
    obtain ⟨t, ht, hst⟩ := hdb.topics.lookup (Database.topic_eq_ok.mp hc)
    rw [← Database.setTopic_self ht]
    refine .of_store (fun r hr u => ?_) (Topic.ackTopic_serves hv)
      (Topic.ackTopicBatch_settled hv hsize hb)
      (Topic.distinct_of_nodup (fun _ _ => rfl) hn) hst
      fun u hu => ⟨hdb.channels, hdb.topics.update hu⟩
    rw [hsingle r (hrs r hr)]
    exact ack_topic (hrs r hr) hch hv u
  · rename_i hch
    exact absurd hch hk

theorem nackGroup_refines (hsingle : ∀ r, r.groupKey = k → single r = nack env reason delay r)
    (h : nackGroup env reason delay k rs db = .ok (res, db')) :
    GroupRefines single rs db₂ res db' := by
  unfold nackGroup at h
  split at h
  · rename_i hch
    obtain ⟨-, -, h⟩ := ok_of_bind h
    obtain ⟨⟨q, s⟩, hc, h⟩ := ok_of_bind h
    obtain ⟨⟨res', s'⟩, hb, h⟩ := ok_of_bind h
    cases h
    obtain ⟨t, ht, hst⟩ := hdb.channels.lookup (Database.channel_eq_ok.mp hc)
    rw [← Database.setChannel_self ht]
    refine .of_store (fun r hr u => ?_) Channel.nackChannelImpl_serves
      (Channel.nackChannelBatch_settled hn hb)
      (Channel.distinct_of_nodup (fun _ _ => rfl) hn) hst
      fun u hu => ⟨hdb.channels.update hu, hdb.topics⟩
    rw [hsingle r (hrs r hr)]
    exact nack_channel (hrs r hr) hch u
  · rename_i hch
    obtain ⟨⟨⟩, hv, h⟩ := ok_of_bind h
    obtain ⟨⟨⟩, hsize, h⟩ := ok_of_bind h
    obtain ⟨⟨q, s⟩, hc, h⟩ := ok_of_bind h
    obtain ⟨⟨res', s'⟩, hb, h⟩ := ok_of_bind h
    cases h
    obtain ⟨t, ht, hst⟩ := hdb.topics.lookup (Database.topic_eq_ok.mp hc)
    rw [← Database.setTopic_self ht]
    refine .of_store (fun r hr u => ?_) (Topic.nackTopicImpl_serves hv)
      (Topic.nackTopicBatch_settled hn hv hsize hb)
      (Topic.distinct_of_nodup (fun _ _ => rfl) hn) hst
      fun u hu => ⟨hdb.channels, hdb.topics.update hu⟩
    rw [hsingle r (hrs r hr)]
    exact nack_topic (hrs r hr) hch hv u
  · rename_i hch
    exact absurd hch hk

end
end

/-! ## the loop over the groups -/

section
variable {k : ReceiptGroupKey} {ks : List ReceiptGroupKey} {a b : BatchResult} {l l' : List Receipt}

theorem filter_append_left (hl : ∀ r ∈ l, r.groupKey = k) (hl' : ∀ r ∈ l', r.groupKey ≠ k) :
    ((l ++ l').filter fun r => decide (r.groupKey = k)) = l := by
  rw [filter_append, filter_eq_self.mpr fun r hr => decide_eq_true (hl r hr),
    filter_eq_nil_iff.mpr fun r hr => by simp [hl' r hr], append_nil]

theorem filter_append_right {k' : ReceiptGroupKey} (hne : k' ≠ k) (hl : ∀ r ∈ l, r.groupKey = k) :
    ((l ++ l').filter fun r => decide (r.groupKey = k')) =
      l'.filter fun r => decide (r.groupKey = k') := by
  rw [filter_append, filter_eq_nil_iff.mpr fun r hr => by simp [hl r hr, hne.symm],
    nil_append]

theorem mem_receipts {r : Receipt} :
    r ∈ a.receipts ↔ r ∈ a.succeeded ∨ r ∈ a.failed.map FailedReceipt.receipt := mem_append

theorem receipts_append :
    (a.append b).receipts =
      (a.succeeded ++ b.succeeded) ++ (a.failed.map FailedReceipt.receipt ++
        b.failed.map FailedReceipt.receipt) := by
  unfold BatchResult.receipts BatchResult.append
  rw [map_append]

theorem perm_append_append {α : Type} (a b c d : List α) :
    ((a ++ b) ++ (c ++ d)).Perm ((a ++ c) ++ (b ++ d)) := by
  rw [append_assoc, append_assoc]
  exact (perm_append_comm_assoc b c d).append_left a

theorem perm_receipts_append : (a.append b).receipts.Perm (a.receipts ++ b.receipts) := by
  rw [receipts_append]
  exact perm_append_append _ _ _ _

theorem perm_answers_append : (a.append b).answers.Perm (a.answers ++ b.answers) := by
  unfold BatchResult.answers BatchResult.append
  rw [map_append, map_append]
  exact perm_append_append _ _ _ _

theorem calls_append (ha : ∀ r ∈ a.receipts, r.groupKey = k)
    (hb : ∀ r ∈ b.receipts, r.groupKey ≠ k) (hk : k ∉ ks) :
    (a.append b).calls (k :: ks) = a.receipts ++ b.calls ks := by
  unfold BatchResult.calls
  rw [flatMap_cons, receipts_append, filter_append]
  congr 1
  · rw [filter_append_left (fun r hr => ha r (mem_receipts.mpr (Or.inl hr)))
      (fun r hr => hb r (mem_receipts.mpr (Or.inl hr))),
      filter_append_left (fun r hr => ha r (mem_receipts.mpr (Or.inr hr)))
      (fun r hr => hb r (mem_receipts.mpr (Or.inr hr)))]
    rfl
  · refine flatMap_congr fun k' hk' => ?_
    have hne : k' ≠ k := ne_of_mem_of_not_mem hk' hk
    rw [filter_append,
      filter_append_right hne (fun r hr => ha r (mem_receipts.mpr (Or.inl hr))),
      filter_append_right hne (fun r hr => ha r (mem_receipts.mpr (Or.inr hr))),
      ← filter_append]
    rfl

end

structure LoopRefines (single : Receipt → Database → Except QueueError Database)
    (groups : ReceiptGroups) (db₂ : Database) (res : BatchResult) (db' : Database) : Prop where
  answers : (sequence single (res.calls (groups.map Prod.fst)) db₂).1.Perm res.answers
  tables : db'.Same (sequence single (res.calls (groups.map Prod.fst)) db₂).2
  called : (res.calls (groups.map Prod.fst)).Perm res.receipts
  once : res.receipts.Perm (groups.flatMap Prod.snd)
  split : ∀ g ∈ groups, ∃ p : Receipt → Bool,
    (res.succeeded.filter fun r => decide (r.groupKey = g.1)) = g.2.filter p ∧
    ((res.failed.map FailedReceipt.receipt).filter fun r => decide (r.groupKey = g.1)) =
      g.2.filter fun r => !p r

theorem GroupRefines.cons {k : ReceiptGroupKey} {groups : ReceiptGroups} {rest : BatchResult}
    {db₁ : Database} (hg : GroupRefines single rs db₂ res db₁)
    (hrest : LoopRefines single groups (sequence single res.receipts db₂).2 rest db')
    (hk : k ∉ groups.map Prod.fst) (hin : ∀ r ∈ rs, r.groupKey = k)
    (hins : ∀ g ∈ groups, ∀ r ∈ g.2, r.groupKey = g.1) :
    LoopRefines single ((k, rs) :: groups) db₂ (res.append rest) db' := by
  obtain ⟨p, hok, hbad⟩ := hg.split
  have hpart : ∀ r ∈ res.receipts, r.groupKey = k := by
    intro r hr
    rw [mem_receipts, hok, hbad] at hr
    rcases hr with hr | hr
    · exact hin r (mem_filter.mp hr).1
    · exact hin r (mem_filter.mp hr).1
  have hother : ∀ r ∈ rest.receipts, r.groupKey ≠ k := by
    intro r hr he
    obtain ⟨g, hg', hrg⟩ := mem_flatMap.mp (hrest.once.mem_iff.mp hr)
    rw [hins g hg' r hrg] at he
    exact hk (he ▸ mem_map_of_mem hg')
  have hcalls := calls_append hpart hother hk
  refine ⟨?_, ?_, ?_, ?_, ?_⟩
  · rw [map_cons, hcalls, sequence_append, hg.answers]
    exact (hrest.answers.append_left _).trans perm_answers_append.symm
  · rw [map_cons, hcalls, sequence_append]
    exact hrest.tables
  · rw [map_cons, hcalls]
    exact (hrest.called.append_left _).trans perm_receipts_append.symm
  · refine perm_receipts_append.trans (Perm.append ?_ hrest.once)
    unfold BatchResult.receipts
    rw [hok, hbad]
    exact filter_append_perm p rs
  · intro g hg'
    rcases mem_cons.mp hg' with rfl | hg'
    · refine ⟨p, ?_, ?_⟩
      · rw [← hok]
        exact filter_append_left (fun r hr => hpart r (mem_receipts.mpr (Or.inl hr)))
          (fun r hr => hother r (mem_receipts.mpr (Or.inl hr)))
      · rw [← hbad]
        unfold BatchResult.append
        rw [map_append]
        exact filter_append_left (fun r hr => hpart r (mem_receipts.mpr (Or.inr hr)))
          (fun r hr => hother r (mem_receipts.mpr (Or.inr hr)))
    · have hne : g.1 ≠ k := fun he => hk (he ▸ mem_map_of_mem hg')
      obtain ⟨p', hok', hbad'⟩ := hrest.split g hg'
      refine ⟨p', ?_, ?_⟩
      · rw [← hok']
        exact filter_append_right hne fun r hr => hpart r (mem_receipts.mpr (Or.inl hr))
      · rw [← hbad']
        unfold BatchResult.append
        rw [map_append]
        exact filter_append_right hne fun r hr => hpart r (mem_receipts.mpr (Or.inr hr))

theorem eachGroup_refines {call : ReceiptGroupKey → List Receipt → Database →
      Except QueueError (BatchResult × Database)} {groups : ReceiptGroups}
    (hcall : ∀ g ∈ groups, ∀ {db db₂ res db'}, db.Same db₂ → call g.1 g.2 db = .ok (res, db') →
      GroupRefines single g.2 db₂ res db')
    (hkeys : (groups.map Prod.fst).Nodup) (hin : ∀ g ∈ groups, ∀ r ∈ g.2, r.groupKey = g.1)
    (hdb : db.Same db₂) (herr : (eachGroup call groups db).1.errs = []) :
    LoopRefines single groups db₂ (eachGroup call groups db).1.result
      (eachGroup call groups db).2 := by
  induction groups generalizing db db₂ with
  | nil => exact ⟨Perm.nil, hdb, Perm.nil, Perm.nil, nofun⟩
  | cons g groups ih =>
    obtain ⟨k, rs⟩ := g
    obtain ⟨hk, hkeys⟩ := nodup_cons.mp hkeys
    rw [eachGroup] at herr ⊢
    cases hc : call k rs db with
    | error e =>
      rw [hc] at herr
      cases herr
    | ok x =>
      obtain ⟨res, db₁⟩ := x
      rw [hc] at herr
      have hg := hcall (k, rs) mem_cons_self hdb hc
      have hrest := ih (fun g hg' => hcall g (mem_cons_of_mem _ hg')) hkeys
        (fun g hg' => hin g (mem_cons_of_mem _ hg')) hg.tables herr
      exact hg.cons hrest hk (hin (k, rs) mem_cons_self)
        fun g hg' => hin g (mem_cons_of_mem _ hg')

end
/-! ## acks commute -/

/-- a change of the tables of one queue, if there is one of that name -/
def mapNamed {α : Type} (name : String) (f : α → α) (m : String → Option (Queue × α)) (n : String) :
    Option (Queue × α) :=
  (m n).map fun x => if n = name then (x.1, f x.2) else x

section
variable {α : Type} {m : String → Option (Queue × α)} {name name' : String} {f g : α → α}

theorem mapNamed_of_none (h : m name = none) : mapNamed name f m = m := by
  funext n
  unfold mapNamed
  by_cases hn : n = name
  · rw [hn, h]
    rfl
  · simp only [hn, ↓reduceIte]
    exact Option.map_id'

theorem mapNamed_of_some {q : Queue} {s : α} (h : m name = some (q, s)) :
    mapNamed name f m = Function.update m name (some (q, f s)) := by
  funext n
  unfold mapNamed
  by_cases hn : n = name
  · rw [hn, h, Function.update_self]
    simp only [Option.map_some, ↓reduceIte]
  · rw [Function.update_of_ne hn]
    simp only [hn, ↓reduceIte]
    exact Option.map_id'

theorem mapNamed_comm (h : ∀ s, f (g s) = g (f s)) :
    mapNamed name f (mapNamed name' g m) = mapNamed name' g (mapNamed name f m) := by
  funext n
  unfold mapNamed
  rw [Option.map_map, Option.map_map]
  refine congrArg (fun F => (m n).map F) (funext fun x => ?_)
  dsimp only [Function.comp_apply]
  by_cases hn : n = name
  · by_cases hn' : n = name'
    · simp only [if_pos hn, if_pos hn', h]
    · simp only [if_pos hn, if_neg hn']
  · by_cases hn' : n = name'
    · simp only [if_neg hn, if_pos hn']
    · simp only [if_neg hn, if_neg hn']

end

def ackEffect (env : Env) (r : Receipt) (db : Database) : Database :=
  match r.queueType with
  | some .channel =>
    { db with channels := mapNamed r.queueName (fun s => (Channel.ackUpdate env r s).2) db.channels }
  | some .pubsub =>
    match validateSubscriberID r.subscriberID with
    | .ok () =>
      { db with topics := mapNamed r.queueName (Topic.ackUpdate env r.subscriberID r) db.topics }
    | .error _ => db
  | none => db

theorem after_ack (env : Env) (r : Receipt) (db : Database) :
    after (ack env) r db = ackEffect env r db := by
  unfold ackEffect
  rcases hq : r.queueType with _ | _ | _
  · unfold after ack
    rw [hq]
  · cases hc : db.channels r.queueName with
    | none =>
      rw [mapNamed_of_none hc]
      unfold after ack Database.channel
      rw [hq, hc]
      rfl
    | some x =>
      have hack : ack env r (db.setChannel r.queueName x.1 x.2) =
          (Channel.ackChannel env r x.2).map (db.setChannel r.queueName x.1) :=
        ack_channel rfl hq x.2
      rw [Database.setChannel_self hc] at hack
      rw [mapNamed_of_some hc, ← Channel.after_ackChannel]
      unfold after
      rw [hack]
      cases Channel.ackChannel env r x.2 with
      | error e => exact (Database.setChannel_self hc).symm
      | ok s' => rfl
  · cases hv : validateSubscriberID r.subscriberID with
    | error e =>
      unfold after ack
      rw [hq, hv]
      rfl
    | ok u =>
      cases hc : db.topics r.queueName with
      | none =>
        rw [mapNamed_of_none hc]
        unfold after ack Database.topic
        rw [hq, hv, hc]
        rfl
      | some x =>
        have hack : ack env r (db.setTopic r.queueName x.1 x.2) =
            (Topic.ackTopic env r.subscriberID r x.2).map (db.setTopic r.queueName x.1) :=
          ack_topic rfl hq hv x.2
        rw [Database.setTopic_self hc] at hack
        rw [mapNamed_of_some hc, ← Topic.after_ackTopic hv]
        unfold after
        rw [hack]
        cases Topic.ackTopic env r.subscriberID r x.2 with
        | error e => exact (Database.setTopic_self hc).symm
        | ok s' => rfl

theorem after_ackAt (envs : ReceiptGroupKey → Env) (r : Receipt) (db : Database) :
    after (fun r : Receipt => ack (envs r.groupKey) r) r db = ackEffect (envs r.groupKey) r db :=
  after_ack (envs r.groupKey) r db

theorem ackEffect_comm {env env' : Env} (hnow : env'.now = env.now) (a b : Receipt) (db : Database) :
    ackEffect env' b (ackEffect env a db) = ackEffect env a (ackEffect env' b db) := by
  unfold ackEffect
  rcases ha : a.queueType with _ | _ | _
  · rfl
  · rcases hb : b.queueType with _ | _ | _
    · rfl
    · rw [mapNamed_comm fun s => Channel.ackUpdate_comm hnow a b s]
    · dsimp only
      split <;> rfl
  · rcases hb : b.queueType with _ | _ | _
    · rfl
    · dsimp only
      split <;> rfl
    · cases validateSubscriberID a.subscriberID with
      | error e => rfl
      | ok u =>
        cases validateSubscriberID b.subscriberID with
        | error e => rfl
        | ok u =>
          rw [mapNamed_comm fun s => Topic.ackUpdate_comm hnow a b s]

/-! ## the groups of a batch, in any order -/

section
variable {rs : List Receipt} {groups : ReceiptGroups} (hp : groups.Perm (groupsOf rs))
  {g : ReceiptGroupKey × List Receipt} {single : Receipt → Database → Except QueueError Database}
  {db' : Database} {res : BatchResult}
include hp

theorem mem_groups (hg : g ∈ groups) : g.1 ∈ groupKeys rs ∧ g.2 = receiptGroup rs g.1 := by
  obtain ⟨k, hk, rfl⟩ := mem_map.mp (hp.mem_iff.mp hg)
  exact ⟨hk, rfl⟩

theorem groupKey_of_mem_groups (hg : g ∈ groups) : ∀ r ∈ g.2, r.groupKey = g.1 := by
  intro r hr
  rw [(mem_groups hp hg).2] at hr
  exact (mem_receiptGroup.mp hr).2

theorem keys_perm : (groups.map Prod.fst).Perm (groupKeys rs) := by
  have h := hp.map Prod.fst
  unfold groupsOf at h
  rw [map_map] at h
  exact h.trans (Perm.of_eq (map_id _))

theorem flatMap_groups : (groups.flatMap Prod.snd).Perm (firstBy id rs) := by
  have hnd : (firstBy id rs).Nodup := by
    have h := nodup_firstBy id rs
    rwa [map_id] at h
  refine (hp.flatMap_right Prod.snd).trans ?_
  refine (perm_ext_iff_of_nodup ?_ hnd).mpr fun r => ?_
  · unfold groupsOf
    rw [flatMap_map, nodup_flatMap]
    refine ⟨fun k _ => hnd.filter _, (nodup_groupKeys rs).imp fun {k k'} hne => ?_⟩
    intro r hr hr'
    exact hne ((mem_receiptGroup.mp hr).2.symm.trans (mem_receiptGroup.mp hr').2)
  · unfold groupsOf
    rw [flatMap_map, mem_flatMap, mem_firstBy_id]
    constructor
    · rintro ⟨k, -, hr⟩
      exact (mem_receiptGroup.mp hr).1
    · exact fun hr => ⟨r.groupKey, mem_groupKeys.mpr ⟨r, hr, rfl⟩, mem_receiptGroup.mpr ⟨hr, rfl⟩⟩

theorem LoopRefines.refines {db : Database} (h : LoopRefines single groups db res db') :
    Refines single (groups.map Prod.fst) rs db res db' :=
  ⟨h.once.trans (flatMap_groups hp), h.answers, h.tables⟩

theorem LoopRefines.keepsOrder {db : Database} (h : LoopRefines single groups db res db') :
    KeepsOrder Receipt.groupKey rs res := by
  intro k
  by_cases hk : k ∈ groups.map Prod.fst
  · obtain ⟨g, hg, rfl⟩ := mem_map.mp hk
    obtain ⟨p, hok, hbad⟩ := h.split g hg
    have hsub : g.2.Sublist (firstBy id rs) := by
      rw [(mem_groups hp hg).2]
      exact filter_sublist
    rw [hok, hbad]
    exact ⟨filter_sublist.trans hsub, filter_sublist.trans hsub⟩
  · -- no receipt of the result is of any other group
    have hnone : ∀ r ∈ res.receipts, ¬ decide (r.groupKey = k) = true := by
      intro r hr he
      obtain ⟨g, hg, hrg⟩ := mem_flatMap.mp (h.once.mem_iff.mp hr)
      refine hk (mem_map.mpr ⟨g, hg, ?_⟩)
      rw [← groupKey_of_mem_groups hp hg r hrg]
      exact of_decide_eq_true he
    rw [filter_eq_nil_iff.mpr fun r hr => hnone r (mem_receipts.mpr (Or.inl hr)),
      filter_eq_nil_iff.mpr fun r hr => hnone r (mem_receipts.mpr (Or.inr hr))]
    exact ⟨nil_sublist _, nil_sublist _⟩

end

section
variable {rs : List Receipt} {res : BatchResult}

theorem filter_queue_sublist (hone : OneSubscriber rs) {l : List Receipt} (hl : ∀ r ∈ l, r ∈ rs)
    (h : ∀ k, (l.filter fun r => decide (r.groupKey = k)).Sublist (firstBy id rs))
    (u : Option QueueType × String) :
    (l.filter fun r => decide (r.queue = u)).Sublist (firstBy id rs) := by
  by_cases hnil : (l.filter fun r => decide (r.queue = u)) = []
  · rw [hnil]
    exact nil_sublist _
  · obtain ⟨r₀, hr₀⟩ := exists_mem_of_ne_nil _ hnil
    obtain ⟨hr₀, hu⟩ := mem_filter.mp hr₀
    rw [decide_eq_true_eq] at hu
    rw [filter_congr (q := fun r => decide (r.groupKey = r₀.groupKey))]
    · exact h _
    · intro r hr
      rw [decide_eq_decide, ← hu]
      constructor
      · intro hq
        have hs := hone r (hl r hr) r₀ (hl r₀ hr₀) hq
        unfold Receipt.groupKey
        rw [(Prod.mk.inj hq).1, (Prod.mk.inj hq).2, hs]
      · intro hk
        obtain ⟨h1, h2, -⟩ := ReceiptGroupKey.mk.inj hk
        exact Prod.ext h1 h2

theorem KeepsOrder.queue (h : KeepsOrder Receipt.groupKey rs res)
    (hsub : ∀ r ∈ res.receipts, r ∈ rs) (hone : OneSubscriber rs) :
    KeepsOrder Receipt.queue rs res := fun u =>
  ⟨filter_queue_sublist hone (fun r hr => hsub r (mem_receipts.mpr (Or.inl hr))) (fun k => (h k).1) u,
    filter_queue_sublist hone (fun r hr => hsub r (mem_receipts.mpr (Or.inr hr))) (fun k => (h k).2) u⟩

end

/-! ## the calls -/

section
variable {order : MapOrder} {envs : ReceiptGroupKey → Env} {rs : List Receipt} {db db' : Database}
  {ret : BatchReturn} {reason : Bytes} {delay : Duration}

theorem queueType_of_mem_groupKeys (hq : ∀ r ∈ rs, r.queueType ≠ none) {k : ReceiptGroupKey}
    (hk : k ∈ groupKeys rs) : k.queueType ≠ none := by
  obtain ⟨r, hr, rfl⟩ := mem_groupKeys.mp hk
  exact hq r hr

theorem loop_of_ok {single : Receipt → Database → Except QueueError Database}
    {call : ReceiptGroupKey → List Receipt → Database → Except QueueError (BatchResult × Database)}
    (hcall : ∀ {k rs db db₂ res db'}, k.queueType ≠ none → (∀ r ∈ rs, r.groupKey = k) →
      (rs.map fun r => (r.messageID, r.claimID)).Nodup → db.Same db₂ →
      call k rs db = .ok (res, db') → GroupRefines single rs db₂ res db')
    (h : ((groupReceiptsByQueue rs).bind fun groups =>
      .ok (eachGroup call (order.range groups) db)) = .ok (ret, db')) (herr : ret.errs = []) :
    LoopRefines single (order.range (groupsOf rs)) db ret.result db' := by
  have hp := order.perm (groupsOf rs)
  rw [groupReceiptsByQueue_eq] at h
  split at h
  · cases h
  · rename_i hn
    have hq : ∀ r ∈ rs, r.queueType ≠ none := fun r hr hq => hn ⟨r, hr, hq⟩
    have he : eachGroup call (order.range (groupsOf rs)) db = (ret, db') := Except.ok.inj h
    have hl : LoopRefines single (order.range (groupsOf rs)) db
        (eachGroup call (order.range (groupsOf rs)) db).1.result
        (eachGroup call (order.range (groupsOf rs)) db).2 := by
      refine eachGroup_refines (fun g hg {_ _ _ _} hdb hc => ?_)
        ((keys_perm hp).nodup_iff.mpr (nodup_groupKeys rs))
        (fun g hg => groupKey_of_mem_groups hp hg) (Database.Same.refl db)
        (by rw [he]; exact herr)
      exact hcall (queueType_of_mem_groupKeys hq (mem_groups hp hg).1) (groupKey_of_mem_groups hp hg)
        ((mem_groups hp hg).2 ▸ nodup_receiptGroup rs g.1) hdb hc
    rwa [he] at hl

theorem ackBatch_loop (h : ackBatch order envs rs db = .ok (ret, db')) (herr : ret.errs = []) :
    LoopRefines (fun r => ack (envs r.groupKey) r) (order.range (groupsOf rs)) db ret.result db' :=
  loop_of_ok (fun hk hrs hn hdb hc => ackGroup_refines hk hrs hn hdb (fun r hr => by rw [hr]) hc) h
    herr

theorem nackBatch_loop (h : nackBatch order envs reason delay rs db = .ok (ret, db'))
    (herr : ret.errs = []) :
    LoopRefines (fun r => nack (envs r.groupKey) reason delay r) (order.range (groupsOf rs)) db
      ret.result db' :=
  loop_of_ok (fun hk hrs hn hdb hc => nackGroup_refines hk hrs hn hdb (fun r hr => by rw [hr]) hc) h
    herr

/-- **the contract, with the order kept within each group** -/
theorem contract_group (rs : List Receipt) : Contract Receipt.groupKey rs where
  ack order envs db ret db' h herr := by
    have hp := order.perm (groupsOf rs)
    have hl := ackBatch_loop h herr
    have hr := hl.refines hp
    refine ⟨hr, hl.keepsOrder hp, fun hnow calls hcalls => ?_⟩
    have hperm : (ret.result.calls ((order.range (groupsOf rs)).map Prod.fst)).Perm calls :=
      hl.called.trans (hr.once.trans hcalls.symm)
    rw [← sequence_perm hperm fun a b db => ?_]
    · exact hr.tables
    · rw [after_ackAt, after_ackAt, after_ackAt, after_ackAt]
      exact ackEffect_comm (hnow _ _) a b db
  nack order envs reason delay db ret db' h herr := by
    have hp := order.perm (groupsOf rs)
    have hl := nackBatch_loop h herr
    exact ⟨hl.refines hp, hl.keepsOrder hp⟩

end

/-! ## a queue with two subscribers -/

def Database.blank : Database where
  channels _ := some (Queue.counting 0, Channel.State.init)
  topics _ := some (Queue.counting 0, Topic.State.init)

def MapOrder.first (k : ReceiptGroupKey) : MapOrder where
  range groups := groups.filter (fun g => decide (g.1 = k)) ++ groups.filter (fun g => !decide (g.1 = k))
  perm := filter_append_perm _

def notFound (r : Receipt) : FailedReceipt := ⟨r, .messageNotFound⟩

section
variable {env : Env} {k : ReceiptGroupKey} {rs : List Receipt} {db : Database} {groups : ReceiptGroups}
  {x : BatchResult × Database}
  {call : ReceiptGroupKey → List Receipt → Database → Except QueueError (BatchResult × Database)}

theorem ackGroup_blank (hk : k.queueType ≠ none)
    (hv : k.queueType = some .pubsub → validateSubscriberID k.subscriberID = .ok ())
    (hsize : validateBatchSize rs.length = .ok ()) :
    ackGroup env k rs .blank = .ok (⟨[], rs.map notFound⟩, .blank) := by
  unfold ackGroup
  split
  · rw [hsize, show Database.blank.channel k.queueName = .ok _ from rfl]
    show (Channel.ackChannelBatch env rs Channel.State.init).bind _ = _
    rw [Channel.ackChannelBatch_eq hsize]
    show Except.ok (BatchResult.mk (rs.filter fun _ => false) ((rs.filter fun _ => true).map _), _) = _
    rw [filter_false, filter_true]
    refine congrArg (fun db => Except.ok (_, db)) ?_
    exact Database.setChannel_self rfl
  · rename_i hq
    rw [hv hq, hsize, show Database.blank.topic k.queueName = .ok _ from rfl]
    show (Topic.ackTopicBatch env k.subscriberID rs Topic.State.init).bind _ = _
    rw [Topic.ackTopicBatch_eq (hv hq) hsize]
    show Except.ok (BatchResult.mk (rs.filter fun _ => false) ((rs.filter fun _ => true).map _), _) = _
    rw [filter_false, filter_true]
    refine congrArg (fun db => Except.ok (_, db)) ?_
    exact Database.setTopic_self rfl
  · rename_i hq
    exact absurd hq hk

theorem eachGroup_blank {envs : ReceiptGroupKey → Env}
    (h : ∀ g ∈ groups, g.1.queueType ≠ none ∧
      (g.1.queueType = some .pubsub → validateSubscriberID g.1.subscriberID = .ok ()) ∧
      validateBatchSize g.2.length = .ok ()) :
    eachGroup (fun k => ackGroup (envs k) k) groups .blank =
      (⟨⟨[], (groups.flatMap Prod.snd).map notFound⟩, []⟩, .blank) := by
  induction groups with
  | nil => rfl
  | cons g groups ih =>
    obtain ⟨hk, hv, hsize⟩ := h g mem_cons_self
    have hrest := ih fun g' hg' => h g' (mem_cons_of_mem _ hg')
    rw [eachGroup, ackGroup_blank hk hv hsize]
    dsimp only [BatchResult.append]
    rw [hrest, flatMap_cons, map_append]
    rfl

theorem Committable.group (hc : Committable rs) {g : ReceiptGroupKey × List Receipt}
    (hk : g.1 ∈ groupKeys rs) (hg : g.2 = receiptGroup rs g.1) :
    g.1.queueType ≠ none ∧
      (g.1.queueType = some .pubsub → validateSubscriberID g.1.subscriberID = .ok ()) ∧
      validateBatchSize g.2.length = .ok () := by
  refine ⟨queueType_of_mem_groupKeys hc.bound hk, ?_, by rw [hg]; exact hc.size g.1⟩
  obtain ⟨r, hr, he⟩ := mem_groupKeys.mp hk
  rw [← he]
  exact hc.subscriber r hr

theorem ackBatch_blank (hc : Committable rs) (order : MapOrder) (envs : ReceiptGroupKey → Env) :
    ackBatch order envs rs .blank =
      .ok (⟨⟨[], ((order.range (groupsOf rs)).flatMap Prod.snd).map notFound⟩, []⟩, .blank) := by
  unfold ackBatch
  rw [groupReceiptsByQueue_eq, if_neg fun ⟨r, hr, hq⟩ => hc.bound r hr hq]
  refine congrArg Except.ok (eachGroup_blank fun g hg => ?_)
  obtain ⟨hk, he⟩ := mem_groups (order.perm _) hg
  exact hc.group hk he

theorem first_sublist (hc : Committable rs) (h : Contract Receipt.queue rs) {r r' : Receipt}
    (hr : r ∈ rs) (hr' : r' ∈ rs) (hq : r.queue = r'.queue) (hne : r.groupKey ≠ r'.groupKey) :
    [r', r].Sublist (firstBy id rs) := by
  obtain ⟨-, hord, -⟩ :=
    h.ack (.first r'.groupKey) (fun _ => .bare 0) .blank _ _ (ackBatch_blank hc _ _) rfl
  have hsub := (hord r.queue).2
  rw [map_map, show FailedReceipt.receipt ∘ notFound = id from rfl, map_id] at hsub
  refine Sublist.trans ?_ hsub
  have hmem : ∀ x ∈ rs, (x.groupKey, receiptGroup rs x.groupKey) ∈ groupsOf rs := fun x hx =>
    mem_map_of_mem (mem_groupKeys.mpr ⟨x, hx, rfl⟩)
  show [r', r].Sublist (List.filter _ (List.flatMap _ (List.filter _ _ ++ List.filter _ _)))
  rw [flatMap_append, filter_append]
  change ([r'] ++ [r]).Sublist _
  refine Sublist.append ?_ ?_
  · rw [singleton_sublist, mem_filter, mem_flatMap]
    exact ⟨⟨_, mem_filter.mpr ⟨hmem r' hr', decide_eq_true rfl⟩, mem_receiptGroup.mpr ⟨hr', rfl⟩⟩,
      decide_eq_true hq.symm⟩
  · rw [singleton_sublist, mem_filter, mem_flatMap]
    refine ⟨⟨_, mem_filter.mpr ⟨hmem r hr, ?_⟩, mem_receiptGroup.mpr ⟨hr, rfl⟩⟩,
      decide_eq_true rfl⟩
    rw [Bool.not_eq_true', decide_eq_false_iff_not]
    exact hne

theorem eq_of_sublist_both {α : Type} {l : List α} (hn : l.Nodup) {a b : α} (h : [a, b].Sublist l)
    (h' : [b, a].Sublist l) : a = b := by
  induction l with
  | nil => cases h
  | cons x l ih =>
    obtain ⟨hx, hn⟩ := nodup_cons.mp hn
    cases h with
    | cons _ h =>
      cases h' with
      | cons _ h' => exact ih hn h h'
      | cons_cons _ h' => exact absurd (h.subset (by simp)) hx
    | cons_cons _ h =>
      cases h' with
      | cons _ h' => exact absurd (h'.subset (by simp)) hx
      | cons_cons _ h' => rfl

theorem oneSubscriber_of_contract (hc : Committable rs) (h : Contract Receipt.queue rs) :
    OneSubscriber rs := by
  intro r hr r' hr' hq
  by_contra hs
  have hne : r.groupKey ≠ r'.groupKey := fun he => hs (ReceiptGroupKey.mk.inj he).2.2
  have hnd := nodup_firstBy id rs
  rw [map_id] at hnd
  have he := eq_of_sublist_both hnd (first_sublist hc h hr hr' hq hne)
    (first_sublist hc h hr' hr hq.symm hne.symm)
  exact hs (by rw [he])

/-- the checks that a transaction which committed has passed -/
def Checked (k : ReceiptGroupKey) (rs : List Receipt) : Prop :=
  (k.queueType = some .pubsub → validateSubscriberID k.subscriberID = .ok ()) ∧
    (k.queueType ≠ none → validateBatchSize rs.length = .ok ())

theorem ackGroup_checked (h : ackGroup env k rs db = .ok x) : Checked k rs := by
  unfold ackGroup at h
  split at h
  · rename_i hq
    obtain ⟨⟨⟩, hsize, h⟩ := ok_of_bind h
    exact ⟨fun hp => absurd (hq.symm.trans hp) nofun, fun _ => hsize⟩
  · obtain ⟨⟨⟩, hv, h⟩ := ok_of_bind h
    obtain ⟨⟨⟩, hsize, h⟩ := ok_of_bind h
    exact ⟨fun _ => hv, fun _ => hsize⟩
  · rename_i hq
    exact ⟨fun hp => absurd (hq.symm.trans hp) nofun, fun hp => absurd hq hp⟩

theorem nackGroup_checked {reason : Bytes} {delay : Duration}
    (h : nackGroup env reason delay k rs db = .ok x) : Checked k rs := by
  unfold nackGroup at h
  split at h
  · rename_i hq
    obtain ⟨⟨⟩, hsize, h⟩ := ok_of_bind h
    exact ⟨fun hp => absurd (hq.symm.trans hp) nofun, fun _ => hsize⟩
  · obtain ⟨⟨⟩, hv, h⟩ := ok_of_bind h
    obtain ⟨⟨⟩, hsize, h⟩ := ok_of_bind h
    exact ⟨fun _ => hv, fun _ => hsize⟩
  · rename_i hq
    exact ⟨fun hp => absurd (hq.symm.trans hp) nofun, fun hp => absurd hq hp⟩

theorem eachGroup_checked (hcall : ∀ {k rs db x}, call k rs db = .ok x → Checked k rs)
    (herr : (eachGroup call groups db).1.errs = []) : ∀ g ∈ groups, Checked g.1 g.2 := by
  induction groups generalizing db with
  | nil => exact nofun
  | cons g groups ih =>
    rw [eachGroup] at herr
    cases hc : call g.1 g.2 db with
    | error e =>
      rw [hc] at herr
      cases herr
    | ok x =>
      rw [hc] at herr
      intro g' hg'
      rcases mem_cons.mp hg' with rfl | hg'
      · exact hcall hc
      · exact ih herr g' hg'

theorem committable_of_ok {order : MapOrder} {ret : BatchReturn} {db' : Database}
    (hcall : ∀ {k rs db x}, call k rs db = .ok x → Checked k rs)
    (h : ((groupReceiptsByQueue rs).bind fun groups =>
      .ok (eachGroup call (order.range groups) db)) = .ok (ret, db')) (herr : ret.errs = []) :
    Committable rs := by
  rw [groupReceiptsByQueue_eq] at h
  split at h
  · cases h
  rename_i hn
  have hq : ∀ r ∈ rs, r.queueType ≠ none := fun r hr hq => hn ⟨r, hr, hq⟩
  have he : eachGroup call (order.range (groupsOf rs)) db = (ret, db') := Except.ok.inj h
  have herr' : (eachGroup call (order.range (groupsOf rs)) db).1.errs = [] := by rw [he]; exact herr
  have hchecked : ∀ k ∈ groupKeys rs, Checked k (receiptGroup rs k) := by
    intro k hk
    have hmem : (k, receiptGroup rs k) ∈ groupsOf rs := mem_map.mpr ⟨k, hk, rfl⟩
    exact eachGroup_checked hcall herr' _ ((order.perm _).mem_iff.mpr hmem)
  refine ⟨hq, fun r hr hp => ?_, fun k => ?_⟩
  · exact (hchecked r.groupKey (mem_groupKeys.mpr ⟨r, hr, rfl⟩)).1 hp
  · by_cases hk : k ∈ groupKeys rs
    · exact (hchecked k hk).2 (queueType_of_mem_groupKeys hq hk)
    · have hnil : receiptGroup rs k = [] := by
        rw [eq_nil_iff_forall_not_mem]
        intro r hr
        obtain ⟨hr, he⟩ := mem_receiptGroup.mp hr
        exact hk (mem_groupKeys.mpr ⟨r, hr, he⟩)
      rw [hnil]
      rfl

theorem validateBatchSize_group (h : rs.length ≤ maxBatchSize) (k : ReceiptGroupKey) :
    validateBatchSize (receiptGroup rs k).length = .ok () := by
  have hlen : (receiptGroup rs k).length ≤ rs.length :=
    (filter_sublist.trans (firstBy_sublist id rs)).length_le
  unfold validateBatchSize
  rw [if_neg (by omega)]

theorem Contract.queue (hone : Committable rs → OneSubscriber rs) : Contract Receipt.queue rs where
  ack order envs db ret db' h herr := by
    obtain ⟨hr, hk, hany⟩ := (contract_group rs).ack order envs db ret db' h herr
    refine ⟨hr, hk.queue (fun r hmem => ?_) (hone (committable_of_ok ackGroup_checked h herr)), hany⟩
    exact mem_firstBy_id.mp (hr.once.mem_iff.mp hmem)
  nack order envs reason delay db ret db' h herr := by
    obtain ⟨hr, hk⟩ := (contract_group rs).nack order envs reason delay db ret db' h herr
    refine ⟨hr, hk.queue (fun r hmem => ?_) (hone (committable_of_ok nackGroup_checked h herr))⟩
    exact mem_firstBy_id.mp (hr.once.mem_iff.mp hmem)

/-- **`AckBatch` and `NackBatch` refine `Ack` and `Nack`** and keep the order of the receipts within
each group.  They keep it within each queue if and only if no queue is named with two subscribers
(or the call is one that no database commits). -/
theorem batch_contract (rs : List Receipt) :
    Contract Receipt.groupKey rs ∧
      (Contract Receipt.queue rs ↔ (Committable rs → OneSubscriber rs)) :=
  ⟨contract_group rs, fun h hc => oneSubscriber_of_contract hc h, .queue⟩

end

/-! ## three receipts of one topic -/

/-- a topic with two subscribers, who have received three times between them -/
def twoSubscribers : Topic.State :=
  [Topic.Op.subscribe "a", .subscribe "b", .publish ⟨100, [], none⟩, .publish ⟨101, [], none⟩,
    .receive "a" hour, .receive "b" hour, .receive "a" hour].foldl
    (fun s op => (Topic.step (Queue.counting 3) (Env.bare 0) s op).1) Topic.State.init

def receiptOf (subscriberID : String) (messageID claimID : UUID) : Receipt :=
  ⟨messageID, claimID, "orders", some .pubsub, subscriberID⟩

def threeReceipts : List Receipt := [receiptOf "a" 100 5, receiptOf "b" 100 6, receiptOf "a" 101 7]

/-- the receipts come back out of order, whichever group is run first -/
theorem ack_batch_reorders :
    let db : Database := ⟨fun _ => none, fun _ => some (Queue.counting 3, twoSubscribers)⟩
    let batch := fun k => (ackBatch (.first k) (fun _ => .bare 1) threeReceipts db).map Prod.fst
    batch ⟨some .pubsub, "orders", "a"⟩ =
        .ok ⟨⟨[receiptOf "a" 100 5, receiptOf "a" 101 7, receiptOf "b" 100 6], []⟩, []⟩ ∧
      batch ⟨some .pubsub, "orders", "b"⟩ =
        .ok ⟨⟨[receiptOf "b" 100 6, receiptOf "a" 100 5, receiptOf "a" 101 7], []⟩, []⟩ ∧
      ¬ Contract Receipt.queue threeReceipts := by
  refine ⟨rfl, rfl, fun h => ?_⟩
  have hc : Committable threeReceipts := ⟨by decide, by decide, validateBatchSize_group (by decide)⟩
  have hs := oneSubscriber_of_contract hc h (receiptOf "a" 100 5) (by decide) (receiptOf "b" 100 6)
    (by decide) rfl
  exact absurd hs (by decide)

end PgQueue
