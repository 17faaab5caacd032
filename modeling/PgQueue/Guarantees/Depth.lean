import PgQueue.Receive
import PgQueue.Topic.Registry
import PgQueue.Process.Drain

/-!
# Guarantees: the depth of a queue is what can be received from it

`QueueDepth` counts with queries of its own.

* `Channel.queueDepth`, `Topic.queueDepth`   the counts, with and without a TTL;
* `Channel.takes`, `Topic.takes`   at a frozen clock each receive takes one deliverable row out;
* `depth_predicts_delivery`        **the depth is the number of messages a drain delivers.**
-/

namespace PgQueue
open Relational Process List

/-! ## channels -/

namespace Channel

def queueDepth (env : Env) (s : State) : Nat :=
  if env.ttl > 0 then
    (s.msgs.rows.filter fun r => decide (r.status = .pending) && decide (r.availableAt ≤ env.now)
      && decide (r.createdAt > env.now - env.ttl)).length
  else
    (s.msgs.rows.filter fun r => decide (r.status = .pending)
      && decide (r.availableAt ≤ env.now)).length

def ready (env : Env) (s : State) : List UUID := (s.msgs.rows.filter (Row.deliverable env)).map Row.id

section
variable {q : Queue} {env : Env} {s : State}

theorem queueDepth_eq (env : Env) (s : State) : queueDepth env s = (ready env s).length := by
  unfold queueDepth ready
  rw [length_map]
  split
  · rename_i h
    congr 2
    funext r
    unfold Row.deliverable Env.withinTTL
    rw [decide_eq_false (Int.not_le.mpr h), Bool.false_or]
  · rename_i h
    congr 2
    funext r
    unfold Row.deliverable Env.withinTTL
    rw [decide_eq_true (Int.not_lt.mp h), Bool.true_or, Bool.and_true]

theorem nodup_ready : (ready env s).Nodup := (filter_sublist.map Row.id).nodup s.msgs.nodup

theorem takes (q : Queue) (hpaused : env.paused = false) :
    Takes (receiveChannel q env) .queueEmpty (fun vis => validateVisibilityTimeout vis = .ok ())
      (NoneTimedOut env.now) (ready env) Message.id where
  empty vis s hvis ht hnil :=
    receiveChannel_empty hpaused hvis ht (pendingProbe_eq_none.mpr (map_eq_nil_iff.mp hnil))
  next vis s hvis ht hne := by
    cases hp : pendingProbe env s with
    | none => exact absurd (congrArg (List.map Row.id) (pendingProbe_eq_none.mp hp)) hne
    | some row =>
      obtain ⟨m, s', hrec, hclaim⟩ := receiveChannel_claims (q := q) hpaused hvis hp
      obtain ⟨hrow, hd⟩ := pendingProbe_eq_some hp
      have hm : m.id = row.id := by
        have := congrArg (fun p : Option Message × State => p.1.map Message.id) hclaim
        exact (Option.some.inj this).symm
      have hs : s' = (claimChannelMessage q env vis row row.retryCount s).2 :=
        (congrArg Prod.snd hclaim).symm
      refine ⟨m, s', hrec, hs ▸ ht.claim hvis, ?_⟩
      rw [hm, hs]
      refine Perm.map Row.id (Table.filter_perm_update (Row.id_claim _ _ _ _) hrow hd
        (fun x hx => ?_) rfl)
      rw [decide_eq_true_eq]
      exact ⟨fun h => Table.eq_of_key hx hrow h, fun h => h ▸ rfl⟩

end
end Channel

/-! ## topics -/

namespace Topic

/-- with a TTL the subscription rows are joined with their messages -/
def queueDepth (env : Env) (s : State) : Nat :=
  if env.ttl > 0 then
    ((s.subs.rows.filterMap s.candidate).filter fun c => decide (c.sub.status = .pending)
      && decide (c.sub.availableAt ≤ env.now) && decide (c.msg.createdAt > env.now - env.ttl)).length
  else
    (s.subs.rows.filter fun r => decide (r.status = .pending)
      && decide (r.availableAt ≤ env.now)).length

def ready (env : Env) (sub : String) (s : State) : List (UUID × String) :=
  (s.subs.rows.filter (Sub.deliverableTo env s sub)).map Sub.key

def messageKey (m : Message) : UUID × String := (m.id, m.receipt.subscriberID)

section
variable {q : Queue} {env : Env} {s : State}

/-- every row joins with its message, so the join counts the rows whose message passes -/
theorem length_filter_join (s : State) (p : Sub → Bool) (pm : MessageRow → Bool) (rows : List Sub)
    (h : ∀ r ∈ rows, r ∈ s.subs.rows) :
    ((rows.filterMap s.candidate).filter fun c => p c.sub && pm c.msg).length =
      (rows.filter fun r => p r && s.tables.parentIs pm r).length := by
  induction rows with
  | nil => rfl
  | cons r rows ih =>
    rw [forall_mem_cons] at h
    obtain ⟨m, hm⟩ := s.tables.exists_parentOf h.1
    have hc : s.candidate r = some ⟨r, m⟩ := by rw [State.candidate, hm]; rfl
    have hp : s.tables.parentIs pm r = pm m := by
      show (s.tables.parentOf r).any pm = pm m
      rw [hm]
      rfl
    rw [filterMap_cons_some hc, filter_cons, filter_cons, hp]
    cases p r && pm m with
    | true => exact congrArg (· + 1) (ih h.2)
    | false => exact ih h.2

theorem queueDepth_eq (env : Env) (s : State) :
    queueDepth env s = (s.subs.rows.filter (Sub.deliverable env s)).length := by
  unfold queueDepth
  split
  · rename_i h
    rw [length_filter_join s (fun r => decide (r.status = .pending) && decide (r.availableAt ≤ env.now))
      (fun m => decide (m.createdAt > env.now - env.ttl)) _ fun _ hr => hr]
    have hw : (fun m : MessageRow => env.withinTTL m.createdAt) =
        fun m => decide (m.createdAt > env.now - env.ttl) := by
      funext m
      unfold Env.withinTTL
      rw [decide_eq_false (Int.not_le.mpr h), Bool.false_or]
    congr 2
    funext r
    unfold Sub.deliverable
    rw [hw]
  · rename_i h
    congr 1
    apply filter_congr
    intro r hr
    obtain ⟨m, hm⟩ := s.tables.exists_parentOf hr
    have hp : s.tables.parentIs (fun m => env.withinTTL m.createdAt) r = true := by
      show (s.tables.parentOf r).any _ = true
      rw [hm, Option.any_some]
      unfold Env.withinTTL
      rw [decide_eq_true (Int.not_lt.mp h), Bool.true_or]
    unfold Sub.deliverable
    rw [hp, Bool.and_true]

/-- the states of a drain: the row ids are a primary key, no claim has timed out -/
structure Drainable (env : Env) (s : State) : Prop where
  ids : (s.subs.rows.map Sub.id).Nodup
  current : NoneTimedOut env.now s

variable {sub : String} {vis : Duration} {subs : List String}

theorem Drainable.claim (h : Drainable env s) {c : Candidate} {n : Nat}
    (hvis : validateVisibilityTimeout vis = .ok ()) :
    Drainable env (claimTopicSubscription q env sub vis c n s).2 := by
  have hids : (claimTopicSubscription q env sub vis c n s).2.subs.rows.map Sub.id =
      s.subs.rows.map Sub.id := @ids_update s _ _ (Sub.key_claim _ _ _ _) fun _ => rfl
  exact ⟨hids ▸ h.ids, h.current.claim hvis⟩

theorem Drainable.id_iff (h : Drainable env s) {r x : Sub} (hr : r ∈ s.subs.rows)
    (hx : x ∈ s.subs.rows) : decide (x.id = r.id) = true ↔ x = r := by
  rw [decide_eq_true_eq]
  exact ⟨fun he => inj_on_of_nodup_map h.ids hx hr he, fun he => he ▸ rfl⟩

theorem ready_claim_ne (h : Drainable env s) {other : String} {c : Candidate} {n : Nat}
    (hc : c.sub ∈ s.subs.rows) (hsub : c.sub.subscriberID = sub) (hne : other ≠ sub) :
    ready env other (claimTopicSubscription q env sub vis c n s).2 = ready env other s := by
  have hother : ∀ x : Sub, x.subscriberID = sub → x.deliverableTo env s other = false := by
    intro x hx
    unfold Sub.deliverableTo
    rw [decide_eq_false fun he => hne (he.symm.trans hx), Bool.false_and]
  unfold ready
  show ((s.subs.update _ _ (Sub.key_claim _ _ _ _)).rows.filter
    (Sub.deliverableTo env s other)).map Sub.key = _
  refine congrArg (List.map Sub.key) (Table.filter_update_of_not _ fun x hx hp => ?_)
  rw [(h.id_iff hc hx).mp hp]
  exact ⟨hother _ hsub, hother _ hsub⟩

theorem takes (q : Queue) (hpaused : env.paused = false) (hsub : validateSubscriberID sub = .ok ())
    (rest : String → List (UUID × String)) :
    Takes (receiveTopic q env sub) .queueEmpty (fun vis => validateVisibilityTimeout vis = .ok ())
      (fun s => Drainable env s ∧ ∀ other, other ≠ sub → ready env other s = rest other)
      (ready env sub) messageKey where
  empty vis s hvis hs hnil :=
    receiveTopic_empty hpaused hvis hsub hs.1.current.reclaimProbe
      (pendingProbe_eq_none.mpr (map_eq_nil_iff.mp hnil))
  next vis s hvis hs hne := by
    cases hp : pendingProbe env sub s with
    | none => exact absurd (congrArg (List.map Sub.key) (pendingProbe_eq_none.mp hp)) hne
    | some c =>
      obtain ⟨m, s', hrec, hclaim⟩ := receiveTopic_claims (q := q) hpaused hvis hsub hp
      obtain ⟨hc, hd⟩ := pendingProbe_eq_some hp
      have hown : c.sub.subscriberID = sub := (pendingProbe_spec hp).2.1
      have hm : messageKey m = c.sub.key := by
        have := congrArg (fun p : Option Message × State => p.1.map messageKey) hclaim
        rw [← Option.some.inj this, Sub.key, hown]
        rfl
      have hs' : s' = (claimTopicSubscription q env sub vis c c.sub.retryCount s).2 :=
        (congrArg Prod.snd hclaim).symm
      refine ⟨m, s', hrec, hs' ▸ ⟨hs.1.claim hvis, fun other hne => ?_⟩, ?_⟩
      · rw [ready_claim_ne hs.1 hc hown hne, hs.2 other hne]
      · rw [hm, hs']
        exact Perm.map Sub.key (Table.filter_perm_update (Sub.key_claim _ _ _ _) hc hd
          (fun x hx => hs.1.id_iff hc hx) (Bool.and_false _))

/-- each subscriber in turn receives until it gets nothing more, with timeouts of its own -/
def drainAll (q : Queue) (env : Env) (vis : String → Nat → Duration) (calls : Nat) :
    List String → State → Option (List Message × State)
  | [], s => some ([], s)
  | sub :: subs, s =>
    (drain (receiveTopic q env sub) .queueEmpty (vis sub) calls s).bind fun p =>
      (drainAll q env vis calls subs p.2).map fun p' => (p.1 ++ p'.1, p'.2)

theorem drainAll_spec (q : Queue) (hpaused : env.paused = false) {vis : String → Nat → Duration}
    (hvis : ∀ sub i, validateVisibilityTimeout (vis sub i) = .ok ()) {calls : Nat} (hnd : subs.Nodup)
    (hsubs : ∀ sub ∈ subs, validateSubscriberID sub = .ok ()) (h : Drainable env s)
    (hcalls : ∀ sub ∈ subs, (ready env sub s).length < calls) :
    ∃ ms s', drainAll q env vis calls subs s = some (ms, s') ∧
      (ms.map messageKey).Perm (subs.flatMap fun sub => ready env sub s) := by
  induction subs generalizing s with
  | nil => exact ⟨[], s, rfl, Perm.nil⟩
  | cons sub subs ih =>
    obtain ⟨hnot, hnd⟩ := nodup_cons.mp hnd
    rw [forall_mem_cons] at hsubs hcalls
    obtain ⟨ms, s₁, hd, ⟨h₁, hrest⟩, hp⟩ :=
      (takes q hpaused hsubs.1 fun other => ready env other s).drain (hvis sub)
        ⟨h, fun _ _ => rfl⟩ hcalls.1
    -- the other subscribers still have what they had
    have hsame : ∀ other ∈ subs, ready env other s₁ = ready env other s := fun other ho =>
      hrest other fun he => hnot (he ▸ ho)
    obtain ⟨ms', s₂, hd', hp'⟩ := ih hnd hsubs.2 h₁ fun other ho => by
      rw [hsame other ho]
      exact hcalls.2 other ho
    refine ⟨ms ++ ms', s₂, ?_, ?_⟩
    · rw [drainAll, hd, Option.bind_some, hd']
      rfl
    · rw [map_append, flatMap_cons]
      refine hp.append (hp'.trans ?_)
      rw [flatMap_congr hsame]

theorem flatMap_ready (hnd : subs.Nodup) (hsubs : ∀ r ∈ s.subs.rows, r.subscriberID ∈ subs) :
    (subs.flatMap fun sub => ready env sub s).Perm
      ((s.subs.rows.filter (Sub.deliverable env s)).map Sub.key) := by
  have hkey : ∀ p : Sub → Bool, ((s.subs.rows.filter p).map Sub.key).Nodup := fun p =>
    (filter_sublist.map Sub.key).nodup s.subs.nodup
  refine (perm_ext_iff_of_nodup ?_ (hkey _)).mpr fun k => ?_
  · refine nodup_flatMap.mpr ⟨fun sub _ => hkey _, hnd.imp fun {a b} hab k ha hb => hab ?_⟩
    have hown : ∀ sub, k ∈ ready env sub s → k.2 = sub := by
      intro sub hk
      obtain ⟨r, hr, rfl⟩ := mem_map.mp hk
      have hd := (mem_filter.mp hr).2
      unfold Sub.deliverableTo at hd
      rw [Bool.and_eq_true, decide_eq_true_eq] at hd
      exact hd.1
    exact (hown a ha).symm.trans (hown b hb)
  · rw [mem_flatMap]
    constructor
    · rintro ⟨sub, -, hk⟩
      obtain ⟨r, hr, rfl⟩ := mem_map.mp hk
      obtain ⟨hr, hd⟩ := mem_filter.mp hr
      unfold Sub.deliverableTo at hd
      rw [Bool.and_eq_true] at hd
      exact mem_map_of_mem (mem_filter.mpr ⟨hr, hd.2⟩)
    · intro hk
      obtain ⟨r, hr, rfl⟩ := mem_map.mp hk
      obtain ⟨hr, hd⟩ := mem_filter.mp hr
      refine ⟨r.subscriberID, hsubs r hr, mem_map_of_mem (mem_filter.mpr ⟨hr, ?_⟩)⟩
      unfold Sub.deliverableTo
      rw [decide_eq_true rfl, hd]
      rfl

end
end Topic

/-! ## the depth -/

/-- **QueueDepth predicts delivery.**  At a frozen database clock, with no claim timed out: if the depth
of an unpaused channel is `n`, then `n` receives return `n` different messages and every further one
`ErrQueueEmpty`; the depth of an unpaused topic is the number of messages delivered when every
subscriber with rows receives until it gets nothing more.  The rows of a topic have ids of their own
and belong to validated subscribers (`Reach.wf`, `Reach.registered`). -/
theorem depth_predicts_delivery (q : Queue) (env : Env) (hpaused : env.paused = false) :
    (∀ s : Channel.State, Channel.NoneTimedOut env.now s →
      ∀ vs : List Duration, (∀ v ∈ vs, validateVisibilityTimeout v = .ok ()) →
      vs.length = Channel.queueDepth env s →
      ∃ ms s', callAll (Channel.receiveChannel q env) vs s = (.ok ms, s') ∧
        ms.length = Channel.queueDepth env s ∧ (ms.map Message.id).Nodup ∧
        ∀ v, validateVisibilityTimeout v = .ok () →
          Channel.receiveChannel q env v s' = (.error .queueEmpty, s')) ∧
    (∀ s : Topic.State, (s.subs.rows.map Topic.Sub.id).Nodup → Topic.Registered s →
      Topic.NoneTimedOut env.now s →
      ∀ subs : List String, subs.Nodup →
      (∀ sub, sub ∈ subs ↔ ∃ r ∈ s.subs.rows, r.subscriberID = sub) →
      ∀ vis : String → Nat → Duration, (∀ sub i, validateVisibilityTimeout (vis sub i) = .ok ()) →
      ∀ calls, s.subs.rows.length < calls →
      ∃ ms s', Topic.drainAll q env vis calls subs s = some (ms, s') ∧
        ms.length = Topic.queueDepth env s ∧ (ms.map Topic.messageKey).Nodup) := by
  constructor
  · intro s ht vs hvs hn
    rw [Channel.queueDepth_eq] at hn ⊢
    obtain ⟨ms, s', hc, ht', hp, hnil⟩ := (Channel.takes q hpaused).callAll hvs ht hn
    refine ⟨ms, s', hc, ?_, hp.nodup_iff.mpr Channel.nodup_ready, fun v hv =>
      (Channel.takes q hpaused).empty v s' hv ht' hnil⟩
    rw [← hp.length_eq, length_map]
  · intro s hids hreg ht subs hnd hsubs vis hvis calls hcalls
    have hready : ∀ sub ∈ subs, (Topic.ready env sub s).length < calls := by
      intro sub _
      refine Nat.lt_of_le_of_lt ?_ hcalls
      unfold Topic.ready
      rw [length_map]
      exact length_filter_le _ _
    have hvalid : ∀ sub ∈ subs, validateSubscriberID sub = .ok () := by
      intro sub hsub
      obtain ⟨r, hr, rfl⟩ := (hsubs sub).mp hsub
      exact hreg.sub hr
    obtain ⟨ms, s', hd, hp⟩ := Topic.drainAll_spec q hpaused hvis hnd hvalid ⟨hids, ht⟩ hready
    have hp' := hp.trans (Topic.flatMap_ready hnd fun r hr => (hsubs _).mpr ⟨r, hr, rfl⟩)
    refine ⟨ms, s', hd, ?_, hp'.nodup_iff.mpr ((filter_sublist.map _).nodup s.subs.nodup)⟩
    rw [Topic.queueDepth_eq, ← length_map Topic.messageKey, hp'.length_eq, length_map]

/-- three messages of different age, and a topic with two subscribers and two messages -/
def agedChannel : Channel.State :=
  (Channel.runFrom (.counting 3) .init [(.bare 0, .publish ⟨7, [1], none⟩),
    (.bare 8, .publish ⟨8, [2], none⟩), (.bare 9, .publish ⟨9, [3], none⟩)]).1

def agedOps : List (Env × Topic.Op) :=
  [(.bare 0, .subscribe "a"), (.bare 0, .subscribe "b"), (.bare 0, .publish ⟨7, [1], none⟩),
    (.bare 8, .publish ⟨8, [2], none⟩)]

def agedTopic : Topic.State := (Topic.runFrom (.counting 3) .init agedOps).1

def agedEnv : Env := { Env.bare 10 with ttl := 5 }

/-- with a TTL of five microseconds the oldest message is neither counted nor delivered -/
theorem depth_predicts_delivery_aged :
    (∃ ms s', callAll (Channel.receiveChannel (.counting 3) agedEnv)
        [1000, 2000] agedChannel = (.ok ms, s') ∧ ms.length = 2) ∧
    (∃ ms s', Topic.drainAll (.counting 3) agedEnv (fun _ _ => 1000) 5
        ["a", "b"] agedTopic = some (ms, s') ∧ ms.length = 2) := by
  obtain ⟨hc, ht⟩ := depth_predicts_delivery (.counting 3) agedEnv rfl
  have hr : Topic.Reach (.counting 3) agedTopic ([] ++ (Topic.runFrom (.counting 3) .init agedOps).2)
      (clockAfter 0 agedOps) :=
    (Topic.Reach.init 0).ran (show Clocked 0 agedOps by
      exact ⟨by decide, by decide, by decide, by decide, trivial⟩)
  constructor
  · obtain ⟨ms, s', hcall, hlen, -, -⟩ := hc agedChannel (by unfold Channel.NoneTimedOut; decide)
      [1000, 2000] (by decide) (by decide)
    exact ⟨ms, s', hcall, hlen.trans (by decide)⟩
  · obtain ⟨ms, s', hd, hlen, -⟩ := ht agedTopic hr.wf.nodup hr.registered
      (by unfold Topic.NoneTimedOut; decide) ["a", "b"] (by decide)
      (fun sub => by
        have hrows : agedTopic.subs.rows.map Topic.Sub.subscriberID = ["a", "b", "a", "b"] := by decide
        rw [← mem_map (f := Topic.Sub.subscriberID), hrows]
        simp only [mem_cons, not_mem_nil, or_false]
        tauto) (fun _ _ => 1000) (fun _ _ => rfl) 5 (by decide)
    exact ⟨ms, s', hd, hlen.trans (by decide)⟩

end PgQueue
