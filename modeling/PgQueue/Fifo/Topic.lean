import PgQueue.Fifo.Lane
import PgQueue.Guarantees.Publishing
import PgQueue.Topic.Registry

/-!
# First in, first out: a subscriber of a topic

The line of a subscriber are its pending subscription rows, in the order of the table.  The other
subscribers come and go, and receive, acknowledge and fail as they like.

* `Topic.lane`, `Topic.quiet`   the subscriber is active whenever something is published; at its receives
                                there is no TTL and no claim of its own has run out;
* `Topic.waiting_fetch_ne`      a receive of another subscriber leaves the line alone;
* `Topic.orderly`               **the line of a subscriber is served at the front.**
-/

namespace PgQueue.Topic
open Relational Process Publisher Fifo List

def Active (sub : String) (s : State) : Prop :=
  ∃ x ∈ s.subscribers.rows, x.subscriberID = sub ∧ x.active = true

def CurrentFor (sub : String) (now : Time) (s : State) : Prop :=
  ∀ r ∈ s.subs.rows, r.subscriberID = sub → r.timedOut now = false

def lane (q : Queue) (sub : String) : Lane State Op where
  publish := Chunked.publishToPubSub q
  publishBatch := Chunked.publishBatchToPubSub q
  receive env vis s := receiveTopic q env sub vis s
  other env op s := (step q env s op).1

def quiet (sub : String) : Rules State Op where
  publish := Active sub
  receive env s := env.ttl ≤ 0 ∧ CurrentFor sub env.now s
  other
    | .subscribe _ | .unsubscribe _ | .ack _ | .ackBatch _ _ | .extend _ _ => True
    | .receive x _ => x ≠ sub
    | .nack r _ _ => r.subscriberID ≠ sub
    | .nackBatch _ k _ _ => k.subscriberID ≠ sub
    | _ => False

def Sub.isWaiting (sub : String) (r : Sub) : Bool :=
  decide (r.subscriberID = sub) && decide (r.status = .pending)

def Sub.place (r : Sub) : Time × UUID := (r.availableAt, r.messageID)

def waiting (sub : String) (s : State) : List (Time × UUID) :=
  (s.subs.rows.filter (Sub.isWaiting sub)).map Sub.place

section
variable {q : Queue} {env : Env} {sub : String} {s s' : State} {vis : Duration} {r : Sub}
  {p : Sub → Bool} {active : List String} {f : Sub → Sub}

theorem Sub.not_isWaiting (h : r.subscriberID ≠ sub) : r.isWaiting sub = false := by
  unfold Sub.isWaiting
  rw [decide_eq_false h, Bool.false_and]

theorem Sub.not_isWaiting_of_status (h : r.status ≠ .pending) : r.isWaiting sub = false := by
  unfold Sub.isWaiting
  rw [decide_eq_false h, Bool.and_false]

/-! ## publish -/

theorem place_subRows (gen : Generator) (seq : Nat) (now : Time) (id : UUID) (active : List String) :
    ((subRows gen seq now (active.map fun x => (id, x))).filter (Sub.isWaiting sub)).map Sub.place =
      (active.filter fun x => decide (x = sub)).map fun _ => (now, id) := by
  induction active generalizing seq with
  | nil => rfl
  | cons x active ih =>
    rw [map_cons, subRows]
    by_cases hx : x = sub
    · rw [filter_cons_of_pos (by simp [Sub.isWaiting, newSub, hx]),
        filter_cons_of_pos (by simp [hx]), map_cons, map_cons, ih]
      rfl
    · rw [filter_cons_of_neg (by simp [Sub.isWaiting, newSub, hx]),
        filter_cons_of_neg (by simp [hx]), ih]

theorem nodup_active (h : getActiveSubscribers env s = .ok active) : active.Nodup := by
  unfold getActiveSubscribers at h
  dsimp only at h
  split at h
  · cases h
  · cases h
    exact s.subscribers.nodup_select _ _

theorem Active.mem (ha : Active sub s) (h : getActiveSubscribers env s = .ok active) :
    sub ∈ active := by
  obtain ⟨x, hx, rfl, hact⟩ := ha
  unfold getActiveSubscribers at h
  dsimp only at h
  split at h
  · cases h
  · cases h
    exact mem_map_of_mem (Table.mem_select.mpr ⟨hx, hact⟩)

theorem waiting_publish {m : PublishMessage} (ha : Active sub s)
    (h : publishToPubSub q env m s = .ok s') :
    Active sub s' ∧ waiting sub s' = waiting sub s ++ [(env.now, m.id)] := by
  obtain ⟨hn, active, hact, hins⟩ := publishToPubSub_iff.mp h
  obtain ⟨hsubs, -, hreg, -, -, -⟩ := insertSubscriptionRecords_spec hins
  have hnd := nodup_active hact
  have hrows : s'.subs.rows =
      s.subs.rows ++ subRows q.gen s.seq env.now (active.map fun x => (m.id, x)) := by
    rw [hsubs]
    refine Table.rows_insertAll_fresh ?_ fun r hr => ?_
    · rw [key_subRows]
      exact hnd.map fun _ _ he => (Prod.mk.inj he).2
    · -- a row with the id of the message would have its message in the table
      obtain ⟨i, -, -, k, hk, rfl⟩ := mem_subRows hr
      obtain ⟨x, -, rfl⟩ := mem_map.mp hk
      show s.subs.find? (m.id, x) = none
      cases hf : s.subs.find? (m.id, x) with
      | none => rfl
      | some r =>
        obtain ⟨hr, hkey⟩ := Table.find?_eq_some.mp hf
        have hl := s.tables.linked r hr
        rw [hkey, show s.tables.parents.find? m.id = none from hn] at hl
        cases hl
  constructor
  · obtain ⟨x, hx, hid, hactive⟩ := ha
    exact ⟨x, hreg ▸ hx, hid, hactive⟩
  · unfold waiting
    rw [hrows, filter_append, map_append, place_subRows, filter_eq,
      count_eq_one_of_mem hnd (ha.mem hact)]
    rfl

/-! ## the calls of others -/

theorem waiting_update (hf : ∀ r, (f r).key = r.key)
    (hp : ∀ r ∈ s.subs.rows, p r = true → r.isWaiting sub = false ∧ (f r).isWaiting sub = false)
    (hs' : s'.subs = s.subs.update p f hf) : waiting sub s' = waiting sub s := by
  unfold waiting
  rw [hs']
  exact congrArg (List.map Sub.place) (Table.filter_update_of_not hf hp)

theorem waiting_update_ne (hf : ∀ r, (f r).key = r.key)
    (hp : ∀ r ∈ s.subs.rows, p r = true → r.subscriberID ≠ sub) (hs' : s'.subs = s.subs.update p f hf) :
    waiting sub s' = waiting sub s := by
  refine waiting_update hf (fun r hr hpr => ⟨Sub.not_isWaiting (hp r hr hpr), ?_⟩) hs'
  exact Sub.not_isWaiting ((Prod.mk.inj (hf r)).2 ▸ hp r hr hpr)

theorem waiting_delete_ne (hp : ∀ r, p r = true → r.subscriberID ≠ sub)
    (hs' : s'.subs = s.subs.delete p) : waiting sub s' = waiting sub s := by
  unfold waiting
  rw [hs', Table.rows_delete, filter_filter]
  refine congrArg (List.map Sub.place) (filter_congr fun r _ => ?_)
  cases hpr : p r with
  | false => exact Bool.and_true _
  | true => rw [Sub.not_isWaiting (hp r hpr), Bool.false_and]

theorem waiting_moveSubToDLQ_ne {x : String} (hne : x ≠ sub) {id : UUID} {reason : Bytes}
    {state : SubState} : waiting sub (moveSubToDLQ q env id x reason state s) = waiting sub s := by
  refine waiting_delete_ne (fun r hr => ?_) rfl
  rw [Bool.and_eq_true, decide_eq_true_eq] at hr
  exact hr.2 ▸ hne

theorem Wf.ne_of_id (hw : Wf q s) {x : Sub} (hr : r ∈ s.subs.rows) (hne : r.subscriberID ≠ sub)
    (hx : x ∈ s.subs.rows) (h : decide (x.id = r.id) = true) : x.subscriberID ≠ sub := by
  rw [hw.eq_of_id hx hr (of_decide_eq_true h)]
  exact hne

theorem waiting_claim_ne (x : String) (hw : Wf q s) {c : Candidate} {n : Nat}
    (hc : c.sub ∈ s.subs.rows) (hne : c.sub.subscriberID ≠ sub) :
    waiting sub (claimTopicSubscription q env x vis c n s).2 = waiting sub s :=
  waiting_update_ne (Sub.key_claim _ _ _ _) (fun _ hr h => hw.ne_of_id hc hne hr h) rfl

theorem waiting_fetch_ne {x : String} (hne : x ≠ sub) {m : Option Message} (hw : Wf q s)
    (h : Fetched q env x vis s m s') : waiting sub s' = waiting sub s := by
  induction h with
  | nothing => rfl
  | pending hr hx | reclaimed hr hx => exact waiting_claim_ne x hw hr (hx ▸ hne)
  | buried _ _ _ _ _ ih => exact (ih hw.moveSubToDLQ).trans (waiting_moveSubToDLQ_ne hne)
  | deferred hr hx _ _ _ ih =>
    refine (ih hw.defer).trans (waiting_update_ne (Sub.key_defer _ _ _) (fun _ hc h => ?_) rfl)
    exact hw.ne_of_id hr (hx ▸ hne) hc h

theorem waiting_other {op : Op} (hw : Wf q s) (h : (quiet sub).other op) :
    waiting sub (step q env s op).1 = waiting sub s := by
  let P := fun x : State × History (UUID × String) => waiting sub x.1 = waiting sub s
  have hunder : ∀ {x : String} {id c : UUID} {r : Sub}, r.underClaim id x c = true →
      r.status = .processing := fun hr => (underClaim_eq.mp hr).2.2
  have hproc : ∀ {r : Sub}, r.status = .processing → r.isWaiting sub = false :=
    fun hr => Sub.not_isWaiting_of_status (by rw [hr]; nofun)
  have hacked : ∀ {r : Sub} {now : Time}, (r.ack now).isWaiting sub = false :=
    Sub.not_isWaiting_of_status nofun
  cases op with
  | subscribe x =>
    refine commit'_cases P rfl fun s' hs => ?_
    obtain ⟨-, rfl⟩ := registerSubscriber_ok hs
    rfl
  | unsubscribe x =>
    refine commit'_cases P rfl fun s' hs => ?_
    obtain rfl := unregisterSubscriber_ok hs
    rfl
  | receive x vis =>
    exact commit_cases P rfl fun m s' hs => waiting_fetch_ne h hw (fetched_of_consume hs)
  | ack r =>
    refine commit'_cases P rfl fun s' hs => ?_
    obtain ⟨-, rfl⟩ := ackTopic_ok hs
    exact waiting_update (Sub.key_ack _) (fun _ _ hr => ⟨hproc (hunder hr), hacked⟩) rfl
  | ackBatch rs k =>
    refine commit_cases P rfl fun res s' hs => ?_
    obtain ⟨-, -, rfl⟩ := ackTopicBatch_ok hs
    refine waiting_update (Sub.key_ack _) (fun row _ hrow => ⟨?_, hacked⟩) rfl
    obtain ⟨r, -, hr⟩ := hit_iff.mp hrow
    exact hproc (hunder hr)
  | extend r d =>
    refine commit'_cases P rfl fun s' hs => ?_
    obtain ⟨-, -, rfl⟩ := extendTopicVisibility_ok hs
    refine waiting_update (Sub.key_extend _ _) (fun _ _ hr => ⟨hproc (hunder hr), ?_⟩) rfl
    exact hproc (hunder hr)
  | nack r reason delay =>
    refine commit'_cases P rfl fun s' hs => ?_
    obtain ⟨-, state, rfl⟩ := nackTopicImpl_ok hs
    unfold nackFound
    split
    · exact waiting_moveSubToDLQ_ne h
    · refine waiting_update_ne (Sub.key_retry _ _ _) (fun row _ hrow => ?_) rfl
      rw [(Prod.mk.inj (of_decide_eq_true hrow)).2]
      exact h
  | nackBatch rs k reason delay =>
    refine commit_cases P rfl fun res s' hs => ?_
    obtain ⟨-, -, rfl⟩ := nackTopicBatch_ok hs
    unfold processNackTopicBatch
    refine Eq.trans (waiting_delete_ne (fun row hrow => ?_) rfl)
      (waiting_update_ne (fun row => Sub.key_retry env.now _ _ row) (fun row _ hrow => ?_) rfl)
    · rw [Bool.and_eq_true, decide_eq_true_eq] at hrow
      exact hrow.2 ▸ h
    · rw [Bool.and_eq_true, decide_eq_true_eq] at hrow
      exact hrow.2 ▸ h
  | _ => exact h.elim

/-! ## receive -/

theorem CurrentFor.reclaimProbe (h : CurrentFor sub env.now s) : reclaimProbe env sub s = none := by
  cases hp : Topic.reclaimProbe env sub s with
  | none => rfl
  | some c =>
    obtain ⟨hr, hsub, ht⟩ := reclaimProbe_spec hp
    rw [h c.sub hr hsub] at ht
    cases ht

theorem filter_deliverable (httl : env.ttl ≤ 0) (harr : ∀ k ∈ waiting sub s, k.1 ≤ env.now) :
    s.subs.rows.filter (Sub.deliverableTo env s sub) = s.subs.rows.filter (Sub.isWaiting sub) := by
  refine filter_congr fun r hr => ?_
  unfold Sub.deliverableTo Sub.deliverable
  rw [← Bool.and_assoc, ← Bool.and_assoc]
  show (r.isWaiting sub && _ && _) = _
  cases hp : r.isWaiting sub with
  | false => rfl
  | true =>
    have hle : r.availableAt ≤ env.now :=
      harr r.place (mem_map_of_mem (mem_filter.mpr ⟨hr, hp⟩))
    obtain ⟨m, hm⟩ := s.tables.exists_parentOf hr
    have hw : s.tables.parentIs (fun m => env.withinTTL m.createdAt) r = true := by
      unfold Linked.parentIs
      rw [show s.tables.parents.find? (Prod.fst r.key) = some m from hm, Option.any_some]
      unfold Env.withinTTL
      rw [decide_eq_true httl, Bool.true_or]
    rw [decide_eq_true hle, hw]
    rfl

theorem pendingProbe_waiting (httl : env.ttl ≤ 0) (hline : InLine (waiting sub s))
    (harr : ∀ k ∈ waiting sub s, k.1 ≤ env.now) :
    pendingProbe env sub s = (s.subs.rows.filter (Sub.isWaiting sub)).head?.bind s.candidate := by
  have hfilter := filter_deliverable httl harr
  have hsort : (s.subs.rows.filter (Sub.deliverableTo env s sub)).Pairwise
      fun a b => Earlier (a.availableAt, a.messageID) (b.availableAt, b.messageID) := by
    rw [hfilter]
    refine (pairwise_map.mp hline).imp fun {a b} hab => ?_
    exact (Int.lt_or_eq_of_le hab.1).imp id fun he => ⟨he, Nat.le_of_lt hab.2⟩
  rw [pendingProbe_deliverable]
  show (s.subs.select (Sub.deliverableTo env s sub) _).head?.bind s.candidate = _
  rw [Table.select_of_pairwise hsort, hfilter]

theorem serve_waiting {k : Time × UUID} {rest : List (Time × UUID)}
    (hsub : validateSubscriberID sub = .ok ()) (ha : Admits env vis) (hw : Wf q s)
    (hq : (quiet sub).receive env s) (hline : InLine (waiting sub s))
    (harr : ∀ k ∈ waiting sub s, k.1 ≤ env.now) (hk : waiting sub s = k :: rest) :
    ∃ m s', receiveTopic q env sub vis s = (.ok m, s') ∧ Wf q s' ∧ waiting sub s' = rest ∧
      m.id = k.2 := by
  obtain ⟨r, rows, hrows, rfl, rfl⟩ := map_eq_cons_iff.mp hk
  have hr : r ∈ s.subs.rows := (mem_filter.mp (hrows ▸ mem_cons_self)).1
  obtain ⟨msg, hmsg⟩ := s.tables.exists_parentOf hr
  have hp : pendingProbe env sub s = some ⟨r, msg⟩ := by
    rw [pendingProbe_waiting hq.1 hline harr, hrows, head?_cons, Option.bind_some,
      State.candidate, hmsg]
    rfl
  obtain ⟨m, s', hrec, hclaim⟩ := receiveTopic_claims (q := q) ha.1 ha.2 hsub hp
  obtain ⟨hm, hs'⟩ := Prod.mk.inj hclaim
  refine ⟨m, s', hrec, ?_, ?_, by rw [← Option.some.inj hm]; rfl⟩
  · rw [← hs']
    exact hw.claim sub
  · rw [← hs']
    refine congrArg (List.map Sub.place)
      (Table.filter_update_head (Sub.key_claim _ _ _ _) hrows (fun x hx => ?_) (Bool.and_false _))
    rw [decide_eq_true_eq]
    exact ⟨fun he => hw.eq_of_id hx hr he, fun he => he ▸ rfl⟩

end

theorem orderly (q : Queue) {sub : String} (hsub : validateSubscriberID sub = .ok ()) :
    Orderly (lane q sub) (quiet sub) (Wf q) (waiting sub) where
  publish {env m s s'} hw ha h := by
    have h' : publishToPubSub q env m s = .ok s' := Chunked.publishToPubSub_eq q env m s ▸ h
    have hs' : (step q env s (.publish m)).1 = s' := by
      rw [step, h']
      rfl
    exact ⟨hs' ▸ (step_moves (.publish m) hw).1, waiting_publish ha h'⟩
  batch hne hlen h := (chunked_eachTx hne hlen).mp h
  refused env vis s h := by
    show ∃ e, received s (consumeFromTopic q env sub vis s) = _
    unfold consumeFromTopic
    cases hv : validateVisibilityTimeout vis with
    | error e => exact ⟨_, rfl⟩
    | ok _ =>
      rw [hsub]
      cases hp : env.paused with
      | true => exact ⟨_, rfl⟩
      | false => exact absurd ⟨hp, hv⟩ h
  empty {env vis s} ha _ hq hw := by
    refine receiveTopic_empty ha.1 ha.2 hsub hq.2.reclaimProbe ?_
    have hnil : InLine (waiting sub s) ∧ ∀ k ∈ waiting sub s, k.1 ≤ env.now := by
      rw [hw]
      exact ⟨Pairwise.nil, fun _ h => absurd h not_mem_nil⟩
    rw [pendingProbe_waiting hq.1 hnil.1 hnil.2, map_eq_nil_iff.mp hw]
    rfl
  serve ha hw hq hline harr hk := serve_waiting hsub ha hw hq hline harr hk
  other _ _ _ hw h := ⟨(step_moves _ hw).1, waiting_other hw h⟩

end PgQueue.Topic
