import PgQueue.Reclaim.Walk
import PgQueue.Receive
import PgQueue.Channel.Run

/-!
# What one consume call does

* `Channel.reclaiming`, `Topic.reclaiming`   the loops of `fetchPendingChannelMessage` and
                         `fetchPendingTopicMessage`; a topic's loop sees the rows of one subscriber;
* `Channel.reclaims`, `Topic.reclaims`       their rounds are lawful.

`consume_oneCall`: **a call delivers the pending row that is first; without one it walks the timed-out
rows in the order of their timeouts, dead-letters or defers those it passes over, at most 64, and delivers
the first that is neither.**
-/

namespace PgQueue
open Relational List

/-- the deferral of a timed-out row puts it into the future -/
def Env.Defers (env : Env) : Prop :=
  env.backoffConfigured = true → ∀ id attempt, 0 < env.computeRetryDelay id (attempt + 1) 0

theorem First.of_select {ρ κ : Type} {key : ρ → κ} {t : Table ρ κ key} {p : ρ → Bool} {r : ρ}
    (place : ρ → Time × UUID)
    (h : (t.select p fun a b => Earlier (place a) (place b)).head? = some r) :
    First p place t.rows r := by
  obtain ⟨hr, hp, hfirst⟩ := Table.head?_select (Earlier.pairwise_insertionSort place _)
    (fun _ => Or.inr ⟨rfl, Nat.le_refl _⟩) h
  exact ⟨hr, hp, hfirst⟩

/-! ## channels -/

namespace Channel

def Row.reclaimable (env : Env) (r : Row) : Bool := r.timedOut env.now && env.withinTTL r.createdAt

def reclaiming (q : Queue) (env : Env) (vis : Duration) : Reclaiming State Row (List ReplayLogRow) where
  rows s := s.msgs.rows
  id := Row.id
  messageID := Row.id
  retryCount := Row.retryCount
  contents _ r := (r.payload, r.metadata)
  available _ := Row.deliverable env
  turn r := (r.availableAt, r.id)
  expired _ := Row.reclaimable env
  deadline r := (r.visibilityTimeout.getD 0, r.id)
  exhausted r := decide (r.retryCount + 1 > r.cap q)
  backoff := env.backoffConfigured
  deferred r := r.defer env.now (env.computeRetryDelay r.id (r.retryCount + 1) 0) (r.retryCount + 1)
  claimed := Row.claim env.now vis
  gen := q.gen
  now := env.now
  subscriberID := none
  dlq := State.dlq
  seq := State.seq
  rest := State.replayLog
  fetch := fetchPendingChannelMessage q env vis

section
variable {q : Queue} {env : Env} {vis : Duration} {s : State} {r : Row}

theorem Row.not_deliverable (h : env.now < r.availableAt) : r.deliverable env = false := by
  unfold Row.deliverable
  rw [decide_eq_false (Int.not_le.mpr h), Bool.and_false, Bool.false_and]

theorem pendingProbe_first (h : pendingProbe env s = some r) :
    First (Row.deliverable env) (fun r => (r.availableAt, r.id)) s.msgs.rows r :=
  .of_select (fun r : Row => (r.availableAt, r.id)) h

theorem reclaimProbe_first (h : reclaimProbe env s = some r) :
    First (Row.reclaimable env) (fun r => (r.visibilityTimeout.getD 0, r.id)) s.msgs.rows r :=
  .of_select (fun r : Row => (r.visibilityTimeout.getD 0, r.id)) h

theorem reclaimProbe_eq_none :
    reclaimProbe env s = none ↔ ∀ r ∈ s.msgs.rows, r.reclaimable env = false :=
  Table.head?_select_eq_none

theorem distinct_reclaiming (q : Queue) (env : Env) (vis : Duration) (s : State) :
    (reclaiming q env vis).Distinct s := s.msgs.nodup

theorem delivered_claim (q : Queue) (env : Env) (vis : Duration) (n : Nat) (s : State) (r : Row) :
    ∃ m s', claimChannelMessage q env vis r n s = (some m, s') ∧
      (reclaiming q env vis).Delivered r n s m s' := by
  refine ⟨_, _, rfl, rfl, rfl, rfl, ?_, rfl, rfl⟩
  refine map_congr_left fun x _ => ?_
  exact if_congr decide_eq_true_iff rfl rfl

/-! a round of the loop that finds a timed-out row -/

theorem fetch_skipped {s' : State} (n : Nat) (hp : pendingProbe env s = none)
    (hr : reclaimProbe env s = some r) (ha : reclaimChannelAttempt q env r s = .ok (.skipped, s')) :
    fetchPendingChannelMessage q env vis (n + 1) s = fetchPendingChannelMessage q env vis n s' := by
  rw [fetchPendingChannelMessage, hp, hr]
  dsimp only
  rw [ha]

theorem fetch_deliver {k : Nat} (n : Nat) (hp : pendingProbe env s = none)
    (hr : reclaimProbe env s = some r) (ha : reclaimChannelAttempt q env r s = .ok (.deliver k, s)) :
    fetchPendingChannelMessage q env vis (n + 1) s = .ok (claimChannelMessage q env vis r k s) := by
  rw [fetchPendingChannelMessage, hp, hr]
  dsimp only
  rw [ha]

theorem attempt_spec (vis : Duration) (hr : r ∈ s.msgs.rows) (ht : r.timedOut env.now = true) :
    ((reclaiming q env vis).passes r = true ∧ ∃ s',
        reclaimChannelAttempt q env r s = .ok (.skipped, s') ∧
        (reclaiming q env vis).PassedOver [r] s s') ∨
      ((reclaiming q env vis).passes r = false ∧
        reclaimChannelAttempt q env r s = .ok (.deliver (r.retryCount + 1), s)) := by
  have hd := distinct_reclaiming q env vis s
  have hone : ∀ x ∈ s.msgs.rows, x.id = r.id ↔ x = r := fun x hx =>
    ⟨Table.eq_of_key hx hr, congrArg Row.id⟩
  unfold reclaimChannelAttempt Reclaiming.passes
  rw [status_of_timedOut ht]
  by_cases hcap : r.retryCount + 1 > r.cap q
  · have hex : (reclaiming q env vis).exhausted r = true := decide_eq_true hcap
    rw [if_pos hcap, hex]
    refine Or.inl ⟨rfl, _, rfl, ?_⟩
    refine .bury hd hr hex (p := fun x => decide (r.id = x.id)) (fun x hx => ?_) ?_ rfl rfl rfl
    · rw [decide_eq_true_iff, eq_comm]
      exact hone x hx
    · exact filter_congr fun x _ => congrArg not (Bool.or_false _)
  · have hex : (reclaiming q env vis).exhausted r = false := decide_eq_false hcap
    rw [if_neg hcap, hex, Bool.false_or]
    by_cases hb : env.backoffConfigured = true
    · rw [if_pos hb]
      refine Or.inl ⟨hb, _, rfl, ?_⟩
      refine .postpone hd hr hex (p := fun x => decide (x.id = r.id)) (fun x hx => ?_) rfl rfl rfl rfl rfl
      rw [decide_eq_true_iff]
      exact hone x hx
    · rw [if_neg hb]
      exact Or.inr ⟨Bool.eq_false_iff.mpr hb, rfl⟩

theorem reclaims (q : Queue) (vis : Duration) (hdelay : env.Defers) :
    (reclaiming q env vis).Lawful where
  id_deferred _ := rfl
  future r hb := Int.lt_add_of_pos_right _ (hdelay hb _ _)
  available_deferred _ _ := Row.not_deliverable
  expired_deferred _ _ := rfl
  same _ _ _ := ⟨rfl, rfl, rfl⟩
  stop _ := rfl
  pending n s _ hex := by
    obtain ⟨x, hx, hav⟩ := hex
    cases hp : pendingProbe env s with
    | none => exact absurd hav (Bool.eq_false_iff.mp (Table.head?_select_eq_none.mp hp x hx))
    | some r =>
      obtain ⟨m, s', hclaim, hdel⟩ := delivered_claim q env vis r.retryCount s r
      refine ⟨r, m, s', pendingProbe_first hp, ?_, hdel⟩
      show fetchPendingChannelMessage q env vis (n + 1) s = _
      rw [fetchPendingChannelMessage, hp]
      exact congrArg Except.ok hclaim
  drained n s hdrained := by
    have hp : pendingProbe env s = none := Table.head?_select_eq_none.mpr fun r hr => (hdrained r hr).1
    have hr : reclaimProbe env s = none := Table.head?_select_eq_none.mpr fun r hr => (hdrained r hr).2
    show fetchPendingChannelMessage q env vis (n + 1) s = _
    rw [fetchPendingChannelMessage, hp, hr]
  reclaim n s _ hnone hex := by
    obtain ⟨x, hx, hexp⟩ := hex
    have hp : pendingProbe env s = none := Table.head?_select_eq_none.mpr hnone
    cases hr : reclaimProbe env s with
    | none => exact absurd hexp (Bool.eq_false_iff.mp (reclaimProbe_eq_none.mp hr x hx))
    | some r =>
      obtain ⟨hmem, ht⟩ := reclaimProbe_spec hr
      refine ⟨r, reclaimProbe_first hr, ?_⟩
      rcases attempt_spec (q := q) vis hmem ht with ⟨hpass, s', ha, hover⟩ | ⟨hpass, ha⟩
      · exact Or.inl ⟨hpass, s', fetch_skipped n hp hr ha, hover⟩
      · obtain ⟨m, s', hclaim, hdel⟩ := delivered_claim q env vis (r.retryCount + 1) s r
        refine Or.inr ⟨hpass, m, s', ?_, hdel⟩
        exact (fetch_deliver n hp hr ha).trans (congrArg Except.ok hclaim)

end
end Channel

/-! ## topics -/

namespace Topic

def Sub.reclaimableBy (env : Env) (s : State) (sub : String) (r : Sub) : Bool :=
  decide (r.subscriberID = sub) && r.timedOut env.now
    && s.tables.parentIs (fun m => env.withinTTL m.createdAt) r

/-- the payload and the metadata of a row's message; every row has one -/
def State.contents (s : State) (r : Sub) : Bytes × Option Bytes :=
  ((s.tables.parentOf r).map fun m => (m.payload, m.metadata)).getD ([], none)

def reclaiming (q : Queue) (env : Env) (subscriberID : String) (vis : Duration) :
    Reclaiming State Sub (Table MessageRow UUID MessageRow.id ×
      Table Subscriber String Subscriber.subscriberID × List ReplayLogRow) where
  rows s := s.subs.rows
  id := Sub.id
  messageID := Sub.messageID
  retryCount := Sub.retryCount
  contents := State.contents
  available s := Sub.deliverableTo env s subscriberID
  turn r := (r.availableAt, r.messageID)
  expired s := Sub.reclaimableBy env s subscriberID
  deadline r := (r.visibilityTimeout.getD 0, r.messageID)
  exhausted r := decide (r.retryCount + 1 > q.resolveMaxRetries)
  backoff := env.backoffConfigured
  deferred r :=
    r.defer env.now (env.computeRetryDelay r.messageID (r.retryCount + 1) 0) (r.retryCount + 1)
  claimed := Sub.claim env.now vis
  gen := q.gen
  now := env.now
  subscriberID := some subscriberID
  dlq := State.dlq
  seq := State.seq
  rest s := (s.msgs, s.subscribers, s.replayLog)
  fetch := fetchPendingTopicMessage q env subscriberID vis

section
variable {q : Queue} {env : Env} {sub : String} {vis : Duration} {s : State} {r : Sub} {c : Candidate}

theorem Sub.not_deliverableTo (h : env.now < r.availableAt) : r.deliverableTo env s sub = false := by
  unfold Sub.deliverableTo Sub.deliverable
  rw [decide_eq_false (Int.not_le.mpr h), Bool.and_false, Bool.false_and, Bool.and_false]

theorem State.contents_candidate (h : s.tables.parentOf c.sub = some c.msg) :
    s.contents c.sub = (c.msg.payload, c.msg.metadata) := by
  unfold State.contents
  rw [h]
  rfl

theorem pendingProbe_first (h : pendingProbe env sub s = some c) :
    First (Sub.deliverableTo env s sub) (fun r => (r.availableAt, r.messageID)) s.subs.rows c.sub ∧
      s.tables.parentOf c.sub = some c.msg := by
  rw [pendingProbe_deliverable] at h
  obtain ⟨hhead, hmsg⟩ := candidate_spec h
  exact ⟨.of_select (fun r : Sub => (r.availableAt, r.messageID)) hhead, hmsg⟩

theorem reclaimProbe_first (h : reclaimProbe env sub s = some c) :
    First (Sub.reclaimableBy env s sub) (fun r => (r.visibilityTimeout.getD 0, r.messageID))
        s.subs.rows c.sub ∧
      s.tables.parentOf c.sub = some c.msg := by
  obtain ⟨hhead, hmsg⟩ := candidate_spec h
  exact ⟨.of_select (fun r : Sub => (r.visibilityTimeout.getD 0, r.messageID)) hhead, hmsg⟩

theorem reads_msgs {s' : State} (h : s'.tables.parents = s.tables.parents) :
    Sub.deliverableTo env s' sub = Sub.deliverableTo env s sub ∧
      Sub.reclaimableBy env s' sub = Sub.reclaimableBy env s sub ∧ s'.contents = s.contents := by
  have hparent : s'.tables.parentIs (fun m => env.withinTTL m.createdAt) =
      s.tables.parentIs fun m => env.withinTTL m.createdAt := by
    unfold Linked.parentIs
    rw [h]
  refine ⟨?_, ?_, ?_⟩
  · unfold Sub.deliverableTo Sub.deliverable
    rw [hparent]
  · unfold Sub.reclaimableBy
    rw [hparent]
  · unfold State.contents Linked.parentOf
    rw [h]

theorem pendingProbe_none_iff :
    pendingProbe env sub s = none ↔ ∀ r ∈ s.subs.rows, r.deliverableTo env s sub = false := by
  rw [pendingProbe_deliverable]
  exact candidate_eq_none

theorem reclaimProbe_none_iff :
    reclaimProbe env sub s = none ↔ ∀ r ∈ s.subs.rows, r.reclaimableBy env s sub = false :=
  candidate_eq_none

theorem delivered_claim (q : Queue) (env : Env) (sub : String) (vis : Duration) (n : Nat)
    (hmsg : s.tables.parentOf c.sub = some c.msg) :
    ∃ m s', claimTopicSubscription q env sub vis c n s = (some m, s') ∧
      (reclaiming q env sub vis).Delivered c.sub n s m s' := by
  refine ⟨_, _, rfl, rfl, (State.contents_candidate hmsg).symm, rfl, ?_, rfl, rfl⟩
  refine map_congr_left fun x _ => ?_
  exact if_congr decide_eq_true_iff rfl rfl

theorem letter_candidate (hmsg : s.tables.parentOf c.sub = some c.msg) :
    (reclaiming q env sub vis).letter s c.sub =
      ⟨c.sub.messageID, c.msg.payload, c.sub.retryCount + 1, c.msg.metadata⟩ := by
  have hcontents : (reclaiming q env sub vis).contents s c.sub = (c.msg.payload, c.msg.metadata) :=
    State.contents_candidate hmsg
  unfold Reclaiming.letter
  rw [hcontents]
  rfl

/-! a round of the loop that finds a timed-out row -/

theorem fetch_skipped {s' : State} (n : Nat) (hp : pendingProbe env sub s = none)
    (hr : reclaimProbe env sub s = some c) (ha : reclaimTopicAttempt q env sub c s = .ok (.skipped, s')) :
    fetchPendingTopicMessage q env sub vis (n + 1) s = fetchPendingTopicMessage q env sub vis n s' := by
  rw [fetchPendingTopicMessage, hp, hr]
  dsimp only
  rw [ha]

theorem fetch_deliver {k : Nat} (n : Nat) (hp : pendingProbe env sub s = none)
    (hr : reclaimProbe env sub s = some c) (ha : reclaimTopicAttempt q env sub c s = .ok (.deliver k, s)) :
    fetchPendingTopicMessage q env sub vis (n + 1) s =
      .ok (claimTopicSubscription q env sub vis c k s) := by
  rw [fetchPendingTopicMessage, hp, hr]
  dsimp only
  rw [ha]

theorem attempt_spec (vis : Duration) (hd : (reclaiming q env sub vis).Distinct s)
    (hr : c.sub ∈ s.subs.rows) (hsub : c.sub.subscriberID = sub)
    (hmsg : s.tables.parentOf c.sub = some c.msg) (ht : c.sub.timedOut env.now = true) :
    ((reclaiming q env sub vis).passes c.sub = true ∧ ∃ s',
        reclaimTopicAttempt q env sub c s = .ok (.skipped, s') ∧
        (reclaiming q env sub vis).PassedOver [c.sub] s s') ∨
      ((reclaiming q env sub vis).passes c.sub = false ∧
        reclaimTopicAttempt q env sub c s = .ok (.deliver (c.sub.retryCount + 1), s)) := by
  unfold reclaimTopicAttempt Reclaiming.passes
  rw [status_of_timedOut ht]
  by_cases hcap : c.sub.retryCount + 1 > q.resolveMaxRetries
  · have hex : (reclaiming q env sub vis).exhausted c.sub = true := decide_eq_true hcap
    rw [if_pos hcap, hex]
    refine Or.inl ⟨rfl, _, rfl, ?_⟩
    -- the statement goes by the message and the subscriber
    refine .bury hd hr hex (p := fun x => decide (x.key = c.sub.key)) (fun x hx => ?_) ?_ ?_ rfl rfl
    · rw [decide_eq_true_iff]
      exact ⟨Table.eq_of_key hx hr, congrArg Sub.key⟩
    · refine filter_congr fun x _ => congrArg not ?_
      rw [Bool.eq_iff_iff]
      simp only [any_cons, any_nil, Bool.or_false, Bool.and_eq_true, decide_eq_true_eq,
        Sub.key, Prod.mk.injEq, hsub, @eq_comm _ c.sub.messageID]
    · rw [letter_candidate hmsg]
      rfl
  · have hex : (reclaiming q env sub vis).exhausted c.sub = false := decide_eq_false hcap
    rw [if_neg hcap, hex, Bool.false_or]
    by_cases hb : env.backoffConfigured = true
    · rw [if_pos hb]
      refine Or.inl ⟨hb, _, rfl, ?_⟩
      refine .postpone hd hr hex (p := fun x => decide (x.id = c.sub.id)) (fun x hx => ?_)
        rfl rfl rfl rfl rfl
      rw [decide_eq_true_iff]
      exact ⟨inj_on_of_nodup_map hd hx hr, congrArg Sub.id⟩
    · rw [if_neg hb]
      exact Or.inr ⟨Bool.eq_false_iff.mpr hb, rfl⟩

theorem reclaims (q : Queue) (sub : String) (vis : Duration) (hdelay : env.Defers) :
    (reclaiming q env sub vis).Lawful where
  id_deferred _ := rfl
  future r hb := Int.lt_add_of_pos_right _ (hdelay hb _ _)
  available_deferred _ _ := Sub.not_deliverableTo
  expired_deferred s r := by
    show (_ && false && _) = false
    rw [Bool.and_false, Bool.false_and]
  same s s' h := reads_msgs (congrArg Prod.fst h)
  stop _ := rfl
  pending n s _ hex := by
    obtain ⟨x, hx, hav⟩ := hex
    cases hp : pendingProbe env sub s with
    | none => exact absurd hav (Bool.eq_false_iff.mp (pendingProbe_none_iff.mp hp x hx))
    | some c =>
      obtain ⟨hfirst, hmsg⟩ := pendingProbe_first hp
      obtain ⟨m, s', hclaim, hdel⟩ := delivered_claim q env sub vis c.sub.retryCount hmsg
      refine ⟨c.sub, m, s', hfirst, ?_, hdel⟩
      show fetchPendingTopicMessage q env sub vis (n + 1) s = _
      rw [fetchPendingTopicMessage, hp]
      exact congrArg Except.ok hclaim
  drained n s hdrained := by
    have hp : pendingProbe env sub s = none := pendingProbe_none_iff.mpr fun r hr => (hdrained r hr).1
    have hr : reclaimProbe env sub s = none := reclaimProbe_none_iff.mpr fun r hr => (hdrained r hr).2
    show fetchPendingTopicMessage q env sub vis (n + 1) s = _
    rw [fetchPendingTopicMessage, hp, hr]
  reclaim n s hd hnone hex := by
    obtain ⟨x, hx, hexp⟩ := hex
    have hp : pendingProbe env sub s = none := pendingProbe_none_iff.mpr hnone
    cases hr : reclaimProbe env sub s with
    | none => exact absurd hexp (Bool.eq_false_iff.mp (reclaimProbe_none_iff.mp hr x hx))
    | some c =>
      obtain ⟨hfirst, hmsg⟩ := reclaimProbe_first hr
      obtain ⟨hmem, hsub, ht⟩ := reclaimProbe_spec hr
      refine ⟨c.sub, hfirst, ?_⟩
      rcases attempt_spec vis hd hmem hsub hmsg ht with ⟨hpass, s', ha, hover⟩ | ⟨hpass, ha⟩
      · exact Or.inl ⟨hpass, s', fetch_skipped n hp hr ha, hover⟩
      · obtain ⟨m, s', hclaim, hdel⟩ := delivered_claim q env sub vis (c.sub.retryCount + 1) hmsg
        refine Or.inr ⟨hpass, m, s', ?_, hdel⟩
        exact (fetch_deliver n hp hr ha).trans (congrArg Except.ok hclaim)

end
end Topic

/-- The id of a subscription row is the primary key of its table. -/
theorem consume_oneCall (q : Queue) (env : Env) (vis : Duration) (hdelay : env.Defers) :
    (∀ s, (Channel.reclaiming q env vis).OneCall maxConsumeReclaimDefers s) ∧
      (∀ sub (s : Topic.State), (s.subs.rows.map Topic.Sub.id).Nodup →
        (Topic.reclaiming q env sub vis).OneCall maxConsumeReclaimDefers s) :=
  ⟨fun s => (Channel.reclaims q vis hdelay).oneCall 63 (Channel.distinct_reclaiming q env vis s),
    fun sub _ hd => (Topic.reclaims q sub vis hdelay).oneCall 63 hd⟩

/-- 7 was delivered twice and 8 once, each time for 1000 µs, and nobody answered -/
def abandoned : Channel.State :=
  (Channel.runFrom (.counting 1) .init
    [(.bare 0, .publish ⟨7, [1], none⟩), (.bare 0, .receive 1000), (.bare 5000, .receive 1000),
      (.bare 5000, .publish ⟨8, [2], none⟩), (.bare 5000, .receive 1000)]).1

def abandonedTopic : Topic.State :=
  (Topic.runFrom (.counting 1) .init
    [(.bare 0, .subscribe "a"), (.bare 0, .publish ⟨7, [1], none⟩), (.bare 0, .receive "a" 1000),
      (.bare 5000, .receive "a" 1000), (.bare 5000, .publish ⟨8, [2], none⟩),
      (.bare 5000, .receive "a" 1000)]).1

def deferring : Env :=
  { Env.bare 9000 with backoffConfigured := true, policyDelay := fun _ attempt => attempt * 1000000 }

/-- 7 has no retry left and is dead-lettered; under a backoff policy 8 is deferred and nothing is left to
deliver, without one it is delivered -/
theorem consume_oneCall_passedOver : deferring.Defers ∧
    (Channel.reclaiming (.counting 1) deferring 1000).OneCall maxConsumeReclaimDefers abandoned ∧
    (Channel.fetchPendingChannelMessage (.counting 1) deferring 1000 maxConsumeReclaimDefers
      abandoned).map (fun x => (x.1.map Message.id, x.2.dlq.map DLQRow.originalMessageID,
        x.2.msgs.rows.map fun r => (r.id, r.status, r.retryCount, r.availableAt))) =
      .ok (none, [7], [(8, .pending, 1, 1009000)]) ∧
    (Topic.reclaiming (.counting 1) (.bare 9000) "a" 1000).OneCall maxConsumeReclaimDefers
      abandonedTopic ∧
    (Topic.fetchPendingTopicMessage (.counting 1) (.bare 9000) "a" 1000 maxConsumeReclaimDefers
      abandonedTopic).map (fun x => (x.1.map Message.id, x.2.dlq.map DLQRow.originalMessageID,
        x.2.subs.rows.map fun r => (r.messageID, r.status, r.retryCount))) =
      .ok (some 8, [7], [(8, .processing, 1)]) := by
  have hdelay : deferring.Defers := by
    intro _ _ attempt
    show (0 : Int) < ((attempt + 1 : Nat) : Int) * 1000000
    omega
  exact ⟨hdelay, (consume_oneCall (.counting 1) deferring 1000 hdelay).1 abandoned, rfl,
    (consume_oneCall (.counting 1) (.bare 9000) 1000 nofun).2 "a" abandonedTopic (by decide), rfl⟩

end PgQueue
