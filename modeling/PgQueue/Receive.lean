import PgQueue.Guarantees.Deliverable

/-!
# Receiving

`ReceiveChannel` and `ReceiveTopic` turn an empty probe into `ErrQueueEmpty`.

* `receiveChannel`, `receiveTopic`   the calls; the transaction commits also when there is no message;
* `NoneTimedOut`                     no processing row has outlived its visibility timeout;
* `receiveChannel_claims`, `receiveTopic_claims`   where none is, a receive claims the first deliverable
                                     row, and that row alone.
-/

namespace PgQueue
open Relational List

inductive ReceiveError where
  | queue (e : QueueError)
  | queueEmpty
deriving DecidableEq, Repr

def received {σ : Type} (s : σ) : Except QueueError (Option Message × σ) → Except ReceiveError Message × σ
  | .error e => (.error (.queue e), s)
  | .ok (none, s') => (.error .queueEmpty, s')
  | .ok (some m, s') => (.ok m, s')

/-! ## channels -/

namespace Channel

def receiveChannel (q : Queue) (env : Env) (vis : Duration) (s : State) :
    Except ReceiveError Message × State :=
  received s (consumeFromChannel q env vis s)

def NoneTimedOut (now : Time) (s : State) : Prop := ∀ r ∈ s.msgs.rows, r.timedOut now = false

section
variable {q : Queue} {env : Env} {vis : Duration} {s : State} {r : Row}

theorem pendingProbe_eq_none :
    pendingProbe env s = none ↔ s.msgs.rows.filter (Row.deliverable env) = [] := by
  rw [pendingProbe_deliverable, head?_eq_none_iff]
  have hp := s.msgs.select_perm (Row.deliverable env)
    (fun a b => Earlier (a.availableAt, a.id) (b.availableAt, b.id))
  exact ⟨fun h => (h ▸ hp).nil_eq.symm, fun h => (h ▸ hp).eq_nil⟩

theorem pendingProbe_eq_some (h : pendingProbe env s = some r) :
    r ∈ s.msgs.rows ∧ r.deliverable env = true :=
  Table.mem_select.mp (mem_of_mem_head? (pendingProbe_deliverable env s ▸ h))

theorem NoneTimedOut.reclaimProbe (h : NoneTimedOut env.now s) : reclaimProbe env s = none := by
  cases hp : Channel.reclaimProbe env s with
  | none => rfl
  | some r =>
    obtain ⟨hr, ht⟩ := reclaimProbe_spec hp
    rw [h r hr] at ht
    cases ht

variable (hpaused : env.paused = false) (hvis : validateVisibilityTimeout vis = .ok ())
include hpaused hvis

theorem receiveChannel_empty (ht : NoneTimedOut env.now s) (hp : pendingProbe env s = none) :
    receiveChannel q env vis s = (.error .queueEmpty, s) := by
  unfold receiveChannel consumeFromChannel
  rw [hvis, hpaused]
  show received s (fetchPendingChannelMessage q env vis (63 + 1) s) = _
  rw [fetchPendingChannelMessage, hp, ht.reclaimProbe]
  rfl

theorem receiveChannel_claims (hp : pendingProbe env s = some r) :
    ∃ m s', receiveChannel q env vis s = (.ok m, s') ∧
      claimChannelMessage q env vis r r.retryCount s = (some m, s') := by
  refine ⟨_, _, ?_, rfl⟩
  unfold receiveChannel consumeFromChannel
  rw [hvis, hpaused]
  show received s (fetchPendingChannelMessage q env vis (63 + 1) s) = _
  rw [fetchPendingChannelMessage, hp]
  rfl

omit hpaused in
theorem NoneTimedOut.claim (ht : NoneTimedOut env.now s) {row : Row} {n : Nat} :
    NoneTimedOut env.now (claimChannelMessage q env vis row n s).2 := by
  refine Table.forall_update ht fun x hx _ => ?_
  have hpos : (0 : Int) < vis := pos_of_validateVisibilityTimeout hvis
  have hlate : ¬ env.now + vis < env.now := Int.not_lt.mpr (Int.le_add_of_nonneg_right hpos.le)
  show (decide _ && decide (env.now + vis < env.now)) = false
  rw [decide_eq_false hlate, Bool.and_false]

end
end Channel

/-! ## topics -/

namespace Topic

def receiveTopic (q : Queue) (env : Env) (subscriberID : String) (vis : Duration) (s : State) :
    Except ReceiveError Message × State :=
  received s (consumeFromTopic q env subscriberID vis s)

def NoneTimedOut (now : Time) (s : State) : Prop := ∀ r ∈ s.subs.rows, r.timedOut now = false

def Sub.deliverableTo (env : Env) (s : State) (sub : String) (r : Sub) : Bool :=
  decide (r.subscriberID = sub) && r.deliverable env s

section
variable {q : Queue} {env : Env} {sub : String} {vis : Duration} {s : State} {c : Candidate}

theorem candidate_eq_none {p : Sub → Bool} {le : Sub → Sub → Prop} [DecidableRel le] :
    (s.subs.select p le).head?.bind s.candidate = none ↔ ∀ r ∈ s.subs.rows, p r = false := by
  have hhead : (s.subs.select p le).head? = none ↔ ∀ r ∈ s.subs.rows, p r = false :=
    Table.head?_select_eq_none
  rw [← hhead]
  cases hl : (s.subs.select p le).head? with
  | none => exact iff_of_true rfl rfl
  | some r =>
    obtain ⟨m, hm⟩ := s.tables.exists_parentOf (Table.mem_select.mp (mem_of_mem_head? hl)).1
    rw [Option.bind_some, State.candidate, hm]
    exact iff_of_false (Option.some_ne_none _) (Option.some_ne_none _)

theorem pendingProbe_eq_none :
    pendingProbe env sub s = none ↔ s.subs.rows.filter (Sub.deliverableTo env s sub) = [] := by
  rw [pendingProbe_deliverable, candidate_eq_none, filter_eq_nil_iff]
  exact forall₂_congr fun r _ => (Bool.not_eq_true _).symm.to_iff

theorem pendingProbe_eq_some (h : pendingProbe env sub s = some c) :
    c.sub ∈ s.subs.rows ∧ c.sub.deliverableTo env s sub = true := by
  rw [pendingProbe_deliverable] at h
  exact Table.mem_select.mp (mem_of_mem_head? (candidate_spec h).1)

theorem NoneTimedOut.reclaimProbe (h : NoneTimedOut env.now s) : reclaimProbe env sub s = none := by
  cases hp : Topic.reclaimProbe env sub s with
  | none => rfl
  | some c =>
    obtain ⟨hr, -, ht⟩ := reclaimProbe_spec hp
    rw [h c.sub hr] at ht
    cases ht

variable (hpaused : env.paused = false) (hvis : validateVisibilityTimeout vis = .ok ())
  (hsub : validateSubscriberID sub = .ok ())
include hpaused hvis hsub

theorem receiveTopic_empty (ht : reclaimProbe env sub s = none) (hp : pendingProbe env sub s = none) :
    receiveTopic q env sub vis s = (.error .queueEmpty, s) := by
  unfold receiveTopic consumeFromTopic
  rw [hvis, hsub, hpaused]
  show received s (fetchPendingTopicMessage q env sub vis (63 + 1) s) = _
  rw [fetchPendingTopicMessage, hp, ht]
  rfl

theorem receiveTopic_claims (hp : pendingProbe env sub s = some c) :
    ∃ m s', receiveTopic q env sub vis s = (.ok m, s') ∧
      claimTopicSubscription q env sub vis c c.sub.retryCount s = (some m, s') := by
  refine ⟨_, _, ?_, rfl⟩
  unfold receiveTopic consumeFromTopic
  rw [hvis, hsub, hpaused]
  show received s (fetchPendingTopicMessage q env sub vis (63 + 1) s) = _
  rw [fetchPendingTopicMessage, hp]
  rfl

omit hpaused hsub in
theorem NoneTimedOut.claim (ht : NoneTimedOut env.now s) {n : Nat} :
    NoneTimedOut env.now (claimTopicSubscription q env sub vis c n s).2 := by
  refine Table.forall_update ht fun x hx _ => ?_
  have hpos : (0 : Int) < vis := pos_of_validateVisibilityTimeout hvis
  have hlate : ¬ env.now + vis < env.now := Int.not_lt.mpr (Int.le_add_of_nonneg_right hpos.le)
  show (decide _ && decide (env.now + vis < env.now)) = false
  rw [decide_eq_false hlate, Bool.and_false]

end
end Topic
end PgQueue
