import PgQueue.Catalogue.Names
import PgQueue.Process.Runs

/-!
# Subscribers and their topics

`Subscribe` is two statements: it looks for the topic, and then it upserts the subscriber row.  The
creation and the deletion of a topic are one transaction each; the deletion takes the subscriber rows
of the topic with it.

* `State`     the metadata table, the subscriber table and the `Subscribe` calls that have found their
              topic and have not written their row;
* `step`      one statement or transaction; a call that fails leaves the tables alone;
* `Patient`   no topic is deleted under a `Subscribe` call that has found it;
* `no_ghost_subscribers`   **in such runs every subscriber row belongs to a topic, and a topic that is
              created, also once more, starts without any.**

`ghost_subscriber`: without the condition a subscriber row can outlive its topic and come back with it.
-/

namespace PgQueue.Catalogue.Subscribers
open Relational Process List

structure Subscriber where
  topicName : String
  subscriberID : String
  active : Bool
deriving DecidableEq, Repr

def Subscriber.key (r : Subscriber) : String × String := (r.topicName, r.subscriberID)

def Subscriber.setActive (active : Bool) (r : Subscriber) : Subscriber := { r with active := active }

theorem Subscriber.key_setActive (active : Bool) (r : Subscriber) : (r.setActive active).key = r.key :=
  rfl

structure State where
  metadata : Registry
  subscribers : Table Subscriber (String × String) Subscriber.key
  calls : List (String × String)

def State.init : State := ⟨.empty, Table.empty, []⟩

namespace State

def hasTopic (s : State) (topicName : String) : Bool :=
  (s.metadata.getQueueMetadata .pubsub topicName).isSome

def createTopic (name : String) (s : State) : Except CatalogueError State :=
  match s.metadata.create .pubsub name with
  | .error e => .error e
  | .ok tableName =>
    match s.metadata.insert ⟨.pubsub, name, tableName⟩ with
    | none => .error .queueAlreadyExists
    | some metadata => .ok { s with metadata := metadata }

/-- the transaction of `deleteQueue`, as far as the global tables go -/
def deleteTopic (name : String) (s : State) : Except CatalogueError State :=
  match validateQueueName name with
  | .error e => .error e
  | .ok () =>
    if s.hasTopic name then
      .ok { s with
        metadata := s.metadata.delete .pubsub name
        subscribers := s.subscribers.delete fun r => decide (r.topicName = name) }
    else .error .queueNotFound

/-- the first statement of `Subscribe` -/
def check (topicName subscriberID : String) (s : State) : Except CatalogueError State :=
  match validateSubscriberID subscriberID with
  | .error _ => .error .invalidSubscriberID
  | .ok () =>
    if s.hasTopic topicName then .ok { s with calls := (topicName, subscriberID) :: s.calls }
    else .error .topicNotFound

/-- `registerSubscriber`, the second one: it does not look at the topic again -/
def upsert (c : String × String) (s : State) : State :=
  { s with
    subscribers := (s.subscribers.insertNew ⟨c.1, c.2, true⟩).update (fun r => decide (r.key = c))
      (Subscriber.setActive true) (Subscriber.key_setActive true)
    calls := s.calls.erase c }

/-- `unregisterSubscriber` -/
def deactivate (c : String × String) (s : State) : State :=
  { s with
    subscribers := s.subscribers.update (fun r => decide (r.key = c) && r.active)
      (Subscriber.setActive false) (Subscriber.key_setActive false) }

end State

/-- `giveUp` is a call that ends between its two statements -/
inductive Event where
  | createTopic (name : String)
  | deleteTopic (name : String)
  | check (topicName subscriberID : String)
  | upsert (c : String × String)
  | giveUp (c : String × String)
  | deactivate (c : String × String)
deriving DecidableEq, Repr

def committed (s : State) : Except CatalogueError State → State
  | .error _ => s
  | .ok s' => s'

def step (s : State) : Event → Option State
  | .createTopic name => some (committed s (s.createTopic name))
  | .deleteTopic name => some (committed s (s.deleteTopic name))
  | .check topicName subscriberID => some (committed s (s.check topicName subscriberID))
  | .upsert c => if c ∈ s.calls then some (s.upsert c) else none
  | .giveUp c => if c ∈ s.calls then some { s with calls := s.calls.erase c } else none
  | .deactivate c => some (s.deactivate c)

/-- a topic is not deleted while a `Subscribe` call that has found it has not written its row -/
def Patient (s : State) : Event → Prop
  | .deleteTopic name => ∀ c ∈ s.calls, c.1 ≠ name
  | _ => True

instance (s : State) : (e : Event) → Decidable (Patient s e)
  | .deleteTopic name => inferInstanceAs (Decidable (∀ c ∈ s.calls, c.1 ≠ name))
  | .createTopic _ | .check _ _ | .upsert _ | .giveUp _ | .deactivate _ =>
    inferInstanceAs (Decidable True)

/-! ## every row has its topic -/

structure Anchored (s : State) : Prop where
  rows : ∀ r ∈ s.subscribers.rows, s.hasTopic r.topicName = true
  calls : ∀ c ∈ s.calls, s.hasTopic c.1 = true

section
variable {s s' : State} {name : String}

theorem hasTopic_iff : s.hasTopic name = true ↔ ∃ m ∈ s.metadata.rows, m.queue = (.pubsub, name) :=
  Registry.isSome_getQueueMetadata

theorem createTopic_spec (h : s.createTopic name = .ok s') :
    s.hasTopic name = false ∧ s'.subscribers = s.subscribers ∧ s'.calls = s.calls ∧
      ∀ x, s.hasTopic x = true → s'.hasTopic x = true := by
  unfold State.createTopic at h
  split at h
  · cases h
  · split at h
    · cases h
    · rename_i tableName _ metadata hins
      cases h
      obtain ⟨hrows, hfree, -⟩ := Registry.insert_eq_some hins
      refine ⟨Bool.eq_false_iff.mpr fun ht => ?_, rfl, rfl, fun x hx => ?_⟩
      · obtain ⟨m, hm, hq⟩ := hasTopic_iff.mp ht
        exact hfree m hm hq
      · obtain ⟨m, hm, hq⟩ := hasTopic_iff.mp hx
        exact hasTopic_iff.mpr ⟨m, hrows ▸ mem_append_left _ hm, hq⟩

theorem deleteTopic_spec (h : s.deleteTopic name = .ok s') :
    s'.subscribers = s.subscribers.delete (fun r => decide (r.topicName = name)) ∧
      s'.calls = s.calls ∧ ∀ x, x ≠ name → s.hasTopic x = true → s'.hasTopic x = true := by
  unfold State.deleteTopic at h
  split at h
  · cases h
  · split at h
    · cases h
      refine ⟨rfl, rfl, fun x hne hx => ?_⟩
      obtain ⟨m, hm, hq⟩ := hasTopic_iff.mp hx
      refine hasTopic_iff.mpr ⟨m, Registry.mem_delete.mpr ⟨hm, fun he => hne ?_⟩, hq⟩
      exact (Prod.mk.inj (hq.symm.trans he)).2
    · cases h

theorem Anchored.createTopic (h : Anchored s) : Anchored (committed s (s.createTopic name)) := by
  cases hc : s.createTopic name with
  | error e => exact h
  | ok s' =>
    obtain ⟨-, hsubs, hcalls, hkeep⟩ := createTopic_spec hc
    exact ⟨fun r hr => hkeep _ (h.rows r (hsubs ▸ hr)), fun c hm => hkeep _ (h.calls c (hcalls ▸ hm))⟩

theorem Anchored.deleteTopic (h : Anchored s) (hp : ∀ c ∈ s.calls, c.1 ≠ name) :
    Anchored (committed s (s.deleteTopic name)) := by
  cases hc : s.deleteTopic name with
  | error e => exact h
  | ok s' =>
    obtain ⟨hsubs, hcalls, hkeep⟩ := deleteTopic_spec hc
    refine ⟨fun r hr => ?_, fun c hm => hkeep _ (hp c (hcalls ▸ hm)) (h.calls c (hcalls ▸ hm))⟩
    rw [show (committed s (.ok s')).subscribers = _ from hsubs] at hr
    obtain ⟨hr, hne⟩ := mem_filter.mp hr
    rw [Bool.not_eq_true', decide_eq_false_iff_not] at hne
    exact hkeep _ hne (h.rows r hr)

theorem Anchored.check (h : Anchored s) {topicName subscriberID : String} :
    Anchored (committed s (s.check topicName subscriberID)) := by
  unfold State.check
  split
  · exact h
  · split
    · rename_i ht
      refine ⟨h.rows, fun c hc => ?_⟩
      rcases mem_cons.mp hc with rfl | hc
      · exact ht
      · exact h.calls c hc
    · exact h

theorem Anchored.upsert (h : Anchored s) {c : String × String} (hc : c ∈ s.calls) :
    Anchored (s.upsert c) := by
  refine ⟨?_, fun x hx => h.calls x (mem_of_mem_erase hx)⟩
  have hins : ∀ r ∈ (s.subscribers.insertNew ⟨c.1, c.2, true⟩).rows, s.hasTopic r.topicName = true := by
    have hnew : ∀ r ∈ [(⟨c.1, c.2, true⟩ : Subscriber)], s.hasTopic r.topicName = true := by
      intro r hr
      obtain rfl := mem_singleton.mp hr
      exact h.calls c hc
    exact Table.forall_insertAll h.rows hnew
  exact Table.forall_update hins fun r hr _ => hins r hr

theorem Anchored.deactivate (h : Anchored s) (c : String × String) : Anchored (s.deactivate c) :=
  ⟨Table.forall_update h.rows fun r hr _ => h.rows r hr, h.calls⟩

theorem Anchored.no_rows (h : Anchored s) (ht : s.hasTopic name = false) :
    ∀ r ∈ s.subscribers.rows, r.topicName ≠ name := by
  intro r hr he
  have := h.rows r hr
  rw [he, ht] at this
  cases this

end

theorem Anchored.step {s s' : State} {e : Event} (h : Anchored s) (hp : Patient s e)
    (hs : step s e = some s') : Anchored s' := by
  cases e with
  | createTopic name =>
    cases hs
    exact h.createTopic
  | deleteTopic name =>
    cases hs
    exact h.deleteTopic hp
  | check topicName subscriberID =>
    cases hs
    exact h.check
  | upsert c =>
    rw [Subscribers.step] at hs
    split at hs
    · rename_i hc
      cases hs
      exact h.upsert hc
    · cases hs
  | giveUp c =>
    rw [Subscribers.step] at hs
    split at hs
    · cases hs
      exact ⟨h.rows, fun x hx => h.calls x (mem_of_mem_erase hx)⟩
    · cases hs
  | deactivate c =>
    cases hs
    exact h.deactivate c

theorem anchored_of_runs {s : State} (h : Runs step Patient .init s) : Anchored s :=
  h.invariant Anchored ⟨fun _ h => absurd h not_mem_nil, fun _ h => absurd h not_mem_nil⟩
    fun _ _ _ ha hp hs => ha.step hp hs

theorem no_ghost_subscribers {s : State} (h : Runs step Patient .init s) :
    (∀ r ∈ s.subscribers.rows, r.active = true → s.hasTopic r.topicName = true) ∧
    ∀ name s', s.createTopic name = .ok s' → ∀ r ∈ s'.subscribers.rows, r.topicName ≠ name := by
  have ha := anchored_of_runs h
  refine ⟨fun r hr _ => ha.rows r hr, fun name s' hc => ?_⟩
  obtain ⟨ht, hsubs, -, -⟩ := createTopic_spec hc
  rw [hsubs]
  exact ha.no_rows ht

def comeAndGo : List Event :=
  [.createTopic "news", .check "news" "a", .upsert ("news", "a"), .deleteTopic "news"]

theorem no_ghost_subscribers_comeAndGo :
    ∃ s s', follow (guarded step Patient) .init comeAndGo = some s ∧ s.createTopic "news" = .ok s' ∧
      ∀ r ∈ s'.subscribers.rows, r.topicName ≠ "news" :=
  ⟨_, _, rfl, rfl, (no_ghost_subscribers (Runs.of_follow comeAndGo rfl)).2 "news" _ rfl⟩

/-- a `Subscribe` call finds the topic, the topic is deleted, the call writes its row: the row is
active without a topic, and the topic that is created again starts with it -/
theorem ghost_subscriber :
    ∃ s s', follow step .init [.createTopic "news", .check "news" "a", .deleteTopic "news",
        .upsert ("news", "a")] = some s ∧
      s.calls = [] ∧ s.subscribers.rows = [⟨"news", "a", true⟩] ∧ s.hasTopic "news" = false ∧
      s.createTopic "news" = .ok s' ∧ s'.subscribers.rows = [⟨"news", "a", true⟩] := by
  refine ⟨_, _, rfl, rfl, rfl, rfl, rfl, rfl⟩

end PgQueue.Catalogue.Subscribers
