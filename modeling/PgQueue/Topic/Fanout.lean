import PgQueue.Topic.Refine
import PgQueue.Process.Chunks

/-!
# The topic: the fan-out in pieces

A publish writes one subscription row for each message and subscriber.  The single publish cuts its
rows into chunks, the batch streams the cross product through a buffer of the same size whose content
is then cut into chunks as well.

* `Writer`              what executes the `INSERT` of one chunk, and what it keeps of the transaction;
* `Writer.publishToPubSub`, `Writer.publishBatchToPubSub`   the two paths as the source runs them;
* `Writer.Lawful.publishToPubSub`, `Writer.Lawful.publishBatchToPubSub`   **whatever executes the chunks,
                        the tables are those of one insert of all rows**;
* `publishBatchToPubSub_cons`   a batch is its first message, published alone, and then the others.
-/

namespace PgQueue.Topic
open Relational Process List

/-! ## the two paths -/

def subFanoutChunkRows : Nat := 16000

theorem subFanoutChunkRows_pos : 0 < subFanoutChunkRows := by decide

/-- `exec` is the statement of one chunk in a transaction `τ` -/
structure Writer (τ ε : Type) where
  begin : State → τ
  state : τ → State
  reject : QueueError → ε
  exec : List (UUID × String) → τ → Except ε τ

namespace Writer

/-- with a cap the query reads one row more than the cap -/
def getActiveSubscribers (env : Env) (s : State) : Except QueueError (List String) :=
  let active := (s.subscribers.select Subscriber.active (fun a b => a.createdAt ≤ b.createdAt)).map
    Subscriber.subscriberID
  let items := if env.maxSubscribersPerTopic > 0 then active.take (env.maxSubscribersPerTopic + 1)
    else active
  if env.maxSubscribersPerTopic > 0 ∧ items.length > env.maxSubscribersPerTopic then
    .error .tooManySubscribers
  else .ok items

section
variable {τ ε : Type} (w : Writer τ ε)

def insertSubscriptionRecords (records : List (UUID × String)) (x : τ) : Except ε τ :=
  chunked w.exec subFanoutChunkRows subFanoutChunkRows_pos records x

def createSubscriptionRecords (env : Env) (messageID : UUID) (x : τ) : Except ε τ :=
  match getActiveSubscribers env (w.state x) with
  | .error e => .error (w.reject e)
  | .ok subscribers =>
    if subscribers = [] then .ok x
    else w.insertSubscriptionRecords (subscribers.map fun subscriberID => (messageID, subscriberID)) x

/-- the rows are buffered message by message, in the order of the subscribers -/
def batchCreateSubscriptionRecords (ids : List UUID) (subscribers : List String) (x : τ) : Except ε τ :=
  stream w.insertSubscriptionRecords subFanoutChunkRows []
    (ids.flatMap fun id => subscribers.map fun subscriberID => (id, subscriberID)) x

def publishToPubSub (env : Env) (m : PublishMessage) (s : State) : Except ε τ :=
  if (s.msgs.find? m.id).isSome then .error (w.reject .duplicateMessageID)
  else
    w.createSubscriptionRecords env m.id
      (w.begin { s with tables := s.tables.insertParents [newMessage env m] })

def publishBatchToPubSub (env : Env) (ms : List PublishMessage) (s : State) : Except ε τ :=
  let tables := s.tables.insertParents (ms.map (newMessage env))
  if tables.parents.rows.length < s.msgs.rows.length + ms.length then
    .error (w.reject .duplicateMessageID)
  else
    match getActiveSubscribers env { s with tables := tables } with
    | .error e => .error (w.reject e)
    | .ok subscribers =>
      if subscribers = [] then .ok (w.begin { s with tables := tables })
      else
        w.batchCreateSubscriptionRecords (ms.map PublishMessage.id) subscribers
          (w.begin { s with tables := tables })

end
end Writer

/-! ## the pieces make no difference -/

section
variable {q : Queue} {env : Env} {s s' : State}

theorem subRows_append (gen : Generator) (seq : Nat) (now : Time) (ks ls : List (UUID × String)) :
    subRows gen seq now (ks ++ ls) =
      subRows gen seq now ks ++ subRows gen (seq + ks.length) now ls := by
  induction ks generalizing seq with
  | nil => rfl
  | cons k ks ih =>
    rw [cons_append, subRows, ih, subRows, cons_append, length_cons,
      Nat.add_assoc, Nat.add_comm 1]

theorem insertSubscriptionRecords_nil (q : Queue) (env : Env) (s : State) :
    insertSubscriptionRecords q env [] s = .ok s := by
  have hr : s.tables.Resolves [] := fun _ h => absurd h not_mem_nil
  obtain ⟨u, hu, hp, hc⟩ := Linked.insertChildren_of_resolves hr
  have he : u = s.tables := Linked.ext hp hc
  rw [he] at hu
  unfold insertSubscriptionRecords
  rw [subRows, hu]
  rfl

theorem additive_insertSubscriptionRecords (q : Queue) (env : Env) :
    Additive (insertSubscriptionRecords q env) := by
  refine ⟨insertSubscriptionRecords_nil q env, fun ks ls s => ?_⟩
  unfold insertSubscriptionRecords
  rw [subRows_append, Linked.insertChildren_append]
  cases s.tables.insertChildren (subRows q.gen s.seq env.now ks) with
  | none => rfl
  | some u =>
    rw [Option.bind_some, length_append, ← Nat.add_assoc]

theorem fanOut_eq_nil (ids : List UUID) :
    (ids.flatMap fun id => ([] : List String).map fun subscriberID => (id, subscriberID)) = [] := by
  induction ids with
  | nil => rfl
  | cons id ids ih => rw [flatMap_cons, ih]; rfl

namespace Writer
variable {τ ε : Type} {w : Writer τ ε}

theorem getActiveSubscribers_eq (env : Env) (s : State) :
    getActiveSubscribers env s = Topic.getActiveSubscribers env s := by
  unfold getActiveSubscribers Topic.getActiveSubscribers
  dsimp only
  generalize (s.subscribers.select Subscriber.active (fun a b => a.createdAt ≤ b.createdAt)).map
    Subscriber.subscriberID = active
  by_cases hcap : env.maxSubscribersPerTopic > 0
  · rw [if_pos hcap, length_take]
    by_cases hover : active.length > env.maxSubscribersPerTopic
    · rw [if_pos ⟨hcap, by omega⟩, if_pos ⟨hcap, hover⟩]
    · rw [if_neg (by omega), if_neg fun h => hover h.2, take_of_length_le (by omega)]
  · rw [if_neg hcap, if_neg fun h => hcap h.1]

theorem batchCreateSubscriptionRecords_eq (w : Writer τ ε) (ids : List UUID) (subscribers : List String)
    (x : τ) : w.batchCreateSubscriptionRecords ids subscribers x = w.insertSubscriptionRecords
      (ids.flatMap fun id => subscribers.map fun subscriberID => (id, subscriberID)) x := by
  have hempty : ([] : List (UUID × String)).length < subFanoutChunkRows := subFanoutChunkRows_pos
  unfold batchCreateSubscriptionRecords
  rw [stream_eq_chunked subFanoutChunkRows_pos _ hempty, nil_append]
  exact chunked_chunked _ _ _

/-- a chunk does to the tables what one insert of its rows does -/
structure Lawful (w : Writer τ ε) (q : Queue) (env : Env) : Prop where
  begin : ∀ s, w.state (w.begin s) = s
  exec : ∀ records x, (w.exec records x).map w.state =
    (Topic.insertSubscriptionRecords q env records (w.state x)).mapError w.reject

theorem Lawful.insertSubscriptionRecords (h : w.Lawful q env) (records : List (UUID × String)) (x : τ) :
    (w.insertSubscriptionRecords records x).map w.state =
      (Topic.insertSubscriptionRecords q env records (w.state x)).mapError w.reject := by
  have hmap := chunked_map subFanoutChunkRows_pos h.exec records x
  rwa [(additive_insertSubscriptionRecords q env).chunked] at hmap

/-- no subscriber, no statement: as if none of the rows were inserted -/
theorem Lawful.fanOut (h : w.Lawful q env) (ids : List UUID) (subscribers : List String) (s : State) :
    (if subscribers = [] then .ok (w.begin s)
      else w.insertSubscriptionRecords
        (ids.flatMap fun id => subscribers.map fun subscriberID => (id, subscriberID)) (w.begin s)).map
        w.state =
      (Topic.insertSubscriptionRecords q env
        (ids.flatMap fun id => subscribers.map fun subscriberID => (id, subscriberID)) s).mapError
        w.reject := by
  split
  · rename_i hnil
    rw [hnil, fanOut_eq_nil, insertSubscriptionRecords_nil]
    exact congrArg Except.ok (h.begin s)
  · rw [h.insertSubscriptionRecords, h.begin]

theorem Lawful.publishToPubSub (h : w.Lawful q env) (m : PublishMessage) (s : State) :
    (w.publishToPubSub env m s).map w.state = (Topic.publishToPubSub q env m s).mapError w.reject := by
  unfold Writer.publishToPubSub Topic.publishToPubSub
  split
  · rfl
  · unfold Writer.createSubscriptionRecords Topic.createSubscriptionRecords
      Topic.batchCreateSubscriptionRecords
    rw [h.begin, getActiveSubscribers_eq]
    cases Topic.getActiveSubscribers env { s with tables := s.tables.insertParents [newMessage env m] } with
    | error e => rfl
    | ok subscribers =>
      have hone := h.fanOut [m.id] subscribers
        { s with tables := s.tables.insertParents [newMessage env m] }
      rw [flatMap_singleton] at hone
      dsimp only
      rw [flatMap_singleton]
      exact hone

theorem Lawful.publishBatchToPubSub (h : w.Lawful q env) {ms : List PublishMessage} (hne : ms ≠ [])
    (hsize : validateBatchSize ms.length = .ok ()) (s : State) :
    (w.publishBatchToPubSub env ms s).map w.state =
      (Topic.publishBatchToPubSub q env ms s).mapError w.reject := by
  unfold Writer.publishBatchToPubSub Topic.publishBatchToPubSub
  rw [if_neg hne, hsize]
  dsimp only
  split
  · rfl
  · unfold Topic.batchCreateSubscriptionRecords
    rw [getActiveSubscribers_eq]
    cases Topic.getActiveSubscribers env
        { s with tables := s.tables.insertParents (ms.map (newMessage env)) } with
    | error e => rfl
    | ok subscribers =>
      dsimp only
      rw [batchCreateSubscriptionRecords_eq]
      exact h.fanOut _ subscribers _

end Writer

/-! the writer that keeps the tables alone -/

namespace Chunked

def writer (q : Queue) (env : Env) : Writer State QueueError :=
  ⟨id, id, id, Topic.insertSubscriptionRecords q env⟩

def publishToPubSub (q : Queue) (env : Env) : PublishMessage → State → Except QueueError State :=
  (writer q env).publishToPubSub env

def publishBatchToPubSub (q : Queue) (env : Env) : List PublishMessage → State → Except QueueError State :=
  (writer q env).publishBatchToPubSub env

theorem map_id_iff {x y : Except QueueError State} : x.map id = y.mapError id ↔ x = y := by
  cases x <;> cases y <;> simp [Except.map, Except.mapError]

theorem lawful_writer (q : Queue) (env : Env) : (writer q env).Lawful q env where
  begin _ := rfl
  exec _ _ := map_id_iff.mpr rfl

theorem publishToPubSub_eq (q : Queue) (env : Env) (m : PublishMessage) (s : State) :
    publishToPubSub q env m s = Topic.publishToPubSub q env m s :=
  map_id_iff.mp ((lawful_writer q env).publishToPubSub m s)

theorem publishBatchToPubSub_eq (q : Queue) (env : Env) {ms : List PublishMessage} (hne : ms ≠ [])
    (hsize : validateBatchSize ms.length = .ok ()) (s : State) :
    publishBatchToPubSub q env ms s = Topic.publishBatchToPubSub q env ms s :=
  map_id_iff.mp ((lawful_writer q env).publishBatchToPubSub hne hsize s)

end Chunked

/-! ## the first message of a batch -/

variable {ms : List PublishMessage} {ks : List (UUID × String)} {m : PublishMessage}

theorem exists_insertSubscriptionRecords (q : Queue) (env : Env)
    (h : ∀ k ∈ ks, (s.msgs.find? k.1).isSome) :
    ∃ s', insertSubscriptionRecords q env ks s = .ok s' := by
  have hr : s.tables.Resolves (subRows q.gen s.seq env.now ks) := by
    intro r hr
    obtain ⟨i, -, -, k, hk, rfl⟩ := mem_subRows hr
    exact h k hk
  obtain ⟨u, hu, -, -⟩ := Linked.insertChildren_of_resolves hr
  unfold insertSubscriptionRecords
  rw [hu]
  exact ⟨_, rfl⟩

theorem insertSubscriptionRecords_insertParents (ms : List MessageRow)
    (h : insertSubscriptionRecords q env ks s = .ok s') :
    insertSubscriptionRecords q env ks { s with tables := s.tables.insertParents ms } =
      .ok { s' with tables := s'.tables.insertParents ms } := by
  unfold insertSubscriptionRecords at h ⊢
  split at h
  · cases h
  · rename_i u hu
    cases h
    rw [Linked.insertChildren_insertParents ms hu]

theorem getActiveSubscribers_congr (h : s'.subscribers = s.subscribers) :
    getActiveSubscribers env s' = getActiveSubscribers env s := by
  unfold getActiveSubscribers
  rw [h]

theorem getActiveSubscribers_insertParents (env : Env) (s : State) (ms : List MessageRow) :
    getActiveSubscribers env { s with tables := s.tables.insertParents ms } =
      getActiveSubscribers env s := rfl

theorem publishToPubSub_iff :
    publishToPubSub q env m s = .ok s' ↔
      s.msgs.find? m.id = none ∧ ∃ active, getActiveSubscribers env s = .ok active ∧
        insertSubscriptionRecords q env (active.map fun x => (m.id, x))
          { s with tables := s.tables.insertParents [newMessage env m] } = .ok s' := by
  unfold publishToPubSub createSubscriptionRecords batchCreateSubscriptionRecords
  rw [getActiveSubscribers_insertParents]
  cases s.msgs.find? m.id with
  | some r => simp
  | none =>
    cases getActiveSubscribers env s with
    | error | ok => simp

def fanOut (active : List String) (ms : List PublishMessage) : List (UUID × String) :=
  (ms.map PublishMessage.id).flatMap fun id => active.map fun x => (id, x)

theorem publishBatchToPubSub_iff {active : List String} (hsize : validateBatchSize ms.length = .ok ())
    (ha : getActiveSubscribers env s = .ok active) :
    publishBatchToPubSub q env ms s = .ok s' ↔
      s.msgs.rows.length + (ms.map (newMessage env)).length ≤
          (s.msgs.insertAll (ms.map (newMessage env))).rows.length ∧
        insertSubscriptionRecords q env (fanOut active ms)
          { s with tables := s.tables.insertParents (ms.map (newMessage env)) } = .ok s' := by
  unfold publishBatchToPubSub
  by_cases hnil : ms = []
  · subst hnil
    rw [if_pos rfl]
    show _ ↔ _ ∧ insertSubscriptionRecords q env [] s = .ok s'
    rw [insertSubscriptionRecords_nil]
    exact ⟨fun h => ⟨Nat.le_refl _, h⟩, And.right⟩
  · rw [if_neg hnil, hsize]
    dsimp only
    unfold batchCreateSubscriptionRecords
    rw [getActiveSubscribers_insertParents, ha, length_map]
    split
    · rename_i hlt
      exact ⟨nofun, fun h => absurd hlt (Nat.not_lt.mpr h.1)⟩
    · rename_i hle
      exact ⟨fun h => ⟨Nat.le_of_not_lt hle, h⟩, And.right⟩

theorem publishBatchToPubSub_tooMany {e : QueueError} (hne : ms ≠ [])
    (hsize : validateBatchSize ms.length = .ok ()) (ha : getActiveSubscribers env s = .error e) :
    publishBatchToPubSub q env ms s ≠ .ok s' := by
  unfold publishBatchToPubSub
  rw [if_neg hne, hsize]
  dsimp only
  unfold batchCreateSubscriptionRecords
  rw [getActiveSubscribers_insertParents, ha]
  split <;> nofun

theorem publishBatchToPubSub_cons (hsize : validateBatchSize (m :: ms).length = .ok ()) :
    publishBatchToPubSub q env (m :: ms) s = .ok s' ↔
      ∃ s₁, publishToPubSub q env m s = .ok s₁ ∧ publishBatchToPubSub q env ms s₁ = .ok s' := by
  have htail : validateBatchSize ms.length = .ok () :=
    validateBatchSize_ok.mpr (Nat.le_of_succ_le (validateBatchSize_ok.mp hsize))
  cases ha : getActiveSubscribers env s with
  | error e =>
    constructor
    · exact fun h => absurd h (publishBatchToPubSub_tooMany (cons_ne_nil m ms) hsize ha)
    · rintro ⟨s₁, h, -⟩
      obtain ⟨-, active, ha', -⟩ := publishToPubSub_iff.mp h
      rw [ha] at ha'
      cases ha'
  | ok active =>
    -- the rows of the first message, with and without the other messages in the table
    have hrows : fanOut active (m :: ms) = (active.map fun x => (m.id, x)) ++ fanOut active ms := rfl
    have hthere : ∀ k ∈ active.map fun x => (m.id, x),
        ((s.msgs.insertNew (newMessage env m)).find? k.1).isSome := by
      intro k hk
      obtain ⟨x, -, rfl⟩ := mem_map.mp hk
      rw [Table.find?_insertNew]
      cases s.msgs.find? m.id <;> simp [newMessage]
    obtain ⟨s₁, hone⟩ := exists_insertSubscriptionRecords q env
      (s := { s with tables := s.tables.insertParents [newMessage env m] }) hthere
    have hfirst : insertSubscriptionRecords q env (active.map fun x => (m.id, x))
        { s with tables := s.tables.insertParents ((m :: ms).map (newMessage env)) } =
          .ok { s₁ with tables := s₁.tables.insertParents (ms.map (newMessage env)) } :=
      insertSubscriptionRecords_insertParents (ms.map (newMessage env)) hone
    obtain ⟨-, hmsgs, hsubs, -, -, -⟩ := insertSubscriptionRecords_spec hone
    have ha₁ : getActiveSubscribers env s₁ = .ok active := by
      rw [getActiveSubscribers_congr hsubs]
      exact ha
    have hpub : ∀ s₂, publishToPubSub q env m s = .ok s₂ ↔ s.msgs.find? m.id = none ∧ s₁ = s₂ := by
      intro s₂
      rw [publishToPubSub_iff]
      constructor
      · rintro ⟨hn, active', ha', h⟩
        rw [ha] at ha'
        cases ha'
        rw [hone] at h
        exact ⟨hn, Except.ok.inj h⟩
      · rintro ⟨hn, rfl⟩
        exact ⟨hn, active, ha, hone⟩
    rw [publishBatchToPubSub_iff hsize ha, map_cons, Table.length_insertAll_cons_iff, hrows,
      (additive_insertSubscriptionRecords q env).append, ← map_cons, hfirst]
    simp only [hpub]
    constructor
    · rintro ⟨⟨hn, hlen⟩, h⟩
      refine ⟨s₁, ⟨hn, rfl⟩, (publishBatchToPubSub_iff htail ha₁).mpr ⟨?_, h⟩⟩
      rw [hmsgs]
      exact hlen
    · rintro ⟨_, ⟨hn, rfl⟩, h⟩
      obtain ⟨hlen, h⟩ := (publishBatchToPubSub_iff htail ha₁).mp h
      rw [hmsgs] at hlen
      exact ⟨⟨hn, hlen⟩, h⟩

end
end PgQueue.Topic
