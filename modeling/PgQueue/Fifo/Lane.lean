import PgQueue.Publish
import PgQueue.Receive
import PgQueue.Uuid
import PgQueue.Process.Runs

/-!
# One producer, one consumer

A process publishes messages without ids, one call after another; its ids come from `newUUIDv7At`,
whatever its clock says.  A consumer of the queue receives and acknowledges.

* `Lane`       a queue as the consumer sees it: what a publish, a receive and the other calls do;
* `World`      the id generator, the queue, and the ids published and delivered so far;
* `step`       one call; a call that fails publishes nothing, and the ids it has asked for are lost;
* `Orderly`    what a lane has to show: its waiting line grows at the end and is served at the front;
* `Orderly.line`   what is published is what was delivered, in this order, and then the line;
* `Orderly.inOrder`   **the consumer gets the messages in the order in which they were published.**
-/

namespace PgQueue.Fifo
open Relational Process Publisher List

structure Lane (σ α : Type) where
  publish : Env → PublishMessage → σ → Except QueueError σ
  publishBatch : Env → List PublishMessage → σ → Except QueueError σ
  receive : Env → Duration → σ → Except ReceiveError Message × σ
  other : Env → α → σ → σ

/-- a message without an id, and what the generator gets when it makes one for it -/
structure Content (μ : Type) where
  payload : Option Bytes
  metadata : Option μ
  tick : Tick

/-- `mint` is an id that was made for something else -/
inductive Op (μ α : Type) where
  | mint (t : Tick)
  | publish (x : Content μ)
  | publishBatch (xs : List (Content μ))
  | receive (vis : Duration)
  | other (a : α)

structure World (σ : Type) where
  uuid : V7State
  queue : σ
  published : List UUID
  delivered : List UUID

def calls {μ : Type} : List (Content μ) → V7State → List (Call μ) × V7State
  | [], u => ([], u)
  | x :: xs, u =>
    let (id, u₁) := newUUIDv7At x.tick u
    let (cs, u₂) := calls xs u₁
    (⟨⟨UUID.nil, x.payload, x.metadata⟩, id⟩ :: cs, u₂)

section
variable {μ σ α : Type}

/-- the generator after a call has prepared these messages, up to the first that it refuses; the id of a
message is made before its metadata is looked at -/
def asked (pub : Publisher μ) : List (Content μ) → V7State → V7State
  | [], u => u
  | x :: xs, u =>
    let (id, u₁) := newUUIDv7At x.tick u
    match pub.prepareMessage pub.resolveMaxMetadataSize ⟨⟨UUID.nil, x.payload, x.metadata⟩, id⟩ with
    | .error _ => u₁
    | .ok _ => asked pub xs u₁

/-- `checks` come before the generator is asked -/
def failed (pub : Publisher μ) (checks : Except PublishError Unit) (xs : List (Content μ))
    (u : V7State) : V7State :=
  match checks with
  | .error _ => u
  | .ok () => asked pub xs u

def checkBatch (pub : Publisher μ) (cs : List (Call μ)) : Except PublishError Unit := do
  pub.checkClosed
  inTx (validateBatchSize cs.length)
  checkPayloads pub.resolveMaxMessageSize cs
  pub.checkBatchBytes (totalBytes cs)

def step (pub : Publisher μ) (lane : Lane σ α) (env : Env) (w : World σ) : Op μ α → World σ
  | .mint t => { w with uuid := (newUUIDv7At t w.uuid).2 }
  | .publish x =>
    let (id, u) := newUUIDv7At x.tick w.uuid
    match pub.publish (lane.publish env) ⟨⟨UUID.nil, x.payload, x.metadata⟩, id⟩ w.queue with
    | (.error _, s) =>
      let checks := do
        pub.checkClosed
        checkPayload pub.resolveMaxMessageSize ⟨UUID.nil, x.payload, x.metadata⟩
      { w with uuid := failed pub checks [x] w.uuid, queue := s }
    | (.ok id, s) => { w with uuid := u, queue := s, published := w.published ++ [id] }
  | .publishBatch xs =>
    let (cs, u) := calls xs w.uuid
    match pub.publishBatch (lane.publishBatch env) cs w.queue with
    | (.error _, s) => { w with uuid := failed pub (checkBatch pub cs) xs w.uuid, queue := s }
    | (.ok ids, s) => { w with uuid := u, queue := s, published := w.published ++ ids }
  | .receive vis =>
    match lane.receive env vis w.queue with
    | (.error _, s) => { w with queue := s }
    | (.ok m, s) => { w with queue := s, delivered := w.delivered ++ [m.id] }
  | .other a => { w with queue := lane.other env a w.queue }

/-! ## quiet runs -/

/-- when the calls of the three kinds are quiet -/
structure Rules (σ α : Type) where
  publish : σ → Prop
  receive : Env → σ → Prop
  other : α → Prop

def Rules.Quiet (rules : Rules σ α) (env : Env) (s : σ) : Op μ α → Prop
  | .mint _ => True
  | .publish _ | .publishBatch _ => rules.publish s
  | .receive _ => rules.receive env s
  | .other a => rules.other a

def next (pub : Publisher μ) (lane : Lane σ α) (w : World σ × Time) (e : Env × Op μ α) :
    Option (World σ × Time) := some (step pub lane e.1 w.1 e.2, e.1.now)

/-- the database clock does not go back, and the millisecond of the ids has 48 bits -/
def Rules.ok (rules : Rules σ α) (pub : Publisher μ) (lane : Lane σ α) (w : World σ × Time)
    (e : Env × Op μ α) : Prop :=
  w.2 ≤ e.1.now ∧ rules.Quiet e.1 w.1.queue e.2 ∧ (step pub lane e.1 w.1 e.2).uuid.lastMS < 2 ^ 48

def World.start (u : V7State) (s : σ) : World σ := ⟨u, s, [], []⟩

abbrev Rules.Runs (rules : Rules σ α) (pub : Publisher μ) (lane : Lane σ α) :
    World σ × Time → World σ × Time → Prop := Process.Runs (next pub lane) (rules.ok pub lane)

/-! ## the waiting line -/

/-- in line: the time from which a message is available does not go down, the ids go up -/
def InLine (ks : List (Time × UUID)) : Prop := ks.Pairwise fun a b => a.1 ≤ b.1 ∧ a.2 < b.2

def Admits (env : Env) (vis : Duration) : Prop :=
  env.paused = false ∧ validateVisibilityTimeout vis = .ok ()

/-- `waiting` is the line of the messages the consumer has not received; `I` is what the calls keep -/
structure Orderly (lane : Lane σ α) (rules : Rules σ α) (I : σ → Prop)
    (waiting : σ → List (Time × UUID)) : Prop where
  publish : ∀ {env m s s'}, I s → rules.publish s → lane.publish env m s = .ok s' →
    I s' ∧ rules.publish s' ∧ waiting s' = waiting s ++ [(env.now, m.id)]
  batch : ∀ {env ms s s'}, ms ≠ [] → ms.length ≤ maxBatchSize →
    lane.publishBatch env ms s = .ok s' → eachTx (lane.publish env) ms s = .ok s'
  refused : ∀ env vis s, ¬ Admits env vis → ∃ e, lane.receive env vis s = (.error e, s)
  empty : ∀ {env vis s}, Admits env vis → I s → rules.receive env s → waiting s = [] →
    lane.receive env vis s = (.error .queueEmpty, s)
  serve : ∀ {env vis s k rest}, Admits env vis → I s → rules.receive env s → InLine (waiting s) →
    (∀ k ∈ waiting s, k.1 ≤ env.now) → waiting s = k :: rest →
    ∃ m s', lane.receive env vis s = (.ok m, s') ∧ I s' ∧ waiting s' = rest ∧ m.id = k.2
  other : ∀ env {a s}, I s → rules.other a →
    I (lane.other env a s) ∧ waiting (lane.other env a s) = waiting s

structure Ascending (lo : UUID) (ids : List UUID) (hi : UUID) : Prop where
  le : lo ≤ hi
  up : ids.Pairwise (· < ·)
  within : ∀ id ∈ ids, lo ≤ id ∧ id < hi

theorem ascending_newUUIDv7At {t : Tick} {u u' : V7State} {id : UUID}
    (h : newUUIDv7At t u = (some id, u')) (hms : u'.lastMS < 2 ^ 48) :
    Ascending u.floor [id] u'.floor := by
  refine ⟨?_, pairwise_singleton _ _, fun x hx => ?_⟩
  · have := floor_le_floor t u
    rw [h] at this
    exact this
  · obtain rfl := mem_singleton.mp hx
    exact ⟨floor_le_newUUIDv7At h hms, newUUIDv7At_lt_floor h hms⟩

theorem Ascending.append {lo mid hi : UUID} {ids ids' : List UUID} (h : Ascending lo ids mid)
    (h' : Ascending mid ids' hi) : Ascending lo (ids ++ ids') hi := by
  refine ⟨Nat.le_trans h.le h'.le, pairwise_append.mpr ⟨h.up, h'.up, fun a ha b hb =>
    Nat.lt_of_lt_of_le (h.within a ha).2 (h'.within b hb).1⟩, fun id hid => ?_⟩
  rcases mem_append.mp hid with hid | hid
  · exact ⟨(h.within id hid).1, Nat.lt_of_lt_of_le (h.within id hid).2 h'.le⟩
  · exact ⟨Nat.le_trans h.le (h'.within id hid).1, (h'.within id hid).2⟩

theorem floor_le_failed (pub : Publisher μ) (checks : Except PublishError Unit) (xs : List (Content μ))
    (u : V7State) : u.floor ≤ (failed pub checks xs u).floor := by
  have hasked : u.floor ≤ (asked pub xs u).floor := by
    induction xs generalizing u with
    | nil => exact Nat.le_refl _
    | cons x xs ih =>
      have hle := floor_le_floor x.tick u
      rw [asked]
      cases hnew : newUUIDv7At x.tick u with
      | mk id u₁ =>
        rw [hnew] at hle
        dsimp only
        split
        · exact hle
        · exact Nat.le_trans hle (ih u₁)
  unfold failed
  split
  · exact Nat.le_refl _
  · exact hasked

theorem lastMS_le_calls (xs : List (Content μ)) (u : V7State) : u.lastMS ≤ (calls xs u).2.lastMS := by
  induction xs generalizing u with
  | nil => exact Nat.le_refl _
  | cons x xs ih => exact Nat.le_trans (lastMS_le_newUUIDv7At x.tick u) (ih _)

theorem ascending_calls {pub : Publisher μ} {limit : Int} {xs : List (Content μ)} {u : V7State}
    {ms : List PublishMessage} (hms : (calls xs u).2.lastMS < 2 ^ 48)
    (h : pub.prepareBatchMessages limit (calls xs u).1 = .ok ms) :
    Ascending u.floor (ms.map PublishMessage.id) (calls xs u).2.floor := by
  induction xs generalizing u ms with
  | nil =>
    cases h
    exact ⟨Nat.le_refl _, Pairwise.nil, fun _ h => absurd h not_mem_nil⟩
  | cons x xs ih =>
    obtain ⟨m, ms', hm, hms', rfl⟩ := prepareBatchMessages_cons.mp h
    have hgen := prepareMessage_generated rfl hm
    have hfirst : newUUIDv7At x.tick u = (some m.id, (newUUIDv7At x.tick u).2) :=
      Prod.ext hgen rfl
    have hlast := lastMS_le_calls xs (newUUIDv7At x.tick u).2
    exact (ascending_newUUIDv7At hfirst (Nat.lt_of_le_of_lt hlast hms)).append (ih hms hms')

structure Line (I : σ → Prop) (waiting : σ → List (Time × UUID)) (w : World σ × Time) : Prop where
  keeps : I w.1.queue
  line : w.1.published = w.1.delivered ++ (waiting w.1.queue).map Prod.snd
  inLine : InLine (waiting w.1.queue)
  arrived : ∀ k ∈ waiting w.1.queue, k.1 ≤ w.2 ∧ k.2 < w.1.uuid.floor

section
variable {I : σ → Prop} {waiting : σ → List (Time × UUID)} {w : World σ} {t : Time}

theorem Line.later (h : Line I waiting (w, t)) {t' : Time} (ht : t ≤ t') {u : V7State}
    (hu : w.uuid.floor ≤ u.floor) {s : σ} (hs : I s) (hw : waiting s = waiting w.queue) :
    Line I waiting ({ w with uuid := u, queue := s }, t') := by
  refine ⟨hs, ?_, ?_, ?_⟩
  · rw [hw]
    exact h.line
  · rw [hw]
    exact h.inLine
  · rw [hw]
    exact fun k hk => ⟨Int.le_trans (h.arrived k hk).1 ht, Nat.lt_of_lt_of_le (h.arrived k hk).2 hu⟩

theorem Line.append (h : Line I waiting (w, t)) {now : Time} (ht : t ≤ now) {u : V7State}
    {ids : List UUID} (hids : Ascending w.uuid.floor ids u.floor) {s : σ} (hs : I s)
    (hw : waiting s = waiting w.queue ++ ids.map fun id => (now, id)) :
    Line I waiting ({ w with uuid := u, queue := s, published := w.published ++ ids }, now) := by
  have hnew : ∀ k ∈ ids.map fun id => (now, id), k.1 = now ∧ k.2 ∈ ids := by
    intro k hk
    obtain ⟨id, hid, rfl⟩ := mem_map.mp hk
    exact ⟨rfl, hid⟩
  refine ⟨hs, ?_, ?_, ?_⟩
  · show w.published ++ ids = w.delivered ++ (waiting s).map Prod.snd
    have hline : w.published = w.delivered ++ (waiting w.queue).map Prod.snd := h.line
    rw [hw, hline, map_append, map_map, append_assoc]
    congr 2
    exact (map_id ids).symm
  · rw [hw]
    refine pairwise_append.mpr ⟨h.inLine, ?_, fun a ha b hb => ?_⟩
    · exact pairwise_map.mpr (hids.up.imp fun hlt => ⟨Int.le_refl _, hlt⟩)
    · obtain ⟨ht', hid⟩ := hnew b hb
      rw [ht']
      exact ⟨Int.le_trans (h.arrived a ha).1 ht,
        Nat.lt_of_lt_of_le (h.arrived a ha).2 (hids.within _ hid).1⟩
  · rw [hw]
    intro k hk
    rcases mem_append.mp hk with hk | hk
    · exact ⟨Int.le_trans (h.arrived k hk).1 ht, Nat.lt_of_lt_of_le (h.arrived k hk).2 hids.le⟩
    · obtain ⟨ht', hid⟩ := hnew k hk
      rw [ht']
      exact ⟨Int.le_refl _, (hids.within _ hid).2⟩

theorem Line.serve (h : Line I waiting (w, t)) {now : Time} (ht : t ≤ now) {s : σ} (hs : I s)
    {k : Time × UUID} (hw : waiting w.queue = k :: waiting s) :
    Line I waiting ({ w with queue := s, delivered := w.delivered ++ [k.2] }, now) := by
  have hmem : ∀ x ∈ waiting s, x ∈ waiting w.queue := fun x hx => by
    rw [hw]
    exact mem_cons_of_mem k hx
  refine ⟨hs, ?_, ?_, fun x hx => ⟨Int.le_trans (h.arrived x (hmem x hx)).1 ht,
    (h.arrived x (hmem x hx)).2⟩⟩
  · have hline : w.published = w.delivered ++ (waiting w.queue).map Prod.snd := h.line
    rw [hline, hw, map_cons, append_assoc, singleton_append]
  · have := h.inLine
    rw [show waiting (w, t).1.queue = k :: waiting s from hw] at this
    exact (pairwise_cons.mp this).2

end

section
variable {lane : Lane σ α} {rules : Rules σ α} {I : σ → Prop} {waiting : σ → List (Time × UUID)}
  (ho : Orderly lane rules I waiting)
include ho

theorem Orderly.each {env : Env} {ms : List PublishMessage} {s s' : σ} (hs : I s)
    (hp : rules.publish s) (h : eachTx (lane.publish env) ms s = .ok s') :
    I s' ∧ waiting s' = waiting s ++ (ms.map PublishMessage.id).map fun id => (env.now, id) := by
  induction ms generalizing s with
  | nil =>
    cases h
    exact ⟨hs, (append_nil _).symm⟩
  | cons m ms ih =>
    obtain ⟨s₁, hone, hrest⟩ := eachTx_cons.mp h
    obtain ⟨hs₁, hp₁, hw₁⟩ := ho.publish hs hp hone
    obtain ⟨hs', hw⟩ := ih hs₁ hp₁ hrest
    refine ⟨hs', ?_⟩
    rw [hw, hw₁, append_assoc, singleton_append, map_cons, map_cons]

theorem Orderly.step (pub : Publisher μ) {w w' : World σ × Time} {e : Env × Op μ α}
    (h : Line I waiting w) (hok : rules.ok pub lane w e) (he : next pub lane w e = some w') :
    Line I waiting w' := by
  obtain ⟨w, t⟩ := w
  obtain ⟨env, op⟩ := e
  obtain ⟨ht, hq, hms⟩ := hok
  obtain rfl := Option.some.inj he
  cases op with
  | mint tick => exact h.later ht (floor_le_floor tick w.uuid) h.keeps rfl
  | publish x =>
    unfold Fifo.step at hms ⊢
    dsimp only at hms ⊢
    cases hp : pub.publish (lane.publish env) ⟨⟨UUID.nil, x.payload, x.metadata⟩,
      (newUUIDv7At x.tick w.uuid).1⟩ w.queue with
    | mk r s =>
      rw [hp] at hms
      cases r with
      | error err =>
        have hs : s = w.queue := publish_error hp
        exact h.later ht (floor_le_failed _ _ _ _) (hs ▸ h.keeps) (hs ▸ rfl)
      | ok id =>
        obtain ⟨-, -, m, hm, htx, rfl⟩ := publish_ok.mp hp
        have hgen : newUUIDv7At x.tick w.uuid = (some m.id, (newUUIDv7At x.tick w.uuid).2) :=
          Prod.ext (prepareMessage_generated rfl hm) rfl
        obtain ⟨hs, -, hw⟩ := ho.publish h.keeps hq htx
        exact h.append ht (ascending_newUUIDv7At hgen hms) hs hw
  | publishBatch xs =>
    unfold Fifo.step at hms ⊢
    dsimp only at hms ⊢
    cases hp : pub.publishBatch (lane.publishBatch env) (calls xs w.uuid).1 w.queue with
    | mk r s =>
      rw [hp] at hms
      cases r with
      | error err =>
        have hs : s = w.queue := publishBatch_error hp
        exact h.later ht (floor_le_failed _ _ _ _) (hs ▸ h.keeps) (hs ▸ rfl)
      | ok ids =>
        rcases publishBatch_spec hp with ⟨hnil, rfl, rfl⟩ | ⟨hne, hlen, ms, hprep, htx, rfl⟩
        · cases xs with
          | cons x xs => exact absurd hnil (cons_ne_nil _ _)
          | nil =>
            have hnone : Ascending w.uuid.floor [] w.uuid.floor :=
              ⟨Nat.le_refl _, Pairwise.nil, fun _ h => absurd h not_mem_nil⟩
            exact h.append ht hnone h.keeps (append_nil _).symm
        · have hl := length_prepareBatchMessages hprep
          have hmne : ms ≠ [] := fun hm => hne (eq_nil_of_length_eq_zero (hl ▸ hm ▸ rfl))
          obtain ⟨hs, hw⟩ := ho.each h.keeps hq (ho.batch hmne (hl ▸ hlen) htx)
          exact h.append ht (ascending_calls hms hprep) hs hw
  | receive vis =>
    unfold Fifo.step
    dsimp only
    by_cases ha : Admits env vis
    · cases hw : waiting w.queue with
      | nil =>
        rw [ho.empty ha h.keeps hq hw]
        exact h.later ht (Nat.le_refl _) h.keeps rfl
      | cons k rest =>
        obtain ⟨m, s', hr, hs', hw', hid⟩ := ho.serve ha h.keeps hq h.inLine
          (fun k hk => Int.le_trans (h.arrived k hk).1 ht) hw
        rw [hr]
        dsimp only
        rw [hid]
        exact h.serve ht hs' (hw' ▸ hw)
    · obtain ⟨err, hr⟩ := ho.refused env vis w.queue ha
      rw [hr]
      exact h.later ht (Nat.le_refl _) h.keeps rfl
  | other a =>
    obtain ⟨hs, hw⟩ := ho.other env h.keeps hq
    exact h.later ht (Nat.le_refl _) hs hw

theorem Orderly.line (pub : Publisher μ) {u : V7State} {s₀ : σ} {t₀ : Time} {w : World σ × Time}
    (hI : I s₀) (hempty : waiting s₀ = []) (h : rules.Runs pub lane (.start u s₀, t₀) w) :
    Line I waiting w := by
  refine h.invariant (Line I waiting) ⟨hI, ?_, ?_, ?_⟩ fun _ _ _ hl hok he => ho.step pub hl hok he
  · show [] = [] ++ (waiting s₀).map Prod.snd
    rw [hempty]
    rfl
  · show InLine (waiting s₀)
    rw [hempty]
    exact Pairwise.nil
  · show ∀ k ∈ waiting s₀, _
    rw [hempty]
    exact fun _ h => absurd h not_mem_nil

/-- the consumer gets the messages in the order in which they were published: what it got so far is
where they start, the next receive gets the next one, and nothing if there is no next one -/
structure InOrder (lane : Lane σ α) (rules : Rules σ α) (w : World σ × Time) : Prop where
  soFar : w.1.delivered <+: w.1.published
  next : ∀ env vis id, w.2 ≤ env.now → Admits env vis → rules.receive env w.1.queue →
    w.1.delivered ++ [id] <+: w.1.published →
    ∃ m s', lane.receive env vis w.1.queue = (.ok m, s') ∧ m.id = id
  last : ∀ env vis, w.2 ≤ env.now → Admits env vis → rules.receive env w.1.queue →
    w.1.delivered = w.1.published → lane.receive env vis w.1.queue = (.error .queueEmpty, w.1.queue)

theorem Orderly.inOrder (pub : Publisher μ) {u : V7State} {s₀ : σ} {t₀ : Time} {w : World σ × Time}
    (hI : I s₀) (hempty : waiting s₀ = []) (h : rules.Runs pub lane (.start u s₀, t₀) w) :
    InOrder lane rules w := by
  have hl := ho.line pub hI hempty h
  refine ⟨⟨_, hl.line.symm⟩, fun env vis id ht ha hr hid => ?_, fun env vis ht ha hr he => ?_⟩
  · rw [hl.line] at hid
    obtain ⟨rest, hrest⟩ := (prefix_append_right_inj _).mp hid
    rw [singleton_append] at hrest
    cases hw : waiting w.1.queue with
    | nil =>
      rw [hw] at hrest
      cases hrest
    | cons k ks =>
      obtain ⟨m, s', hrec, -, -, hm⟩ := ho.serve ha hl.keeps hr hl.inLine
        (fun k hk => Int.le_trans (hl.arrived k hk).1 ht) hw
      rw [hw, map_cons] at hrest
      exact ⟨m, s', hrec, hm.trans (List.cons.inj hrest).1.symm⟩
  · have hnil : (waiting w.1.queue).map Prod.snd = [] := by
      have := hl.line
      rw [← he] at this
      exact append_right_eq_self.mp this.symm
    exact ho.empty ha hl.keeps hr (map_eq_nil_iff.mp hnil)

end
end
end PgQueue.Fifo
