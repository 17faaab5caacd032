import PgQueue.Catalogue.Names
import PgQueue.Process.Runs

/-!
# Queues and their tables

`createQueue` looks for the queue and for its table name, and then writes the metadata row and creates
the tables in one transaction.  `deleteQueue` reads the metadata row, and then drops the tables by the
name it has read and deletes the metadata row by type and name, in one transaction.

* `State`        the metadata table, the tables that exist, and the calls between their two parts;
* `Consistent`   every queue has its tables and every table has its queue;
* `Steals`       a deletion whose table name belongs to another queue by now, and whose drops succeed;
* `catalogue_consistent`   **the catalogue stays consistent as long as no deletion steals, and a deletion
                 that does breaks it.**

`catalogue_torn`: a queue loses its tables to the deletion of one whose name differed by a dash.
-/

namespace PgQueue.Catalogue.Queues
open Relational Process List

/-- a call that has passed its first part, with the table name it goes on with -/
structure Call where
  queueType : QueueType
  name : String
  tableName : String
deriving DecidableEq, Repr

def Call.queue (c : Call) : QueueType × String := (c.queueType, c.name)

/-- `msg`, `dlq` and `sub` are the queue tables that exist, by table name -/
structure State where
  metadata : Registry
  msg : List String
  dlq : List String
  sub : List String
  creates : List Call
  deletes : List Call

def State.init : State := ⟨.empty, [], [], [], [], []⟩

/-- `CREATE TABLE IF NOT EXISTS` -/
def createTable (t : String) (tables : List String) : List String :=
  if t ∈ tables then tables else t :: tables

/-- `DROP TABLE IF EXISTS` -/
def dropTable (t : String) (tables : List String) : List String :=
  tables.filter fun x => decide (x ≠ t)

namespace State

def createQueueInTx (c : Call) (s : State) : Except CatalogueError State :=
  match s.metadata.insert ⟨c.queueType, c.name, c.tableName⟩ with
  | none => .error .queueAlreadyExists
  | some metadata =>
    .ok { s with
      metadata := metadata
      msg := createTable c.tableName s.msg
      dlq := createTable c.tableName s.dlq
      sub := if c.queueType = .pubsub then createTable c.tableName s.sub else s.sub }

/-- the subscription table goes first; one that is still there keeps the message table, which its
foreign key refers to -/
def executeDelete (c : Call) (s : State) : Except CatalogueError State :=
  let sub := if c.queueType = .pubsub then dropTable c.tableName s.sub else s.sub
  if c.tableName ∈ s.msg ∧ c.tableName ∈ sub then .error .dependentObjects
  else
    .ok { s with
      metadata := s.metadata.delete c.queueType c.name
      msg := dropTable c.tableName s.msg
      dlq := dropTable c.tableName s.dlq
      sub := sub }

def createChecks (queueType : QueueType) (name : String) (s : State) : Except CatalogueError State :=
  match s.metadata.create queueType name with
  | .error e => .error e
  | .ok tableName => .ok { s with creates := ⟨queueType, name, tableName⟩ :: s.creates }

def deleteRead (queueType : QueueType) (name : String) (s : State) : Except CatalogueError State :=
  match validateQueueName name with
  | .error e => .error e
  | .ok () =>
    match s.metadata.getQueueMetadata queueType name with
    | none => .error .queueNotFound
    | some m => .ok { s with deletes := ⟨queueType, name, m.tableName⟩ :: s.deletes }

end State

def committed (s : State) : Except CatalogueError State → State
  | .error _ => s
  | .ok s' => s'

/-- `rollback` is a call that ends before its transaction commits -/
inductive Event where
  | createChecks (queueType : QueueType) (name : String)
  | createTx (c : Call)
  | deleteRead (queueType : QueueType) (name : String)
  | deleteTx (c : Call)
  | createRollback (c : Call)
  | deleteRollback (c : Call)
deriving DecidableEq, Repr

def step (s : State) : Event → Option State
  | .createChecks queueType name => some (committed s (s.createChecks queueType name))
  | .deleteRead queueType name => some (committed s (s.deleteRead queueType name))
  | .createTx c =>
    if c ∈ s.creates then
      some { committed s (s.createQueueInTx c) with creates := s.creates.erase c }
    else none
  | .deleteTx c =>
    if c ∈ s.deletes then
      some { committed s (s.executeDelete c) with deletes := s.deletes.erase c }
    else none
  | .createRollback c =>
    if c ∈ s.creates then some { s with creates := s.creates.erase c } else none
  | .deleteRollback c =>
    if c ∈ s.deletes then some { s with deletes := s.deletes.erase c } else none

/-! ## consistency -/

structure Consistent (s : State) : Prop where
  tables : ∀ m ∈ s.metadata.rows, m.tableName ∈ s.msg ∧ m.tableName ∈ s.dlq ∧
    (m.queueType = .pubsub → m.tableName ∈ s.sub)
  messages : ∀ t ∈ s.msg, ∃ m ∈ s.metadata.rows, m.tableName = t
  deadLetters : ∀ t ∈ s.dlq, ∃ m ∈ s.metadata.rows, m.tableName = t
  subscriptions : ∀ t ∈ s.sub, ∃ m ∈ s.metadata.rows, m.tableName = t ∧ m.queueType = .pubsub

/-- the table name belongs to another queue; the drops of a channel fail on the tables of a topic -/
def Steals (s : State) (c : Call) : Prop :=
  ∃ m ∈ s.metadata.rows, m.tableName = c.tableName ∧ m.queue ≠ c.queue ∧
    ¬ (c.queueType = .channel ∧ m.queueType = .pubsub)

instance (s : State) (c : Call) : Decidable (Steals s c) :=
  inferInstanceAs (Decidable (∃ m ∈ s.metadata.rows, m.tableName = c.tableName ∧ m.queue ≠ c.queue ∧
    ¬ (c.queueType = .channel ∧ m.queueType = .pubsub)))

def Careful (s : State) : Event → Prop
  | .deleteTx c => ¬ Steals s c
  | _ => True

instance (s : State) : (e : Event) → Decidable (Careful s e)
  | .deleteTx c => inferInstanceAs (Decidable (¬ Steals s c))
  | .createChecks _ _ | .createTx _ | .deleteRead _ _ | .createRollback _ | .deleteRollback _ =>
    inferInstanceAs (Decidable True)

/-- table names are sanitized queue names, in the table and in the calls -/
structure Named (s : State) : Prop where
  rows : ∀ m ∈ s.metadata.rows, m.tableName = sanitizeTableName m.queueName
  creates : ∀ c ∈ s.creates, c.tableName = sanitizeTableName c.name
  deletes : ∀ c ∈ s.deletes, c.tableName = sanitizeTableName c.name

theorem mem_createTable {t x : String} {tables : List String} :
    x ∈ createTable t tables ↔ x = t ∨ x ∈ tables := by
  unfold createTable
  split
  · rename_i h
    exact ⟨Or.inr, fun hx => hx.elim (fun he => he ▸ h) id⟩
  · exact mem_cons

theorem mem_dropTable {t x : String} {tables : List String} :
    x ∈ dropTable t tables ↔ x ∈ tables ∧ x ≠ t := by
  unfold dropTable
  rw [mem_filter, decide_eq_true_eq]

section
variable {s s' : State} {c : Call}

/-! ## create -/

theorem createQueueInTx_spec (h : s.createQueueInTx c = .ok s') :
    s'.metadata.rows = s.metadata.rows ++ [⟨c.queueType, c.name, c.tableName⟩] ∧
      s'.msg = createTable c.tableName s.msg ∧ s'.dlq = createTable c.tableName s.dlq ∧
      s'.sub = (if c.queueType = .pubsub then createTable c.tableName s.sub else s.sub) ∧
      s'.creates = s.creates ∧ s'.deletes = s.deletes := by
  unfold State.createQueueInTx at h
  split at h
  · cases h
  · rename_i metadata hins
    cases h
    exact ⟨(Registry.insert_eq_some hins).1, rfl, rfl, rfl, rfl, rfl⟩

theorem Consistent.create (h : Consistent s) : Consistent (committed s (s.createQueueInTx c)) := by
  cases hc : s.createQueueInTx c with
  | error e => exact h
  | ok s' =>
    obtain ⟨hrows, hmsg, hdlq, hsub, -, -⟩ := createQueueInTx_spec hc
    have hnew : (⟨c.queueType, c.name, c.tableName⟩ : Metadata) ∈ s'.metadata.rows := by
      rw [hrows]
      exact mem_append_right _ (mem_singleton_self _)
    have hold : ∀ m ∈ s.metadata.rows, m ∈ s'.metadata.rows := fun m hm => by
      rw [hrows]
      exact mem_append_left _ hm
    show Consistent s'
    refine ⟨fun m hm => ?_, fun t ht => ?_, fun t ht => ?_, fun t ht => ?_⟩
    · rw [hmsg, hdlq, hsub, mem_createTable, mem_createTable]
      rw [hrows] at hm
      rcases mem_append.mp hm with hm | hm
      · obtain ⟨h1, h2, h3⟩ := h.tables m hm
        refine ⟨Or.inr h1, Or.inr h2, fun hp => ?_⟩
        split
        · exact mem_createTable.mpr (Or.inr (h3 hp))
        · exact h3 hp
      · obtain rfl := mem_singleton.mp hm
        refine ⟨Or.inl rfl, Or.inl rfl, fun hp => ?_⟩
        rw [if_pos hp]
        exact mem_createTable.mpr (Or.inl rfl)
    · rw [hmsg, mem_createTable] at ht
      rcases ht with rfl | ht
      · exact ⟨_, hnew, rfl⟩
      · obtain ⟨m, hm, he⟩ := h.messages t ht
        exact ⟨m, hold m hm, he⟩
    · rw [hdlq, mem_createTable] at ht
      rcases ht with rfl | ht
      · exact ⟨_, hnew, rfl⟩
      · obtain ⟨m, hm, he⟩ := h.deadLetters t ht
        exact ⟨m, hold m hm, he⟩
    · have hsub' : t = c.tableName ∧ c.queueType = .pubsub ∨ t ∈ s.sub := by
        rw [hsub] at ht
        split at ht
        · rename_i hp
          exact (mem_createTable.mp ht).imp (fun he => ⟨he, hp⟩) id
        · exact Or.inr ht
      rcases hsub' with ⟨rfl, hp⟩ | ht
      · exact ⟨_, hnew, rfl, hp⟩
      · obtain ⟨m, hm, he⟩ := h.subscriptions t ht
        exact ⟨m, hold m hm, he⟩

/-! ## delete -/

theorem executeDelete_ok (h : s.executeDelete c = .ok s') :
    s'.metadata = s.metadata.delete c.queueType c.name ∧ s'.msg = dropTable c.tableName s.msg ∧
      s'.dlq = dropTable c.tableName s.dlq ∧
      s'.sub = (if c.queueType = .pubsub then dropTable c.tableName s.sub else s.sub) ∧
      (c.tableName ∈ s'.sub → c.tableName ∉ s.msg) ∧
      s'.creates = s.creates ∧ s'.deletes = s.deletes := by
  unfold State.executeDelete at h
  by_cases hin : c.tableName ∈ s.msg ∧
      c.tableName ∈ (if c.queueType = .pubsub then dropTable c.tableName s.sub else s.sub)
  · rw [if_pos hin] at h
    cases h
  · rw [if_neg hin] at h
    obtain rfl := Except.ok.inj h
    exact ⟨rfl, rfl, rfl, rfl, fun hs hm => hin ⟨hm, hs⟩, rfl, rfl⟩

theorem mem_rows_delete (hn : Named s) (hc : c.tableName = sanitizeTableName c.name)
    (hown : ∀ m ∈ s.metadata.rows, m.tableName = c.tableName → m.queue = c.queue) {m : Metadata} :
    m ∈ (s.metadata.delete c.queueType c.name).rows ↔
      m ∈ s.metadata.rows ∧ m.tableName ≠ c.tableName := by
  rw [Registry.mem_delete]
  refine and_congr_right fun hm => not_congr ⟨fun hq => ?_, fun he => hown m hm he⟩
  have hname : m.queueName = c.name := (Prod.mk.inj hq).2
  rw [hn.rows m hm, hc, hname]

theorem Consistent.delete (h : Consistent s) (hn : Named s)
    (hc : c.tableName = sanitizeTableName c.name) (hst : ¬ Steals s c) :
    Consistent (committed s (s.executeDelete c)) := by
  cases he : s.executeDelete c with
  | error e => exact h
  | ok s' =>
    obtain ⟨hmeta, hmsg, hdlq, hsub, hfree, -, -⟩ := executeDelete_ok he
    -- the drops of a channel would have failed on the tables of a topic
    have hown : ∀ m ∈ s.metadata.rows, m.tableName = c.tableName → m.queue = c.queue := by
      intro m hm ht
      by_contra hne
      have hboth : c.queueType = .channel ∧ m.queueType = .pubsub :=
        not_not.mp fun hboth => hst ⟨m, hm, ht, hne, hboth⟩
      obtain ⟨h1, -, h3⟩ := h.tables m hm
      have hin : c.tableName ∈ s'.sub := by
        rw [hsub, if_neg (by rw [hboth.1]; nofun), ← ht]
        exact h3 hboth.2
      exact hfree hin (ht ▸ h1)
    have hrows : ∀ {m}, m ∈ s'.metadata.rows ↔ m ∈ s.metadata.rows ∧ m.tableName ≠ c.tableName := by
      intro m
      rw [hmeta]
      exact mem_rows_delete hn hc hown
    have hsub' : ∀ {t}, t ∈ s'.sub ↔ t ∈ s.sub ∧ t ≠ c.tableName := by
      intro t
      rw [hsub]
      split
      · exact mem_dropTable
      · rename_i hp
        refine ⟨fun ht => ⟨ht, fun heq => ?_⟩, And.left⟩
        obtain ⟨m, hm, hmt, hpub⟩ := h.subscriptions t ht
        exact hp ((Prod.mk.inj (hown m hm (hmt.trans heq))).1 ▸ hpub)
    show Consistent s'
    refine ⟨fun m hm => ?_, fun t ht => ?_, fun t ht => ?_, fun t ht => ?_⟩
    · obtain ⟨hm, hne⟩ := hrows.mp hm
      obtain ⟨h1, h2, h3⟩ := h.tables m hm
      rw [hmsg, hdlq]
      exact ⟨mem_dropTable.mpr ⟨h1, hne⟩, mem_dropTable.mpr ⟨h2, hne⟩,
        fun hp => hsub'.mpr ⟨h3 hp, hne⟩⟩
    · rw [hmsg] at ht
      obtain ⟨ht, hne⟩ := mem_dropTable.mp ht
      obtain ⟨m, hm, rfl⟩ := h.messages t ht
      exact ⟨m, hrows.mpr ⟨hm, hne⟩, rfl⟩
    · rw [hdlq] at ht
      obtain ⟨ht, hne⟩ := mem_dropTable.mp ht
      obtain ⟨m, hm, rfl⟩ := h.deadLetters t ht
      exact ⟨m, hrows.mpr ⟨hm, hne⟩, rfl⟩
    · obtain ⟨ht, hne⟩ := hsub'.mp ht
      obtain ⟨m, hm, rfl, hp⟩ := h.subscriptions t ht
      exact ⟨m, hrows.mpr ⟨hm, hne⟩, rfl, hp⟩

theorem Steals.torn (h : Consistent s) (hst : Steals s c) :
    ¬ Consistent (committed s (s.executeDelete c)) := by
  obtain ⟨m, hm, ht, hne, hboth⟩ := hst
  have hfree : c.tableName ∉ (if c.queueType = .pubsub then dropTable c.tableName s.sub else s.sub) := by
    split
    · exact fun hmem => (mem_dropTable.mp hmem).2 rfl
    · rename_i hp
      intro hmem
      obtain ⟨x, hx, hxt, hxp⟩ := h.subscriptions _ hmem
      have hxm : x = m := Registry.owner_unique hx hm (hxt.trans ht.symm)
      refine hboth ⟨?_, hxm ▸ hxp⟩
      cases hq : c.queueType with
      | channel => rfl
      | pubsub => exact absurd hq hp
  unfold State.executeDelete
  rw [if_neg fun hin => hfree hin.2]
  intro hcons
  have hm' : m ∈ (s.metadata.delete c.queueType c.name).rows := Registry.mem_delete.mpr ⟨hm, hne⟩
  exact (mem_dropTable.mp (hcons.tables m hm').1).2 ht

/-! ## runs -/

theorem Consistent.congr (h : Consistent s) (hm : s'.metadata = s.metadata) (h1 : s'.msg = s.msg)
    (h2 : s'.dlq = s.dlq) (h3 : s'.sub = s.sub) : Consistent s' := by
  obtain ⟨ha, hb, hc, hd⟩ := h
  constructor
  · rwa [hm, h1, h2, h3]
  · rwa [hm, h1]
  · rwa [hm, h2]
  · rwa [hm, h3]

end

structure Invariant (s : State) : Prop where
  consistent : Consistent s
  named : Named s

section
variable {s s' : State} {c : Call} {queueType : QueueType} {name : String}

theorem Invariant.createChecks (h : Invariant s) :
    Invariant (committed s (s.createChecks queueType name)) := by
  unfold State.createChecks
  split
  · exact h
  · rename_i tableName hcr
    refine ⟨h.consistent.congr rfl rfl rfl rfl, h.named.rows, fun c hc => ?_, h.named.deletes⟩
    rcases mem_cons.mp hc with rfl | hc
    · exact Registry.create_ok hcr
    · exact h.named.creates c hc

theorem Invariant.deleteRead (h : Invariant s) :
    Invariant (committed s (s.deleteRead queueType name)) := by
  unfold State.deleteRead
  split
  · exact h
  · split
    · exact h
    · rename_i m hm
      refine ⟨h.consistent.congr rfl rfl rfl rfl, h.named.rows, h.named.creates, fun c hc => ?_⟩
      rcases mem_cons.mp hc with rfl | hc
      · obtain ⟨hmem, hq⟩ := Registry.getQueueMetadata_eq_some hm
        rw [h.named.rows m hmem, (Prod.mk.inj hq).2]
      · exact h.named.deletes c hc

theorem Invariant.createTx (h : Invariant s) (hc : c ∈ s.creates) :
    Invariant { committed s (s.createQueueInTx c) with creates := s.creates.erase c } := by
  refine ⟨(h.consistent.create (c := c)).congr rfl rfl rfl rfl, ?_,
    fun x hx => h.named.creates x (mem_of_mem_erase hx), ?_⟩
  · cases hcr : s.createQueueInTx c with
    | error e => exact h.named.rows
    | ok s' =>
      intro m hm
      rw [show ({ committed s (.ok s') with creates := _ } : State).metadata.rows = _ from
        (createQueueInTx_spec hcr).1] at hm
      rcases mem_append.mp hm with hm | hm
      · exact h.named.rows m hm
      · obtain rfl := mem_singleton.mp hm
        exact h.named.creates c hc
  · cases hcr : s.createQueueInTx c with
    | error e => exact h.named.deletes
    | ok s' =>
      intro x hx
      exact h.named.deletes x ((createQueueInTx_spec hcr).2.2.2.2.2 ▸ hx)

theorem Invariant.deleteTx (h : Invariant s) (hc : c ∈ s.deletes) (hst : ¬ Steals s c) :
    Invariant { committed s (s.executeDelete c) with deletes := s.deletes.erase c } := by
  refine ⟨(h.consistent.delete h.named (h.named.deletes c hc) hst).congr rfl rfl rfl rfl, ?_, ?_,
    fun x hx => h.named.deletes x (mem_of_mem_erase hx)⟩
  · cases he : s.executeDelete c with
    | error e => exact h.named.rows
    | ok s' =>
      intro m hm
      rw [show ({ committed s (.ok s') with deletes := _ } : State).metadata = _ from
        (executeDelete_ok he).1] at hm
      exact h.named.rows m (Registry.mem_delete.mp hm).1
  · cases he : s.executeDelete c with
    | error e => exact h.named.creates
    | ok s' =>
      intro x hx
      exact h.named.creates x ((executeDelete_ok he).2.2.2.2.2.1 ▸ hx)

theorem Invariant.rollback (h : Invariant s) {creates deletes : List Call}
    (hc : ∀ c ∈ creates, c ∈ s.creates) (hd : ∀ c ∈ deletes, c ∈ s.deletes) :
    Invariant { s with creates := creates, deletes := deletes } :=
  ⟨h.consistent.congr rfl rfl rfl rfl, h.named.rows, fun c hm => h.named.creates c (hc c hm),
    fun c hm => h.named.deletes c (hd c hm)⟩

theorem Invariant.step {e : Event} (h : Invariant s) (hok : Careful s e) (hs : step s e = some s') :
    Invariant s' := by
  cases e with
  | createChecks queueType name =>
    cases hs
    exact h.createChecks
  | deleteRead queueType name =>
    cases hs
    exact h.deleteRead
  | createTx c =>
    rw [Queues.step] at hs
    split at hs
    · rename_i hc
      cases hs
      exact h.createTx hc
    · cases hs
  | deleteTx c =>
    rw [Queues.step] at hs
    split at hs
    · rename_i hc
      cases hs
      exact h.deleteTx hc hok
    · cases hs
  | createRollback c =>
    rw [Queues.step] at hs
    split at hs
    · cases hs
      exact h.rollback (fun _ hx => mem_of_mem_erase hx) fun _ hx => hx
    · cases hs
  | deleteRollback c =>
    rw [Queues.step] at hs
    split at hs
    · cases hs
      exact h.rollback (fun _ hx => hx) fun _ hx => mem_of_mem_erase hx
    · cases hs

end

theorem invariant_init : Invariant .init :=
  ⟨⟨fun _ h => absurd h not_mem_nil, fun _ h => absurd h not_mem_nil,
    fun _ h => absurd h not_mem_nil, fun _ h => absurd h not_mem_nil⟩,
    fun _ h => absurd h not_mem_nil, fun _ h => absurd h not_mem_nil,
    fun _ h => absurd h not_mem_nil⟩

theorem catalogue_consistent {s : State} (h : Runs step Careful .init s) :
    Consistent s ∧
    ∀ c ∈ s.deletes, (Consistent (committed s (s.executeDelete c)) ↔ ¬ Steals s c) := by
  have hi : Invariant s := h.invariant Invariant invariant_init fun _ _ _ hi hok hs => hi.step hok hs
  refine ⟨hi.consistent, fun c hc => ⟨fun hcons hst => hst.torn hi.consistent hcons, fun hst => ?_⟩⟩
  exact hi.consistent.delete hi.named (hi.named.deletes c hc) hst

/-- the channel `a-b`, deleted twice at the same time -/
def twoDeletions : List Event :=
  [.createChecks .channel "a-b", .createTx ⟨.channel, "a-b", "a_b"⟩,
    .deleteRead .channel "a-b", .deleteRead .channel "a-b", .deleteTx ⟨.channel, "a-b", "a_b"⟩]

theorem catalogue_consistent_twoDeletions :
    ∃ s, follow (guarded step Careful) .init twoDeletions = some s ∧
      Consistent s ∧ Consistent (committed s (s.executeDelete ⟨.channel, "a-b", "a_b"⟩)) := by
  refine ⟨_, rfl, ?_⟩
  obtain ⟨hs, hd⟩ := catalogue_consistent (Runs.of_follow twoDeletions rfl)
  exact ⟨hs, (hd ⟨.channel, "a-b", "a_b"⟩ (by decide)).mpr (by decide)⟩

/-- between the two deletions the name is taken by the channel `a_b` -/
theorem catalogue_torn :
    ∃ s, follow step .init (twoDeletions ++ [.createChecks .channel "a_b",
        .createTx ⟨.channel, "a_b", "a_b"⟩, .deleteTx ⟨.channel, "a-b", "a_b"⟩]) = some s ∧
      s.metadata.rows = [⟨.channel, "a_b", "a_b"⟩] ∧ s.msg = [] ∧ s.dlq = [] ∧ ¬ Consistent s := by
  refine ⟨_, rfl, rfl, rfl, rfl, fun h => ?_⟩
  exact absurd (h.tables ⟨.channel, "a_b", "a_b"⟩ mem_cons_self).1 not_mem_nil

end PgQueue.Catalogue.Queues
