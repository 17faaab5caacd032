import PgQueue.Catalogue.Names
import PgQueue.Relational.Schema

/-!
# The relations of a queue

The tables of a queue are created with `CREATE TABLE IF NOT EXISTS` and get their indexes right after, in
the namespace that all queues share with the base schema.

* `queueStatements`   the script of a channel and of a topic;
* `Database`          the relations and the metadata table, and `createQueue` on them;
* `Accounted`         every relation is of the base schema or from the script of a queue that exists;
* `free_name_created`   **a valid name whose table name is free can be created if and only if none of its
                      tables has the name of an index; for that it is enough that no queue `u` exists such
                      that the table name begins with `u_pkey`.**

`free_name_refused`: after the channel `x`, the channel `x_pkey` cannot be created.
-/

namespace PgQueue.Catalogue
open Relational Relational.Schema List

/-! ## the script -/

def msgTable (tableName : String) : String := "pgqueue_msg_" ++ tableName
def dlqTable (tableName : String) : String := "pgqueue_dlq_" ++ tableName
def subTable (tableName : String) : String := "pgqueue_sub_" ++ tableName

/-- every index of a queue is named after its table -/
def indexOn (table suffix : String) : Statement := .createIndex ("idx_" ++ table ++ suffix) table

def createDLQTable (tableName : String) : List Statement :=
  .createTable (dlqTable tableName) [] ::
    ["_moved_at", "_orig_msg"].map (indexOn (dlqTable tableName))

def createChannelIndexes (tableName : String) : List Statement :=
  ["_status_created", "_consumable_null", "_consumable_timeout", "_completed"].map
    (indexOn (msgTable tableName))

def createChannelTables (tableName : String) : List Statement :=
  .createTable (msgTable tableName) [] :: createChannelIndexes tableName ++ createDLQTable tableName

def createPubSubMessageTable (tableName : String) : List Statement :=
  [.createTable (msgTable tableName) [], indexOn (msgTable tableName) "_created_at"]

def createPubSubIndexes (tableName : String) : List Statement :=
  ["_msg_id", "_subscriber", "_status", "_consumable_null", "_consumable_timeout"].map
    (indexOn (subTable tableName))

def createPubSubDLQSubscriberIndex (tableName : String) : List Statement :=
  [indexOn (dlqTable tableName) "_subscriber_id"]

def createPubSubTables (tableName : String) : List Statement :=
  createPubSubMessageTable tableName ++
    .createTable (subTable tableName) ["_message_id_subscriber_id_key"] ::
    createPubSubIndexes tableName ++ createDLQTable tableName ++ createPubSubDLQSubscriberIndex tableName

/-- `createQueueTables` -/
def queueStatements : QueueType → String → List Statement
  | .channel, tableName => createChannelTables tableName
  | .pubsub, tableName => createPubSubTables tableName

def queueTables : QueueType → String → List String
  | .channel, tableName => [msgTable tableName, dlqTable tableName]
  | .pubsub, tableName => [msgTable tableName, subTable tableName, dlqTable tableName]

theorem tablesOf_queueStatements (queueType : QueueType) (t : String) :
    tablesOf (queueStatements queueType t) = queueTables queueType t := by
  cases queueType <;> rfl

theorem declared_queueStatements (queueType : QueueType) (t : String) :
    Declared [] (queueStatements queueType t) := by
  cases queueType <;>
    simp [queueStatements, createChannelTables, createChannelIndexes, createDLQTable, createPubSubTables,
      createPubSubMessageTable, createPubSubIndexes, createPubSubDLQSubscriberIndex, indexOn, Declared]

theorem indexed_queueStatements (queueType : QueueType) (t : String) :
    ∀ T ∈ queueTables queueType t, ∃ name, .createIndex name T ∈ queueStatements queueType t := by
  have hdlq : indexOn (dlqTable t) "_moved_at" ∈ createDLQTable t :=
    mem_cons_of_mem _ mem_cons_self
  intro T hT
  cases queueType with
  | channel =>
    have hsub : createDLQTable t ⊆ queueStatements .channel t := subset_append_right _ _
    rcases mem_cons.mp hT with rfl | hT
    · exact ⟨_, mem_cons_of_mem _ mem_cons_self⟩
    · obtain rfl := mem_singleton.mp hT
      exact ⟨_, hsub hdlq⟩
  | pubsub =>
    have hsub : createPubSubIndexes t ++ createDLQTable t ++ createPubSubDLQSubscriberIndex t ⊆
        queueStatements .pubsub t :=
      fun st hst => mem_append_right (createPubSubMessageTable t) (mem_cons_of_mem _ hst)
    rcases mem_cons.mp hT with rfl | hT
    · exact ⟨_, mem_cons_of_mem _ mem_cons_self⟩
    rcases mem_cons.mp hT with rfl | hT
    · exact ⟨_, hsub (mem_append_left _ (mem_append_left _ mem_cons_self))⟩
    · obtain rfl := mem_singleton.mp hT
      exact ⟨_, hsub (mem_append_left _ (mem_append_right _ hdlq))⟩

/-! ## names -/

def queuePrefixes : List String := ["pgqueue_msg_", "pgqueue_dlq_", "pgqueue_sub_"]

theorem length_queuePrefixes : ∀ p ∈ queuePrefixes, p.toList.length = 12 := by decide

theorem queuePrefixes_not_idx : ∀ p ∈ queuePrefixes, ¬ "idx_".toList <+: p.toList := by decide

variable {queueType : QueueType} {t : String}

theorem mem_queueTables {T : String} (h : T ∈ queueTables queueType t) :
    ∃ p ∈ queuePrefixes, T = p ++ t := by
  cases queueType <;> simp only [queueTables, mem_cons, not_mem_nil, or_false] at h
  · rcases h with rfl | rfl
    · exact ⟨"pgqueue_msg_", by decide, rfl⟩
    · exact ⟨"pgqueue_dlq_", by decide, rfl⟩
  · rcases h with rfl | rfl | rfl
    · exact ⟨"pgqueue_msg_", by decide, rfl⟩
    · exact ⟨"pgqueue_sub_", by decide, rfl⟩
    · exact ⟨"pgqueue_dlq_", by decide, rfl⟩

/-- a table is named after the queue, an index begins with `idx_`, and the unique key has a long name -/
def Shaped (t : String) : Statement → Prop
  | .createTable T keys => (∃ p ∈ queuePrefixes, T = p ++ t) ∧ ∀ suffix ∈ keys, suffix.length = 29
  | .createIndex name _ => "idx_".toList <+: name.toList

theorem shaped_indexOn (t table suffix : String) : Shaped t (indexOn table suffix) := by
  show "idx_".toList <+: ("idx_" ++ table ++ suffix).toList
  rw [String.append_assoc, String.toList_append]
  exact prefix_append _ _

theorem shaped_queueStatements : ∀ st ∈ queueStatements queueType t, Shaped t st := by
  have hmsg : Shaped t (.createTable (msgTable t) []) :=
    ⟨⟨"pgqueue_msg_", by decide, rfl⟩, fun _ h => absurd h not_mem_nil⟩
  have hdlq : Shaped t (.createTable (dlqTable t) []) :=
    ⟨⟨"pgqueue_dlq_", by decide, rfl⟩, fun _ h => absurd h not_mem_nil⟩
  have hsub : Shaped t (.createTable (subTable t) ["_message_id_subscriber_id_key"]) :=
    ⟨⟨"pgqueue_sub_", by decide, rfl⟩, by decide⟩
  cases queueType <;>
    simp [queueStatements, createChannelTables, createChannelIndexes, createDLQTable, createPubSubTables,
      createPubSubMessageTable, createPubSubIndexes, createPubSubDLQSubscriberIndex, shaped_indexOn, hmsg,
      hdlq, hsub]

/-- of the indexes of a queue only those of its primary keys can have the name of a queue table, and then
its table name goes on after `_pkey` -/
theorem mayIndex_queueTable {t' p : String} {st : Statement} (hst : st ∈ queueStatements queueType t)
    (hp : p ∈ queuePrefixes) (hlen : t'.toList.length ≤ maxQueueNameLength) (hi : st.MayIndex (p ++ t')) :
    (t ++ "_pkey").toList <+: t'.toList := by
  have hshape := shaped_queueStatements st hst
  have hp12 := length_queuePrefixes p hp
  cases st with
  | createTable T keys =>
    obtain ⟨⟨q, hq, rfl⟩, hkeys⟩ := hshape
    have hq12 := length_queuePrefixes q hq
    rcases hi with ⟨rest, hi⟩ | ⟨suffix, hs, hle⟩
    · rw [String.append_assoc, String.toList_append, String.toList_append (s := p), append_assoc] at hi
      exact ⟨rest, (append_inj hi (hq12.trans hp12.symm)).2⟩
    · -- 12 + 29 characters are more than 12 + 28
      have hsuffix := hkeys suffix hs
      rw [← String.length_toList (s := q ++ t), ← String.length_toList (s := p ++ t'), String.toList_append,
        String.toList_append, length_append, length_append, hp12, hq12, hsuffix] at hle
      unfold maxIdentifierLength maxQueueNameLength at *
      omega
  | createIndex name on =>
    cases hi
    have hidx : "idx_".toList <+: p.toList ++ t'.toList := String.toList_append ▸ hshape
    exact absurd (prefix_of_prefix_length_le hidx (prefix_append _ _)
      (by rw [hp12]; decide)) (queuePrefixes_not_idx p hp)

/-! ## the database -/

/-- what `CreateSchema` and the migrations leave -/
def baseRelations : Schema where
  rows := [
    ⟨"pgqueue_metadata", .table⟩, ⟨"pgqueue_metadata_pkey", .index⟩,
    ⟨"pgqueue_metadata_queue_type_queue_name_key", .index⟩, ⟨"pgqueue_metadata_table_name_key", .index⟩,
    ⟨"pgqueue_subscribers", .table⟩, ⟨"pgqueue_subscribers_pkey", .index⟩,
    ⟨"pgqueue_subscribers_topic_name_subscriber_id_key", .index⟩,
    ⟨"idx_pgqueue_subscribers_topic", .index⟩,
    ⟨"pgqueue_replay_log", .table⟩, ⟨"pgqueue_replay_log_pkey", .index⟩,
    ⟨"idx_pgqueue_replay_log_queue", .index⟩, ⟨"idx_pgqueue_replay_log_created_at", .index⟩,
    ⟨"pgqueue_schema_version", .table⟩, ⟨"pgqueue_schema_version_pkey", .index⟩]
  nodup := by decide

theorem baseRelations_not_queue :
    ∀ r ∈ baseRelations.rows, ∀ p ∈ queuePrefixes, ¬ p.toList <+: r.name.toList := by decide +kernel

structure Database where
  relations : Schema
  metadata : Registry

namespace Database

def base : Database := ⟨baseRelations, .empty⟩

/-- the checks, and then the metadata row and the tables in one transaction; there is no cap on the
number of queues -/
def createQueue (naming : Naming) (db : Database) (queueType : QueueType) (name : String) :
    Except CatalogueError Database :=
  match db.metadata.create queueType name with
  | .error e => .error e
  | .ok tableName =>
    match db.metadata.insert ⟨queueType, name, tableName⟩ with
    | none => .error .queueAlreadyExists
    | some metadata =>
      match execAll naming db.relations (queueStatements queueType tableName) with
      | none => .error .wrongObjectType
      | some relations => .ok ⟨relations, metadata⟩

/-- after any creations; one that fails leaves the database as it was -/
def created (naming : Naming) : List (QueueType × String) → Database
  | [] => base
  | (queueType, name) :: calls =>
    match createQueue naming (created naming calls) queueType name with
    | .error _ => created naming calls
    | .ok db => db

/-- every relation is of the base schema or from the script of a queue that exists -/
structure Accounted (db : Database) : Prop where
  relations : ∀ r ∈ db.relations.rows, r ∈ baseRelations.rows ∨ ∃ m ∈ db.metadata.rows,
    (r.kind = .table ∧ r.name ∈ queueTables m.queueType m.tableName) ∨
      r.kind = .index ∧ ∃ st ∈ queueStatements m.queueType m.tableName, st.MayIndex r.name
  named : ∀ m ∈ db.metadata.rows, m.tableName = sanitizeTableName m.queueName

section
variable {naming : Naming} {db db' : Database} {queueType : QueueType} {name : String}

theorem createQueue_ok : db.createQueue naming queueType name = .ok db' ↔
    db.metadata.create queueType name = .ok (sanitizeTableName name) ∧
      db.metadata.insert ⟨queueType, name, sanitizeTableName name⟩ = some db'.metadata ∧
      execAll naming db.relations (queueStatements queueType (sanitizeTableName name)) =
        some db'.relations := by
  unfold createQueue
  constructor
  · intro h
    split at h
    · cases h
    · rename_i tableName hc
      obtain rfl := Registry.create_ok hc
      split at h
      · cases h
      · rename_i metadata hi
        split at h
        · cases h
        · rename_i relations he
          cases h
          exact ⟨hc, hi, he⟩
  · rintro ⟨hc, hi, he⟩
    rw [hc]
    dsimp only
    rw [hi]
    rw [he]

theorem Accounted.createQueue (h : Accounted db) (hc : db.createQueue naming queueType name = .ok db') :
    Accounted db' := by
  obtain ⟨-, hins, hexec⟩ := createQueue_ok.mp hc
  have hrows := (Registry.insert_eq_some hins).1
  refine ⟨fun r hr => ?_, fun m hm => ?_⟩
  · rw [hrows]
    rcases mem_execAll hexec hr with hr | hr
    · refine (h.relations r hr).imp id ?_
      rintro ⟨m, hm, hm'⟩
      exact ⟨m, mem_append_left _ hm, hm'⟩
    · rw [tablesOf_queueStatements] at hr
      exact Or.inr ⟨_, mem_append_right _ (mem_singleton_self _), hr⟩
  · rw [hrows] at hm
    rcases mem_append.mp hm with hm | hm
    · exact h.named m hm
    · obtain rfl := mem_singleton.mp hm
      rfl

theorem accounted_created (naming : Naming) (calls : List (QueueType × String)) :
    Accounted (created naming calls) := by
  induction calls with
  | nil => exact ⟨fun r hr => Or.inl hr, fun m hm => absurd hm not_mem_nil⟩
  | cons call calls ih =>
    rw [created]
    split
    · exact ih
    · rename_i db hc
      exact ih.createQueue hc

theorem length_sanitizeTableName (hv : validateQueueName name = .ok ()) :
    (sanitizeTableName name).toList.length ≤ maxQueueNameLength := by
  rw [sanitizeTableName, String.toList_ofList, length_map]
  exact (validateQueueName_ok hv).2.1

theorem Accounted.queueTable (h : Accounted db) {T t : String} (hT : T ∈ queueTables queueType t)
    (hlen : t.toList.length ≤ maxQueueNameLength) {k : RelationKind} (hk : kindOf db.relations T = some k) :
    ∃ m ∈ db.metadata.rows, (k = .table ∧ m.tableName = t) ∨
      k = .index ∧ (m.tableName ++ "_pkey").toList <+: t.toList := by
  obtain ⟨p, hp, rfl⟩ := mem_queueTables hT
  rcases h.relations _ (kindOf_eq_some.mp hk) with hbase | ⟨m, hm, ⟨hkind, hmt⟩ | ⟨hkind, st, hst, hi⟩⟩
  · refine absurd ?_ (baseRelations_not_queue _ hbase p hp)
    rw [String.toList_append]
    exact prefix_append _ _
  · obtain ⟨q, hq, he⟩ := mem_queueTables hmt
    have he := congrArg String.toList he
    rw [String.toList_append, String.toList_append] at he
    have ht := (append_inj he ((length_queuePrefixes p hp).trans (length_queuePrefixes q hq).symm)).2
    exact ⟨m, hm, Or.inl ⟨hkind, (String.toList_inj.mp ht).symm⟩⟩
  · exact ⟨m, hm, Or.inr ⟨hkind, mayIndex_queueTable hst hp hlen hi⟩⟩

theorem Accounted.insert (h : Accounted db) (hv : validateQueueName name = .ok ())
    (hfree : ∀ m ∈ db.metadata.rows, m.tableName ≠ sanitizeTableName name) :
    db.metadata.create queueType name = .ok (sanitizeTableName name) ∧
      ∃ metadata, db.metadata.insert ⟨queueType, name, sanitizeTableName name⟩ = some metadata ∧
        (⟨queueType, name, sanitizeTableName name⟩ : Metadata) ∈ metadata.rows := by
  have hqueue : ∀ m ∈ db.metadata.rows, m.queue ≠ (queueType, name) := by
    intro m hm hq
    have hname : m.queueName = name := (Prod.mk.inj hq).2
    exact hfree m hm (hname ▸ h.named m hm)
  obtain ⟨metadata, hins⟩ := Registry.insert_of_free
    (m := ⟨queueType, name, sanitizeTableName name⟩) hqueue hfree
  refine ⟨Registry.create_of_free hv hqueue hfree, metadata, hins, ?_⟩
  rw [(Registry.insert_eq_some hins).1]
  exact mem_append_right _ (mem_singleton_self _)

/-- the queue is created, with its row and with tables that were not there before -/
def Creates (naming : Naming) (db : Database) (queueType : QueueType) (name : String) : Prop :=
  ∃ db', db.createQueue naming queueType name = .ok db' ∧
    (⟨queueType, name, sanitizeTableName name⟩ : Metadata) ∈ db'.metadata.rows ∧
    ∀ T ∈ queueTables queueType (sanitizeTableName name),
      kindOf db.relations T = none ∧ kindOf db'.relations T = some .table

theorem Accounted.creates_iff (h : Accounted db) (naming : Naming) (queueType : QueueType)
    (hv : validateQueueName name = .ok ())
    (hfree : ∀ m ∈ db.metadata.rows, m.tableName ≠ sanitizeTableName name) :
    Creates naming db queueType name ↔
      ∀ T ∈ queueTables queueType (sanitizeTableName name), kindOf db.relations T ≠ some .index := by
  have hlen := length_sanitizeTableName hv
  have hsep : ∀ st ∈ queueStatements queueType (sanitizeTableName name),
      ∀ T ∈ tablesOf (queueStatements queueType (sanitizeTableName name)), ¬ st.MayIndex T := by
    intro st hst T hT hi
    rw [tablesOf_queueStatements] at hT
    obtain ⟨p, hp, rfl⟩ := mem_queueTables hT
    have hle := (mayIndex_queueTable hst hp hlen hi).length_le
    rw [String.toList_append, length_append] at hle
    exact absurd hle (by simp)
  have hindexed : ∀ T ∈ tablesOf (queueStatements queueType (sanitizeTableName name)),
      ∃ n, .createIndex n T ∈ queueStatements queueType (sanitizeTableName name) := by
    rw [tablesOf_queueStatements]
    exact indexed_queueStatements queueType (sanitizeTableName name)
  have hrun := execAll_iff naming db.relations (declared_queueStatements queueType _) hindexed hsep
  rw [tablesOf_queueStatements] at hrun
  rw [← hrun]
  constructor
  · rintro ⟨db', hc, -, htab⟩
    exact ⟨db'.relations, (createQueue_ok.mp hc).2.2, fun T hT => (htab T hT).2⟩
  · rintro ⟨R', hexec, htab⟩
    obtain ⟨hchecks, metadata, hins, hmem⟩ := h.insert hv hfree
    refine ⟨⟨R', metadata⟩, createQueue_ok.mpr ⟨hchecks, hins, hexec⟩, hmem, fun T hT => ⟨?_, htab T hT⟩⟩
    cases hk : kindOf db.relations T with
    | none => rfl
    | some k =>
      obtain ⟨m, hm, ⟨-, ht⟩ | ⟨rfl, -⟩⟩ := h.queueTable hT hlen hk
      · exact absurd ht (hfree m hm)
      · exact absurd hk (hrun.mp ⟨R', hexec, htab⟩ T hT)

end
end Database
open Database

/-- **a valid name whose table name is free can be created, with its own tables, if and only if none of
its tables has the name of an index.**  That can only be an index of a queue `u` such that the table name
begins with `u_pkey` -/
theorem free_name_created (naming : Naming) (calls : List (QueueType × String)) (queueType : QueueType)
    (name : String) (hv : validateQueueName name = .ok ())
    (hfree : ∀ m ∈ (created naming calls).metadata.rows, m.tableName ≠ sanitizeTableName name) :
    (Creates naming (created naming calls) queueType name ↔
      ∀ T ∈ queueTables queueType (sanitizeTableName name),
        kindOf (created naming calls).relations T ≠ some .index) ∧
    ((∀ m ∈ (created naming calls).metadata.rows,
        ¬ (m.tableName ++ "_pkey").toList <+: (sanitizeTableName name).toList) →
      Creates naming (created naming calls) queueType name) := by
  have h := accounted_created naming calls
  have hiff := h.creates_iff naming queueType hv hfree
  refine ⟨hiff, fun hnames => hiff.mpr fun T hT hk => ?_⟩
  obtain ⟨m, hm, ⟨hkind, -⟩ | ⟨-, hpre⟩⟩ := h.queueTable hT (length_sanitizeTableName hv) hk
  · cases hkind
  · exact hnames m hm hpre

/-- the names of a topic next to a channel `x` only come close to `x_pkey` -/
theorem free_name_created_close :
    Creates .extending (created .extending [(.channel, "x")]) .pubsub "X-pke" := by
  have hfree : ∀ m ∈ (created .extending [(.channel, "x")]).metadata.rows,
      m.tableName ≠ sanitizeTableName "X-pke" := by decide +kernel
  have hnames : ∀ m ∈ (created .extending [(.channel, "x")]).metadata.rows,
      ¬ (m.tableName ++ "_pkey").toList <+: (sanitizeTableName "X-pke").toList := by decide +kernel
  exact (free_name_created .extending _ .pubsub "X-pke" (by decide +kernel) hfree).2 hnames

/-- the index of the primary key of `pgqueue_msg_x` has the name of the message table of `x_pkey` -/
theorem free_name_refused : validateQueueName "x_pkey" = .ok () ∧
    (∀ m ∈ (created .extending [(.channel, "x")]).metadata.rows,
      m.tableName ≠ sanitizeTableName "x_pkey") ∧
    ¬ Creates .extending (created .extending [(.channel, "x")]) .channel "x_pkey" ∧
    ¬ Creates .extending (created .extending [(.channel, "x")]) .pubsub "x_pkey" := by
  have hv : validateQueueName "x_pkey" = .ok () := by decide +kernel
  have hfree : ∀ m ∈ (created .extending [(.channel, "x")]).metadata.rows,
      m.tableName ≠ sanitizeTableName "x_pkey" := by decide +kernel
  have hindex : kindOf (created .extending [(.channel, "x")]).relations "pgqueue_msg_x_pkey" =
      some .index := by decide +kernel
  have htable : ∀ queueType, "pgqueue_msg_x_pkey" ∈ queueTables queueType (sanitizeTableName "x_pkey") := by
    intro queueType
    cases queueType <;> decide +kernel
  have hno : ∀ queueType, ¬ Creates .extending (created .extending [(.channel, "x")]) queueType "x_pkey" :=
    fun queueType hc => ((accounted_created .extending [(.channel, "x")]).creates_iff .extending queueType
      hv hfree).mp hc "pgqueue_msg_x_pkey" (htable queueType) hindex
  exact ⟨hv, hfree, hno .channel, hno .pubsub⟩

end PgQueue.Catalogue
