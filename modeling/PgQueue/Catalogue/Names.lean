import Mathlib.Data.List.Nodup
import PgQueue.Types

/-!
# Queue names and the metadata table

The tables of a queue are named after its sanitized name, in which a dash is an underscore and a letter
is lower case.  `pgqueue_metadata` has one row for each queue, unique by type and name, and unique by
table name.

* `validateQueueName`, `sanitizeTableName`;
* `Registry`          the metadata table with its two constraints;
* `Registry.insert`   `none` is a unique violation;
* `Registry.create`   the checks of `createQueue`, which precede its transaction.
-/

namespace PgQueue.Catalogue
open Relational List

inductive CatalogueError where
  | invalidQueueName
  | queueAlreadyExists
  | queueNotFound
  | topicNotFound
  | invalidSubscriberID
  | dependentObjects
  | wrongObjectType
deriving DecidableEq, Repr

def maxQueueNameLength : Nat := 28

def nameChar (c : Char) : Bool := c.isAlphanum || c == '_' || c == '-'

/-- 1 to 28 letters, digits, underscores and dashes -/
def validateQueueName (name : String) : Except CatalogueError Unit :=
  if name.toList ≠ [] ∧ name.toList.length ≤ maxQueueNameLength ∧ name.toList.all nameChar then .ok ()
  else .error .invalidQueueName

theorem validateQueueName_ok {name : String} (h : validateQueueName name = .ok ()) :
    name.toList ≠ [] ∧ name.toList.length ≤ maxQueueNameLength ∧ ∀ c ∈ name.toList, nameChar c = true := by
  unfold validateQueueName at h
  split at h
  · rename_i hv
    exact ⟨hv.1, hv.2.1, all_eq_true.mp hv.2.2⟩
  · cases h

def sanitizeChar (c : Char) : Char := if c = '-' then '_' else c.toLower

def sanitizeTableName (name : String) : String := String.ofList (name.toList.map sanitizeChar)

structure Metadata where
  queueType : QueueType
  queueName : String
  tableName : String
deriving DecidableEq, Repr

def Metadata.queue (m : Metadata) : QueueType × String := (m.queueType, m.queueName)

structure Registry where
  table : Table Metadata String Metadata.tableName
  unique : (table.rows.map Metadata.queue).Nodup

namespace Registry

def empty : Registry := ⟨Table.empty, nodup_nil⟩

abbrev rows (g : Registry) : List Metadata := g.table.rows

def getQueueMetadata (g : Registry) (queueType : QueueType) (name : String) : Option Metadata :=
  g.rows.find? fun m => decide (m.queue = (queueType, name))

/-- `createQueueMetadata`: an `INSERT` under the two constraints -/
def insert (g : Registry) (m : Metadata) : Option Registry :=
  if h : m.queue ∉ g.rows.map Metadata.queue ∧ m.tableName ∉ g.rows.map Metadata.tableName then
    some ⟨⟨g.rows ++ [m], by
      rw [map_append]
      exact g.table.nodup.append (nodup_singleton _) (disjoint_singleton.mpr h.2)⟩, by
      show ((g.rows ++ [m]).map Metadata.queue).Nodup
      rw [map_append]
      exact g.unique.append (nodup_singleton _) (disjoint_singleton.mpr h.1)⟩
  else none

/-- the `DELETE` of `deleteQueueMetadata`; the number of rows it hits is not looked at -/
def delete (g : Registry) (queueType : QueueType) (name : String) : Registry :=
  ⟨g.table.delete fun m => decide (m.queue = (queueType, name)),
    (filter_sublist.map Metadata.queue).nodup g.unique⟩

/-- the checks of `createQueue`: the table name they pass -/
def create (g : Registry) (queueType : QueueType) (name : String) : Except CatalogueError String :=
  match validateQueueName name with
  | .error e => .error e
  | .ok () =>
    match g.getQueueMetadata queueType name with
    | some _ => .error .queueAlreadyExists
    | none =>
      if (g.table.find? (sanitizeTableName name)).isSome then .error .queueAlreadyExists
      else .ok (sanitizeTableName name)

section
variable {g g' : Registry} {m x : Metadata} {queueType : QueueType} {name : String}

theorem getQueueMetadata_eq_some (h : g.getQueueMetadata queueType name = some m) :
    m ∈ g.rows ∧ m.queue = (queueType, name) := by
  have hq := find?_some h
  rw [decide_eq_true_eq] at hq
  exact ⟨mem_of_find?_eq_some h, hq⟩

theorem isSome_getQueueMetadata :
    (g.getQueueMetadata queueType name).isSome ↔ ∃ m ∈ g.rows, m.queue = (queueType, name) := by
  unfold getQueueMetadata
  rw [find?_isSome]
  simp only [decide_eq_true_eq]

theorem insert_eq_some (h : g.insert m = some g') :
    g'.rows = g.rows ++ [m] ∧ (∀ x ∈ g.rows, x.queue ≠ m.queue) ∧
      ∀ x ∈ g.rows, x.tableName ≠ m.tableName := by
  unfold insert at h
  split at h
  · rename_i hfree
    cases h
    exact ⟨rfl, fun x hx he => hfree.1 (he ▸ mem_map_of_mem hx),
      fun x hx he => hfree.2 (he ▸ mem_map_of_mem hx)⟩
  · cases h

theorem mem_delete : x ∈ (g.delete queueType name).rows ↔ x ∈ g.rows ∧ x.queue ≠ (queueType, name) := by
  show x ∈ g.rows.filter _ ↔ _
  rw [mem_filter, Bool.not_eq_true', decide_eq_false_iff_not]

theorem create_ok {tableName : String} (h : g.create queueType name = .ok tableName) :
    tableName = sanitizeTableName name := by
  unfold create at h
  split at h
  · cases h
  · split at h
    · cases h
    · split at h
      · cases h
      · exact (Except.ok.inj h).symm

theorem create_of_free (hv : validateQueueName name = .ok ())
    (hqueue : ∀ m ∈ g.rows, m.queue ≠ (queueType, name))
    (htable : ∀ m ∈ g.rows, m.tableName ≠ sanitizeTableName name) :
    g.create queueType name = .ok (sanitizeTableName name) := by
  have hq : g.getQueueMetadata queueType name = none :=
    find?_eq_none.mpr fun m hm => by
      rw [decide_eq_true_eq]
      exact hqueue m hm
  have ht : g.table.find? (sanitizeTableName name) = none := Table.find?_eq_none.mpr htable
  unfold create
  rw [hv]
  rw [hq]
  rw [ht]
  rfl

theorem insert_of_free (hqueue : ∀ x ∈ g.rows, x.queue ≠ m.queue)
    (htable : ∀ x ∈ g.rows, x.tableName ≠ m.tableName) : ∃ g', g.insert m = some g' := by
  have h : m.queue ∉ g.rows.map Metadata.queue ∧ m.tableName ∉ g.rows.map Metadata.tableName := by
    refine ⟨fun hmem => ?_, fun hmem => ?_⟩
    · obtain ⟨x, hx, he⟩ := mem_map.mp hmem
      exact hqueue x hx he
    · obtain ⟨x, hx, he⟩ := mem_map.mp hmem
      exact htable x hx he
  exact ⟨_, dif_pos h⟩

theorem owner_unique (hm : m ∈ g.rows) (hx : x ∈ g.rows) (h : m.tableName = x.tableName) : m = x :=
  Table.eq_of_key hm hx h

end
end Registry
end PgQueue.Catalogue
