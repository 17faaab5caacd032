import PgQueue.Cache.Expiring
import PgQueue.Catalogue.Names
import PgQueue.Process.Calls

/-!
# The metadata cache, and the calls that use it

A process keeps the table names of its queues for a minute.  `getQueueMetadata` reads the metadata row and
then stores its table name; `cachedTableName` asks the cache first; `deleteQueue` takes the entry out twice,
before and after its commit.

* `MetadataCache`   the cache at the source's key, lifetime and capacity;
* `Memory`, `Call`  the clock, the committed rows and the cache, and where each call stands;
* `advance`         the next statement, or the next section under the cache's mutex, of a call;
* `step`            one event: any number of calls, interleaved.

No queue is created: what is deleted stays so.
-/

namespace PgQueue.MetaCache
open Relational Process Cache Catalogue

abbrev Queue := QueueType × String

def typeText : QueueType → String
  | .channel => "channel"
  | .pubsub => "pubsub"

abbrev MetadataCache := Expiring String String
abbrev CachedQueueMeta := Entry String String

def metadataCacheTTL : Duration := 60 * 1000 * millisecond
def metadataCacheMaxEntries : Nat := 4096

def key (q : Queue) : String := typeText q.1 ++ "/" ++ q.2

def MetadataCache.get (mc : MetadataCache) (now : Time) (q : Queue) : Option String × MetadataCache :=
  Expiring.get mc metadataCacheTTL now (key q)

def MetadataCache.set (mc : MetadataCache) (evictAt : Time) (visit : List CachedQueueMeta) (now : Time)
    (q : Queue) (tableName : String) : MetadataCache :=
  Expiring.set mc metadataCacheTTL metadataCacheMaxEntries evictAt visit now (key q) tableName

def MetadataCache.invalidate (mc : MetadataCache) (q : Queue) : MetadataCache :=
  Expiring.invalidate mc (key q)

def MetadataCache.sweep (mc : MetadataCache) (now : Time) : MetadataCache :=
  Expiring.sweep mc metadataCacheTTL now

/-! ## the calls -/

/-- what a lookup returns: `ErrQueueNotFound`, or the error of a statement, or the row -/
inductive Answer (α : Type) where
  | ok (a : α)
  | notFound
  | failed
deriving DecidableEq, Repr

inductive LookupAt where
  | begun
  /-- the row is read and not yet stored -/
  | found (m : Metadata)
  | returned (r : Answer Metadata)
deriving DecidableEq, Repr

inductive CachedAt where
  | begun
  /-- in its `getQueueMetadata`, after a miss -/
  | missed (pc : LookupAt)
  | returned (r : Answer String)
deriving DecidableEq, Repr

inductive DeleteAt where
  /-- in its `getQueueMetadata` -/
  | reading (pc : LookupAt)
  /-- in the transaction -/
  | begun
  | executed
  | invalidated
  | committed
  | returned (r : Answer Unit)
deriving DecidableEq, Repr

inductive Call where
  | getQueueMetadata (q : Queue) (pc : LookupAt)
  | cachedTableName (q : Queue) (pc : CachedAt)
  | deleteQueue (q : Queue) (pc : DeleteAt)
deriving DecidableEq, Repr

/-- `metadata` has the rows that are committed -/
structure Memory where
  now : Time
  metadata : Registry
  cache : MetadataCache

/-- the `SELECT`, and the `set` of a row that it found; `visit` is the order of the map, if it has to evict -/
def getQueueMetadata (visit : List CachedQueueMeta) (q : Queue) (mem : Memory) :
    LookupAt → Option (Memory × LookupAt)
  | .begun =>
    match mem.metadata.getQueueMetadata q.1 q.2 with
    | none => some (mem, .returned .notFound)
    | some m => some (mem, .found m)
  | .found m =>
    if visit.isPerm mem.cache.entries then
      some ({ mem with cache := mem.cache.set mem.now visit mem.now q m.tableName }, .returned (.ok m))
    else none
  | .returned _ => none

/-- `cachedTableName` behind its lookup -/
def CachedAt.after : LookupAt → CachedAt
  | .returned (.ok m) => .returned (.ok m.tableName)
  | .returned .notFound => .returned .notFound
  | .returned .failed => .returned .failed
  | .begun => .missed .begun
  | .found m => .missed (.found m)

def cachedTableName (visit : List CachedQueueMeta) (q : Queue) (mem : Memory) :
    CachedAt → Option (Memory × CachedAt)
  | .begun =>
    match mem.cache.get mem.now q with
    | (some tableName, mc) => some ({ mem with cache := mc }, .returned (.ok tableName))
    | (none, mc) => some ({ mem with cache := mc }, .missed .begun)
  | .missed pc => (getQueueMetadata visit q mem pc).map fun p => (p.1, .after p.2)
  | .returned _ => none

/-- `deleteQueue` behind its lookup -/
def DeleteAt.after : LookupAt → DeleteAt
  | .returned (.ok _) => .begun
  | .returned .notFound => .returned .notFound
  | .returned .failed => .returned .failed
  | .begun => .reading .begun
  | .found m => .reading (.found m)

/-- the transaction drops the tables and deletes the row, invalidates and commits; then it invalidates
again -/
def deleteQueue (visit : List CachedQueueMeta) (q : Queue) (mem : Memory) :
    DeleteAt → Option (Memory × DeleteAt)
  | .reading pc => (getQueueMetadata visit q mem pc).map fun p => (p.1, .after p.2)
  | .begun => some (mem, .executed)
  | .executed => some ({ mem with cache := mem.cache.invalidate q }, .invalidated)
  | .invalidated => some ({ mem with metadata := mem.metadata.delete q.1 q.2 }, .committed)
  | .committed => some ({ mem with cache := mem.cache.invalidate q }, .returned (.ok ()))
  | .returned _ => none

def advance (visit : List CachedQueueMeta) (_ : Nat) (mem : Memory) : Call → Option (Memory × Call)
  | .getQueueMetadata q pc =>
    (getQueueMetadata visit q mem pc).map fun p => (p.1, .getQueueMetadata q p.2)
  | .cachedTableName q pc => (cachedTableName visit q mem pc).map fun p => (p.1, .cachedTableName q p.2)
  | .deleteQueue q pc => (deleteQueue visit q mem pc).map fun p => (p.1, .deleteQueue q p.2)

def abort (_ : Nat) (mem : Memory) : Call → Option (Memory × Call)
  | .getQueueMetadata q .begun => some (mem, .getQueueMetadata q (.returned .failed))
  | .cachedTableName q (.missed .begun) => some (mem, .cachedTableName q (.returned .failed))
  | .deleteQueue q (.reading .begun) => some (mem, .deleteQueue q (.returned .failed))
  | .deleteQueue q .begun => some (mem, .deleteQueue q (.returned .failed))
  | .deleteQueue q .executed => some (mem, .deleteQueue q (.returned .failed))
  | .deleteQueue q .invalidated => some (mem, .deleteQueue q (.returned .failed))
  | _ => none

/-! ## events -/

abbrev World := Calls Memory Call

def World.start (mem : Memory) : World := ⟨mem, []⟩

inductive Event where
  | getQueueMetadata (q : Queue)
  | cachedTableName (q : Queue)
  | deleteQueue (q : Queue)
  | advance (i : Nat) (visit : List CachedQueueMeta)
  | abort (i : Nat)
  | tick (d : Nat)
  /-- the ticker of a garbage collector -/
  | sweep
deriving DecidableEq, Repr

def step (w : World) : Event → Option World
  | .getQueueMetadata q => some (w.push (.getQueueMetadata q .begun))
  | .cachedTableName q => some (w.push (.cachedTableName q .begun))
  | .deleteQueue q => some (w.push (.deleteQueue q (.reading .begun)))
  | .advance i visit => w.act (MetaCache.advance visit) i
  | .abort i => w.act MetaCache.abort i
  | .tick d => some ⟨{ w.mem with now := w.mem.now + d }, w.calls⟩
  | .sweep => some ⟨{ w.mem with cache := w.mem.cache.sweep w.mem.now }, w.calls⟩

def Call.isReturned : Call → Bool
  | .getQueueMetadata _ (.returned _) => true
  | .cachedTableName _ (.returned _) => true
  | .deleteQueue _ (.returned _) => true
  | _ => false

/-- the queue whose row a call has read and is about to store -/
def Call.storing : Call → Option Queue
  | .getQueueMetadata q (.found _) => some q
  | .cachedTableName q (.missed (.found _)) => some q
  | .deleteQueue q (.reading (.found _)) => some q
  | _ => none

/-- `deleteQueue` has returned nil -/
def deleted (q : Queue) : Call := .deleteQueue q (.returned (.ok ()))

end PgQueue.MetaCache
