import PgQueue.Cache.History
import PgQueue.Cache.Stale

/-!
# The metadata cache over whole histories

Every operation of the cache runs under its mutex, so what the callers of a process do to it is a list of
operations, and the clock they look at does not go back.

* `MetadataCache.run`       the cache of a new process after a list of operations;
* `metadataCache_history`   **it holds 4096 entries at most; a hit is what was stored last, a minute ago at
                            most; an entry that is not a minute old is invalidated, or evicted as one of the
                            oldest of 4096 that are all alive;**
* `Works`                   what a step of a process does to the cache, as operations;
* `cache_of_process`        so this holds of the cache in every interleaving of the calls of a process.
-/

namespace PgQueue.MetaCache
open Relational Process Cache Catalogue List

/-- an operation on a key of the cache, as `key` makes it -/
abbrev CacheOp := Op String String

def newMetadataCache : MetadataCache := Expiring.empty

def MetadataCache.run (ops : List CacheOp) : MetadataCache :=
  Expiring.run metadataCacheTTL metadataCacheMaxEntries newMetadataCache ops

theorem length_run (ops : List CacheOp) :
    (MetadataCache.run ops).entries.length ≤ metadataCacheMaxEntries :=
  Expiring.length_run_le (by decide) (Nat.zero_le _)

/-- **The cache over a history.**  The operations are any, and the clock does not go back.  There are 4096
entries at most.  A `get` returns what the last `set` of its key stored, at most the TTL ago, and the key was
not invalidated since.  An entry within its TTL disappears by an `invalidate`, or by the `set` of a new key
that finds 4096 entries and none of them expired, and then none of them was stored before it. -/
theorem metadataCache_history (ops : List CacheOp) (hclock : Clocked ops) :
    (MetadataCache.run ops).entries.length ≤ 4096 ∧
    (∀ pre now k post tableName, ops = pre ++ .get now k :: post →
      (Expiring.get (MetadataCache.run pre) metadataCacheTTL now k).1 = some tableName →
      ∃ storedAt, MostRecent pre k tableName storedAt ∧ storedAt ≤ now ∧
        now - storedAt ≤ metadataCacheTTL) ∧
    ∀ pre op post, ops = pre ++ op :: post → ∀ e ∈ (MetadataCache.run pre).entries,
      (∃ now ∈ op.times, now - e.storedAt ≤ metadataCacheTTL) →
      (MetadataCache.run (pre ++ [op])).lookup e.key = none →
      (∃ now, op = .invalidate now e.key) ∨
        ∃ evictAt visits now k tableName, op = .set evictAt visits now k tableName ∧
          (MetadataCache.run pre).lookup k = none ∧ (MetadataCache.run pre).entries.length = 4096 ∧
          (∀ x ∈ (MetadataCache.run pre).entries, evictAt - x.storedAt ≤ metadataCacheTTL) ∧
          ∀ x ∈ (MetadataCache.run pre).entries, e.storedAt ≤ x.storedAt := by
  refine ⟨length_run ops, ?_, ?_⟩
  · rintro pre now k post tableName rfl hget
    obtain ⟨e, he, rfl, rfl, hlive⟩ := Expiring.get_eq_some hget
    have hrecent := Expiring.mostRecent_of_mem he
    have hclock : Clocked (pre ++ [.get now e.key]) := by
      rw [append_cons] at hclock
      exact hclock.left
    exact ⟨e.storedAt, hrecent, hrecent.le hclock, Expiring.expired_eq_false.mp hlive⟩
  · rintro pre op post rfl e he ⟨now, hnow, hlive⟩ hgone
    have hgone : ((MetadataCache.run pre).apply metadataCacheTTL metadataCacheMaxEntries op).lookup e.key =
        none := by
      rw [← hgone]
      unfold MetadataCache.run
      rw [Expiring.run_concat]
    rcases Expiring.fate_of_lookup_eq_none (length_run pre) hclock.right.times_head he hnow hlive hgone
      with hinv | hev
    · exact Or.inl hinv
    · cases op with
      | set evictAt visits t k tableName =>
        obtain ⟨hnew, hfull, hall, hfirst⟩ := hev
        exact Or.inr ⟨evictAt, visits, t, k, tableName, rfl, hnew, hfull,
          fun x hx => Expiring.expired_eq_false.mp (hall x hx), hfirst⟩
      | get | invalidate | sweep => exact absurd hev id

/-- a table name is stored, and asked for as long as it is trusted and a microsecond longer -/
def aMinute : List CacheOp :=
  [.set 0 ⟨id, Perm.refl⟩ 0 "channel/orders" "orders", .get 60000000 "channel/orders",
    .get 60000001 "channel/orders"]

theorem metadataCache_history_aMinute :
    Clocked aMinute ∧
    (Expiring.get (MetadataCache.run (aMinute.take 1)) metadataCacheTTL 60000000 "channel/orders").1 =
      some "orders" ∧
    (Expiring.get (MetadataCache.run (aMinute.take 2)) metadataCacheTTL 60000001 "channel/orders").1 =
      none ∧
    ∃ storedAt, MostRecent (aMinute.take 1) "channel/orders" "orders" storedAt ∧
      60000000 - storedAt ≤ metadataCacheTTL := by
  have hclock : Clocked aMinute := by
    unfold Clocked
    decide
  have hhit : (Expiring.get (MetadataCache.run (aMinute.take 1)) metadataCacheTTL 60000000
      "channel/orders").1 = some "orders" := by
    decide
  obtain ⟨s, hs, -, hlive⟩ := (metadataCache_history aMinute hclock).2.1 _ _ _ _ _ rfl hhit
  exact ⟨hclock, hhit, by decide, s, hs, hlive⟩

/-! ## the calls of a process -/

/-- what a step does to the cache: operations, all of them now -/
def Works (mem mem' : Memory) : Prop :=
  ∃ ops : List CacheOp,
    mem'.cache = Expiring.run metadataCacheTTL metadataCacheMaxEntries mem.cache ops ∧
      ∀ op ∈ ops, ∀ t ∈ op.times, t = mem.now

def visiting (visit : List CachedQueueMeta) : Visits String String where
  order l := if visit.isPerm l then visit else l
  perm l := by
    split
    · rename_i h
      exact isPerm_iff.mp h
    · exact Perm.refl l

section
variable {q : Queue} {mem mem' : Memory} {c c' : Call} {visit : List CachedQueueMeta} {w w' : World}

theorem Works.refl (mem : Memory) : Works mem mem := ⟨[], rfl, fun _ hop => absurd hop not_mem_nil⟩

theorem works_of_op (op : CacheOp) (hop : ∀ t ∈ op.times, t = mem.now)
    (h : mem'.cache = mem.cache.apply metadataCacheTTL metadataCacheMaxEntries op) : Works mem mem' :=
  ⟨[op], h, fun _ ho => mem_singleton.mp ho ▸ hop⟩

theorem works_of_getQueueMetadata {pc pc' : LookupAt}
    (h : getQueueMetadata visit q mem pc = some (mem', pc')) : Works mem mem' ∧ mem'.now = mem.now := by
  cases pc with
  | begun =>
    rw [getQueueMetadata] at h
    split at h
    · cases h
      exact ⟨.refl _, rfl⟩
    · cases h
      exact ⟨.refl _, rfl⟩
  | found m =>
    rw [getQueueMetadata] at h
    split at h
    · rename_i hperm
      cases h
      refine ⟨works_of_op (.set mem.now (visiting visit) mem.now (key q) m.tableName) (by simp [Op.times]) ?_,
        rfl⟩
      have horder : (visiting visit).order mem.cache.entries = visit := if_pos hperm
      show _ = Expiring.set _ _ _ _ ((visiting visit).order mem.cache.entries) _ _ _
      rw [horder]
      rfl
    · cases h
  | returned r => cases h

theorem works_of_cachedTableName {pc pc' : CachedAt}
    (h : cachedTableName visit q mem pc = some (mem', pc')) : Works mem mem' ∧ mem'.now = mem.now := by
  cases pc with
  | begun =>
    have hget : Works mem { mem with cache := (mem.cache.get mem.now q).2 } :=
      works_of_op (.get mem.now (key q)) (fun t ht => mem_singleton.mp ht) rfl
    rw [cachedTableName] at h
    split at h
    · rename_i mc heq
      cases h
      rw [heq] at hget
      exact ⟨hget, rfl⟩
    · rename_i mc heq
      cases h
      rw [heq] at hget
      exact ⟨hget, rfl⟩
  | missed pc =>
    obtain ⟨⟨m, pc''⟩, hl, he⟩ := Option.map_eq_some_iff.mp h
    cases he
    exact works_of_getQueueMetadata hl
  | returned r => cases h

theorem works_of_deleteQueue {pc pc' : DeleteAt} (h : deleteQueue visit q mem pc = some (mem', pc')) :
    Works mem mem' ∧ mem'.now = mem.now := by
  have hinv : Works mem { mem with cache := mem.cache.invalidate q } :=
    works_of_op (.invalidate mem.now (key q)) (fun t ht => mem_singleton.mp ht) rfl
  cases pc with
  | reading pc =>
    obtain ⟨⟨m, pc''⟩, hl, he⟩ := Option.map_eq_some_iff.mp h
    cases he
    exact works_of_getQueueMetadata hl
  | begun =>
    cases h
    exact ⟨.refl _, rfl⟩
  | executed | committed =>
    cases h
    exact ⟨hinv, rfl⟩
  | invalidated =>
    cases h
    exact ⟨.refl mem, rfl⟩
  | returned r => cases h

theorem works_of_advance {i : Nat} (h : advance visit i mem c = some (mem', c')) :
    Works mem mem' ∧ mem'.now = mem.now := by
  cases c with
  | getQueueMetadata q pc =>
    obtain ⟨⟨m, pc'⟩, hl, he⟩ := Option.map_eq_some_iff.mp h
    cases he
    exact works_of_getQueueMetadata hl
  | cachedTableName q pc =>
    obtain ⟨⟨m, pc'⟩, hl, he⟩ := Option.map_eq_some_iff.mp h
    cases he
    exact works_of_cachedTableName hl
  | deleteQueue q pc =>
    obtain ⟨⟨m, pc'⟩, hl, he⟩ := Option.map_eq_some_iff.mp h
    cases he
    exact works_of_deleteQueue hl

theorem abort_mem {i : Nat} (h : abort i mem c = some (mem', c')) : mem' = mem := by
  unfold abort at h
  split at h
  all_goals cases h
  all_goals rfl

theorem works_of_step {e : Event} (h : step w e = some w') :
    Works w.mem w'.mem ∧ w.mem.now ≤ w'.mem.now := by
  cases e with
  | getQueueMetadata | cachedTableName | deleteQueue =>
    cases h
    exact ⟨.refl _, Int.le_refl _⟩
  | advance i visit =>
    obtain ⟨c, m, c', hc, hf, rfl⟩ := Calls.act_eq_some.mp h
    obtain ⟨hw, hnow⟩ := works_of_advance hf
    exact ⟨hw, Int.le_of_eq hnow.symm⟩
  | abort i =>
    obtain ⟨c, m, c', hc, hf, rfl⟩ := Calls.act_eq_some.mp h
    obtain rfl := abort_mem hf
    exact ⟨.refl _, Int.le_refl _⟩
  | tick d =>
    cases h
    exact ⟨.refl w.mem, Int.le_add_of_nonneg_right (Int.natCast_nonneg d)⟩
  | sweep =>
    cases h
    exact ⟨works_of_op (.sweep w.mem.now) (fun t ht => mem_singleton.mp ht) rfl, Int.le_refl _⟩

end

/-- **The cache of a process is that of a history.**  Any number of lookups and deletions are interleaved,
from a new cache; the clock of the history has not passed the clock of the process. -/
theorem exists_history {mem : Memory} (hnew : mem.cache = newMetadataCache) {ok : World → Event → Prop}
    {w : World} (hrun : Runs step ok (World.start mem) w) :
    ∃ ops, Clocked ops ∧ (∀ op ∈ ops, ∀ t ∈ op.times, t ≤ w.mem.now) ∧
      w.mem.cache = MetadataCache.run ops := by
  refine hrun.invariant (fun w => ∃ ops, Clocked ops ∧ (∀ op ∈ ops, ∀ t ∈ op.times, t ≤ w.mem.now) ∧
    w.mem.cache = MetadataCache.run ops) ?_ ?_
  · exact ⟨[], Pairwise.nil, fun _ hop => absurd hop not_mem_nil, hnew⟩
  · rintro a e b ⟨ops, hclock, hle, hcache⟩ - hs
    obtain ⟨⟨ops', hrun', hnow⟩, hlater⟩ := works_of_step hs
    refine ⟨ops ++ ops', hclock.append hle hnow, ?_, ?_⟩
    · intro op hop t ht
      rcases mem_append.mp hop with hop | hop
      · exact Int.le_trans (hle op hop t ht) hlater
      · rw [hnow op hop t ht]
        exact hlater
    · rw [hrun', hcache]
      exact (Expiring.run_append ops ops').symm

theorem cache_of_process {mem : Memory} (hnew : mem.cache = newMetadataCache) {ok : World → Event → Prop}
    {w : World} (hrun : Runs step ok (World.start mem) w) :
    w.mem.cache.entries.length ≤ metadataCacheMaxEntries ∧ ∃ ops, Clocked ops ∧
      (∀ op ∈ ops, ∀ t ∈ op.times, t ≤ w.mem.now) ∧ w.mem.cache = MetadataCache.run ops := by
  obtain ⟨ops, hclock, hle, hcache⟩ := exists_history hnew hrun
  exact ⟨hcache ▸ length_run ops, ops, hclock, hle, hcache⟩

theorem cache_of_process_orders : ∃ w, Runs step (fun _ _ => True) (World.start .orders) w ∧
    w.mem.cache.entries.length = 1 ∧ ∃ ops, w.mem.cache = MetadataCache.run ops := by
  have h : Runs step (fun _ _ => True) (World.start .orders) _ :=
    .of_follow [.getQueueMetadata orders.queue, .advance 0 [], .advance 0 []] rfl
  obtain ⟨-, ops, -, -, hops⟩ := cache_of_process rfl h
  exact ⟨_, h, rfl, ops, hops⟩

end PgQueue.MetaCache
