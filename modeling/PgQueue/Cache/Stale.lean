import PgQueue.Cache.Model
import PgQueue.Process.Runs

/-!
# Entries of deleted queues

`deleteQueue` invalidates once more after its commit, for the lookups that read the row before it and
stored it since.  A lookup that read the row before the commit may also store it after that, and then
nothing takes the entry out before it expires.

* `stale_entry`       **so the cache can keep a deleted queue, with every call returned;**
* `StoresInTime`      no lookup stores a row once a deletion of its queue has returned;
* `Moves`             what one step of a call does;
* `no_stale_entry`    **then a deleted queue has no entry, and is not found.**
-/

namespace PgQueue.MetaCache
open Relational Process Cache Catalogue List

/-! ## what is asked of the cache -/

/-- once a deletion of the queue has returned, and every call, there is no entry of it -/
def NoStaleEntry (q : Queue) (w : World) : Prop :=
  deleted q ∈ w.calls → (∀ c ∈ w.calls, c.isReturned = true) → w.mem.cache.lookup (key q) = none

instance (q : Queue) (w : World) : Decidable (NoStaleEntry q w) :=
  inferInstanceAs (Decidable (_ → _ → _))

/-- a cached lookup by itself, as the `n`-th call -/
def alone (q : Queue) (n : Nat) : List Event := [.cachedTableName q, .advance n [], .advance n []]

def orders : Metadata := ⟨.channel, "orders", "orders"⟩

def Memory.orders : Memory := ⟨0, ⟨⟨[MetaCache.orders], by decide⟩, by decide⟩, Expiring.empty⟩

/-- the lookup reads the row, then the deletion runs to its end, then the lookup stores the row -/
def lateStore : List Event :=
  [.getQueueMetadata orders.queue, .deleteQueue orders.queue, .advance 0 [], .advance 1 [], .advance 1 [],
    .advance 1 [], .advance 1 [], .advance 1 [], .advance 1 [], .advance 0 []]

theorem stale_entry :
    ∃ w, follow step (World.start .orders) lateStore = some w ∧ w.mem.metadata.rows = [] ∧
      ¬NoStaleEntry orders.queue w ∧
      ((follow step w [.cachedTableName orders.queue, .advance 2 []]).bind fun w' => w'.calls[2]?) =
        some (.cachedTableName orders.queue (.returned (.ok "orders"))) := by
  refine ⟨(follow step (World.start .orders) lateStore).get (by decide), (Option.some_get _).symm, ?_⟩
  exact ⟨by decide, by decide, by decide⟩

/-! ## one step of a call -/

section
variable {q q' : Queue} {mem mem' : Memory} {c c' : Call} {visit : List CachedQueueMeta}

theorem key_injective (h : key q = key q') : q = q' := by
  obtain ⟨t, n⟩ := q
  obtain ⟨t', n'⟩ := q'
  have hlist := congrArg String.toList h
  unfold key at hlist
  simp only [String.toList_append] at hlist
  cases t with
  | channel =>
    cases t' with
    | channel => rw [String.toList_inj.mp (append_cancel_left hlist)]
    | pubsub => exact absurd (congrArg List.head? hlist) (by simp [typeText])
  | pubsub =>
    cases t' with
    | channel => exact absurd (congrArg List.head? hlist) (by simp [typeText])
    | pubsub => rw [String.toList_inj.mp (append_cancel_left hlist)]

def Call.gone (q : Queue) (c : Call) : Prop := c = .deleteQueue q .committed ∨ c = deleted q

inductive Moves (mem : Memory) (c : Call) (mem' : Memory) (c' : Call) : Prop
  | quiet (hrows : mem'.metadata = mem.metadata) (hcache : mem'.cache.entries ⊆ mem.cache.entries)
      (hc : ∀ q, ¬c'.gone q)
  | store {q : Queue} (hrows : mem'.metadata = mem.metadata) (hstores : c.storing = some q)
      (hcache : ∀ e ∈ mem'.cache.entries, e ∈ mem.cache.entries ∨ e.key = key q) (hc : ∀ q, ¬c'.gone q)
  | commit {q : Queue} (hrows : mem'.metadata = mem.metadata.delete q.1 q.2)
      (hcache : mem'.cache = mem.cache) (hc : c' = .deleteQueue q .committed)
  | purge {q : Queue} (hrows : mem'.metadata = mem.metadata) (hwas : c = .deleteQueue q .committed)
      (hcache : mem'.cache = mem.cache.invalidate q) (hc : c' = deleted q)

theorem getQueueMetadata_cases {pc pc' : LookupAt}
    (h : getQueueMetadata visit q mem pc = some (mem', pc')) :
    mem' = mem ∧ pc = .begun ∨
      (∃ m, pc = .found m) ∧ mem'.metadata = mem.metadata ∧
        ∀ e ∈ mem'.cache.entries, e ∈ mem.cache.entries ∨ e.key = key q := by
  cases pc with
  | begun =>
    rw [getQueueMetadata] at h
    split at h
    · cases h
      exact Or.inl ⟨rfl, rfl⟩
    · cases h
      exact Or.inl ⟨rfl, rfl⟩
  | found m =>
    rw [getQueueMetadata] at h
    split at h
    · cases h
      exact Or.inr ⟨⟨m, rfl⟩, rfl, fun e he => (Expiring.mem_set he).imp And.left (congrArg Entry.key)⟩
    · cases h
  | returned r => cases h

theorem DeleteAt.after_ne (pc : LookupAt) : DeleteAt.after pc ≠ .committed ∧
    DeleteAt.after pc ≠ .returned (.ok ()) := by
  unfold DeleteAt.after
  split <;> exact ⟨DeleteAt.noConfusion, by simp⟩

theorem moves_of_lookup {pc pc' : LookupAt} (h : getQueueMetadata visit q mem pc = some (mem', pc'))
    (hstores : ∀ m, pc = .found m → c.storing = some q) (hc : ∀ q, ¬c'.gone q) : Moves mem c mem' c' := by
  rcases getQueueMetadata_cases h with ⟨rfl, _⟩ | ⟨⟨m, hm⟩, hrows, hcache⟩
  · exact .quiet rfl (List.Subset.refl _) hc
  · exact .store hrows (hstores m hm) hcache hc

theorem moves_of_cachedTableName {pc pc' : CachedAt}
    (h : cachedTableName visit q mem pc = some (mem', pc')) :
    Moves mem (.cachedTableName q pc) mem' (.cachedTableName q pc') := by
  have hc : ∀ q', ¬(Call.cachedTableName q pc').gone q' := by
    rintro q' (h | h) <;> cases h
  have hget : (mem.cache.get mem.now q).2.entries ⊆ mem.cache.entries := Expiring.entries_get
  cases pc with
  | begun =>
    rw [cachedTableName] at h
    split at h
    · rename_i mc heq
      cases h
      rw [heq] at hget
      exact .quiet rfl hget hc
    · rename_i mc heq
      cases h
      rw [heq] at hget
      exact .quiet rfl hget hc
  | missed pc =>
    obtain ⟨⟨m, pc''⟩, hl, he⟩ := Option.map_eq_some_iff.mp h
    cases he
    exact moves_of_lookup hl (fun m hm => by rw [hm]; rfl) hc
  | returned r => cases h

theorem moves_of_deleteQueue {pc pc' : DeleteAt} (h : deleteQueue visit q mem pc = some (mem', pc')) :
    Moves mem (.deleteQueue q pc) mem' (.deleteQueue q pc') := by
  cases pc with
  | reading pc =>
    obtain ⟨⟨m, pc''⟩, hl, he⟩ := Option.map_eq_some_iff.mp h
    cases he
    refine moves_of_lookup hl (fun m hm => by rw [hm]; rfl) ?_
    rintro q' (h | h)
    · exact (DeleteAt.after_ne pc'').1 (Call.deleteQueue.inj h).2
    · exact (DeleteAt.after_ne pc'').2 (Call.deleteQueue.inj h).2
  | begun =>
    cases h
    exact .quiet rfl (List.Subset.refl _) (by rintro q' (h | h) <;> cases h)
  | executed =>
    cases h
    exact .quiet rfl (Expiring.entries_drop _) (by rintro q' (h | h) <;> cases h)
  | invalidated =>
    cases h
    exact .commit rfl rfl rfl
  | committed =>
    cases h
    exact .purge rfl rfl rfl rfl
  | returned r => cases h

theorem moves_of_advance {i : Nat} (h : advance visit i mem c = some (mem', c')) : Moves mem c mem' c' := by
  cases c with
  | getQueueMetadata q pc =>
    obtain ⟨⟨m, pc'⟩, hl, he⟩ := Option.map_eq_some_iff.mp h
    cases he
    refine moves_of_lookup hl (fun m hm => by rw [hm]; rfl) ?_
    rintro q' (h | h) <;> cases h
  | cachedTableName q pc =>
    obtain ⟨⟨m, pc'⟩, hl, he⟩ := Option.map_eq_some_iff.mp h
    cases he
    exact moves_of_cachedTableName hl
  | deleteQueue q pc =>
    obtain ⟨⟨m, pc'⟩, hl, he⟩ := Option.map_eq_some_iff.mp h
    cases he
    exact moves_of_deleteQueue hl

theorem moves_of_abort {i : Nat} (h : abort i mem c = some (mem', c')) : Moves mem c mem' c' := by
  unfold abort at h
  split at h
  all_goals cases h
  all_goals exact .quiet rfl (List.Subset.refl _) (by rintro q' (h | h) <;> cases h)

theorem storing_of_abort {i : Nat} (h : abort i mem c = some (mem', c')) : c.storing = none := by
  unfold abort at h
  split at h
  case h_7 => cases h
  all_goals rfl

end

/-! ## runs -/

/-- no call stores a row whose queue's deletion has returned -/
def StoresInTime (w : World) : Event → Prop
  | .advance i _ => ∀ q ∈ w.calls[i]?.bind Call.storing, deleted q ∉ w.calls
  | _ => True

instance (w : World) (e : Event) : Decidable (StoresInTime w e) := by
  unfold StoresInTime
  split <;> infer_instance

/-- a queue whose deletion is behind its commit has no row, and none in the cache once it has returned -/
structure Inv (q : Queue) (w : World) : Prop where
  rows : (∃ c ∈ w.calls, c.gone q) → ∀ m ∈ w.mem.metadata.rows, m.queue ≠ q
  cache : deleted q ∈ w.calls → ∀ e ∈ w.mem.cache.entries, e.key ≠ key q

section
variable {q : Queue} {w w' : World}

theorem Inv.push {c : Call} (h : Inv q w) (hc : ¬c.gone q) : Inv q (w.push c) := by
  refine ⟨?_, fun hdel => ?_⟩
  · rintro ⟨d, hd, hgone⟩
    rcases mem_append.mp hd with hd | hd
    · exact h.rows ⟨d, hd, hgone⟩
    · cases mem_singleton.mp hd
      exact absurd hgone hc
  · rcases mem_append.mp hdel with hdel | hdel
    · exact h.cache hdel
    · exact absurd (Or.inr (mem_singleton.mp hdel).symm) hc

theorem Inv.shrink {mem : Memory} (h : Inv q w) (hrows : mem.metadata = w.mem.metadata)
    (hcache : mem.cache.entries ⊆ w.mem.cache.entries) : Inv q ⟨mem, w.calls⟩ := by
  refine ⟨fun hgone => ?_, fun hdel e he => h.cache hdel e (hcache he)⟩
  rw [hrows]
  exact h.rows hgone

theorem exists_gone_of_set {l : List Call} {i : Nat} {c' : Call} (h : ∃ d ∈ l.set i c', d.gone q) :
    (∃ d ∈ l, d.gone q) ∨ c'.gone q := by
  obtain ⟨d, hd, hgone⟩ := h
  rcases mem_or_eq_of_mem_set hd with hd | rfl
  · exact Or.inl ⟨d, hd, hgone⟩
  · exact Or.inr hgone

theorem Inv.moves {i : Nat} {c c' : Call} {mem' : Memory} (h : Inv q w) (hc : w.calls[i]? = some c)
    (hm : Moves w.mem c mem' c') (hok : ∀ q ∈ c.storing, deleted q ∉ w.calls) :
    Inv q ⟨mem', w.calls.set i c'⟩ := by
  cases hm with
  | quiet hrows hcache hno =>
    refine ⟨fun hgone => ?_, fun hdel e he => ?_⟩
    · rw [hrows]
      exact h.rows ((exists_gone_of_set hgone).resolve_right (hno q))
    · have hold := (mem_or_eq_of_mem_set hdel).resolve_right fun he => hno q (Or.inr he.symm)
      exact h.cache hold e (hcache he)
  | @store q' hrows hstores hcache hno =>
    refine ⟨fun hgone => ?_, fun hdel e he => ?_⟩
    · rw [hrows]
      exact h.rows ((exists_gone_of_set hgone).resolve_right (hno q))
    · have hold := (mem_or_eq_of_mem_set hdel).resolve_right fun he => hno q (Or.inr he.symm)
      rcases hcache e he with he | he
      · exact h.cache hold e he
      · -- the row that is stored is another queue's
        intro hkey
        obtain rfl := key_injective (he.symm.trans hkey)
        exact hok q' hstores hold
  | @commit q' hrows hcache hc' =>
    refine ⟨fun hgone m hm => ?_, fun hdel => ?_⟩
    · have hm : m ∈ (w.mem.metadata.delete q'.1 q'.2).rows := hrows ▸ hm
      obtain ⟨hm, hne⟩ := mem_filter.mp hm
      rcases exists_gone_of_set hgone with hgone | hgone
      · exact h.rows hgone m hm
      · rw [hc'] at hgone
        rcases hgone with he | he
        · cases he
          simpa using hne
        · cases he
    · have hold := (mem_or_eq_of_mem_set hdel).resolve_right fun he => by
        rw [hc'] at he
        cases he
      rw [hcache]
      exact h.cache hold
  | @purge q' hrows hwas hcache hc' =>
    have hmem := mem_of_getElem? hc
    refine ⟨fun hgone => ?_, fun hdel e he => ?_⟩
    · rw [hrows]
      rcases exists_gone_of_set hgone with hgone | hgone
      · exact h.rows hgone
      · rw [hc'] at hgone
        rcases hgone with he | he
        · cases he
        · cases he
          exact h.rows ⟨c, hmem, Or.inl hwas⟩
    · have he : e ∈ (w.mem.cache.invalidate q').entries := hcache ▸ he
      rcases mem_or_eq_of_mem_set hdel with hold | heq
      · exact h.cache hold e (Expiring.entries_drop _ he)
      · rw [hc'] at heq
        cases heq
        exact Expiring.key_ne_of_mem_invalidate he

theorem Inv.step {e : Event} (h : Inv q w) (hok : StoresInTime w e) (hs : step w e = some w') : Inv q w' := by
  cases e with
  | getQueueMetadata | cachedTableName | deleteQueue =>
    cases hs
    exact h.push (by rintro (h | h) <;> cases h)
  | advance i visit =>
    obtain ⟨c, m, c', hc, hf, rfl⟩ := Calls.act_eq_some.mp hs
    refine h.moves hc (moves_of_advance hf) fun q hq => hok q ?_
    rw [hc]
    exact hq
  | abort i =>
    obtain ⟨c, m, c', hc, hf, rfl⟩ := Calls.act_eq_some.mp hs
    refine h.moves hc (moves_of_abort hf) fun q hq => ?_
    rw [storing_of_abort hf] at hq
    cases hq
  | tick d =>
    cases hs
    exact h.shrink rfl (List.Subset.refl _)
  | sweep =>
    cases hs
    exact h.shrink rfl (Expiring.entries_drop _)

theorem alone_notFound (hrow : ∀ m ∈ w.mem.metadata.rows, m.queue ≠ q)
    (hentry : w.mem.cache.lookup (key q) = none) :
    ((follow MetaCache.step w (alone q w.calls.length)).bind fun w' => w'.calls[w.calls.length]?) =
      some (.cachedTableName q (.returned .notFound)) := by
  have hmiss : advance [] w.calls.length w.mem (.cachedTableName q .begun) =
      some (w.mem, .cachedTableName q (.missed .begun)) := by
    have hget : w.mem.cache.get w.mem.now q = (none, w.mem.cache) :=
      Expiring.get_of_lookup_eq_none hentry
    rw [advance, cachedTableName, hget]
    rfl
  have hnone : advance [] w.calls.length w.mem (.cachedTableName q (.missed .begun)) =
      some (w.mem, .cachedTableName q (.returned .notFound)) := by
    have hselect : w.mem.metadata.getQueueMetadata q.1 q.2 = none :=
      find?_eq_none.mpr fun m hm => by simpa using hrow m hm
    rw [advance, cachedTableName, getQueueMetadata, hselect]
    rfl
  have h₁ : MetaCache.step (w.push (.cachedTableName q .begun)) (.advance w.calls.length []) =
      some (w.push (.cachedTableName q (.missed .begun))) := Calls.act_push hmiss
  have h₂ : MetaCache.step (w.push (.cachedTableName q (.missed .begun))) (.advance w.calls.length []) =
      some (w.push (.cachedTableName q (.returned .notFound))) := Calls.act_push hnone
  have hrun : follow MetaCache.step w (alone q w.calls.length) =
      some (w.push (.cachedTableName q (.returned .notFound))) := by
    show (MetaCache.step (w.push (.cachedTableName q .begun)) (.advance w.calls.length [])).bind _ = _
    rw [h₁]
    show (MetaCache.step (w.push (.cachedTableName q (.missed .begun)))
      (.advance w.calls.length [])).bind _ = _
    rw [h₂]
    rfl
  rw [hrun]
  exact getElem?_concat_length

end

/-- **A deleted queue leaves no entry, if nobody stores it later.**  Any number of lookups and deletions
are interleaved, from any rows and any cache.  If no call stores a row once a deletion of its queue has
returned, then a queue whose deletion has returned has no entry, and a cached lookup does not find it. -/
theorem no_stale_entry (mem : Memory) (q : Queue) (w : World)
    (hrun : Runs step StoresInTime (World.start mem) w) (hdel : deleted q ∈ w.calls) :
    w.mem.cache.lookup (key q) = none ∧
      ((follow step w (alone q w.calls.length)).bind fun w' => w'.calls[w.calls.length]?) =
        some (.cachedTableName q (.returned .notFound)) := by
  have hinv : Inv q w := hrun.invariant (Inv q)
    ⟨fun ⟨c, hc, _⟩ => absurd hc not_mem_nil, fun h => absurd h not_mem_nil⟩
    fun _ _ _ h hok hs => h.step hok hs
  have hentry := Expiring.lookup_eq_none.mpr (hinv.cache hdel)
  exact ⟨hentry, alone_notFound (hinv.rows ⟨_, hdel, Or.inr rfl⟩) hentry⟩

/-- the lookup stores in time: after the commit, and before the deletion invalidates again -/
def promptStore : List Event :=
  [.getQueueMetadata orders.queue, .deleteQueue orders.queue, .advance 0 [], .advance 1 [], .advance 1 [],
    .advance 1 [], .advance 1 [], .advance 1 [], .advance 0 [], .advance 1 []]

theorem no_stale_entry_orders :
    ∃ w, follow (guarded step StoresInTime) (World.start .orders) promptStore = some w ∧
      deleted orders.queue ∈ w.calls ∧ w.mem.cache.lookup (key orders.queue) = none := by
  have hdel : deleted orders.queue ∈
      ((follow (guarded step StoresInTime) (World.start .orders) promptStore).get (by decide)).calls := by
    decide
  refine ⟨_, (Option.some_get _).symm, hdel, ?_⟩
  exact (no_stale_entry .orders orders.queue _
    (Runs.of_follow promptStore (Option.some_get _).symm) hdel).1

end PgQueue.MetaCache
