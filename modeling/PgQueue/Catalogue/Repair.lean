import PgQueue.Process.Runs
import Mathlib.Data.List.Nodup

/-!
# The repair of invalid indexes

`RepairIndexes` and `InitSchema` drop the invalid indexes that a query has found and create them again,
one by one, under the migration lock.

* `step`           passes of any number of processes, which may fail or crash at each statement;
* `repairs_keep`   **no pass drops a valid index; an index that was dropped and not created again stays
                   away, since the next query does not find it.**
-/

namespace PgQueue.IndexRepair
open Process List

/-- a row of the catalog, with `pg_get_indexdef` -/
structure Index where
  schema : String
  name : String
  indexdef : String
  valid : Bool
deriving DecidableEq, Repr

def Index.key (x : Index) : String × String := (x.schema, x.name)

def findInvalidIndexes (schema : String) (indexes : List Index) : List Index :=
  indexes.filter fun x => !x.valid && x.schema = schema && "idx_pgqueue_".toList.isPrefixOf x.name.toList

/-- `repairInvalidIndexes` after its query: the rows to come, the index that was dropped and is to be
created again, and the result so far -/
structure Pass where
  todo : List Index
  dropped : Option Index
  repaired : List String
  failed : List String

structure World where
  indexes : List Index
  /-- the pass that has the lock; the others have not done anything -/
  holder : Option Pass

inductive Act
  /-- the rows come in any order -/
  | starts (schema : String) (found : List Index)
  | drop (ok : Bool)
  | create (ok : Bool)
  /-- the pass returns, or its session ends -/
  | release
  /-- a `CREATE INDEX IF NOT EXISTS` of somebody else -/
  | other (x : Index)

def step (w : World) : Act → Option World
  | .starts schema found =>
    if w.holder.isNone ∧ found.Perm (findInvalidIndexes schema w.indexes) then
      some { w with holder := some ⟨found, none, [], []⟩ }
    else none
  | .drop ok =>
    match w.holder with
    | some ⟨x :: todo, none, repaired, failed⟩ =>
      if ok then some ⟨w.indexes.filter (·.key ≠ x.key), some ⟨todo, some x, repaired, failed⟩⟩
      else some { w with holder := some ⟨todo, none, repaired, failed ++ [x.name]⟩ }
    | _ => none
  | .create ok =>
    match w.holder with
    | some ⟨todo, some x, repaired, failed⟩ =>
      if ok then
        if ∃ y ∈ w.indexes, y.key = x.key then none
        else some ⟨w.indexes ++ [{ x with valid := true }],
          some ⟨todo, none, repaired ++ [x.name], failed⟩⟩
      else some { w with holder := some ⟨todo, none, repaired, failed ++ [x.name]⟩ }
    | _ => none
  | .release => if w.holder.isSome then some { w with holder := none } else none
  | .other x =>
    if ∃ y ∈ w.indexes, y.key = x.key then some w
    else some { w with indexes := w.indexes ++ [{ x with valid := true }] }

/-- what a pass has in hand is there, and is invalid -/
structure Sound (w : World) : Prop where
  keys : (w.indexes.map Index.key).Nodup
  distinct : ∀ p ∈ w.holder, (p.todo.map Index.key).Nodup
  todo : ∀ p ∈ w.holder, ∀ x ∈ p.todo, x ∈ w.indexes ∧ x.valid = false

/-- there is no such index, and the pass is not about to create it -/
def Gone (k : String × String) (w : World) : Prop :=
  k ∉ w.indexes.map Index.key ∧ ∀ p ∈ w.holder, ∀ x ∈ p.dropped, x.key ≠ k

structure Keeps (a : Act) (w w' : World) : Prop where
  sound : Sound w'
  valid : ∀ x ∈ w.indexes, x.valid = true → x ∈ w'.indexes
  gone : ∀ k, (∀ x, a = .other x → x.key ≠ k) → Gone k w → Gone k w'

section
variable {w w' : World} {a : Act} {p p' : Pass} {x : Index}

theorem Keeps.trans {v : World} (h : Keeps a w v) (h' : Keeps a v w') : Keeps a w w' where
  sound := h'.sound
  valid x hx hv := h'.valid x (h.valid x hx hv) hv
  gone k ha hk := h'.gone k ha (h.gone k ha hk)

theorem Keeps.add (h : Sound w) (hx : x.key ∉ w.indexes.map Index.key)
    (hg : ∀ k, (∀ x, a = .other x → x.key ≠ k) → Gone k w → x.key ≠ k) :
    Keeps a w ⟨w.indexes ++ [{ x with valid := true }], w.holder⟩ where
  sound.keys := by
    rw [map_append]
    exact nodup_append.mpr ⟨h.keys, nodup_singleton _, fun k hk _ hk' he =>
      hx (by rw [mem_singleton.mp hk'] at he; exact he ▸ hk)⟩
  sound.distinct := h.distinct
  sound.todo p hp y hy := ⟨mem_append_left _ (h.todo p hp y hy).1, (h.todo p hp y hy).2⟩
  valid y hy _ := mem_append_left _ hy
  gone k ha hk := by
    refine ⟨?_, hk.2⟩
    rw [map_append, mem_append, not_or]
    exact ⟨hk.1, fun h => hg k ha hk (mem_singleton.mp h).symm⟩

/-- the pass goes on with fewer rows -/
theorem Keeps.hold (h : Sound w) (hp : w.holder = some p) (hsub : p'.todo.Sublist p.todo)
    (hd : p'.dropped = none) : Keeps a w { w with holder := some p' } where
  sound.keys := h.keys
  sound.distinct := by
    rintro _ ⟨⟩
    exact (hsub.map _).nodup (h.distinct p hp)
  sound.todo := by
    rintro _ ⟨⟩ x hx
    exact h.todo p hp x (hsub.subset hx)
  valid y hy _ := hy
  gone k _ hk := ⟨hk.1, by rintro _ ⟨⟩; simp [hd]⟩

theorem Keeps.drop {todo : List Index} (h : Sound w) (hp : w.holder = some p) (ht : p.todo = x :: todo)
    (hp' : p'.todo = todo) (hd : p'.dropped = some x) :
    Keeps a w ⟨w.indexes.filter (·.key ≠ x.key), some p'⟩ := by
  have hnd := nodup_cons.mp (ht ▸ h.distinct p hp : ((x :: todo).map Index.key).Nodup)
  have hmem := ht ▸ h.todo p hp
  have hx := hmem x mem_cons_self
  refine ⟨⟨(filter_sublist.map _).nodup h.keys, ?_, ?_⟩, fun y hy hv => ?_, fun k _ hk => ?_⟩
  · rintro _ ⟨⟩
    exact hp' ▸ hnd.2
  · rintro _ ⟨⟩ y hy
    rw [hp'] at hy
    have hne : y.key ≠ x.key := fun he => hnd.1 (he ▸ mem_map_of_mem hy)
    have hy := hmem y (mem_cons_of_mem _ hy)
    exact ⟨mem_filter.mpr ⟨hy.1, decide_eq_true hne⟩, hy.2⟩
  · -- another row than `x`, which is not valid
    refine mem_filter.mpr ⟨hy, decide_eq_true fun he => ?_⟩
    rw [inj_on_of_nodup_map h.keys hy hx.1 he, hx.2] at hv
    cases hv
  · refine ⟨fun hk' => hk.1 ((filter_sublist.map _).subset hk'), ?_⟩
    rintro _ ⟨⟩ y hy
    cases hd.symm.trans hy
    exact fun he => hk.1 (he ▸ mem_map_of_mem hx.1)

theorem Keeps.of_step (h : Sound w) (hs : step w a = some w') : Keeps a w w' := by
  cases a with
  | starts schema found =>
    obtain ⟨⟨-, hperm⟩, hs⟩ := Option.ite_none_right_eq_some.mp hs
    cases hs
    refine ⟨⟨h.keys, ?_, ?_⟩, fun x hx _ => hx, fun k _ hk => ⟨hk.1, by rintro _ ⟨⟩ x ⟨⟩⟩⟩
    · rintro _ ⟨⟩
      exact (hperm.map _).nodup_iff.mpr ((filter_sublist.map _).nodup h.keys)
    · rintro _ ⟨⟩ x hx
      have hx := mem_filter.mp (hperm.subset hx)
      simp only [Bool.and_eq_true, Bool.not_eq_true'] at hx
      exact ⟨hx.1, hx.2.1.1⟩
  | drop ok =>
    rw [step] at hs
    split at hs
    next hp =>
      split at hs
      all_goals cases hs
      · exact .drop h hp rfl rfl rfl
      · exact .hold h hp (sublist_cons_self _ _) rfl
    next => cases hs
  | create ok =>
    rw [step] at hs
    split at hs
    next hp =>
      split at hs
      · obtain ⟨hx, hs⟩ := Option.ite_none_left_eq_some.mp hs
        cases hs
        have hadd := Keeps.add (a := .create ok) h (mt mem_map.mp hx) fun k _ hk => hk.2 _ hp _ rfl
        exact hadd.trans (.hold hadd.sound hp (Sublist.refl _) rfl)
      · cases hs
        exact .hold h hp (Sublist.refl _) rfl
    next => cases hs
  | release =>
    obtain ⟨-, hs⟩ := Option.ite_none_right_eq_some.mp hs
    cases hs
    exact ⟨⟨h.keys, nofun, nofun⟩, fun x hx _ => hx, fun k _ hk => ⟨hk.1, nofun⟩⟩
  | other x =>
    rw [step] at hs
    split at hs
    all_goals cases hs
    · exact ⟨h, fun y hy _ => hy, fun k _ hk => hk⟩
    · exact .add h (mt mem_map.mp ‹_›) fun k ha _ => ha x rfl

theorem repairs_keep {w₀ : World} (hkeys : (w₀.indexes.map Index.key).Nodup) (hidle : w₀.holder = none)
    (hrun : Runs step (fun _ _ => True) w₀ w) :
    (∀ w', Runs step (fun _ _ => True) w w' → ∀ x ∈ w.indexes, x.valid = true → x ∈ w'.indexes) ∧
    ∀ k w', Gone k w → Runs step (fun _ a => ∀ x, a = .other x → x.key ≠ k) w w' → Gone k w' := by
  have hw : Sound w := hrun.invariant Sound ⟨hkeys, by simp [hidle], by simp [hidle]⟩
    fun _ _ _ h _ hs => (Keeps.of_step h hs).sound
  refine ⟨fun w' hrun' x hx hv => ?_, fun k w' hg hrun' => ?_⟩
  · exact (hrun'.invariant (fun v => Sound v ∧ x ∈ v.indexes) ⟨hw, hx⟩ fun _ _ _ h _ hs =>
      ⟨(Keeps.of_step h.1 hs).sound, (Keeps.of_step h.1 hs).valid x h.2 hv⟩).2
  · exact (hrun'.invariant (fun v => Sound v ∧ Gone k v) ⟨hw, hg⟩ fun _ _ _ h ha hs =>
      ⟨(Keeps.of_step h.1 hs).sound, (Keeps.of_step h.1 hs).gone k ha h.2⟩).2

def broken : Index := ⟨"public", "idx_pgqueue_a", "CREATE INDEX", false⟩

/-- its `CREATE` fails: a failure that is reported once, and then no pass finds it -/
theorem repairs_keep_failed : ∃ w, Runs step (fun _ _ => True) ⟨[broken], none⟩ w ∧
    ∀ w', Runs step (fun _ a => ∀ x, a = .other x → x.key ≠ broken.key) w w' → Gone broken.key w' := by
  have h : Runs step (fun _ _ => True) ⟨[broken], none⟩ _ :=
    .of_follow [.starts "public" [broken], .drop true, .create false, .release] rfl
  exact ⟨_, h, fun w' => (repairs_keep (by decide) rfl h).2 _ w' ⟨by decide, nofun⟩⟩

end

end PgQueue.IndexRepair
