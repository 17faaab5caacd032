import Mathlib.Data.List.Infix
import PgQueue.Relational.Table

/-!
# One namespace for tables and indexes

The tables and the indexes of a database schema share one namespace.  A table that is created brings the
indexes of its constraints along, under names that the database chooses.

* `Schema`      the relations, one for each name;
* `Naming`      how the database names the index of a constraint;
* `Statement`   `CREATE TABLE IF NOT EXISTS`, which does nothing if any relation has the name, and
                `CREATE INDEX IF NOT EXISTS`, which fails if it is not on a table;
* `execAll_iff`   **a script that puts an index on each of its tables runs through if and only if none of
                its tables has the name of an index.**
-/

namespace Relational
open List

inductive RelationKind where
  | table
  | index
deriving DecidableEq, Repr

structure Relation where
  name : String
  kind : RelationKind
deriving DecidableEq, Repr

abbrev Schema := Table Relation String Relation.name

/-- an identifier has at most so many characters -/
def maxIdentifierLength : Nat := 63

/-- the default name of a primary key is taken if it is free; otherwise something is appended.  The name
of a unique key ends in the given suffix, unless it had to be cut to fit -/
structure Naming where
  pkey : List String → String → String
  pkey_default : ∀ taken T, T ++ "_pkey" ∉ taken → pkey taken T = T ++ "_pkey"
  pkey_fresh : ∀ taken T, pkey taken T ∉ taken
  pkey_extends : ∀ taken T, (T ++ "_pkey").toList <+: (pkey taken T).toList
  key : List String → String → String → String
  key_fresh : ∀ taken T suffix, key taken T suffix ∉ taken
  key_length : ∀ taken T suffix,
    min maxIdentifierLength (T.length + suffix.length) ≤ (key taken T suffix).length

def totalLength (taken : List String) : Nat := taken.foldr (fun t n => t.length + n) 0

/-- the name, or an extension of it that is longer than every name taken -/
def freshen (taken : List String) (name : String) : String :=
  if name ∈ taken then name ++ String.ofList (List.replicate (totalLength taken + 1) '1')
  else name

theorem length_le_totalLength {taken : List String} {n : String} (h : n ∈ taken) :
    n.length ≤ totalLength taken := by
  induction taken with
  | nil => cases h
  | cons t taken ih =>
    rcases mem_cons.mp h with rfl | h
    · exact Nat.le_add_right _ _
    · exact Nat.le_trans (ih h) (Nat.le_add_left _ _)

theorem freshen_fresh (taken : List String) (name : String) : freshen taken name ∉ taken := by
  unfold freshen
  split
  · intro h
    have hlen := length_le_totalLength h
    rw [String.length_append, String.length_ofList, length_replicate] at hlen
    omega
  · assumption

theorem freshen_extends (taken : List String) (name : String) :
    name.toList <+: (freshen taken name).toList := by
  unfold freshen
  split
  · rw [String.toList_append]
    exact prefix_append _ _
  · exact prefix_rfl

/-- nothing is cut, and a name that is taken is extended -/
def Naming.extending : Naming where
  pkey taken T := freshen taken (T ++ "_pkey")
  pkey_default taken T h := if_neg h
  pkey_fresh taken T := freshen_fresh taken _
  pkey_extends taken T := freshen_extends taken _
  key taken T suffix := freshen taken (T ++ suffix)
  key_fresh taken T suffix := freshen_fresh taken _
  key_length taken T suffix := by
    have h := (freshen_extends taken (T ++ suffix)).length_le
    rw [String.length_toList, String.length_toList, String.length_append] at h
    exact Nat.le_trans (Nat.min_le_right _ _) h

/-- `keys` are the suffixes for the unique keys of the table -/
inductive Statement where
  | createTable (name : String) (keys : List String)
  | createIndex (name on : String)
deriving DecidableEq, Repr

namespace Schema

abbrev names (R : Schema) : List String := R.rows.map Relation.name

def kindOf (R : Schema) (name : String) : Option RelationKind := (R.find? name).map Relation.kind

def addKeys (naming : Naming) (T : String) (keys : List String) (R : Schema) : Schema :=
  keys.foldl (fun R suffix => R.insertNew ⟨naming.key (names R) T suffix, .index⟩) R

def exec (naming : Naming) (R : Schema) : Statement → Option Schema
  | .createTable T keys =>
    match kindOf R T with
    | some _ => some R
    | none =>
      let R₁ : Schema := R.insertNew ⟨T, .table⟩
      let R₂ : Schema := R₁.insertNew ⟨naming.pkey (names R₁) T, .index⟩
      some (addKeys naming T keys R₂)
  | .createIndex name on =>
    match kindOf R on with
    | some .table => some (R.insertNew ⟨name, .index⟩)
    | _ => none

def execAll (naming : Naming) : Schema → List Statement → Option Schema
  | R, [] => some R
  | R, st :: sts => (exec naming R st).bind fun R' => execAll naming R' sts

end Schema

/-- the names of the indexes a statement may add -/
def Statement.MayIndex : Statement → String → Prop
  | .createTable T keys, n => (T ++ "_pkey").toList <+: n.toList ∨
      ∃ suffix ∈ keys, min maxIdentifierLength (T.length + suffix.length) ≤ n.length
  | .createIndex name _, n => n = name

def Statement.table? : Statement → Option String
  | .createTable T _ => some T
  | .createIndex _ _ => none

def tablesOf (sts : List Statement) : List String := sts.filterMap Statement.table?

/-- every index is on a table that was created before it -/
def Declared : List String → List Statement → Prop
  | _, [] => True
  | ts, .createTable T _ :: sts => Declared (T :: ts) sts
  | ts, .createIndex _ on :: sts => on ∈ ts ∧ Declared ts sts

section
open Schema
variable {naming : Naming} {R R' : Schema} {n : String} {k : RelationKind} {sts : List Statement}
  {st : Statement} {T : String} {r : Relation}

theorem kindOf_eq_some : kindOf R n = some k ↔ (⟨n, k⟩ : Relation) ∈ R.rows := by
  unfold kindOf
  rw [Option.map_eq_some_iff]
  constructor
  · rintro ⟨r, hr, rfl⟩
    obtain ⟨hmem, rfl⟩ := Table.find?_eq_some.mp hr
    exact hmem
  · intro h
    exact ⟨_, Table.find?_eq_some.mpr ⟨h, rfl⟩, rfl⟩

theorem kindOf_insertNew (r : Relation) (h : kindOf R n = some k) :
    kindOf (R.insertNew r) n = some k := by
  rw [kindOf_eq_some] at h ⊢
  exact (Table.sublist_insertAll R [r]).subset h

theorem kindOf_insertNew_self (h : kindOf R n = none) :
    kindOf (R.insertNew ⟨n, k⟩) n = some k := by
  unfold kindOf at h ⊢
  rw [Option.map_eq_none_iff] at h
  rw [Table.find?_insertNew, h, if_pos rfl]
  rfl

theorem kindOf_addKeys (T : String) (keys : List String) (h : kindOf R n = some k) :
    kindOf (addKeys naming T keys R) n = some k := by
  unfold addKeys
  induction keys generalizing R with
  | nil => exact h
  | cons suffix keys ih => exact ih (kindOf_insertNew _ h)

theorem kindOf_exec (hs : exec naming R st = some R') (h : kindOf R n = some k) :
    kindOf R' n = some k := by
  cases st with
  | createTable T keys =>
    rw [exec] at hs
    split at hs
    · cases hs
      exact h
    · cases hs
      exact kindOf_addKeys T keys (kindOf_insertNew _ (kindOf_insertNew _ h))
  | createIndex name on =>
    rw [exec] at hs
    split at hs
    · cases hs
      exact kindOf_insertNew _ h
    · cases hs

theorem mem_addKeys {keys : List String} (h : r ∈ (addKeys naming T keys R).rows) :
    r ∈ R.rows ∨ r.kind = .index ∧
      ∃ suffix ∈ keys, min maxIdentifierLength (T.length + suffix.length) ≤ r.name.length := by
  unfold addKeys at h
  induction keys generalizing R with
  | nil => exact Or.inl h
  | cons suffix keys ih =>
    rcases ih h with hr | ⟨hk, suffix', hmem, hlen⟩
    · rcases Table.mem_insertNew hr with hr | ⟨rfl, _⟩
      · exact Or.inl hr
      · exact Or.inr ⟨rfl, suffix, mem_cons_self, naming.key_length _ _ _⟩
    · exact Or.inr ⟨hk, suffix', mem_cons_of_mem _ hmem, hlen⟩

theorem mem_exec (hs : exec naming R st = some R') (hr : r ∈ R'.rows) :
    r ∈ R.rows ∨ (r.kind = .table ∧ st.table? = some r.name) ∨ r.kind = .index ∧ st.MayIndex r.name := by
  cases st with
  | createTable T keys =>
    rw [exec] at hs
    split at hs
    · cases hs
      exact Or.inl hr
    · cases hs
      rcases mem_addKeys hr with hr | ⟨hk, hkey⟩
      · rcases Table.mem_insertNew hr with hr | ⟨rfl, _⟩
        · rcases Table.mem_insertNew hr with hr | ⟨rfl, _⟩
          · exact Or.inl hr
          · exact Or.inr (Or.inl ⟨rfl, rfl⟩)
        · exact Or.inr (Or.inr ⟨rfl, Or.inl (naming.pkey_extends _ _)⟩)
      · exact Or.inr (Or.inr ⟨hk, Or.inr hkey⟩)
  | createIndex name on =>
    rw [exec] at hs
    split at hs
    · cases hs
      rcases Table.mem_insertNew hr with hr | ⟨rfl, _⟩
      · exact Or.inl hr
      · exact Or.inr (Or.inr ⟨rfl, rfl⟩)
    · cases hs

theorem execAll_cons :
    execAll naming R (st :: sts) = some R' ↔
      ∃ R₁, exec naming R st = some R₁ ∧ execAll naming R₁ sts = some R' := by
  rw [execAll, Option.bind_eq_some_iff]

theorem mem_execAll (hs : execAll naming R sts = some R') (hr : r ∈ R'.rows) :
    r ∈ R.rows ∨ (r.kind = .table ∧ r.name ∈ tablesOf sts) ∨
      r.kind = .index ∧ ∃ st ∈ sts, st.MayIndex r.name := by
  induction sts generalizing R with
  | nil =>
    cases hs
    exact Or.inl hr
  | cons st sts ih =>
    obtain ⟨R₁, h₁, h₂⟩ := execAll_cons.mp hs
    rcases ih h₂ with hr | ⟨hk, ht⟩ | ⟨hk, st', hst, hi⟩
    · rcases mem_exec h₁ hr with hr | ⟨hk, ht⟩ | ⟨hk, hi⟩
      · exact Or.inl hr
      · exact Or.inr (Or.inl ⟨hk, mem_filterMap.mpr ⟨st, mem_cons_self, ht⟩⟩)
      · exact Or.inr (Or.inr ⟨hk, st, mem_cons_self, hi⟩)
    · obtain ⟨st', hst, he⟩ := mem_filterMap.mp ht
      exact Or.inr (Or.inl ⟨hk, mem_filterMap.mpr ⟨st', mem_cons_of_mem _ hst, he⟩⟩)
    · exact Or.inr (Or.inr ⟨hk, st', mem_cons_of_mem _ hst, hi⟩)

theorem not_index_of_execAll (hs : execAll naming R sts = some R') {name on : String}
    (hi : .createIndex name on ∈ sts) : kindOf R on ≠ some .index := by
  induction sts generalizing R with
  | nil => cases hi
  | cons st sts ih =>
    obtain ⟨R₁, h₁, h₂⟩ := execAll_cons.mp hs
    intro hk
    rcases mem_cons.mp hi with rfl | hi
    · rw [exec, hk] at h₁
      cases h₁
    · exact ih h₂ hi (kindOf_exec h₁ hk)

theorem not_index_exec (hs : exec naming R st = some R') (hm : ¬ st.MayIndex T)
    (h : kindOf R T ≠ some .index) : kindOf R' T ≠ some .index := by
  intro hk
  rcases mem_exec hs (kindOf_eq_some.mp hk) with hr | ⟨hk, _⟩ | ⟨_, hi⟩
  · exact h (kindOf_eq_some.mpr hr)
  · cases hk
  · exact hm hi

theorem exists_exec_createTable (keys : List String) (h : kindOf R T ≠ some .index) :
    ∃ R', exec naming R (.createTable T keys) = some R' ∧ kindOf R' T = some .table := by
  rw [exec]
  cases hk : kindOf R T with
  | none => exact ⟨_, rfl, kindOf_addKeys T keys (kindOf_insertNew _ (kindOf_insertNew_self hk))⟩
  | some k =>
    cases k with
    | table => exact ⟨R, rfl, hk⟩
    | index => exact absurd hk h

/-- a script whose table names are not the names of indexes, neither before it nor through it, runs
through, and the tables are there -/
theorem exists_execAll {ts : List String} (hd : Declared ts sts)
    (ht : ∀ T ∈ ts, kindOf R T = some .table) (hfree : ∀ T ∈ tablesOf sts, kindOf R T ≠ some .index)
    (hsep : ∀ st ∈ sts, ∀ T ∈ tablesOf sts, ¬ st.MayIndex T) :
    ∃ R', execAll naming R sts = some R' ∧ ∀ T, T ∈ ts ∨ T ∈ tablesOf sts → kindOf R' T = some .table := by
  induction sts generalizing R ts with
  | nil => exact ⟨R, rfl, fun T h => ht T (h.resolve_right not_mem_nil)⟩
  | cons st sts ih =>
    have hsub : ∀ T ∈ tablesOf sts, T ∈ tablesOf (st :: sts) :=
      fun T h => (Sublist.filterMap _ (sublist_cons_self st sts)).subset h
    have hsep' : ∀ st' ∈ sts, ∀ T ∈ tablesOf sts, ¬ st'.MayIndex T :=
      fun st' hst T hT => hsep st' (mem_cons_of_mem _ hst) T (hsub T hT)
    have hnext : ∀ R₁, exec naming R st = some R₁ → ∀ T ∈ tablesOf sts, kindOf R₁ T ≠ some .index :=
      fun R₁ h₁ T hT => not_index_exec h₁ (hsep st mem_cons_self T (hsub T hT)) (hfree T (hsub T hT))
    cases st with
    | createTable T keys =>
      obtain ⟨R₁, h₁, hT⟩ := exists_exec_createTable keys (hfree T mem_cons_self)
      have ht₁ : ∀ T' ∈ T :: ts, kindOf R₁ T' = some .table := by
        intro T' h
        rcases mem_cons.mp h with rfl | h
        · exact hT
        · exact kindOf_exec h₁ (ht T' h)
      obtain ⟨R', h₂, htab⟩ := ih hd ht₁ (hnext R₁ h₁) hsep'
      refine ⟨R', execAll_cons.mpr ⟨R₁, h₁, h₂⟩, fun T' h => htab T' ?_⟩
      rcases h with h | h
      · exact Or.inl (mem_cons_of_mem _ h)
      · rcases mem_cons.mp h with rfl | h
        · exact Or.inl mem_cons_self
        · exact Or.inr h
    | createIndex name on =>
      obtain ⟨hon, hd⟩ := hd
      have h₁ : exec naming R (.createIndex name on) = some (R.insertNew ⟨name, .index⟩) := by
        rw [exec, ht on hon]
      obtain ⟨R', h₂, htab⟩ := ih hd (fun T h => kindOf_exec h₁ (ht T h)) (hnext _ h₁) hsep'
      exact ⟨R', execAll_cons.mpr ⟨_, h₁, h₂⟩, htab⟩

/-- **a script that puts an index on each of its tables runs through if and only if none of its tables
has the name of an index** -/
theorem execAll_iff (naming : Naming) (R : Schema) (hd : Declared [] sts)
    (hi : ∀ T ∈ tablesOf sts, ∃ name, .createIndex name T ∈ sts)
    (hsep : ∀ st ∈ sts, ∀ T ∈ tablesOf sts, ¬ st.MayIndex T) :
    (∃ R', execAll naming R sts = some R' ∧ ∀ T ∈ tablesOf sts, kindOf R' T = some .table) ↔
      ∀ T ∈ tablesOf sts, kindOf R T ≠ some .index := by
  constructor
  · rintro ⟨R', hs, _⟩ T hT
    obtain ⟨name, hmem⟩ := hi T hT
    exact not_index_of_execAll hs hmem
  · intro hfree
    obtain ⟨R', hs, htab⟩ := exists_execAll hd (fun _ h => absurd h not_mem_nil) hfree hsep
    exact ⟨R', hs, fun T hT => htab T (Or.inr hT)⟩

end
end Relational
