import Mathlib.Data.List.Basic

/-!
# Row versions: what a transaction sees of a table that others are changing

A version is a row with the transaction that has inserted it and the one that has deleted it, as long as
these have not ended.  A statement sees what was committed before it and what its own transaction did.

* `committed`              the rows of ended transactions;
* `read t`                 the rows a statement of the transaction `t` sees;
* `insertRow`, `deleteRows`, `commit`, `rollback`;
* `Inserting`, `Deleting`  the transaction has changes that are not committed;
* `length_read`            **where nobody else is inserting, a transaction that deletes nothing sees every
                           version.**
-/

namespace Relational
open List

structure Version (ρ τ : Type) where
  row : ρ
  xmin : Option τ
  xmax : Option τ
deriving DecidableEq, Repr

abbrev Versions (ρ τ : Type) : Type := List (Version ρ τ)

section
variable {ρ τ : Type} [DecidableEq τ]

def Version.visible (t : τ) (v : Version ρ τ) : Bool :=
  (v.xmin.isNone || decide (v.xmin = some t)) && decide (v.xmax ≠ some t)

def Version.heldBy (t : τ) (v : Version ρ τ) : Bool :=
  v.xmin.any (fun x => decide (x ≠ t)) || v.xmax.any (fun x => decide (x ≠ t))

namespace Versions

def ofRows (rows : List ρ) : Versions ρ τ := rows.map fun r => ⟨r, none, none⟩

def committed (h : Versions ρ τ) : List ρ := (h.filter fun v => v.xmin.isNone).map Version.row

def read (t : τ) (h : Versions ρ τ) : List ρ := (h.filter (Version.visible t)).map Version.row

def insertRow (t : τ) (r : ρ) (h : Versions ρ τ) : Versions ρ τ := h ++ [⟨r, some t, none⟩]

def deleteRows (t : τ) (p : ρ → Bool) (h : Versions ρ τ) : Versions ρ τ :=
  h.map fun v => if v.visible t && p v.row then { v with xmax := some t } else v

/-- what the transaction has deleted goes, what it has inserted stays -/
def commit (t : τ) (h : Versions ρ τ) : Versions ρ τ :=
  (h.filter fun v => decide (v.xmax ≠ some t)).map fun v =>
    if v.xmin = some t then { v with xmin := none } else v

/-- what the transaction has inserted goes, what it has deleted stays -/
def rollback (t : τ) (h : Versions ρ τ) : Versions ρ τ :=
  (h.filter fun v => decide (v.xmin ≠ some t)).map fun v =>
    if v.xmax = some t then { v with xmax := none } else v

def Inserting (h : Versions ρ τ) (t : τ) : Prop := ∃ v ∈ h, v.xmin = some t
def Deleting (h : Versions ρ τ) (t : τ) : Prop := ∃ v ∈ h, v.xmax = some t

variable {h : Versions ρ τ} {t u : τ} {r : ρ} {p : ρ → Bool}

/-! ## the number of versions -/

omit [DecidableEq τ] in
theorem length_committed_le (h : Versions ρ τ) : (committed h).length ≤ h.length := by
  rw [committed, length_map]
  exact length_filter_le _ _

omit [DecidableEq τ] in
theorem length_insertRow : (insertRow t r h).length = h.length + 1 := length_append

theorem length_deleteRows : (deleteRows t p h).length = h.length := length_map _

theorem length_commit_le : (commit t h).length ≤ h.length := by
  rw [commit, length_map]
  exact length_filter_le _ _

theorem length_rollback_le : (rollback t h).length ≤ h.length := by
  rw [rollback, length_map]
  exact length_filter_le _ _

/-- **where nobody is inserting, a transaction that deletes nothing sees every version** -/
theorem length_read (hi : ∀ u, ¬ Inserting h u) (hd : ¬ Deleting h t) : (read t h).length = h.length := by
  have hall : ∀ v ∈ h, v.visible t = true := by
    intro v hv
    have hmin : v.xmin = none := by
      cases hx : v.xmin with
      | none => rfl
      | some u => exact absurd ⟨v, hv, hx⟩ (hi u)
    have hmax : v.xmax ≠ some t := fun hx => hd ⟨v, hv, hx⟩
    unfold Version.visible
    rw [hmin, decide_eq_true hmax]
    rfl
  rw [read, length_map, filter_eq_self.mpr hall]

/-! ## whose changes are not committed -/

omit [DecidableEq τ] in
theorem not_inserting_ofRows (rows : List ρ) (t : τ) : ¬ Inserting (ofRows rows) t := by
  rintro ⟨v, hv, hx⟩
  obtain ⟨r, -, rfl⟩ := mem_map.mp hv
  cases hx

omit [DecidableEq τ] in
theorem not_deleting_ofRows (rows : List ρ) (t : τ) : ¬ Deleting (ofRows rows) t := by
  rintro ⟨v, hv, hx⟩
  obtain ⟨r, -, rfl⟩ := mem_map.mp hv
  cases hx

omit [DecidableEq τ] in
theorem Inserting.insertRow (hi : Inserting (insertRow t r h) u) : u = t ∨ Inserting h u := by
  obtain ⟨v, hv, hx⟩ := hi
  rcases mem_append.mp hv with hv | hv
  · exact Or.inr ⟨v, hv, hx⟩
  · rw [mem_singleton.mp hv] at hx
    exact Or.inl (Option.some.inj hx).symm

omit [DecidableEq τ] in
theorem Deleting.insertRow (hd : Deleting (insertRow t r h) u) : Deleting h u := by
  obtain ⟨v, hv, hx⟩ := hd
  rcases mem_append.mp hv with hv | hv
  · exact ⟨v, hv, hx⟩
  · rw [mem_singleton.mp hv] at hx
    cases hx

theorem Inserting.deleteRows (hi : Inserting (deleteRows t p h) u) : Inserting h u := by
  obtain ⟨v, hv, hx⟩ := hi
  obtain ⟨v₀, hv₀, rfl⟩ := mem_map.mp hv
  refine ⟨v₀, hv₀, ?_⟩
  split at hx
  · exact hx
  · exact hx

theorem Deleting.deleteRows (hd : Deleting (deleteRows t p h) u) : u = t ∨ Deleting h u := by
  obtain ⟨v, hv, hx⟩ := hd
  obtain ⟨v₀, hv₀, rfl⟩ := mem_map.mp hv
  split at hx
  · exact Or.inl (Option.some.inj hx).symm
  · exact Or.inr ⟨v₀, hv₀, hx⟩

theorem Inserting.commit (hi : Inserting (commit t h) u) : u ≠ t ∧ Inserting h u := by
  obtain ⟨v, hv, hx⟩ := hi
  obtain ⟨v₀, hv₀, rfl⟩ := mem_map.mp hv
  split at hx
  · cases hx
  · rename_i hne
    exact ⟨fun he => hne (he ▸ hx), v₀, (mem_filter.mp hv₀).1, hx⟩

theorem Deleting.commit (hd : Deleting (commit t h) u) : u ≠ t ∧ Deleting h u := by
  obtain ⟨v, hv, hx⟩ := hd
  obtain ⟨v₀, hv₀, rfl⟩ := mem_map.mp hv
  obtain ⟨hv₀, hne⟩ := mem_filter.mp hv₀
  have hx : v₀.xmax = some u := by
    split at hx
    · exact hx
    · exact hx
  exact ⟨fun he => of_decide_eq_true hne (he ▸ hx), v₀, hv₀, hx⟩

theorem Inserting.rollback (hi : Inserting (rollback t h) u) : u ≠ t ∧ Inserting h u := by
  obtain ⟨v, hv, hx⟩ := hi
  obtain ⟨v₀, hv₀, rfl⟩ := mem_map.mp hv
  obtain ⟨hv₀, hne⟩ := mem_filter.mp hv₀
  have hx : v₀.xmin = some u := by
    split at hx
    · exact hx
    · exact hx
  exact ⟨fun he => of_decide_eq_true hne (he ▸ hx), v₀, hv₀, hx⟩

theorem Deleting.rollback (hd : Deleting (rollback t h) u) : u ≠ t ∧ Deleting h u := by
  obtain ⟨v, hv, hx⟩ := hd
  obtain ⟨v₀, hv₀, rfl⟩ := mem_map.mp hv
  split at hx
  · cases hx
  · rename_i hne
    exact ⟨fun he => hne (he ▸ hx), v₀, (mem_filter.mp hv₀).1, hx⟩

end Versions
end
end Relational
