import PgQueue.Relational.Table

/-!
# Rows seen through a view

A view `v` reads every row as a value of another type.  A statement on the rows and an operation on
what the view shows of them agree as soon as they agree row by row.

* `map_view_update`, `map_view_delete`   an `UPDATE`, a `DELETE`;
* `filter_view`, `head_view_select`      the rows of a query, and the first of them;
* `find_view`, `any_view`                the first row that matches, and whether there is one.
-/

namespace Relational
open List

section
variable {ρ α : Type} {rows : List ρ} {v v' : ρ → α} {p : ρ → Bool} {p' : α → Bool}

theorem map_view_update {f : ρ → ρ} {f' : α → α} (hp : ∀ r ∈ rows, p r = p' (v r))
    (hf : ∀ r ∈ rows, p r = true → v' (f r) = f' (v r)) (hv : ∀ r ∈ rows, v' r = v r) :
    (rows.map fun r => if p r then f r else r).map v' =
      (rows.map v).map fun x => if p' x then f' x else x := by
  rw [map_map, map_map]
  apply map_congr_left
  intro r hr
  show v' (if p r then f r else r) = if p' (v r) then f' (v r) else v r
  rw [← hp r hr]
  split
  · rename_i h
    exact hf r hr h
  · exact hv r hr

theorem filter_view (hp : ∀ r ∈ rows, p r = p' (v r)) :
    (rows.map v).filter p' = (rows.filter p).map v := by
  rw [filter_map]
  congr 1
  apply filter_congr
  intro r hr
  exact (hp r hr).symm

theorem map_view_delete (hp : ∀ r ∈ rows, p r = p' (v r)) :
    (rows.filter fun r => !p r).map v = (rows.map v).filter fun x => !p' x := by
  symm
  exact filter_view fun r hr => congrArg not (hp r hr)

theorem head_view_select {le : ρ → ρ → Prop} {le' : α → α → Prop} [DecidableRel le]
    [DecidableRel le'] (hp : ∀ r ∈ rows, p r = p' (v r)) (hle : ∀ a b, le a b ↔ le' (v a) (v b)) :
    (((rows.map v).filter p').insertionSort le').head? =
      ((rows.filter p).insertionSort le).head?.map v := by
  rw [filter_view hp, ← map_insertionSort (r := le) (s := le') v _ fun a _ b _ => hle a b,
    head?_map]

theorem find_view (hp : ∀ r ∈ rows, p r = p' (v r)) :
    (rows.map v).find? p' = (rows.find? p).map v := by
  induction rows with
  | nil => rfl
  | cons r rows ih =>
    rw [forall_mem_cons] at hp
    rw [map_cons, find?_cons, find?_cons, ← hp.1]
    cases p r with
    | true => rfl
    | false => exact ih hp.2

theorem any_view (hp : ∀ r ∈ rows, p r = p' (v r)) : (rows.map v).any p' = rows.any p := by
  rw [any_map]
  induction rows with
  | nil => rfl
  | cons r rows ih =>
    rw [forall_mem_cons] at hp
    rw [any_cons, any_cons, ih hp.2, hp.1]
    rfl

end
end Relational
