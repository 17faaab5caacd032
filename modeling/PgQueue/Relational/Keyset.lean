import Mathlib.Data.List.Sort

/-!
# Keyset pages: reading a table in the order of its keys

A page reads the rows whose key is greater than a cursor, in the order of the keys; the last key it
has seen is the next cursor.  Rows under distinct keys have one order (`pairwise_sorted`), a filter
does not disturb it (`sorted_filter`), and the rows after the cursor are those after the page
(`filter_after`): a cursor neither skips a row nor meets it twice.

* `Chunked`    a list cut into pages of one size, the last one shorter, up to a page that fails.
-/

namespace Relational
open List

section
variable {ρ κ : Type} [LinearOrder κ] (key : ρ → κ)

def sorted (rows : List ρ) : List ρ := rows.insertionSort fun a b => key a ≤ key b

variable {key} {rows : List ρ}

theorem sorted_perm (rows : List ρ) : (sorted key rows).Perm rows := perm_insertionSort _ _

theorem pairwise_sorted (hn : (rows.map key).Nodup) :
    (sorted key rows).Pairwise fun a b => key a < key b := by
  have htotal : Std.Total fun a b : ρ => key a ≤ key b := ⟨fun a b => le_total _ _⟩
  have htrans : IsTrans ρ fun a b => key a ≤ key b := ⟨fun _ _ _ h h' => le_trans h h'⟩
  have hle : (sorted key rows).Pairwise fun a b => key a ≤ key b :=
    pairwise_insertionSort _ rows
  have hne : (sorted key rows).Pairwise fun a b => key a ≠ key b :=
    pairwise_map.mp (((sorted_perm rows).map key).nodup_iff.mpr hn)
  exact (hle.and hne).imp fun h => lt_of_le_of_ne h.1 h.2

theorem eq_of_perm_pairwise {l l' : List ρ} (hp : l.Perm l')
    (h : l.Pairwise fun a b => key a < key b) (h' : l'.Pairwise fun a b => key a < key b) :
    l = l' :=
  hp.eq_of_pairwise (fun _ _ _ _ hab hba => absurd hab (lt_asymm hba)) h h'

theorem sorted_filter (hn : (rows.map key).Nodup) (p : ρ → Bool) :
    sorted key (rows.filter p) = (sorted key rows).filter p := by
  refine eq_of_perm_pairwise ?_ (pairwise_sorted ((filter_sublist.map key).nodup hn))
    ((pairwise_sorted hn).sublist filter_sublist)
  exact (sorted_perm _).trans ((sorted_perm rows).filter p).symm

theorem filter_after {a b : List ρ} {x : ρ} (h : (a ++ b).Pairwise fun r r' => key r < key r')
    (hx : a.getLast? = some x) : (a ++ b).filter (fun r => decide (key x < key r)) = b := by
  obtain ⟨a, rfl⟩ := getLast?_eq_some_iff.mp hx
  obtain ⟨hl, hr, hlr⟩ := pairwise_append.mp h
  rw [filter_append]
  have h1 : (a ++ [x]).filter (fun r => decide (key x < key r)) = [] := by
    rw [filter_eq_nil_iff]
    intro r hr' hlt
    have hlt := of_decide_eq_true hlt
    rcases mem_append.mp hr' with hm | hm
    · exact lt_asymm hlt ((pairwise_append.mp hl).2.2 r hm x mem_cons_self)
    · rw [mem_singleton.mp hm] at hlt
      exact lt_irrefl _ hlt
  have h2 : b.filter (fun r => decide (key x < key r)) = b := by
    rw [filter_eq_self]
    intro r hr'
    exact decide_eq_true (hlr x (mem_append_right _ mem_cons_self) r hr')
  rw [h1, h2, nil_append]

end

/-! ## pages -/

/-- the pages of a list, read until one fails -/
inductive Chunked {α ε : Type} (size : Nat) (fails : List α → Option ε) :
    List α → List (List α) → Option ε → Prop
  | nil : Chunked size fails [] [] none
  | fail {l : List α} {e : ε} (hl : l ≠ []) (he : fails (l.take size) = some e) :
      Chunked size fails l [] (some e)
  | cons {l : List α} {pages : List (List α)} {e : Option ε} (hl : l ≠ [])
      (hf : fails (l.take size) = none) (hp : Chunked size fails (l.drop size) pages e) :
      Chunked size fails l (l.take size :: pages) e

theorem Chunked.unique {α ε : Type} {size : Nat} {fails : List α → Option ε} {l : List α}
    {pages pages' : List (List α)} {e e' : Option ε} (h : Chunked size fails l pages e)
    (h' : Chunked size fails l pages' e') : pages = pages' ∧ e = e' := by
  induction h generalizing pages' e' with
  | nil =>
    cases h' with
    | nil => exact ⟨rfl, rfl⟩
    | fail hl he => exact absurd rfl hl
    | cons hl hf hp => exact absurd rfl hl
  | fail hl he =>
    cases h' with
    | nil => exact absurd rfl hl
    | fail hl' he' => exact ⟨rfl, he.symm.trans he'⟩
    | cons hl' hf' hp' => exact nomatch he.symm.trans hf'
  | cons hl hf hp ih =>
    cases h' with
    | nil => exact absurd rfl hl
    | fail hl' he' => exact nomatch hf.symm.trans he'
    | cons hl' hf' hp' =>
      obtain ⟨rfl, rfl⟩ := ih hp'
      exact ⟨rfl, rfl⟩

/-- where a page fails for the sake of one of its rows, so does the whole -/
theorem Chunked.error_eq {α ε : Type} {size : Nat} {fails : List α → Option ε} {l : List α}
    {pages : List (List α)} {e : Option ε} (h : Chunked size fails l pages e) {p : α → Bool} {x : ε}
    (hf : ∀ page, fails page = if page.any p then some x else none) :
    e = if l.any p then some x else none := by
  induction h with
  | nil => rfl
  | @fail l e hl he =>
    rw [hf] at he
    obtain ⟨hany, he⟩ := Option.ite_none_right_eq_some.mp he
    rw [← take_append_drop size l, any_append, hany]
    exact he.symm
  | @cons l pages e hl hnone hp ih =>
    have hany : (l.take size).any p = false := by
      rw [hf] at hnone
      exact Bool.eq_false_iff.mpr fun hany => by simp [hany] at hnone
    rw [ih]
    conv => rhs; rw [← take_append_drop size l, any_append, hany, Bool.false_or]

theorem Chunked.eq_none {α ε : Type} {size : Nat} {fails : List α → Option ε} {l : List α}
    {pages : List (List α)} {e : Option ε} (h : Chunked size fails l pages e)
    (hf : ∀ page, fails page = none) : e = none := by
  induction h with
  | nil => rfl
  | fail hl he => exact nomatch (hf _).symm.trans he
  | cons hl hp hc ih => exact ih

end Relational
