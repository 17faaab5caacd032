import Mathlib.Data.List.Sort
import Mathlib.Data.List.Nodup
import Mathlib.Data.List.Perm.Basic

/-!
# Keyed tables: rows under a primary key, and the statements that rewrite them

A `Table ρ κ key` is a list of rows in which no two rows have the same key; the proof is a
field, so a table with a duplicate key cannot be built.

* `find? k`          the row under the key `k`;
* `update p f hf`    `UPDATE .. SET f WHERE p`, where `f` keeps the key;
* `delete p`         `DELETE .. WHERE p`;
* `insertNew r`      `INSERT .. ON CONFLICT DO NOTHING`;
* `insertAll rs`     the same for several rows, one after another;
* `select p le`      `SELECT .. WHERE p ORDER BY le` (a `LIMIT n` is `List.take n` of it);
* `firstBy f rows`   the first row of every value of `f`.

Every statement has its effect on `find?` as an equation (`find?_update`, `find?_delete`,
`find?_insertNew`), so a proof about one key never looks at the list.
-/

namespace Relational
open List

theorem filter_eq_singleton {ρ κ : Type} [DecidableEq κ] {key : ρ → κ} {l : List ρ} {r : ρ}
    (hn : (l.map key).Nodup) (h : r ∈ l) :
    (l.filter fun x => decide (key x = key r)) = [r] := by
  obtain ⟨a, b, rfl⟩ := append_of_mem h
  rw [map_append, map_cons, nodup_middle, nodup_cons, mem_append] at hn
  have hnil : ∀ l' : List ρ, key r ∉ l'.map key → l'.filter (fun x => decide (key x = key r)) = [] := by
    intro l' hl'
    rw [filter_eq_nil_iff]
    intro x hx
    rw [decide_eq_true_eq]
    exact fun hk => hl' (mem_map.mpr ⟨x, hx, hk⟩)
  rw [filter_append, filter_cons_of_pos (by simp), hnil a fun ha => hn.1 (Or.inl ha),
    hnil b fun hb => hn.1 (Or.inr hb)]
  rfl

theorem filter_map_ite {ρ : Type} {l : List ρ} {p d : ρ → Bool} {f : ρ → ρ}
    (h : ∀ r ∈ l, p r = true → d (f r) = false) :
    (l.map fun r => if p r then f r else r).filter d = (l.filter d).filter fun r => !p r := by
  rw [filter_map, filter_filter]
  have hfilter : l.filter (d ∘ fun r => if p r then f r else r) = l.filter fun r => !p r && d r := by
    apply filter_congr
    intro r hr
    show d (if p r then f r else r) = _
    cases hp : p r with
    | true => rw [if_pos rfl, h r hr hp]; rfl
    | false => rfl
  rw [hfilter]
  conv => rhs; rw [← map_id (List.filter _ _)]
  apply map_congr_left
  intro r hr
  have hp := (mem_filter.mp hr).2
  rw [Bool.and_eq_true, Bool.not_eq_true'] at hp
  rw [if_neg (by rw [hp.1]; decide)]
  rfl

theorem map_filter_sublist_singleton {ρ κ α : Type} {key : ρ → κ} {l : List ρ} {p : ρ → Bool} {k : κ}
    (hn : (l.map key).Nodup) (hk : ∀ x ∈ l, p x = true → key x = k) (a : α) :
    ((l.filter p).map fun _ => a).Sublist [a] := by
  have hnd : ((l.filter p).map key).Nodup := (filter_sublist.map key).nodup hn
  have hall : ∀ x ∈ l.filter p, key x = k := fun x hx =>
    hk x (mem_filter.mp hx).1 (mem_filter.mp hx).2
  match l.filter p, hnd, hall with
  | [], _, _ => exact nil_sublist _
  | [x], _, _ => exact Sublist.refl _
  | x :: y :: xs, hnd, hall =>
    rw [map_cons, map_cons, nodup_cons, hall x (by simp), hall y (by simp)] at hnd
    exact absurd mem_cons_self hnd.1

theorem perm_extract {ρ κ : Type} [DecidableEq κ] {key : ρ → κ} {l sub : List ρ}
    (hl : (l.map key).Nodup) (hsub : ∀ x ∈ sub, x ∈ l) (hn : sub.Nodup) :
    l.Perm (sub ++ l.filter fun d => !sub.any fun x => decide (key x = key d)) := by
  have hnd := Nodup.of_map key hl
  have hkey : ∀ x ∈ sub, ∀ d ∈ l, key x = key d → x = d := fun x hx d hd he =>
    inj_on_of_nodup_map hl (hsub x hx) hd he
  refine (perm_ext_iff_of_nodup hnd ?_).mpr fun d => ?_
  · refine nodup_append.mpr ⟨hn, hnd.filter _, ?_⟩
    rintro a ha b hb rfl
    have hb := (mem_filter.mp hb).2
    rw [Bool.not_eq_true', any_eq_false] at hb
    exact hb a ha (decide_eq_true rfl)
  · rw [mem_append, mem_filter, Bool.not_eq_true', any_eq_false]
    constructor
    · intro hd
      by_cases hmem : d ∈ sub
      · exact Or.inl hmem
      · refine Or.inr ⟨hd, fun x hx he => hmem ?_⟩
        exact hkey x hx d hd (of_decide_eq_true he) ▸ hx
    · rintro (hd | hd)
      · exact hsub d hd
      · exact hd.1

theorem lookup_map {α β κ : Type} [DecidableEq κ] {key : α → κ} {g : α → β} (l : List α) (k : κ) :
    (l.map fun x => (key x, g x)).lookup k = (l.find? fun x => decide (key x = k)).map g := by
  induction l with
  | nil => rfl
  | cons x l ih =>
    rw [map_cons, lookup_cons, find?_cons]
    by_cases hk : key x = k
    · simp [hk]
    · have hk' : (k == key x) = false := by
        rw [beq_eq_false_iff_ne]
        exact fun h => hk h.symm
      simp [hk, hk', ih]

/-- rows under a primary key -/
structure Table (ρ κ : Type) (key : ρ → κ) where
  rows : List ρ
  nodup : (rows.map key).Nodup

namespace Table
variable {ρ κ : Type} {key : ρ → κ} {t : Table ρ κ key} {p d : ρ → Bool} {r : ρ} {f : ρ → ρ}
  {le : ρ → ρ → Prop}

@[ext] theorem ext {u : Table ρ κ key} (h : t.rows = u.rows) : t = u := by
  cases t
  cases u
  cases h
  rfl

instance [DecidableEq ρ] : DecidableEq (Table ρ κ key) := fun t u =>
  decidable_of_iff (t.rows = u.rows) ⟨ext, fun h => h ▸ rfl⟩

/-! ## statements -/

def empty : Table ρ κ key := ⟨[], nodup_nil⟩

@[simp] theorem rows_empty : (empty : Table ρ κ key).rows = [] := rfl

def update (t : Table ρ κ key) (p : ρ → Bool) (f : ρ → ρ) (hf : ∀ r, key (f r) = key r) :
    Table ρ κ key :=
  ⟨t.rows.map fun r => if p r then f r else r, by
    have hk : (key ∘ fun r => if p r then f r else r) = key := by
      funext r
      show key (if p r then f r else r) = key r
      split
      · exact hf r
      · rfl
    rw [map_map, hk]
    exact t.nodup⟩

@[simp] theorem rows_update (t : Table ρ κ key) (p f hf) :
    (t.update p f hf).rows = t.rows.map fun r => if p r then f r else r := rfl

def delete (t : Table ρ κ key) (p : ρ → Bool) : Table ρ κ key :=
  ⟨t.rows.filter fun r => !p r, (filter_sublist.map key).nodup t.nodup⟩

@[simp] theorem rows_delete (t : Table ρ κ key) (p) :
    (t.delete p).rows = t.rows.filter fun r => !p r := rfl

def select (t : Table ρ κ key) (p : ρ → Bool) (le : ρ → ρ → Prop) [DecidableRel le] : List ρ :=
  (t.rows.filter p).insertionSort le

section
variable [DecidableEq κ]

def find? (t : Table ρ κ key) (k : κ) : Option ρ := t.rows.find? fun r => decide (key r = k)

def insertNew (t : Table ρ κ key) (r : ρ) : Table ρ κ key :=
  if h : key r ∈ t.rows.map key then t
  else ⟨t.rows ++ [r], by
    rw [map_append, nodup_append]
    refine ⟨t.nodup, nodup_singleton _, ?_⟩
    intro a ha b hb hab
    rw [map_singleton, mem_singleton] at hb
    exact h (hb ▸ hab ▸ ha)⟩

def insertAll (t : Table ρ κ key) (rs : List ρ) : Table ρ κ key := rs.foldl insertNew t

@[simp] theorem insertAll_nil (t : Table ρ κ key) : t.insertAll [] = t := rfl
@[simp] theorem insertAll_cons (t : Table ρ κ key) (r : ρ) (rs : List ρ) :
    t.insertAll (r :: rs) = (t.insertNew r).insertAll rs := rfl

/-! ## the row under a key -/

variable {t : Table ρ κ key} {r : ρ} {rs : List ρ} {k : κ}

theorem find?_eq_some : t.find? k = some r ↔ r ∈ t.rows ∧ key r = k := by
  constructor
  · intro h
    exact ⟨mem_of_find?_eq_some h, by simpa using find?_some h⟩
  · rintro ⟨hr, rfl⟩
    cases h : t.find? (key r) with
    | none =>
      have hall := find?_eq_none.mp h r hr
      simp at hall
    | some r' =>
      have hk : key r' = key r := by simpa using find?_some h
      rw [inj_on_of_nodup_map t.nodup (mem_of_find?_eq_some h) hr hk]

theorem find?_eq_none : t.find? k = none ↔ ∀ r ∈ t.rows, key r ≠ k := by
  unfold find?
  rw [List.find?_eq_none]
  simp

theorem find?_of_mem (h : r ∈ t.rows) : t.find? (key r) = some r :=
  find?_eq_some.mpr ⟨h, rfl⟩

theorem mem_of_find? (h : t.find? k = some r) : r ∈ t.rows := (find?_eq_some.mp h).1

theorem key_of_find? (h : t.find? k = some r) : key r = k := (find?_eq_some.mp h).2

omit [DecidableEq κ] in
theorem eq_of_key {r' : ρ} (h : r ∈ t.rows) (h' : r' ∈ t.rows) (hk : key r = key r') :
    r = r' := inj_on_of_nodup_map t.nodup h h' hk

@[simp] theorem find?_empty (k : κ) : (empty : Table ρ κ key).find? k = none := rfl

theorem find?_ext {o : Option ρ} (h : ∀ r, (r ∈ t.rows ∧ key r = k) ↔ o = some r) : t.find? k = o := by
  apply Option.ext
  intro r
  rw [find?_eq_some]
  exact h r

theorem find?_update (t : Table ρ κ key) (p f hf) (k : κ) :
    (t.update p f hf).find? k = (t.find? k).map fun r => if p r then f r else r := by
  apply find?_ext
  intro r'
  rw [rows_update, mem_map, Option.map_eq_some_iff]
  have hkey : ∀ r, key (if p r then f r else r) = key r := by
    intro r
    split
    · exact hf r
    · rfl
  constructor
  · rintro ⟨⟨r, hr, rfl⟩, hk⟩
    exact ⟨r, find?_eq_some.mpr ⟨hr, (hkey r).symm.trans hk⟩, rfl⟩
  · rintro ⟨r, hr, rfl⟩
    exact ⟨⟨r, mem_of_find? hr, rfl⟩, (hkey r).trans (key_of_find? hr)⟩

omit [DecidableEq κ] in
theorem update_of_not {p f hf} (h : ∀ r ∈ t.rows, p r = false) : t.update p f hf = t := by
  apply ext
  rw [rows_update]
  conv => rhs; rw [← map_id t.rows]
  apply map_congr_left
  intro r hr
  rw [h r hr]
  rfl

theorem find?_filterMap {u : Table ρ κ key} {g : ρ → Option ρ}
    (hg : ∀ r r', g r = some r' → key r' = key r) (h : u.rows = t.rows.filterMap g) (k : κ) :
    u.find? k = (t.find? k).bind g := by
  apply find?_ext
  intro r'
  rw [h, mem_filterMap, Option.bind_eq_some_iff]
  constructor
  · rintro ⟨⟨r, hr, hgr⟩, hk⟩
    exact ⟨r, find?_eq_some.mpr ⟨hr, (hg r r' hgr).symm.trans hk⟩, hgr⟩
  · rintro ⟨r, hr, hgr⟩
    obtain ⟨hmem, hk⟩ := find?_eq_some.mp hr
    exact ⟨⟨r, hmem, hgr⟩, (hg r r' hgr).trans hk⟩

theorem find?_delete (t : Table ρ κ key) (p) (k : κ) :
    (t.delete p).find? k = (t.find? k).bind fun r => if p r then none else some r := by
  apply find?_filterMap
  · intro r r' h
    split at h
    · cases h
    · exact congrArg key (Option.some.inj h).symm
  · rw [rows_delete, ← filterMap_eq_filter]
    apply filterMap_congr
    intro r hr
    cases hp : p r <;> simp [Option.guard, hp]

theorem insertNew_of_find? {r' : ρ} (h : t.find? (key r) = some r') : t.insertNew r = t := by
  have hmem : key r ∈ t.rows.map key :=
    mem_map.mpr ⟨r', mem_of_find? h, key_of_find? h⟩
  unfold insertNew
  rw [dif_pos hmem]

theorem rows_insertNew (h : t.find? (key r) = none) : (t.insertNew r).rows = t.rows ++ [r] := by
  have hmem : key r ∉ t.rows.map key := by
    rw [mem_map]
    rintro ⟨r', hr', hk⟩
    exact find?_eq_none.mp h r' hr' hk
  unfold insertNew
  rw [dif_neg hmem]

theorem find?_insertNew (t : Table ρ κ key) (r : ρ) (k : κ) :
    (t.insertNew r).find? k = if key r = k then some ((t.find? k).getD r) else t.find? k := by
  cases h : t.find? (key r) with
  | some r' =>
    rw [insertNew_of_find? h]
    split
    · rename_i hk
      rw [← hk, h]
      rfl
    · rfl
  | none =>
    apply find?_ext
    intro x
    rw [rows_insertNew h, mem_append, mem_singleton]
    split
    · rename_i hk
      rw [← hk, h]
      constructor
      · rintro ⟨hx | rfl, hxk⟩
        · exact absurd hxk (find?_eq_none.mp h x hx)
        · rfl
      · intro hx
        cases hx
        exact ⟨Or.inr rfl, rfl⟩
    · rename_i hk
      rw [find?_eq_some]
      constructor
      · rintro ⟨hx | rfl, hxk⟩
        · exact ⟨hx, hxk⟩
        · exact absurd hxk hk
      · rintro ⟨hx, hxk⟩
        exact ⟨Or.inl hx, hxk⟩

theorem find?_insertAll (t : Table ρ κ key) (rs : List ρ) (k : κ) :
    (t.insertAll rs).find? k = (t.find? k).or (rs.find? fun r => decide (key r = k)) := by
  induction rs generalizing t with
  | nil => rw [insertAll_nil, find?_nil, Option.or_none]
  | cons r rs ih =>
    rw [insertAll_cons, ih, find?_insertNew, find?_cons]
    by_cases hk : key r = k
    · rw [if_pos hk, decide_eq_true hk]
      cases t.find? k <;> rfl
    · rw [if_neg hk, decide_eq_false hk]

theorem length_insertNew_le (t : Table ρ κ key) (r : ρ) :
    (t.insertNew r).rows.length ≤ t.rows.length + 1 := by
  cases h : t.find? (key r) with
  | some r' => rw [insertNew_of_find? h]; omega
  | none => rw [rows_insertNew h, length_append, length_singleton]

theorem length_insertAll_le (t : Table ρ κ key) (rs : List ρ) :
    (t.insertAll rs).rows.length ≤ t.rows.length + rs.length := by
  induction rs generalizing t with
  | nil => exact Nat.le_refl _
  | cons r rs ih =>
    have h1 := ih (t.insertNew r)
    have h2 := t.length_insertNew_le r
    rw [insertAll_cons, length_cons]
    omega

theorem insertAll_fresh (h : t.rows.length + rs.length ≤ (t.insertAll rs).rows.length) :
    (rs.map key).Nodup ∧ ∀ r ∈ rs, t.find? (key r) = none := by
  induction rs generalizing t with
  | nil => exact ⟨nodup_nil, by simp⟩
  | cons r rs ih =>
    rw [insertAll_cons, length_cons] at h
    have hle := (t.insertNew r).length_insertAll_le rs
    have hnew : t.find? (key r) = none := by
      cases hf : t.find? (key r) with
      | none => rfl
      | some r' =>
        rw [insertNew_of_find? hf] at hle h
        omega
    have hlen : (t.insertNew r).rows.length = t.rows.length + 1 := by
      rw [rows_insertNew hnew, length_append, length_singleton]
    obtain ⟨hnd, hall⟩ := ih (t := t.insertNew r) (by omega)
    have hne : ∀ x ∈ rs, key r ≠ key x ∧ t.find? (key x) = none := by
      intro x hx
      have hx' := hall x hx
      rw [find?_insertNew] at hx'
      by_cases hk : key r = key x
      · rw [if_pos hk] at hx'
        cases hx'
      · rw [if_neg hk] at hx'
        exact ⟨hk, hx'⟩
    refine ⟨?_, ?_⟩
    · rw [map_cons, nodup_cons, mem_map]
      refine ⟨?_, hnd⟩
      rintro ⟨x, hx, hk⟩
      exact (hne x hx).1 hk.symm
    · intro x hx
      rcases mem_cons.mp hx with rfl | hx
      · exact hnew
      · exact (hne x hx).2

/-! ## rows of a changed table -/

theorem mem_insertNew {x : ρ} (h : x ∈ (t.insertNew r).rows) :
    x ∈ t.rows ∨ x = r ∧ t.find? (key r) = none := by
  cases hf : t.find? (key r) with
  | some r' =>
    rw [insertNew_of_find? hf] at h
    exact Or.inl h
  | none =>
    rw [rows_insertNew hf, mem_append, mem_singleton] at h
    exact h.imp_right fun hx => ⟨hx, rfl⟩

theorem mem_insertAll {x : ρ} (h : x ∈ (t.insertAll rs).rows) : x ∈ t.rows ∨ x ∈ rs := by
  induction rs generalizing t with
  | nil => exact Or.inl h
  | cons r rs ih =>
    rcases ih h with hx | hx
    · rcases mem_insertNew hx with hx | ⟨rfl, -⟩
      · exact Or.inl hx
      · exact Or.inr mem_cons_self
    · exact Or.inr (mem_cons_of_mem _ hx)

theorem prefix_insertAll (t : Table ρ κ key) (rs : List ρ) :
    t.rows <+: (t.insertAll rs).rows := by
  induction rs generalizing t with
  | nil => exact prefix_refl _
  | cons r rs ih =>
    refine List.IsPrefix.trans ?_ (ih (t.insertNew r))
    cases h : t.find? (key r) with
    | some r' =>
      have hrows : (t.insertNew r).rows = t.rows := by rw [insertNew_of_find? h]
      exact ⟨[], by rw [append_nil, hrows]⟩
    | none => exact ⟨[r], (rows_insertNew h).symm⟩

theorem sublist_insertAll (t : Table ρ κ key) (rs : List ρ) :
    t.rows.Sublist (t.insertAll rs).rows := (t.prefix_insertAll rs).sublist

theorem insertAll_append (t : Table ρ κ key) (rs rs' : List ρ) :
    t.insertAll (rs ++ rs') = (t.insertAll rs).insertAll rs' := foldl_append

theorem update_insertNew (t : Table ρ κ key) (r : ρ) (f : ρ → ρ) (hf : ∀ r, key (f r) = key r) :
    (t.insertNew r).update (fun _ => true) f hf = (t.update (fun _ => true) f hf).insertNew (f r) := by
  have hfind : (t.update (fun _ => true) f hf).find? (key (f r)) = (t.find? (key r)).map f := by
    rw [hf, find?_update]
    rfl
  cases h : t.find? (key r) with
  | some x =>
    rw [h] at hfind
    rw [insertNew_of_find? h, insertNew_of_find? hfind]
  | none =>
    rw [h] at hfind
    apply ext
    rw [rows_insertNew hfind, rows_update, rows_update, rows_insertNew h, map_append]
    rfl

theorem update_insertAll (t : Table ρ κ key) (rs : List ρ) (f : ρ → ρ) (hf : ∀ r, key (f r) = key r) :
    (t.insertAll rs).update (fun _ => true) f hf =
      (t.update (fun _ => true) f hf).insertAll (rs.map f) := by
  induction rs generalizing t with
  | nil => rfl
  | cons r rs ih => rw [insertAll_cons, ih, update_insertNew, map_cons, insertAll_cons]

theorem insertAll_sublist (t : Table ρ κ key) (rs : List ρ) :
    (t.insertAll rs).rows.Sublist (t.rows ++ rs) := by
  induction rs generalizing t with
  | nil => rw [insertAll_nil, append_nil]
  | cons r rs ih =>
    rw [insertAll_cons]
    refine (ih (t.insertNew r)).trans ?_
    cases hf : t.find? (key r) with
    | none =>
      rw [rows_insertNew hf, append_assoc]
      rfl
    | some x =>
      rw [insertNew_of_find? hf]
      exact (Sublist.refl _).append (sublist_cons_self r rs)

theorem rows_insertAll (hn : (rs.map key).Nodup) :
    (t.insertAll rs).rows = t.rows ++ rs.filter fun r => (t.find? (key r)).isNone := by
  induction rs generalizing t with
  | nil => rw [insertAll_nil, filter_nil, append_nil]
  | cons r rs ih =>
    rw [map_cons, nodup_cons] at hn
    rw [insertAll_cons, ih hn.2]
    cases hf : t.find? (key r) with
    | none =>
      have hrest : rs.filter (fun x => ((t.insertNew r).find? (key x)).isNone) =
          rs.filter fun x => (t.find? (key x)).isNone := by
        apply filter_congr
        intro x hx
        have hne : key r ≠ key x := fun hk => hn.1 (mem_map.mpr ⟨x, hx, hk.symm⟩)
        rw [find?_insertNew, if_neg hne]
      rw [rows_insertNew hf, filter_cons_of_pos (by rw [hf]; rfl), append_assoc, hrest]
      rfl
    | some x => rw [insertNew_of_find? hf, filter_cons_of_neg (by rw [hf]; exact nofun)]

theorem rows_insertAll_fresh (hn : (rs.map key).Nodup) (hnew : ∀ r ∈ rs, t.find? (key r) = none) :
    (t.insertAll rs).rows = t.rows ++ rs := by
  rw [rows_insertAll hn, filter_eq_self.mpr]
  intro r hr
  rw [hnew r hr]
  rfl

theorem length_insertAll_iff :
    t.rows.length + rs.length ≤ (t.insertAll rs).rows.length ↔
      (rs.map key).Nodup ∧ ∀ r ∈ rs, t.find? (key r) = none := by
  refine ⟨insertAll_fresh, fun h => ?_⟩
  rw [rows_insertAll_fresh h.1 h.2, length_append]

theorem length_insertAll_cons_iff :
    t.rows.length + (r :: rs).length ≤ (t.insertAll (r :: rs)).rows.length ↔
      t.find? (key r) = none ∧
        (t.insertNew r).rows.length + rs.length ≤ ((t.insertNew r).insertAll rs).rows.length := by
  rw [insertAll_cons, length_cons]
  cases hf : t.find? (key r) with
  | some r' =>
    have hle := (t.insertNew r).length_insertAll_le rs
    rw [insertNew_of_find? hf] at hle ⊢
    exact ⟨fun h => absurd h (by omega), fun h => absurd h.1 (Option.some_ne_none r')⟩
  | none =>
    have hlen : (t.insertNew r).rows.length = t.rows.length + 1 := by
      rw [rows_insertNew hf, length_append, length_singleton]
    rw [hlen]
    exact ⟨fun h => ⟨rfl, by omega⟩, fun h => by omega⟩

theorem filter_key (h : r ∈ t.rows) :
    (t.rows.filter fun x => decide (key x = key r)) = [r] := filter_eq_singleton t.nodup h

end

/-! ## what holds of every row -/

section
variable {P : ρ → Prop} {t : Table ρ κ key}

theorem forall_update {p : ρ → Bool} {f : ρ → ρ} (h : ∀ r ∈ t.rows, P r)
    (hp : ∀ r ∈ t.rows, p r = true → P (f r)) :
    ∀ r ∈ t.rows.map fun r => if p r then f r else r, P r := by
  intro r' hr'
  obtain ⟨r, hr, rfl⟩ := mem_map.mp hr'
  split
  · rename_i hpr
    exact hp r hr hpr
  · exact h r hr

theorem forall_delete {p : ρ → Bool} (h : ∀ r ∈ t.rows, P r) : ∀ r ∈ (t.delete p).rows, P r :=
  fun r hr => h r (mem_filter.mp hr).1

theorem forall_insertAll [DecidableEq κ] {rs : List ρ} (h : ∀ r ∈ t.rows, P r) (hrs : ∀ r ∈ rs, P r) :
    ∀ r ∈ (t.insertAll rs).rows, P r := fun r hr => (mem_insertAll hr).elim (h r) (hrs r)

end

/-! ## queries -/

theorem mem_select [DecidableRel le] : r ∈ t.select p le ↔ r ∈ t.rows ∧ p r = true := by
  unfold select
  rw [mem_insertionSort, mem_filter]

theorem select_perm (t : Table ρ κ key) (p : ρ → Bool) (le : ρ → ρ → Prop) [DecidableRel le] :
    (t.select p le).Perm (t.rows.filter p) := perm_insertionSort le _

theorem head?_select_eq_none [DecidableRel le] :
    (t.select p le).head? = none ↔ ∀ r ∈ t.rows, p r = false := by
  rw [head?_eq_none_iff, eq_nil_iff_forall_not_mem]
  refine forall_congr' fun r => ?_
  rw [mem_select, not_and, Bool.not_eq_true]

theorem head?_select [DecidableRel le] (hsorted : (t.select p le).Pairwise le) (hrefl : ∀ r, le r r)
    (h : (t.select p le).head? = some r) :
    r ∈ t.rows ∧ p r = true ∧ ∀ x ∈ t.rows, p x = true → le r x := by
  obtain ⟨rest, hl⟩ := head?_eq_some_iff.mp h
  obtain ⟨hr, hp⟩ := mem_select.mp (hl ▸ mem_cons_self : r ∈ t.select p le)
  refine ⟨hr, hp, fun x hx hpx => ?_⟩
  have hmem : x ∈ t.select p le := mem_select.mpr ⟨hx, hpx⟩
  rw [hl] at hsorted hmem
  rcases mem_cons.mp hmem with rfl | hmem
  · exact hrefl x
  · exact (pairwise_cons.mp hsorted).1 x hmem

theorem filter_update {hf : ∀ r, key (f r) = key r} (h : ∀ r ∈ t.rows, p r = true → d (f r) = false) :
    (t.update p f hf).rows.filter d = (t.rows.filter d).filter fun r => !p r :=
  filter_map_ite h

theorem filter_perm_update (hf : ∀ r, key (f r) = key r) (hr : r ∈ t.rows) (hd : d r = true)
    (hp : ∀ x ∈ t.rows, p x = true ↔ x = r) (h : d (f r) = false) :
    (t.rows.filter d).Perm (r :: (t.update p f hf).rows.filter d) := by
  have hnd : (t.rows.filter d).Nodup := filter_sublist.nodup (Nodup.of_map key t.nodup)
  rw [filter_update fun x hx hpx => (hp x hx).mp hpx ▸ h]
  have hone : ((t.rows.filter d).filter p).Perm [r] := by
    refine (perm_ext_iff_of_nodup (filter_sublist.nodup hnd)
      (nodup_singleton r)).mpr fun x => ?_
    rw [mem_filter, mem_filter, mem_singleton]
    constructor
    · rintro ⟨⟨hx, -⟩, hpx⟩
      exact (hp x hx).mp hpx
    · rintro rfl
      exact ⟨⟨hr, hd⟩, (hp x hr).mpr rfl⟩
  exact (filter_append_perm p _).symm.trans (hone.append_right _)

theorem filter_perm_update_into [DecidableEq κ] (hf : ∀ r, key (f r) = key r) (hr : r ∈ t.rows)
    (hd : d r = false) (hp : ∀ x ∈ t.rows, p x = true ↔ x = r) (h : d (f r) = true) :
    ((t.update p f hf).rows.filter d).Perm (f r :: t.rows.filter d) := by
  have hnew : f r ∉ t.rows.filter d := by
    intro hm
    obtain ⟨hm, hd'⟩ := mem_filter.mp hm
    rw [eq_of_key hm hr (hf r), hd] at hd'
    cases hd'
  have hnd : ∀ {u : Table ρ κ key}, (u.rows.filter d).Nodup := fun {u} =>
    filter_sublist.nodup (Nodup.of_map key u.nodup)
  refine (perm_ext_iff_of_nodup hnd (nodup_cons.mpr ⟨hnew, hnd⟩)).mpr fun x => ?_
  rw [mem_filter, rows_update, mem_map, mem_cons, mem_filter]
  constructor
  · rintro ⟨⟨y, hy, rfl⟩, hdx⟩
    split
    · rename_i hpy
      exact Or.inl (congrArg f ((hp y hy).mp hpy))
    · rename_i hpy
      rw [if_neg hpy] at hdx
      exact Or.inr ⟨hy, hdx⟩
  · rintro (rfl | ⟨hx, hdx⟩)
    · exact ⟨⟨r, hr, if_pos ((hp r hr).mpr rfl)⟩, h⟩
    · refine ⟨⟨x, hx, if_neg fun hpx => ?_⟩, hdx⟩
      rw [(hp x hx).mp hpx, hd] at hdx
      cases hdx

theorem select_of_pairwise [DecidableRel le] (h : (t.rows.filter p).Pairwise le) :
    t.select p le = t.rows.filter p := h.insertionSort_eq

theorem filter_update_of_not (hf : ∀ r, key (f r) = key r)
    (h : ∀ r ∈ t.rows, p r = true → d r = false ∧ d (f r) = false) :
    (t.update p f hf).rows.filter d = t.rows.filter d := by
  rw [filter_update fun r hr hp => (h r hr hp).2]
  refine filter_eq_self.mpr fun r hr => ?_
  obtain ⟨hr, hd⟩ := mem_filter.mp hr
  cases hp : p r with
  | false => rfl
  | true => rw [(h r hr hp).1] at hd; cases hd

theorem filter_update_head (hf : ∀ r, key (f r) = key r) {rest : List ρ}
    (hd : t.rows.filter d = r :: rest) (hp : ∀ x ∈ t.rows, p x = true ↔ x = r) (h : d (f r) = false) :
    (t.update p f hf).rows.filter d = rest := by
  have hnd : (t.rows.filter d).Nodup := filter_sublist.nodup (Nodup.of_map key t.nodup)
  have hmem : ∀ x ∈ r :: rest, x ∈ t.rows := fun x hx => (mem_filter.mp (hd ▸ hx)).1
  rw [filter_update fun x hx hpx => (hp x hx).mp hpx ▸ h, hd,
    filter_cons_of_neg (by simp [(hp r (hmem r mem_cons_self)).mpr rfl])]
  rw [hd] at hnd
  refine filter_eq_self.mpr fun x hx => ?_
  have hne : x ≠ r := fun he => (nodup_cons.mp hnd).1 (he ▸ hx)
  cases hpx : p x with
  | false => rfl
  | true => exact absurd ((hp x (hmem x (mem_cons_of_mem r hx))).mp hpx) hne

theorem nodup_select (t : Table ρ κ key) (p : ρ → Bool) (le : ρ → ρ → Prop) [DecidableRel le] :
    ((t.select p le).map key).Nodup :=
  ((t.select_perm p le).map key).nodup_iff.mpr ((filter_sublist.map key).nodup t.nodup)

end Table

/-! ## the first row of every key -/

section
variable {ρ α : Type} [DecidableEq α]

/-- keep the first row of every value of `f` -/
def firstBy (f : ρ → α) : List ρ → List ρ
  | [] => []
  | r :: rs => r :: (firstBy f rs).filter fun x => decide (f x ≠ f r)

theorem firstBy_sublist (f : ρ → α) (rs : List ρ) : (firstBy f rs).Sublist rs := by
  induction rs with
  | nil => exact Sublist.refl _
  | cons r rs ih => exact (filter_sublist.trans ih).cons_cons r

variable {f : ρ → α} {rs : List ρ}

theorem mem_of_mem_firstBy {r : ρ} (h : r ∈ firstBy f rs) : r ∈ rs :=
  (firstBy_sublist f rs).subset h

theorem nodup_firstBy (f : ρ → α) (rs : List ρ) : ((firstBy f rs).map f).Nodup := by
  induction rs with
  | nil => exact nodup_nil
  | cons r rs ih =>
    rw [firstBy, map_cons, nodup_cons]
    refine ⟨?_, (filter_sublist.map f).nodup ih⟩
    rw [mem_map]
    rintro ⟨x, hx, hxr⟩
    have hne := (mem_filter.mp hx).2
    rw [decide_eq_true_eq] at hne
    exact hne hxr

theorem firstBy_of_nodup (h : (rs.map f).Nodup) : firstBy f rs = rs := by
  induction rs with
  | nil => rfl
  | cons r rs ih =>
    rw [map_cons, nodup_cons] at h
    rw [firstBy, ih h.2, filter_eq_self.mpr]
    intro x hx
    rw [decide_eq_true_eq]
    exact fun he => h.1 (he ▸ mem_map_of_mem hx)

theorem firstBy_concat (f : ρ → α) (rs : List ρ) (x : ρ) :
    firstBy f (rs ++ [x]) = if f x ∈ rs.map f then firstBy f rs else firstBy f rs ++ [x] := by
  induction rs with
  | nil => rfl
  | cons r rs ih =>
    rw [cons_append, firstBy, ih, map_cons]
    by_cases hx : f x ∈ rs.map f
    · rw [if_pos hx, if_pos (mem_cons_of_mem _ hx)]
      rfl
    · rw [if_neg hx, filter_append]
      by_cases hr : f x = f r
      · rw [if_pos (hr ▸ mem_cons_self), filter_cons_of_neg (by simp [hr]),
          filter_nil, append_nil]
        rfl
      · rw [if_neg (not_mem_cons_of_ne_of_not_mem hr hx),
          filter_cons_of_pos (by simp [hr]), filter_nil]
        rfl

theorem Table.insertAll_filter {κ : Type} [DecidableEq κ] {key : ρ → κ} (t : Table ρ κ key)
    {k : κ} (hk : (t.find? k).isSome) (rs : List ρ) :
    t.insertAll (rs.filter fun r => decide (key r ≠ k)) = t.insertAll rs := by
  induction rs generalizing t with
  | nil => rfl
  | cons r rs ih =>
    by_cases hr : key r = k
    · obtain ⟨x, hx⟩ := Option.isSome_iff_exists.mp hk
      rw [filter_cons_of_neg (by simp [hr]), ih t hk, insertAll_cons,
        insertNew_of_find? (hr ▸ hx)]
    · rw [filter_cons_of_pos (by simp [hr]), insertAll_cons, insertAll_cons]
      apply ih
      rw [find?_insertNew, if_neg hr]
      exact hk

theorem Table.insertAll_firstBy {κ : Type} [DecidableEq κ] {key : ρ → κ} (t : Table ρ κ key)
    (rs : List ρ) : t.insertAll (firstBy key rs) = t.insertAll rs := by
  induction rs generalizing t with
  | nil => rfl
  | cons r rs ih =>
    rw [firstBy, insertAll_cons, insertAll_cons, insertAll_filter, ih]
    rw [find?_insertNew, if_pos rfl]
    rfl

theorem map_firstBy {β : Type} (f : ρ → α) (g : β → ρ) (rs : List β) :
    (firstBy (f ∘ g) rs).map g = firstBy f (rs.map g) := by
  induction rs with
  | nil => rfl
  | cons r rs ih =>
    rw [firstBy, map_cons, map_cons, firstBy, ← ih, filter_map]
    rfl

theorem exists_mem_firstBy {r : ρ} (h : r ∈ rs) : ∃ r' ∈ firstBy f rs, f r' = f r := by
  induction rs with
  | nil => cases h
  | cons a rs ih =>
    rcases mem_cons.mp h with rfl | h
    · exact ⟨r, mem_cons_self, rfl⟩
    · obtain ⟨r', hr', hf⟩ := ih h
      by_cases ha : f r' = f a
      · exact ⟨a, mem_cons_self, ha.symm.trans hf⟩
      · refine ⟨r', mem_cons_of_mem _ (mem_filter.mpr ⟨hr', ?_⟩), hf⟩
        rw [decide_eq_true_eq]
        exact ha

theorem mem_firstBy_id {rs : List α} {r : α} : r ∈ firstBy id rs ↔ r ∈ rs := by
  constructor
  · exact mem_of_mem_firstBy
  · intro h
    obtain ⟨r', hr', he⟩ := exists_mem_firstBy (f := id) h
    rwa [show r' = r from he] at hr'

end

end Relational
