import PgQueue.Relational.Table

/-!
# Two tables and a foreign key with `ON DELETE CASCADE`

`Linked` is a parent table and a child table whose key contains a reference `ref` to a parent; the
reference always resolves, so that a join finds a parent for every child.

* `insertParents`   `INSERT .. ON CONFLICT DO NOTHING` into the parent table;
* `insertChildren`  the same into the child table; `none` is a foreign-key violation;
* `updateChildren`, `deleteChildren`;
* `deleteParents`   the children of the deleted parents go with them;
* `parentOf`        the parent of a child.
-/

set_option linter.unusedSectionVars false
set_option linter.unusedVariables false

namespace Relational
open List

/-- parents `ρ` under keys `κ`, children `σ` under keys `ι` -/
structure Linked (ρ κ σ ι : Type) [DecidableEq κ] (key : ρ → κ) (ckey : σ → ι) (ref : ι → κ) where
  parents : Table ρ κ key
  children : Table σ ι ckey
  linked : ∀ c ∈ children.rows, (parents.find? (ref (ckey c))).isSome

namespace Linked

section
variable {ρ κ σ ι : Type} {key : ρ → κ} {ckey : σ → ι} {ref : ι → κ} [DecidableEq κ] [DecidableEq ι]

/-! ## statements -/

def empty : Linked ρ κ σ ι key ckey ref := ⟨Table.empty, Table.empty, nofun⟩

theorem isSome_insertAll {t : Table ρ κ key} {rs : List ρ} {k : κ} (h : (t.find? k).isSome) :
    ((t.insertAll rs).find? k).isSome := by
  rw [Table.find?_insertAll, Option.isSome_or, h]
  rfl

def insertParents (t : Linked ρ κ σ ι key ckey ref) (rs : List ρ) : Linked ρ κ σ ι key ckey ref :=
  ⟨t.parents.insertAll rs, t.children, fun c hc => isSome_insertAll (t.linked c hc)⟩

def Resolves (t : Linked ρ κ σ ι key ckey ref) (cs : List σ) : Prop :=
  ∀ c ∈ cs, (t.parents.find? (ref (ckey c))).isSome

instance (t : Linked ρ κ σ ι key ckey ref) (cs : List σ) : Decidable (t.Resolves cs) :=
  inferInstanceAs (Decidable (∀ c ∈ cs, (t.parents.find? (ref (ckey c))).isSome))

def insertChildren (t : Linked ρ κ σ ι key ckey ref) (cs : List σ) :
    Option (Linked ρ κ σ ι key ckey ref) :=
  if h : t.Resolves cs then
    some ⟨t.parents, t.children.insertAll cs, fun c hc =>
      (Table.mem_insertAll hc).elim (fun hc => t.linked c hc) (fun hc => h c hc)⟩
  else none

variable {t u : Linked ρ κ σ ι key ckey ref} {c : σ} {cs : List σ}

theorem linked_update {p : σ → Bool} {f : σ → σ} {hf : ∀ c, ckey (f c) = ckey c}
    (hc : c ∈ (t.children.update p f hf).rows) : (t.parents.find? (ref (ckey c))).isSome := by
  rw [Table.rows_update] at hc
  obtain ⟨x, hx, rfl⟩ := mem_map.mp hc
  have hk : ckey (if p x then f x else x) = ckey x := by
    split
    · exact hf x
    · rfl
  rw [hk]
  exact t.linked x hx

def updateChildren (t : Linked ρ κ σ ι key ckey ref) (p : σ → Bool) (f : σ → σ)
    (hf : ∀ c, ckey (f c) = ckey c) : Linked ρ κ σ ι key ckey ref :=
  ⟨t.parents, t.children.update p f hf, fun c hc => linked_update hc⟩

def deleteChildren (t : Linked ρ κ σ ι key ckey ref) (p : σ → Bool) :
    Linked ρ κ σ ι key ckey ref :=
  ⟨t.parents, t.children.delete p, fun c hc => t.linked c (mem_filter.mp hc).1⟩

def parentIs (t : Linked ρ κ σ ι key ckey ref) (p : ρ → Bool) (c : σ) : Bool :=
  (t.parents.find? (ref (ckey c))).any p

theorem linked_cascade {p : ρ → Bool} (hc : c ∈ (t.children.delete (t.parentIs p)).rows) :
    ((t.parents.delete p).find? (ref (ckey c))).isSome := by
  obtain ⟨hc, hp⟩ := mem_filter.mp hc
  obtain ⟨r, hr⟩ := Option.isSome_iff_exists.mp (t.linked c hc)
  unfold parentIs at hp
  rw [hr, Option.any_some, Bool.not_eq_true'] at hp
  rw [Table.find?_delete, hr, Option.bind_some, hp]
  rfl

def deleteParents (t : Linked ρ κ σ ι key ckey ref) (p : ρ → Bool) : Linked ρ κ σ ι key ckey ref :=
  ⟨t.parents.delete p, t.children.delete (t.parentIs p), fun c hc => linked_cascade hc⟩

/-! ## the parent of a child -/

def parentOf (t : Linked ρ κ σ ι key ckey ref) (c : σ) : Option ρ := t.parents.find? (ref (ckey c))

theorem exists_parentOf (t : Linked ρ κ σ ι key ckey ref) (hc : c ∈ t.children.rows) :
    ∃ r, t.parentOf c = some r := Option.isSome_iff_exists.mp (t.linked c hc)

theorem insertChildren_of_resolves (h : t.Resolves cs) :
    ∃ u, t.insertChildren cs = some u ∧ u.parents = t.parents ∧
      u.children = t.children.insertAll cs := by
  unfold insertChildren
  rw [dif_pos h]
  exact ⟨_, rfl, rfl, rfl⟩

theorem insertChildren_eq_some (h : t.insertChildren cs = some u) :
    u.parents = t.parents ∧ u.children = t.children.insertAll cs := by
  unfold insertChildren at h
  split at h
  · cases h
    exact ⟨rfl, rfl⟩
  · cases h

@[ext] theorem ext (hp : t.parents = u.parents) (hc : t.children = u.children) : t = u := by
  cases t
  cases u
  cases hp
  cases hc
  rfl

theorem insertChildren_append (t : Linked ρ κ σ ι key ckey ref) (cs ds : List σ) :
    t.insertChildren (cs ++ ds) = (t.insertChildren cs).bind fun u => u.insertChildren ds := by
  have happ : t.Resolves (cs ++ ds) ↔ t.Resolves cs ∧ t.Resolves ds := forall_mem_append
  by_cases hc : t.Resolves cs
  · obtain ⟨u, hu, hp, hch⟩ := insertChildren_of_resolves hc
    rw [hu, Option.bind_some]
    have hds : u.Resolves ds ↔ t.Resolves ds := by
      unfold Resolves
      rw [hp]
    by_cases hd : t.Resolves ds
    · obtain ⟨v, hv, hvp, hvc⟩ := insertChildren_of_resolves (happ.mpr ⟨hc, hd⟩)
      obtain ⟨w, hw, hwp, hwc⟩ := insertChildren_of_resolves (hds.mpr hd)
      rw [hv, hw]
      refine congrArg some (ext ?_ ?_)
      · rw [hvp, hwp, hp]
      · rw [hvc, hwc, hch, Table.insertAll_append]
    · unfold insertChildren
      rw [dif_neg (fun h => hd (happ.mp h).2), dif_neg (fun h => hd (hds.mp h))]
  · unfold insertChildren
    rw [dif_neg (fun h => hc (happ.mp h).1), dif_neg hc]
    rfl

theorem insertChildren_insertParents (rs : List ρ) (h : t.insertChildren cs = some u) :
    (t.insertParents rs).insertChildren cs = some (u.insertParents rs) := by
  obtain ⟨hp, hc⟩ := insertChildren_eq_some h
  have hr : t.Resolves cs := by
    by_contra hn
    unfold insertChildren at h
    rw [dif_neg hn] at h
    cases h
  obtain ⟨v, hv, hvp, hvc⟩ := insertChildren_of_resolves (t := t.insertParents rs)
    (fun c hm => isSome_insertAll (hr c hm))
  rw [hv]
  refine congrArg some (ext ?_ ?_)
  · rw [hvp]
    show t.parents.insertAll rs = u.parents.insertAll rs
    rw [hp]
  · rw [hvc]
    exact hc.symm

/-! ## the cascade -/

section
variable {t : Linked ρ κ σ ι key ckey ref} {p q : ρ → Bool} {c : σ}

theorem parentIs_of_parentOf {r : ρ} (h : t.parentOf c = some r) : t.parentIs p c = p r := by
  have hfind : t.parents.find? (ref (ckey c)) = some r := h
  unfold parentIs
  rw [hfind, Option.any_some]

theorem parentIs_deleteParents (hc : c ∈ t.children.rows) (hp : t.parentIs p c = false) :
    (t.deleteParents p).parentIs q c = t.parentIs q c := by
  obtain ⟨r, hr⟩ := t.exists_parentOf hc
  rw [parentIs_of_parentOf hr] at hp
  have hfind : t.parents.find? (ref (ckey c)) = some r := hr
  have hkept : (t.deleteParents p).parentOf c = some r := by
    show (t.parents.delete p).find? _ = _
    rw [Table.find?_delete, hfind, Option.bind_some, hp]
    rfl
  rw [parentIs_of_parentOf hkept, parentIs_of_parentOf hr]

theorem deleteParents_deleteParents (t : Linked ρ κ σ ι key ckey ref) (p q : ρ → Bool) :
    (t.deleteParents p).deleteParents q = t.deleteParents fun r => p r || q r := by
  refine ext (Table.ext ?_) (Table.ext ?_)
  · show (t.parents.rows.filter _).filter _ = t.parents.rows.filter _
    rw [filter_filter]
    refine filter_congr fun r _ => ?_
    rw [Bool.not_or, Bool.and_comm]
  · show (t.children.rows.filter _).filter _ = t.children.rows.filter _
    rw [filter_filter]
    refine filter_congr fun c hc => ?_
    obtain ⟨r, hr⟩ := t.exists_parentOf hc
    have hboth : t.parentIs (fun r => p r || q r) c = (t.parentIs p c || t.parentIs q c) := by
      rw [parentIs_of_parentOf hr, parentIs_of_parentOf hr, parentIs_of_parentOf hr]
    rw [hboth]
    cases hp : t.parentIs p c with
    | true => exact Bool.and_false _
    | false =>
      rw [parentIs_deleteParents hc hp]
      exact Bool.and_true _

theorem deleteParents_congr (h : ∀ r ∈ t.parents.rows, p r = q r) :
    t.deleteParents p = t.deleteParents q := by
  refine ext (Table.ext (filter_congr fun r hr => congrArg not (h r hr)))
    (Table.ext (filter_congr fun c hc => congrArg not ?_))
  obtain ⟨r, hr⟩ := t.exists_parentOf hc
  rw [parentIs_of_parentOf hr, parentIs_of_parentOf hr, h r (Table.mem_of_find? hr)]

theorem any_deleteParents {r : ρ} (hr : r ∈ t.parents.rows) (hp : p r = false) {f : σ → Bool}
    (hf : ∀ c, f c = true → ref (ckey c) = key r) :
    (t.deleteParents p).children.rows.any f = t.children.rows.any f := by
  rw [Bool.eq_iff_iff, any_eq_true, any_eq_true]
  refine exists_congr fun c => and_congr_left fun hfc => ?_
  have hparent : t.parentOf c = some r := by
    unfold parentOf
    rw [hf c hfc]
    exact Table.find?_of_mem hr
  show c ∈ t.children.rows.filter _ ↔ _
  rw [mem_filter, parentIs_of_parentOf hparent, hp]
  exact and_iff_left rfl

end

end
end Linked
end Relational
