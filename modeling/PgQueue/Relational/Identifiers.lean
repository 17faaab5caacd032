import Mathlib.Data.String.Basic
import PgQueue.Relational.Schema

/-!
# Identifiers

The database cuts an identifier that is too long, so two names can become one.  A family of names with a
fixed head and tail around a body can be told apart if no tail ends in another one.

* `truncateIdentifier`   an identifier of at most 63 bytes is kept;
* `affixed`, `Separable`   **a name of a separable family has one head, one body and one tail**
                         (`Separable.inj`);
* `indexesOf`            the names in the `CREATE INDEX` statements of a script;
* `names_execAll`        a script without tables adds no other names.
-/

namespace Relational
open List

/-! ## what is cut -/

/-- the whole characters within the first `n` bytes -/
def takeBytes : Nat → List Char → List Char
  | _, [] => []
  | n, c :: cs => if c.utf8Size ≤ n then c :: takeBytes (n - c.utf8Size) cs else []

def truncateIdentifier (name : String) : String :=
  String.ofList (takeBytes maxIdentifierLength name.toList)

theorem takeBytes_of_le {n : Nat} {cs : List Char} (h : (String.ofList cs).utf8ByteSize ≤ n) :
    takeBytes n cs = cs := by
  induction cs generalizing n with
  | nil => rfl
  | cons c cs ih =>
    rw [String.ofList_cons, String.utf8ByteSize_append, String.utf8ByteSize_singleton] at h
    rw [takeBytes, if_pos (Nat.le_trans (Nat.le_add_right _ _) h), ih (by omega)]

theorem truncateIdentifier_of_le {name : String} (h : name.utf8ByteSize ≤ maxIdentifierLength) :
    truncateIdentifier name = name := by
  unfold truncateIdentifier
  rw [takeBytes_of_le (String.ofList_toList.symm ▸ h), String.ofList_toList]

theorem utf8ByteSize_ascii {cs : List Char} (h : ∀ c ∈ cs, c.utf8Size = 1) :
    (String.ofList cs).utf8ByteSize = cs.length := by
  induction cs with
  | nil => rfl
  | cons c cs ih =>
    rw [String.ofList_cons, String.utf8ByteSize_append, String.utf8ByteSize_singleton,
      h c mem_cons_self, ih fun x hx => h x (mem_cons_of_mem _ hx), length_cons, Nat.add_comm]

/-! ## heads and tails -/

def affixed (affix : String × String) (body : String) : String := affix.1 ++ body ++ affix.2

/-- the heads have one length, and no tail ends in another tail of its head -/
structure Separable (n : Nat) (affixes : List (String × String)) : Prop where
  heads : ∀ p ∈ affixes, p.1.toList.length = n
  tails : ∀ p ∈ affixes, ∀ q ∈ affixes, p.1 = q.1 → p.2.toList <:+ q.2.toList → p.2 = q.2

section
variable {n : Nat} {affixes : List (String × String)} {p q : String × String} {t t' : String}

theorem toList_affixed : (affixed p t).toList = p.1.toList ++ (t.toList ++ p.2.toList) := by
  unfold affixed
  rw [String.toList_append, String.toList_append, append_assoc]

theorem Separable.inj (h : Separable n affixes) (hp : p ∈ affixes) (hq : q ∈ affixes)
    (he : affixed p t = affixed q t') : p = q ∧ t = t' := by
  have he := congrArg String.toList he
  rw [toList_affixed, toList_affixed] at he
  obtain ⟨hhead, he⟩ := append_inj he ((h.heads p hp).trans (h.heads q hq).symm)
  have hhead : p.1 = q.1 := String.toList_inj.mp hhead
  -- both tails end the same text, so the shorter one ends the longer one
  have htail : p.2 = q.2 := by
    have hps : p.2.toList <:+ t.toList ++ p.2.toList := suffix_append _ _
    have hqs : q.2.toList <:+ t.toList ++ p.2.toList := he ▸ suffix_append _ _
    rcases Nat.le_total p.2.toList.length q.2.toList.length with hle | hle
    · exact h.tails p hp q hq hhead (suffix_of_suffix_length_le hps hqs hle)
    · exact (h.tails q hq p hp hhead.symm (suffix_of_suffix_length_le hqs hps hle)).symm
  rw [htail] at he
  exact ⟨Prod.ext hhead htail, String.toList_inj.mp (append_cancel_right he)⟩

theorem Separable.nodup {ps : List (String × String)} (h : Separable n affixes) (hps : ps ⊆ affixes)
    (hnodup : ps.Nodup) (t : String) : (ps.map fun p => affixed p t).Nodup :=
  Nodup.map_on (fun _ hp _ hq he => (h.inj (hps hp) (hps hq) he).1) hnodup

theorem Separable.disjoint {ps qs : List (String × String)} (h : Separable n affixes) (hps : ps ⊆ affixes)
    (hqs : qs ⊆ affixes) (hne : t ≠ t') :
    (ps.map fun p => affixed p t).Disjoint (qs.map fun q => affixed q t') := by
  intro name hname hname'
  obtain ⟨p, hp, rfl⟩ := mem_map.mp hname
  obtain ⟨q, hq, he⟩ := mem_map.mp hname'
  exact hne (h.inj (hqs hq) (hps hp) he).2.symm

end

/-! ## the indexes of a script -/

def Statement.index? : Statement → Option String
  | .createTable _ _ => none
  | .createIndex name _ => some name

def indexesOf (sts : List Statement) : List String := sts.filterMap Statement.index?

def indexStatements (sts : List Statement) : List Statement := sts.filter fun st => st.index?.isSome

theorem tablesOf_indexStatements (sts : List Statement) : tablesOf (indexStatements sts) = [] := by
  refine filterMap_eq_nil_iff.mpr fun st hst => ?_
  cases st with
  | createTable T keys => cases (mem_filter.mp hst).2
  | createIndex name on => rfl

theorem names_execAll {naming : Naming} {R R' : Schema} {sts : List Statement} {n : String}
    (hs : Schema.execAll naming R (indexStatements sts) = some R') (hn : n ∈ R'.names) :
    n ∈ R.names ∨ n ∈ indexesOf sts := by
  obtain ⟨r, hr, rfl⟩ := mem_map.mp hn
  rcases mem_execAll hs hr with hr | ⟨-, hr⟩ | ⟨-, st, hst, hi⟩
  · exact Or.inl (mem_map_of_mem hr)
  · rw [tablesOf_indexStatements] at hr
    cases hr
  · obtain ⟨hmem, hindex⟩ := mem_filter.mp hst
    cases st with
    | createTable T keys => cases hindex
    | createIndex name on => exact Or.inr (mem_filterMap.mpr ⟨_, hmem, congrArg some hi.symm⟩)

end Relational
