import Mathlib.Data.List.Induction
import PgQueue.Cache.Expiring

/-!
# Histories of a bounded map whose entries expire

* `Op`                  an operation, with the times at which it looks at the clock;
* `Expiring.run`        operations one after another;
* `Clocked`             the clock does not go back;
* `MostRecent`          what the last `set` of a key stored, if the key was not invalidated since;
* `mostRecent_of_mem`   **an entry is what the last `set` of its key stored;**
* `length_run_le`       **the capacity is kept;**
* `fate`                **an entry within its lifetime is taken out by an operation on its key, or it is
                        evicted from a full map of live entries, as one that was stored first.**
-/

namespace Cache
open List

/-- the order in which a loop visits the entries of a map: any -/
structure Visits (κ ν : Type) where
  order : List (Entry κ ν) → List (Entry κ ν)
  perm : ∀ l, (order l).Perm l

/-- one operation; `set` looks at the clock twice if it evicts, `invalidate` does not look at it -/
inductive Op (κ ν : Type) where
  | get (now : Int) (k : κ)
  | set (evictAt : Int) (visits : Visits κ ν) (now : Int) (k : κ) (v : ν)
  | invalidate (now : Int) (k : κ)
  | sweep (now : Int)

section
variable {κ ν : Type}

def Op.times : Op κ ν → List Int
  | .get now _ => [now]
  | .set evictAt _ now _ _ => [evictAt, now]
  | .invalidate now _ => [now]
  | .sweep now => [now]

def Clocked (ops : List (Op κ ν)) : Prop := (ops.flatMap Op.times).Pairwise (· ≤ ·)

def Op.touches (k : κ) : Op κ ν → Prop
  | .set _ _ _ k' _ => k' = k
  | .invalidate _ k' => k' = k
  | .get _ _ => False
  | .sweep _ => False

/-- the last `set` of `k` stored `v` at the time `t`, and `k` was not invalidated since -/
def MostRecent (ops : List (Op κ ν)) (k : κ) (v : ν) (t : Int) : Prop :=
  ∃ pre evictAt visits post, ops = pre ++ .set evictAt visits t k v :: post ∧ ∀ op ∈ post, ¬op.touches k

variable {ops pre post : List (Op κ ν)} {op : Op κ ν} {now : Int} {k : κ}

theorem Clocked.left (h : Clocked (pre ++ post)) : Clocked pre := by
  unfold Clocked at h
  rw [flatMap_append] at h
  exact (pairwise_append.mp h).1

theorem Clocked.right (h : Clocked (pre ++ post)) : Clocked post := by
  unfold Clocked at h
  rw [flatMap_append] at h
  exact (pairwise_append.mp h).2.1

theorem Clocked.append {ops' : List (Op κ ν)} (h : Clocked ops)
    (hle : ∀ op ∈ ops, ∀ t ∈ op.times, t ≤ now) (hnow : ∀ op ∈ ops', ∀ t ∈ op.times, t = now) :
    Clocked (ops ++ ops') := by
  unfold Clocked
  rw [flatMap_append]
  refine pairwise_append.mpr ⟨h, pairwise_of_forall_mem_list fun s hs t ht => ?_, fun s hs t ht => ?_⟩
  · obtain ⟨op, hop, hs⟩ := mem_flatMap.mp hs
    obtain ⟨op', hop', ht⟩ := mem_flatMap.mp ht
    exact Int.le_of_eq ((hnow op hop s hs).trans (hnow op' hop' t ht).symm)
  · obtain ⟨op, hop, hs⟩ := mem_flatMap.mp hs
    obtain ⟨op', hop', ht⟩ := mem_flatMap.mp ht
    rw [hnow op' hop' t ht]
    exact hle op hop s hs

theorem Clocked.tail (h : Clocked (op :: ops)) : Clocked ops := by
  unfold Clocked at h
  rw [flatMap_cons] at h
  exact (pairwise_append.mp h).2.1

theorem Clocked.times_head (h : Clocked (op :: ops)) : op.times.Pairwise (· ≤ ·) := by
  unfold Clocked at h
  rw [flatMap_cons] at h
  exact (pairwise_append.mp h).1

theorem Clocked.le_of_mem {t : Int} (h : Clocked (ops ++ [.get now k])) (hop : op ∈ ops)
    (ht : t ∈ op.times) : t ≤ now := by
  unfold Clocked at h
  rw [flatMap_append] at h
  exact (pairwise_append.mp h).2.2 t (mem_flatMap.mpr ⟨op, hop, ht⟩) now mem_cons_self

theorem MostRecent.le {k' : κ} {v : ν} {s : Int} (h : MostRecent ops k v s)
    (hclock : Clocked (ops ++ [.get now k'])) : s ≤ now := by
  obtain ⟨pre, evictAt, visits, post, rfl, -⟩ := h
  exact hclock.le_of_mem (mem_append_right _ mem_cons_self)
    (mem_cons_of_mem _ mem_cons_self)

theorem MostRecent.append {v : ν} {t : Int} (h : MostRecent ops k v t) (hop : ¬op.touches k) :
    MostRecent (ops ++ [op]) k v t := by
  obtain ⟨pre, evictAt, visits, post, rfl, hpost⟩ := h
  refine ⟨pre, evictAt, visits, post ++ [op], by rw [append_assoc, cons_append], ?_⟩
  intro o ho
  rcases mem_append.mp ho with ho | ho
  · exact hpost o ho
  · rw [mem_singleton.mp ho]
    exact hop

end

namespace Expiring
variable {κ ν : Type} [DecidableEq κ]

def apply (ttl : Int) (cap : Nat) (c : Expiring κ ν) : Op κ ν → Expiring κ ν
  | .get now k => (c.get ttl now k).2
  | .set evictAt visits now k v => c.set ttl cap evictAt (visits.order c.entries) now k v
  | .invalidate _ k => c.invalidate k
  | .sweep now => c.sweep ttl now

def run (ttl : Int) (cap : Nat) (c : Expiring κ ν) (ops : List (Op κ ν)) : Expiring κ ν :=
  ops.foldl (apply ttl cap) c

/-- the operation sets a new key of a full map that has no expired entry, and no entry was stored before
`e` -/
def Evicts (ttl : Int) (cap : Nat) (c : Expiring κ ν) (e : Entry κ ν) : Op κ ν → Prop
  | .set evictAt _ _ k _ =>
    c.lookup k = none ∧ c.entries.length = cap ∧ (∀ x ∈ c.entries, expired ttl evictAt x = false) ∧
      ∀ x ∈ c.entries, e.storedAt ≤ x.storedAt
  | _ => False

section
variable {ttl : Int} {cap : Nat} {c : Expiring κ ν} {e : Entry κ ν} {op : Op κ ν} {ops : List (Op κ ν)}

theorem run_append (ops ops' : List (Op κ ν)) :
    c.run ttl cap (ops ++ ops') = (c.run ttl cap ops).run ttl cap ops' := foldl_append

theorem run_concat : c.run ttl cap (ops ++ [op]) = (c.run ttl cap ops).apply ttl cap op :=
  run_append ops [op]

omit [DecidableEq κ] in
theorem expired_eq_false {now : Int} : expired ttl now e = false ↔ now - e.storedAt ≤ ttl := by
  unfold expired
  rw [decide_eq_false_iff_not, Int.not_lt]

/-! ## where an entry comes from -/

theorem mem_apply (h : e ∈ (c.apply ttl cap op).entries) :
    e ∈ c.entries ∧ ¬op.touches e.key ∨
      ∃ evictAt visits, op = .set evictAt visits e.storedAt e.key e.value := by
  cases op with
  | get now k => exact Or.inl ⟨entries_get h, id⟩
  | set evictAt visits now k v =>
    rcases mem_set h with ⟨he, hne⟩ | rfl
    · exact Or.inl ⟨he, hne.symm⟩
    · exact Or.inr ⟨evictAt, visits, rfl⟩
  | invalidate now k => exact Or.inl ⟨entries_drop _ h, (key_ne_of_mem_invalidate h).symm⟩
  | sweep now => exact Or.inl ⟨entries_drop _ h, id⟩

/-- **An entry is what the last `set` of its key stored.** -/
theorem mostRecent_of_mem (h : e ∈ (empty.run ttl cap ops).entries) :
    MostRecent ops e.key e.value e.storedAt := by
  induction ops using List.reverseRecOn with
  | nil => exact absurd h not_mem_nil
  | append_singleton ops op ih =>
    rw [run_concat] at h
    rcases mem_apply h with ⟨he, hop⟩ | ⟨evictAt, visits, rfl⟩
    · exact (ih he).append hop
    · exact ⟨ops, evictAt, visits, [], rfl, fun o ho => absurd ho not_mem_nil⟩

/-! ## how many there are -/

theorem length_apply_le (hcap : 0 < cap) (h : c.entries.length ≤ cap) :
    (c.apply ttl cap op).entries.length ≤ cap := by
  cases op with
  | get now k =>
    show (c.get ttl now k).2.entries.length ≤ cap
    rcases get_snd c ttl now k with hget | hget
    · rw [hget]
      exact h
    · rw [hget]
      exact Nat.le_trans (length_drop_le _) h
  | set evictAt visits now k v => exact length_set_le hcap h (visits.perm _)
  | invalidate | sweep => exact Nat.le_trans (length_drop_le _) h

/-- **The capacity is kept.** -/
theorem length_run_le (hcap : 0 < cap) (h : c.entries.length ≤ cap) :
    (c.run ttl cap ops).entries.length ≤ cap := by
  induction ops using List.reverseRecOn with
  | nil => exact h
  | append_singleton ops op ih =>
    rw [run_concat]
    exact length_apply_le hcap ih

/-! ## how an entry goes -/

/-- **An entry within its lifetime stays, or the operation is on its key, or it is evicted.** -/
theorem fate {t : Int} (hlen : c.entries.length ≤ cap) (hclock : op.times.Pairwise (· ≤ ·))
    (he : e ∈ c.entries) (ht : t ∈ op.times) (hlive : t - e.storedAt ≤ ttl) :
    e ∈ (c.apply ttl cap op).entries ∨ op.touches e.key ∨ c.Evicts ttl cap e op := by
  cases op with
  | get now k =>
    obtain rfl := mem_singleton.mp ht
    exact Or.inl (mem_get he (expired_eq_false.mpr hlive))
  | set evictAt visits now k v =>
    by_cases hk : k = e.key
    · exact Or.inr (Or.inl hk)
    · -- what is alive when the `set` ends was alive when it evicted
      have hle : evictAt ≤ t := by
        rcases mem_cons.mp ht with rfl | ht
        · exact Int.le_refl _
        · exact (pairwise_cons.mp hclock).1 t ht
      have hexp : expired ttl evictAt e = false := expired_eq_false.mpr (by omega)
      rcases mem_set_of_ne (visits.perm _) he hexp (Ne.symm hk) with hmem | ⟨hnew, hfull, hall, hfirst⟩
      · exact Or.inl hmem
      · exact Or.inr (Or.inr ⟨hnew, Nat.le_antisymm hlen hfull, hall, hfirst⟩)
  | invalidate now k =>
    by_cases hk : k = e.key
    · exact Or.inr (Or.inl hk)
    · exact Or.inl (mem_drop.mpr ⟨he, decide_eq_false (Ne.symm hk)⟩)
  | sweep now =>
    obtain rfl := mem_singleton.mp ht
    exact Or.inl (mem_drop.mpr ⟨he, expired_eq_false.mpr hlive⟩)

theorem fate_of_lookup_eq_none {t : Int} (hlen : c.entries.length ≤ cap)
    (hclock : op.times.Pairwise (· ≤ ·)) (he : e ∈ c.entries) (ht : t ∈ op.times)
    (hlive : t - e.storedAt ≤ ttl) (hgone : (c.apply ttl cap op).lookup e.key = none) :
    (∃ now, op = .invalidate now e.key) ∨ c.Evicts ttl cap e op := by
  have hnone := lookup_eq_none.mp hgone
  rcases fate hlen hclock he ht hlive with hmem | htouch | hev
  · exact absurd rfl (hnone e hmem)
  · cases op with
    | get | sweep => exact absurd htouch id
    | set evictAt visits now k v => exact absurd htouch (hnone _ mem_set_self)
    | invalidate now k =>
      obtain rfl : k = e.key := htouch
      exact Or.inl ⟨now, rfl⟩
  · exact Or.inr hev

end
end Expiring
end Cache
