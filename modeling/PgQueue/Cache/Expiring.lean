import Mathlib.Data.List.Perm.Basic
import Mathlib.Data.List.Nodup

/-!
# A bounded map whose entries expire

* `Expiring κ ν`   the entries, one for a key; their order means nothing;
* `get`, `set`, `invalidate`, `sweep`, `evict`   the operations, for a lifetime `ttl` and a capacity `cap`;
* `entries_get`, `entries_evict`   what an operation leaves was there before, and `mem_set`: a `set` adds
                   the one entry;
* `evict_cases`    an `evict` drops what is expired, or an entry that was stored first;
* `length_set_le`  **so a `set` keeps the capacity.**

A loop over the entries takes them in any order, so `set` is given the order in which `evict` visits them.
-/

set_option linter.unusedSectionVars false

namespace Cache
open List

structure Entry (κ ν : Type) where
  key : κ
  value : ν
  storedAt : Int
deriving DecidableEq, Repr

structure Expiring (κ ν : Type) where
  entries : List (Entry κ ν)
  distinct : (entries.map Entry.key).Nodup

namespace Expiring
variable {κ ν : Type} [DecidableEq κ]

def empty : Expiring κ ν := ⟨[], nodup_nil⟩

def lookup (c : Expiring κ ν) (k : κ) : Option (Entry κ ν) := c.entries.find? fun e => e.key = k

def drop (c : Expiring κ ν) (p : Entry κ ν → Bool) : Expiring κ ν :=
  ⟨c.entries.filter fun e => !p e, (filter_sublist.map Entry.key).nodup c.distinct⟩

def invalidate (c : Expiring κ ν) (k : κ) : Expiring κ ν := c.drop fun e => e.key = k

def expired (ttl now : Int) (e : Entry κ ν) : Bool := now - e.storedAt > ttl

def get (c : Expiring κ ν) (ttl now : Int) (k : κ) : Option ν × Expiring κ ν :=
  match c.lookup k with
  | none => (none, c)
  | some e => if expired ttl now e then (none, c.invalidate k) else (some e.value, c)

def sweep (c : Expiring κ ν) (ttl now : Int) : Expiring κ ν := c.drop (expired ttl now)

/-- the loop over the entries that keeps the oldest so far -/
def oldest (visit : List (Entry κ ν)) : Option (Entry κ ν) :=
  visit.foldl (fun found e =>
    match found with
    | none => some e
    | some x => if e.storedAt < x.storedAt then some e else some x) none

/-- what is expired goes; if nothing is, the oldest does -/
def evict (c : Expiring κ ν) (ttl now : Int) (visit : List (Entry κ ν)) : Expiring κ ν :=
  if (c.sweep ttl now).entries.length < c.entries.length then c.sweep ttl now
  else
    match oldest visit with
    | none => c.sweep ttl now
    | some e => (c.sweep ttl now).invalidate e.key

theorem notMem_invalidate (c : Expiring κ ν) (k : κ) : k ∉ (c.invalidate k).entries.map Entry.key := by
  intro h
  obtain ⟨e, he, hk⟩ := mem_map.mp h
  have hne := (mem_filter.mp he).2
  simp [hk] at hne

/-- `map[k] = v`: the entry of the key, if there is one, is overwritten -/
def store (c : Expiring κ ν) (now : Int) (k : κ) (v : ν) : Expiring κ ν :=
  ⟨⟨k, v, now⟩ :: (c.invalidate k).entries,
    nodup_cons.mpr ⟨c.notMem_invalidate k, (c.invalidate k).distinct⟩⟩

/-- only a new key at capacity evicts; the clock is read again for the entry -/
def set (c : Expiring κ ν) (ttl : Int) (cap : Nat) (evictAt : Int) (visit : List (Entry κ ν)) (now : Int)
    (k : κ) (v : ν) : Expiring κ ν :=
  if (c.lookup k).isNone ∧ c.entries.length ≥ cap then (c.evict ttl evictAt visit).store now k v
  else c.store now k v

section
variable {c : Expiring κ ν} {ttl now evictAt : Int} {visit : List (Entry κ ν)} {k : κ} {v : ν}
  {e : Entry κ ν} {cap : Nat} {p : Entry κ ν → Bool}

theorem entries_drop (p : Entry κ ν → Bool) : (c.drop p).entries ⊆ c.entries := filter_subset_self _

theorem mem_drop : e ∈ (c.drop p).entries ↔ e ∈ c.entries ∧ p e = false := by
  unfold drop
  rw [mem_filter, Bool.not_eq_true']

theorem length_drop_lt (he : e ∈ c.entries) (hp : p e = true) :
    (c.drop p).entries.length < c.entries.length :=
  length_filter_lt_length_iff_exists.mpr ⟨e, he, by simp [hp]⟩

theorem length_drop_le (p : Entry κ ν → Bool) : (c.drop p).entries.length ≤ c.entries.length :=
  length_filter_le _ _

theorem lookup_eq_some : c.lookup k = some e ↔ e ∈ c.entries ∧ e.key = k := by
  unfold lookup
  constructor
  · intro h
    exact ⟨mem_of_find?_eq_some h, by simpa using find?_some h⟩
  · rintro ⟨he, rfl⟩
    cases hf : c.entries.find? fun x => x.key = e.key with
    | none => exact absurd (find?_eq_none.mp hf e he) (by simp)
    | some x =>
      have hkey : x.key = e.key := by simpa using find?_some hf
      rw [inj_on_of_nodup_map c.distinct (mem_of_find?_eq_some hf) he hkey]

theorem key_ne_of_mem_invalidate (h : e ∈ (c.invalidate k).entries) : e.key ≠ k := by
  rintro rfl
  exact c.notMem_invalidate e.key (mem_map_of_mem h)

theorem get_snd (c : Expiring κ ν) (ttl now : Int) (k : κ) :
    (c.get ttl now k).2 = c ∨ (c.get ttl now k).2 = c.invalidate k := by
  unfold get
  split
  · exact Or.inl rfl
  · split
    · exact Or.inr rfl
    · exact Or.inl rfl

theorem entries_get : (c.get ttl now k).2.entries ⊆ c.entries := by
  rcases get_snd c ttl now k with h | h
  · rw [h]
    exact List.Subset.refl _
  · rw [h]
    exact entries_drop _

theorem entries_evict : (c.evict ttl now visit).entries ⊆ c.entries := by
  unfold evict
  split
  · exact entries_drop _
  · split
    · exact entries_drop _
    · exact List.Subset.trans (entries_drop _) (entries_drop _)

theorem mem_store (h : e ∈ (c.store now k v).entries) : e ∈ c.entries ∧ e.key ≠ k ∨ e = ⟨k, v, now⟩ := by
  rcases mem_cons.mp h with rfl | h
  · exact Or.inr rfl
  · exact Or.inl ⟨entries_drop _ h, key_ne_of_mem_invalidate h⟩

theorem mem_store_of_ne (he : e ∈ c.entries) (hne : e.key ≠ k) : e ∈ (c.store now k v).entries :=
  mem_cons_of_mem _ (mem_drop.mpr ⟨he, decide_eq_false hne⟩)

theorem mem_set (h : e ∈ (c.set ttl cap evictAt visit now k v).entries) :
    e ∈ c.entries ∧ e.key ≠ k ∨ e = ⟨k, v, now⟩ := by
  unfold set at h
  split at h
  · exact (mem_store h).imp_left fun h => ⟨entries_evict h.1, h.2⟩
  · exact mem_store h

theorem mem_set_self : ⟨k, v, now⟩ ∈ (c.set ttl cap evictAt visit now k v).entries := by
  unfold set
  split
  · exact mem_cons_self
  · exact mem_cons_self

theorem lookup_eq_none : c.lookup k = none ↔ ∀ e ∈ c.entries, e.key ≠ k := by
  unfold lookup
  rw [find?_eq_none]
  simp only [decide_eq_true_eq]

theorem get_of_lookup_eq_none (h : c.lookup k = none) : c.get ttl now k = (none, c) := by
  unfold get
  rw [h]

theorem get_eq_some (h : (c.get ttl now k).1 = some v) :
    ∃ e ∈ c.entries, e.key = k ∧ e.value = v ∧ expired ttl now e = false := by
  unfold get at h
  split at h
  · cases h
  · rename_i e hl
    obtain ⟨he, hk⟩ := lookup_eq_some.mp hl
    split at h
    · cases h
    · rename_i hlive
      exact ⟨e, he, hk, Option.some.inj h, Bool.eq_false_iff.mpr hlive⟩

theorem mem_get (he : e ∈ c.entries) (hlive : expired ttl now e = false) :
    e ∈ (c.get ttl now k).2.entries := by
  unfold get
  split
  · exact he
  · rename_i x hl
    split
    · rename_i hexp
      refine mem_drop.mpr ⟨he, decide_eq_false ?_⟩
      rintro rfl
      obtain rfl := Option.some.inj (hl.symm.trans (lookup_eq_some.mpr ⟨he, rfl⟩))
      exact absurd hexp (Bool.eq_false_iff.mp hlive)
    · exact he

/-! ## the capacity -/

/-- the loop ends with an entry that no visited one is older than -/
theorem foldl_oldest (visit : List (Entry κ ν)) (x : Entry κ ν) :
    ∃ y, visit.foldl (fun found e =>
        match found with
        | none => some e
        | some x => if e.storedAt < x.storedAt then some e else some x) (some x) = some y ∧
      y ∈ x :: visit ∧ ∀ z ∈ x :: visit, y.storedAt ≤ z.storedAt := by
  induction visit generalizing x with
  | nil => exact ⟨x, rfl, mem_singleton_self x, fun z hz => mem_singleton.mp hz ▸ Int.le_refl _⟩
  | cons e visit ih =>
    rw [foldl_cons]
    dsimp only
    by_cases hlt : e.storedAt < x.storedAt
    · rw [if_pos hlt]
      obtain ⟨y, hy, hmem, hle⟩ := ih e
      refine ⟨y, hy, mem_cons_of_mem _ hmem, forall_mem_cons.mpr ⟨?_, hle⟩⟩
      exact Int.le_trans (hle e mem_cons_self) (Int.le_of_lt hlt)
    · rw [if_neg hlt]
      obtain ⟨y, hy, hmem, hle⟩ := ih x
      obtain ⟨hx, hvisit⟩ := forall_mem_cons.mp hle
      refine ⟨y, hy, ?_, forall_mem_cons.mpr ⟨hx, forall_mem_cons.mpr ⟨?_, hvisit⟩⟩⟩
      · rcases mem_cons.mp hmem with rfl | hmem
        · exact mem_cons_self
        · exact mem_cons_of_mem _ (mem_cons_of_mem _ hmem)
      · exact Int.le_trans hx (Int.not_lt.mp hlt)

theorem exists_oldest (h : visit ≠ []) :
    ∃ y, oldest visit = some y ∧ y ∈ visit ∧ ∀ z ∈ visit, y.storedAt ≤ z.storedAt := by
  cases visit with
  | nil => exact absurd rfl h
  | cons x visit => exact foldl_oldest visit x

theorem evict_cases (hvisit : visit.Perm c.entries) (hne : c.entries ≠ []) :
    ((∃ x ∈ c.entries, expired ttl now x = true) ∧ c.evict ttl now visit = c.sweep ttl now) ∨
      (∀ x ∈ c.entries, expired ttl now x = false) ∧ ∃ y ∈ c.entries,
        (∀ x ∈ c.entries, y.storedAt ≤ x.storedAt) ∧
        c.evict ttl now visit = (c.sweep ttl now).invalidate y.key := by
  by_cases hexp : ∃ x ∈ c.entries, expired ttl now x = true
  · obtain ⟨x, hx, hp⟩ := hexp
    have hlt : (c.sweep ttl now).entries.length < c.entries.length := length_drop_lt hx hp
    refine Or.inl ⟨⟨x, hx, hp⟩, ?_⟩
    unfold evict
    rw [if_pos hlt]
  · have hlive : ∀ x ∈ c.entries, expired ttl now x = false :=
      fun x hx => Bool.eq_false_iff.mpr fun hp => hexp ⟨x, hx, hp⟩
    have hkeep : (c.sweep ttl now).entries = c.entries :=
      filter_eq_self.mpr fun x hx => by rw [hlive x hx]; rfl
    have hvisited : visit ≠ [] := by
      rintro rfl
      exact hne hvisit.nil_eq.symm
    obtain ⟨y, hy, hmem, hle⟩ := exists_oldest hvisited
    refine Or.inr ⟨hlive, y, hvisit.mem_iff.mp hmem, fun x hx => hle x (hvisit.mem_iff.mpr hx), ?_⟩
    unfold evict
    rw [hkeep, if_neg (Nat.lt_irrefl _), hy]

theorem length_evict_lt (hvisit : visit.Perm c.entries) (hne : c.entries ≠ []) :
    (c.evict ttl now visit).entries.length < c.entries.length := by
  rcases evict_cases hvisit hne with ⟨⟨x, hx, hp⟩, he⟩ | ⟨hlive, y, hy, -, he⟩
  · rw [he]
    exact length_drop_lt hx hp
  · rw [he]
    have hswept : y ∈ (c.sweep ttl now).entries := mem_drop.mpr ⟨hy, hlive y hy⟩
    exact Nat.lt_of_lt_of_le (length_drop_lt hswept (decide_eq_true rfl)) (length_drop_le _)

theorem length_store_le : (c.store now k v).entries.length ≤ c.entries.length + 1 :=
  Nat.succ_le_succ (length_drop_le _)

/-- **A `set` keeps the capacity.** -/
theorem length_set_le (hcap : 0 < cap) (hlen : c.entries.length ≤ cap) (hvisit : visit.Perm c.entries) :
    (c.set ttl cap evictAt visit now k v).entries.length ≤ cap := by
  unfold set
  split
  · rename_i hfull
    have hne : c.entries ≠ [] := ne_nil_of_length_pos (Nat.lt_of_lt_of_le hcap hfull.2)
    have hroom : (c.evict ttl evictAt visit).entries.length < c.entries.length :=
      length_evict_lt hvisit hne
    exact Nat.le_trans length_store_le (Nat.le_trans hroom hlen)
  · rename_i hroom
    cases hl : c.lookup k with
    | none =>
      rw [hl] at hroom
      have hlt : c.entries.length < cap := Nat.lt_of_not_le fun h => hroom ⟨rfl, h⟩
      exact Nat.le_trans length_store_le hlt
    | some x =>
      -- the entry of the key makes room for the new one
      obtain ⟨hx, hk⟩ := lookup_eq_some.mp hl
      exact Nat.le_trans (length_drop_lt hx (decide_eq_true hk)) hlen

theorem mem_set_of_ne (hvisit : visit.Perm c.entries) (he : e ∈ c.entries)
    (hlive : expired ttl evictAt e = false) (hne : e.key ≠ k) :
    e ∈ (c.set ttl cap evictAt visit now k v).entries ∨
      c.lookup k = none ∧ cap ≤ c.entries.length ∧ (∀ x ∈ c.entries, expired ttl evictAt x = false) ∧
        ∀ x ∈ c.entries, e.storedAt ≤ x.storedAt := by
  unfold set
  split
  · rename_i hfull
    rcases evict_cases hvisit (ne_nil_of_mem he) with ⟨-, hev⟩ | ⟨hall, y, hy, hle, hev⟩
    · rw [hev]
      exact Or.inl (mem_store_of_ne (mem_drop.mpr ⟨he, hlive⟩) hne)
    · by_cases hkey : e.key = y.key
      · obtain rfl := inj_on_of_nodup_map c.distinct he hy hkey
        exact Or.inr ⟨Option.isNone_iff_eq_none.mp hfull.1, hfull.2, hall, hle⟩
      · rw [hev]
        have hswept : e ∈ (c.sweep ttl evictAt).entries := mem_drop.mpr ⟨he, hlive⟩
        exact Or.inl (mem_store_of_ne (mem_drop.mpr ⟨hswept, decide_eq_false hkey⟩) hne)
  · exact Or.inl (mem_store_of_ne he hne)

end
end Expiring
end Cache
