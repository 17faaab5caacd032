import PgQueue.Relational.Linked

/-!
# Statements on whole tables, done a page at a time

A `SetOp` is a statement on a whole table: how many rows it hits and the state after it.  A loop does
it in pages, each of them the first rows of those that are due, and stops after a page that is short.

* `loopPages`      the loop; `none` when it has not returned within the pages it is given;
* `Returns`        a loop returns: with enough pages its result is there and stays;
* `Realises`       a loop returns what the statement does, once it has more pages than rows to hit;
* `Due`, `Due.realises`   pages that take the first rows of a list and leave the rest of it;
* `inTurn`         loops one after another, for the statements one after another;
* `insertionSort_drop`    what is due after a page, in any order with distinct places.
-/

namespace Relational
open List

/-! ## loops that return -/

def loopPages {σ : Type} (size : Nat) (page : σ → Nat × σ) : Nat → σ → Option (Nat × σ)
  | 0, _ => none
  | fuel + 1, s =>
    if (page s).1 < size then some (page s)
    else (loopPages size page fuel (page s).2).map fun rest => ((page s).1 + rest.1, rest.2)

def Returns {α : Type} (f : Nat → Option α) (a : α) : Prop := ∃ n, ∀ fuel, n ≤ fuel → f fuel = some a

section
variable {α β : Type} {f : Nat → Option α} {a : α}

theorem Returns.unique {b : α} (h : Returns f a) (h' : Returns f b) : a = b := by
  obtain ⟨n, hn⟩ := h
  obtain ⟨m, hm⟩ := h'
  exact Option.some.inj ((hn _ (Nat.le_max_left n m)).symm.trans (hm _ (Nat.le_max_right n m)))

theorem Returns.bind {g : Nat → α → Option β} {b : β} (hf : Returns f a)
    (hg : Returns (fun fuel => g fuel a) b) : Returns (fun fuel => (f fuel).bind (g fuel)) b := by
  obtain ⟨n, hn⟩ := hf
  obtain ⟨m, hm⟩ := hg
  refine ⟨max n m, fun fuel hfuel => ?_⟩
  show (f fuel).bind (g fuel) = _
  rw [hn fuel (Nat.le_trans (Nat.le_max_left n m) hfuel), Option.bind_some]
  exact hm fuel (Nat.le_trans (Nat.le_max_right n m) hfuel)

theorem Returns.map {g : α → β} (hf : Returns f a) : Returns (fun fuel => (f fuel).map g) (g a) := by
  obtain ⟨n, hn⟩ := hf
  refine ⟨n, fun fuel hfuel => ?_⟩
  show (f fuel).map g = _
  rw [hn fuel hfuel, Option.map_some]

end

/-! ## statements -/

structure SetOp (σ : Type) where
  count : σ → Nat
  apply : σ → σ

namespace SetOp

section
variable {σ : Type}

def nothing : SetOp σ := ⟨fun _ => 0, fun s => s⟩

def andThen (a b : SetOp σ) : SetOp σ := ⟨fun s => a.count s + b.count (a.apply s), fun s => b.apply (a.apply s)⟩

def all (ops : List (SetOp σ)) : SetOp σ := ops.foldr andThen nothing

def when (on : Prop) [Decidable on] (op : SetOp σ) : SetOp σ := if on then op else nothing

variable {I : σ → Prop}

theorem all_keeps {ops : List (SetOp σ)} (h : ∀ op ∈ ops, ∀ s, I s → I (op.apply s)) {s : σ}
    (hs : I s) : I ((all ops).apply s) := by
  induction ops generalizing s with
  | nil => exact hs
  | cons op ops ih =>
    exact ih (fun op' hop => h op' (mem_cons_of_mem _ hop)) (h op mem_cons_self s hs)

theorem when_keeps {on : Prop} [Decidable on] {op : SetOp σ} (h : on → ∀ s, I s → I (op.apply s))
    (s : σ) (hs : I s) : I ((op.when on).apply s) := by
  unfold when
  split
  · exact h ‹_› s hs
  · exact hs

end
end SetOp

section
variable {σ : Type}

/-- a loop returns what the statement does, from every state with `P` -/
structure Realises (P : σ → Prop) (loop : Nat → σ → Option (Nat × σ)) (op : SetOp σ) : Prop where
  within : ∀ s, P s → ∀ fuel, op.count s < fuel → loop fuel s = some (op.count s, op.apply s)
  keeps : ∀ s, P s → P (op.apply s)

def inTurn : List (Nat → σ → Option (Nat × σ)) → Nat → σ → Option (Nat × σ)
  | [], _, s => some (0, s)
  | loop :: loops, fuel, s =>
    (loop fuel s).bind fun done => (inTurn loops fuel done.2).map fun rest => (done.1 + rest.1, rest.2)

variable {P : σ → Prop}

theorem Realises.returns {loop : Nat → σ → Option (Nat × σ)} {op : SetOp σ} (h : Realises P loop op)
    (s : σ) (hs : P s) : Returns (fun fuel => loop fuel s) (op.count s, op.apply s) :=
  ⟨op.count s + 1, h.within s hs⟩

theorem Realises.inTurn {loops : List (Nat → σ → Option (Nat × σ))} {ops : List (SetOp σ)}
    (h : List.Forall₂ (Realises P) loops ops) : Realises P (inTurn loops) (.all ops) := by
  induction h with
  | nil => exact ⟨fun s _ _ _ => rfl, fun s hs => hs⟩
  | cons hloop _ ih =>
    refine ⟨fun s hs fuel hfuel => ?_, fun s hs => ih.keeps _ (hloop.keeps s hs)⟩
    have hfirst := Nat.lt_of_le_of_lt (Nat.le_add_right _ _) hfuel
    have hrest := Nat.lt_of_le_of_lt (Nat.le_add_left _ _) hfuel
    rw [Relational.inTurn, hloop.within s hs fuel hfirst, Option.bind_some,
      ih.within _ (hloop.keeps s hs) fuel hrest]
    rfl

/-! ## pages -/

/-- `due s` is what the loop has still to do, a page takes the first rows of it -/
structure Due {ρ : Type} (P : σ → Prop) (size : Nat) (page : σ → Nat × σ) (due : σ → List ρ)
    (act : List ρ → σ → σ) : Prop where
  page (s : σ) : P s → page s = (((due s).take size).length, act ((due s).take size) s)
  keeps (s : σ) (n : Nat) : P s → P (act ((due s).take n) s)
  left (s : σ) (n : Nat) : P s → due (act ((due s).take n) s) = (due s).drop n
  rest (s : σ) (n : Nat) : P s → act ((due s).drop n) (act ((due s).take n) s) = act (due s) s

variable {ρ : Type} {size : Nat} {page : σ → Nat × σ} {due : σ → List ρ} {act : List ρ → σ → σ}
variable {s : σ} {fuel : Nat}

theorem Due.loopPages (h : Due P size page due act) (hsize : 0 < size) (hs : P s)
    (hfuel : (due s).length < fuel) :
    loopPages size page fuel s = some ((due s).length, act (due s) s) := by
  induction fuel generalizing s with
  | zero => exact absurd hfuel (Nat.not_lt_zero _)
  | succ fuel ih =>
    rw [Relational.loopPages, h.page s hs]
    by_cases hshort : (due s).length < size
    · have hall : (due s).take size = due s := take_of_length_le (Nat.le_of_lt hshort)
      rw [hall, if_pos hshort]
    · have hfull : ((due s).take size).length = size :=
        length_take_of_le (Nat.le_of_not_lt hshort)
      have hleft := h.left s size hs
      have hlen : (due (act ((due s).take size) s)).length = (due s).length - size := by
        rw [hleft, length_drop]
      rw [hfull, if_neg (Nat.lt_irrefl size), ih (h.keeps s size hs) (by omega), hlen, hleft,
        h.rest s size hs, Option.map_some]
      congr 2
      omega

theorem Due.realises (h : Due P size page due act) (hsize : 0 < size) {op : SetOp σ}
    (hcount : ∀ s, P s → op.count s = (due s).length) (happly : ∀ s, P s → op.apply s = act (due s) s) :
    Realises P (Relational.loopPages size page) op := by
  refine ⟨fun s hs fuel hfuel => ?_, fun s hs => ?_⟩
  · rw [hcount s hs] at hfuel ⊢
    rw [happly s hs]
    exact h.loopPages hsize hs hfuel
  · have hkeeps := h.keeps s (due s).length hs
    rwa [take_length, ← happly s hs] at hkeeps

theorem Realises.when {on : Prop} [Decidable on] {op : SetOp σ} (hsize : 0 < size)
    (h : on → Realises P (Relational.loopPages size page) op) :
    Realises P (Relational.loopPages size fun s => if on then page s else (0, s)) (op.when on) := by
  by_cases hon : on
  · simpa only [if_pos hon, SetOp.when] using h hon
  · simp only [if_neg hon, SetOp.when]
    refine ⟨fun s _ fuel hfuel => ?_, fun s hs => hs⟩
    obtain ⟨fuel, rfl⟩ := Nat.exists_eq_succ_of_ne_zero (Nat.ne_of_gt (Nat.zero_lt_of_lt hfuel))
    exact if_pos hsize

end

/-! ## what is due after a page -/

def hits {ρ κ : Type} [DecidableEq κ] (key : ρ → κ) (xs : List ρ) (r : ρ) : Bool :=
  xs.any fun x => decide (key x = key r)

section
variable {ρ κ : Type} [DecidableEq κ] {key : ρ → κ} {l xs ys : List ρ} {r : ρ}

theorem hits_iff (hn : (l.map key).Nodup) (hxs : ∀ x ∈ xs, x ∈ l) (hr : r ∈ l) :
    hits key xs r = true ↔ r ∈ xs := by
  unfold hits
  rw [any_eq_true]
  constructor
  · rintro ⟨x, hx, he⟩
    exact inj_on_of_nodup_map hn (hxs x hx) hr (of_decide_eq_true he) ▸ hx
  · exact fun h => ⟨r, h, decide_eq_true rfl⟩

theorem hits_append : hits key (xs ++ ys) r = (hits key xs r || hits key ys r) := any_append

theorem hits_congr {r' : ρ} (h : key r' = key r) : hits key xs r' = hits key xs r := by
  unfold hits
  rw [h]

theorem hits_of_perm {p : ρ → Bool} (hn : (l.map key).Nodup) (hxs : xs.Perm (l.filter p)) (hr : r ∈ l) :
    hits key xs r = p r := by
  rw [Bool.eq_iff_iff, hits_iff hn (fun x hx => (mem_filter.mp (hxs.subset hx)).1) hr, hxs.mem_iff,
    mem_filter]
  exact and_iff_right hr

theorem filter_hits {p : ρ → Bool} (hn : (l.map key).Nodup) (hxs : xs.Perm (l.filter p)) :
    (l.filter fun r => !hits key xs r) = l.filter fun r => !p r :=
  filter_congr fun _ hr => congrArg not (hits_of_perm hn hxs hr)

variable {le : ρ → ρ → Prop} [DecidableRel le]

theorem insertionSort_drop (hsorted : ∀ l : List ρ, (l.insertionSort le).Pairwise le)
    (hanti : ∀ a b, le a b → le b a → key a = key b) (hn : (l.map key).Nodup) (n : Nat) :
    (l.filter fun r => !hits key ((l.insertionSort le).take n) r).insertionSort le =
      (l.insertionSort le).drop n := by
  have hnd := Nodup.of_map key hn
  have hperm := perm_insertionSort le l
  have hsnd : (l.insertionSort le).Nodup := hperm.nodup_iff.mpr hnd
  have hin : ∀ r ∈ (l.insertionSort le).drop n, r ∈ l := fun r hr =>
    hperm.mem_iff.mp (mem_of_mem_drop hr)
  have hmem : ∀ r, r ∈ (l.insertionSort le).drop n ↔
      r ∈ l.filter fun r => !hits key ((l.insertionSort le).take n) r := by
    intro r
    rw [mem_filter, Bool.not_eq_true', Bool.eq_false_iff]
    have hhit : ∀ {r}, r ∈ l → (hits key ((l.insertionSort le).take n) r = true ↔
        r ∈ (l.insertionSort le).take n) := fun hr =>
      hits_iff hn (fun x hx => hperm.mem_iff.mp (mem_of_mem_take hx)) hr
    constructor
    · intro hr
      refine ⟨hin r hr, fun htake => ?_⟩
      exact disjoint_take_drop hsnd (Nat.le_refl n) ((hhit (hin r hr)).mp htake) hr
    · rintro ⟨hl, hnot⟩
      have hr := hperm.mem_iff.mpr hl
      rw [← take_append_drop n (l.insertionSort le)] at hr
      exact (mem_append.mp hr).resolve_left fun htake => hnot ((hhit hl).mpr htake)
  have hp := (perm_insertionSort le _).trans ((perm_ext_iff_of_nodup
    (filter_sublist.nodup hnd) ((drop_sublist n _).nodup hsnd)).mpr fun r => (hmem r).symm)
  refine hp.eq_of_pairwise (fun a b ha hb hab hba => ?_) (hsorted _)
    ((hsorted l).sublist (drop_sublist n _))
  exact inj_on_of_nodup_map hn (hin a (hp.mem_iff.mp ha)) (hin b hb) (hanti a b hab hba)

end

section
variable {σ ρ κ : Type} [DecidableEq κ] {key : ρ → κ} {le : ρ → ρ → Prop} [DecidableRel le]
variable {P : σ → Prop} {size : Nat} {page : σ → Nat × σ} {act : List ρ → σ → σ} {rows : σ → List ρ}

theorem Due.of_delete {p : σ → ρ → Bool} (hsorted : ∀ l : List ρ, (l.insertionSort le).Pairwise le)
    (hanti : ∀ a b, le a b → le b a → key a = key b)
    (hpage : ∀ s, P s → page s = ((((rows s).filter (p s)).insertionSort le).take size |>.length,
      act ((((rows s).filter (p s)).insertionSort le).take size) s))
    (hkeeps : ∀ s xs, P s → P (act xs s)) (hn : ∀ s, P s → ((rows s).map key).Nodup)
    (hrows : ∀ s xs, rows (act xs s) = (rows s).filter fun r => !hits key xs r)
    (hp : ∀ s xs r, P s → r ∈ rows (act xs s) → p (act xs s) r = p s r)
    (happend : ∀ s xs ys, P s → act ys (act xs s) = act (xs ++ ys) s) :
    Due P size page (fun s => ((rows s).filter (p s)).insertionSort le) act where
  page := hpage
  keeps s n hs := hkeeps s _ hs
  left s n hs := by
    have hfilter : (rows (act ((((rows s).filter (p s)).insertionSort le).take n) s)).filter
        (p (act ((((rows s).filter (p s)).insertionSort le).take n) s)) =
        ((rows s).filter (p s)).filter fun r =>
          !hits key ((((rows s).filter (p s)).insertionSort le).take n) r := by
      rw [filter_congr fun r hr => hp s _ r hs hr, hrows, filter_filter, filter_filter]
      exact filter_congr fun r _ => Bool.and_comm _ _
    rw [hfilter]
    exact insertionSort_drop hsorted hanti ((filter_sublist.map key).nodup (hn s hs)) n
  rest s n hs := by rw [happend s _ _ hs, take_append_drop]

theorem Due.of_update {p : ρ → Bool} {f : ρ → ρ}
    (hsorted : ∀ l : List ρ, (l.insertionSort le).Pairwise le)
    (hanti : ∀ a b, le a b → le b a → key a = key b)
    (hpage : ∀ s, P s → page s = ((((rows s).filter p).insertionSort le).take size |>.length,
      act ((((rows s).filter p).insertionSort le).take size) s))
    (hkeeps : ∀ s xs, P s → P (act xs s)) (hn : ∀ s, P s → ((rows s).map key).Nodup)
    (hrows : ∀ s xs, rows (act xs s) = (rows s).map fun r => if hits key xs r then f r else r)
    (hf : ∀ r, p (f r) = false)
    (happend : ∀ s xs ys, (∀ r ∈ rows s, hits key xs r = true → hits key ys r = false) →
      act ys (act xs s) = act (xs ++ ys) s) :
    Due P size page (fun s => ((rows s).filter p).insertionSort le) act where
  page := hpage
  keeps s n hs := hkeeps s _ hs
  left s n hs := by
    rw [hrows, filter_map_ite fun r _ _ => hf r]
    exact insertionSort_drop hsorted hanti ((filter_sublist.map key).nodup (hn s hs)) n
  rest s n hs := by
    have hperm := perm_insertionSort le ((rows s).filter p)
    have hnd : (((rows s).filter p).insertionSort le).Nodup :=
      hperm.nodup_iff.mpr (filter_sublist.nodup (Nodup.of_map key (hn s hs)))
    have hin : ∀ x ∈ ((rows s).filter p).insertionSort le, x ∈ rows s := fun x hx =>
      (mem_filter.mp (hperm.mem_iff.mp hx)).1
    rw [happend s _ _ fun r hr htake => ?_, take_append_drop]
    rw [hits_iff (hn s hs) (fun x hx => hin x (mem_of_mem_take hx)) hr] at htake
    rw [Bool.eq_false_iff, ne_eq, hits_iff (hn s hs) (fun x hx => hin x (mem_of_mem_drop hx)) hr]
    exact fun hdrop => disjoint_take_drop hnd (Nat.le_refl n) htake hdrop

theorem Due.realises_query {p : σ → ρ → Bool} {op : SetOp σ}
    (h : Due P size page (fun s => ((rows s).filter (p s)).insertionSort le) act) (hsize : 0 < size)
    (hcount : ∀ s, op.count s = ((rows s).filter (p s)).length)
    (happly : ∀ s xs, P s → xs.Perm ((rows s).filter (p s)) → act xs s = op.apply s) :
    Realises P (Relational.loopPages size page) op := by
  have hperm : ∀ s, (((rows s).filter (p s)).insertionSort le).Perm ((rows s).filter (p s)) := fun s =>
    perm_insertionSort le _
  refine h.realises hsize (fun s _ => ?_) fun s hs => ?_
  · rw [hcount, (hperm s).length_eq]
  · exact (happly s _ hs (hperm s)).symm

theorem map_hits_append {l xs ys : List ρ} {f : ρ → ρ} (hf : ∀ r, key (f r) = key r)
    (hdisj : ∀ r ∈ l, hits key xs r = true → hits key ys r = false) :
    ((l.map fun r => if hits key xs r then f r else r).map fun r => if hits key ys r then f r else r) =
      l.map fun r => if hits key (xs ++ ys) r then f r else r := by
  rw [map_map]
  refine map_congr_left fun r hr => ?_
  rw [Function.comp_apply, hits_append]
  cases hx : hits key xs r with
  | true =>
    rw [if_pos rfl, hits_congr (hf r), hdisj r hr hx]
    rfl
  | false =>
    rw [if_neg Bool.false_ne_true]
    rfl

end

/-! ## statements of pages on a table -/

namespace Table
section
variable {ρ κ ι : Type} [DecidableEq ι] {key : ρ → κ} {id : ρ → ι} {t : Table ρ κ key} {xs ys : List ρ}
variable {p : ρ → Bool} {f : ρ → ρ} (hf : ∀ r, key (f r) = key r)

theorem delete_append :
    (t.delete (hits id xs)).delete (hits id ys) = t.delete (hits id (xs ++ ys)) := by
  refine Table.ext ?_
  show (t.rows.filter _).filter _ = t.rows.filter _
  rw [filter_filter]
  refine filter_congr fun r _ => ?_
  rw [hits_append, Bool.not_or, Bool.and_comm]

theorem delete_query (hn : (t.rows.map id).Nodup) (hxs : xs.Perm (t.rows.filter p)) :
    t.delete (hits id xs) = t.delete p := Table.ext (filter_hits hn hxs)

theorem update_append (hid : ∀ r, id (f r) = id r)
    (hdisj : ∀ r ∈ t.rows, hits id xs r = true → hits id ys r = false) :
    (t.update (hits id xs) f hf).update (hits id ys) f hf = t.update (hits id (xs ++ ys)) f hf :=
  Table.ext (map_hits_append hid hdisj)

theorem update_query (hn : (t.rows.map id).Nodup) (hxs : xs.Perm (t.rows.filter p)) :
    t.update (hits id xs) f hf = t.update p f hf := by
  refine Table.ext (map_congr_left fun r hr => ?_)
  rw [hits_of_perm hn hxs hr]

end
end Table

namespace Linked
section
variable {ρ κ σ ι ν : Type} {key : ρ → κ} {ckey : σ → ι} {ref : ι → κ} [DecidableEq κ] [DecidableEq ι]
variable [DecidableEq ν] {t : Linked ρ κ σ ι key ckey ref} {id : σ → ν} {xs ys : List σ}
variable {p : σ → Bool} {f : σ → σ} (hf : ∀ c, ckey (f c) = ckey c)

theorem deleteChildren_append : (t.deleteChildren (hits id xs)).deleteChildren (hits id ys) =
    t.deleteChildren (hits id (xs ++ ys)) := ext rfl Table.delete_append

theorem deleteChildren_nil : t.deleteChildren (hits id []) = t :=
  ext rfl (Table.ext (filter_eq_self.mpr fun _ _ => rfl))

theorem deleteChildren_query (hn : (t.children.rows.map id).Nodup)
    (hxs : xs.Perm (t.children.rows.filter p)) : t.deleteChildren (hits id xs) = t.deleteChildren p :=
  ext rfl (Table.delete_query hn hxs)

theorem updateChildren_append (hid : ∀ c, id (f c) = id c)
    (hdisj : ∀ c ∈ t.children.rows, hits id xs c = true → hits id ys c = false) :
    (t.updateChildren (hits id xs) f hf).updateChildren (hits id ys) f hf =
      t.updateChildren (hits id (xs ++ ys)) f hf := ext rfl (Table.update_append hf hid hdisj)

theorem updateChildren_query (hn : (t.children.rows.map id).Nodup)
    (hxs : xs.Perm (t.children.rows.filter p)) :
    t.updateChildren (hits id xs) f hf = t.updateChildren p f hf := ext rfl (Table.update_query hf hn hxs)

theorem deleteParents_append {xs ys : List ρ} {id : ρ → ν} :
    (t.deleteParents (hits id xs)).deleteParents (hits id ys) = t.deleteParents (hits id (xs ++ ys)) := by
  rw [deleteParents_deleteParents]
  exact deleteParents_congr fun r _ => hits_append.symm

end
end Linked
end Relational
