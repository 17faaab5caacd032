import PgQueue.Lease.Machine
import PgQueue.Relational.Table

/-!
# Leases stored in a keyed table

`slots slot t` reads the slot of a key from the row of that key.  For each kind of statement a
lemma says when it is a move of the system (`Moves.of_rewrite`, and its cases `Moves.of_update`,
`Moves.of_delete` and those for one row; `Moves.of_insertAll`): the caller shows a `Step` for a
row the statement touches, and that the history says nothing about the others.
-/

namespace Lease
open Relational List

/-! ## histories made from lists -/

section
variable {α κ γ τ : Type} [DecidableEq κ] {key : α → κ} (ev : α → Event γ τ) {l : List α} {k : κ}

theorem about_map : about k (l.map fun x => (key x, ev x)) =
    (l.filter fun x => decide (key x = k)).map ev := by
  induction l with
  | nil => rfl
  | cons x l ih =>
    show about k ([(key x, ev x)] ++ l.map fun x => (key x, ev x)) = _
    rw [about_append, ih]
    by_cases hk : key x = k
    · rw [filter_cons_of_pos (by simpa using hk), hk, about_singleton_self]
      rfl
    · rw [filter_cons_of_neg (by simpa using hk), about_singleton_ne hk]
      rfl

theorem about_map_mem (hn : (l.map key).Nodup) {x : α} (hx : x ∈ l) :
    about (key x) (l.map fun x => (key x, ev x)) = [ev x] := by
  rw [about_map, filter_eq_singleton hn hx]
  rfl

theorem about_map_not_mem (h : ∀ x ∈ l, key x ≠ k) :
    about k (l.map fun x => (key x, ev x)) = [] := by
  rw [about_map, filter_eq_nil_iff.mpr (by simpa using h)]
  rfl

end

section
variable {ρ κ γ τ : Type} {key : ρ → κ} [DecidableEq κ] [LT τ]

def slots (slot : ρ → Slot γ τ) (t : Table ρ κ key) (k : κ) : Option (Slot γ τ) :=
  (t.find? k).map slot

variable {mint : Nat → γ} {cap : Nat} {now : τ} {S S' : System κ γ τ}
  {es : List (κ × Event γ τ)} {slot : ρ → Slot γ τ} {t : Table ρ κ key} {p : ρ → Bool} {f : ρ → ρ}
  {evs : List (Event γ τ)}

theorem Moves.of_same (hs : ∀ k, S'.slot k = S.slot k) (hd : ∀ k a, S'.dead k a → S.dead k a)
    (hn : S.seq ≤ S'.seq) : Moves mint cap now S [] S' := by
  refine ⟨hn, fun k => ⟨[], ?_, fun a ha => Or.inl (hd k a ha)⟩⟩
  rw [hs k]
  exact Path.wait (Path.refl _ _) hn

theorem Moves.of_rewrite {g : ρ → Option ρ} {d : ρ → List Nat} (hS : S.slot = slots slot t)
    (hS' : ∀ k, S'.slot k = ((t.find? k).bind g).map slot) (hn : S.seq ≤ S'.seq)
    (hd : ∀ k a, S'.dead k a → S.dead k a ∨ ∃ r ∈ t.rows, key r = k ∧ a ∈ d r)
    (hp : ∀ r ∈ t.rows, (g r = some r ∧ about (key r) es = []) ∨
      ∃ n' ≤ S'.seq, Step mint cap now S.seq (some (slot r)) (about (key r) es) (d r)
        ((g r).map slot) n')
    (hq : ∀ k, t.find? k = none → about k es = []) (hz : ∀ r ∈ t.rows, g r = some r → d r = []) :
    Moves mint cap now S es S' := by
  refine ⟨hn, fun k => ?_⟩
  rw [hS, hS' k]
  unfold slots
  cases hr : t.find? k with
  | none =>
    rw [hq k hr]
    refine ⟨[], Path.wait (Path.refl _ _) hn, fun a ha => (hd k a ha).imp_right ?_⟩
    rintro ⟨r, hmem, hk, -⟩
    exact absurd hk (Table.find?_eq_none.mp hr r hmem)
  | some r =>
    obtain ⟨hmem, rfl⟩ := Table.find?_eq_some.mp hr
    refine ⟨d r, ?_, fun a ha => (hd (key r) a ha).imp_right ?_⟩
    · rcases hp r hmem with ⟨hg, he⟩ | ⟨n', hn', hs⟩
      · rw [he, hz r hmem hg, Option.bind_some, hg]
        exact Path.wait (Path.refl _ _) hn
      · exact Path.wait (Path.single hs) hn'
    · rintro ⟨r', hmem', hk, ha⟩
      exact Table.eq_of_key hmem' hmem hk ▸ ha

theorem Moves.of_update (hf : ∀ r, key (f r) = key r) (hS : S.slot = slots slot t)
    (hS' : S'.slot = slots slot (t.update p f hf)) (hd : ∀ k a, S'.dead k a → S.dead k a)
    (hn : S.seq ≤ S'.seq)
    (hp : ∀ r ∈ t.rows, p r = true → ∃ n' ≤ S'.seq,
      Step mint cap now S.seq (some (slot r)) (about (key r) es) [] (some (slot (f r))) n')
    (hq : ∀ k, (∀ r ∈ t.rows, key r = k → p r = false) → about k es = []) :
    Moves mint cap now S es S' := by
  refine Moves.of_rewrite (g := fun r => some (if p r then f r else r)) (d := fun _ => []) hS ?_ hn
    (fun k a ha => Or.inl (hd k a ha)) ?_ ?_ (fun _ _ _ => rfl)
  · intro k
    rw [hS', slots, Table.find?_update]
    cases t.find? k <;> rfl
  · intro r hr
    by_cases hpr : p r = true
    · rw [if_pos hpr]
      exact Or.inr (hp r hr hpr)
    · rw [if_neg hpr]
      refine Or.inl ⟨rfl, hq (key r) fun r' hr' hk => ?_⟩
      rw [Table.eq_of_key hr' hr hk]
      exact Bool.eq_false_iff.mpr hpr
  · intro k hk
    exact hq k fun r hr hk' => absurd hk' (Table.find?_eq_none.mp hk r hr)

theorem Moves.of_delete (d : ρ → List Nat) (hS : S.slot = slots slot t)
    (hS' : S'.slot = slots slot (t.delete p)) (hn : S.seq ≤ S'.seq)
    (hd : ∀ k a, S'.dead k a → S.dead k a ∨ ∃ r ∈ t.rows, key r = k ∧ p r = true ∧ a ∈ d r)
    (hp : ∀ r ∈ t.rows, p r = true →
      Step mint cap now S.seq (some (slot r)) (about (key r) es) (d r) none S.seq)
    (hq : ∀ k, (∀ r ∈ t.rows, key r = k → p r = false) → about k es = []) :
    Moves mint cap now S es S' := by
  refine Moves.of_rewrite (g := fun r => if p r then none else some r)
    (d := fun r => if p r then d r else []) hS ?_ hn ?_ ?_ ?_ ?_
  · intro k
    rw [hS', slots, Table.find?_delete]
  · intro k a ha
    refine (hd k a ha).imp_right ?_
    rintro ⟨r, hr, hk, hpr, ha⟩
    exact ⟨r, hr, hk, by rwa [if_pos hpr]⟩
  · intro r hr
    by_cases hpr : p r = true
    · rw [if_pos hpr, if_pos hpr]
      exact Or.inr ⟨_, hn, hp r hr hpr⟩
    · rw [if_neg hpr]
      refine Or.inl ⟨rfl, hq (key r) fun r' hr' hk => ?_⟩
      rw [Table.eq_of_key hr' hr hk]
      exact Bool.eq_false_iff.mpr hpr
  · intro k hk
    exact hq k fun r hr hk' => absurd hk' (Table.find?_eq_none.mp hk r hr)
  · intro r hr hg
    by_cases hpr : p r = true
    · rw [if_pos hpr] at hg
      cases hg
    · exact if_neg hpr

theorem Moves.of_updateRow (hf : ∀ r, key (f r) = key r) (hS : S.slot = slots slot t)
    (hS' : S'.slot = slots slot (t.update p f hf)) (hd : ∀ k a, S'.dead k a → S.dead k a)
    (hn : S.seq ≤ S'.seq) {r : ρ} (hr : r ∈ t.rows) (hp : ∀ x ∈ t.rows, p x = true ↔ key x = key r)
    (hs : ∃ n' ≤ S'.seq, Step mint cap now S.seq (some (slot r)) evs [] (some (slot (f r))) n') :
    Moves mint cap now S (evs.map fun e => (key r, e)) S' := by
  refine Moves.of_update hf hS hS' hd hn ?_ ?_
  · intro x hx hpx
    obtain rfl := Table.eq_of_key hx hr ((hp x hx).mp hpx)
    rw [about_events_self]
    exact hs
  · intro k hk
    refine about_events_ne (fun he => ?_) evs
    exact absurd ((hp r hr).mpr rfl) (by rw [hk r hr he]; decide)

theorem Moves.of_buryRow (hS : S.slot = slots slot t) (hS' : S'.slot = slots slot (t.delete p))
    (hn : S.seq ≤ S'.seq) {r : ρ} (hr : r ∈ t.rows) (hp : ∀ x ∈ t.rows, p x = true ↔ key x = key r)
    {a : Nat} (hd : ∀ k b, S'.dead k b → S.dead k b ∨ k = key r ∧ b = a)
    (hs : Step mint cap now S.seq (some (slot r)) evs [a] none S.seq) :
    Moves mint cap now S (evs.map fun e => (key r, e)) S' := by
  refine Moves.of_delete (fun _ => [a]) hS hS' hn ?_ ?_ ?_
  · intro k b hb
    refine (hd k b hb).imp_right ?_
    rintro ⟨rfl, rfl⟩
    exact ⟨r, hr, rfl, (hp r hr).mpr rfl, mem_singleton.mpr rfl⟩
  · intro x hx hpx
    obtain rfl := Table.eq_of_key hx hr ((hp x hx).mp hpx)
    rw [about_events_self]
    exact hs
  · intro k hk
    refine about_events_ne (fun he => ?_) evs
    exact absurd ((hp r hr).mpr rfl) (by rw [hk r hr he]; decide)

theorem Moves.of_drop (hS : S.slot = slots slot t) (hS' : S'.slot = slots slot (t.delete p))
    (hd : ∀ k a, S'.dead k a → S.dead k a) (hn : S.seq ≤ S'.seq)
    (hp : ∀ r ∈ t.rows, p r = true → ¬ (slot r).Live now) : Moves mint cap now S [] S' :=
  Moves.of_delete (fun _ => []) hS hS' hn (fun k a ha => Or.inl (hd k a ha))
    (fun r hr hpr => .drop (hp r hr hpr)) (fun _ _ => rfl)

theorem Moves.of_replay (hf : ∀ r, key (f r) = key r) (hS : S.slot = slots slot t)
    (hS' : S'.slot = slots slot (t.update p f hf)) (hd : ∀ k a, S'.dead k a → S.dead k a)
    (hn : S.seq ≤ S'.seq) (hs : ∀ r, slot (f r) = (slot r).replay)
    (hp : ∀ r ∈ t.rows, p r = true → (slot r).phase ≠ .processing) :
    Moves mint cap now S ((t.rows.filter p).map fun r => (key r, .replayed)) S' := by
  refine Moves.of_update hf hS hS' hd hn ?_ ?_
  · intro r hr hpr
    refine ⟨_, hn, ?_⟩
    rw [about_map_mem (fun _ => Event.replayed)
      ((filter_sublist.map _).nodup t.nodup) (mem_filter.mpr ⟨hr, hpr⟩), hs]
    exact .replay (hp r hr hpr)
  · intro k hk
    refine about_map_not_mem (fun _ => Event.replayed) fun r hr he => ?_
    obtain ⟨hr, hpr⟩ := mem_filter.mp hr
    rw [hk r hr he] at hpr
    cases hpr

theorem Moves.of_wipe (hS : S.slot = slots slot t) (hS' : S'.slot = fun _ => none)
    (hd : ∀ k a, ¬ S'.dead k a) (hn : S.seq ≤ S'.seq) :
    Moves mint cap now S (t.rows.map fun r => (key r, .wiped)) S' := by
  refine Moves.of_rewrite (g := fun _ => none) (d := fun _ => []) hS ?_ hn
    (fun k a ha => absurd ha (hd k a)) ?_ ?_ (fun _ _ _ => rfl)
  · intro k
    rw [hS']
    cases t.find? k <;> rfl
  · intro r hr
    rw [about_map_mem (fun _ => Event.wiped) t.nodup hr]
    exact Or.inr ⟨_, hn, .wipe _⟩
  · intro k hk
    exact about_map_not_mem (fun _ => Event.wiped) fun r hr =>
      Table.find?_eq_none.mp hk r hr

theorem Moves.of_insertAll {rs : List ρ} (hS : S.slot = slots slot t)
    (hS' : S'.slot = slots slot (t.insertAll rs)) (hd : ∀ k a, S'.dead k a → S.dead k a)
    (hn : S.seq ≤ S'.seq) (hr : ∀ r ∈ rs, slot r = .fresh cap)
    (hes : ∀ r ∈ rs, t.find? (key r) = none → about (key r) es = [.published])
    (hq : ∀ k, ((t.find? k).isSome ∨ ∀ r ∈ rs, key r ≠ k) → about k es = []) :
    Moves mint cap now S es S' := by
  refine ⟨hn, fun k => ⟨[], ?_, fun a ha => Or.inl (hd k a ha)⟩⟩
  rw [hS, hS']
  unfold slots
  rw [Table.find?_insertAll]
  cases hk : t.find? k with
  | some r =>
    rw [hq k (Or.inl (hk ▸ rfl))]
    exact Path.wait (Path.refl _ _) hn
  | none =>
    rw [Option.none_or]
    cases hf : rs.find? fun r => decide (key r = k) with
    | none =>
      rw [hq k (Or.inr fun r hr' => by simpa using find?_eq_none.mp hf r hr')]
      exact Path.wait (Path.refl _ _) hn
    | some r =>
      have hmem := mem_of_find?_eq_some hf
      have hkey : key r = k := by simpa using find?_some hf
      subst hkey
      rw [hes r hmem hk, Option.map_none, Option.map_some, hr r hmem]
      exact Path.wait (Path.single (.publish _)) hn

theorem Moves.of_created {rs : List ρ} (hS : S.slot = slots slot t)
    (hS' : S'.slot = slots slot (t.insertAll rs)) (hd : ∀ k a, S'.dead k a → S.dead k a)
    (hn : S.seq ≤ S'.seq) (hr : ∀ r ∈ rs, slot r = .fresh cap) :
    Moves mint cap now S
      (((t.insertAll rs).rows.filter fun r => (t.find? (key r)).isNone).map
        fun r => (key r, .published)) S' := by
  refine Moves.of_insertAll hS hS' hd hn hr ?_ ?_
  · intro r hmem hnone
    have hsome : ((t.insertAll rs).find? (key r)).isSome := by
      rw [Table.find?_insertAll, hnone, Option.none_or, find?_isSome]
      exact ⟨r, hmem, decide_eq_true rfl⟩
    obtain ⟨x, hx⟩ := Option.isSome_iff_exists.mp hsome
    obtain ⟨hx, hk⟩ := Table.find?_eq_some.mp hx
    rw [← hk]
    refine about_map_mem (fun _ => Event.published)
      ((filter_sublist.map _).nodup (t.insertAll rs).nodup) (mem_filter.mpr ⟨hx, ?_⟩)
    rw [hk, hnone]
    rfl
  · intro k hk
    refine about_map_not_mem (fun _ => Event.published) fun x hx he => ?_
    obtain ⟨hx, hnone⟩ := mem_filter.mp hx
    rw [Option.isNone_iff_eq_none] at hnone
    rcases hk with hk | hk
    · rw [← he, hnone] at hk
      cases hk
    · rcases Table.mem_insertAll hx with hx | hx
      · exact Table.find?_eq_none.mp hnone x hx rfl
      · exact hk x hx he

end
end Lease
