import PgQueue.Relational.Table
import Mathlib.Data.List.Perm.Basic

/-!
# Fenced statements: one statement for many tokens, or one statement each

A fenced statement looks for the rows a token names.  A row it hits is changed so that no token
hits it again, or leaves the table with a letter; a token that hits no row is refused, with a
reason that is read off the table.

* `Rule`      what a statement does to the rows it hits;
* `Store`     the parts of a state it reads and writes; `Store.Applied` is one statement,
              `Store.Same` equality up to the order of the letters;
* `Serves`    a function that works on one token follows the rule;
* `Settled`   a function that works on a list of tokens follows it;
* `sequence`  the tokens of a list one after another, with what each was answered.

`Serves.refines`: **the list version answers each token as the single version does**, when the
tokens that were accepted come first.  `Serves.applied` is about the tables alone, for any order.
-/

namespace Relational
open List

/-- `hit r row`: the token `r` names the row.  `after row` is what becomes of a row that is hit,
`letter f row` what it leaves behind, `why rows r` the reason a token is refused for -/
structure Rule (φ ρ δ R E : Type) where
  hit : R → ρ → Bool
  after : ρ → Option ρ
  letter : φ → ρ → Option δ
  why : List ρ → R → E
  settled : ∀ {row row' : ρ}, after row = some row' → ∀ r, hit r row' = false

/-- the table a statement works on, the letters, and all that it only reads -/
structure Store (σ φ ρ δ : Type) where
  rows : σ → List ρ
  letters : σ → List δ
  frame : σ → φ

section
variable {σ φ ρ δ R E : Type} {rule : Rule φ ρ δ R E}

/-! ## rows -/

namespace Rule
variable {p p' : ρ → Bool} {rows : List ρ} {r r' : R} {rs : List R}

def rowsAfter (rule : Rule φ ρ δ R E) (p : ρ → Bool) (rows : List ρ) : List ρ :=
  rows.filterMap fun row => if p row then rule.after row else some row

def lettersOf (rule : Rule φ ρ δ R E) (f : φ) (p : ρ → Bool) (rows : List ρ) : List δ :=
  (rows.filter p).filterMap (rule.letter f)

def hits (rule : Rule φ ρ δ R E) (rs : List R) (row : ρ) : Bool := rs.any fun r => rule.hit r row

def live (rule : Rule φ ρ δ R E) (rows : List ρ) (r : R) : Bool := rows.any (rule.hit r)

variable (rule) in
theorem rowsAfter_congr (h : ∀ row ∈ rows, p row = p' row) :
    rule.rowsAfter p rows = rule.rowsAfter p' rows := by
  unfold rowsAfter
  exact filterMap_congr fun row hr => by rw [h row hr]

theorem lettersOf_congr {f : φ} (h : ∀ row ∈ rows, p row = p' row) :
    rule.lettersOf f p rows = rule.lettersOf f p' rows := by
  unfold lettersOf
  rw [filter_congr h]

theorem rowsAfter_of_not (h : ∀ row ∈ rows, p row = false) : rule.rowsAfter p rows = rows := by
  unfold rowsAfter
  rw [filterMap_congr (g := some) fun row hr => by rw [h row hr]; rfl, filterMap_some]

theorem lettersOf_of_not {f : φ} (h : ∀ row ∈ rows, p row = false) :
    rule.lettersOf f p rows = [] := by
  unfold lettersOf
  rw [filter_eq_nil_iff.mpr fun row hr => by rw [h row hr]; exact Bool.false_ne_true]
  rfl

theorem filter_rowsAfter (hp : ∀ row row', rule.after row = some row' → p' row' = false) :
    (rule.rowsAfter p rows).filter p' = rows.filter fun row => !p row && p' row := by
  induction rows with
  | nil => rfl
  | cons row rows ih =>
    unfold rowsAfter at ih ⊢
    rw [filterMap_cons, filter_cons, ← ih]
    cases hrow : p row with
    | false =>
      simp only [Bool.false_eq_true, ↓reduceIte, Bool.not_false, Bool.true_and, filter_cons]
    | true =>
      cases ha : rule.after row with
      | none => simp only [↓reduceIte, Bool.not_true, Bool.false_and, Bool.false_eq_true]
      | some row' =>
        simp only [↓reduceIte, Bool.not_true, Bool.false_and, Bool.false_eq_true,
          filter_cons, hp row row' ha]

theorem hits_settled {row row' : ρ} (h : rule.after row = some row') : rule.hits rs row' = false :=
  any_eq_false.mpr fun r _ => by rw [rule.settled h r]; exact Bool.false_ne_true

theorem hits_cons {row : ρ} : rule.hits (r :: rs) row = (rule.hit r row || rule.hits rs row) := rfl

theorem rowsAfter_cons :
    rule.rowsAfter (rule.hits rs) (rule.rowsAfter (rule.hit r) rows) =
      rule.rowsAfter (rule.hits (r :: rs)) rows := by
  unfold rowsAfter
  rw [filterMap_filterMap]
  apply filterMap_congr
  intro row _
  rw [hits_cons]
  cases rule.hit r row with
  | false => rfl
  | true =>
    cases ha : rule.after row with
    | none => simp only [↓reduceIte, Option.bind_none, Bool.true_or]
    | some row' =>
      simp only [↓reduceIte, Option.bind_some, Bool.true_or, hits_settled ha, Bool.false_eq_true]

theorem lettersOf_cons {f : φ} :
    (rule.lettersOf f (rule.hits (r :: rs)) rows).Perm
      (rule.lettersOf f (rule.hit r) rows ++
        rule.lettersOf f (rule.hits rs) (rule.rowsAfter (rule.hit r) rows)) := by
  unfold lettersOf
  rw [filter_rowsAfter fun row row' h => hits_settled h, ← filterMap_append]
  refine Perm.filterMap _ ?_
  -- the rows that `r` hits first, then the others
  have h := (filter_append_perm (rule.hit r) (rows.filter (rule.hits (r :: rs)))).symm
  rw [filter_filter, filter_filter] at h
  convert h using 2
  · refine filter_congr fun row _ => ?_
    rw [hits_cons]
    cases rule.hit r row <;> rfl
  · refine filter_congr fun row _ => ?_
    rw [hits_cons]
    cases rule.hit r row <;> rfl

/-! what becomes of one row -/

theorem mem_rowsAfter {row row' : ρ} (hmem : row ∈ rows) (hh : p row = true)
    (ha : rule.after row = some row') : row' ∈ rule.rowsAfter p rows := by
  refine mem_filterMap.mpr ⟨row, hmem, ?_⟩
  rw [if_pos hh, ha]

theorem not_mem_rowsAfter {κ : Type} {key : ρ → κ} {row : ρ}
    (hkey : ∀ x x', rule.after x = some x' → key x' = key x) (hn : (rows.map key).Nodup)
    (hmem : row ∈ rows) (hh : p row = true) (ha : rule.after row = none) :
    ∀ x ∈ rule.rowsAfter p rows, key x ≠ key row := by
  intro x hx he
  obtain ⟨y, hy, hyx⟩ := mem_filterMap.mp hx
  split at hyx
  · have hrow : y = row := inj_on_of_nodup_map hn hy hmem ((hkey y x hyx).symm.trans he)
    rw [hrow, ha] at hyx
    cases hyx
  · rename_i hp
    cases hyx
    have hrow : x = row := inj_on_of_nodup_map hn hy hmem he
    exact hp (hrow ▸ hh)

theorem countP_lettersOf {κ : Type} [DecidableEq κ] {key : ρ → κ} {f : φ} {w : δ → Bool} {row : ρ}
    (hn : (rows.map key).Nodup) (hmem : row ∈ rows) (hh : p row = true)
    (hrow : ∃ d, rule.letter f row = some d ∧ w d = true)
    (hother : ∀ x ∈ rows, p x = true → ∀ d, rule.letter f x = some d → w d = true →
      key x = key row) :
    (rule.lettersOf f p rows).countP w = 1 := by
  unfold lettersOf
  rw [countP_filterMap, countP_filter]
  have hone : ∀ x ∈ rows, (((rule.letter f x).map w).getD false && p x) = true ↔
      decide (key x = key row) = true := by
    intro x hx
    rw [Bool.and_eq_true, decide_eq_true_iff]
    constructor
    · rintro ⟨hl, hp⟩
      cases hd : rule.letter f x with
      | none =>
        rw [hd] at hl
        cases hl
      | some d =>
        rw [hd] at hl
        exact hother x hx hp d hd hl
    · intro he
      obtain rfl := inj_on_of_nodup_map hn hx hmem he
      obtain ⟨d, hd, hw⟩ := hrow
      rw [hd]
      exact ⟨hw, hh⟩
  rw [countP_congr hone, countP_eq_length_filter, filter_eq_singleton hn hmem]
  rfl

theorem live_iff : rule.live rows r = true ↔ ∃ row ∈ rows, rule.hit r row = true :=
  any_eq_true

theorem live_eq_false : rule.live rows r = false ↔ ∀ row ∈ rows, rule.hit r row = false := by
  unfold live
  simp only [any_eq_false, Bool.not_eq_true]

theorem live_of_live_rowsAfter (h : rule.live (rule.rowsAfter p rows) r = true) :
    rule.live rows r = true := by
  obtain ⟨row', hr, hh⟩ := live_iff.mp h
  obtain ⟨row, hrow, he⟩ := mem_filterMap.mp hr
  split at he
  · rw [rule.settled he r] at hh
    cases hh
  · cases he
    exact live_iff.mpr ⟨_, hrow, hh⟩

theorem live_rowsAfter (h : rule.live rows r = true)
    (hp : ∀ row, rule.hit r row = true → p row = false) :
    rule.live (rule.rowsAfter p rows) r = true := by
  obtain ⟨row, hr, hh⟩ := live_iff.mp h
  refine live_iff.mpr ⟨row, mem_filterMap.mpr ⟨row, hr, ?_⟩, hh⟩
  rw [hp row hh]
  rfl

theorem hits_filter_live {row : ρ} (hr : row ∈ rows) :
    rule.hits (rs.filter (rule.live rows)) row = rule.hits rs row := by
  unfold hits
  rw [Bool.eq_iff_iff, any_eq_true, any_eq_true]
  constructor
  · rintro ⟨r, hrs, hh⟩
    exact ⟨r, (mem_filter.mp hrs).1, hh⟩
  · rintro ⟨r, hrs, hh⟩
    exact ⟨r, mem_filter.mpr ⟨hrs, live_iff.mpr ⟨row, hr, hh⟩⟩, hh⟩

end Rule

/-! ## states -/

namespace Store
variable {st : Store σ φ ρ δ} {p p' : ρ → Bool} {s s' t t' : σ}

structure Same (st : Store σ φ ρ δ) (s t : σ) : Prop where
  rows : st.rows s = st.rows t
  letters : (st.letters s).Perm (st.letters t)
  frame : st.frame s = st.frame t

/-- `s'` is `s` after one statement on the rows with `p` -/
structure Applied (st : Store σ φ ρ δ) (rule : Rule φ ρ δ R E) (p : ρ → Bool) (s s' : σ) : Prop where
  rows : st.rows s' = rule.rowsAfter p (st.rows s)
  letters : (st.letters s').Perm (st.letters s ++ rule.lettersOf (st.frame s) p (st.rows s))
  frame : st.frame s' = st.frame s

theorem Same.refl (st : Store σ φ ρ δ) (s : σ) : st.Same s s := ⟨rfl, Perm.refl _, rfl⟩

theorem Applied.of_not (h : ∀ row ∈ st.rows s, p row = false) : st.Applied rule p s s := by
  refine ⟨(Rule.rowsAfter_of_not h).symm, ?_, rfl⟩
  rw [Rule.lettersOf_of_not h, append_nil]

theorem Applied.congr (h : st.Applied rule p s s') (hp : ∀ row ∈ st.rows s, p row = p' row) :
    st.Applied rule p' s s' := by
  refine ⟨h.rows.trans (rule.rowsAfter_congr hp), ?_, h.frame⟩
  rw [← Rule.lettersOf_congr hp]
  exact h.letters

theorem Applied.of_update {g : ρ → ρ} (hg : ∀ row, rule.after row = some (g row))
    (hl : ∀ f row, rule.letter f row = none)
    (hr : st.rows s' = (st.rows s).map fun row => if p row then g row else row)
    (hls : st.letters s' = st.letters s) (hf : st.frame s' = st.frame s) :
    st.Applied rule p s s' := by
  refine ⟨?_, ?_, hf⟩
  · rw [hr, ← filterMap_eq_map]
    refine filterMap_congr fun row _ => ?_
    show some (if p row then g row else row) = _
    rw [hg]
    split <;> rfl
  · unfold Rule.lettersOf
    rw [hls, funext (hl (st.frame s)), filterMap_none, append_nil]

theorem Applied.same (h : st.Applied rule p s s') (h' : st.Applied rule p t t') (hs : st.Same s t) :
    st.Same s' t' := by
  refine ⟨?_, ?_, ?_⟩
  · rw [h.rows, h'.rows, hs.rows]
  · refine h.letters.trans (Perm.trans ?_ h'.letters.symm)
    rw [hs.rows, hs.frame]
    exact hs.letters.append_right _
  · rw [h.frame, h'.frame, hs.frame]

theorem Applied.cons {r : R} {rs : List R} (h : st.Applied rule (rule.hit r) s s')
    (h' : st.Applied rule (rule.hits rs) s' t) : st.Applied rule (rule.hits (r :: rs)) s t := by
  refine ⟨?_, ?_, h'.frame.trans h.frame⟩
  · rw [h'.rows, h.rows, Rule.rowsAfter_cons]
  · have hl := h'.letters.trans (h.letters.append_right _)
    rw [h.frame, h.rows, append_assoc] at hl
    exact hl.trans (Rule.lettersOf_cons.symm.append_left _)

end Store

/-! ## one token after another -/

def sequence (single : R → σ → Except E σ) : List R → σ → List (R × Option E) × σ
  | [], s => ([], s)
  | r :: rs, s =>
    match single r s with
    | .ok s' => ((r, none) :: (sequence single rs s').1, (sequence single rs s').2)
    | .error e => ((r, some e) :: (sequence single rs s).1, (sequence single rs s).2)

section
variable {single : R → σ → Except E σ}

theorem sequence_append (single : R → σ → Except E σ) (rs rs' : List R) (s : σ) :
    sequence single (rs ++ rs') s =
      ((sequence single rs s).1 ++ (sequence single rs' (sequence single rs s).2).1,
        (sequence single rs' (sequence single rs s).2).2) := by
  induction rs generalizing s with
  | nil => rfl
  | cons r rs ih =>
    simp only [cons_append, sequence]
    split <;> rw [ih] <;> rfl

theorem sequence_lift {τ : Type} {put : σ → τ} {single' : R → τ → Except E τ} {rs : List R}
    (h : ∀ r ∈ rs, ∀ s, single' r (put s) = (single r s).map put) (s : σ) :
    sequence single' rs (put s) = ((sequence single rs s).1, put (sequence single rs s).2) := by
  induction rs generalizing s with
  | nil => rfl
  | cons r rs ih =>
    have hrest := ih fun r' hr' => h r' (mem_cons_of_mem _ hr')
    simp only [sequence, h r mem_cons_self]
    cases single r s with
    | error | ok =>
      simp only [Except.map, hrest]

def after (single : R → σ → Except E σ) (r : R) (s : σ) : σ :=
  match single r s with
  | .ok s' => s'
  | .error _ => s

theorem sequence_cons_snd (single : R → σ → Except E σ) (r : R) (rs : List R) (s : σ) :
    (sequence single (r :: rs) s).2 = (sequence single rs (after single r s)).2 := by
  unfold after
  rw [sequence]
  split <;> rfl

theorem sequence_perm {rs rs' : List R} (h : rs.Perm rs')
    (hcomm : ∀ a b s, after single b (after single a s) = after single a (after single b s))
    (s : σ) : (sequence single rs s).2 = (sequence single rs' s).2 := by
  induction h generalizing s with
  | nil => rfl
  | cons r _ ih => rw [sequence_cons_snd, sequence_cons_snd, ih]
  | swap a b rs => rw [sequence_cons_snd, sequence_cons_snd, sequence_cons_snd, sequence_cons_snd, hcomm]
  | trans _ _ ih ih' => exact (ih s).trans (ih' s)

end

structure Serves (st : Store σ φ ρ δ) (rule : Rule φ ρ δ R E) (single : R → σ → Except E σ) :
    Prop where
  hit : ∀ {r s}, rule.live (st.rows s) r = true →
    ∃ s', single r s = .ok s' ∧ st.Applied rule (rule.hit r) s s'
  miss : ∀ {r s}, rule.live (st.rows s) r = false → single r s = .error (rule.why (st.rows s) r)

/-- a list of tokens was worked on at once: those accepted, those refused, the state after it -/
structure Settled (st : Store σ φ ρ δ) (rule : Rule φ ρ δ R E) (rs : List R) (s : σ)
    (ok : List R) (bad : List (R × E)) (s' : σ) : Prop where
  ok : ok = rs.filter (rule.live (st.rows s))
  bad : bad = (rs.filter fun r => !rule.live (st.rows s) r).map fun r => (r, rule.why (st.rows s') r)
  applied : st.Applied rule (rule.hits rs) s s'

def Rule.Distinct (rule : Rule φ ρ δ R E) (rs : List R) : Prop :=
  rs.Pairwise fun r r' => ∀ row, rule.hit r row = true → rule.hit r' row = false

namespace Serves
variable {st : Store σ φ ρ δ} {single : R → σ → Except E σ} {rs : List R} {s s' t : σ}

/-- the tables after any sequence of calls are those of one statement for all the tokens -/
theorem applied (h : Serves st rule single) (rs : List R) (s : σ) :
    st.Applied rule (rule.hits rs) s (sequence single rs s).2 := by
  induction rs generalizing s with
  | nil => exact .of_not fun _ _ => rfl
  | cons r rs ih =>
    cases hl : rule.live (st.rows s) r with
    | true =>
      obtain ⟨s', he, ha⟩ := h.hit hl
      simp only [sequence, he]
      exact ha.cons (ih s')
    | false =>
      simp only [sequence, h.miss hl]
      exact (Store.Applied.of_not (Rule.live_eq_false.mp hl)).cons (ih s)

theorem sequence_live (h : Serves st rule single) (hd : rule.Distinct rs)
    (hl : ∀ r ∈ rs, rule.live (st.rows s) r = true) :
    (sequence single rs s).1 = rs.map fun r => (r, none) := by
  induction rs generalizing s with
  | nil => rfl
  | cons r rs ih =>
    obtain ⟨s', he, ha⟩ := h.hit (hl r mem_cons_self)
    obtain ⟨hne, hd⟩ := pairwise_cons.mp hd
    simp only [sequence, he, map_cons]
    rw [ih hd fun r' hr' => ?_]
    rw [ha.rows]
    refine Rule.live_rowsAfter (hl r' (mem_cons_of_mem _ hr')) fun row hh => ?_
    exact Bool.eq_false_iff.mpr fun hh' => by rw [hne r' hr' row hh'] at hh; cases hh

theorem sequence_dead (h : Serves st rule single) (hl : ∀ r ∈ rs, rule.live (st.rows s) r = false) :
    sequence single rs s = (rs.map fun r => (r, some (rule.why (st.rows s) r)), s) := by
  induction rs with
  | nil => rfl
  | cons r rs ih =>
    simp only [sequence, h.miss (hl r mem_cons_self),
      ih fun r' hr' => hl r' (mem_cons_of_mem _ hr'), map_cons]

/-- **A list of tokens is answered as its tokens are**, one after another, the accepted ones
first. -/
theorem refines (h : Serves st rule single) {ok : List R} {bad : List (R × E)}
    (hb : Settled st rule rs s ok bad s') (hd : rule.Distinct rs) (hs : st.Same s t) :
    (sequence single (ok ++ bad.map Prod.fst) t).1 =
        ok.map (fun r => (r, none)) ++ bad.map (fun b => (b.1, some b.2)) ∧
      st.Same s' (sequence single (ok ++ bad.map Prod.fst) t).2 := by
  have hok := hb.ok
  have hbad : bad.map Prod.fst = rs.filter fun r => !rule.live (st.rows s) r := by
    rw [hb.bad, map_map]
    exact map_id _
  set t₁ := (sequence single ok t).2
  have hlive : (sequence single ok t).1 = ok.map fun r => (r, none) := by
    refine h.sequence_live (hok ▸ hd.filter _) fun r hr => ?_
    rw [hok] at hr
    rw [← hs.rows]
    exact (mem_filter.mp hr).2
  have happ := h.applied ok t
  have hsame : st.Same s' t₁ := by
    refine hb.applied.same (happ.congr fun row hr => ?_) hs
    rw [← hs.rows] at hr
    rw [hok, Rule.hits_filter_live hr]
  have hdead : ∀ r ∈ bad.map Prod.fst, rule.live (st.rows t₁) r = false := by
    intro r hr
    rw [hbad] at hr
    have hf := (mem_filter.mp hr).2
    rw [Bool.eq_false_iff]
    intro hl
    rw [happ.rows, ← hs.rows] at hl
    rw [Rule.live_of_live_rowsAfter hl] at hf
    cases hf
  rw [sequence_append, h.sequence_dead hdead, hlive]
  refine ⟨?_, hsame⟩
  rw [hbad, hb.bad, map_map, hsame.rows]
  rfl

end Serves
end
end Relational
