import PgQueue.Replay.Model
import PgQueue.Relational.Keyset

/-!
# ReplayDLQ: pages do not show

What a replay does to one dead letter is a rule on a view of the tables (`ReplayRule`).  A page
applies it to its rows one after another (`Replays`), so a call applies it to the rows of all its
pages one after another, and the cursor takes it through the dead letters in the order of their
ids, each once.

* `ReplayRule.rows`    the rule, row by row;   `ReplayRule.pages`   page by page;
* `Replays`            what is asked of a page;
* `Outcome`            what is known of a call, `executeReplayDLQ_outcome` that it is so.
-/

namespace PgQueue
open Relational List

/-! ## the rule -/

/-- `row env d v`: whether the dead letter `d` is reinstated, and the view after it.  `refuses` is
the error a page fails with, if it does -/
structure ReplayRule (V : Type) where
  dlq : V → List DLQRow
  row : Env → DLQRow → V → Bool × V
  refuses : Env → List DLQRow → V → Option QueueError
  dlq_row : ∀ env d v, dlq (row env d v).2 =
    if (row env d v).1 then (dlq v).filter fun x => decide (x.id ≠ d.id) else dlq v

namespace ReplayRule
variable {V : Type} (R : ReplayRule V)

/-- one row after another: how many are reinstated, and the view after them -/
def rows : List (Env × DLQRow) → V → Nat × V
  | [], v => (0, v)
  | (env, d) :: rest, v =>
    let (n, v') := rows rest (R.row env d v).2
    (n + (R.row env d v).1.toNat, v')

/-- one page after another; a dry run leaves the view alone -/
def pages (dryRun : Bool) : List (Env × List DLQRow) → V → Nat × V
  | [], v => (0, v)
  | (env, ds) :: rest, v =>
    let (n, v₁) := R.rows (ds.map fun d => (env, d)) v
    let (n', v₂) := pages dryRun rest (if dryRun then v else v₁)
    (n + n', v₂)

variable {R} {v : V}

theorem rows_cons (env : Env) (d : DLQRow) (es : List (Env × DLQRow)) :
    R.rows ((env, d) :: es) v =
      ((R.rows es (R.row env d v).2).1 + (R.row env d v).1.toNat, (R.rows es (R.row env d v).2).2) :=
  rfl

theorem rows_append (es es' : List (Env × DLQRow)) :
    R.rows (es ++ es') v =
      ((R.rows es v).1 + (R.rows es' (R.rows es v).2).1, (R.rows es' (R.rows es v).2).2) := by
  induction es generalizing v with
  | nil => rw [nil_append, rows, Nat.zero_add]
  | cons e es ih =>
    rw [cons_append, rows_cons, rows_cons, ih]
    exact Prod.ext (Nat.add_right_comm _ _ _) rfl

theorem rows_le (es : List (Env × DLQRow)) : (R.rows es v).1 ≤ es.length := by
  induction es generalizing v with
  | nil => exact Nat.le_refl _
  | cons e es ih =>
    rw [rows_cons, length_cons]
    have h1 := ih (v := (R.row e.1 e.2 v).2)
    have h2 := Bool.toNat_le (R.row e.1 e.2 v).1
    omega

theorem filter_dlq_rows {p : DLQRow → Bool} (es : List (Env × DLQRow))
    (hp : ∀ e ∈ es, ∀ x, x.id = e.2.id → p x = false) :
    (R.dlq (R.rows es v).2).filter p = (R.dlq v).filter p := by
  induction es generalizing v with
  | nil => rfl
  | cons e es ih =>
    rw [rows_cons]
    rw [ih fun e' he' => hp e' (mem_cons_of_mem _ he'), R.dlq_row]
    split
    · rw [filter_filter]
      apply filter_congr
      intro x _
      by_cases hx : x.id = e.2.id
      · rw [hp e mem_cons_self x hx, Bool.false_and]
      · rw [decide_eq_true hx, Bool.and_true]
    · rfl

theorem dlq_rows_sublist (es : List (Env × DLQRow)) :
    (R.dlq (R.rows es v).2).Sublist (R.dlq v) := by
  induction es generalizing v with
  | nil => exact Sublist.refl _
  | cons e es ih =>
    rw [rows_cons]
    refine ih.trans ?_
    rw [R.dlq_row]
    split
    · exact filter_sublist
    · exact Sublist.refl _

def examined (pages : List (Env × List DLQRow)) : List (Env × DLQRow) :=
  pages.flatMap fun p => p.2.map fun d => (p.1, d)

theorem map_snd_examined (pages : List (Env × List DLQRow)) :
    (examined pages).map Prod.snd = (pages.map Prod.snd).flatten := by
  induction pages with
  | nil => rfl
  | cons p pages ih =>
    rw [examined, flatMap_cons, map_append, map_cons, flatten_cons, ← ih,
      map_map]
    congr 1
    exact map_id _

/-- **pages of a real run are rows one after another** -/
theorem pages_eq_rows (pages : List (Env × List DLQRow)) :
    R.pages false pages v = R.rows (examined pages) v := by
  induction pages generalizing v with
  | nil => rfl
  | cons p pages ih =>
    rw [examined, flatMap_cons, rows_append, ← examined, ← ih]
    rfl

theorem pages_le (dryRun : Bool) (pages : List (Env × List DLQRow)) :
    (R.pages dryRun pages v).1 ≤ (examined pages).length := by
  induction pages generalizing v with
  | nil => exact Nat.le_refl _
  | cons p pages ih =>
    rw [examined, flatMap_cons, length_append]
    have h1 := rows_le (R := R) (v := v) (p.2.map fun d => (p.1, d))
    have h2 := ih (v := if dryRun then v else (R.rows (p.2.map fun d => (p.1, d)) v).2)
    exact Nat.add_le_add h1 h2

end ReplayRule

/-! ## a page -/

section
variable {σ V κ : Type}

def logCount : List ReplayLogRow → Nat
  | [] => 0
  | row :: rows => row.messageCount + logCount rows

theorem logCount_append (rows rows' : List ReplayLogRow) :
    logCount (rows ++ rows') = logCount rows + logCount rows' := by
  induction rows with
  | nil => exact (Nat.zero_add _).symm
  | cons row rows ih =>
    show row.messageCount + logCount (rows ++ rows') = row.messageCount + logCount rows + logCount rows'
    rw [ih, Nat.add_assoc]

/-- a page applies the rule to the rows it reads; a dry run counts and leaves the tables alone -/
structure Replays (R : ReplayRule V) (view : σ → V) (log : σ → List ReplayLogRow) (dryRun : Bool)
    (page : Env → UUID → Nat → σ → Except QueueError (ReplayPage κ × σ)) : Prop where
  refused : ∀ {env afterID n s e},
    R.refuses env (fetchDLQMessages afterID n (R.dlq (view s))) (view s) = some e →
    page env afterID n s = .error e
  done : ∀ {env afterID n s}, 0 < n →
    R.refuses env (fetchDLQMessages afterID n (R.dlq (view s))) (view s) = none →
    ∃ p s', page env afterID n s = .ok (p, s') ∧
      p.replayed = (R.rows ((fetchDLQMessages afterID n (R.dlq (view s))).map (env, ·)) (view s)).1 ∧
      p.lastID = lastCursor ((fetchDLQMessages afterID n (R.dlq (view s))).map DLQRow.id) afterID ∧
      p.fetched = (fetchDLQMessages afterID n (R.dlq (view s))).length ∧
      (dryRun = true → s' = s) ∧
      (dryRun = false →
        view s' = (R.rows ((fetchDLQMessages afterID n (R.dlq (view s))).map (env, ·)) (view s)).2 ∧
        ∃ new, log s' = log s ++ new ∧ logCount new = p.replayed)

def pastCursor (afterID : UUID) (dlq : List DLQRow) : List DLQRow :=
  (sorted DLQRow.id dlq).filter fun d => afterCursor afterID d.id

theorem fetchDLQMessages_eq {afterID : UUID} {n : Nat} {dlq : List DLQRow} (hpos : 0 < n)
    (hn : (dlq.map DLQRow.id).Nodup) :
    fetchDLQMessages afterID n dlq = (pastCursor afterID dlq).take n := by
  unfold fetchDLQMessages pastCursor
  rw [if_neg (Nat.pos_iff_ne_zero.mp hpos), ← sorted_filter hn]
  rfl

theorem pastCursor_page {afterID : UUID} {n : Nat} {dlq dlq' : List DLQRow}
    (hn : (dlq.map DLQRow.id).Nodup) (hn' : (dlq'.map DLQRow.id).Nodup)
    (hnil : ∀ d ∈ dlq, d.id ≠ UUID.nil) {x : DLQRow}
    (hx : ((pastCursor afterID dlq).take n).getLast? = some x)
    (hsame : (dlq'.filter fun d => decide (x.id < d.id)) =
      dlq.filter fun d => decide (x.id < d.id)) :
    pastCursor x.id dlq' = (pastCursor afterID dlq).drop n := by
  have hmem : x ∈ pastCursor afterID dlq := mem_of_mem_take (mem_of_getLast? hx)
  obtain ⟨hmem, hafter⟩ := mem_filter.mp hmem
  have hne : x.id ≠ UUID.nil := hnil x ((sorted_perm dlq).mem_iff.mp hmem)
  have hcur : ∀ d : DLQRow, afterCursor x.id d.id = decide (x.id < d.id) := by
    intro d
    unfold afterCursor
    rw [decide_eq_false hne, Bool.false_or]
  have hs : ((pastCursor afterID dlq).take n ++ (pastCursor afterID dlq).drop n).Pairwise
      fun a b => a.id < b.id := by
    rw [take_append_drop]
    exact (pairwise_sorted hn).sublist filter_sublist
  have hdrop := filter_after hs hx
  rw [take_append_drop] at hdrop
  rw [← hdrop]
  unfold pastCursor
  rw [filter_congr fun d _ => hcur d, ← sorted_filter hn', hsame, sorted_filter hn,
    filter_filter]
  apply filter_congr
  intro d _
  by_cases hlt : x.id < d.id
  · have : afterCursor afterID d.id = true := by
      unfold afterCursor at hafter ⊢
      rw [Bool.or_eq_true, decide_eq_true_iff, decide_eq_true_iff] at hafter ⊢
      exact hafter.imp_right fun h => Nat.lt_trans h hlt
    rw [this, Bool.and_true]
  · rw [decide_eq_false hlt, Bool.false_and]

/-! ## a call -/

def todo (limit : Nat) (result : ReplayDLQResult) (rest : List DLQRow) : List DLQRow :=
  if limit = 0 then rest else rest.take (limit - result.replayed - result.skipped).toNat

def pageLimit (size limit : Nat) (result : ReplayDLQResult) : Nat :=
  if limit > 0 ∧ limit - result.replayed - result.skipped < size then
    (limit - result.replayed - result.skipped).toNat
  else size

section
variable {size limit : Nat} {result : ReplayDLQResult} {rest : List DLQRow}

theorem take_pageLimit : rest.take (pageLimit size limit result) = (todo limit result rest).take size := by
  unfold pageLimit todo
  by_cases hl : limit = 0
  · rw [if_neg (by omega), if_pos hl]
  · rw [if_neg hl, take_take]
    split
    · congr 1
      omega
    · congr 1
      omega

theorem todo_drop {n : Nat} {result' : ReplayDLQResult}
    (hn : n = ((todo limit result rest).take size).length)
    (ht : result'.replayed + result'.skipped = result.replayed + result.skipped + n) :
    todo limit result' (rest.drop (pageLimit size limit result)) = (todo limit result rest).drop size := by
  unfold todo pageLimit at *
  by_cases hl : limit = 0
  · rw [if_pos hl, if_pos hl, if_neg (by omega)]
  · rw [if_neg hl] at hn ⊢
    rw [if_neg hl, drop_take]
    rw [length_take, length_take] at hn
    split
    · rename_i h
      rw [show (limit - result.replayed - result.skipped).toNat - size = 0 by omega, take_zero,
        take_eq_nil_iff]
      by_cases hlen : rest.length ≤ (limit - result.replayed - result.skipped).toNat
      · exact Or.inr (drop_eq_nil_of_le hlen)
      · left
        omega
    · by_cases hlen : rest.length ≤ size
      · rw [drop_eq_nil_of_le hlen, take_nil, take_nil]
      · congr 1
        omega

end

/-- every transaction goes through, and whether a page is refused depends on its rows alone, as
long as `I` holds of the view -/
structure Steady (R : ReplayRule V) (txn : Nat → Except QueueError Env) (I : V → Prop)
    (refuses : List DLQRow → Option QueueError) : Prop where
  row : ∀ env d v, I v → I (R.row env d v).2
  refuses_eq : ∀ i, ∃ env, txn i = .ok env ∧ ∀ ds v, I v → R.refuses env ds v = refuses ds
  refuses_nil : refuses [] = none

theorem Steady.rows {R : ReplayRule V} {txn : Nat → Except QueueError Env} {I : V → Prop}
    {refuses : List DLQRow → Option QueueError} (h : Steady R txn I refuses) {v : V} (hv : I v)
    (es : List (Env × DLQRow)) : I (R.rows es v).2 := by
  induction es generalizing v with
  | nil => exact hv
  | cons e es ih => exact ih (h.row e.1 e.2 v hv)

/-- a call, from `s` and with `result` so far: the pages are the next rows to examine, cut into
pages; the counts are those of the rule; every count is logged -/
structure Outcome (R : ReplayRule V) (view : σ → V) (log : σ → List ReplayLogRow) (dryRun : Bool) (size : Nat)
    (txn : Nat → Except QueueError Env) (result : ReplayDLQResult) (todo : List DLQRow) (s : σ)
    (call : ReplayDLQCall σ) : Prop where
  read : (call.pages.map Prod.snd).flatten <+: todo
  complete : call.error = none → (call.pages.map Prod.snd).flatten = todo
  cut : ∀ {I : V → Prop} {refuses : List DLQRow → Option QueueError}, Steady R txn I refuses →
    I (view s) → Chunked size refuses todo (call.pages.map Prod.snd) call.error
  clocked : ∀ p ∈ call.pages, ∃ i, txn i = .ok p.1
  replayed : call.result.replayed = result.replayed + (R.pages dryRun call.pages (view s)).1
  total : call.result.replayed + call.result.skipped =
    result.replayed + result.skipped + (call.pages.map Prod.snd).flatten.length
  final : view call.final = (R.pages dryRun call.pages (view s)).2
  dry : dryRun = true → call.final = s
  logged : dryRun = false →
    ∃ new, log call.final = log s ++ new ∧ logCount new = (R.pages false call.pages (view s)).1

section
variable {R : ReplayRule V} {view : σ → V} {log : σ → List ReplayLogRow} {dryRun : Bool} {size limit : Nat}
  {page : Env → UUID → Nat → σ → Except QueueError (ReplayPage κ × σ)}
  {txn : Nat → Except QueueError Env} {result result' : ReplayDLQResult} {rest : List DLQRow} {s s' : σ}
  {l ds : List DLQRow} {i : Nat} {env : Env} {e : Option QueueError} {call : ReplayDLQCall σ}
  {afterID : UUID}

theorem Outcome.stop (hl : e = none → l = [])
    (hcut : ∀ {I : V → Prop} {refuses : List DLQRow → Option QueueError}, Steady R txn I refuses →
      I (view s) → Chunked size refuses l [] e) (hr : result' = result) (hv : view s' = view s)
    (hs : dryRun = true → s' = s)
    (hlog : dryRun = false → ∃ new, log s' = log s ++ new ∧ logCount new = 0) :
    Outcome R view log dryRun size txn result l s ⟨result', e, [], s'⟩ where
  read := nil_prefix
  complete he := (hl he).symm
  cut := hcut
  clocked := nofun
  replayed := by
    rw [hr]
    exact (Int.add_zero _).symm
  total := by
    rw [hr]
    exact (Int.add_zero _).symm
  final := hv
  dry := hs
  logged := hlog

theorem Outcome.halt (hl : e = none → l = [])
    (hcut : ∀ {I : V → Prop} {refuses : List DLQRow → Option QueueError}, Steady R txn I refuses →
      I (view s) → Chunked size refuses l [] e) :
    Outcome R view log dryRun size txn result l s ⟨result, e, [], s⟩ :=
  .stop hl hcut rfl rfl (fun _ => rfl) fun _ => ⟨[], (append_nil _).symm, rfl⟩

theorem Outcome.nothing : Outcome R view log dryRun size txn result [] s ⟨result, none, [], s⟩ :=
  .halt (fun _ => rfl) fun _ _ => .nil

theorem Outcome.failed {e : QueueError} (htxn : txn i = .error e) :
    Outcome R view log dryRun size txn result l s ⟨result, some e, [], s⟩ := by
  refine .halt nofun fun hsteady _ => ?_
  obtain ⟨env, henv, -⟩ := hsteady.refuses_eq i
  cases htxn.symm.trans henv

theorem Outcome.refused {e : QueueError} (htxn : txn i = .ok env)
    (href : R.refuses env (l.take size) (view s) = some e) :
    Outcome R view log dryRun size txn result l s ⟨result, some e, [], s⟩ := by
  refine .halt nofun fun {I refuses} hsteady hI => ?_
  obtain ⟨env', henv', heq⟩ := hsteady.refuses_eq i
  cases htxn.symm.trans henv'
  rw [heq _ _ hI] at href
  refine .fail (fun hl => ?_) href
  rw [hl, take_nil, hsteady.refuses_nil] at href
  cases href

theorem Outcome.empty (hr : result' = result) (hdry : dryRun = true → s' = s)
    (hreal : dryRun = false → view s' = view s ∧ ∃ new, log s' = log s ++ new ∧ logCount new = 0) :
    Outcome R view log dryRun size txn result [] s ⟨result', none, [], s'⟩ := by
  refine .stop (fun _ => rfl) (fun _ _ => .nil) hr ?_ hdry fun h => (hreal h).2
  cases dryRun with
  | true => rw [hdry rfl]
  | false => exact (hreal rfl).1

theorem Outcome.cons {n : Nat} (hds : ds = l.take size) (hl : l ≠ []) (htxn : txn i = .ok env)
    (href : R.refuses env ds (view s) = none) (hn : n = (R.rows (ds.map fun d => (env, d)) (view s)).1)
    (hr : result'.replayed = result.replayed + n)
    (ht : result'.replayed + result'.skipped = result.replayed + result.skipped + ds.length)
    (hdry : dryRun = true → s' = s)
    (hreal : dryRun = false → view s' = (R.rows (ds.map fun d => (env, d)) (view s)).2 ∧
      ∃ new, log s' = log s ++ new ∧ logCount new = n)
    (h : Outcome R view log dryRun size txn result' (l.drop size) s' call) :
    Outcome R view log dryRun size txn result l s (call.read env ds) := by
  have hnext : view s' = if dryRun then view s else (R.rows (ds.map fun d => (env, d)) (view s)).2 := by
    cases dryRun with
    | true =>
      rw [hdry rfl]
      rfl
    | false => exact (hreal rfl).1
  have hpages : R.pages dryRun ((env, ds) :: call.pages) (view s) =
      (n + (R.pages dryRun call.pages (view s')).1, (R.pages dryRun call.pages (view s')).2) := by
    rw [hn, hnext]
    rfl
  refine ⟨?_, ?_, ?_, ?_, ?_, ?_, ?_, ?_, ?_⟩
  · rw [hds]
    conv => rhs; rw [← take_append_drop size l]
    exact (prefix_append_right_inj _).mpr h.read
  · intro he
    show ds ++ (call.pages.map Prod.snd).flatten = l
    rw [hds, h.complete he, take_append_drop]
  · intro I refuses hsteady hI
    have hI' : I (view s') := by
      rw [hnext]
      split
      · exact hI
      · exact hsteady.rows hI _
    have hpass : refuses (l.take size) = none := by
      obtain ⟨env', henv', heq⟩ := hsteady.refuses_eq i
      cases htxn.symm.trans henv'
      rw [← hds, ← heq ds _ hI, href]
    rw [hds]
    exact .cons hl hpass (h.cut hsteady hI')
  · intro p hp
    rcases mem_cons.mp hp with rfl | hp
    · exact ⟨i, htxn⟩
    · exact h.clocked p hp
  · show call.result.replayed = _
    rw [h.replayed, hr, ReplayDLQCall.read, hpages]
    push_cast
    omega
  · show call.result.replayed + call.result.skipped = _
    rw [h.total, ht]
    show _ = _ + ((ds ++ (call.pages.map Prod.snd).flatten).length : Int)
    rw [length_append]
    push_cast
    omega
  · show view call.final = _
    rw [h.final, ReplayDLQCall.read, hpages]
  · intro hd
    exact (h.dry hd).trans (hdry hd)
  · intro hd
    subst hd
    obtain ⟨-, new, hnew, hcount⟩ := hreal rfl
    obtain ⟨new', hnew', hcount'⟩ := h.logged rfl
    refine ⟨new ++ new', ?_, ?_⟩
    · show log call.final = _
      rw [hnew', hnew, append_assoc]
    · rw [ReplayDLQCall.read, hpages, logCount_append, hcount, hcount']

variable {dlq : σ → List DLQRow}

theorem executeReplayDLQ_succ (fuel i : Nat) (afterID : UUID) :
    executeReplayDLQ size limit dlq page txn (fuel + 1) i afterID result s =
      if limit > 0 ∧ limit - result.replayed - result.skipped ≤ 0 then some ⟨result, none, [], s⟩
      else
        match txn i with
        | .error e => some ⟨result, some e, [], s⟩
        | .ok env =>
          match page env afterID (pageLimit size limit result) s with
          | .error e => some ⟨result, some e, [], s⟩
          | .ok (p, s') =>
            if p.fetched = 0 then
              some ⟨⟨result.replayed + p.replayed, result.skipped + (p.fetched - p.replayed)⟩, none, [], s'⟩
            else
              (executeReplayDLQ size limit dlq page txn fuel (i + 1) p.lastID
                ⟨result.replayed + p.replayed, result.skipped + (p.fetched - p.replayed)⟩ s').map
                (ReplayDLQCall.read env (fetchDLQMessages afterID (pageLimit size limit result) (dlq s))) :=
  rfl

theorem todo_of_reached (h : limit > 0 ∧ limit - result.replayed - result.skipped ≤ 0) :
    todo limit result rest = [] := by
  unfold todo
  rw [if_neg (by omega), show (limit - result.replayed - result.skipped).toNat = 0 by omega,
    take_zero]

theorem pageLimit_pos (hsize : 0 < size)
    (h : ¬ (limit > 0 ∧ limit - result.replayed - result.skipped ≤ 0)) :
    0 < pageLimit size limit result := by
  unfold pageLimit
  split
  · omega
  · exact hsize

theorem todo_next {x : DLQRow} {v v' : V} (hn : ((R.dlq v).map DLQRow.id).Nodup)
    (hnil : ∀ d ∈ R.dlq v, d.id ≠ UUID.nil)
    (hds : ds = (todo limit result (pastCursor afterID (R.dlq v))).take size)
    (hx : ds.getLast? = some x) (hv : v' = v ∨ v' = (R.rows (ds.map fun d => (env, d)) v).2)
    (ht : result'.replayed + result'.skipped = result.replayed + result.skipped + ds.length) :
    ((R.dlq v').map DLQRow.id).Nodup ∧ (∀ d ∈ R.dlq v', d.id ≠ UUID.nil) ∧
      todo limit result' (pastCursor x.id (R.dlq v')) =
        (todo limit result (pastCursor afterID (R.dlq v))).drop size := by
  have hsub : (R.dlq v').Sublist (R.dlq v) := by
    rcases hv with rfl | rfl
    · exact Sublist.refl _
    · exact R.dlq_rows_sublist _
  have hn' : ((R.dlq v').map DLQRow.id).Nodup := (hsub.map DLQRow.id).nodup hn
  have htake : ds = (pastCursor afterID (R.dlq v)).take (pageLimit size limit result) := by
    rw [take_pageLimit, hds]
  -- no row of the page is after its last row
  have hpast : ∀ d ∈ ds, ¬ x.id < d.id := by
    intro d hd hlt
    have hs : (ds ++ []).Pairwise fun a b : DLQRow => a.id < b.id := by
      rw [append_nil, htake]
      exact ((pairwise_sorted hn).sublist filter_sublist).sublist (take_sublist _ _)
    have hnone := filter_after hs hx
    rw [append_nil, filter_eq_nil_iff] at hnone
    exact hnone d hd (decide_eq_true hlt)
  have hsame : (R.dlq v').filter (fun d => decide (x.id < d.id)) =
      (R.dlq v).filter fun d => decide (x.id < d.id) := by
    rcases hv with rfl | rfl
    · rfl
    · refine R.filter_dlq_rows _ fun e he y hy => ?_
      obtain ⟨d, hd, rfl⟩ := mem_map.mp he
      rw [hy]
      exact decide_eq_false (hpast d hd)
  rw [htake] at hx
  refine ⟨hn', fun d hd => hnil d (hsub.subset hd), ?_⟩
  rw [pastCursor_page hn hn' hnil hx hsame]
  exact todo_drop (by rw [hds]) ht

/-- **a call examines the dead letters in order, each once, and applies the rule to them** -/
theorem executeReplayDLQ_outcome (hR : Replays R view log dryRun page) (hsize : 0 < size)
    (hd : ∀ s, dlq s = R.dlq (view s)) (fuel i : Nat) (afterID : UUID)
    (hn : ((R.dlq (view s)).map DLQRow.id).Nodup) (hnil : ∀ d ∈ R.dlq (view s), d.id ≠ UUID.nil)
    (hfuel : (todo limit result (pastCursor afterID (R.dlq (view s)))).length < fuel) :
    ∃ call, executeReplayDLQ size limit dlq page txn fuel i afterID result s = some call ∧
      Outcome R view log dryRun size txn result (todo limit result (pastCursor afterID (R.dlq (view s)))) s
        call := by
  induction fuel generalizing i afterID result s with
  | zero => omega
  | succ fuel ih =>
    rw [executeReplayDLQ_succ]
    split
    · rename_i hstop
      rw [todo_of_reached hstop]
      exact ⟨_, rfl, .nothing⟩
    · rename_i hgo
      have hpos := pageLimit_pos hsize hgo
      cases htxn : txn i with
      | error e => exact ⟨_, rfl, .failed htxn⟩
      | ok env =>
        dsimp only
        have hfetch : fetchDLQMessages afterID (pageLimit size limit result) (R.dlq (view s)) =
            (todo limit result (pastCursor afterID (R.dlq (view s)))).take size := by
          rw [fetchDLQMessages_eq hpos hn, take_pageLimit]
        cases href : R.refuses env (fetchDLQMessages afterID (pageLimit size limit result)
            (R.dlq (view s))) (view s) with
        | some e =>
          rw [hR.refused href]
          exact ⟨_, rfl, .refused htxn (hfetch ▸ href)⟩
        | none =>
          obtain ⟨p, s', hp, hrep, hlast, hlen, hdry, hreal⟩ := hR.done hpos href
          rw [hp, hd]
          dsimp only
          rw [hfetch] at hrep hlast hlen hreal href ⊢
          split
          · -- an empty page ends the call
            rename_i h0
            have hnone : (todo limit result (pastCursor afterID (R.dlq (view s)))).take size = [] :=
              eq_nil_of_length_eq_zero (hlen.symm.trans h0)
            have hl : todo limit result (pastCursor afterID (R.dlq (view s))) = [] := by
              rcases take_eq_nil_iff.mp hnone with h | h
              · omega
              · exact h
            rw [hnone] at hrep hreal
            have hrep0 : p.replayed = 0 := hrep
            rw [hl]
            refine ⟨_, rfl, .empty ?_ hdry fun h => ?_⟩
            · rw [hrep0, h0]
              simp
            · obtain ⟨hview, new, hnew, hcount⟩ := hreal h
              exact ⟨hview, new, hnew, hcount.trans hrep0⟩
          · rename_i h0
            have hne : (todo limit result (pastCursor afterID (R.dlq (view s)))).take size ≠ [] :=
              fun he => h0 (by rw [hlen, he]; rfl)
            have hl : todo limit result (pastCursor afterID (R.dlq (view s))) ≠ [] :=
              fun he => hne (by rw [he, take_nil])
            obtain ⟨x, hx⟩ := Option.isSome_iff_exists.mp (getLast?_isSome.mpr hne)
            have hid : p.lastID = x.id := by
              rw [hlast, lastCursor, getLast?_map, hx]
              rfl
            have hv : view s' = view s ∨ view s' = (R.rows (((todo limit result
                (pastCursor afterID (R.dlq (view s)))).take size).map fun d => (env, d)) (view s)).2 := by
              cases dryRun with
              | true => exact Or.inl (by rw [hdry rfl])
              | false => exact Or.inr (hreal rfl).1
            have ht : result.replayed + p.replayed + (result.skipped + (p.fetched - p.replayed)) =
                result.replayed + result.skipped +
                  (((todo limit result (pastCursor afterID (R.dlq (view s)))).take size).length : Int) := by
              rw [← hlen]
              omega
            obtain ⟨result', hresult'⟩ : ∃ r : ReplayDLQResult, r =
                ⟨result.replayed + p.replayed, result.skipped + (p.fetched - p.replayed)⟩ := ⟨_, rfl⟩
            rw [← hresult']
            have hr : result'.replayed = result.replayed + p.replayed := by rw [hresult']
            have ht' : result'.replayed + result'.skipped = result.replayed + result.skipped +
                (((todo limit result (pastCursor afterID (R.dlq (view s)))).take size).length : Int) := by
              rw [← ht, hresult']
            obtain ⟨hn', hnil', hnext⟩ := todo_next hn hnil rfl hx hv ht'
            rw [← hid] at hnext
            obtain ⟨call, hcall, hout⟩ := ih (i + 1) p.lastID hn' hnil' (by
              rw [hnext, length_drop]
              have := length_pos_iff.mpr hl
              omega)
            rw [hnext] at hout
            rw [hcall]
            exact ⟨_, rfl, hout.cons rfl hl htxn href hrep hr ht' hdry hreal⟩

theorem executeReplayDLQ_keeps {P : σ → Prop}
    (hP : ∀ {env afterID n s p s'}, P s → page env afterID n s = .ok (p, s') → P s') {fuel : Nat}
    (h : executeReplayDLQ size limit dlq page txn fuel i afterID result s = some call) (hs : P s) :
    P call.final := by
  induction fuel generalizing i afterID result s call with
  | zero => cases h
  | succ fuel ih =>
    rw [executeReplayDLQ_succ] at h
    split at h
    · cases h
      exact hs
    · cases htxn : txn i with
      | error e =>
        rw [htxn] at h
        cases h
        exact hs
      | ok env =>
        rw [htxn] at h
        dsimp only at h
        cases hp : page env afterID (pageLimit size limit result) s with
        | error e =>
          rw [hp] at h
          cases h
          exact hs
        | ok ps =>
          rw [hp] at h
          dsimp only at h
          split at h
          · cases h
            exact hP hs hp
          · obtain ⟨call', hcall', rfl⟩ := Option.map_eq_some_iff.mp h
            have hfinal : P call'.final := ih hcall' (hP hs hp)
            exact hfinal

end
end
end PgQueue
