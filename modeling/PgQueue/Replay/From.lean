import PgQueue.Pages
import PgQueue.Relational.Keyset
import PgQueue.Relational.Table

/-!
# ReplayFrom: the pages of one call

`executeReplayFrom` resets rows to pending in pages, each a transaction of its own, with a keyset cursor
and, if the caller set a limit, a budget of rows to reset.  It is one function for both kinds of queue;
what differs is collected in `Replaying`.

* `executeReplayFrom`    the loop, with what the transactions of others do before each page;
* `replayFrom`           the call, dry or not;
* `Lawful`               what is asked of a page;
* `executeReplayFrom_alone`   **without others a call resets the first rows in the order of their ids, up
                         to the limit**;
* `executeReplayFrom_once`    **whatever others do, it resets no row twice and stays within the limit.**
-/

namespace PgQueue
open Relational List

/-! ## the call -/

structure ReplayOptions where
  dryRun : Bool
  limit : Int
  performedBy : Option String
deriving DecidableEq, Repr

inductive ReplayError where
  | queueClosed
  | invalidConfig
  | invalidPerformedBy
  | queueNotFound
  | failed (e : QueueError)
deriving DecidableEq, Repr

def maxPerformedByLen : Nat := 256

/-- `unicode.IsControl` -/
def isControl (c : Char) : Bool := c.toNat < 0x20 || (0x7F ≤ c.toNat && c.toNat ≤ 0x9F)

def validateReplayOpts (opts : ReplayOptions) : Except ReplayError Unit :=
  if opts.limit < 0 then .error .invalidConfig
  else if (opts.performedBy.getD "").utf8ByteSize > maxPerformedByLen then .error .invalidPerformedBy
  else if (opts.performedBy.getD "").toList.any isControl then .error .invalidPerformedBy
  else .ok ()

def defaultReplayPageSize : Nat := 100

/-- a page is never larger than what is left of the limit -/
def pageLimitOf (limit total : Nat) : Nat :=
  let remaining := limit - total
  if limit > 0 ∧ remaining < defaultReplayPageSize then remaining else defaultReplayPageSize

/-- what a replay sees of a queue: its rows, those published since the cutoff that are neither pending
nor processing, a page, the counts in the audit log, and what a replay has no business with -/
structure Replaying (σ ρ κ φ : Type) where
  rows : σ → List ρ
  id : ρ → UUID
  eligible : σ → ρ → Bool
  reset : ρ → ρ
  page : Env → UUID → Nat → σ → ReplayPage κ × σ
  logged : σ → List Nat
  rest : σ → φ

/-- a call so far.  `returned` is `none` while the loop goes on; `pages` are the tables before and after
each page, which the source does not return -/
structure ReplayRun (σ : Type) where
  total : Nat
  returned : Option (Except QueueError Unit)
  pages : List (σ × σ)
  final : σ

section
variable {σ ρ κ φ : Type} (R : Replaying σ ρ κ φ)

def Replaying.fetch (afterID : UUID) (n : Nat) (s : σ) : List ρ :=
  (sorted R.id ((R.rows s).filter fun r => R.eligible s r && afterCursor afterID (R.id r))).take n

def ReplayRun.after (page : σ × σ) (run : ReplayRun σ) : ReplayRun σ :=
  { run with pages := page :: run.pages }

/-- the loop.  `txn i s` is what page `i` finds: the tables as others have left them, and what its
transaction sees, or the error the database fails it with; the first argument bounds the number of
pages -/
def Replaying.executeReplayFrom (limit : Nat) (txn : Nat → σ → Except QueueError (Env × σ)) :
    Nat → Nat → UUID → Nat → σ → ReplayRun σ
  | 0, _, _, total, s => ⟨total, none, [], s⟩
  | fuel + 1, i, afterID, total, s =>
    if limit > 0 ∧ limit ≤ total then ⟨total, some (.ok ()), [], s⟩
    else
      let pageLimit := pageLimitOf limit total
      match txn i s with
      | .error e => ⟨total, some (.error e), [], s⟩
      | .ok (env, s) =>
        let (page, s') := R.page env afterID pageLimit s
        if page.fetched = 0 then ⟨total + page.replayed, some (.ok ()), [(s, s')], s'⟩
        else
          (Replaying.executeReplayFrom limit txn fuel (i + 1) page.lastID (total + page.replayed)
            s').after (s, s')

def Replaying.countReplayableMessages (s : σ) : Nat := ((R.rows s).filter (R.eligible s)).length

/-- a run that fails reports nothing; `none` stands for a call that has not returned within `fuel`
pages -/
def Replaying.replayFrom (closed registered : Bool) (opts : ReplayOptions)
    (txn : Nat → σ → Except QueueError (Env × σ)) (fuel : Nat) (s : σ) :
    Option (Except ReplayError Nat × σ) :=
  if closed then some (.error .queueClosed, s)
  else
    match validateReplayOpts opts with
    | .error e => some (.error e, s)
    | .ok () =>
      if !registered then some (.error .queueNotFound, s)
      else if opts.dryRun then
        let count := R.countReplayableMessages s
        some (.ok (if opts.limit > 0 ∧ (count : Int) > opts.limit then opts.limit.toNat else count), s)
      else
        let run := R.executeReplayFrom opts.limit.toNat txn fuel 0 UUID.nil 0 s
        run.returned.map fun
          | .ok () => (.ok run.total, run.final)
          | .error e => (.error (.failed e), run.final)

/-! ## what is asked of a page -/

def Replaying.Distinct (s : σ) : Prop := ((R.rows s).map R.id).Nodup

def Replaying.resetIDs (ids : List UUID) (rows : List ρ) : List ρ :=
  rows.map fun r => if ids.contains (R.id r) then R.reset r else r

/-- a page resets the rows it fetches, and logs their number if there are any -/
structure Replaying.Lawful : Prop where
  id_reset : ∀ r, R.id (R.reset r) = R.id r
  eligible_reset : ∀ s r, R.eligible s (R.reset r) = false
  replayed : ∀ env a n s, R.Distinct s → (R.page env a n s).1.replayed = (R.fetch a n s).length
  fetched : ∀ env a n s, (R.page env a n s).1.fetched = (R.fetch a n s).length
  lastID : ∀ env a n s, (R.page env a n s).1.lastID = lastCursor ((R.fetch a n s).map R.id) a
  rows : ∀ env a n s, R.Distinct s →
    R.rows (R.page env a n s).2 = R.resetIDs ((R.fetch a n s).map R.id) (R.rows s)
  eligible : ∀ env a n s, R.eligible (R.page env a n s).2 = R.eligible s
  logged : ∀ env a n s, R.Distinct s → R.logged (R.page env a n s).2 =
    R.logged s ++ if R.fetch a n s = [] then [] else [(R.fetch a n s).length]
  rest : ∀ env a n s, R.rest (R.page env a n s).2 = R.rest s

end

section
variable {σ ρ κ φ : Type} {R : Replaying σ ρ κ φ} {s : σ} {a : UUID} {n : Nat}

def Replaying.all (R : Replaying σ ρ κ φ) (s : σ) : List ρ :=
  sorted R.id ((R.rows s).filter (R.eligible s))

theorem Replaying.Distinct.filter (hd : R.Distinct s) (p : ρ → Bool) :
    (((R.rows s).filter p).map R.id).Nodup := (filter_sublist.map R.id).nodup hd

theorem Replaying.mem_all {r : ρ} : r ∈ R.all s ↔ r ∈ R.rows s ∧ R.eligible s r = true := by
  unfold Replaying.all
  rw [(sorted_perm _).mem_iff, mem_filter]

theorem Replaying.Distinct.pairwise_all (hd : R.Distinct s) :
    (R.all s).Pairwise fun a b => R.id a < R.id b := pairwise_sorted (hd.filter _)

theorem Replaying.Distinct.nodup_all (hd : R.Distinct s) : ((R.all s).map R.id).Nodup :=
  pairwise_map.mpr (hd.pairwise_all.imp Nat.ne_of_lt)

theorem Replaying.fetch_eq (hd : R.Distinct s) :
    R.fetch a n s = ((R.all s).filter fun r => afterCursor a (R.id r)).take n := by
  unfold Replaying.fetch Replaying.all
  rw [← sorted_filter (hd.filter _), filter_filter]
  simp only [Bool.and_comm]

theorem Replaying.fetch_sublist (hd : R.Distinct s) : (R.fetch a n s).Sublist (R.all s) := by
  rw [Replaying.fetch_eq hd]
  exact (take_sublist _ _).trans filter_sublist

theorem Replaying.Distinct.perm_fetch (hd : R.Distinct s) {settled : ρ → Bool}
    (hset : ∀ r, R.eligible s r = true → settled r = true) :
    ((R.rows s).filter fun r => ((R.fetch a n s).map R.id).contains (R.id r) && settled r).Perm
      (R.fetch a n s) := by
  have hsub := Replaying.fetch_sublist (a := a) (n := n) hd
  have hrows : (R.rows s).Nodup := Nodup.of_map R.id hd
  refine (perm_ext_iff_of_nodup (hrows.filter _)
    (hsub.nodup (Nodup.of_map R.id hd.nodup_all))).mpr fun r => ?_
  rw [mem_filter, Bool.and_eq_true, contains_iff_mem, mem_map]
  constructor
  · rintro ⟨hr, ⟨x, hx, he⟩, -⟩
    have hx' := (Replaying.mem_all.mp (hsub.subset hx)).1
    rw [← inj_on_of_nodup_map hd hx' hr he]
    exact hx
  · intro hr
    obtain ⟨hmem, hel⟩ := Replaying.mem_all.mp (hsub.subset hr)
    exact ⟨hmem, ⟨r, hr, rfl⟩, hset r hel⟩

theorem Replaying.Distinct.map_fetch (hd : R.Distinct s) {settled : ρ → Bool}
    (hset : ∀ r, R.eligible s r = true → settled r = true) :
    ((R.rows s).map fun r => if ((R.fetch a n s).map R.id).contains (R.id r) && settled r then R.reset r
      else r) = R.resetIDs ((R.fetch a n s).map R.id) (R.rows s) := by
  refine map_congr_left fun r hr => ?_
  cases hc : ((R.fetch a n s).map R.id).contains (R.id r) with
  | false => rfl
  | true =>
    obtain ⟨x, hx, he⟩ := mem_map.mp (contains_iff_mem.mp hc)
    obtain ⟨hx, hel⟩ := Replaying.mem_all.mp ((Replaying.fetch_sublist hd).subset hx)
    rw [← inj_on_of_nodup_map hd hx hr he, hset x hel, Bool.and_true]

variable (hl : R.Lawful)
include hl

theorem Replaying.Lawful.map_id_resetIDs (ids : List UUID) (rows : List ρ) :
    (R.resetIDs ids rows).map R.id = rows.map R.id := by
  unfold Replaying.resetIDs
  rw [map_map]
  refine map_congr_left fun r _ => ?_
  show R.id (if ids.contains (R.id r) then R.reset r else r) = R.id r
  split
  · exact hl.id_reset r
  · rfl

theorem Replaying.Lawful.distinct_page (hd : R.Distinct s) (env : Env) :
    R.Distinct (R.page env a n s).2 := by
  unfold Replaying.Distinct
  rw [hl.rows env a n s hd, hl.map_id_resetIDs]
  exact hd

theorem Replaying.Lawful.all_page (hd : R.Distinct s) (env : Env) :
    R.all (R.page env a n s).2 =
      (R.all s).filter fun r => !((R.fetch a n s).map R.id).contains (R.id r) := by
  unfold Replaying.all
  rw [hl.rows env a n s hd, hl.eligible]
  unfold Replaying.resetIDs
  rw [filter_map_ite fun r _ _ => hl.eligible_reset s r, sorted_filter (hd.filter _)]

theorem Replaying.Lawful.resetIDs_append (ids ids' : List UUID) (rows : List ρ)
    (hdis : ∀ id ∈ ids, id ∉ ids') :
    R.resetIDs ids' (R.resetIDs ids rows) = R.resetIDs (ids ++ ids') rows := by
  unfold Replaying.resetIDs
  rw [map_map]
  refine map_congr_left fun r _ => ?_
  have happ : (ids ++ ids').contains (R.id r) = (ids.contains (R.id r) || ids'.contains (R.id r)) :=
    contains_append
  simp only [Function.comp]
  rw [happ]
  cases hc : ids.contains (R.id r) with
  | true =>
    have hno : ids'.contains (R.id r) = false := by
      rw [Bool.eq_false_iff, Ne, contains_iff_mem]
      exact hdis _ (contains_iff_mem.mp hc)
    rw [Bool.true_or, if_pos rfl, hl.id_reset, hno, if_neg Bool.false_ne_true]
  | false => rw [if_neg Bool.false_ne_true, Bool.false_or]

end

/-! ## a call alone -/

/-- the first rows up to the limit, `total` of which are done -/
def firstUpTo {ρ : Type} (limit total : Nat) (rows : List ρ) : List ρ :=
  if limit = 0 then rows else rows.take (limit - total)

section
variable {ρ : Type} {limit total n : Nat} {rows : List ρ}

theorem pageLimitOf_pos (h : ¬ (limit > 0 ∧ limit ≤ total)) : 0 < pageLimitOf limit total := by
  unfold pageLimitOf defaultReplayPageSize
  dsimp only
  split
  · omega
  · decide

theorem pageLimitOf_le (h : limit > 0) : pageLimitOf limit total ≤ limit - total := by
  unfold pageLimitOf
  dsimp only
  split
  · exact Nat.le_refl _
  · omega

theorem firstUpTo_step (hn : limit > 0 → n ≤ limit - total) :
    firstUpTo limit total rows =
      rows.take n ++ firstUpTo limit (total + (rows.take n).length) (rows.drop n) := by
  unfold firstUpTo
  by_cases h0 : limit = 0
  · rw [if_pos h0, if_pos h0, take_append_drop]
  · rw [if_neg h0, if_neg h0, length_take]
    have hle := hn (Nat.pos_of_ne_zero h0)
    by_cases hlen : n ≤ rows.length
    · rw [Nat.min_eq_left hlen, ← take_add]
      congr 1
      omega
    · have hshort : rows.length ≤ n := Nat.le_of_lt (Nat.lt_of_not_le hlen)
      rw [drop_of_length_le hshort, take_nil, append_nil,
        take_of_length_le hshort, take_of_length_le (Nat.le_trans hshort hle)]

theorem filter_not_take {id : ρ → UUID} (hn : (rows.map id).Nodup) (n : Nat) :
    (rows.filter fun r => !((rows.take n).map id).contains (id r)) = rows.drop n := by
  have hsplit := take_append_drop n rows
  generalize rows.take n = front at hsplit ⊢
  generalize rows.drop n = back at hsplit ⊢
  subst hsplit
  rw [map_append, nodup_append] at hn
  obtain ⟨-, -, hdis⟩ := hn
  have hfront : (front.filter fun r => !(front.map id).contains (id r)) = [] := by
    rw [filter_eq_nil_iff]
    intro r hr
    rw [Bool.not_eq_true, Bool.not_eq_false', contains_iff_mem]
    exact mem_map_of_mem hr
  have hback : (back.filter fun r => !(front.map id).contains (id r)) = back := by
    rw [filter_eq_self]
    intro r hr
    rw [Bool.not_eq_true', Bool.eq_false_iff, Ne, contains_iff_mem]
    exact fun hm => hdis _ hm _ (mem_map_of_mem hr) rfl
  rw [filter_append, hfront, hback, nil_append]

end

section
variable {σ ρ κ φ : Type} {R : Replaying σ ρ κ φ} {s : σ} {a : UUID} {limit total : Nat}

/-- what a call does that no other transaction interferes with -/
structure Replaying.Alone (R : Replaying σ ρ κ φ) (limit total : Nat) (s : σ) (run : ReplayRun σ) :
    Prop where
  returned : run.returned = some (.ok ())
  count : run.total = total + (firstUpTo limit total (R.all s)).length
  rows : R.rows run.final = R.resetIDs ((firstUpTo limit total (R.all s)).map R.id) (R.rows s)
  logged : ∃ counts, R.logged run.final = R.logged s ++ counts ∧
    counts.foldr (· + ·) 0 = (firstUpTo limit total (R.all s)).length
  rest : R.rest run.final = R.rest s

theorem resetIDs_nil (rows : List ρ) : R.resetIDs [] rows = rows := by
  unfold Replaying.resetIDs
  exact (map_congr_left fun r _ => if_neg Bool.false_ne_true).trans (map_id _)

variable {run : ReplayRun σ} {n : Nat}

theorem Replaying.Alone.stop (h : firstUpTo limit total (R.all s) = [])
    (hret : run.returned = some (.ok ())) (htotal : run.total = total)
    (hrows : R.rows run.final = R.rows s) (hlog : R.logged run.final = R.logged s)
    (hrest : R.rest run.final = R.rest s) : R.Alone limit total s run := by
  refine ⟨hret, ?_, ?_, ⟨[], ?_, ?_⟩, hrest⟩
  · rw [h, htotal]
    rfl
  · rw [h, hrows]
    exact (resetIDs_nil _).symm
  · rw [hlog, append_nil]
  · rw [h]
    rfl

variable (hl : R.Lawful)
include hl

theorem Replaying.Alone.page {env : Env} (hd : R.Distinct s) (hfetch : R.fetch a n s = (R.all s).take n)
    (hn : limit > 0 → n ≤ limit - total)
    (h : R.Alone limit (total + (R.fetch a n s).length) (R.page env a n s).2 run) :
    R.Alone limit total s (run.after (s, (R.page env a n s).2)) := by
  have hall : R.all (R.page env a n s).2 = (R.all s).drop n := by
    rw [hl.all_page hd, hfetch, filter_not_take hd.nodup_all]
  have hstep : firstUpTo limit total (R.all s) = R.fetch a n s ++
      firstUpTo limit (total + (R.fetch a n s).length) (R.all (R.page env a n s).2) := by
    rw [hall, hfetch]
    exact firstUpTo_step hn
  obtain ⟨counts, hcounts, hsum⟩ := h.logged
  refine ⟨h.returned, ?_, ?_, ⟨(if R.fetch a n s = [] then [] else [(R.fetch a n s).length]) ++ counts,
    ?_, ?_⟩, h.rest.trans (hl.rest env a n s)⟩
  · rw [hstep, length_append, ← Nat.add_assoc]
    exact h.count
  · rw [hstep, map_append]
    refine h.rows.trans ?_
    rw [hl.rows env a n s hd]
    refine hl.resetIDs_append _ _ _ fun id hid hid' => ?_
    -- the rows of the later pages are behind those of this one
    have hnd := hd.nodup_all
    rw [← take_append_drop n (R.all s), map_append, nodup_append] at hnd
    rw [hfetch] at hid
    refine hnd.2.2 id hid id ?_ rfl
    rw [hall] at hid'
    obtain ⟨r, hr, he⟩ := mem_map.mp hid'
    refine mem_map.mpr ⟨r, ?_, he⟩
    unfold firstUpTo at hr
    split at hr
    · exact hr
    · exact mem_of_mem_take hr
  · refine hcounts.trans ?_
    rw [hl.logged env a n s hd, append_assoc]
  · rw [hstep, foldr_append, hsum, length_append]
    split
    · rename_i hnil
      rw [hnil]
      exact (Nat.zero_add _).symm
    · rfl

theorem Replaying.Alone.empty {env : Env} (hd : R.Distinct s) (hnil : R.fetch a n s = [])
    (hall : R.all s = []) (hret : run.returned = some (.ok ()))
    (htotal : run.total = total + (R.page env a n s).1.replayed)
    (hfinal : run.final = (R.page env a n s).2) : R.Alone limit total s run := by
  refine Replaying.Alone.stop ?_ hret ?_ ?_ ?_ ?_
  · rw [hall]
    unfold firstUpTo
    rw [take_nil, ite_self]
  · rw [htotal, hl.replayed _ _ _ _ hd, hnil]
    rfl
  · rw [hfinal, hl.rows _ _ _ _ hd, hnil]
    exact resetIDs_nil _
  · rw [hfinal, hl.logged _ _ _ _ hd, hnil, if_pos rfl, append_nil]
  · rw [hfinal]
    exact hl.rest _ _ _ _

omit hl in
theorem Replaying.Distinct.afterCursor_drop (hd : R.Distinct s) (hne : (R.all s).take n ≠ []) {r : ρ}
    (hr : r ∈ (R.all s).drop n) :
    afterCursor (lastCursor (((R.all s).take n).map R.id) a) (R.id r) = true := by
  have hsorted := hd.pairwise_all
  rw [← take_append_drop n (R.all s)] at hsorted
  have hids : ((R.all s).take n).map R.id ≠ [] := fun h => hne (map_eq_nil_iff.mp h)
  obtain ⟨x, hx, he⟩ := mem_map.mp (mem_lastCursor a hids)
  unfold afterCursor
  rw [← he, decide_eq_true ((pairwise_append.mp hsorted).2.2 x hx r hr), Bool.or_true]

theorem Replaying.Lawful.executeReplayFrom_alone {envs : Nat → Env} {fuel i : Nat}
    (hd : R.Distinct s) (hafter : ∀ r ∈ R.all s, afterCursor a (R.id r) = true)
    (hfuel : (R.all s).length < fuel) :
    R.Alone limit total s
      (R.executeReplayFrom limit (fun i s => .ok (envs i, s)) fuel i a total s) := by
  induction fuel generalizing i a total s with
  | zero => exact absurd hfuel (Nat.not_lt_zero _)
  | succ fuel ih =>
    rw [Replaying.executeReplayFrom]
    split
    · rename_i hdone
      refine Replaying.Alone.stop ?_ rfl rfl rfl rfl rfl
      unfold firstUpTo
      rw [if_neg (by omega), Nat.sub_eq_zero_of_le hdone.2, take_zero]
    · rename_i hgo
      have hpos := pageLimitOf_pos hgo
      have hle : limit > 0 → pageLimitOf limit total ≤ limit - total := pageLimitOf_le
      dsimp only
      generalize pageLimitOf limit total = n at hpos hle ⊢
      have hfetch : R.fetch a n s = (R.all s).take n := by
        rw [Replaying.fetch_eq hd, filter_eq_self.mpr hafter]
      have hlen := hl.fetched (envs i) a n s
      by_cases hnil : R.fetch a n s = []
      · have hzero : (R.page (envs i) a n s).1.fetched = 0 := by
          rw [hlen, hnil]
          rfl
        rw [if_pos hzero]
        have hall : R.all s = [] := by
          rw [hfetch, take_eq_nil_iff] at hnil
          exact hnil.resolve_left (Nat.ne_of_gt hpos)
        exact Replaying.Alone.empty hl hd hnil hall rfl rfl rfl
      · have hne : (R.page (envs i) a n s).1.fetched ≠ 0 := by
          rw [hlen]
          exact fun h => hnil (length_eq_zero_iff.mp h)
        rw [if_neg hne, hl.replayed _ _ _ _ hd, hl.lastID]
        refine Replaying.Alone.page hl hd hfetch hle (ih (hl.distinct_page hd _) (fun r hr => ?_) ?_)
        · rw [hl.all_page hd, hfetch, filter_not_take hd.nodup_all] at hr
          rw [hfetch] at hnil ⊢
          exact hd.afterCursor_drop hnil hr
        · rw [hl.all_page hd, hfetch, filter_not_take hd.nodup_all, length_drop]
          have : (R.all s).length ≠ 0 := fun h => hnil (by
            rw [hfetch, length_eq_zero_iff.mp h, take_nil])
          omega

end

/-! ## a call among others -/

section
variable {σ ρ κ φ : Type} {R : Replaying σ ρ κ φ} {s : σ} {a : UUID} {n : Nat}

def Replaying.find (R : Replaying σ ρ κ φ) (s : σ) (id : UUID) : Option ρ :=
  (R.rows s).find? fun r => decide (R.id r = id)

def Replaying.Changes (R : Replaying σ ρ κ φ) (page : σ × σ) (id : UUID) : Prop :=
  R.find page.2 id ≠ R.find page.1 id

theorem Replaying.id_mem_fetch {id : UUID} (h : id ∈ (R.fetch a n s).map R.id) :
    afterCursor a id = true := by
  obtain ⟨r, hr, rfl⟩ := mem_map.mp h
  have hr := (sorted_perm _).mem_iff.mp (mem_of_mem_take hr)
  exact (Bool.and_eq_true _ _ ▸ (mem_filter.mp hr).2).2

theorem Replaying.pairwise_fetch (hd : R.Distinct s) :
    ((R.fetch a n s).map R.id).Pairwise (· < ·) :=
  pairwise_map.mpr (hd.pairwise_all.sublist (Replaying.fetch_sublist hd))

/-- what a call does from the cursor `a` on, whatever happens between its pages -/
structure Replaying.Once (R : Replaying σ ρ κ φ) (limit : Nat) (a : UUID) (total : Nat)
    (run : ReplayRun σ) : Prop where
  within : limit > 0 → total ≤ limit → run.total ≤ limit
  after : ∀ page ∈ run.pages, ∀ id ≠ UUID.nil, R.Changes page id → a < id
  once : run.pages.Pairwise fun page later => ∀ id ≠ UUID.nil, R.Changes page id → ¬ R.Changes later id

theorem Replaying.Once.stop {limit total : Nat} {returned : Option (Except QueueError Unit)} :
    R.Once limit a total ⟨total, returned, [], s⟩ :=
  ⟨fun _ h => h, fun _ h => absurd h not_mem_nil, Pairwise.nil⟩

variable (hl : R.Lawful)
include hl

theorem Replaying.Lawful.find_resetIDs {ids : List UUID} {rows : List ρ} {id : UUID} (h : id ∉ ids) :
    ((R.resetIDs ids rows).find? fun r => decide (R.id r = id)) =
      rows.find? fun r => decide (R.id r = id) := by
  induction rows with
  | nil => rfl
  | cons r rows ih =>
    unfold Replaying.resetIDs at ih ⊢
    rw [map_cons, find?_cons, find?_cons, ih]
    by_cases hc : ids.contains (R.id r) = true
    · have hne : R.id r ≠ id := fun he => h (he ▸ contains_iff_mem.mp hc)
      rw [if_pos hc, hl.id_reset, decide_eq_false hne]
    · rw [if_neg hc]

theorem Replaying.Lawful.changes_page (hd : R.Distinct s) {env : Env} {id : UUID} (hne : id ≠ UUID.nil)
    (h : R.Changes (s, (R.page env a n s).2) id) :
    a < id ∧ id ≤ (R.page env a n s).1.lastID := by
  have hmem : id ∈ (R.fetch a n s).map R.id := by
    by_contra hno
    refine h ?_
    show ((R.rows (R.page env a n s).2).find? _) = _
    rw [hl.rows _ _ _ _ hd]
    exact hl.find_resetIDs hno
  refine ⟨(afterCursor_iff hne).mp (Replaying.id_mem_fetch hmem), ?_⟩
  rw [hl.lastID]
  exact le_lastCursor (Replaying.pairwise_fetch hd) hmem

theorem Replaying.Lawful.le_lastID (env : Env) :
    a ≤ (R.page env a n s).1.lastID := by
  rw [hl.lastID]
  by_cases hnil : (R.fetch a n s).map R.id = []
  · rw [hnil]
    exact Nat.le_refl _
  · have hafter := Replaying.id_mem_fetch (mem_lastCursor a hnil)
    unfold afterCursor at hafter
    rw [Bool.or_eq_true, decide_eq_true_eq, decide_eq_true_eq] at hafter
    rcases hafter with h0 | hlt
    · rw [h0]
      exact Nat.zero_le _
    · exact Nat.le_of_lt hlt

theorem Replaying.Lawful.executeReplayFrom_once {limit total : Nat}
    {txn : Nat → σ → Except QueueError (Env × σ)}
    (htxn : ∀ i s env s', txn i s = .ok (env, s') → R.Distinct s') {fuel i : Nat} :
    R.Once limit a total (R.executeReplayFrom limit txn fuel i a total s) := by
  induction fuel generalizing i a total s with
  | zero => exact .stop
  | succ fuel ih =>
    rw [Replaying.executeReplayFrom]
    split
    · exact .stop
    · rename_i hgo
      cases ht : txn i s with
      | error e => exact .stop
      | ok x =>
        obtain ⟨env, s₁⟩ := x
        have hd := htxn i s env s₁ ht
        have hle : limit > 0 → pageLimitOf limit total ≤ limit - total := pageLimitOf_le
        dsimp only
        generalize pageLimitOf limit total = n at hle ⊢
        have hrep : (R.page env a n s₁).1.replayed ≤ n := by
          rw [hl.replayed _ _ _ _ hd]
          exact length_take_le _ _
        have hchange : ∀ id ≠ UUID.nil, R.Changes (s₁, (R.page env a n s₁).2) id →
            a < id ∧ id ≤ (R.page env a n s₁).1.lastID := fun id hne h => hl.changes_page hd hne h
        split
        · refine ⟨fun hpos htotal => ?_, fun page hp id hne hc => ?_, pairwise_singleton _ _⟩
          · show total + (R.page env a n s₁).1.replayed ≤ limit
            have := hle hpos
            omega
          · rw [mem_singleton.mp hp] at hc
            exact (hchange id hne hc).1
        · have hrest := @ih (R.page env a n s₁).2 (R.page env a n s₁).1.lastID
            (total + (R.page env a n s₁).1.replayed) (i + 1)
          refine ⟨fun hpos htotal => hrest.within hpos ?_, fun page hp id hne hc => ?_,
            pairwise_cons.mpr ⟨fun later hlater id hne hc hc' => ?_, hrest.once⟩⟩
          · have := hle hpos
            omega
          · rcases mem_cons.mp hp with rfl | hp
            · exact (hchange id hne hc).1
            · exact Nat.lt_of_le_of_lt (hl.le_lastID env) (hrest.after page hp id hne hc)
          · exact absurd (hchange id hne hc).2 (Nat.not_le.mpr (hrest.after later hlater id hne hc'))

end

/-! ## the call -/

section
variable {σ ρ κ φ : Type} {R : Replaying σ ρ κ φ} {s : σ} {opts : ReplayOptions}

def Replaying.wanted (R : Replaying σ ρ κ φ) (opts : ReplayOptions) (s : σ) : List ρ :=
  firstUpTo opts.limit.toNat 0 (R.all s)

/-- a call without other activity, and a dry run in its place -/
structure Replaying.Exact (R : Replaying σ ρ κ φ) (opts : ReplayOptions) (envs : Nat → Env) (s : σ) :
    Prop where
  count : (R.wanted opts s).length = if opts.limit = 0 then R.countReplayableMessages s
    else min opts.limit.toNat (R.countReplayableMessages s)
  run : ∃ s', R.replayFrom false true opts (fun i s => .ok (envs i, s)) ((R.rows s).length + 1) s =
      some (.ok (R.wanted opts s).length, s') ∧
    R.rows s' = R.resetIDs ((R.wanted opts s).map R.id) (R.rows s) ∧
    (∃ counts, R.logged s' = R.logged s ++ counts ∧
      counts.foldr (· + ·) 0 = (R.wanted opts s).length) ∧
    R.rest s' = R.rest s
  dry : R.replayFrom false true { opts with dryRun := true } (fun i s => .ok (envs i, s))
      ((R.rows s).length + 1) s = some (.ok (R.wanted opts s).length, s)

/-- a call with other transactions between its pages -/
structure Replaying.Among (R : Replaying σ ρ κ φ) (opts : ReplayOptions)
    (txn : Nat → σ → Except QueueError (Env × σ)) (fuel : Nat) (s : σ) : Prop where
  once : (R.executeReplayFrom opts.limit.toNat txn fuel 0 UUID.nil 0 s).pages.Pairwise
    fun page later => ∀ id ≠ UUID.nil, R.Changes page id → ¬ R.Changes later id
  within : 0 < opts.limit →
    ((R.executeReplayFrom opts.limit.toNat txn fuel 0 UUID.nil 0 s).total : Int) ≤ opts.limit

theorem limit_nonneg (hopts : validateReplayOpts opts = .ok ()) : 0 ≤ opts.limit := by
  unfold validateReplayOpts at hopts
  split at hopts
  · cases hopts
  · rename_i h
    exact Int.not_lt.mp h

theorem Replaying.length_all : (R.all s).length = R.countReplayableMessages s :=
  (sorted_perm _).length_eq

theorem Replaying.length_wanted (hopts : validateReplayOpts opts = .ok ()) :
    (R.wanted opts s).length = if opts.limit = 0 then R.countReplayableMessages s
      else min opts.limit.toNat (R.countReplayableMessages s) := by
  have hpos := limit_nonneg hopts
  unfold Replaying.wanted firstUpTo
  by_cases h0 : opts.limit = 0
  · rw [if_pos h0, if_pos (by omega), Replaying.length_all]
  · rw [if_neg h0, if_neg (by omega), length_take, Replaying.length_all, Nat.sub_zero]

theorem Replaying.Lawful.exact (hl : R.Lawful) (hopts : validateReplayOpts opts = .ok ())
    (hreal : opts.dryRun = false) (hd : R.Distinct s) (envs : Nat → Env) : R.Exact opts envs s := by
  have hfuel : (R.all s).length < (R.rows s).length + 1 := by
    rw [Replaying.length_all]
    exact Nat.lt_succ_of_le (length_filter_le _ _)
  have halone : R.Alone opts.limit.toNat 0 s (R.executeReplayFrom opts.limit.toNat
      (fun i s => .ok (envs i, s)) ((R.rows s).length + 1) 0 UUID.nil 0 s) :=
    hl.executeReplayFrom_alone hd (fun r _ => rfl) hfuel
  refine ⟨Replaying.length_wanted hopts, ⟨_, ?_, halone.rows, halone.logged, halone.rest⟩, ?_⟩
  · unfold Replaying.replayFrom
    rw [if_neg Bool.false_ne_true, hopts]
    dsimp only
    rw [hreal, halone.returned, halone.count, Nat.zero_add]
    rfl
  · have hdry : validateReplayOpts { opts with dryRun := true } = .ok () := hopts
    unfold Replaying.replayFrom
    rw [if_neg Bool.false_ne_true, hdry, Replaying.length_wanted hopts]
    have hpos := limit_nonneg hopts
    show some (Except.ok (if 0 < opts.limit ∧ opts.limit < R.countReplayableMessages s then
      opts.limit.toNat else R.countReplayableMessages s), s) = _
    congr 3
    split
    · rw [if_neg (by omega), Nat.min_eq_left (by omega)]
    · split
      · rfl
      · rw [Nat.min_eq_right (by omega)]

theorem Replaying.Lawful.among (hl : R.Lawful) {txn : Nat → σ → Except QueueError (Env × σ)}
    (htxn : ∀ i s env s', txn i s = .ok (env, s') → R.Distinct s') (fuel : Nat) :
    R.Among opts txn fuel s := by
  have honce : R.Once opts.limit.toNat UUID.nil 0
      (R.executeReplayFrom opts.limit.toNat txn fuel 0 UUID.nil 0 s) :=
    hl.executeReplayFrom_once htxn
  refine ⟨honce.once, fun hpos => ?_⟩
  have := honce.within (by omega) (Nat.zero_le _)
  omega

end
end PgQueue
