import PgQueue.Types
import Mathlib.Data.List.Perm.Subperm

/-!
# Pages: what channels and topics share of retention and replay

Garbage collection and replay work in pages, each page a transaction of its own.  A replay pages
over ids with a cursor; both kinds of queue keep their dead letters and the audit log in tables of
the same shape.

* `afterCursor`, `lastCursor`    the keyset cursor;
* `ReplayPage`                   what one page of a replay reports;
* `fetchDLQMessages`             one page of dead letters;
* `purgeDLQRows`                 retention of the dead letters;
* `Queue.replayLogRow`           the audit row of one page;
* `Effect`                       what a transaction may do to the contents of a queue.
-/

namespace PgQueue
open List

def retentionPurgePageSize : Nat := 1000
def defaultDLQReplayPageSize : Nat := 100

/-- the cursor clause: a nil cursor reads from the start -/
def afterCursor (afterID id : UUID) : Bool := decide (afterID = UUID.nil) || decide (afterID < id)

/-- one page of a replay: the count it reports, the cursor for the next page, the rows examined.
`reinstated` are the keys of the rows that became pending; the source does not return them -/
structure ReplayPage (κ : Type) where
  reinstated : List κ
  replayed : Nat
  lastID : UUID
  fetched : Nat
deriving DecidableEq, Repr

def lastCursor (ids : List UUID) (afterID : UUID) : UUID := ids.getLast?.getD afterID

theorem afterCursor_iff {a id : UUID} (h : id ≠ UUID.nil) : afterCursor a id = true ↔ a < id := by
  unfold afterCursor
  rw [Bool.or_eq_true, decide_eq_true_eq, decide_eq_true_eq]
  exact ⟨fun hc => hc.elim (fun hnil => hnil ▸ Nat.pos_of_ne_zero h) fun hlt => hlt, Or.inr⟩

variable {dlq : List DLQRow} {ids : List UUID} {afterID : UUID}

theorem le_lastCursor (hs : ids.Pairwise (· < ·)) {a id : UUID} (h : id ∈ ids) :
    id ≤ lastCursor ids a := by
  rcases eq_nil_or_concat ids with rfl | ⟨ids, last, rfl⟩
  · cases h
  · have hlast : lastCursor (ids ++ [last]) a = last := by
      unfold lastCursor
      rw [getLast?_concat]
      rfl
    rw [concat_eq_append] at hs h ⊢
    rw [hlast]
    rcases mem_append.mp h with h | h
    · exact Nat.le_of_lt ((pairwise_append.mp hs).2.2 id h last mem_cons_self)
    · exact Nat.le_of_eq (mem_singleton.mp h)

theorem mem_lastCursor (a : UUID) (h : ids ≠ []) : lastCursor ids a ∈ ids := by
  unfold lastCursor
  rw [getLast?_eq_some_getLast h]
  exact getLast_mem h

/-- the ids of a dead-letter table: a primary key, and `uuidv7()` returns no nil id -/
structure Keyed (dlq : List DLQRow) : Prop where
  nodup : (dlq.map DLQRow.id).Nodup
  ne_nil : ∀ d ∈ dlq, d.id ≠ UUID.nil

def fetchDLQMessages (afterID : UUID) (limit : Nat) (dlq : List DLQRow) : List DLQRow :=
  ((dlq.filter fun d => afterCursor afterID d.id).insertionSort fun a b => a.id ≤ b.id).take
    (if limit = 0 then defaultDLQReplayPageSize else limit)

theorem mem_fetchDLQMessages {limit : Nat} {d : DLQRow} (h : d ∈ fetchDLQMessages afterID limit dlq) :
    d ∈ dlq := by
  have hm := mem_of_mem_take h
  rw [mem_insertionSort] at hm
  exact (mem_filter.mp hm).1

theorem nodup_fetchDLQMessages {limit : Nat} (h : (dlq.map DLQRow.id).Nodup) :
    (fetchDLQMessages afterID limit dlq).Nodup := by
  refine (take_sublist _ _).nodup ?_
  rw [(perm_insertionSort _ _).nodup_iff]
  exact (Nodup.of_map _ h).filter _

/-- one page of the dead letters that have outlived their retention goes; a retention that is
not positive turns the purge off -/
def purgeDLQRows (env : Env) (retention : Duration) (dlq : List DLQRow) : Nat × List DLQRow :=
  if retention > 0 then
    let page := ((dlq.filter fun d => decide (d.movedAt < env.now - retention)).insertionSort
      (fun a b => a.id ≤ b.id)).take retentionPurgePageSize
    (page.length, dlq.filter fun d => !page.any fun x => decide (x.id = d.id))
  else (0, dlq)

theorem purgeDLQRows_sublist (env : Env) (retention : Duration) (dlq : List DLQRow) :
    (purgeDLQRows env retention dlq).2.Sublist dlq := by
  unfold purgeDLQRows
  split
  · exact filter_sublist
  · exact Sublist.refl _

theorem mem_purgeDLQRows {env : Env} {retention : Duration} {d : DLQRow}
    (hn : (dlq.map DLQRow.id).Nodup) (hd : d ∈ dlq) :
    d ∈ (purgeDLQRows env retention dlq).2 ∨
      0 < retention ∧ d.movedAt < env.now - retention := by
  unfold purgeDLQRows
  split
  · rename_i hpos
    by_cases hold : d.movedAt < env.now - retention
    · exact Or.inr ⟨hpos, hold⟩
    · refine Or.inl (mem_filter.mpr ⟨hd, ?_⟩)
      rw [Bool.not_eq_true', any_eq_false]
      intro x hx he
      have hx := mem_of_mem_take hx
      rw [mem_insertionSort] at hx
      obtain ⟨hx, hlt⟩ := mem_filter.mp hx
      rw [inj_on_of_nodup_map hn hx hd (of_decide_eq_true he)] at hlt
      exact hold (of_decide_eq_true hlt)
  · exact Or.inl hd

def Queue.replayLogRow (q : Queue) (env : Env) (queueType : QueueType) (seq : Nat)
    (operation : ReplayOperation) (count : Nat) (performedBy : Option String) : ReplayLogRow :=
  ⟨q.gen.draw seq, queueType, q.name, operation, count, env.now, performedBy⟩

/-! ## contents -/

/-- a publish adds to what a queue holds, a purge removes from it, anything else keeps it -/
inductive Effect where
  | adds
  | removes
  | keeps
deriving DecidableEq, Repr

/-- the contents after, compared with the contents before, as multisets -/
def Effect.Relates {α : Type} : Effect → List α → List α → Prop
  | .adds, before, after => before.Subperm after
  | .removes, before, after => after.Subperm before
  | .keeps, before, after => after.Perm before

end PgQueue
