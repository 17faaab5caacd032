import PgQueue.Channel.Conserve
import PgQueue.Topic.Conserve
import PgQueue.Relational.Keyset

/-!
# Listing dead letters

`ListDLQMessages` returns one page of dead letters and the cursor for the next call.  Between two calls
dead letters may be added and deleted.

* `listDLQMessages`    one call;
* `listAll`            several calls, each with the cursor of the one before, each on the table of its
                       time;
* `keyed_channel`, `keyed_topic`   the ids of the dead letters, in every state of a channel or a topic;
* `Page`               what a call returns, by its cursor.

`listing_stable`: **the calls together return strictly increasing ids, miss no dead letter that was there
all the time up to the final cursor, and after a short page nothing of the table is left.**
-/

namespace PgQueue.Listing
open Relational List

variable {μ : Type}

def defaultDLQPageSize : Nat := 100
def maxDLQPageSize : Nat := 1000

/-- a limit that is not positive is the default, a large one is cut -/
def resolveDLQLimit (n : Int) : Nat :=
  if n ≤ 0 then defaultDLQPageSize else if n > maxDLQPageSize then maxDLQPageSize else n.toNat

structure DLQPage where
  afterID : UUID
  limit : Int
deriving DecidableEq, Repr

/-- a listed dead letter; the subscriber is not among the columns that are read -/
structure DLQEntry (μ : Type) where
  id : UUID
  originalMessageID : UUID
  payload : Bytes
  failureReason : Bytes
  retryCount : Nat
  movedAt : Time
  metadata : Option μ
deriving DecidableEq, Repr

/-- `parse` is `parseMetadataJSON`, which turns JSON it cannot read into no metadata -/
def scanDLQMessage (parse : Option Bytes → Option μ) (d : DLQRow) : DLQEntry μ :=
  ⟨d.id, d.originalMessageID, d.payload, d.failureReason, d.retryCount, d.movedAt, parse d.metadata⟩

inductive ListError where
  | queueClosed
  | queueNotFound
deriving DecidableEq, Repr

def selectDLQPage (afterID : UUID) (limit : Nat) (dlq : List DLQRow) : List DLQRow :=
  (sorted DLQRow.id (dlq.filter fun d => afterCursor afterID d.id)).take limit

/-- `table` is the dead-letter table of the queue, `none` if the queue is not registered -/
def listDLQMessages (parse : Option Bytes → Option μ) (closed : Bool) (table : Option (List DLQRow))
    (page : DLQPage) : Except ListError (List (DLQEntry μ) × DLQPage) :=
  if closed then .error .queueClosed
  else
    let limit := resolveDLQLimit page.limit
    match table with
    | none => .error .queueNotFound
    | some dlq =>
      let messages := (selectDLQPage page.afterID limit dlq).map (scanDLQMessage parse)
      .ok (messages, ⟨lastCursor (messages.map DLQEntry.id) page.afterID, limit⟩)

structure Call where
  limit : Int
  closed : Bool
  table : Option (List DLQRow)

def Call.list (parse : Option Bytes → Option μ) (c : Call) (cursor : UUID) :
    Except ListError (List (DLQEntry μ) × DLQPage) :=
  listDLQMessages parse c.closed c.table ⟨cursor, c.limit⟩

/-- the calls one after another: everything they return, and the last cursor -/
def listAll (parse : Option Bytes → Option μ) (cursor : UUID) :
    List Call → Except ListError (List (DLQEntry μ) × UUID)
  | [] => .ok ([], cursor)
  | c :: calls =>
    match c.list parse cursor with
    | .error e => .error e
    | .ok (messages, next) =>
      match listAll parse next.afterID calls with
      | .error e => .error e
      | .ok (rest, final) => .ok (messages ++ rest, final)

/-! ## one page -/

theorem keyed_of_drawn {gen : Generator} {n : Nat} {dlq : List DLQRow}
    (h : Drawn gen n (dlq.map DLQRow.id)) : Keyed dlq := by
  refine ⟨h.nodup, fun d hd => ?_⟩
  obtain ⟨i, -, he⟩ := h.drawn d.id (mem_map_of_mem hd)
  rw [he]
  exact gen.ne_nil i

theorem keyed_channel {q : Queue} {s : Channel.State} {h : History UUID} {t : Time}
    (hr : Channel.Reach q s h t) : Keyed s.dlq := keyed_of_drawn hr.ids

theorem keyed_topic {q : Queue} {s : Topic.State} {h : History (UUID × String)} {t : Time}
    (hr : Topic.Reach q s h t) : Keyed s.dlq := keyed_of_drawn hr.intact.ids

structure Page (dlq : List DLQRow) (cursor : UUID) (limit : Nat) (rows : List DLQRow) (next : UUID) :
    Prop where
  sorted : rows.Pairwise fun a b => a.id < b.id
  after : ∀ d ∈ rows, cursor < d.id
  upTo : ∀ d ∈ rows, d.id ≤ next
  forward : cursor ≤ next
  covers : ∀ d ∈ dlq, cursor < d.id → d.id ≤ next → d ∈ rows
  short : rows.length < limit → ∀ d ∈ dlq, cursor < d.id → d ∈ rows

section
variable {parse : Option Bytes → Option μ} {dlq : List DLQRow} {cursor : UUID} {limit : Nat}
  {messages : List (DLQEntry μ)} {calls : List Call}

theorem page_selectDLQPage (hk : Keyed dlq) :
    Page dlq cursor limit (selectDLQPage cursor limit dlq)
      (lastCursor ((selectDLQPage cursor limit dlq).map DLQRow.id) cursor) := by
  have hfilter : ∀ d, d ∈ sorted DLQRow.id (dlq.filter fun d => afterCursor cursor d.id) ↔
      d ∈ dlq ∧ cursor < d.id := by
    intro d
    rw [(sorted_perm _).mem_iff, mem_filter]
    exact and_congr_right fun hd => afterCursor_iff (hk.ne_nil d hd)
  have hsorted : (sorted DLQRow.id (dlq.filter fun d => afterCursor cursor d.id)).Pairwise
      fun a b => a.id < b.id := pairwise_sorted ((filter_sublist.map _).nodup hk.nodup)
  unfold selectDLQPage
  generalize sorted DLQRow.id (dlq.filter fun d => afterCursor cursor d.id) = all at hfilter hsorted ⊢
  have hpage := hsorted.sublist (take_sublist limit all)
  have hafter : ∀ d ∈ all.take limit, cursor < d.id := fun d hd =>
    ((hfilter d).mp (mem_of_mem_take hd)).2
  have hforward : cursor ≤ lastCursor ((all.take limit).map DLQRow.id) cursor := by
    by_cases hnil : (all.take limit).map DLQRow.id = []
    · rw [hnil]
      exact Nat.le_refl _
    · obtain ⟨d, hd, he⟩ := mem_map.mp (mem_lastCursor cursor hnil)
      rw [← he]
      exact Nat.le_of_lt (hafter d hd)
  refine ⟨hpage, hafter, fun d hd => ?_, hforward, fun d hd hlt hle => ?_, fun hshort d hd hlt => ?_⟩
  · exact le_lastCursor (pairwise_map.mpr hpage) (mem_map_of_mem hd)
  · -- a row behind the page is behind its last row
    have hmem := (hfilter d).mpr ⟨hd, hlt⟩
    rw [← take_append_drop limit all] at hmem hsorted
    rcases mem_append.mp hmem with h | h
    · exact h
    · refine absurd hle (Nat.not_le.mpr ?_)
      by_cases hnil : (all.take limit).map DLQRow.id = []
      · rw [hnil]
        exact hlt
      · obtain ⟨x, hx, he⟩ := mem_map.mp (mem_lastCursor cursor hnil)
        rw [← he]
        exact (pairwise_append.mp hsorted).2.2 x hx d h
  · have hle : all.length ≤ limit := by
      rw [length_take] at hshort
      omega
    rw [take_of_length_le hle]
    exact (hfilter d).mpr ⟨hd, hlt⟩

/-! ## several calls -/

theorem map_id_scan (rows : List DLQRow) :
    (rows.map (scanDLQMessage parse)).map DLQEntry.id = rows.map DLQRow.id := by
  rw [map_map]
  rfl

theorem Call.list_ok {c : Call} {next : DLQPage} (h : c.list parse cursor = .ok (messages, next)) :
    ∃ dlq rows, c.table = some dlq ∧ messages = rows.map (scanDLQMessage parse) ∧
      next.limit = resolveDLQLimit c.limit ∧
      (Keyed dlq → Page dlq cursor (resolveDLQLimit c.limit) rows next.afterID) := by
  unfold Call.list listDLQMessages at h
  split at h
  · cases h
  · cases ht : c.table with
    | none =>
      rw [ht] at h
      cases h
    | some dlq =>
      rw [ht] at h
      cases h
      refine ⟨dlq, selectDLQPage cursor (resolveDLQLimit c.limit) dlq, rfl, rfl, rfl, fun hk => ?_⟩
      rw [map_id_scan]
      exact page_selectDLQPage hk

theorem listAll_cons {c : Call} {final : UUID}
    (h : listAll parse cursor (c :: calls) = .ok (messages, final)) :
    ∃ page next rest, c.list parse cursor = .ok (page, next) ∧
      listAll parse next.afterID calls = .ok (rest, final) ∧ messages = page ++ rest := by
  rw [listAll] at h
  cases hc : c.list parse cursor with
  | error e =>
    rw [hc] at h
    cases h
  | ok x =>
    obtain ⟨page, next⟩ := x
    rw [hc] at h
    dsimp only at h
    cases hr : listAll parse next.afterID calls with
    | error e =>
      rw [hr] at h
      cases h
    | ok y =>
      obtain ⟨rest, final'⟩ := y
      rw [hr] at h
      cases h
      exact ⟨page, next, rest, rfl, hr, rfl⟩

def AllKeyed (calls : List Call) : Prop := ∀ c ∈ calls, ∀ dlq, c.table = some dlq → Keyed dlq

structure Listed (calls : List Call) (cursor : UUID) (parse : Option Bytes → Option μ)
    (messages : List (DLQEntry μ)) (final : UUID) : Prop where
  sorted : messages.Pairwise fun a b => a.id < b.id
  after : ∀ e ∈ messages, cursor < e.id
  forward : cursor ≤ final
  covers : ∀ d : DLQRow, (∀ c ∈ calls, ∃ dlq, c.table = some dlq ∧ d ∈ dlq) → cursor < d.id →
    d.id ≤ final → scanDLQMessage parse d ∈ messages

theorem listed_listAll {final : UUID} (hk : AllKeyed calls)
    (h : listAll parse cursor calls = .ok (messages, final)) :
    Listed calls cursor parse messages final := by
  induction calls generalizing cursor messages with
  | nil =>
    cases h
    exact ⟨Pairwise.nil, fun _ he => absurd he not_mem_nil, Nat.le_refl _,
      fun d _ hlt hle => absurd hle (Nat.not_le.mpr hlt)⟩
  | cons c calls ih =>
    obtain ⟨page, next, rest, hc, hr, rfl⟩ := listAll_cons h
    obtain ⟨dlq, rows, ht, rfl, -, hpage⟩ := Call.list_ok hc
    have hp := hpage (hk c mem_cons_self dlq ht)
    have hl := ih (fun c' hc' => hk c' (mem_cons_of_mem c hc')) hr
    have hmem : ∀ e ∈ rows.map (scanDLQMessage parse), cursor < e.id ∧ e.id ≤ next.afterID := by
      intro e he
      obtain ⟨d, hd, rfl⟩ := mem_map.mp he
      exact ⟨hp.after d hd, hp.upTo d hd⟩
    refine ⟨?_, fun e he => ?_, Nat.le_trans hp.forward hl.forward, fun d hd hlt hle => ?_⟩
    · refine pairwise_append.mpr ⟨pairwise_map.mpr hp.sorted, hl.sorted, fun a ha b hb => ?_⟩
      exact Nat.lt_of_le_of_lt (hmem a ha).2 (hl.after b hb)
    · rcases mem_append.mp he with he | he
      · exact (hmem e he).1
      · exact Nat.lt_of_le_of_lt hp.forward (hl.after e he)
    · -- this page has it, or a later one
      by_cases hnext : d.id ≤ next.afterID
      · obtain ⟨dlq', ht', hmem'⟩ := hd c mem_cons_self
        rw [ht] at ht'
        cases ht'
        exact mem_append_left _ (mem_map_of_mem (hp.covers d hmem' hlt hnext))
      · exact mem_append_right _ (hl.covers d
          (fun c' hc' => hd c' (mem_cons_of_mem c hc')) (Nat.lt_of_not_le hnext) hle)

/-- **Listing is stable under concurrent change.** -/
theorem listing_stable (parse : Option Bytes → Option μ) (calls : List Call) (hk : AllKeyed calls)
    (messages : List (DLQEntry μ)) (final : UUID)
    (h : listAll parse UUID.nil calls = .ok (messages, final)) :
    (messages.Pairwise fun a b => a.id < b.id) ∧
    (∀ d : DLQRow, d.id ≠ UUID.nil → (∀ c ∈ calls, ∃ dlq, c.table = some dlq ∧ d ∈ dlq) →
      d.id ≤ final → scanDLQMessage parse d ∈ messages) ∧
    ∀ before c after, calls = before ++ c :: after → ∀ earlier cursor page next dlq,
      listAll parse UUID.nil before = .ok (earlier, cursor) →
      c.list parse cursor = .ok (page, next) → (page.length : Int) < next.limit →
      c.table = some dlq → ∀ d ∈ dlq, scanDLQMessage parse d ∈ page ∨ d.id ≤ cursor := by
  have hl := listed_listAll hk h
  refine ⟨hl.sorted, fun d hne hd hle => hl.covers d hd (Nat.pos_of_ne_zero hne) hle, ?_⟩
  rintro before c after rfl earlier cursor page next dlq - hc hshort ht d hd
  obtain ⟨dlq', rows, ht', rfl, hlimit, hpage⟩ := Call.list_ok hc
  rw [ht] at ht'
  cases ht'
  have hp := hpage (hk c (mem_append_right _ mem_cons_self) dlq ht)
  rw [length_map, hlimit] at hshort
  by_cases hlt : cursor < d.id
  · exact Or.inl (mem_map_of_mem (hp.short (Int.ofNat_lt.mp hshort) d hd hlt))
  · exact Or.inr (Nat.le_of_not_lt hlt)

end

/-! ## two calls -/

def deadLetter (id : UUID) : DLQRow := ⟨id, id + 100, none, [], [], 1, 0, none⟩

/-- the second of three dead letters is deleted between the calls, and one is added before it -/
def twoCalls : List Call :=
  [⟨1, false, some [deadLetter 5, deadLetter 3, deadLetter 9]⟩,
    ⟨0, false, some [deadLetter 9, deadLetter 4, deadLetter 3]⟩]

theorem listing_stable_twoCalls :
    ∃ messages, listAll (fun _ => (none : Option Unit)) UUID.nil twoCalls = .ok (messages, 9) ∧
      messages.map DLQEntry.id = [3, 4, 9] ∧ messages.Pairwise fun a b => a.id < b.id :=
  ⟨_, rfl, by decide, (listing_stable (fun _ => (none : Option Unit)) twoCalls (by
    intro c hc dlq hd
    rcases mem_cons.mp hc with rfl | hc
    · cases hd
      exact ⟨by decide, by decide⟩
    · rcases mem_cons.mp hc with rfl | hc
      · cases hd
        exact ⟨by decide, by decide⟩
      · cases hc) _ 9 rfl).1⟩

end PgQueue.Listing
