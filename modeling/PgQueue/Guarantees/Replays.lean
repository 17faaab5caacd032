import PgQueue.Replay.Rules
import PgQueue.Channel.Run
import PgQueue.Topic.Run

/-!
# Guarantees: ReplayDLQ

* `replayDLQ_one_by_one`    the pages of a call do not show: what is left in the tables is what
                            replaying the dead letters one at a time leaves, and the counts add up;
* `dry_run_predicts`        a dry run changes nothing and fails when the real run does; otherwise
                            it counts what the real run counts, for a channel up to duplicates
                            across pages.

`Channel.replayEach` and `Topic.replayEach` are the one-at-a-time replays: a page of one row after
another.
-/

namespace PgQueue
open Relational List

/-! ## accounting -/

/-- the dead letters a call with this limit is to examine; `0` is no limit -/
def due (limit : Nat) (dlq : List DLQRow) : List DLQRow :=
  (sorted DLQRow.id dlq).take (if limit = 0 then dlq.length else min limit dlq.length)

theorem length_due (limit : Nat) (dlq : List DLQRow) :
    (due limit dlq).length = if limit = 0 then dlq.length else min limit dlq.length := by
  unfold due
  rw [length_take, (sorted_perm dlq).length_eq]
  split
  · exact Nat.min_self _
  · omega

theorem due_eq_todo (limit : Nat) (dlq : List DLQRow) :
    due limit dlq = todo limit ⟨0, 0⟩ (pastCursor UUID.nil dlq) := by
  have hall : pastCursor UUID.nil dlq = sorted DLQRow.id dlq :=
    filter_eq_self.mpr fun _ _ => rfl
  have hlen : (sorted DLQRow.id dlq).length = dlq.length := (sorted_perm dlq).length_eq
  unfold due todo
  rw [hall]
  split
  · rw [← hlen, take_length]
  · rw [show ((limit : Int) - 0 - 0).toNat = limit by omega, ← hlen, ← take_take, take_length]

theorem length_todo_lt (limit : Nat) (dlq : List DLQRow) :
    (todo limit ⟨0, 0⟩ (pastCursor UUID.nil dlq)).length < dlq.length + 1 := by
  rw [← due_eq_todo, length_due]
  split
  · omega
  · omega

theorem mem_of_due {limit : Nat} {dlq : List DLQRow} {d : DLQRow} (h : d ∈ due limit dlq) : d ∈ dlq :=
  (sorted_perm dlq).mem_iff.mp (mem_of_mem_take h)

theorem nodup_due {limit : Nat} {dlq : List DLQRow} (h : Keyed dlq) : (due limit dlq).Nodup :=
  (take_sublist _ _).nodup ((sorted_perm dlq).nodup_iff.mpr (Nodup.of_map _ h.nodup))

section
variable {σ V : Type}

/-- the rows the pages of a call read, each with its page's transaction -/
def ReplayDLQCall.examined (call : ReplayDLQCall σ) : List (Env × DLQRow) :=
  ReplayRule.examined call.pages

/-- the rows a call examined, its counts and what it logged -/
structure Accounted (limit : Nat) (dlq : List DLQRow) (txn : Nat → Except QueueError Env)
    (call : ReplayDLQCall σ) (logged : List ReplayLogRow) : Prop where
  once : (call.examined.map Prod.snd).Nodup
  order : call.examined.map Prod.snd <+: due limit dlq
  all : call.error = none → call.examined.map Prod.snd = due limit dlq
  clock : ∀ e ∈ call.examined, ∃ i, txn i = .ok e.1
  returns : (∀ i, ∃ env, txn i = .ok env) → call.error = none
  total : call.result.replayed + call.result.skipped = call.examined.length
  full : call.error = none → call.result.replayed + call.result.skipped =
    ((if limit = 0 then dlq.length else min limit dlq.length : Nat) : Int)
  replayed_nonneg : 0 ≤ call.result.replayed
  skipped_nonneg : 0 ≤ call.result.skipped
  log : logCount logged = call.result.replayed

theorem Outcome.examined_eq {R : ReplayRule V} {view : σ → V} {log : σ → List ReplayLogRow} {dryRun : Bool}
    {size : Nat} {txn : Nat → Except QueueError Env} {l : List DLQRow} {s : σ} {call : ReplayDLQCall σ}
    (h : Outcome R view log dryRun size txn ⟨0, 0⟩ l s call) :
    call.result.replayed + call.result.skipped = call.examined.length := by
  have hlen : call.examined.length = (call.pages.map Prod.snd).flatten.length := by
    rw [← ReplayRule.map_snd_examined, length_map]
    rfl
  rw [h.total, hlen]
  show (0 : Int) + 0 + _ = _
  omega

theorem Outcome.accounted {R : ReplayRule V} {view : σ → V} {log : σ → List ReplayLogRow}
    {size limit : Nat} {txn : Nat → Except QueueError Env} {dlq : List DLQRow} {s : σ}
    {call : ReplayDLQCall σ} (hk : Keyed dlq)
    (hpass : ∀ i env, txn i = .ok env → ∀ ds v, R.refuses env ds v = none)
    (h : Outcome R view log false size txn ⟨0, 0⟩ (due limit dlq) s call) :
    ∃ new, log call.final = log s ++ new ∧ Accounted limit dlq txn call new := by
  obtain ⟨new, hnew, hcount⟩ := h.logged rfl
  have hrep : call.result.replayed = (R.pages false call.pages (view s)).1 := by
    rw [h.replayed]
    exact Int.zero_add _
  have hrows : call.examined.map Prod.snd = (call.pages.map Prod.snd).flatten :=
    ReplayRule.map_snd_examined _
  have htotal := h.examined_eq
  have hle : (R.pages false call.pages (view s)).1 ≤ call.examined.length :=
    ReplayRule.pages_le false _
  have hall : call.error = none → call.examined.map Prod.snd = due limit dlq := fun he => by
    rw [hrows, h.complete he]
  refine ⟨new, hnew, ?_, ?_, hall, ?_, ?_, htotal, ?_, ?_, ?_, ?_⟩
  · rw [hrows]
    exact h.read.sublist.nodup (nodup_due hk)
  · rw [hrows]
    exact h.read
  · intro e he
    obtain ⟨p, hp, he⟩ := mem_flatMap.mp he
    obtain ⟨d, -, rfl⟩ := mem_map.mp he
    exact h.clocked p hp
  · intro hok
    have hsteady : Steady R txn (fun _ => True) fun _ => none := by
      refine ⟨fun _ _ _ _ => trivial, fun i => ?_, rfl⟩
      obtain ⟨env, henv⟩ := hok i
      exact ⟨env, henv, fun ds v _ => hpass i env henv ds v⟩
    exact (h.cut hsteady trivial).eq_none fun _ => rfl
  · intro he
    rw [htotal, ← length_due, ← hall he, length_map]
  · omega
  · omega
  · rw [hcount, hrep]

/-- the counts and the view are those of the rule, row by row -/
theorem Outcome.ruled {R : ReplayRule V} {view : σ → V} {log : σ → List ReplayLogRow}
    {size : Nat} {txn : Nat → Except QueueError Env} {l : List DLQRow} {s : σ}
    {call : ReplayDLQCall σ} (h : Outcome R view log false size txn ⟨0, 0⟩ l s call) :
    call.result.replayed = (R.rows call.examined (view s)).1 ∧
      view call.final = (R.rows call.examined (view s)).2 := by
  rw [h.replayed, h.final, ReplayRule.pages_eq_rows]
  exact ⟨Int.zero_add _, rfl⟩

end

/-! ## one at a time -/

namespace Channel

def replayEach (q : Queue) (es : List (Env × DLQRow)) (s : State) : State :=
  es.foldl (fun s e => (reinsertDLQChannel q e.1 [e.2] s).2) s

theorem replayView_replayEach (q : Queue) (es : List (Env × DLQRow)) (s : State) :
    replayView (replayEach q es s) = ((replayRule q).rows es (replayView s)).2 := by
  induction es generalizing s with
  | nil => rfl
  | cons e es ih =>
    have hone : replayView (reinsertDLQChannel q e.1 [e.2] s).2 =
        ((replayRule q).row e.1 e.2 (replayView s)).2 := by
      rw [replayView_reinsertDLQChannel]
      exact (congrArg Prod.snd (replayRule_rows [e.2] (replayView s))).symm
    show replayView (replayEach q es (reinsertDLQChannel q e.1 [e.2] s).2) = _
    rw [ih, hone]
    rfl

theorem replayDLQ_outcome (q : Queue) {size : Nat} (hsize : 0 < size) (limit : Nat)
    (performedBy : Option String) (dryRun : Bool) (txn : Nat → Except QueueError Env) {s : State}
    (hk : Keyed s.dlq) :
    ∃ call, replayDLQ q size limit performedBy dryRun txn s = some call ∧
      Outcome (replayRule q) replayView State.replayLog dryRun size txn ⟨0, 0⟩ (due limit s.dlq) s
        call := by
  rw [due_eq_todo]
  exact executeReplayDLQ_outcome (replayDLQ_replays q performedBy dryRun) hsize (fun _ => rfl) _ 0
    UUID.nil hk.nodup hk.ne_nil (length_todo_lt limit s.dlq)

end Channel

namespace Topic

def replayEach (q : Queue) (es : List (Env × DLQRow)) (s : State) : Except QueueError State :=
  es.foldlM (fun s e => (reinsertDLQPubSub q e.1 [e.2] s).map Prod.snd) s

/-- the same tables, up to the ids of the subscriptions that are not in `s` -/
structure SameTables (s s₁ s₂ : State) : Prop where
  msgs : s₁.msgs = s₂.msgs
  subscribers : s₁.subscribers = s₂.subscribers
  dlq : s₁.dlq = s₂.dlq
  subs : ∃ new₁ new₂, s₁.subs.rows = s.subs.rows ++ new₁ ∧ s₂.subs.rows = s.subs.rows ++ new₂ ∧
    new₁.map Sub.withoutID = new₂.map Sub.withoutID

section
variable {q : Queue} {env : Env} {s s₁ s₂ : State}

theorem sameTables_of_view (h : replayView s₁ = replayView s₂) (h₁ : s.subs.rows <+: s₁.subs.rows)
    (h₂ : s.subs.rows <+: s₂.subs.rows) : SameTables s s₁ s₂ := by
  obtain ⟨new₁, h₁⟩ := h₁
  obtain ⟨new₂, h₂⟩ := h₂
  have hsubs : s₁.subs.rows.map Sub.withoutID = s₂.subs.rows.map Sub.withoutID :=
    congrArg (fun v : ReplayView => v.subs.rows) h
  refine ⟨congrArg ReplayView.msgs h, congrArg ReplayView.subscribers h, congrArg ReplayView.dlq h,
    new₁, new₂, h₁.symm, h₂.symm, ?_⟩
  rw [← h₁, ← h₂, map_append, map_append] at hsubs
  exact append_cancel_left hsubs

theorem prefix_reinsertDLQPubSub {ds : List DLQRow} {n : Nat}
    (h : reinsertDLQPubSub q env ds s = .ok (n, s₁)) : s.subs.rows <+: s₁.subs.rows := by
  unfold reinsertDLQPubSub at h
  cases hres : resolvePubSubDLQRecords env (filterExistingMessages ds s) s with
  | error e =>
    rw [hres] at h
    cases h
  | ok rr =>
    rw [hres] at h
    dsimp only at h
    unfold insertSubscriptionRecords at h
    cases hins : s.tables.insertChildren (subRows q.gen s.seq env.now rr.1) with
    | none =>
      rw [hins] at h
      cases h
    | some tables =>
      rw [hins] at h
      cases h
      show s.subs.rows <+: tables.children.rows
      rw [(Linked.insertChildren_eq_some hins).2]
      exact Table.prefix_insertAll _ _

theorem prefix_replayDLQPage {afterID : UUID} {n : Nat} {performedBy : Option String}
    {dryRun : Bool} {p : ReplayPage (UUID × String)}
    (h : replayDLQPage q env afterID n performedBy dryRun s = .ok (p, s₁)) :
    s.subs.rows <+: s₁.subs.rows := by
  unfold replayDLQPage at h
  dsimp only at h
  cases hins : reinsertDLQPubSub q env (fetchDLQMessages afterID n s.dlq) s with
  | error e =>
    rw [hins] at h
    cases h
  | ok ns =>
    rw [hins] at h
    cases h
    have hp := prefix_reinsertDLQPubSub hins
    split
    · exact prefix_refl _
    · split
      · exact hp
      · exact hp

theorem prefix_replayDLQ {size limit : Nat} {performedBy : Option String} {dryRun : Bool}
    {txn : Nat → Except QueueError Env} {call : ReplayDLQCall State}
    (h : replayDLQ q size limit performedBy dryRun txn s = some call) :
    s.subs.rows <+: call.final.subs.rows :=
  executeReplayDLQ_keeps (P := fun s' => s.subs.rows <+: s'.subs.rows)
    (fun hs h => hs.trans (prefix_replayDLQPage h)) h (prefix_refl _)

theorem not_overCap {v : ReplayView} (ds : List DLQRow) (h : env.maxSubscribersPerTopic = 0) :
    v.overCap env ds = false := by
  unfold ReplayView.overCap
  rw [h, decide_eq_false (fun hc => absurd hc.1 (Nat.lt_irrefl 0)), Bool.and_false]

theorem replayEach_ok {es : List (Env × DLQRow)}
    (h : ∀ e ∈ es, e.1.maxSubscribersPerTopic = 0) (s : State) :
    ∃ s₁, replayEach q es s = .ok s₁ ∧ replayView s₁ = (replayRule.rows es (replayView s)).2 ∧
      s.subs.rows <+: s₁.subs.rows := by
  induction es generalizing s with
  | nil => exact ⟨s, rfl, rfl, prefix_refl _⟩
  | cons e es ih =>
    obtain ⟨s', hs', hview, -⟩ : ∃ s', reinsertDLQPubSub q e.1 [e.2] s = .ok (_, s') ∧ _ :=
      reinsertDLQPubSub_rows [e.2] (not_overCap [e.2] (h e mem_cons_self))
    obtain ⟨s₁, hs₁, hview₁, hpre⟩ := ih (fun e' he' => h e' (mem_cons_of_mem _ he')) s'
    refine ⟨s₁, ?_, ?_, (prefix_reinsertDLQPubSub hs').trans hpre⟩
    · unfold replayEach
      rw [foldlM_cons, hs']
      exact hs₁
    · rw [hview₁, hview]
      rfl

theorem replayDLQ_outcome (q : Queue) {size : Nat} (hsize : 0 < size) (limit : Nat)
    (performedBy : Option String) (dryRun : Bool) (txn : Nat → Except QueueError Env)
    (hk : Keyed s.dlq) :
    ∃ call, replayDLQ q size limit performedBy dryRun txn s = some call ∧
      Outcome replayRule replayView State.replayLog dryRun size txn ⟨0, 0⟩ (due limit s.dlq) s call := by
  rw [due_eq_todo]
  exact executeReplayDLQ_outcome (replayDLQ_replays q performedBy dryRun) hsize (fun _ => rfl) _ 0
    UUID.nil hk.nodup hk.ne_nil (length_todo_lt limit s.dlq)

end
end Topic

/-- **The pages of ReplayDLQ do not show.**  A call with any limit and page size, on tables only it
changes, returns; the rows it has examined are the first of the dead letters, all that are due
unless a transaction failed, each once; the tables and the number of rows replayed are those of the
rule for one row, applied to these rows one after another, and so of replaying them one at a time;
the counts add up to the rows, and the audit log adds up to the count. -/
theorem replayDLQ_one_by_one (q : Queue) {size : Nat} (hsize : 0 < size) (limit : Nat)
    (performedBy : Option String) (txn : Nat → Except QueueError Env) :
    (∀ s : Channel.State, Keyed s.dlq →
      ∃ call, Channel.replayDLQ q size limit performedBy false txn s = some call ∧
        (∃ new, call.final.replayLog = s.replayLog ++ new ∧ Accounted limit s.dlq txn call new) ∧
        (call.result.replayed =
            ((Channel.replayRule q).rows call.examined (Channel.replayView s)).1 ∧
          Channel.replayView call.final =
            ((Channel.replayRule q).rows call.examined (Channel.replayView s)).2) ∧
        call.final.msgs = (Channel.replayEach q call.examined s).msgs ∧
        call.final.dlq = (Channel.replayEach q call.examined s).dlq) ∧
    (∀ s : Topic.State, Keyed s.dlq → (∀ i env, txn i = .ok env → env.maxSubscribersPerTopic = 0) →
      ∃ call, Topic.replayDLQ q size limit performedBy false txn s = some call ∧
        (∃ new, call.final.replayLog = s.replayLog ++ new ∧ Accounted limit s.dlq txn call new) ∧
        (call.result.replayed = (Topic.replayRule.rows call.examined (Topic.replayView s)).1 ∧
          Topic.replayView call.final =
            (Topic.replayRule.rows call.examined (Topic.replayView s)).2) ∧
        ∃ s₁, Topic.replayEach q call.examined s = .ok s₁ ∧ Topic.SameTables s call.final s₁) := by
  constructor
  · intro s hk
    obtain ⟨call, hcall, hout⟩ := Channel.replayDLQ_outcome q hsize limit performedBy false txn hk
    have hview : Channel.replayView call.final =
        Channel.replayView (Channel.replayEach q call.examined s) := by
      rw [hout.ruled.2, Channel.replayView_replayEach]
    exact ⟨call, hcall, hout.accounted hk fun _ _ _ _ _ => rfl, hout.ruled, congrArg Prod.fst hview,
      congrArg Prod.snd hview⟩
  · intro s hk hcap
    obtain ⟨call, hcall, hout⟩ := Topic.replayDLQ_outcome q hsize limit performedBy false txn hk
    obtain ⟨new, hnew, hacc⟩ := hout.accounted hk fun i env henv ds v => by
      show (if v.overCap env ds then _ else _) = _
      rw [Topic.not_overCap ds (hcap i env henv)]
      rfl
    have hnone : ∀ e ∈ call.examined, e.1.maxSubscribersPerTopic = 0 := by
      intro e he
      obtain ⟨i, hi⟩ := hacc.clock e he
      exact hcap i e.1 hi
    obtain ⟨s₁, hs₁, hview₁, hpre₁⟩ := Topic.replayEach_ok (q := q) hnone s
    have hview : Topic.replayView call.final = Topic.replayView s₁ := by
      rw [hout.ruled.2, hview₁]
    exact ⟨call, hcall, ⟨new, hnew, hacc⟩, hout.ruled, s₁, hs₁,
      Topic.sameTables_of_view hview (Topic.prefix_replayDLQ hcall) hpre₁⟩

/-- two dead letters of one message on a channel, and one of a message it does not have any more
next to one that can be replayed on a topic -/
def lettersOfOne : List DLQRow :=
  [⟨2, 100, none, [2], [], 1, 0, none⟩, ⟨1, 100, none, [1], [], 1, 0, none⟩]

def lettersOfTwo : List DLQRow :=
  [⟨8, 100, some "a", [], [], 1, 0, none⟩, ⟨9, 101, some "a", [], [], 1, 0, none⟩]

def duplicateLetters : Channel.State := { Channel.State.init with dlq := lettersOfOne }

def orphanLetter : Topic.State :=
  { (Topic.runFrom (Queue.counting 3) Topic.State.init [(Env.bare 0, .publish ⟨100, [], none⟩)]).1 with
    dlq := lettersOfTwo }

/-- pages of one row: of each pair one is replayed and one skipped -/
theorem replayDLQ_one_by_one_skips :
    (∃ call, Channel.replayDLQ (Queue.counting 3) 1 0 none false (fun i => .ok (Env.bare i))
        duplicateLetters = some call ∧ call.result = ⟨1, 1⟩ ∧
      call.final.msgs = (Channel.replayEach (Queue.counting 3) call.examined duplicateLetters).msgs) ∧
    (∃ call, Topic.replayDLQ (Queue.counting 3) 1 0 none false (fun i => .ok (Env.bare i))
        orphanLetter = some call ∧ call.result = ⟨1, 1⟩ ∧
      ∃ s₁, Topic.replayEach (Queue.counting 3) call.examined orphanLetter = .ok s₁ ∧
        Topic.SameTables orphanLetter call.final s₁) := by
  have h := replayDLQ_one_by_one (Queue.counting 3) Nat.one_pos 0 none fun i => .ok (Env.bare i)
  constructor
  · obtain ⟨call, hcall, -, -, hmsgs, -⟩ := h.1 duplicateLetters ⟨by decide, by decide⟩
    have hres : (Channel.replayDLQ (Queue.counting 3) 1 0 none false (fun i => .ok (Env.bare i))
        duplicateLetters).map ReplayDLQCall.result = some ⟨1, 1⟩ := by decide
    rw [hcall] at hres
    exact ⟨call, hcall, Option.some.inj hres, hmsgs⟩
  · obtain ⟨call, hcall, -, -, s₁, hs₁, hsame⟩ := h.2 orphanLetter ⟨by decide, by decide⟩
      (fun i env he => by cases he; rfl)
    have hres : (Topic.replayDLQ (Queue.counting 3) 1 0 none false (fun i => .ok (Env.bare i))
        orphanLetter).map ReplayDLQCall.result = some ⟨1, 1⟩ := by decide
    rw [hcall] at hres
    exact ⟨call, hcall, Option.some.inj hres, s₁, hs₁, hsame⟩

/-! ## dry runs -/

namespace Channel
section
variable {q : Queue} {v v' : ReplayView} {ds : List DLQRow} {msgs : Table Row UUID Row.id}
  {es es' : List (Env × List DLQRow)}

theorem reinserted_le {msgs' : Table Row UUID Row.id}
    (h : ∀ k, (msgs.find? k).isSome → (msgs'.find? k).isSome) :
    (reinserted ds msgs').length ≤ (reinserted ds msgs).length := by
  refine (monotone_filter_right _ fun d hd => ?_).length_le
  rw [Option.isNone_iff_eq_none] at hd ⊢
  rw [← Option.not_isSome_iff_eq_none] at hd ⊢
  exact fun hs => hd (h _ hs)

theorem isSome_insertAll_replayed {env : Env} {k : UUID} :
    ((msgs.insertAll (ds.map (replayedRow q env))).find? k).isSome ↔
      (msgs.find? k).isSome ∨ ∃ d ∈ ds, d.originalMessageID = k := by
  rw [Table.find?_insertAll, Option.isSome_or, Bool.or_eq_true, find?_isSome]
  refine or_congr_right ⟨?_, ?_⟩
  · rintro ⟨r, hr, hk⟩
    obtain ⟨d, hd, rfl⟩ := mem_map.mp hr
    exact ⟨d, hd, of_decide_eq_true hk⟩
  · rintro ⟨d, hd, hk⟩
    exact ⟨replayedRow q env d, mem_map_of_mem hd, decide_eq_true hk⟩

/-- a real run never finds fewer ids in the message table than a dry run -/
theorem pages_real_le (h : es.map Prod.snd = es'.map Prod.snd)
    (hv : ∀ k, (v.1.find? k).isSome → (v'.1.find? k).isSome) :
    ((replayRule q).pages false es' v').1 ≤ ((replayRule q).pages true es v).1 := by
  induction es generalizing es' v' with
  | nil =>
    rw [map_eq_nil_iff.mp h.symm]
    exact Nat.le_refl _
  | cons e es ih =>
    obtain ⟨e', es', rfl, he, hes⟩ := map_eq_cons_iff.mp h.symm
    refine Nat.add_le_add ?_ (ih hes.symm fun k hk => ?_)
    · rw [replayRule_rows, replayRule_rows, he]
      exact reinserted_le hv
    · rw [replayRule_rows]
      exact isSome_insertAll_replayed.mpr (Or.inl (hv k hk))

/-- no message has dead letters in two of the pages -/
def Apart (pages : List (List DLQRow)) : Prop :=
  pages.Pairwise fun ds ds' => ∀ d ∈ ds, ∀ d' ∈ ds', d.originalMessageID ≠ d'.originalMessageID

theorem pages_real_eq (h : es.map Prod.snd = es'.map Prod.snd) (hapart : Apart (es'.map Prod.snd))
    (hv : ∀ ds ∈ es'.map Prod.snd, ∀ d ∈ ds,
      (v'.1.find? d.originalMessageID).isNone = (v.1.find? d.originalMessageID).isNone) :
    ((replayRule q).pages false es' v').1 = ((replayRule q).pages true es v).1 := by
  induction es generalizing es' v' with
  | nil =>
    rw [map_eq_nil_iff.mp h.symm]
    rfl
  | cons e es ih =>
    obtain ⟨e', es', rfl, he, hes⟩ := map_eq_cons_iff.mp h.symm
    rw [map_cons] at hv
    obtain ⟨hfirst, hrest⟩ := pairwise_cons.mp hapart
    show ((replayRule q).rows (e'.2.map fun d => (e'.1, d)) v').1 + _ =
      ((replayRule q).rows (e.2.map fun d => (e.1, d)) v).1 + _
    congr 1
    · rw [replayRule_rows, replayRule_rows, he]
      refine congrArg List.length (filter_congr fun d hd => ?_)
      exact hv e'.2 mem_cons_self d (he ▸ mem_of_mem_firstBy hd)
    · refine ih hes.symm hrest fun ds hds d hd => ?_
      rw [replayRule_rows, ← hv ds (mem_cons_of_mem _ hds) d hd, Bool.eq_iff_iff,
        Option.isNone_iff_eq_none, Option.isNone_iff_eq_none, ← Option.not_isSome_iff_eq_none,
        ← Option.not_isSome_iff_eq_none, not_iff_not]
      refine isSome_insertAll_replayed.trans (or_iff_left ?_)
      rintro ⟨d', hd', heq⟩
      exact hfirst ds hds d' hd' d hd heq

end
end Channel

namespace Topic

theorem pages_count {es es' : List (Env × List DLQRow)} (h : es.map Prod.snd = es'.map Prod.snd)
    {v v' : ReplayView} (hmsgs : v'.msgs = v.msgs) (hsubscribers : v'.subscribers = v.subscribers)
    (dryRun dryRun' : Bool) :
    (replayRule.pages dryRun' es' v').1 = (replayRule.pages dryRun es v).1 := by
  induction es generalizing es' v v' with
  | nil =>
    rw [map_eq_nil_iff.mp h.symm]
    rfl
  | cons e es ih =>
    obtain ⟨e', es', rfl, he, hes⟩ := map_eq_cons_iff.mp h.symm
    have hrecords : v'.records = v.records := by
      funext d
      unfold ReplayView.records ReplayView.exists? ReplayView.active
      rw [hmsgs, hsubscribers]
    show (replayRule.rows (e'.2.map fun d => (e'.1, d)) v').1 + _ =
      (replayRule.rows (e.2.map fun d => (e.1, d)) v).1 + _
    rw [replayRule_rows, replayRule_rows, he, hrecords]
    congr 1
    apply ih hes.symm
    · cases dryRun <;> cases dryRun' <;> exact hmsgs
    · cases dryRun <;> cases dryRun' <;> exact hsubscribers

/-- the error of a page of these rows, for a client with this subscriber cap -/
def pageRefusal (cap : Nat) (v : ReplayView) (ds : List DLQRow) : Option QueueError :=
  if v.overCap { Env.bare 0 with maxSubscribersPerTopic := cap } ds then some .tooManySubscribers else none

/-- a dead letter without a subscriber is due whose message is there, and more subscribers are active
than the cap allows -/
def OverCap (limit cap : Nat) (s : State) : Prop :=
  (∃ d ∈ due limit s.dlq, d.subscriberID = none ∧ (s.msgs.find? d.originalMessageID).isSome) ∧
    0 < cap ∧ cap < (replayView s).active.length

theorem pageRefusal_eq (cap : Nat) (s : State) (ds : List DLQRow) :
    pageRefusal cap (replayView s) ds = if (ds.any fun d => ((s.msgs.find? d.originalMessageID).isSome &&
        d.subscriberID.isNone) && decide (0 < cap ∧ cap < (replayView s).active.length)) then
      some .tooManySubscribers else none := by
  unfold pageRefusal ReplayView.overCap ReplayView.exists?
  cases hover : decide (0 < cap ∧ cap < (replayView s).active.length) with
  | true =>
    simp only [Bool.and_true]
    rfl
  | false => simp

/-- no transaction fails, and the client has one subscriber cap: the pages that are refused are
the same throughout -/
theorem steady {txn : Nat → Env} {cap : Nat} (hcap : ∀ i, (txn i).maxSubscribersPerTopic = cap)
    (v : ReplayView) :
    Steady replayRule (fun i => .ok (txn i))
      (fun v' => v'.msgs = v.msgs ∧ v'.subscribers = v.subscribers) (pageRefusal cap v) where
  row env d v' h := by
    rw [replayRule_row]
    exact h
  refuses_eq i := by
    refine ⟨txn i, rfl, fun ds v' h => ?_⟩
    show (if v'.overCap (txn i) ds then _ else _) = _
    unfold pageRefusal ReplayView.overCap ReplayView.exists? ReplayView.active
    rw [h.1, h.2, hcap i]
  refuses_nil := rfl

theorem overCap_iff {size limit cap : Nat} {s : State} {pages : List (List DLQRow)}
    {e : Option QueueError}
    (h : Chunked size (pageRefusal cap (replayView s)) (due limit s.dlq) pages e) :
    e ≠ none ↔ OverCap limit cap s := by
  rw [h.error_eq (pageRefusal_eq cap s), Ne, ite_eq_right_iff, Classical.not_imp, any_eq_true]
  simp only [Bool.and_eq_true, decide_eq_true_eq, Option.isNone_iff_eq_none]
  constructor
  · rintro ⟨⟨d, hd, ⟨hmsg, hsub⟩, hover⟩, -⟩
    exact ⟨⟨d, hd, hsub, hmsg⟩, hover⟩
  · rintro ⟨⟨d, hd, hsub, hmsg⟩, hover⟩
    exact ⟨⟨d, hd, ⟨hmsg, hsub⟩, hover⟩, nofun⟩

end Topic

section
variable {σ V : Type} {R : ReplayRule V} {view : σ → V} {log : σ → List ReplayLogRow} {size : Nat}
  {txn txn' : Nat → Except QueueError Env} {l : List DLQRow} {s : σ} {dry real : ReplayDLQCall σ}

theorem Outcome.same_total {dryRun dryRun' : Bool}
    (hd : Outcome R view log dryRun size txn ⟨0, 0⟩ l s dry)
    (hr : Outcome R view log dryRun' size txn' ⟨0, 0⟩ l s real)
    (hpages : dry.pages.map Prod.snd = real.pages.map Prod.snd) :
    dry.result.replayed + dry.result.skipped = real.result.replayed + real.result.skipped := by
  rw [hd.total, hr.total, hpages]

theorem result_eq (hrep : dry.result.replayed = real.result.replayed)
    (htotal : dry.result.replayed + dry.result.skipped = real.result.replayed + real.result.skipped) :
    dry.result = real.result := by
  cases hd : dry.result
  cases hr : real.result
  rw [hd, hr] at hrep htotal
  dsimp only at hrep htotal
  rw [ReplayDLQResult.mk.injEq]
  omega

theorem reported_of_ok (h : dry.error = none) (dryRun : Bool) : dry.reported dryRun = dry.result := by
  unfold ReplayDLQCall.reported
  rw [if_neg fun hc => hc.2 h]

end

/-- **A dry run of ReplayDLQ predicts the real run.**  It leaves the tables alone.  On tables
nothing else changes, and with no transaction failing: a channel's runs succeed and examine as many
rows, the dry run counting no fewer as replayed, and as many if no message has dead letters in two
pages; a topic's runs fail together, and otherwise report the same counts.  They fail if and only if
the cap is exceeded for some dead letter that is due; the real run then reports the pages before the one
that is refused, and the dry run nothing. -/
theorem dry_run_predicts (q : Queue) {size : Nat} (hsize : 0 < size) (limit : Nat)
    (performedBy : Option String) :
    (∀ s : Channel.State, Keyed s.dlq →
      (∀ txn, ∃ dry, Channel.replayDLQ q size limit performedBy true txn s = some dry ∧
        dry.final = s) ∧
      ∀ txn txn' : Nat → Env, ∃ dry real,
        Channel.replayDLQ q size limit performedBy true (fun i => .ok (txn i)) s = some dry ∧
        Channel.replayDLQ q size limit performedBy false (fun i => .ok (txn' i)) s = some real ∧
        dry.error = none ∧ real.error = none ∧
        (dry.reported true).replayed + (dry.reported true).skipped =
          (real.reported false).replayed + (real.reported false).skipped ∧
        (real.reported false).replayed ≤ (dry.reported true).replayed ∧
        (Channel.Apart (real.pages.map Prod.snd) → dry.reported true = real.reported false)) ∧
    (∀ s : Topic.State, Keyed s.dlq →
      (∀ txn, ∃ dry, Topic.replayDLQ q size limit performedBy true txn s = some dry ∧
        dry.final = s) ∧
      ∀ (txn txn' : Nat → Env) (cap : Nat), (∀ i, (txn i).maxSubscribersPerTopic = cap) →
        (∀ i, (txn' i).maxSubscribersPerTopic = cap) → ∃ dry real,
        Topic.replayDLQ q size limit performedBy true (fun i => .ok (txn i)) s = some dry ∧
        Topic.replayDLQ q size limit performedBy false (fun i => .ok (txn' i)) s = some real ∧
        dry.error = real.error ∧
        (real.error = none → dry.reported true = real.reported false) ∧
        (real.error ≠ none ↔ Topic.OverCap limit cap s) ∧
        Chunked size (Topic.pageRefusal cap (Topic.replayView s)) (due limit s.dlq)
          (real.pages.map Prod.snd) real.error ∧
        (real.error ≠ none → dry.reported true = ⟨0, 0⟩ ∧
          (real.reported false).replayed =
            (Topic.replayRule.rows real.examined (Topic.replayView s)).1 ∧
          (real.reported false).replayed + (real.reported false).skipped =
            (real.pages.map Prod.snd).flatten.length)) := by
  constructor
  · intro s hk
    refine ⟨fun txn => ?_, fun txn txn' => ?_⟩
    · obtain ⟨dry, hdry, hd⟩ := Channel.replayDLQ_outcome q hsize limit performedBy true txn hk
      exact ⟨dry, hdry, hd.dry rfl⟩
    · obtain ⟨dry, hdry, hd⟩ := Channel.replayDLQ_outcome q hsize limit performedBy true
        (fun i => .ok (txn i)) hk
      obtain ⟨real, hreal, hr⟩ := Channel.replayDLQ_outcome q hsize limit performedBy false
        (fun i => .ok (txn' i)) hk
      have hsteady : ∀ txn : Nat → Env, Steady (Channel.replayRule q) (fun i => .ok (txn i))
          (fun _ => True) fun _ => none := fun txn =>
        ⟨fun _ _ _ _ => trivial, fun i => ⟨txn i, rfl, fun _ _ _ => rfl⟩, rfl⟩
      have hdcut := hd.cut (hsteady txn) trivial
      have hrcut := hr.cut (hsteady txn') trivial
      have hpages := (hdcut.unique hrcut).1
      have hderr := hdcut.eq_none fun _ => rfl
      have hrerr := hrcut.eq_none fun _ => rfl
      refine ⟨dry, real, hdry, hreal, hderr, hrerr, ?_⟩
      rw [reported_of_ok hderr, reported_of_ok hrerr]
      refine ⟨hd.same_total hr hpages, ?_, fun hapart => ?_⟩
      · rw [hd.replayed, hr.replayed]
        have := Channel.pages_real_le (q := q) hpages fun k (hk : ((Channel.replayView s).1.find? k).isSome) => hk
        omega
      · refine result_eq ?_ (hd.same_total hr hpages)
        rw [hd.replayed, hr.replayed, Channel.pages_real_eq hpages hapart fun _ _ _ _ => rfl]
  · intro s hk
    refine ⟨fun txn => ?_, fun txn txn' cap hcap hcap' => ?_⟩
    · obtain ⟨dry, hdry, hd⟩ := Topic.replayDLQ_outcome q hsize limit performedBy true txn hk
      exact ⟨dry, hdry, hd.dry rfl⟩
    · obtain ⟨dry, hdry, hd⟩ := Topic.replayDLQ_outcome q hsize limit performedBy true
        (fun i => .ok (txn i)) hk
      obtain ⟨real, hreal, hr⟩ := Topic.replayDLQ_outcome q hsize limit performedBy false
        (fun i => .ok (txn' i)) hk
      have hdcut := hd.cut (Topic.steady hcap (Topic.replayView s)) ⟨rfl, rfl⟩
      have hrcut := hr.cut (Topic.steady hcap' (Topic.replayView s)) ⟨rfl, rfl⟩
      obtain ⟨hpages, herr⟩ := hdcut.unique hrcut
      refine ⟨dry, real, hdry, hreal, herr, fun hrerr => ?_, Topic.overCap_iff hrcut, hrcut,
        fun hrerr => ⟨?_, hr.ruled.1, ?_⟩⟩
      · rw [reported_of_ok (herr.trans hrerr), reported_of_ok hrerr]
        refine result_eq ?_ (hd.same_total hr hpages)
        rw [hd.replayed, hr.replayed, Topic.pages_count hpages rfl rfl true false]
      · unfold ReplayDLQCall.reported
        rw [if_pos ⟨rfl, herr ▸ hrerr⟩]
      · exact hr.total.trans (Int.zero_add _)

/-- two dead letters of one message, in different pages: the dry run counts both -/
theorem dry_run_predicts_duplicates :
    ∃ dry real,
      Channel.replayDLQ (Queue.counting 3) 1 0 none true (fun _ => .ok (Env.bare 0)) duplicateLetters =
        some dry ∧
      Channel.replayDLQ (Queue.counting 3) 1 0 none false (fun _ => .ok (Env.bare 0)) duplicateLetters =
        some real ∧
      (real.reported false).replayed ≤ (dry.reported true).replayed ∧
      dry.reported true = ⟨2, 0⟩ ∧ real.reported false = ⟨1, 1⟩ := by
  obtain ⟨dry, real, hdry, hreal, -, -, -, hle, -⟩ := ((dry_run_predicts (Queue.counting 3) Nat.one_pos
    0 none).1 duplicateLetters ⟨by decide, by decide⟩).2 (fun _ => Env.bare 0) (fun _ => Env.bare 0)
  have hd : (Channel.replayDLQ (Queue.counting 3) 1 0 none true (fun _ => .ok (Env.bare 0))
      duplicateLetters).map (ReplayDLQCall.reported true) = some ⟨2, 0⟩ := by decide
  have hr : (Channel.replayDLQ (Queue.counting 3) 1 0 none false (fun _ => .ok (Env.bare 0))
      duplicateLetters).map (ReplayDLQCall.reported false) = some ⟨1, 1⟩ := by decide
  rw [hdry] at hd
  rw [hreal] at hr
  exact ⟨dry, real, hdry, hreal, hle, Option.some.inj hd, Option.some.inj hr⟩

/-- a hundred dead letters whose message is gone, then one of a time without subscriber ids -/
def legacyLast : List DLQRow :=
  (List.range 100).map (fun i => ⟨i + 1, i + 1000, some "a", [], [], 1, 0, none⟩) ++
    [⟨101, 500, none, [], [], 1, 0, none⟩]

def overCapTopic : Topic.State :=
  { (Topic.runFrom (Queue.counting 3) Topic.State.init
      [(Env.bare 0, .subscribe "a"), (Env.bare 0, .subscribe "b"),
        (Env.bare 0, .publish ⟨500, [], none⟩)]).1 with
    dlq := legacyLast }

/-- the second page of both runs is refused; the dry run then reports nothing, the real run the
first page -/
theorem dry_run_failed_reports_nothing :
    (Topic.replayDLQ (Queue.counting 3) defaultDLQReplayPageSize 0 none true
      (fun _ => .ok { Env.bare 0 with maxSubscribersPerTopic := 1 }) overCapTopic).map
        (ReplayDLQCall.reported true) = some ⟨0, 0⟩ ∧
    (Topic.replayDLQ (Queue.counting 3) defaultDLQReplayPageSize 0 none false
      (fun _ => .ok { Env.bare 0 with maxSubscribersPerTopic := 1 }) overCapTopic).map
        (ReplayDLQCall.reported false) = some ⟨0, 100⟩ := by
  decide +kernel

end PgQueue
