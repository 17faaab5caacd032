import PgQueue.Topic.Fanout
import PgQueue.Topic.Conserve

/-!
# The topic: the statements of the fan-out

The subscription rows of a publish are written by multi-row `INSERT`s whose placeholders are numbered by
hand.

* `insertStatement`   the statement of one chunk: a pair of placeholders for each row, and the arguments;
* `Statement.records` the rows the server reads out of a statement;
* `writer`            the paths of the source, with the statements they have sent.

`fanOut_exact`: **a fan-out sends the message-major cross product in statements of 1 to 16000 rows,
whose placeholders count from 1, and creates one pending row for each pair and nothing else; with more
active subscribers than the cap a publish writes nothing.**
-/

namespace PgQueue.Topic.Inserts
open Relational Process List

/-! ## one statement -/

def subInsertParams : Nat := 2

inductive Arg where
  | messageID (id : UUID)
  | subscriberID (x : String)
deriving DecidableEq, Repr

/-- `values` has the two placeholder numbers of each row; the third column is the literal `'pending'` -/
structure Statement where
  values : List (Nat × Nat)
  args : List Arg
deriving DecidableEq, Repr

/-- the loop over a chunk, from the row with the index `i` on -/
def valuesFrom (i : Nat) : List (UUID × String) → List (Nat × Nat)
  | [] => []
  | _ :: chunk =>
    let base := i * subInsertParams
    (base + 1, base + 2) :: valuesFrom (i + 1) chunk

def argsOf : List (UUID × String) → List Arg
  | [] => []
  | record :: chunk => .messageID record.1 :: .subscriberID record.2 :: argsOf chunk

def insertStatement (chunk : List (UUID × String)) : Statement := ⟨valuesFrom 0 chunk, argsOf chunk⟩

namespace Statement

def placeholders (st : Statement) : List Nat := st.values.flatMap fun v => [v.1, v.2]

/-- `$n`; the numbers start at 1 -/
def arg (st : Statement) (n : Nat) : Option Arg := if n = 0 then none else st.args[n - 1]?

def row (st : Statement) (v : Nat × Nat) : Option (UUID × String) :=
  match st.arg v.1, st.arg v.2 with
  | some (.messageID id), some (.subscriberID x) => some (id, x)
  | _, _ => none

/-- what the server inserts, `none` if a placeholder has no argument of its column's type -/
def records (st : Statement) : Option (List (UUID × String)) := st.values.mapM st.row

end Statement

section
variable (chunk : List (UUID × String))

theorem length_argsOf : (argsOf chunk).length = 2 * chunk.length := by
  induction chunk with
  | nil => rfl
  | cons record chunk ih =>
    rw [argsOf, length_cons, length_cons, ih, length_cons]
    omega

theorem argsOf_append (pre : List (UUID × String)) : argsOf (pre ++ chunk) = argsOf pre ++ argsOf chunk := by
  induction pre with
  | nil => rfl
  | cons record pre ih => rw [cons_append, argsOf, ih, argsOf, cons_append, cons_append]

/-- **the placeholders of a chunk count on from its first row** -/
theorem placeholders_valuesFrom (i : Nat) :
    ((valuesFrom i chunk).flatMap fun v => [v.1, v.2]) = List.range' (2 * i + 1) (2 * chunk.length) := by
  induction chunk generalizing i with
  | nil => rfl
  | cons record chunk ih =>
    have hbase : i * subInsertParams = 2 * i := Nat.mul_comm i 2
    have hlen : 2 * (record :: chunk).length = 2 * chunk.length + 1 + 1 := rfl
    rw [valuesFrom, flatMap_cons, ih, hlen, List.range'_succ, List.range'_succ]
    rw [hbase]
    rfl

theorem row_argsOf (vs : List (Nat × Nat)) (pre : List (UUID × String)) (record : UUID × String) :
    Statement.row ⟨vs, argsOf (pre ++ record :: chunk)⟩
      (pre.length * subInsertParams + 1, pre.length * subInsertParams + 2) = some record := by
  have hlen : (argsOf pre).length = pre.length * subInsertParams := by
    rw [length_argsOf]
    exact Nat.mul_comm 2 _
  have harg : ∀ k, Statement.arg ⟨vs, argsOf (pre ++ record :: chunk)⟩
      (pre.length * subInsertParams + (k + 1)) = (argsOf (record :: chunk))[k]? := by
    intro k
    have hpos : ¬ pre.length * subInsertParams + (k + 1) = 0 := Nat.succ_ne_zero _
    unfold Statement.arg
    rw [if_neg hpos, argsOf_append, ← hlen]
    show (argsOf pre ++ argsOf (record :: chunk))[(argsOf pre).length + k]? = _
    rw [getElem?_append_right (Nat.le_add_right _ _), Nat.add_sub_cancel_left]
  unfold Statement.row
  rw [harg 0, harg 1]
  rfl

theorem mapM_row (vs : List (Nat × Nat)) (pre : List (UUID × String)) :
    (valuesFrom pre.length chunk).mapM (Statement.row ⟨vs, argsOf (pre ++ chunk)⟩) = some chunk := by
  -- `pre` are the rows before `chunk` in its statement
  induction chunk generalizing pre with
  | nil => rfl
  | cons record chunk ih =>
    have hnext := ih (pre ++ [record])
    rw [append_assoc, singleton_append, length_append, length_singleton] at hnext
    rw [valuesFrom, mapM_cons, row_argsOf, hnext]
    rfl

theorem records_insertStatement : (insertStatement chunk).records = some chunk :=
  mapM_row chunk (valuesFrom 0 chunk) []

theorem placeholders_insertStatement :
    (insertStatement chunk).placeholders = List.range' 1 (2 * chunk.length) :=
  placeholders_valuesFrom chunk 0

end

/-! ## the paths -/

inductive InsertError where
  | parameter
  | rejected (e : QueueError)
deriving DecidableEq, Repr

/-- the transaction: its tables, and the subscription statements it has sent -/
structure Tx where
  state : State
  sent : List Statement

def exec (q : Queue) (env : Env) (chunk : List (UUID × String)) (x : Tx) : Except InsertError Tx :=
  match (insertStatement chunk).records with
  | none => .error .parameter
  | some records =>
    match Topic.insertSubscriptionRecords q env records x.state with
    | .error e => .error (.rejected e)
    | .ok s => .ok ⟨s, x.sent ++ [insertStatement chunk]⟩

def writer (q : Queue) (env : Env) : Writer Tx InsertError := ⟨(⟨·, []⟩), Tx.state, .rejected, exec q env⟩

def committed (s : State) : Except InsertError Tx → State
  | .ok x => x.state
  | .error _ => s

/-! ## what is sent -/

section
variable {q : Queue} {env : Env} {s s' : State} {active : List String} {ms : List PublishMessage}

theorem exec_eq (chunk : List (UUID × String)) (x : Tx) :
    exec q env chunk x =
      match Topic.insertSubscriptionRecords q env chunk x.state with
      | .error e => .error (.rejected e)
      | .ok s => .ok ⟨s, x.sent ++ [insertStatement chunk]⟩ := by
  unfold exec
  rw [records_insertStatement]

theorem lawful_writer (q : Queue) (env : Env) : (writer q env).Lawful q env where
  begin _ := rfl
  exec records x := by
    show (exec q env records x).map Tx.state =
      (Topic.insertSubscriptionRecords q env records x.state).mapError .rejected
    rw [exec_eq]
    cases Topic.insertSubscriptionRecords q env records x.state <;> rfl

theorem foldlM_exec {chunks : List (List (UUID × String))} {sent : List Statement}
    (h : Topic.insertSubscriptionRecords q env chunks.flatten s = .ok s') :
    chunks.foldlM (fun x chunk => exec q env chunk x) ⟨s, sent⟩ =
      .ok ⟨s', sent ++ chunks.map insertStatement⟩ := by
  induction chunks generalizing s sent with
  | nil =>
    rw [flatten_nil, insertSubscriptionRecords_nil] at h
    cases h
    rw [map_nil, append_nil]
    rfl
  | cons chunk chunks ih =>
    rw [flatten_cons, (additive_insertSubscriptionRecords q env).append] at h
    rw [foldlM_cons, exec_eq]
    cases hc : Topic.insertSubscriptionRecords q env chunk s with
    | error e =>
      rw [hc] at h
      cases h
    | ok s₁ =>
      rw [hc] at h
      have hrest : chunks.foldlM (fun x chunk => exec q env chunk x) ⟨s₁, sent ++ [insertStatement chunk]⟩ =
          .ok ⟨s', sent ++ [insertStatement chunk] ++ chunks.map insertStatement⟩ := ih h
      rw [append_assoc, singleton_append] at hrest
      exact hrest

theorem batchCreateSubscriptionRecords_sends {ids : List UUID}
    (h : Topic.insertSubscriptionRecords q env
      (ids.flatMap fun id => active.map fun x => (id, x)) s = .ok s') :
    (writer q env).batchCreateSubscriptionRecords ids active ⟨s, []⟩ =
      .ok ⟨s', (pieces subFanoutChunkRows subFanoutChunkRows_pos
        (ids.flatMap fun id => active.map fun x => (id, x))).map insertStatement⟩ := by
  rw [Writer.batchCreateSubscriptionRecords_eq]
  refine (chunked_eq_foldlM _ _ _).trans ((foldlM_exec ?_).trans (by rw [nil_append]))
  rw [flatten_pieces]
  exact h

/-! ## what is written -/

theorem nodup_fanOut (hids : (ms.map PublishMessage.id).Nodup) (hactive : active.Nodup) :
    (fanOut active ms).Nodup := by
  unfold fanOut
  refine nodup_flatMap.mpr ⟨fun id _ => ?_, ?_⟩
  · exact hactive.map fun x y h => (Prod.mk.inj h).2
  · refine hids.imp fun {a b} hne k ha hb => ?_
    obtain ⟨x, -, rfl⟩ := mem_map.mp ha
    obtain ⟨y, -, he⟩ := mem_map.mp hb
    exact hne (Prod.mk.inj he).1.symm

theorem mem_fanOut {k : UUID × String} :
    k ∈ fanOut active ms ↔ (∃ m ∈ ms, m.id = k.1) ∧ k.2 ∈ active := by
  unfold fanOut
  rw [mem_flatMap]
  constructor
  · rintro ⟨id, hid, hk⟩
    obtain ⟨m, hm, rfl⟩ := mem_map.mp hid
    obtain ⟨x, hx, rfl⟩ := mem_map.mp hk
    exact ⟨⟨m, hm, rfl⟩, hx⟩
  · rintro ⟨⟨m, hm, he⟩, hx⟩
    exact ⟨m.id, mem_map_of_mem hm, mem_map.mpr ⟨k.2, hx, Prod.ext he rfl⟩⟩

abbrev withMessages (env : Env) (ms : List PublishMessage) (s : State) : State :=
  { s with tables := s.tables.insertParents (ms.map (newMessage env)) }

theorem insertSubscriptionRecords_fresh (q : Queue) (env : Env)
    (hids : (ms.map PublishMessage.id).Nodup) (hnew : ∀ m ∈ ms, s.msgs.find? m.id = none)
    (hactive : active.Nodup) :
    ∃ s', Topic.insertSubscriptionRecords q env (fanOut active ms) (withMessages env ms s) = .ok s' ∧
      s'.subs.rows = s.subs.rows ++ subRows q.gen s.seq env.now (fanOut active ms) := by
  have hparents : ∀ k ∈ fanOut active ms, ((withMessages env ms s).msgs.find? k.1).isSome := by
    intro k hk
    obtain ⟨⟨m, hm, he⟩, -⟩ := mem_fanOut.mp hk
    show ((s.msgs.insertAll (ms.map (newMessage env))).find? k.1).isSome = true
    rw [Table.find?_insertAll, Option.isSome_or, Bool.or_eq_true, find?_isSome]
    exact Or.inr ⟨newMessage env m, mem_map_of_mem hm, decide_eq_true he⟩
  obtain ⟨s', hs'⟩ := exists_insertSubscriptionRecords q env hparents
  refine ⟨s', hs', ?_⟩
  rw [(insertSubscriptionRecords_spec hs').1]
  refine Table.rows_insertAll_fresh ?_ fun r hr => ?_
  · rw [key_subRows]
    exact nodup_fanOut hids hactive
  · -- a row under this key would belong to a message that is not there
    obtain ⟨i, -, -, k, hk, rfl⟩ := mem_subRows hr
    obtain ⟨⟨m, hm, he⟩, -⟩ := mem_fanOut.mp hk
    refine Table.find?_eq_none.mpr fun x hx hkey => ?_
    obtain ⟨p, hp⟩ := s.tables.exists_parentOf hx
    have hfind : s.msgs.find? x.key.1 = some p := hp
    rw [hkey] at hfind
    have hnone := hnew m hm
    rw [he] at hnone
    rw [show (newSub (q.gen.draw i) env.now k).key.1 = k.1 from rfl, hnone] at hfind
    cases hfind

/-! ## the cap -/

theorem getActiveSubscribers_tooMany (hcap : 0 < env.maxSubscribersPerTopic)
    (hover : env.maxSubscribersPerTopic < (s.subscribers.rows.filter Subscriber.active).length) :
    Writer.getActiveSubscribers env s = .error .tooManySubscribers := by
  have hlen := (s.subscribers.select_perm Subscriber.active
    (fun a b => a.createdAt ≤ b.createdAt)).length_eq
  rw [Writer.getActiveSubscribers_eq]
  refine if_pos ⟨hcap, ?_⟩
  rw [length_map, hlen]
  exact hover

section
variable (hactive : Writer.getActiveSubscribers env s = .error .tooManySubscribers)
include hactive

theorem publishToPubSub_tooMany (m : PublishMessage) :
    ∃ e, (writer q env).publishToPubSub env m s = .error e := by
  unfold Writer.publishToPubSub Writer.createSubscriptionRecords
  split
  · exact ⟨_, rfl⟩
  · have hsame : Writer.getActiveSubscribers env
        { s with tables := s.tables.insertParents [newMessage env m] } = .error .tooManySubscribers :=
      hactive
    rw [(lawful_writer q env).begin, hsame]
    exact ⟨_, rfl⟩

theorem publishBatchToPubSub_tooMany (ms : List PublishMessage) :
    ∃ e, (writer q env).publishBatchToPubSub env ms s = .error e := by
  unfold Writer.publishBatchToPubSub
  dsimp only
  split
  · exact ⟨_, rfl⟩
  · have hsame : Writer.getActiveSubscribers env (withMessages env ms s) = .error .tooManySubscribers :=
      hactive
    rw [hsame]
    exact ⟨_, rfl⟩

end

/-- **The fan-out is exact for any number of messages and subscribers.** -/
theorem fanOut_exact (q : Queue) (env : Env) (s : State) (ms : List PublishMessage)
    (active : List String) (hids : (ms.map PublishMessage.id).Nodup)
    (hnew : ∀ m ∈ ms, s.msgs.find? m.id = none) (hactive : active.Nodup) :
    (∃ (s' : State) (chunks : List (List (UUID × String))),
      (writer q env).batchCreateSubscriptionRecords (ms.map PublishMessage.id) active
          ⟨withMessages env ms s, []⟩ = .ok ⟨s', chunks.map insertStatement⟩ ∧
        chunks.flatten = fanOut active ms ∧
        (∀ chunk ∈ chunks, (1 ≤ chunk.length ∧ chunk.length ≤ 16000) ∧
          (insertStatement chunk).placeholders = List.range' 1 (2 * chunk.length) ∧
          (insertStatement chunk).args.length = 2 * chunk.length ∧
          (insertStatement chunk).records = some chunk) ∧
        (∃ new, s'.subs.rows = s.subs.rows ++ new ∧ new.map Sub.key = fanOut active ms ∧
          ∀ r ∈ new, r.status = .pending) ∧
        (∀ m ∈ ms, ∀ x ∈ active, ∃ r, r.status = .pending ∧
          (s'.subs.rows.filter fun r => decide (r.key = (m.id, x))) = [r]) ∧
        s'.msgs = (withMessages env ms s).msgs ∧ s'.subscribers = s.subscribers ∧ s'.dlq = s.dlq ∧
        s'.replayLog = s.replayLog) ∧
    (0 < env.maxSubscribersPerTopic →
      env.maxSubscribersPerTopic < (s.subscribers.rows.filter Subscriber.active).length →
      (∀ m, ∃ e, (writer q env).publishToPubSub env m s = .error e ∧
        committed s ((writer q env).publishToPubSub env m s) = s) ∧
      ∀ ms, ∃ e, (writer q env).publishBatchToPubSub env ms s = .error e ∧
        committed s ((writer q env).publishBatchToPubSub env ms s) = s) := by
  constructor
  · obtain ⟨s', hs', hrows⟩ := insertSubscriptionRecords_fresh q env hids hnew hactive
    obtain ⟨-, hmsgs, hsubs, hdlq, hlog, -⟩ := insertSubscriptionRecords_spec hs'
    have hpending : ∀ r ∈ subRows q.gen s.seq env.now (fanOut active ms), r.status = .pending := by
      intro r hr
      obtain ⟨i, -, -, k, -, rfl⟩ := mem_subRows hr
      rfl
    refine ⟨s', _, batchCreateSubscriptionRecords_sends hs', flatten_pieces _ _, fun chunk hc => ?_,
      ⟨_, hrows, key_subRows _ _ _ _, hpending⟩, fun m hm x hx => ?_, hmsgs, hsubs, hdlq, hlog⟩
    · exact ⟨length_of_mem_pieces _ hc, placeholders_insertStatement chunk, length_argsOf chunk,
        records_insertStatement chunk⟩
    · have hk : (m.id, x) ∈ (subRows q.gen s.seq env.now (fanOut active ms)).map Sub.key := by
        rw [key_subRows]
        exact mem_fanOut.mpr ⟨⟨m, hm, rfl⟩, hx⟩
      obtain ⟨r, hr, hkey⟩ := mem_map.mp hk
      refine ⟨r, hpending r hr, ?_⟩
      rw [← hkey]
      exact Table.filter_key (by rw [hrows]; exact mem_append_right _ hr)
  · intro hcap hover
    have htoo := getActiveSubscribers_tooMany hcap hover
    constructor
    · intro m
      obtain ⟨e, he⟩ := publishToPubSub_tooMany (q := q) htoo m
      exact ⟨e, he, by rw [he]; rfl⟩
    · intro ms
      obtain ⟨e, he⟩ := publishBatchToPubSub_tooMany (q := q) htoo ms
      exact ⟨e, he, by rw [he]; rfl⟩

theorem fanOut_exact_twoByTwo :
    ∃ (s' : State) (chunks : List (List (UUID × String))),
      (writer (.counting 3) (.bare 0)).batchCreateSubscriptionRecords [7, 8] ["a", "b"]
          ⟨withMessages (.bare 0) [⟨7, [], none⟩, ⟨8, [], none⟩] .init, []⟩ =
        .ok ⟨s', chunks.map insertStatement⟩ ∧
        chunks.flatten = [(7, "a"), (7, "b"), (8, "a"), (8, "b")] := by
  obtain ⟨⟨s', chunks, hsent, hflat, -⟩, -⟩ := fanOut_exact (.counting 3) (.bare 0) .init
    [⟨7, [], none⟩, ⟨8, [], none⟩] ["a", "b"] (by decide) (fun _ _ => rfl) (by decide)
  exact ⟨s', chunks, hsent, hflat⟩

end
end PgQueue.Topic.Inserts
