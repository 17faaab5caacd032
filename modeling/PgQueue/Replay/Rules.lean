import PgQueue.Replay.Paging

/-!
# ReplayDLQ: what happens to one dead letter

* `Channel.replayRule`   a dead letter is inserted again unless its id is in the message table;
* `Topic.replayRule`     its subscriptions are created again, provided the message is there and
                         there is someone to replay it to;
* `Channel.replayDLQ_replays`, `Topic.replayDLQ_replays`   a page applies the rule row by row.

Fresh subscription ids are the one thing the rule for topics does not fix: its view has no ids.
-/

namespace PgQueue
open Relational List

/-! ## channels -/

namespace Channel

abbrev ReplayView := Table Row UUID Row.id × List DLQRow

def replayView (s : State) : ReplayView := (s.msgs, s.dlq)

/-- inserted again, unless its id is in the message table -/
def replayRule (q : Queue) : ReplayRule ReplayView where
  dlq := Prod.snd
  row env d v :=
    if (v.1.find? d.originalMessageID).isNone then
      (true, v.1.insertNew (replayedRow q env d), v.2.filter fun x => decide (x.id ≠ d.id))
    else (false, v)
  refuses _ _ _ := none
  dlq_row env d v := by
    split
    · rfl
    · rfl

section
variable {q : Queue} {env : Env} {s : State}

def reinserted (ds : List DLQRow) (msgs : Table Row UUID Row.id) : List DLQRow :=
  (dedupeDLQByMessageID ds).filter fun d => (msgs.find? d.originalMessageID).isNone

theorem reinserted_cons (q : Queue) (env : Env) (d : DLQRow) (ds : List DLQRow)
    (msgs : Table Row UUID Row.id) :
    reinserted (d :: ds) msgs =
      (if (msgs.find? d.originalMessageID).isNone then [d] else []) ++
        reinserted ds (msgs.insertNew (replayedRow q env d)) := by
  have hrest : ((dedupeDLQByMessageID ds).filter fun x =>
        decide (x.originalMessageID ≠ d.originalMessageID)).filter
        (fun x => (msgs.find? x.originalMessageID).isNone) =
      reinserted ds (msgs.insertNew (replayedRow q env d)) := by
    unfold reinserted
    rw [filter_filter]
    apply filter_congr
    intro x _
    rw [Table.find?_insertNew]
    show _ = Option.isNone (if d.originalMessageID = x.originalMessageID then _ else _)
    by_cases hx : x.originalMessageID = d.originalMessageID
    · rw [if_pos hx.symm, decide_eq_false (not_not.mpr hx), Bool.and_false]
      rfl
    · rw [if_neg fun h => hx h.symm, decide_eq_true hx, Bool.and_true]
  rw [← hrest]
  unfold reinserted dedupeDLQByMessageID
  rw [firstBy, filter_cons]
  split <;> rfl

theorem replayView_reinsertDLQChannel (ds : List DLQRow) :
    replayView (reinsertDLQChannel q env ds s).2 =
      (s.msgs.insertAll (ds.map (replayedRow q env)),
        s.dlq.filter fun d => !(reinserted ds s.msgs).any fun x => decide (x.id = d.id)) := by
  have hmsgs : s.msgs.insertAll ((dedupeDLQByMessageID ds).map (replayedRow q env)) =
      s.msgs.insertAll (ds.map (replayedRow q env)) := by
    show s.msgs.insertAll ((firstBy (Row.id ∘ replayedRow q env) ds).map (replayedRow q env)) = _
    rw [map_firstBy, Table.insertAll_firstBy]
  exact Prod.ext hmsgs rfl

theorem replayRule_row (d : DLQRow) (v : ReplayView) :
    (replayRule q).row env d v = ((v.1.find? d.originalMessageID).isNone,
      v.1.insertNew (replayedRow q env d),
      v.2.filter fun x => !(if (v.1.find? d.originalMessageID).isNone then [d] else []).any
        fun y => decide (y.id = x.id)) := by
  cases h : v.1.find? d.originalMessageID with
  | none =>
    show (if (v.1.find? d.originalMessageID).isNone then _ else _) = _
    rw [h]
    refine Prod.ext rfl (Prod.ext rfl ?_)
    apply filter_congr
    intro x _
    simp [eq_comm]
  | some r =>
    have hnew : v.1.insertNew (replayedRow q env d) = v.1 := Table.insertNew_of_find? h
    show (if (v.1.find? d.originalMessageID).isNone then _ else _) = _
    rw [h, hnew]
    exact Prod.ext rfl (Prod.ext rfl (filter_eq_self.mpr fun _ _ => rfl).symm)

theorem replayRule_rows (ds : List DLQRow) (v : ReplayView) :
    (replayRule q).rows (ds.map fun d => (env, d)) v =
      ((reinserted ds v.1).length, v.1.insertAll (ds.map (replayedRow q env)),
        v.2.filter fun d => !(reinserted ds v.1).any fun x => decide (x.id = d.id)) := by
  induction ds generalizing v with
  | nil => exact Prod.ext rfl (Prod.ext rfl (filter_eq_self.mpr fun _ _ => rfl).symm)
  | cons d ds ih =>
    rw [map_cons, ReplayRule.rows_cons, ih, replayRule_row, reinserted_cons q env]
    refine Prod.ext ?_ (Prod.ext rfl ?_)
    · rw [length_append, Nat.add_comm]
      cases (v.1.find? d.originalMessageID).isNone <;> rfl
    · rw [filter_filter]
      apply filter_congr
      intro x _
      rw [any_append, Bool.not_or, Bool.and_comm]

/-- **a page of a channel applies the rule row by row** -/
theorem replayDLQ_replays (q : Queue) (performedBy : Option String) (dryRun : Bool) :
    Replays (replayRule q) replayView State.replayLog dryRun
      (fun env afterID pageLimit s =>
        .ok (replayDLQPage q env afterID pageLimit performedBy dryRun s)) where
  refused h := nomatch h
  done {env afterID n s} _ _ := by
    have hview : ∀ ds, replayView (reinsertDLQChannel q env ds s).2 =
        ((replayRule q).rows (ds.map fun d => (env, d)) (replayView s)).2 := by
      intro ds
      rw [replayRule_rows, replayView_reinsertDLQChannel]
      rfl
    have hlen : ∀ ds, (reinsertDLQChannel q env ds s).1.length =
        ((replayRule q).rows (ds.map fun d => (env, d)) (replayView s)).1 := by
      intro ds
      rw [replayRule_rows]
      exact length_map _
    refine ⟨(replayDLQPage q env afterID n performedBy dryRun s).1,
      (replayDLQPage q env afterID n performedBy dryRun s).2, rfl, hlen _, rfl, rfl, ?_, ?_⟩
    · rintro rfl
      rfl
    · rintro rfl
      cases hids : (reinsertDLQChannel q env (fetchDLQMessages afterID n s.dlq) s).1 with
      | nil =>
        have h0 : (replayDLQPage q env afterID n performedBy false s).1.replayed = 0 :=
          congrArg List.length hids
        have hs : (replayDLQPage q env afterID n performedBy false s).2 =
            (reinsertDLQChannel q env (fetchDLQMessages afterID n s.dlq) s).2 := by
          unfold replayDLQPage
          dsimp only
          rw [hids]
          rfl
        rw [hs, h0]
        exact ⟨hview _, [], (append_nil _).symm, rfl⟩
      | cons x xs =>
        have h0 : (replayDLQPage q env afterID n performedBy false s).1.replayed = (x :: xs).length :=
          congrArg List.length hids
        have hs : (replayDLQPage q env afterID n performedBy false s).2 =
            writeReplayLog q env .dlq (x :: xs).length performedBy
              (reinsertDLQChannel q env (fetchDLQMessages afterID n s.dlq) s).2 := by
          unfold replayDLQPage
          dsimp only
          rw [hids]
          rfl
        rw [hs, h0]
        exact ⟨hview _, _, rfl, rfl⟩

end
end Channel

/-! ## topics -/

namespace Topic

/-- a subscription up to its own id, which is drawn afresh -/
def Sub.withoutID (r : Sub) : Sub := { r with id := UUID.nil }

theorem Sub.key_withoutID (r : Sub) : r.withoutID.key = r.key := rfl

structure ReplayView where
  msgs : Table MessageRow UUID MessageRow.id
  subscribers : Table Subscriber String Subscriber.subscriberID
  subs : Table Sub (UUID × String) Sub.key
  dlq : List DLQRow

def replayView (s : State) : ReplayView :=
  ⟨s.msgs, s.subscribers, s.subs.update (fun _ => true) Sub.withoutID Sub.key_withoutID, s.dlq⟩

namespace ReplayView

def active (v : ReplayView) : List String :=
  (v.subscribers.select Subscriber.active (fun a b => a.createdAt ≤ b.createdAt)).map
    Subscriber.subscriberID

def exists? (v : ReplayView) (d : DLQRow) : Bool := (v.msgs.find? d.originalMessageID).isSome

def records (v : ReplayView) (d : DLQRow) : List (UUID × String) :=
  if v.exists? d then dlqRecords v.active d else []

/-- would a page that reads these rows ask for more active subscribers than the cap allows? -/
def overCap (env : Env) (ds : List DLQRow) (v : ReplayView) : Bool :=
  (ds.any fun d => v.exists? d && d.subscriberID.isNone)
    && decide (env.maxSubscribersPerTopic > 0 ∧ v.active.length > env.maxSubscribersPerTopic)

/-- these records are inserted and these dead letters deleted -/
def reinstate (now : Time) (records : List (UUID × String)) (gone : List DLQRow) (v : ReplayView) :
    ReplayView :=
  { v with
    subs := v.subs.insertAll (records.map (newSub UUID.nil now))
    dlq := v.dlq.filter fun d => !gone.any fun x => decide (x.id = d.id) }

end ReplayView

/-- its subscriptions are created again, if it has any and its message exists -/
def replayRule : ReplayRule ReplayView where
  dlq := ReplayView.dlq
  row env d v :=
    if (v.records d).isEmpty then (false, v)
    else (true, { v with
      subs := v.subs.insertAll ((v.records d).map (newSub UUID.nil env.now))
      dlq := v.dlq.filter fun x => decide (x.id ≠ d.id) })
  refuses env ds v := if v.overCap env ds then some .tooManySubscribers else none
  dlq_row env d v := by
    split
    · rfl
    · rfl

section
variable {q : Queue} {env : Env} {s s' : State} {v : ReplayView}

theorem replayRule_row (d : DLQRow) :
    replayRule.row env d v = (!(v.records d).isEmpty,
      v.reinstate env.now (v.records d) (if (v.records d).isEmpty then [] else [d])) := by
  show (if (v.records d).isEmpty then _ else _) = _
  split
  · rename_i h
    rw [h, isEmpty_iff.mp h]
    refine Prod.ext rfl ?_
    show v = { v with subs := v.subs, dlq := v.dlq.filter fun _ => true }
    rw [filter_true]
  · rename_i h
    have hdlq : v.dlq.filter (fun x => decide (x.id ≠ d.id)) =
        v.dlq.filter fun x => !([d].any fun y => decide (y.id = x.id)) := by
      apply filter_congr
      intro x _
      simp [eq_comm]
    rw [Bool.eq_false_iff.mpr h, hdlq]
    rfl

theorem reinstate_reinstate (now : Time) (rs rs' : List (UUID × String)) (ds ds' : List DLQRow) :
    (v.reinstate now rs ds).reinstate now rs' ds' = v.reinstate now (rs ++ rs') (ds ++ ds') := by
  unfold ReplayView.reinstate
  rw [map_append, Table.insertAll_append, filter_filter]
  congr 1
  apply filter_congr
  intro x _
  rw [any_append, Bool.not_or, Bool.and_comm]

theorem replayRule_rows (ds : List DLQRow) :
    replayRule.rows (ds.map fun d => (env, d)) v =
      ((ds.filter fun d => !(v.records d).isEmpty).length,
        v.reinstate env.now (ds.flatMap v.records) (ds.filter fun d => !(v.records d).isEmpty)) := by
  induction ds generalizing v with
  | nil =>
    refine Prod.ext rfl ?_
    show v = { v with subs := v.subs, dlq := v.dlq.filter fun _ => true }
    rw [filter_true]
  | cons d ds ih =>
    rw [map_cons, ReplayRule.rows_cons, ih, replayRule_row]
    -- which records a dead letter has does not depend on the rows before it
    rw [reinstate_reinstate, flatMap_cons, filter_cons]
    cases (v.records d).isEmpty <;> rfl

theorem map_withoutID_subRows (gen : Generator) (seq : Nat) (now : Time)
    (records : List (UUID × String)) :
    (subRows gen seq now records).map Sub.withoutID = records.map (newSub UUID.nil now) := by
  induction records generalizing seq with
  | nil => rfl
  | cons record records ih => exact congrArg _ (ih (seq + 1))

theorem insertSubscriptionRecords_firstBy {records : List (UUID × String)}
    (h : ∀ record ∈ records, (s.msgs.find? record.1).isSome) :
    ∃ s', insertSubscriptionRecords q env (firstBy id records) s = .ok s' ∧ s'.dlq = s.dlq ∧
      s'.replayLog = s.replayLog ∧ replayView s' = (replayView s).reinstate env.now records [] := by
  have hres : s.tables.Resolves (subRows q.gen s.seq env.now (firstBy id records)) := by
    intro c hc
    have hkey : Sub.key c.withoutID ∈ records := by
      have hmem := mem_map_of_mem (f := Sub.withoutID) hc
      rw [map_withoutID_subRows] at hmem
      obtain ⟨record, hr, he⟩ := mem_map.mp hmem
      rw [← he]
      exact mem_of_mem_firstBy hr
    exact h c.key hkey
  obtain ⟨u, hu, hparents, hchildren⟩ := Linked.insertChildren_of_resolves hres
  unfold insertSubscriptionRecords
  rw [hu]
  refine ⟨_, rfl, rfl, rfl, ?_⟩
  have hsubs : u.children.update (fun _ => true) Sub.withoutID Sub.key_withoutID =
      (replayView s).subs.insertAll (records.map (newSub UUID.nil env.now)) := by
    rw [hchildren, Table.update_insertAll, map_withoutID_subRows]
    rw [← Table.insertAll_firstBy _ (records.map (newSub UUID.nil env.now)), ← map_firstBy]
    rfl
  show ReplayView.mk u.parents s.subscribers _ s.dlq = _
  rw [hsubs, hparents]
  unfold ReplayView.reinstate
  congr 1
  exact (filter_true _).symm

theorem dlqRecords_congr {active active' : List String} {d : DLQRow}
    (h : d.subscriberID.isSome = true) : dlqRecords active d = dlqRecords active' d := by
  obtain ⟨subscriberID, hs⟩ := Option.isSome_iff_exists.mp h
  unfold dlqRecords
  rw [hs]

theorem fst_dlqRecords {active : List String} {d : DLQRow} {record : UUID × String}
    (h : record ∈ dlqRecords active d) : record.1 = d.originalMessageID := by
  unfold dlqRecords at h
  split at h
  · rw [mem_singleton.mp h]
  · obtain ⟨_, _, rfl⟩ := mem_map.mp h
    rfl

theorem flatMap_records (ds : List DLQRow) :
    (ds.filter v.exists?).flatMap (dlqRecords v.active) = ds.flatMap v.records := by
  induction ds with
  | nil => rfl
  | cons d ds ih =>
    rw [filter_cons, flatMap_cons, ← ih, ReplayView.records]
    split
    · rw [flatMap_cons]
    · rfl

theorem filter_records (ds : List DLQRow) :
    ((ds.filter v.exists?).filter fun d => !(dlqRecords v.active d).isEmpty) =
      ds.filter fun d => !(v.records d).isEmpty := by
  rw [filter_filter]
  apply filter_congr
  intro d _
  unfold ReplayView.records
  cases v.exists? d with
  | true => exact Bool.and_true _
  | false => exact Bool.and_false _

theorem getActiveSubscribers_eq (env : Env) (s : State) :
    getActiveSubscribers env s =
      if env.maxSubscribersPerTopic > 0 ∧
          (replayView s).active.length > env.maxSubscribersPerTopic then
        .error .tooManySubscribers
      else .ok (replayView s).active := rfl

theorem resolvePubSubDLQRecords_view (env : Env) (ds : List DLQRow) (s : State) :
    resolvePubSubDLQRecords env (filterExistingMessages ds s) s =
      if (replayView s).overCap env ds then .error .tooManySubscribers
      else .ok (firstBy id (ds.flatMap (replayView s).records),
        ds.filter fun d => !((replayView s).records d).isEmpty) := by
  rw [← flatMap_records, ← filter_records]
  have hlegacy : (ds.any fun d => (replayView s).exists? d && d.subscriberID.isNone) =
      !((filterExistingMessages ds s).all fun d => d.subscriberID.isSome) := by
    unfold filterExistingMessages
    rw [all_filter, not_all_eq_any_not]
    congr 1
    funext d
    show ((s.msgs.find? d.originalMessageID).isSome && _) = _
    cases (s.msgs.find? d.originalMessageID).isSome <;> cases d.subscriberID <;> rfl
  unfold resolvePubSubDLQRecords ReplayView.overCap
  rw [hlegacy]
  cases hall : (filterExistingMessages ds s).all fun d => d.subscriberID.isSome with
  | true =>
    -- nobody asks for the active subscribers
    have hsame : ∀ d ∈ filterExistingMessages ds s,
        dlqRecords [] d = dlqRecords (replayView s).active d := fun d hd =>
      dlqRecords_congr (all_eq_true.mp hall d hd)
    have hflat : (filterExistingMessages ds s).flatMap (dlqRecords []) =
        (ds.filter (replayView s).exists?).flatMap (dlqRecords (replayView s).active) :=
      flatMap_congr hsame
    have hfilter : (filterExistingMessages ds s).filter (fun d => !(dlqRecords [] d).isEmpty) =
        (ds.filter (replayView s).exists?).filter fun d =>
          !(dlqRecords (replayView s).active d).isEmpty :=
      filter_congr fun d hd => by rw [hsame d hd]
    rw [if_pos rfl]
    dsimp only
    rw [hflat, hfilter]
    rfl
  | false =>
    rw [if_neg Bool.false_ne_true]
    rw [getActiveSubscribers_eq]
    by_cases hcap : env.maxSubscribersPerTopic > 0 ∧
        (replayView s).active.length > env.maxSubscribersPerTopic
    · rw [if_pos hcap, decide_eq_true hcap]
      rfl
    · rw [if_neg hcap, decide_eq_false hcap]
      rfl

theorem replayView_dlq {dlq : List DLQRow} :
    replayView { s with dlq := dlq } = { replayView s with dlq := dlq } := rfl

theorem reinsertDLQPubSub_rows (ds : List DLQRow) (h : (replayView s).overCap env ds = false) :
    ∃ s', reinsertDLQPubSub q env ds s =
        .ok ((replayRule.rows (ds.map fun d => (env, d)) (replayView s)).1, s') ∧
      replayView s' = (replayRule.rows (ds.map fun d => (env, d)) (replayView s)).2 ∧
      s'.replayLog = s.replayLog := by
  have hmsg : ∀ record ∈ ds.flatMap (replayView s).records, (s.msgs.find? record.1).isSome := by
    intro record hr
    obtain ⟨d, hd, hr⟩ := mem_flatMap.mp hr
    unfold ReplayView.records at hr
    split at hr
    · rename_i hex
      rw [fst_dlqRecords hr]
      exact hex
    · cases hr
  obtain ⟨s₁, hs₁, hdlq, hlog, hview⟩ : ∃ s', insertSubscriptionRecords q env
      (firstBy id (ds.flatMap (replayView s).records)) s = .ok s' ∧ _ :=
    insertSubscriptionRecords_firstBy hmsg
  unfold reinsertDLQPubSub
  rw [resolvePubSubDLQRecords_view, h, if_neg Bool.false_ne_true]
  dsimp only
  rw [hs₁, replayRule_rows]
  refine ⟨_, rfl, ?_, hlog⟩
  rw [replayView_dlq, hview]
  rfl

theorem reinsertDLQPubSub_overCap (ds : List DLQRow) (h : (replayView s).overCap env ds = true) :
    reinsertDLQPubSub q env ds s = .error .tooManySubscribers := by
  unfold reinsertDLQPubSub
  rw [resolvePubSubDLQRecords_view, h]
  rfl

/-- **a page of a topic applies the rule row by row** -/
theorem replayDLQ_replays (q : Queue) (performedBy : Option String) (dryRun : Bool) :
    Replays replayRule replayView State.replayLog dryRun
      (fun env afterID pageLimit s =>
        replayDLQPage q env afterID pageLimit performedBy dryRun s) where
  refused {env afterID n s e} h := by
    have h : (if (replayView s).overCap env (fetchDLQMessages afterID n s.dlq) then
        some QueueError.tooManySubscribers else none) = some e := h
    unfold replayDLQPage
    dsimp only
    split at h
    · rename_i hcap
      cases h
      rw [reinsertDLQPubSub_overCap _ hcap]
    · cases h
  done {env afterID n s} _ h := by
    have h : (if (replayView s).overCap env (fetchDLQMessages afterID n s.dlq) then
        some QueueError.tooManySubscribers else none) = none := h
    have hcap : (replayView s).overCap env (fetchDLQMessages afterID n s.dlq) = false := by
      split at h
      · cases h
      · rename_i hcap
        exact Bool.eq_false_iff.mpr hcap
    obtain ⟨s₁, hs₁, hview, hlog⟩ := reinsertDLQPubSub_rows (q := q) _ hcap
    unfold replayDLQPage
    dsimp only
    rw [hs₁]
    refine ⟨_, _, rfl, rfl, rfl, rfl, ?_, ?_⟩
    · rintro rfl
      rfl
    · rintro rfl
      rw [if_neg Bool.false_ne_true]
      split
      · rename_i h0
        exact ⟨hview, [], hlog.trans (append_nil _).symm, h0.symm⟩
      · exact ⟨hview, _, congrArg (· ++ _) hlog, rfl⟩

end
end Topic
end PgQueue
