import PgQueue.Channel.Run
import PgQueue.Channel.Settle

/-!
# The channel is a system of leases

`lease q s` reads a channel's tables as a `Lease.System` over message ids: the slot of an id is
its row in the message table, the buried items are the dead letters.

`step_txn`: **every transaction of a channel is a transaction of that system**, and `reach_run`:
**every run of a channel is a run of it**.  The statements of the channel are taken one by one:
each one is a move (`moves_batchMoveToDLQ`, `moves_defer`, ...), a transaction is their
composition.
-/

namespace PgQueue.Channel
open Relational Lease List

def Row.slot (q : Queue) (r : Row) : Slot UUID Time :=
  ⟨phaseOf r.status, r.retryCount, r.cap q, r.claimID, r.visibilityTimeout, r.processedAt⟩

def lease (q : Queue) (s : State) : System UUID UUID Time where
  slot := slots (Row.slot q) s.msgs
  dead k a := ∃ d ∈ s.dlq, d.originalMessageID = k ∧ d.retryCount = a
  seq := s.seq

/-- the leases go from `s` to `s'` by moves that report `es` -/
abbrev Moved (q : Queue) (env : Env) (s : State) (es : History UUID) (s' : State) : Prop :=
  Moves q.gen.draw q.resolveMaxRetries env.now (lease q s) es (lease q s')

/-- **what a consume call does**: timed-out rows are buried or put off, until a row is claimed or the
call gives up -/
inductive Fetched (q : Queue) (env : Env) (vis : Duration) :
    State → Option Message → State → Prop where
  | nothing {s} : Fetched q env vis s none s
  | pending {s r} (hr : r ∈ s.msgs.rows) (hst : r.status = .pending) (hav : r.availableAt ≤ env.now) :
      Fetched q env vis s (claimChannelMessage q env vis r r.retryCount s).1
        (claimChannelMessage q env vis r r.retryCount s).2
  | buried {s s' m r} (hr : r ∈ s.msgs.rows) (ht : r.timedOut env.now = true)
      (hcap : r.retryCount + 1 > r.cap q)
      (rest : Fetched q env vis (moveToDLQ q env r.id errReasonVisibilityTimeout r.payload
        (r.retryCount + 1) r.metadata s) m s') : Fetched q env vis s m s'
  | deferred {s s' m r} (hr : r ∈ s.msgs.rows) (ht : r.timedOut env.now = true)
      (hcap : r.retryCount + 1 ≤ r.cap q)
      (rest : Fetched q env vis (deferReclaimedChannelMessage env r.id (r.retryCount + 1)
        (env.computeRetryDelay r.id (r.retryCount + 1) 0) s) m s') : Fetched q env vis s m s'
  | reclaimed {s r} (hr : r ∈ s.msgs.rows) (ht : r.timedOut env.now = true)
      (hcap : r.retryCount + 1 ≤ r.cap q) :
      Fetched q env vis s (claimChannelMessage q env vis r (r.retryCount + 1) s).1
        (claimChannelMessage q env vis r (r.retryCount + 1) s).2

section
variable {q : Queue} {env : Env} {s : State} {r : Row} {s' : State} {x : Receipt} {vis delay : Duration}
  {performedBy : Option String} {now : Time} {es : List (Event UUID Time)} {m : Option Message}
  {reason : Bytes} {p : Row → Bool} {f : Row → Row} {afterID : UUID}

/-! ## rows and slots -/

theorem slot_newRow (m : PublishMessage) :
    (newRow env q.resolveMaxRetries m).slot q = .fresh q.resolveMaxRetries := rfl

theorem slot_replay : r.replay.slot q = (r.slot q).replay := rfl

theorem underClaim_iff {id c : UUID} :
    r.underClaim id c = true ↔ r.id = id ∧ (r.slot q).HeldBy c := by
  unfold Row.underClaim Slot.HeldBy
  simp only [Bool.and_eq_true, decide_eq_true_eq, Row.slot, phaseOf_eq_processing]
  tauto

theorem timedOut_iff : r.timedOut now = true ↔ (r.slot q).Expired now := by
  unfold Row.timedOut Slot.Expired
  simp only [Bool.and_eq_true, decide_eq_true_eq, Row.slot, phaseOf_eq_processing,
    Option.any_eq_true]

theorem settled_iff : r.settled = true → (r.slot q).phase ≠ .processing := by
  unfold Row.settled
  simp only [Bool.and_eq_true, decide_eq_true_eq, Row.slot, ne_eq, phaseOf_eq_processing]
  exact fun h => h.2

theorem not_live_of_status (h : r.status ≠ .processing) : ¬ (r.slot q).Live now :=
  fun hl => h (phaseOf_eq_processing.mp hl.1)

/-! ## statements -/

theorem moves_batchMoveToDLQ {es : History UUID} {ms : List DLQMessage}
    (hm : ∀ m ∈ ms, ∃ r ∈ s.msgs.rows, r.id = m.id ∧ m.retryCount = r.retryCount + 1 ∧
      Step q.gen.draw q.resolveMaxRetries env.now s.seq (some (r.slot q)) (about r.id es)
        [r.retryCount + 1] none s.seq) (hq : ∀ k, (∀ m ∈ ms, m.id ≠ k) → about k es = []) :
    Moved q env s es (batchMoveToDLQ q env ms reason s) := by
  refine Moves.of_delete (fun r => [r.retryCount + 1]) (t := s.msgs) rfl rfl
    (Nat.le_add_right _ _) ?_ ?_ ?_
  · rintro k a ⟨d, hd, rfl, rfl⟩
    rcases mem_append.mp hd with hd | hd
    · exact Or.inl ⟨d, hd, rfl, rfl⟩
    · obtain ⟨m, hmem, hid, hrc, -⟩ := mem_dlqRows hd
      obtain ⟨r, hr, hrid, hcount, -⟩ := hm m hmem
      refine Or.inr ⟨r, hr, hrid.trans hid.symm, ?_, ?_⟩
      · exact any_eq_true.mpr ⟨m, hmem, decide_eq_true hrid.symm⟩
      · rw [hrc, hcount]
        exact mem_cons_self
  · intro r hr hp
    obtain ⟨m, hmem, hid⟩ := any_eq_true.mp hp
    obtain ⟨r', hr', hrid, -, hs⟩ := hm m hmem
    rw [decide_eq_true_eq] at hid
    obtain rfl := Table.eq_of_key hr' hr (hrid.trans hid)
    exact hs
  · intro k hk
    apply hq
    rintro m hmem rfl
    obtain ⟨r, hr, hrid, -⟩ := hm m hmem
    exact any_eq_false.mp (hk r hr hrid) m hmem (decide_eq_true hrid.symm)

theorem moves_updateRow (hf : ∀ r, (f r).id = r.id) (hr : r ∈ s.msgs.rows)
    (hp : ∀ x ∈ s.msgs.rows, p x = true ↔ x.id = r.id) (hs' : s'.msgs = s.msgs.update p f hf)
    (hd : s'.dlq = s.dlq) (hn : s.seq ≤ s'.seq)
    (hs : ∃ n' ≤ s'.seq, Step q.gen.draw q.resolveMaxRetries env.now s.seq (some (r.slot q)) es []
      (some ((f r).slot q)) n') : Moved q env s (es.map fun e => (r.id, e)) s' := by
  refine Moves.of_updateRow hf (t := s.msgs) rfl (congrArg (slots (Row.slot q)) hs') ?_ hn hr hp hs
  rintro k a ⟨d, hmem, hk⟩
  exact ⟨d, hd ▸ hmem, hk⟩

/-! ## consume -/

theorem pendingProbe_spec (h : pendingProbe env s = some r) :
    r ∈ s.msgs.rows ∧ r.status = .pending ∧ r.availableAt ≤ env.now := by
  have hr := Table.mem_select.mp (mem_of_mem_head? h)
  simp only [Bool.and_eq_true, decide_eq_true_eq] at hr
  exact ⟨hr.1, hr.2.1⟩

theorem reclaimProbe_spec (h : reclaimProbe env s = some r) :
    r ∈ s.msgs.rows ∧ r.timedOut env.now = true := by
  have hr := Table.mem_select.mp (mem_of_mem_head? h)
  rw [Bool.and_eq_true] at hr
  exact ⟨hr.1, hr.2.1⟩

theorem status_of_timedOut (h : r.timedOut now = true) : r.status = .processing := by
  unfold Row.timedOut at h
  rw [Bool.and_eq_true, decide_eq_true_eq] at h
  exact h.1

theorem fetched_of_fetch (skips : Nat) (h : fetchPendingChannelMessage q env vis skips s = .ok (m, s')) :
    Fetched q env vis s m s' := by
  induction skips generalizing s with
  | zero =>
    cases h
    exact .nothing
  | succ skips ih =>
    unfold fetchPendingChannelMessage at h
    cases hp : pendingProbe env s with
    | some r =>
      obtain ⟨hr, hst, hav⟩ := pendingProbe_spec hp
      rw [hp] at h
      cases h
      exact .pending hr hst hav
    | none =>
      cases hq : reclaimProbe env s with
      | none =>
        rw [hp, hq] at h
        cases h
        exact .nothing
      | some r =>
        obtain ⟨hr, ht⟩ := reclaimProbe_spec hq
        rw [hp, hq] at h
        dsimp only at h
        rw [reclaimChannelAttempt, status_of_timedOut ht] at h
        by_cases hcap : r.retryCount + 1 > r.cap q
        · rw [if_pos hcap] at h
          exact .buried hr ht hcap (ih h)
        · rw [if_neg hcap] at h
          have hle := Nat.le_of_not_lt hcap
          by_cases hb : env.backoffConfigured = true
          · rw [if_pos hb] at h
            exact .deferred hr ht hle (ih h)
          · rw [if_neg hb] at h
            cases h
            exact .reclaimed hr ht hle

theorem fetched_of_consume (h : consumeFromChannel q env vis s = .ok (m, s')) :
    Fetched q env vis s m s' :=
  fetched_of_fetch _ (consumeFromChannel_ok h)

theorem moves_moveToDLQ (hr : r ∈ s.msgs.rows)
    (hs : Step q.gen.draw q.resolveMaxRetries env.now s.seq (some (r.slot q)) es
      [r.retryCount + 1] none s.seq) :
    Moved q env s (es.map fun e => (r.id, e))
      (moveToDLQ q env r.id reason r.payload (r.retryCount + 1) r.metadata s) := by
  refine moves_batchMoveToDLQ ?_ ?_
  · intro m hm
    obtain rfl := mem_singleton.mp hm
    refine ⟨r, hr, rfl, rfl, ?_⟩
    rw [about_events_self]
    exact hs
  · intro k hk
    exact about_events_ne (hk _ (mem_singleton.mpr rfl)) es

theorem moves_claim {n : Nat} (hr : r ∈ s.msgs.rows)
    (hs : Step q.gen.draw q.resolveMaxRetries env.now s.seq (some (r.slot q))
      [.delivered (q.gen.draw s.seq) (env.now + vis)] []
      (some ((r.slot q).lease (q.gen.draw s.seq) (env.now + vis) n)) (s.seq + 1)) :
    Moved q env s
      (deliveredEvents Receipt.messageID (env.now + vis) (claimChannelMessage q env vis r n s).1)
      (claimChannelMessage q env vis r n s).2 := by
  show Moves _ _ _ _ ([Event.delivered (q.gen.draw s.seq) (env.now + vis)].map fun e => (r.id, e)) _
  exact moves_updateRow (Row.id_claim _ _ _ _) hr (fun _ _ => decide_eq_true_iff) rfl rfl
    (Nat.le_succ _) ⟨_, Nat.le_refl _, hs⟩

theorem moves_defer (hr : r ∈ s.msgs.rows) (ht : r.timedOut env.now = true)
    (hcap : r.retryCount + 1 ≤ r.cap q) :
    Moved q env s [] (deferReclaimedChannelMessage env r.id (r.retryCount + 1) delay s) := by
  show Moves _ _ _ _ (([] : List (Event UUID Time)).map fun e => (r.id, e)) _
  exact moves_updateRow (Row.id_defer _ _ _) hr (fun _ _ => decide_eq_true_iff) rfl rfl
    (Nat.le_refl _) ⟨_, Nat.le_refl _, .postpone (timedOut_iff.mp ht) hcap⟩

theorem moves_fetch (h : Fetched q env vis s m s') :
    Moved q env s (deliveredEvents Receipt.messageID (env.now + vis) m) s' := by
  induction h with
  | nothing => exact Moves.refl _
  | pending hr hst => exact moves_claim hr (.deliver (phaseOf_eq_pending.mpr hst) (Nat.le_refl _))
  | buried hr ht hcap _ ih => exact (moves_moveToDLQ hr (.bury (timedOut_iff.mp ht) hcap)).trans ih
  | deferred hr ht hcap _ ih => exact (moves_defer hr ht hcap).trans ih
  | reclaimed hr ht hcap =>
    exact moves_claim hr (.redeliver (timedOut_iff.mp ht) hcap (Nat.le_refl _))

/-! ## acknowledge -/

theorem moves_underClaim (hf : ∀ r, (f r).id = r.id) (hr : r ∈ s.msgs.rows)
    (hu : r.underClaim x.messageID x.claimID = true)
    (hs : Step q.gen.draw q.resolveMaxRetries env.now s.seq (some (r.slot q)) es []
      (some ((f r).slot q)) s.seq) :
    Moved q env s (es.map fun e => (x.messageID, e)) (updateUnderClaim f hf x s).2 := by
  have hid := (underClaim_eq.mp hu).1
  rw [← hid]
  refine moves_updateRow hf hr ?_ rfl rfl (Nat.le_refl _) ⟨_, Nat.le_refl _, hs⟩
  intro y hy
  refine ⟨fun hy' => (underClaim_eq.mp hy').1.trans hid.symm, fun hy' => ?_⟩
  obtain rfl := Table.eq_of_key hy hr hy'
  exact hu

theorem exists_row_of_live (h : liveClaim s x.messageID = some x.claimID) :
    ∃ r ∈ s.msgs.rows, r.underClaim x.messageID x.claimID = true ∧
      (r.slot q).HeldBy x.claimID := by
  obtain ⟨r, hr, hu⟩ := liveClaim_eq_some.mp h
  exact ⟨r, hr, hu, (underClaim_iff.mp hu).2⟩

theorem moves_ack (h : liveClaim s x.messageID = some x.claimID) :
    Moved q env s (ackedEvents Receipt.messageID [x]) (ackUpdate env x s).2 := by
  obtain ⟨r, hr, hu, hh⟩ := exists_row_of_live (q := q) h
  exact moves_underClaim (Row.id_complete env.now) hr hu (.ack hh)

theorem moves_extend {d : Duration} (hd : 0 < d) (h : liveClaim s x.messageID = some x.claimID) :
    Moved q env s [(x.messageID, .extended x.claimID (env.now + d))]
      (updateUnderClaim (Row.extend env.now d) (Row.id_extend env.now d) x s).2 := by
  obtain ⟨r, hr, hu, hh⟩ := exists_row_of_live (q := q) h
  exact moves_underClaim (Row.id_extend env.now d) hr hu
    (.extend hh (Int.lt_add_of_pos_right _ hd))

theorem moves_nack {msg : Bytes} (hr : r ∈ s.msgs.rows) (hu : r.underClaim x.messageID x.claimID = true) :
    Moved q env s (nackedEvents Receipt.messageID [x])
      (handleNack q env x.messageID msg r delay s) := by
  obtain ⟨hid, hh⟩ := (underClaim_iff (q := q)).mp hu
  show Moves _ _ _ _ ([Event.nacked x.claimID].map fun e => (x.messageID, e)) _
  unfold handleNack
  rw [← hid]
  split
  · rename_i hcap
    exact moves_moveToDLQ hr (.nackLast hh hcap)
  · rename_i hcap
    exact moves_updateRow (Row.id_retry _ _ _) hr (fun _ _ => decide_eq_true_iff) rfl rfl
      (Nat.le_refl _) ⟨_, Nat.le_refl _, .nack hh (Nat.le_of_not_lt hcap)⟩

section
variable {rs : List Receipt} (hn : (rs.map fun r => (r.messageID, r.claimID)).Nodup)
include hn

theorem about_hit (ev : UUID → Event UUID Time) (hr : r ∈ s.msgs.rows) (hh : hit rs r = true) :
    ∃ c, (r.slot q).HeldBy c ∧
      about r.id ((rs.filter (live s)).map fun x => (x.messageID, ev x.claimID)) = [ev c] := by
  obtain ⟨x, hx, hu⟩ := hit_iff.mp hh
  obtain ⟨hid, hheld⟩ := (underClaim_iff (q := q)).mp hu
  refine ⟨x.claimID, hheld, ?_⟩
  rw [hid]
  exact about_live (liveClaim s) (fun _ _ => live_iff) hn hx
    (live_iff.mpr (liveClaim_of_underClaim hr hu))

omit hn in
theorem about_not_hit {ev : UUID → Event UUID Time} {k : UUID}
    (hk : ∀ r ∈ s.msgs.rows, r.id = k → hit rs r = false) :
    about k ((rs.filter (live s)).map fun x => (x.messageID, ev x.claimID)) = [] := by
  refine about_not_live fun x hx hl he => ?_
  obtain ⟨r, hr, hu⟩ := liveClaim_eq_some.mp (live_iff.mp hl)
  have hid := (underClaim_eq.mp hu).1
  exact absurd (hit_iff.mpr ⟨x, hx, hu⟩) (by rw [hk r hr (hid.trans he)]; decide)

theorem moves_ackAll :
    Moved q env s (ackedEvents Receipt.messageID (rs.filter (live s))) (ackAll env rs s) := by
  refine Moves.of_update (Row.id_complete env.now) (t := s.msgs) rfl rfl (fun _ _ h => h)
    (Nat.le_refl _) ?_ ?_
  · intro r hr hh
    obtain ⟨c, hheld, he⟩ := about_hit (q := q) hn Event.acked hr hh
    exact ⟨_, Nat.le_refl _, he ▸ .ack hheld⟩
  · exact fun k hk => about_not_hit hk

theorem moves_nackAll {msg : Bytes} {delay : Duration} :
    Moved q env s (nackedEvents Receipt.messageID (rs.filter (live s)))
      (processNackBatch q env (fetchBatchMessageStates rs s) msg delay s) := by
  refine Moves.of_rewrite (t := s.msgs)
    (g := fun r => if hit rs r then nackRow q env msg delay r else some r)
    (d := fun r => if hit rs r && decide (r.retryCount + 1 > r.cap q) then [r.retryCount + 1] else [])
    rfl ?_ (Nat.le_add_right _ _) ?_ ?_ ?_ ?_
  · intro k
    show ((processNackBatch q env _ msg delay s).msgs.find? k).map _ = _
    rw [Table.find?_filterMap _ rows_processNackBatch]
    intro r r' hg
    split at hg
    · exact id_nackRow hg
    · exact congrArg Row.id (Option.some.inj hg).symm
  · rintro k a ⟨d, hd, rfl, rfl⟩
    rcases mem_append.mp hd with hd | hd
    · exact Or.inl ⟨d, hd, rfl, rfl⟩
    · obtain ⟨m, hmem, hid, hrc, -⟩ := mem_dlqRows hd
      obtain ⟨r, hr, rfl⟩ := mem_map.mp hmem
      obtain ⟨hr, hc⟩ := mem_filter.mp hr
      obtain ⟨hrow, hh⟩ := mem_fetchBatchMessageStates.mp hr
      refine Or.inr ⟨r, hrow, hid.symm, ?_⟩
      rw [if_pos (by rw [hh, hc]; rfl), hrc]
      exact mem_cons_self
  · intro r hr
    by_cases hh : hit rs r = true
    · obtain ⟨c, hheld, he⟩ := about_hit (q := q) hn Event.nacked hr hh
      refine Or.inr ⟨_, Nat.le_add_right _ _, ?_⟩
      rw [if_pos hh, hh, Bool.true_and, nackRow, nackedEvents, he]
      by_cases hc : r.retryCount + 1 > r.cap q
      · rw [if_pos hc, if_pos (decide_eq_true hc)]
        exact .nackLast hheld hc
      · rw [if_neg hc, if_neg (by simpa using hc)]
        exact .nack hheld (Nat.le_of_not_lt hc)
    · rw [if_neg hh]
      refine Or.inl ⟨rfl, about_not_hit fun r' hr' he => ?_⟩
      rw [Table.eq_of_key hr' hr he]
      exact Bool.eq_false_iff.mpr hh
  · exact fun k hk => about_not_hit fun r hr he => absurd he (Table.find?_eq_none.mp hk r hr)
  · intro r hr hg
    by_cases hd : (hit rs r && decide (r.retryCount + 1 > r.cap q)) = true
    · rw [Bool.and_eq_true, decide_eq_true_eq] at hd
      rw [if_pos hd.1, nackRow, if_pos hd.2] at hg
      cases hg
    · exact if_neg hd

end

/-! ## publish -/

theorem moves_insertAll (ms : List PublishMessage) (s' : State)
    (hs' : s'.msgs = s.msgs.insertAll (ms.map (newRow env q.resolveMaxRetries)))
    (hd : ∀ d ∈ s'.dlq, d ∈ s.dlq) (hn : s.seq ≤ s'.seq) (hnd : (ms.map PublishMessage.id).Nodup) :
    Moved q env s
      (publishedEvents ((ms.filter fun m => (s.msgs.find? m.id).isNone).map PublishMessage.id))
      s' := by
  have hev : publishedEvents ((ms.filter fun m => (s.msgs.find? m.id).isNone).map PublishMessage.id) =
      (ms.filter fun m => (s.msgs.find? m.id).isNone).map fun m => (m.id, Event.published) := by
    rw [publishedEvents, map_map]
    rfl
  rw [hev]
  refine Moves.of_insertAll (t := s.msgs) rfl (congrArg (slots (Row.slot q)) hs') ?_ hn ?_ ?_ ?_
  · rintro k a ⟨d, hmem, hk⟩
    exact ⟨d, hd d hmem, hk⟩
  · intro r hr
    obtain ⟨m, -, rfl⟩ := mem_map.mp hr
    exact slot_newRow m
  · intro r hr hnone
    obtain ⟨m, hm, rfl⟩ := mem_map.mp hr
    refine about_map_mem (fun _ => Event.published) ((filter_sublist.map _).nodup hnd)
      (mem_filter.mpr ⟨hm, ?_⟩)
    exact Option.isNone_iff_eq_none.mpr hnone
  · intro k hk
    refine about_map_not_mem (fun _ => Event.published) fun m hm he => ?_
    obtain ⟨hm, hnone⟩ := mem_filter.mp hm
    rw [he, Option.isNone_iff_eq_none] at hnone
    rcases hk with hk | hk
    · rw [hnone] at hk
      cases hk
    · exact hk _ (mem_map.mpr ⟨m, hm, rfl⟩) he

theorem moves_publish {m : PublishMessage} (h : publishToChannel q env m s = .ok s') :
    Moved q env s (publishedEvents [m.id]) s' := by
  obtain ⟨hnone, rfl⟩ := publishToChannel_ok h
  have hall : [m].filter (fun m => (s.msgs.find? m.id).isNone) = [m] :=
    filter_cons_of_pos (Option.isNone_iff_eq_none.mpr hnone)
  have hm := moves_insertAll [m]
    { s with msgs := s.msgs.insertNew (newRow env q.resolveMaxRetries m) } rfl
    (fun _ h => h) (Nat.le_refl _) (nodup_singleton _)
  rwa [hall] at hm

theorem moves_publishBatch {ms : List PublishMessage} (h : publishBatchToChannel q env ms s = .ok s') :
    Moved q env s (publishedEvents (ms.map PublishMessage.id)) s' := by
  obtain ⟨hfull, rfl⟩ := publishBatchToChannel_ok h
  have hlen : (ms.map (newRow env q.resolveMaxRetries)).length = ms.length := length_map _
  obtain ⟨hnd, hnew⟩ := Table.insertAll_fresh (hlen ▸ hfull)
  rw [map_map] at hnd
  have hall : ms.filter (fun m => (s.msgs.find? m.id).isNone) = ms := by
    rw [filter_eq_self]
    intro m hm
    exact Option.isNone_iff_eq_none.mpr (hnew _ (mem_map.mpr ⟨m, hm, rfl⟩))
  have hm := moves_insertAll ms
    { s with msgs := s.msgs.insertAll (ms.map (newRow env q.resolveMaxRetries)) } rfl
    (fun _ h => h) (Nat.le_refl _) hnd
  rwa [hall] at hm

/-! ## garbage collection -/

theorem batchMoveToDLQ_nil (reason : Bytes) : batchMoveToDLQ q env [] reason s = s := by
  unfold batchMoveToDLQ
  have hdel : s.msgs.delete (fun r => ([] : List DLQMessage).any fun m => decide (m.id = r.id)) =
      s.msgs := Table.ext (filter_eq_self.mpr fun _ _ => rfl)
  rw [hdel]
  show State.mk s.msgs (s.dlq ++ []) s.replayLog s.seq = s
  rw [append_nil]

theorem batchMoveToDLQ_append (ms ms' : List DLQMessage) (reason : Bytes) :
    batchMoveToDLQ q env ms' reason (batchMoveToDLQ q env ms reason s) =
      batchMoveToDLQ q env (ms ++ ms') reason s := by
  unfold batchMoveToDLQ
  rw [State.mk.injEq]
  refine ⟨?_, ?_, rfl, ?_⟩
  · apply Table.ext
    show (s.msgs.rows.filter _).filter _ = s.msgs.rows.filter _
    rw [filter_filter]
    apply filter_congr
    intro r hr
    dsimp only
    rw [any_append, Bool.not_or, Bool.and_comm]
  · rw [append_assoc, dlqRows_append]
  · rw [length_append, Nat.add_assoc]

theorem foldl_moveToDLQ (rows : List Row) (s : State) :
    rows.foldl (fun s e => moveToDLQ q env e.id errReasonVisibilityTimeout e.payload
      (e.retryCount + 1) e.metadata s) s =
      batchMoveToDLQ q env (rows.map fun e => ⟨e.id, e.payload, e.retryCount + 1, e.metadata⟩)
        errReasonVisibilityTimeout s := by
  induction rows generalizing s with
  | nil =>
    show s = batchMoveToDLQ q env [] errReasonVisibilityTimeout s
    rw [batchMoveToDLQ_nil]
  | cons e rows ih =>
    rw [foldl_cons, ih, moveToDLQ, batchMoveToDLQ_append]
    rfl

theorem listed_iff {page : List Row} (hsub : ∀ x ∈ page, x ∈ s.msgs.rows) (hr : r ∈ s.msgs.rows) :
    listed page r = true ↔ r ∈ page := by
  unfold listed
  rw [any_eq_true]
  constructor
  · rintro ⟨x, hx, he⟩
    exact Table.eq_of_key (hsub x hx) hr (of_decide_eq_true he) ▸ hx
  · exact fun h => ⟨r, h, decide_eq_true rfl⟩

theorem moves_promotePage :
    Moved q env s [] (promoteExhaustedChannelPage q env s).2 := by
  unfold promoteExhaustedChannelPage
  dsimp only
  rw [foldl_moveToDLQ]
  refine moves_batchMoveToDLQ ?_ (fun _ _ => rfl)
  intro m hm
  obtain ⟨r, hr, rfl⟩ := mem_map.mp hm
  obtain ⟨hr, hp⟩ := Table.mem_select.mp (mem_of_mem_take hr)
  rw [Bool.and_eq_true, decide_eq_true_eq] at hp
  exact ⟨r, hr, rfl, rfl, .bury (timedOut_iff.mp hp.1) (Nat.lt_succ_of_le hp.2)⟩

theorem moves_resetPage :
    Moved q env s [] (resetTimedOutPage q env s).2 := by
  refine Moves.of_update Row.id_reset (t := s.msgs) rfl rfl (fun _ _ h => h) (Nat.le_refl _) ?_
    (fun _ _ => rfl)
  intro r hr hp
  have hmem := (listed_iff (fun x hx => (Table.mem_select.mp (mem_of_mem_take hx)).1) hr).mp hp
  have hp := (Table.mem_select.mp (mem_of_mem_take hmem)).2
  rw [Bool.and_eq_true, decide_eq_true_eq] at hp
  exact ⟨_, Nat.le_refl _, .postpone (timedOut_iff.mp hp.1) hp.2⟩

theorem moves_purgePage {le : Row → Row → Prop} [DecidableRel le]
    (hp : ∀ r, p r = true → r.status ≠ .processing) :
    Moved q env s [] (purgeMessagesPage p le s).2 := by
  refine Moves.of_drop (t := s.msgs) rfl rfl (fun _ _ h => h) (Nat.le_refl _) ?_
  intro r hr hl
  have hmem := (listed_iff (fun x hx => (Table.mem_select.mp (mem_of_mem_take hx)).1) hr).mp hl
  exact not_live_of_status (hp r (Table.mem_select.mp (mem_of_mem_take hmem)).2)

theorem moves_purgeCompleted {ttl : Duration} :
    Moved q env s [] (purgeCompletedPage env ttl s).2 := by
  unfold purgeCompletedPage
  split
  · refine moves_purgePage fun r hp => ?_
    rw [Bool.and_eq_true, decide_eq_true_eq] at hp
    rw [hp.1]
    decide
  · exact Moves.refl _

theorem moves_purgeOldPending {maxAge : Duration} :
    Moved q env s [] (purgeOldPendingPage env maxAge s).2 := by
  unfold purgeOldPendingPage
  split
  · refine moves_purgePage fun r hp => ?_
    rw [Bool.and_eq_true, decide_eq_true_eq] at hp
    rw [hp.1]
    decide
  · exact Moves.refl _

theorem moves_purgeDLQ {retention : Duration} :
    Moved q env s [] (purgeDLQPage env retention s).2 := by
  refine Moves.of_same (fun _ => rfl) ?_ (Nat.le_refl _)
  rintro k a ⟨d, hd, hk⟩
  exact ⟨d, (purgeDLQRows_sublist env retention s.dlq).subset hd, hk⟩

/-! ## replay and purge -/

theorem moves_writeReplayLog {es : History UUID} {op : ReplayOperation} {n : Nat}
    (h : Moved q env s es s') : Moved q env s es (writeReplayLog q env op n performedBy s') := by
  have hlog : Moved q env s' [] (writeReplayLog q env op n performedBy s') :=
    Moves.of_same (fun _ => rfl) (fun _ _ h => h) (Nat.le_succ _)
  have := h.trans hlog
  rwa [append_nil] at this

theorem moves_applyReplayFrom (ids : List UUID) :
    Moved q env s (replayedEvents (applyReplayFrom ids s).1) (applyReplayFrom ids s).2 := by
  have hev : replayedEvents (applyReplayFrom ids s).1 =
      (s.msgs.rows.filter fun r => ids.contains r.id && r.settled).map
        fun r => (r.id, Event.replayed) := by
    unfold replayedEvents applyReplayFrom
    rw [map_map]
    rfl
  rw [hev]
  refine Moves.of_replay Row.id_replay (t := s.msgs) rfl rfl (fun _ _ h => h) (Nat.le_refl _)
    (fun _ => slot_replay) ?_
  intro r hr hp
  rw [Bool.and_eq_true] at hp
  exact settled_iff hp.2

theorem moves_replayFrom {since : Time} {limit : Nat} :
    Moved q env s
      (replayedEvents (replayFromPage q env since afterID limit performedBy s).1.reinstated)
      (replayFromPage q env since afterID limit performedBy s).2 := by
  unfold replayFromPage
  dsimp only
  have h := @moves_applyReplayFrom q env s (fetchReplayCandidateIDs since afterID limit s)
  split
  · exact h
  · exact moves_writeReplayLog h

theorem moves_replayMessage {id : UUID} (h : executeReplayMessage q env id performedBy s = .ok s') :
    Moved q env s (replayedEvents [id]) s' := by
  obtain ⟨hany, rfl⟩ := executeReplayMessage_ok h
  obtain ⟨r, hr, hp⟩ := any_eq_true.mp hany
  simp only [Bool.and_eq_true, decide_eq_true_eq] at hp
  refine moves_writeReplayLog ?_
  show Moves _ _ _ _ ([Event.replayed].map fun e => (id, e)) _
  rw [← hp.1]
  refine moves_updateRow (Row.id_replayNow env.now) hr ?_ rfl rfl (Nat.le_refl _)
    ⟨_, Nat.le_refl _, .replay fun hc => hp.2 (phaseOf_eq_processing.mp hc)⟩
  intro x hx
  refine ⟨fun hpx => ?_, fun he => ?_⟩
  · rw [Bool.and_eq_true, decide_eq_true_eq] at hpx
    exact hpx.1
  · rw [Table.eq_of_key hx hr he, decide_eq_true rfl, Bool.true_and, decide_eq_true_eq]
    exact hp.2

theorem moves_reinsertDLQ (ds : List DLQRow) :
    Moved q env s (publishedEvents (reinsertDLQChannel q env ds s).1)
      (reinsertDLQChannel q env ds s).2 := by
  let asMessage := fun d : DLQRow => (⟨d.originalMessageID, d.payload, d.metadata⟩ : PublishMessage)
  have hnd : (((dedupeDLQByMessageID ds).map asMessage).map PublishMessage.id).Nodup := by
    rw [map_map]
    exact nodup_firstBy DLQRow.originalMessageID ds
  have h := @moves_insertAll q env s ((dedupeDLQByMessageID ds).map asMessage)
    (reinsertDLQChannel q env ds s).2 (by rw [map_map]; rfl)
    (fun d hd => (mem_filter.mp hd).1) (Nat.le_refl _) hnd
  rwa [filter_map, map_map] at h

theorem moves_replayDLQ {limit : Nat} {dryRun : Bool} :
    Moved q env s
      (if dryRun then [] else
        publishedEvents (replayDLQPage q env afterID limit performedBy dryRun s).1.reinstated)
      (replayDLQPage q env afterID limit performedBy dryRun s).2 := by
  unfold replayDLQPage
  dsimp only
  have h := @moves_reinsertDLQ q env s (fetchDLQMessages afterID limit s.dlq)
  cases dryRun with
  | true => exact Moves.refl _
  | false =>
    rw [if_neg Bool.false_ne_true, if_neg Bool.false_ne_true]
    split
    · exact h
    · exact moves_writeReplayLog h

theorem moves_purge :
    Moved q env s (wipedEvents (s.msgs.rows.map Row.id)) (executePurge s) := by
  have hev : wipedEvents (s.msgs.rows.map Row.id) =
      s.msgs.rows.map fun r => (r.id, Event.wiped) := by
    rw [wipedEvents, map_map]
    rfl
  rw [hev]
  refine Moves.of_wipe (t := s.msgs) rfl rfl ?_ (Nat.le_refl _)
  rintro k a ⟨d, hd, -⟩
  cases hd

/-! ## transactions and runs -/

theorem step_moves (op : Op) :
    Moved q env s (step q env s op).2 (step q env s op).1 := by
  cases op with
  | publish m => exact moves_commit' fun s' h => moves_publish h
  | publishBatch ms => exact moves_commit' fun s' h => moves_publishBatch h
  | receive vis =>
    exact moves_commit fun m s' h => moves_fetch (fetched_of_consume h)
  | ack r =>
    refine moves_commit' fun s' h => ?_
    by_cases hl : liveClaim s r.messageID = some r.claimID
    · rw [ackChannel_hit hl] at h
      cases h
      exact moves_ack hl
    · rw [ackChannel_miss hl] at h
      cases h
  | nack r reason delay =>
    refine moves_commit' fun s' h => ?_
    by_cases hl : liveClaim s r.messageID = some r.claimID
    · obtain ⟨row, hr, hu⟩ := liveClaim_eq_some.mp hl
      rw [nackChannelImpl_hit hr hu] at h
      cases h
      exact moves_nack hr hu
    · rw [nackChannelImpl_miss hl] at h
      cases h
  | extend r d =>
    refine moves_commit' fun s' h => ?_
    have hd := (extendChannelVisibility_ok h).1
    by_cases hl : liveClaim s r.messageID = some r.claimID
    · rw [extendChannelVisibility_hit hd hl] at h
      cases h
      exact moves_extend (pos_of_validateVisibilityTimeout hd) hl
    · rw [extendChannelVisibility_miss hd hl] at h
      cases h
  | ackBatch rs k =>
    refine moves_commit fun res s' h => ?_
    rw [ackChannelBatch_eq (ackChannelBatch_ok h).1] at h
    cases h
    exact moves_ackAll (nodup_receiptGroup rs k)
  | nackBatch rs k reason delay =>
    refine moves_commit fun res s' h => ?_
    rw [nackChannelBatch_eq (nackChannelBatch_ok h).1] at h
    cases h
    exact moves_nackAll (nodup_receiptGroup rs k)
  | promotePage => exact moves_promotePage
  | resetPage => exact moves_resetPage
  | purgeCompleted ttl => exact moves_purgeCompleted
  | purgeOldPending maxAge => exact moves_purgeOldPending
  | purgeDLQ retention => exact moves_purgeDLQ
  | replayFrom since afterID limit performedBy => exact moves_replayFrom
  | replayMessage id performedBy => exact moves_commit' fun s' h => moves_replayMessage h
  | replayDLQ afterID limit performedBy dryRun => exact moves_replayDLQ
  | purgeQueue | deleteChannel => exact moves_purge

theorem step_minted (op : Op) : (minted (step q env s op).2).length ≤ 1 := by
  cases op with
  | receive vis => exact minted_commit (minted_delivered _ _)
  | ackBatch | nackBatch => exact minted_commit fun res => by simp
  | publish | publishBatch | ack | nack | replayMessage => exact minted_commit' (by simp)
  | extend r d => exact minted_commit' (Nat.zero_le _)
  | replayFrom | purgeQueue | deleteChannel => simp [step]
  | replayDLQ afterID limit performedBy dryRun => cases dryRun <;> simp [step]
  | _ => exact Nat.zero_le _

/-- **every transaction of a channel is a transaction of leases** -/
theorem step_txn (op : Op) :
    Txn q.gen.draw q.resolveMaxRetries env.now (lease q s) (step q env s op).2
      (lease q (step q env s op).1) :=
  ⟨step_moves op, step_minted op⟩

/-- **every run of a channel is a run of leases** -/
theorem Reach.run {h : History UUID} {t : Time} (hr : Reach q s h t) :
    Run q.gen.draw q.resolveMaxRetries (lease q s) h t := by
  induction hr with
  | init t =>
    refine Run.init _ t (fun _ => rfl) ?_
    rintro k a ⟨d, hd, -⟩
    cases hd
  | next hr env op ht ih => exact Run.next ih ht (step_txn op)

end
end PgQueue.Channel
