import PgQueue.Channel.Refine

/-!
# The channel: no message is lost or duplicated

`contents s` lists what a channel holds: id, payload and metadata of every row of the message
table and of every dead letter (under its original id).  `Preserved` says that a transaction
permutes the contents; it is shown for every statement that moves or rewrites rows, and
`step_preserved` collects them: **every transaction but a publish, a purge and a deletion keeps
the contents**.  A publish only adds to them, a purge only removes (`step_relates`).

A replay of dead letters deletes them by their own ids, so it needs that these are distinct;
`Preserved.ids` carries that along, and `Reach.ids` has it in every state of a channel.
-/

namespace PgQueue.Channel
open Relational Lease List

def Row.content (r : Row) : UUID × Bytes × Option Bytes := (r.id, r.payload, r.metadata)

def contents (s : State) : List (UUID × Bytes × Option Bytes) :=
  s.msgs.rows.map Row.content ++ s.dlq.map DLQRow.content

/-- the ids of the dead letters are distinct values of the generator -/
def Ids (q : Queue) (s : State) : Prop := Drawn q.gen s.seq (s.dlq.map DLQRow.id)

structure Preserved (q : Queue) (s s' : State) : Prop where
  contents : (contents s').Perm (contents s)
  ids : Ids q s → Ids q s'

section
variable {q : Queue} {env : Env} {s s' : State} {r : Row} {reason : Bytes} {f : Row → Row}
  {p : Row → Bool} {vis : Duration} {performedBy : Option String}

theorem Preserved.refl (s : State) : Preserved q s s := ⟨Perm.refl _, id⟩

theorem Preserved.trans {s'' : State} (h : Preserved q s s') (h' : Preserved q s' s'') :
    Preserved q s s'' := ⟨h'.contents.trans h.contents, fun hi => h'.ids (h.ids hi)⟩

/-! ## statements -/

theorem map_content_update {hf : ∀ r, (f r).id = r.id} (hc : ∀ r, (f r).content = r.content) :
    (s.msgs.update p f hf).rows.map Row.content = s.msgs.rows.map Row.content := by
  rw [Table.rows_update, map_map]
  apply map_congr_left
  intro r hr
  show (if p r then f r else r).content = r.content
  split
  · exact hc r
  · rfl

theorem preserved_update (hf : ∀ r, (f r).id = r.id) (hc : ∀ r, (f r).content = r.content)
    (hs' : s'.msgs = s.msgs.update p f hf) (hd : s'.dlq = s.dlq) (hn : s.seq ≤ s'.seq) :
    Preserved q s s' := by
  refine ⟨?_, fun hi => ?_⟩
  · unfold Channel.contents
    rw [hs', hd, map_content_update hc]
  · unfold Ids
    rw [hd]
    exact Drawn.sublist hi (Sublist.refl _) hn

theorem map_content_dlqRows {seq : Nat} (rows : List Row) :
    (dlqRows q.gen seq env.now none reason (rows.map fun e =>
      (⟨e.id, e.payload, e.retryCount + 1, e.metadata⟩ : DLQMessage))).map DLQRow.content =
      rows.map Row.content := by
  induction rows generalizing seq with
  | nil => rfl
  | cons r rows ih => exact congrArg (r.content :: ·) ih

theorem preserved_bury (rows : List Row) (hsub : ∀ x ∈ rows, x ∈ s.msgs.rows) (hnd : rows.Nodup)
    (hs' : s'.msgs.rows.map Row.content =
      (s.msgs.rows.filter fun x => !rows.any fun y => decide (y.id = x.id)).map Row.content)
    (hd : s'.dlq = s.dlq ++ dlqRows q.gen s.seq env.now none reason (rows.map fun e =>
      (⟨e.id, e.payload, e.retryCount + 1, e.metadata⟩ : DLQMessage)))
    (hn : s.seq + rows.length ≤ s'.seq) : Preserved q s s' := by
  refine ⟨?_, fun hi => ?_⟩
  · unfold Channel.contents
    rw [hs', hd, map_append, map_content_dlqRows]
    have hp := (perm_extract s.msgs.nodup hsub hnd).map Row.content
    rw [map_append] at hp
    rw [← append_assoc]
    refine perm_append_comm.trans ?_
    rw [← append_assoc]
    exact hp.symm.append_right _
  · unfold Ids
    rw [hd]
    exact Drawn.dlqRows hi (by rw [length_map]; exact hn)

theorem preserved_batchMoveToDLQ (rows : List Row) (hsub : ∀ x ∈ rows, x ∈ s.msgs.rows)
    (hnd : rows.Nodup) :
    Preserved q s (batchMoveToDLQ q env
      (rows.map fun e => ⟨e.id, e.payload, e.retryCount + 1, e.metadata⟩) reason s) := by
  refine preserved_bury rows hsub hnd ?_ rfl (by rw [← length_map]; exact Nat.le_refl _)
  show (s.msgs.rows.filter _).map _ = _
  simp only [any_map, Function.comp_def]

theorem preserved_moveToDLQ (hr : r ∈ s.msgs.rows) :
    Preserved q s (moveToDLQ q env r.id reason r.payload (r.retryCount + 1) r.metadata s) :=
  preserved_batchMoveToDLQ [r] (fun _ hx => mem_singleton.mp hx ▸ hr)
    (nodup_singleton r)

/-! ## consume and acknowledge -/

theorem preserved_claim {n : Nat} : Preserved q s (claimChannelMessage q env vis r n s).2 :=
  preserved_update (Row.id_claim _ _ _ _) (fun _ => rfl) rfl rfl (Nat.le_succ _)

theorem preserved_fetch {m : Option Message} (h : Fetched q env vis s m s') : Preserved q s s' := by
  induction h with
  | nothing => exact Preserved.refl _
  | pending | reclaimed => exact preserved_claim
  | buried hr _ _ _ ih => exact (preserved_moveToDLQ hr).trans ih
  | deferred _ _ _ _ ih =>
    refine Preserved.trans ?_ ih
    exact preserved_update (Row.id_defer _ _ _) (fun _ => rfl) rfl rfl (Nat.le_refl _)

theorem preserved_underClaim (hf : ∀ r, (f r).id = r.id) (hc : ∀ r, (f r).content = r.content)
    {x : Receipt} : Preserved q s (updateUnderClaim f hf x s).2 :=
  preserved_update hf hc rfl rfl (Nat.le_refl _)

theorem preserved_nack {x : Receipt} {msg : Bytes} {delay : Duration} (hr : r ∈ s.msgs.rows)
    (hu : r.underClaim x.messageID x.claimID = true) :
    Preserved q s (handleNack q env x.messageID msg r delay s) := by
  unfold handleNack
  rw [← (underClaim_eq.mp hu).1]
  split
  · exact preserved_moveToDLQ hr
  · exact preserved_update (Row.id_retry _ _ _) (fun _ => rfl) rfl rfl (Nat.le_refl _)

section
variable {rs : List Receipt} (hn : (rs.map fun r => (r.messageID, r.claimID)).Nodup)
include hn

theorem matching_sublist (row : Row) : ((matching rs row).map fun _ => row).Sublist [row] := by
  have hn' : (rs.map fun x => (x.messageID, some x.claimID)).Nodup := by
    refine Nodup.of_map (fun p => (p.1, p.2.getD UUID.nil)) ?_
    rwa [map_map]
  refine map_filter_sublist_singleton (k := (row.id, row.claimID)) hn' (fun x _ hu => ?_) row
  obtain ⟨hid, hc, -⟩ := underClaim_eq.mp hu
  rw [hid, hc]

theorem flatMap_matching_sublist (rows : List Row) :
    (rows.flatMap fun row => (matching rs row).map fun _ => row).Sublist rows := by
  induction rows with
  | nil => exact Sublist.slnil
  | cons row rows ih =>
    rw [flatMap_cons]
    exact (matching_sublist hn row).append ih

theorem nodup_fetchBatchMessageStates : (fetchBatchMessageStates rs s).Nodup :=
  (flatMap_matching_sublist hn _).nodup
    (Nodup.of_map Row.id (Table.nodup_select s.msgs _ _))

theorem preserved_nackAll {msg : Bytes} {delay : Duration} :
    Preserved q s (processNackBatch q env (fetchBatchMessageStates rs s) msg delay s) := by
  refine preserved_bury
    ((fetchBatchMessageStates rs s).filter fun r => decide (r.retryCount + 1 > r.cap q))
    (fun x hx => (mem_fetchBatchMessageStates.mp (mem_filter.mp hx).1).1)
    ((nodup_fetchBatchMessageStates hn).filter _) ?_ rfl ?_
  · rw [rows_processNackBatch, ← filterMap_eq_filter, map_filterMap, map_filterMap]
    apply filterMap_congr
    intro row hr
    rw [Option.guard, any_batchStates hr]
    unfold nackRow
    by_cases hh : hit rs row = true
    · by_cases hc : row.retryCount + 1 > row.cap q
      · simp [hh, hc]
      · simp [hh, hc, Row.content, Row.retry]
    · simp [hh]
  · show _ ≤ s.seq + (List.map _ _).length
    rw [length_map]

end

/-! ## garbage collection and replay -/

theorem preserved_promotePage : Preserved q s (promoteExhaustedChannelPage q env s).2 := by
  unfold promoteExhaustedChannelPage
  dsimp only
  rw [foldl_moveToDLQ]
  refine preserved_batchMoveToDLQ _ ?_ ?_
  · exact fun x hx => (Table.mem_select.mp (mem_of_mem_take hx)).1
  · exact (take_sublist _ _).nodup (Nodup.of_map Row.id (Table.nodup_select s.msgs _ _))

theorem Preserved.writeReplayLog {op : ReplayOperation} {n : Nat} (h : Preserved q s s') :
    Preserved q s (writeReplayLog q env op n performedBy s') := by
  refine h.trans ⟨Perm.refl _, fun hi => ?_⟩
  exact Drawn.sublist hi (Sublist.refl _) (Nat.le_succ _)

theorem preserved_reinsertDLQ {ds : List DLQRow} (hds : ∀ d ∈ ds, d ∈ s.dlq)
    (hi : Ids q s) : Preserved q s (reinsertDLQChannel q env ds s).2 := by
  have hnd : ((dedupeDLQByMessageID ds).map DLQRow.originalMessageID).Nodup :=
    nodup_firstBy DLQRow.originalMessageID ds
  have hkeys : (((dedupeDLQByMessageID ds).map (replayedRow q env)).map Row.id).Nodup := by
    rw [map_map]
    exact hnd
  have hsub : ∀ d ∈ (dedupeDLQByMessageID ds).filter
      (fun d => (s.msgs.find? d.originalMessageID).isNone), d ∈ s.dlq := fun d hd =>
    hds d (mem_of_mem_firstBy (mem_filter.mp hd).1)
  have hdlq := perm_extract hi.nodup hsub ((Nodup.of_map _ hnd).filter _)
  refine ⟨?_, fun _ => Drawn.sublist hi (filter_sublist.map _) (Nat.le_refl _)⟩
  have hrows : (reinsertDLQChannel q env ds s).2.msgs.rows.map Row.content =
      s.msgs.rows.map Row.content ++ ((dedupeDLQByMessageID ds).filter
        fun d => (s.msgs.find? d.originalMessageID).isNone).map DLQRow.content := by
    show (s.msgs.insertAll _).rows.map Row.content = _
    rw [Table.rows_insertAll hkeys, map_append, filter_map, map_map]
    rfl
  unfold Channel.contents
  rw [hrows, append_assoc]
  refine Perm.append_left _ ?_
  have hp := (hdlq.map DLQRow.content).symm
  rwa [map_append] at hp

theorem preserved_replayDLQ {afterID : UUID} {limit : Nat} {dryRun : Bool} (hi : Ids q s) :
    Preserved q s (replayDLQPage q env afterID limit performedBy dryRun s).2 := by
  have h : Preserved q s (reinsertDLQChannel q env (fetchDLQMessages afterID limit s.dlq) s).2 :=
    preserved_reinsertDLQ (fun d hd => mem_fetchDLQMessages hd) hi
  unfold replayDLQPage
  dsimp only
  split
  · exact Preserved.refl s
  · split
    · exact h
    · exact h.writeReplayLog

/-! ## transactions -/

def Op.effect : Op → Effect
  | .publish _ | .publishBatch _ => .adds
  | .purgeCompleted _ | .purgeOldPending _ | .purgeDLQ _ => .removes
  | .purgeQueue | .deleteChannel => .removes
  | _ => .keeps

/-- **every transaction but a publish, a purge and a deletion keeps the contents** -/
theorem step_preserved (op : Op) (hop : op.effect = .keeps) (hi : Ids q s) :
    Preserved q s (step q env s op).1 := by
  let P := fun x : State × History UUID => Preserved q s x.1
  have h0 : P (s, []) := Preserved.refl s
  cases op with
  | receive vis =>
    exact commit_cases P h0 fun m s' h => preserved_fetch (fetched_of_consume h)
  | ack r =>
    refine commit'_cases P h0 fun s' h => ?_
    obtain rfl := ackChannel_ok h
    exact preserved_underClaim (Row.id_complete _) fun _ => rfl
  | nack r reason delay =>
    refine commit'_cases P h0 fun s' h => ?_
    by_cases hl : liveClaim s r.messageID = some r.claimID
    · obtain ⟨row, hr, hu⟩ := liveClaim_eq_some.mp hl
      rw [nackChannelImpl_hit hr hu] at h
      cases h
      exact preserved_nack hr hu
    · rw [nackChannelImpl_miss hl] at h
      cases h
  | extend r d =>
    refine commit'_cases P h0 fun s' h => ?_
    obtain ⟨-, rfl⟩ := extendChannelVisibility_ok h
    exact preserved_underClaim (Row.id_extend _ _) fun _ => rfl
  | ackBatch rs k =>
    refine commit_cases P h0 fun res s' h => ?_
    obtain ⟨-, rfl⟩ := ackChannelBatch_ok h
    exact preserved_update (Row.id_complete _) (fun _ => rfl) rfl rfl (Nat.le_refl _)
  | nackBatch rs k reason delay =>
    refine commit_cases P h0 fun res s' h => ?_
    obtain ⟨-, rfl⟩ := nackChannelBatch_ok h
    exact preserved_nackAll (nodup_receiptGroup rs k)
  | promotePage => exact preserved_promotePage
  | resetPage => exact preserved_update Row.id_reset (fun _ => rfl) rfl rfl (Nat.le_refl _)
  | replayFrom since afterID limit performedBy =>
    have h : Preserved q s (applyReplayFrom (fetchReplayCandidateIDs since afterID limit s) s).2 :=
      preserved_update Row.id_replay (fun _ => rfl) rfl rfl (Nat.le_refl _)
    show Preserved q s (replayFromPage q env since afterID limit performedBy s).2
    unfold replayFromPage
    dsimp only
    split
    · exact h
    · exact h.writeReplayLog
  | replayMessage id performedBy =>
    refine commit'_cases P h0 fun s' h => ?_
    obtain ⟨-, rfl⟩ := executeReplayMessage_ok h
    refine Preserved.writeReplayLog ?_
    exact preserved_update (Row.id_replayNow _) (fun _ => rfl) rfl rfl (Nat.le_refl _)
  | replayDLQ afterID limit performedBy dryRun => exact preserved_replayDLQ hi
  | publish | publishBatch | purgeCompleted | purgeOldPending | purgeDLQ | purgeQueue
  | deleteChannel => cases hop

theorem adds_msgs (hm : s.msgs.rows.Sublist s'.msgs.rows) (hd : s'.dlq = s.dlq) :
    (contents s).Subperm (contents s') := by
  unfold contents
  rw [hd]
  exact ((hm.map Row.content).append_right _).subperm

theorem step_adds (op : Op) (hop : op.effect = .adds) :
    (contents s).Subperm (contents (step q env s op).1) ∧
      (step q env s op).1.dlq = s.dlq ∧ (step q env s op).1.seq = s.seq := by
  let P := fun x : State × History UUID =>
    (contents s).Subperm (contents x.1) ∧ x.1.dlq = s.dlq ∧ x.1.seq = s.seq
  have h0 : P (s, []) := ⟨Subperm.refl _, rfl, rfl⟩
  cases op with
  | publish m =>
    refine commit'_cases P h0 fun s' h => ?_
    obtain ⟨-, rfl⟩ := publishToChannel_ok h
    exact ⟨adds_msgs (s.msgs.sublist_insertAll [newRow env q.resolveMaxRetries m]) rfl, rfl, rfl⟩
  | publishBatch ms =>
    refine commit'_cases P h0 fun s' h => ?_
    obtain ⟨-, rfl⟩ := publishBatchToChannel_ok h
    exact ⟨adds_msgs (s.msgs.sublist_insertAll _) rfl, rfl, rfl⟩
  | _ => cases hop

theorem removes_rows (hm : s'.msgs.rows.Sublist s.msgs.rows) (hd : s'.dlq.Sublist s.dlq) :
    (contents s').Subperm (contents s) :=
  ((hm.map Row.content).append (hd.map DLQRow.content)).subperm

theorem step_removes (op : Op) (hop : op.effect = .removes) :
    (step q env s op).1.msgs.rows.Sublist s.msgs.rows ∧
      (step q env s op).1.dlq.Sublist s.dlq ∧ (step q env s op).1.seq = s.seq := by
  cases op with
  | purgeCompleted ttl =>
    unfold step purgeCompletedPage
    dsimp only
    split
    · exact ⟨filter_sublist, Sublist.refl _, rfl⟩
    · exact ⟨Sublist.refl _, Sublist.refl _, rfl⟩
  | purgeOldPending maxAge =>
    unfold step purgeOldPendingPage
    dsimp only
    split
    · exact ⟨filter_sublist, Sublist.refl _, rfl⟩
    · exact ⟨Sublist.refl _, Sublist.refl _, rfl⟩
  | purgeDLQ retention =>
    exact ⟨Sublist.refl _, purgeDLQRows_sublist env retention s.dlq, rfl⟩
  | purgeQueue | deleteChannel => exact ⟨nil_sublist _, nil_sublist _, rfl⟩
  | _ => cases hop

theorem step_ids (op : Op) (hi : Ids q s) : Ids q (step q env s op).1 := by
  cases hop : op.effect with
  | keeps => exact (step_preserved op hop hi).ids hi
  | adds =>
    obtain ⟨-, hd, hn⟩ := step_adds (q := q) (s := s) op hop
    unfold Ids
    rw [hd, hn]
    exact hi
  | removes =>
    obtain ⟨-, hd, hn⟩ := step_removes (q := q) (s := s) op hop
    exact Drawn.sublist hi (hd.map _) (Nat.le_of_eq hn.symm)

theorem Reach.ids {h : History UUID} {t : Time} (hr : Reach q s h t) : Ids q s := by
  induction hr with
  | init t => exact ⟨nodup_nil, nofun⟩
  | next hr env op ht ih => exact step_ids op ih

theorem step_relates (op : Op) (hi : Ids q s) :
    op.effect.Relates (contents s) (contents (step q env s op).1) := by
  cases hop : op.effect with
  | keeps => exact (step_preserved op hop hi).contents
  | adds => exact (step_adds op hop).1
  | removes => exact removes_rows (step_removes op hop).1 (step_removes op hop).2.1

end
end PgQueue.Channel
