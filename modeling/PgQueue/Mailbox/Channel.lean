import PgQueue.Collect.Channel
import PgQueue.Mailbox.Door
import PgQueue.Relational.View

/-!
# A channel is a mailbox

The mailbox of a channel has an item for every row, in the order of the rows.  `Numbered` is what a
channel that was only ever used through its door keeps: its claims were handed out by deliveries,
and its rows have the retry cap of the queue.

* `door`          the transactions of a channel;
* `mail`          what the mailbox sees of the tables;
* `door_refines`  every transaction does what the mailbox does.
-/

namespace PgQueue.Channel
open Relational Lease Mailbox List

/-- a row is timed out once, so the rows bound the pages -/
def collect (q : Queue) (env : Env) (s : State) : State :=
  ((Collect.reclaimTimedOut q env (s.msgs.rows.length + 1) s).map Prod.snd).getD s

def door (q : Queue) : Door State where
  publish env m := publishToChannel q env m
  publishBatch env ms := publishBatchToChannel q env ms
  receive env vis := consumeFromChannel q env vis
  ack env r := ackChannel env r
  nack env r reason delay := nackChannelImpl q env r reason delay
  extend env r d := extendChannelVisibility env r d
  collect := collect q
  receipt id claim := ⟨id, claim, q.name, some .channel, ""⟩
  dlq := State.dlq

theorem collect_door (q : Queue) : (door q).collect = collect q := rfl

def Row.item (claims : List UUID) (r : Row) : Item :=
  ⟨r.id, r.payload, r.createdAt, r.metadata, phaseOf r.status, r.retryCount, r.visibilityTimeout,
    r.availableAt, r.errorMessage, number claims r.claimID⟩

def mail (claims : List UUID) (s : State) : Mailbox.State :=
  ⟨s.msgs.rows.map (Row.item claims), (s.dlq.map DLQRow.anonymous : List DLQRow), claims.length⟩

structure Row.Numbered (q : Queue) (claims : List UUID) (r : Row) : Prop where
  issued : ∀ c ∈ r.claimID, c ∈ claims
  cap : r.cap q = q.resolveMaxRetries
  unprocessed : r.status ≠ .completed → r.processedAt = none

structure Numbered (q : Queue) (claims : List UUID) (s : State) : Prop where
  drawn : Drawn q.gen s.seq claims
  rows : ∀ r ∈ s.msgs.rows, r.Numbered q claims

section
variable {q : Queue} {env : Env} {s : State} {r : Row} {claims : List UUID} {id : UUID} {n : Nat}
  {new : List UUID} {f : Row → Row} {hf : ∀ r, (f r).id = r.id} {reason : Bytes} {vis delay : Duration}

/-! ## rows and items -/

theorem held_item (hd : Drawn q.gen s.seq claims) (hr : r.Numbered q claims) :
    r.underClaim id (claimOf claims n) = (r.item claims).held id n := by
  have hclaim := number_eq_some_iff (n := n) hd.nodup (nil_notMem_of_drawn hd) hr.issued
  unfold Row.underClaim Item.held
  rw [decide_eq_decide.mpr hclaim.symm, decide_processing]
  rfl

theorem timedOut_item {now : Time} : r.timedOut now = (r.item claims).timedOut now := by
  unfold Row.timedOut Item.timedOut
  rw [decide_processing]
  rfl

theorem item_append (hr : r.Numbered q claims) : r.item (claims ++ new) = r.item claims := by
  unfold Row.item
  rw [number_append hr.issued]

theorem find_item : (mail claims s).items.find? (fun x => decide (x.id = id)) =
    (s.msgs.find? id).map (Row.item claims) := find_view fun _ _ => rfl

theorem Row.Numbered.mono (hr : r.Numbered q claims) : r.Numbered q (claims ++ new) :=
  ⟨fun c hc => mem_append_left _ (hr.issued c hc), hr.cap, hr.unprocessed⟩

/-! ## what the statements do to the mailbox -/

theorem mail_edit {f' : Item → Item}
    (h : ∀ r ∈ s.msgs.rows, r.id = id → (f r).item claims = f' (r.item claims)) :
    mail claims { s with msgs := s.msgs.update (fun r => decide (r.id = id)) f hf } =
      (mail claims s).edit id f' := by
  refine State.ext ?_ rfl rfl
  exact map_view_update (fun _ _ => rfl) (fun r hr hp => h r hr (of_decide_eq_true hp))
    fun _ _ => rfl

theorem mail_moveToDLQ :
    mail claims (moveToDLQ q env r.id reason r.payload (r.retryCount + 1) r.metadata s) =
      (mail claims s).bury env.now reason (r.item claims) := by
  refine State.ext ?_ ?_ rfl
  · exact map_view_delete fun x _ => Bool.or_false _
  · show ((s.dlq ++ _ : List DLQRow).map DLQRow.anonymous : Multiset DLQRow) = _
    rw [map_append, anonymous_dlqRows, ← Multiset.coe_add]
    rfl

theorem Numbered.moveToDLQ {payload : Bytes} {retryCount : Nat} {metadata : Option Bytes}
    (h : Numbered q claims s) :
    Numbered q claims (moveToDLQ q env id reason payload retryCount metadata s) :=
  ⟨h.drawn.sublist (Sublist.refl _) (Nat.le_add_right _ _), Table.forall_delete h.rows⟩

theorem Numbered.update {p : Row → Bool} (h : Numbered q claims s)
    (hrow : ∀ r ∈ s.msgs.rows, p r = true → r.Numbered q claims → (f r).Numbered q claims) :
    Numbered q claims { s with msgs := s.msgs.update p f hf } :=
  ⟨h.drawn, Table.forall_update h.rows fun r hr hp => hrow r hr hp (h.rows r hr)⟩

theorem Row.Numbered.released {r' : Row} (hr : r.Numbered q claims) (hst : r.status ≠ .completed)
    (hclaim : r'.claimID = none) (hmax : r'.maxRetries = r.maxRetries)
    (hdone : r'.processedAt = r.processedAt) : r'.Numbered q claims := by
  refine ⟨fun c hc => ?_, ?_, fun _ => ?_⟩
  · rw [hclaim] at hc
    cases hc
  · exact (congrArg (channelMaxRetries q.defaultMaxRetries) hmax).trans hr.cap
  · exact hdone.trans (hr.unprocessed hst)

/-! ## consume -/

theorem pendingProbe_mail :
    Mailbox.pendingProbe env (mail claims s).items = (pendingProbe env s).map (Row.item claims) := by
  refine head_view_select (fun r _ => ?_) (fun _ _ => Iff.rfl)
  rw [decide_pending]
  rfl

theorem reclaimProbe_mail :
    Mailbox.reclaimProbe env (mail claims s).items = (reclaimProbe env s).map (Row.item claims) := by
  refine head_view_select (fun r _ => ?_) (fun _ _ => Iff.rfl)
  rw [timedOut_item]
  rfl

theorem claim_mail (h : Numbered q claims s) (hr : r ∈ s.msgs.rows) (hst : r.status ≠ .completed) :
    ShowsDelivery mail (Numbered q) claims (.ok (claimChannelMessage q env vis r n s))
      (.ok ((mail claims s).deliver q.resolveMaxRetries env vis (r.item claims) n)) := by
  have hrow := h.rows r hr
  have hitems : (s.msgs.rows.map fun x => if decide (x.id = r.id) then
        x.claim env.now vis (q.gen.draw s.seq) n else x).map (Row.item (claims ++ [q.gen.draw s.seq])) =
      (s.msgs.rows.map (Row.item claims)).map fun x => if decide (x.id = r.id) then
        x.take env.now vis claims.length n else x := by
    refine map_view_update (fun _ _ => rfl) (fun x hx hp => ?_) fun x hx => item_append (h.rows x hx)
    show Item.mk _ _ _ _ _ _ _ _ _ (number (claims ++ [q.gen.draw s.seq]) _) = _
    rw [Row.claim, number_new (draw_notMem_of_drawn h.drawn)]
    rfl
  refine showsDelivery_ok (Prod.ext ?_ (State.ext hitems.symm rfl ?_)) ⟨drawn_concat h.drawn, ?_⟩
  · unfold claimChannelMessage
    dsimp only [Option.map_some]
    unfold Message.delivered
    rw [hrow.cap, hrow.unprocessed hst]
    rfl
  · show claims.length + 1 = (claims ++ [q.gen.draw s.seq]).length
    rw [length_append, length_singleton]
  · refine Table.forall_update (fun x hx => (h.rows x hx).mono) fun x hx hp => ?_
    have he : x = r := Table.eq_of_key hx hr (of_decide_eq_true hp)
    refine ⟨fun c hc => ?_, (h.rows x hx).cap, fun _ => ?_⟩
    · cases hc
      exact mem_append_right _ mem_cons_self
    · rw [he]
      exact hrow.unprocessed hst

theorem defer_mail (hr : r ∈ s.msgs.rows) :
    mail claims (deferReclaimedChannelMessage env r.id (r.retryCount + 1) delay s) =
      (mail claims s).edit (r.item claims).id (Item.defer env.now delay) := by
  refine mail_edit fun x hx he => ?_
  rw [Table.eq_of_key hx hr he]
  rfl

theorem Numbered.defer (h : Numbered q claims s) (hr : r ∈ s.msgs.rows) (hst : r.status ≠ .completed) :
    Numbered q claims (deferReclaimedChannelMessage env r.id n delay s) := by
  refine h.update fun x hx hp hn => ?_
  rw [Table.eq_of_key hx hr (of_decide_eq_true hp)]
  exact (h.rows r hr).released hst rfl rfl rfl

/-- **the loop of a receive** -/
theorem fetch_mail (skips : Nat) (h : Numbered q claims s) :
    ShowsDelivery mail (Numbered q) claims (fetchPendingChannelMessage q env vis skips s)
      (.ok ((mail claims s).fetch q.resolveMaxRetries env vis skips)) := by
  induction skips generalizing s with
  | zero => exact showsDelivery_none h
  | succ skips ih =>
    rw [fetchPendingChannelMessage, State.fetch, pendingProbe_mail]
    cases hp : pendingProbe env s with
    | some r =>
      obtain ⟨hr, hst, -⟩ := pendingProbe_spec hp
      exact claim_mail h hr (hst ▸ MessageStatus.pending_ne_completed)
    | none =>
      dsimp only [Option.map_none]
      rw [reclaimProbe_mail]
      cases hp : reclaimProbe env s with
      | none => exact showsDelivery_none h
      | some r =>
        obtain ⟨hr, ht⟩ := reclaimProbe_spec hp
        have hst := status_of_timedOut ht
        have hne : r.status ≠ .completed := hst ▸ MessageStatus.processing_ne_completed
        dsimp only [Option.map_some]
        unfold reclaimChannelAttempt
        rw [hst, (h.rows r hr).cap]
        dsimp only
        -- buried, deferred or delivered again, as the source decides
        by_cases hmax : r.retryCount + 1 > q.resolveMaxRetries
        · have hmax' : (r.item claims).retryCount + 1 > q.resolveMaxRetries := hmax
          rw [if_pos hmax, if_pos hmax', ← mail_moveToDLQ]
          exact ih h.moveToDLQ
        · have hmax' : ¬ (r.item claims).retryCount + 1 > q.resolveMaxRetries := hmax
          rw [if_neg hmax, if_neg hmax']
          cases env.backoffConfigured with
          | true =>
            rw [if_pos rfl, if_pos rfl]
            rw [← defer_mail hr]
            exact ih (h.defer hr hne)
          | false => exact claim_mail h hr hne

theorem receive_mail (vis : Duration) (h : Numbered q claims s) :
    ShowsDelivery mail (Numbered q) claims (consumeFromChannel q env vis s)
      ((mail claims s).receive q.resolveMaxRetries env vis) := by
  unfold consumeFromChannel State.receive
  cases validateVisibilityTimeout vis with
  | error e => rfl
  | ok _ =>
    cases env.paused with
    | true => rfl
    | false => exact fetch_mail _ h

/-! ## receipts -/

section
variable {x : Receipt}

theorem miss_mail (h : Numbered q claims s) (hx : x.claimID = claimOf claims n) :
    classifyChannelAckMiss x s = (mail claims s).refusal x.messageID n := by
  unfold classifyChannelAckMiss
  rw [hx]
  exact classify_eq_refusal h.drawn rfl find_item
    fun r hr => ⟨rfl, rfl, (h.rows r (Table.mem_of_find? hr)).issued⟩

theorem underClaim_mail {f : Row → Row} {hf : ∀ r, (f r).id = r.id} {f' : Item → Item}
    (h : Numbered q claims s) (hx : x.claimID = claimOf claims n)
    (hitem : ∀ r ∈ s.msgs.rows, (f r).item claims = f' (r.item claims))
    (hrow : ∀ r ∈ s.msgs.rows, r.Numbered q claims → (f r).Numbered q claims) :
    Shows mail (Numbered q) claims
      (if (updateUnderClaim f hf x s).1 then .ok (updateUnderClaim f hf x s).2
        else .error (classifyChannelAckMiss x (updateUnderClaim f hf x s).2))
      ((mail claims s).rewrite x.messageID n f') := by
  have hheld : ∀ r ∈ s.msgs.rows,
      r.underClaim x.messageID x.claimID = (r.item claims).held x.messageID n :=
    fun r hr => hx ▸ held_item h.drawn (h.rows r hr)
  have hany : (mail claims s).items.any (Item.held x.messageID n) = (updateUnderClaim f hf x s).1 :=
    any_view hheld
  unfold State.rewrite
  rw [hany]
  cases hm : (updateUnderClaim f hf x s).1 with
  | true =>
    rw [if_pos rfl, if_pos rfl]
    exact ⟨State.ext (map_view_update hheld (fun r hr _ => hitem r hr) fun _ _ => rfl) rfl rfl,
      h.update fun r hr _ => hrow r hr⟩
  | false =>
    have hsame : (updateUnderClaim f hf x s).2 = s := by
      unfold updateUnderClaim
      rw [Table.update_of_not fun r hr => Bool.eq_false_iff.mpr (any_eq_false.mp hm r hr)]
    rw [if_neg Bool.false_ne_true, if_neg Bool.false_ne_true, hsame]
    exact miss_mail h hx

theorem ack_mail (h : Numbered q claims s) (hx : x.claimID = claimOf claims n) :
    Shows mail (Numbered q) claims (ackChannel env x s) ((mail claims s).ack x.messageID n) :=
  underClaim_mail h hx (fun _ _ => rfl)
    fun _ _ hr => ⟨hr.issued, hr.cap, fun hne => absurd rfl hne⟩

theorem extend_mail (d : Duration) (h : Numbered q claims s) (hx : x.claimID = claimOf claims n) :
    Shows mail (Numbered q) claims (extendChannelVisibility env x d s)
      ((mail claims s).extend env.now x.messageID n d) := by
  unfold extendChannelVisibility State.extend
  cases validateVisibilityTimeout d with
  | error e => rfl
  | ok _ =>
    exact underClaim_mail h hx (fun _ _ => rfl) fun r _ hr => ⟨hr.issued, hr.cap, hr.unprocessed⟩

theorem nack_mail (reason : Bytes) (delay : Duration) (h : Numbered q claims s)
    (hx : x.claimID = claimOf claims n) :
    Shows mail (Numbered q) claims (nackChannelImpl q env x reason delay s)
      ((mail claims s).nack q.resolveMaxRetries env x.messageID n reason delay) := by
  have hfind : (mail claims s).items.find? (Item.held x.messageID n) =
      (s.msgs.rows.find? fun r => r.underClaim x.messageID x.claimID).map (Row.item claims) :=
    find_view fun r hr => hx ▸ held_item h.drawn (h.rows r hr)
  unfold nackChannelImpl getProcessingMessageState State.nack
  rw [hfind]
  cases hf : s.msgs.rows.find? fun r => r.underClaim x.messageID x.claimID with
  | none => exact miss_mail h hx
  | some r =>
    have hr := mem_of_find?_eq_some hf
    have hu := find?_some hf
    unfold Row.underClaim at hu
    simp only [Bool.and_eq_true, decide_eq_true_eq] at hu
    obtain ⟨⟨hid, -⟩, hst⟩ := hu
    have hne : r.status ≠ .completed := hst ▸ MessageStatus.processing_ne_completed
    dsimp only [Option.map_some]
    unfold handleNack
    rw [(h.rows r hr).cap, ← hid]
    by_cases hmax : r.retryCount + 1 > q.resolveMaxRetries
    · have hmax' : (r.item claims).retryCount + 1 > q.resolveMaxRetries := hmax
      rw [if_pos hmax, if_pos hmax']
      exact ⟨mail_moveToDLQ, h.moveToDLQ⟩
    · have hmax' : ¬ (r.item claims).retryCount + 1 > q.resolveMaxRetries := hmax
      rw [if_neg hmax, if_neg hmax']
      refine ⟨mail_edit fun _ _ _ => rfl, h.update fun y hy hp hn => ?_⟩
      rw [Table.eq_of_key hy hr (of_decide_eq_true hp)]
      exact (h.rows r hr).released hne rfl rfl rfl

end

/-! ## publish -/

theorem admits_iff {ids : List UUID} :
    (mail claims s).Admits ids ↔ ids.Nodup ∧ ∀ id ∈ ids, s.msgs.find? id = none := by
  unfold State.Admits mail
  simp only [forall_mem_map, Table.find?_eq_none]
  refine and_congr_right fun _ => ⟨fun h id hid r hr he => ?_, fun h r hr hid => ?_⟩
  · exact h r hr (show r.id ∈ ids from he ▸ hid)
  · exact h r.id hid r hr rfl

theorem numbered_newRow {m : PublishMessage} :
    (newRow env q.resolveMaxRetries m).Numbered q claims := ⟨nofun, rfl, fun _ => rfl⟩

/-- **an insert of new messages** -/
theorem insert_mail {ms : List PublishMessage} (h : Numbered q claims s)
    (ha : (mail claims s).Admits (ms.map PublishMessage.id)) :
    Shows mail (Numbered q) claims
      (.ok { s with msgs := s.msgs.insertAll (ms.map (newRow env q.resolveMaxRetries)) })
      ((mail claims s).publish env.now ms) := by
  obtain ⟨hn, hnew⟩ := admits_iff.mp ha
  rw [forall_mem_map] at hnew
  unfold State.publish
  rw [if_pos ha]
  refine ⟨State.ext ?_ rfl rfl, h.drawn, Table.forall_insertAll h.rows ?_⟩
  · show (s.msgs.insertAll _).rows.map _ = s.msgs.rows.map _ ++ _
    rw [Table.rows_insertAll_fresh, map_append, map_map]
    · rfl
    · rw [map_map]
      exact hn
    · rw [forall_mem_map]
      exact hnew
  · rw [forall_mem_map]
    exact fun m _ => numbered_newRow

theorem publish_mail (m : PublishMessage) (h : Numbered q claims s) :
    Shows mail (Numbered q) claims (publishToChannel q env m s)
      ((mail claims s).publish env.now [m]) := by
  unfold publishToChannel
  cases hf : s.msgs.find? m.id with
  | some r =>
    refine shows_duplicate fun ha => ?_
    rw [(admits_iff.mp ha).2 m.id mem_cons_self] at hf
    cases hf
  | none =>
    have ha : (mail claims s).Admits ([m].map PublishMessage.id) :=
      admits_iff.mpr ⟨nodup_singleton _, fun id hid => mem_singleton.mp hid ▸ hf⟩
    exact insert_mail h ha

theorem publishBatch_mail (ms : List PublishMessage) (h : Numbered q claims s) :
    Shows mail (Numbered q) claims (publishBatchToChannel q env ms s)
      ((mail claims s).publishBatch env.now ms) := by
  unfold publishBatchToChannel State.publishBatch
  cases validateBatchSize ms.length with
  | error e => rfl
  | ok _ =>
    have hfull : (mail claims s).Admits (ms.map PublishMessage.id) ↔ s.msgs.rows.length + ms.length ≤
        (s.msgs.insertAll (ms.map (newRow env q.resolveMaxRetries))).rows.length := by
      have hiff : s.msgs.rows.length + (ms.map (newRow env q.resolveMaxRetries)).length ≤ _ ↔ _ :=
        Table.length_insertAll_iff
      rw [length_map, map_map, forall_mem_map] at hiff
      rw [admits_iff, forall_mem_map]
      exact hiff.symm
    dsimp only
    split
    · rename_i hlt
      exact shows_duplicate fun ha => absurd (hfull.mp ha) (Nat.not_le.mpr hlt)
    · rename_i hle
      exact insert_mail h (hfull.mpr (Nat.not_lt.mp hle))

/-! ## garbage collection -/

theorem exhausted_item (h : Numbered q claims s) (hr : r ∈ s.msgs.rows) :
    r.exhausted q env = (r.item claims).exhausted q.resolveMaxRetries env.now := by
  unfold Row.exhausted
  rw [timedOut_item, (h.rows r hr).cap]
  rfl

theorem resettable_item (h : Numbered q claims s) (hr : r ∈ s.msgs.rows) :
    r.resettable q env = (r.item claims).resettable q.resolveMaxRetries env.now := by
  unfold Row.resettable
  rw [timedOut_item, (h.rows r hr).cap]
  rfl

theorem promote_mail (env : Env) (h : Numbered q claims s) :
    mail claims ((Collect.promote q env).apply s) =
        (mail claims s).promote q.resolveMaxRetries env.now ∧
      Numbered q claims ((Collect.promote q env).apply s) := by
  have hexhausted : ∀ r ∈ s.msgs.rows, r.exhausted q env =
      (r.item claims).exhausted q.resolveMaxRetries env.now := fun r hr => exhausted_item h hr
  refine ⟨State.ext (map_view_delete hexhausted) ?_ rfl,
    h.drawn.sublist (Sublist.refl _) (Nat.le_add_right _ _), Table.forall_delete h.rows⟩
  show ((s.dlq ++ _ : List DLQRow).map DLQRow.anonymous : Multiset DLQRow) = _ +
    (((s.msgs.rows.map (Row.item claims)).filter _).map _ : List DLQRow)
  rw [filter_view hexhausted, map_append, anonymous_dlqRows, ← Multiset.coe_add, map_map, map_map]
  exact congrArg (_ + ·) (Multiset.coe_eq_coe.mpr ((s.msgs.select_perm _ _).map _))

theorem reset_mail (env : Env) (h : Numbered q claims s) :
    mail claims ((Collect.reset q env).apply s) = (mail claims s).reset q.resolveMaxRetries env.now ∧
      Numbered q claims ((Collect.reset q env).apply s) := by
  refine ⟨State.ext (map_view_update (fun r hr => resettable_item h hr) (fun _ _ _ => rfl)
    fun _ _ => rfl) rfl rfl, h.update fun r hr hp hn => ?_⟩
  have hst := status_of_timedOut (Bool.and_eq_true_iff.mp hp).1
  exact hn.released (hst ▸ MessageStatus.processing_ne_completed) rfl rfl rfl

theorem collect_eq (q : Queue) (env : Env) (s : State) :
    collect q env s = (Collect.reclaims q env).apply s := by
  obtain ⟨_, -, hhandled⟩ := Collect.handled q env s
  have hcount : (Collect.reclaims q env).count s ≤ s.msgs.rows.length := by
    rw [hhandled.count]
    exact length_filter_le _ _
  unfold collect
  rw [Collect.realises_reclaims.within s trivial _ (Nat.lt_succ_of_le hcount)]
  rfl

theorem collect_mail (h : Numbered q claims s) :
    mail claims (collect q env s) = (mail claims s).collect q.resolveMaxRetries env.now ∧
      Numbered q claims (collect q env s) := by
  obtain ⟨hp, hn⟩ := promote_mail env h
  obtain ⟨hr, hn⟩ := reset_mail env hn
  rw [hp] at hr
  rw [collect_eq]
  exact ⟨hr, hn⟩

end

/-- **a channel refines the mailbox** -/
theorem door_refines (q : Queue) : (door q).Refines q.resolveMaxRetries mail (Numbered q) where
  dead := rfl
  publish env m h _ := publish_mail m h
  publishBatch env ms h _ := publishBatch_mail ms h
  receive env vis h := receive_mail vis h
  ack env id n h := ack_mail h rfl
  nack env id n reason delay h := nack_mail reason delay h rfl
  extend env id n d h := extend_mail d h rfl
  collect env h := by
    rw [collect_door]
    exact collect_mail h

theorem numbered_init (q : Queue) : Numbered q [] State.init :=
  ⟨⟨nodup_nil, fun _ h => absurd h not_mem_nil⟩, fun _ h => absurd h not_mem_nil⟩

theorem mail_init : mail [] State.init = ⟨[], 0, 0⟩ := rfl

end PgQueue.Channel
