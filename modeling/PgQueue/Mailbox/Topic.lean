import PgQueue.Collect.Topic
import PgQueue.Mailbox.Door
import PgQueue.Relational.View

/-!
# A topic with one subscriber is a mailbox

The mailbox of a topic has an item for every subscription row, with what the row and its message
say.  `Numbered` is what a topic keeps that was only ever used through the door of its one
subscriber: all rows are the subscriber's, and every message still has its row or is a dead letter.

* `door`          the transactions of a topic and one subscriber;
* `mail`          what the mailbox sees of the tables;
* `door_refines`  every transaction does what the mailbox does.

A publish that reuses the id of a dead letter is the exception: the message is still there.
-/

namespace PgQueue.Topic
open Relational Lease Mailbox List

/-- a row is timed out once, so the rows bound the pages -/
def collect (q : Queue) (env : Env) (s : State) : State :=
  ((Collect.reclaimTimedOut q env (s.subs.rows.length + 1) s).map Prod.snd).getD s

def door (q : Queue) (sub : String) : Door State where
  publish env m := publishToPubSub q env m
  publishBatch env ms := publishBatchToPubSub q env ms
  receive env vis := consumeFromTopic q env sub vis
  ack env r := ackTopic env sub r
  nack env r reason delay := nackTopicImpl q env sub r reason delay
  extend env r d := extendTopicVisibility env sub r d
  collect := collect q
  receipt id claim := ⟨id, claim, q.name, some .pubsub, sub⟩
  dlq := State.dlq

theorem collect_door (q : Queue) (sub : String) : (door q sub).collect = collect q := rfl

def State.joined (s : State) (r : Sub) : Candidate :=
  ⟨r, (s.tables.parentOf r).getD ⟨r.messageID, [], 0, none⟩⟩

def Candidate.item (claims : List UUID) (c : Candidate) : Item :=
  ⟨c.sub.messageID, c.msg.payload, c.msg.createdAt, c.msg.metadata, phaseOf c.sub.status,
    c.sub.retryCount, c.sub.visibilityTimeout, c.sub.availableAt, c.sub.errorMessage,
    number claims c.sub.claimID⟩

def State.item (claims : List UUID) (s : State) (r : Sub) : Item := (s.joined r).item claims

def mail (claims : List UUID) (s : State) : Mailbox.State :=
  ⟨s.subs.rows.map (s.item claims), (s.dlq.map DLQRow.anonymous : List DLQRow), claims.length⟩

structure Sub.Numbered (sub : String) (claims : List UUID) (r : Sub) : Prop where
  owned : r.subscriberID = sub
  issued : ∀ c ∈ r.claimID, c ∈ claims

structure Numbered (q : Queue) (sub : String) (claims : List UUID) (s : State) : Prop where
  drawn : Drawn q.gen s.seq claims
  wf : Wf q s
  rows : ∀ r ∈ s.subs.rows, r.Numbered sub claims
  kept : ∀ m ∈ s.msgs.rows, m.id ∈ s.subs.rows.map Sub.messageID ∨
    m.id ∈ s.dlq.map DLQRow.originalMessageID
  active : ∀ env, getActiveSubscribers env s = .ok [sub]
  valid : validateSubscriberID sub = .ok ()

section
variable {q : Queue} {env : Env} {s s' : State} {r x : Sub} {sub : String} {claims : List UUID}
variable {id : UUID} {n : Nat} {p : Sub → Bool} {f : Sub → Sub} {hf : ∀ r, (f r).key = r.key}
  {reason : Bytes} {vis : Duration}

/-! ## rows, messages and items -/

theorem candidate_joined (hr : r ∈ s.subs.rows) : s.candidate r = some (s.joined r) := by
  obtain ⟨m, hm⟩ := s.tables.exists_parentOf hr
  unfold State.candidate State.joined
  rw [hm]
  rfl

theorem parentIs_joined {p : MessageRow → Bool} (hr : r ∈ s.subs.rows) :
    s.tables.parentIs p r = p (s.joined r).msg := by
  obtain ⟨m, hm⟩ := s.tables.exists_parentOf hr
  show (s.tables.parentOf r).any p = p ((s.tables.parentOf r).getD _)
  rw [hm]
  rfl

theorem filterMap_candidate {l : List Sub} (hl : ∀ r ∈ l, r ∈ s.subs.rows) :
    l.filterMap s.candidate = l.map s.joined := by
  rw [← filterMap_eq_map]
  exact filterMap_congr fun r hr => candidate_joined (hl r hr)

theorem bind_candidate {o : Option Sub} (ho : ∀ r ∈ o, r ∈ s.subs.rows) :
    o.bind s.candidate = o.map s.joined := by
  cases o with
  | none => rfl
  | some r => exact candidate_joined (ho r rfl)

theorem eq_of_messageID (h : Numbered q sub claims s) (hx : x ∈ s.subs.rows) (hr : r ∈ s.subs.rows)
    (he : x.messageID = r.messageID) : x = r :=
  Table.eq_of_key hx hr (Prod.ext he ((h.rows x hx).owned.trans (h.rows r hr).owned.symm))

theorem decide_id (h : Numbered q sub claims s) (hx : x ∈ s.subs.rows) (hr : r ∈ s.subs.rows) :
    decide (x.id = r.id) = decide (x.messageID = r.messageID) := by
  refine decide_eq_decide.mpr ⟨fun he => ?_, fun he => ?_⟩
  · rw [h.wf.eq_of_id hx hr he]
  · rw [eq_of_messageID h hx hr he]

theorem held_item (h : Numbered q sub claims s) (hr : r ∈ s.subs.rows) :
    r.underClaim id sub (claimOf claims n) = (s.item claims r).held id n := by
  have hrow := h.rows r hr
  have hclaim := number_eq_some_iff (n := n) h.drawn.nodup (nil_notMem_of_drawn h.drawn) hrow.issued
  unfold Sub.underClaim Item.held
  rw [decide_eq_decide.mpr hclaim.symm, decide_processing, decide_eq_true hrow.owned, Bool.and_true]
  rfl

theorem timedOut_item {now : Time} : r.timedOut now = (s.item claims r).timedOut now := by
  unfold Sub.timedOut Item.timedOut
  rw [decide_processing]
  rfl

theorem item_append {new : List UUID} (hr : r.Numbered sub claims) :
    s.item (claims ++ new) r = s.item claims r := by
  unfold State.item Candidate.item
  rw [number_append (show ∀ c ∈ (s.joined r).sub.claimID, c ∈ claims from hr.issued)]

theorem find_item (h : Numbered q sub claims s) :
    (mail claims s).items.find? (fun x => decide (x.id = id)) =
      (s.subs.find? (id, sub)).map (s.item claims) := by
  refine find_view fun r hr => ?_
  rw [decide_eq_decide]
  exact ⟨fun he => congrArg Prod.fst he, fun he => Prod.ext he (h.rows r hr).owned⟩

/-! ## what the statements do to the mailbox -/

theorem Numbered.update {claims' : List UUID} {seq : Nat} (h : Numbered q sub claims s)
    (hid : ∀ r, (f r).id = r.id) (hclaims : Drawn q.gen seq claims') (hsub : ∀ c ∈ claims, c ∈ claims')
    (hseq : s.seq ≤ seq) (hissued : ∀ r ∈ s.subs.rows, p r = true → ∀ c ∈ (f r).claimID, c ∈ claims') :
    Numbered q sub claims' { s with tables := s.tables.updateChildren p f hf, seq := seq } where
  drawn := hclaims
  wf := h.wf.update hf hid rfl hseq
  rows := Table.forall_update
    (fun r hr => ⟨(h.rows r hr).owned, fun c hc => hsub c ((h.rows r hr).issued c hc)⟩)
    fun r hr hp => ⟨(congrArg Prod.snd (hf r)).trans (h.rows r hr).owned, hissued r hr hp⟩
  kept := by
    have hids : (s.subs.update p f hf).rows.map Sub.messageID = s.subs.rows.map Sub.messageID := by
      rw [Table.rows_update, map_map]
      apply map_congr_left
      intro r hr
      show (if p r then f r else r).messageID = r.messageID
      split
      · exact congrArg Prod.fst (hf r)
      · rfl
    intro m hm
    show m.id ∈ (s.subs.update p f hf).rows.map Sub.messageID ∨ _
    rw [hids]
    exact h.kept m hm
  active := h.active
  valid := h.valid

theorem Numbered.release (h : Numbered q sub claims s) (hid : ∀ r, (f r).id = r.id)
    (hnone : ∀ r, (f r).claimID = none) :
    Numbered q sub claims { s with tables := s.tables.updateChildren p f hf } :=
  h.update hid h.drawn (fun _ hc => hc) (Nat.le_refl _) fun r _ _ c hc => by
    rw [hnone r] at hc
    cases hc

theorem delete_iff (h : Numbered q sub claims s) (hr : r ∈ s.subs.rows) {m : DLQMessage} :
    (([m].any fun m => decide (m.id = r.messageID)) && decide (r.subscriberID = sub)) =
      decide (m.id = r.messageID) := by
  rw [decide_eq_true (h.rows r hr).owned, Bool.and_true, any_cons, any_nil, Bool.or_false]

theorem mail_moveSubToDLQ (c : Candidate) (h : Numbered q sub claims s) :
    mail claims (moveSubToDLQ q env c.sub.messageID sub reason
        ⟨c.sub.retryCount, c.msg.payload, c.msg.metadata⟩ s) =
      (mail claims s).bury env.now reason (c.item claims) := by
  refine State.ext ?_ ?_ rfl
  · exact map_view_delete fun r hr => delete_iff h hr
  · show ((s.dlq ++ _ : List DLQRow).map DLQRow.anonymous : Multiset DLQRow) = _
    rw [map_append, anonymous_dlqRows, ← Multiset.coe_add]
    rfl

theorem Numbered.moveSubToDLQ {state : SubState} (h : Numbered q sub claims s) :
    Numbered q sub claims (moveSubToDLQ q env id sub reason state s) where
  drawn := h.drawn.sublist (Sublist.refl _) (Nat.le_add_right _ _)
  wf := h.wf.moveSubToDLQ
  rows := Table.forall_delete h.rows
  kept := by
    intro m hm
    show m.id ∈ (s.subs.rows.filter _).map _ ∨ m.id ∈ (s.dlq ++ _).map _
    rw [map_append, mem_append]
    rcases h.kept m hm with hrow | hdead
    · obtain ⟨r, hr, he⟩ := mem_map.mp hrow
      by_cases hid : id = r.messageID
      · exact Or.inr (Or.inr (mem_singleton.mpr (he.symm.trans hid.symm)))
      · refine Or.inl (mem_map.mpr ⟨r, mem_filter.mpr ⟨hr, ?_⟩, he⟩)
        dsimp only
        rw [delete_iff h hr, decide_eq_false hid]
        rfl
    · exact Or.inr (Or.inl hdead)
  active := h.active
  valid := h.valid

/-! ## consume -/

theorem pendingProbe_mail (h : Numbered q sub claims s) :
    Mailbox.pendingProbe env (mail claims s).items =
      (pendingProbe env sub s).map (Candidate.item claims) := by
  unfold pendingProbe
  rw [bind_candidate fun r hr => (Table.mem_select.mp (mem_of_mem_head? hr)).1, Option.map_map]
  refine head_view_select (fun r hr => ?_) (fun _ _ => Iff.rfl)
  rw [decide_eq_true (h.rows r hr).owned, Bool.true_and, parentIs_joined hr, decide_pending]
  rfl

theorem reclaimProbe_mail (h : Numbered q sub claims s) :
    Mailbox.reclaimProbe env (mail claims s).items =
      (reclaimProbe env sub s).map (Candidate.item claims) := by
  unfold reclaimProbe
  rw [bind_candidate fun r hr => (Table.mem_select.mp (mem_of_mem_head? hr)).1, Option.map_map]
  refine head_view_select (fun r hr => ?_) (fun _ _ => Iff.rfl)
  rw [decide_eq_true (h.rows r hr).owned, Bool.true_and, parentIs_joined hr, timedOut_item]
  rfl

theorem claim_mail {c : Candidate} (h : Numbered q sub claims s) (hr : c.sub ∈ s.subs.rows) :
    ShowsDelivery mail (Numbered q sub) claims (.ok (claimTopicSubscription q env sub vis c n s))
      (.ok ((mail claims s).deliver q.resolveMaxRetries env vis (c.item claims) n)) := by
  have hitems : (s.subs.rows.map fun x => if decide (x.id = c.sub.id) then
        x.claim env.now vis (q.gen.draw s.seq) n else x).map (s.item (claims ++ [q.gen.draw s.seq])) =
      (s.subs.rows.map (s.item claims)).map fun x => if decide (x.id = c.sub.messageID) then
        x.take env.now vis claims.length n else x := by
    refine map_view_update (fun x hx => decide_id h hx hr) (fun x hx hp => ?_)
      fun x hx => item_append (h.rows x hx)
    show Item.mk _ _ _ _ _ _ _ _ _ (number (claims ++ [q.gen.draw s.seq]) (some (q.gen.draw s.seq))) = _
    rw [number_new (draw_notMem_of_drawn h.drawn)]
    rfl
  refine showsDelivery_ok (Prod.ext rfl (State.ext hitems.symm rfl ?_)) ?_
  · show claims.length + 1 = (claims ++ [q.gen.draw s.seq]).length
    rw [length_append, length_singleton]
  · refine h.update (fun _ => rfl) (drawn_concat h.drawn) (fun c hc => mem_append_left _ hc)
      (Nat.le_succ _) fun x hx hp c hc => ?_
    cases hc
    exact mem_append_right _ mem_cons_self

theorem defer_mail {delay : Duration} {c : Candidate} (h : Numbered q sub claims s)
    (hr : c.sub ∈ s.subs.rows) :
    mail claims (deferReclaimedSubscription env c.sub.id (c.sub.retryCount + 1) delay s) =
      (mail claims s).edit (c.item claims).id (Item.defer env.now delay) := by
  refine State.ext (map_view_update (fun x hx => decide_id h hx hr) (fun x hx hp => ?_)
    fun _ _ => rfl) rfl rfl
  rw [h.wf.eq_of_id hx hr (of_decide_eq_true hp)]
  rfl

/-- **the loop of a receive** -/
theorem fetch_mail (skips : Nat) (h : Numbered q sub claims s) :
    ShowsDelivery mail (Numbered q sub) claims (fetchPendingTopicMessage q env sub vis skips s)
      (.ok ((mail claims s).fetch q.resolveMaxRetries env vis skips)) := by
  induction skips generalizing s with
  | zero => exact showsDelivery_none h
  | succ skips ih =>
    rw [fetchPendingTopicMessage, State.fetch, pendingProbe_mail h]
    cases hp : pendingProbe env sub s with
    | some c => exact claim_mail h (pendingProbe_spec hp).1
    | none =>
      dsimp only [Option.map_none]
      rw [reclaimProbe_mail h]
      cases hp : reclaimProbe env sub s with
      | none => exact showsDelivery_none h
      | some c =>
        obtain ⟨hr, -, ht⟩ := reclaimProbe_spec hp
        dsimp only [Option.map_some]
        unfold reclaimTopicAttempt
        rw [status_of_timedOut ht]
        dsimp only
        -- buried, deferred or delivered again, as the source decides
        by_cases hmax : c.sub.retryCount + 1 > q.resolveMaxRetries
        · have hmax' : (c.item claims).retryCount + 1 > q.resolveMaxRetries := hmax
          rw [if_pos hmax, if_pos hmax', ← mail_moveSubToDLQ c h]
          exact ih h.moveSubToDLQ
        · have hmax' : ¬ (c.item claims).retryCount + 1 > q.resolveMaxRetries := hmax
          rw [if_neg hmax, if_neg hmax']
          cases env.backoffConfigured with
          | true =>
            rw [if_pos rfl, if_pos rfl, ← defer_mail h hr]
            exact ih (h.release (fun _ => rfl) fun _ => rfl)
          | false => exact claim_mail h hr

theorem receive_mail (vis : Duration) (h : Numbered q sub claims s) :
    ShowsDelivery mail (Numbered q sub) claims (consumeFromTopic q env sub vis s)
      ((mail claims s).receive q.resolveMaxRetries env vis) := by
  unfold consumeFromTopic State.receive
  cases validateVisibilityTimeout vis with
  | error e => rfl
  | ok _ =>
    rw [h.valid]
    cases env.paused with
    | true => rfl
    | false => exact fetch_mail _ h

/-! ## receipts -/

section
variable {y : Receipt}

theorem miss_mail (h : Numbered q sub claims s) (hy : y.claimID = claimOf claims n) :
    classifyTopicAckMiss sub y s = (mail claims s).refusal y.messageID n := by
  unfold classifyTopicAckMiss
  rw [hy]
  exact classify_eq_refusal h.drawn rfl (find_item h)
    fun r hr => ⟨rfl, rfl, (h.rows r (Table.mem_of_find? hr)).issued⟩

theorem underClaim_mail {f : Sub → Sub} {hf : ∀ r, (f r).key = r.key} {f' : Item → Item}
    (h : Numbered q sub claims s) (hy : y.claimID = claimOf claims n) (hid : ∀ r, (f r).id = r.id)
    (hclaim : ∀ r, (f r).claimID = r.claimID)
    (hitem : ∀ r ∈ s.subs.rows, s.item claims (f r) = f' (s.item claims r)) :
    Shows mail (Numbered q sub) claims
      (if (updateUnderClaim f hf sub y s).1 then .ok (updateUnderClaim f hf sub y s).2
        else .error (classifyTopicAckMiss sub y (updateUnderClaim f hf sub y s).2))
      ((mail claims s).rewrite y.messageID n f') := by
  have hheld : ∀ r ∈ s.subs.rows,
      r.underClaim y.messageID sub y.claimID = (s.item claims r).held y.messageID n :=
    fun r hr => hy ▸ held_item h hr
  have hany : (mail claims s).items.any (Item.held y.messageID n) =
      (updateUnderClaim f hf sub y s).1 := any_view hheld
  unfold State.rewrite
  rw [hany]
  cases hm : (updateUnderClaim f hf sub y s).1 with
  | true =>
    rw [if_pos rfl, if_pos rfl]
    refine ⟨State.ext (map_view_update hheld (fun r hr _ => hitem r hr) fun _ _ => rfl) rfl rfl,
      h.update hid h.drawn (fun _ hc => hc) (Nat.le_refl _) fun r hr _ c hc => ?_⟩
    rw [hclaim r] at hc
    exact (h.rows r hr).issued c hc
  | false =>
    have hsame : (updateUnderClaim f hf sub y s).2 = s := by
      unfold updateUnderClaim
      rw [updateChildren_of_not fun r hr => Bool.eq_false_iff.mpr (any_eq_false.mp hm r hr)]
    rw [if_neg Bool.false_ne_true, if_neg Bool.false_ne_true, hsame]
    exact miss_mail h hy

theorem ack_mail (h : Numbered q sub claims s) (hy : y.claimID = claimOf claims n) :
    Shows mail (Numbered q sub) claims (ackTopic env sub y s) ((mail claims s).ack y.messageID n) := by
  unfold ackTopic
  rw [h.valid]
  exact underClaim_mail h hy (fun _ => rfl) (fun _ => rfl) fun _ _ => rfl

theorem extend_mail (d : Duration) (h : Numbered q sub claims s)
    (hy : y.claimID = claimOf claims n) :
    Shows mail (Numbered q sub) claims (extendTopicVisibility env sub y d s)
      ((mail claims s).extend env.now y.messageID n d) := by
  unfold extendTopicVisibility State.extend
  cases validateVisibilityTimeout d with
  | error e => rfl
  | ok _ =>
    rw [h.valid]
    exact underClaim_mail h hy (fun _ => rfl) (fun _ => rfl) fun _ _ => rfl

theorem retry_mail {reason : Bytes} {delay : Duration} (h : Numbered q sub claims s) :
    mail claims (retrySubscription env id sub reason delay s) =
      (mail claims s).edit id (Item.retry env.now delay reason) := by
  refine State.ext (map_view_update (fun r hr => ?_) (fun _ _ _ => rfl) fun _ _ => rfl) rfl rfl
  rw [decide_eq_decide]
  exact ⟨fun he => congrArg Prod.fst he, fun he => Prod.ext he (h.rows r hr).owned⟩

theorem nack_mail (reason : Bytes) (delay : Duration) (h : Numbered q sub claims s)
    (hy : y.claimID = claimOf claims n) :
    Shows mail (Numbered q sub) claims (nackTopicImpl q env sub y reason delay s)
      ((mail claims s).nack q.resolveMaxRetries env y.messageID n reason delay) := by
  have hfind : (mail claims s).items.find? (Item.held y.messageID n) =
      (s.subs.rows.find? fun r => r.underClaim y.messageID sub y.claimID).map (s.item claims) :=
    find_view fun r hr => hy ▸ held_item h hr
  unfold nackTopicImpl getProcessingSubState State.nack
  rw [h.valid, hfind]
  dsimp only
  cases hf : s.subs.rows.find? fun r => r.underClaim y.messageID sub y.claimID with
  | none => exact miss_mail h hy
  | some r =>
    have hr := mem_of_find?_eq_some hf
    have hu := find?_some hf
    have hid : r.messageID = y.messageID := congrArg Prod.fst (underClaim_eq.mp hu).1
    rw [Option.bind_some, candidate_joined hr]
    dsimp only [Option.map_some]
    unfold nackFound
    rw [← hid]
    by_cases hmax : (s.joined r).sub.retryCount + 1 > q.resolveMaxRetries
    · have hmax' : (s.item claims r).retryCount + 1 > q.resolveMaxRetries := hmax
      rw [if_pos hmax, if_pos hmax']
      exact ⟨mail_moveSubToDLQ (s.joined r) h, h.moveSubToDLQ⟩
    · have hmax' : ¬ (s.item claims r).retryCount + 1 > q.resolveMaxRetries := hmax
      rw [if_neg hmax, if_neg hmax']
      exact ⟨retry_mail h, h.release (fun _ => rfl) fun _ => rfl⟩

end

/-! ## publish -/

theorem isSome_message (hr : r ∈ s.subs.rows) : (s.msgs.find? r.messageID).isSome :=
  s.tables.linked r hr

theorem admits_iff {ids : List UUID} (h : Numbered q sub claims s)
    (hfree : (mail claims s).Free ids) :
    (mail claims s).Admits ids ↔ ids.Nodup ∧ ∀ id ∈ ids, s.msgs.find? id = none := by
  refine and_congr_right fun _ => ⟨fun hnew id hid => ?_, fun hnone x hx hid => ?_⟩
  · by_contra hsome
    obtain ⟨m, hm⟩ := Option.ne_none_iff_exists'.mp hsome
    obtain ⟨hmem, rfl⟩ := Table.find?_eq_some.mp hm
    rcases h.kept m hmem with hrow | hdead
    · obtain ⟨r, hr, he⟩ := mem_map.mp hrow
      exact hnew _ (mem_map_of_mem hr) (show r.messageID ∈ ids from he ▸ hid)
    · obtain ⟨d, hd, he⟩ := mem_map.mp hdead
      exact hfree _ (Multiset.mem_coe.mpr (mem_map_of_mem hd))
        (show d.originalMessageID ∈ ids from he ▸ hid)
  · obtain ⟨r, hr, rfl⟩ := mem_map.mp hx
    have hsome := isSome_message hr
    rw [hnone r.messageID hid] at hsome
    cases hsome

theorem map_subRows {α : Type} {now : Time} {f : Sub → α} {g : PublishMessage → α}
    (ms : List PublishMessage) (gen : Generator) (seq : Nat)
    (hf : ∀ id, ∀ m ∈ ms, f (newSub id now (m.id, sub)) = g m) :
    (subRows gen seq now (ms.map fun m => (m.id, sub))).map f = ms.map g := by
  induction ms generalizing seq with
  | nil => rfl
  | cons m ms ih =>
    rw [map_cons, map_cons, subRows, map_cons, hf _ m mem_cons_self,
      ih (seq + 1) fun id m' hm => hf id m' (mem_cons_of_mem _ hm)]

/-- the tables after new messages and their fan-out to the one subscriber -/
structure Published (q : Queue) (env : Env) (sub : String) (ms : List PublishMessage)
    (s s' : State) : Prop where
  msgs : s'.msgs.rows = s.msgs.rows ++ ms.map (newMessage env)
  subs : s'.subs = s.subs.insertAll (subRows q.gen s.seq env.now (ms.map fun m => (m.id, sub)))
  rows : s'.subs.rows = s.subs.rows ++ subRows q.gen s.seq env.now (ms.map fun m => (m.id, sub))
  subscribers : s'.subscribers = s.subscribers
  dlq : s'.dlq = s.dlq
  seq : s'.seq = s.seq + ms.length

section
variable {ms : List PublishMessage}

theorem records_eq (ms : List PublishMessage) (sub : String) :
    ((ms.map PublishMessage.id).flatMap fun id => [sub].map fun subscriberID => (id, subscriberID)) =
      ms.map fun m => (m.id, sub) := by
  induction ms with
  | nil => rfl
  | cons m ms ih =>
    rw [map_cons, flatMap_cons, ih]
    rfl

theorem resolves_fanOut (env : Env) (ms : List PublishMessage) (gen : Generator) (seq : Nat) :
    (s.tables.insertParents (ms.map (newMessage env))).Resolves
      (subRows gen seq env.now (ms.map fun m => (m.id, sub))) := by
  intro r hr
  obtain ⟨i, -, -, k, hk, rfl⟩ := mem_subRows hr
  obtain ⟨m, hm, rfl⟩ := mem_map.mp hk
  show ((s.msgs.insertAll (ms.map (newMessage env))).find? m.id).isSome
  rw [Table.find?_insertAll, Option.isSome_or, Bool.or_eq_true, find?_isSome]
  exact Or.inr ⟨_, mem_map_of_mem hm, decide_eq_true rfl⟩

theorem rows_fanOut (hn : (ms.map PublishMessage.id).Nodup)
    (hnew : ∀ m ∈ ms, s.msgs.find? m.id = none) (gen : Generator) (seq : Nat) :
    (s.subs.insertAll (subRows gen seq env.now (ms.map fun m => (m.id, sub)))).rows =
      s.subs.rows ++ subRows gen seq env.now (ms.map fun m => (m.id, sub)) := by
  refine Table.rows_insertAll_fresh ?_ fun r hr => ?_
  · rw [key_subRows]
    refine Nodup.of_map Prod.fst ?_
    rw [map_map]
    exact hn
  · obtain ⟨i, -, -, k, hk, rfl⟩ := mem_subRows hr
    obtain ⟨m, hm, rfl⟩ := mem_map.mp hk
    refine Table.find?_eq_none.mpr fun x hx he => ?_
    have hsome := isSome_message hx
    rw [show x.messageID = m.id from congrArg Prod.fst he, hnew m hm] at hsome
    cases hsome

theorem published_fanOut (env : Env) (h : Numbered q sub claims s)
    (hn : (ms.map PublishMessage.id).Nodup) (hnew : ∀ m ∈ ms, s.msgs.find? m.id = none) :
    ∃ s', batchCreateSubscriptionRecords q env (ms.map PublishMessage.id)
        { s with tables := s.tables.insertParents (ms.map (newMessage env)) } = .ok s' ∧
      Published q env sub ms s s' := by
  have hresolves : (s.tables.insertParents (ms.map (newMessage env))).Resolves
      (subRows q.gen s.seq env.now (ms.map fun m => (m.id, sub))) := resolves_fanOut env ms q.gen s.seq
  obtain ⟨tables, ht, hp, hc⟩ := Linked.insertChildren_of_resolves hresolves
  have hactive : getActiveSubscribers env
      { s with tables := s.tables.insertParents (ms.map (newMessage env)) } = .ok [sub] := h.active env
  refine ⟨{ s with tables := tables, seq := s.seq + ms.length }, ?_, ?_, hc, ?_, rfl, rfl, rfl⟩
  · unfold batchCreateSubscriptionRecords
    rw [hactive]
    dsimp only
    unfold insertSubscriptionRecords
    rw [records_eq]
    rw [ht, length_map]
  · show tables.parents.rows = _
    rw [hp]
    refine Table.rows_insertAll_fresh ?_ ?_
    · rw [map_map]
      exact hn
    · rw [forall_mem_map]
      exact hnew
  · show tables.children.rows = _
    rw [hc]
    exact rows_fanOut hn hnew q.gen s.seq

theorem Published.item_old (hp : Published q env sub ms s s') (hr : r ∈ s.subs.rows) :
    s'.item claims r = s.item claims r := by
  obtain ⟨m, hm⟩ := s.tables.exists_parentOf hr
  have hm' : s'.tables.parentOf r = some m := by
    refine Table.find?_eq_some.mpr ⟨?_, Table.key_of_find? hm⟩
    rw [show s'.tables.parents.rows = _ from hp.msgs]
    exact mem_append_left _ (Table.mem_of_find? hm)
  unfold State.item State.joined
  rw [hm, hm']

theorem Published.item_new (hp : Published q env sub ms s s') {m : PublishMessage} (hm : m ∈ ms) :
    s'.item claims (newSub id env.now (m.id, sub)) = Item.fresh env.now m := by
  have hfind : s'.tables.parentOf (newSub id env.now (m.id, sub)) = some (newMessage env m) := by
    refine Table.find?_eq_some.mpr ⟨?_, rfl⟩
    rw [show s'.tables.parents.rows = _ from hp.msgs]
    exact mem_append_right _ (mem_map_of_mem hm)
  unfold State.item State.joined
  rw [hfind]
  rfl

theorem Published.mail (hp : Published q env sub ms s s') :
    mail claims s' =
      { mail claims s with items := (mail claims s).items ++ ms.map (Item.fresh env.now) } := by
  refine State.ext ?_ ?_ rfl
  · show s'.subs.rows.map _ = s.subs.rows.map _ ++ _
    rw [hp.rows, map_append, map_subRows ms _ _ fun id m hm => hp.item_new hm,
      map_congr_left fun r hr => hp.item_old hr]
  · show ((s'.dlq.map DLQRow.anonymous : List DLQRow) : Multiset DLQRow) = _
    rw [hp.dlq]
    rfl

theorem Published.numbered (hp : Published q env sub ms s s') (h : Numbered q sub claims s) :
    Numbered q sub claims s' where
  drawn := h.drawn.sublist (Sublist.refl _) (by rw [hp.seq]; exact Nat.le_add_right _ _)
  wf := h.wf.insert hp.subs (by rw [length_map, hp.seq])
  rows := by
    rw [hp.rows, forall_mem_append]
    refine ⟨h.rows, fun r hr => ?_⟩
    obtain ⟨i, -, -, k, hk, rfl⟩ := mem_subRows hr
    obtain ⟨m, hm, rfl⟩ := mem_map.mp hk
    exact ⟨rfl, nofun⟩
  kept := by
    rw [hp.msgs, hp.rows, hp.dlq, forall_mem_append, map_append]
    refine ⟨fun m hm => ?_, ?_⟩
    · exact (h.kept m hm).imp_left (mem_append_left _)
    · rw [forall_mem_map, map_subRows ms _ _ fun _ _ _ => rfl]
      exact fun m hm => Or.inl (mem_append_right _ (mem_map_of_mem hm))
  active := by
    intro env
    unfold getActiveSubscribers
    rw [hp.subscribers]
    exact h.active env
  valid := h.valid

/-- **a publish of new messages** -/
theorem insert_mail (h : Numbered q sub claims s)
    (hfree : (mail claims s).Free (ms.map PublishMessage.id))
    (ha : (mail claims s).Admits (ms.map PublishMessage.id)) :
    Shows mail (Numbered q sub) claims
      (batchCreateSubscriptionRecords q env (ms.map PublishMessage.id)
        { s with tables := s.tables.insertParents (ms.map (newMessage env)) })
      ((mail claims s).publish env.now ms) := by
  obtain ⟨hn, hnew⟩ := (admits_iff h hfree).mp ha
  rw [forall_mem_map] at hnew
  obtain ⟨s', he, hp⟩ := published_fanOut env h hn hnew
  unfold State.publish
  rw [he, if_pos ha]
  exact ⟨hp.mail, hp.numbered h⟩

theorem publish_mail (m : PublishMessage) (h : Numbered q sub claims s)
    (hfree : (mail claims s).Free [m.id]) :
    Shows mail (Numbered q sub) claims (publishToPubSub q env m s)
      ((mail claims s).publish env.now [m]) := by
  unfold publishToPubSub
  cases hf : s.msgs.find? m.id with
  | some x =>
    refine shows_duplicate fun ha => ?_
    rw [((admits_iff h hfree).mp ha).2 m.id mem_cons_self] at hf
    cases hf
  | none =>
    have ha : (mail claims s).Admits ([m].map PublishMessage.id) := (admits_iff h hfree).mpr
      ⟨nodup_singleton _, fun id hid => mem_singleton.mp hid ▸ hf⟩
    have hfree' : (mail claims s).Free ([m].map PublishMessage.id) := hfree
    exact insert_mail h hfree' ha

theorem publishBatch_mail (ms : List PublishMessage) (h : Numbered q sub claims s)
    (hfree : (mail claims s).Free (ms.map PublishMessage.id)) :
    Shows mail (Numbered q sub) claims (publishBatchToPubSub q env ms s)
      ((mail claims s).publishBatch env.now ms) := by
  unfold publishBatchToPubSub
  by_cases hnil : ms = []
  · rw [if_pos hnil, hnil, publishBatch_nil]
    exact ⟨rfl, h⟩
  · rw [if_neg hnil]
    unfold State.publishBatch
    cases validateBatchSize ms.length with
    | error e => rfl
    | ok _ =>
      have hfull : (mail claims s).Admits (ms.map PublishMessage.id) ↔
          s.msgs.rows.length + ms.length ≤
            (s.tables.insertParents (ms.map (newMessage env))).parents.rows.length := by
        have hiff : s.msgs.rows.length + (ms.map (newMessage env)).length ≤ _ ↔ _ :=
          Table.length_insertAll_iff
        rw [length_map, map_map, forall_mem_map] at hiff
        rw [admits_iff h hfree, forall_mem_map]
        exact hiff.symm
      dsimp only
      split
      · rename_i hlt
        exact shows_duplicate fun ha => absurd (hfull.mp ha) (Nat.not_le.mpr hlt)
      · rename_i hle
        exact insert_mail h hfree (hfull.mpr (Nat.not_lt.mp hle))

end

/-! ## garbage collection -/

theorem exhausted_item :
    r.exhausted q env = (s.item claims r).exhausted q.resolveMaxRetries env.now := by
  unfold Sub.exhausted
  rw [timedOut_item]
  rfl

theorem resettable_item :
    r.resettable q env = (s.item claims r).resettable q.resolveMaxRetries env.now := by
  unfold Sub.resettable
  rw [timedOut_item]
  rfl

variable (claims) in
theorem anonymous_letters (seq : Nat) (cs : List Candidate) :
    (Collect.letters q env seq cs).map DLQRow.anonymous =
      cs.map fun c => (c.item claims).letter env.now errReasonVisibilityTimeout := by
  induction cs generalizing seq with
  | nil => rfl
  | cons c cs ih => exact congrArg (_ :: ·) (ih (seq + 1))

variable (claims) in
/-- the letters of the rows that a promotion takes -/
theorem letters_promote (q : Queue) (env : Env) (s : State) :
    (Collect.letters q env s.seq ((s.subs.select (Sub.exhausted q env)
      (fun a b => a.id ≤ b.id)).filterMap s.candidate)).map DLQRow.anonymous =
      (s.subs.select (Sub.exhausted q env) (fun a b => a.id ≤ b.id)).map fun r =>
        (s.item claims r).letter env.now errReasonVisibilityTimeout := by
  rw [anonymous_letters claims, filterMap_candidate fun r hr => (Table.mem_select.mp hr).1,
    map_map]
  rfl

theorem Numbered.promote (h : Numbered q sub claims s) :
    Numbered q sub claims ((Collect.promote q env).apply s) where
  drawn := h.drawn.sublist (Sublist.refl _) (Nat.le_add_right _ _)
  wf := h.wf.delete rfl (Nat.le_add_right _ _)
  rows := Table.forall_delete h.rows
  kept := by
    intro m hm
    show m.id ∈ (s.subs.rows.filter _).map _ ∨ m.id ∈ (s.dlq ++ _).map _
    rw [map_append, mem_append]
    rcases h.kept m hm with hrow | hdead
    · obtain ⟨r, hr, he⟩ := mem_map.mp hrow
      cases hx : r.exhausted q env with
      | true =>
        have hletters := congrArg (List.map DLQRow.originalMessageID)
          (letters_promote claims q env s)
        rw [map_map, map_map] at hletters
        refine Or.inr (Or.inr (?_ : m.id ∈ _))
        rw [show (DLQRow.originalMessageID : DLQRow → UUID) =
          DLQRow.originalMessageID ∘ DLQRow.anonymous from rfl, hletters]
        exact mem_map.mpr ⟨r, Table.mem_select.mpr ⟨hr, hx⟩, he⟩
      | false =>
        refine Or.inl (mem_map.mpr ⟨r, mem_filter.mpr ⟨hr, ?_⟩, he⟩)
        rw [hx]
        rfl
    · exact Or.inr (Or.inl hdead)
  active := h.active
  valid := h.valid

theorem promote_mail (env : Env) (h : Numbered q sub claims s) :
    mail claims ((Collect.promote q env).apply s) =
        (mail claims s).promote q.resolveMaxRetries env.now ∧
      Numbered q sub claims ((Collect.promote q env).apply s) := by
  have hexhausted : ∀ r ∈ s.subs.rows, r.exhausted q env =
      (s.item claims r).exhausted q.resolveMaxRetries env.now := fun r _ => exhausted_item
  refine ⟨State.ext (map_view_delete hexhausted) ?_ rfl, h.promote⟩
  show ((s.dlq ++ _ : List DLQRow).map DLQRow.anonymous : Multiset DLQRow) = _ +
    (((s.subs.rows.map (s.item claims)).filter _).map _ : List DLQRow)
  rw [filter_view hexhausted, map_append, letters_promote claims, ← Multiset.coe_add, map_map]
  exact congrArg (_ + ·) (Multiset.coe_eq_coe.mpr ((s.subs.select_perm _ _).map _))

theorem reset_mail (env : Env) (h : Numbered q sub claims s) :
    mail claims ((Collect.reset q env).apply s) = (mail claims s).reset q.resolveMaxRetries env.now ∧
      Numbered q sub claims ((Collect.reset q env).apply s) :=
  ⟨State.ext (map_view_update (fun _ _ => resettable_item) (fun _ _ _ => rfl) fun _ _ => rfl) rfl rfl,
    h.release (fun _ => rfl) fun _ => rfl⟩

theorem collect_eq (env : Env) (h : Numbered q sub claims s) :
    collect q env s = (Collect.reclaims q env).apply s := by
  obtain ⟨_, -, hhandled⟩ := Collect.handled q env s
  have hcount : (Collect.reclaims q env).count s ≤ s.subs.rows.length := by
    rw [hhandled.count]
    exact length_filter_le _ _
  have hkeyed : Collect.KeyedSubs s := Drawn.nodup h.wf
  unfold collect
  rw [Collect.realises_reclaims.within s hkeyed _ (Nat.lt_succ_of_le hcount)]
  rfl

theorem collect_mail (h : Numbered q sub claims s) :
    mail claims (collect q env s) = (mail claims s).collect q.resolveMaxRetries env.now ∧
      Numbered q sub claims (collect q env s) := by
  obtain ⟨hp, hn⟩ := promote_mail env h
  obtain ⟨hr, hn⟩ := reset_mail env hn
  rw [hp] at hr
  rw [collect_eq env h]
  exact ⟨hr, hn⟩

end

/-- **a topic with one subscriber refines the mailbox** -/
theorem door_refines (q : Queue) (sub : String) :
    (door q sub).Refines q.resolveMaxRetries mail (Numbered q sub) where
  dead := rfl
  publish env m h hfree := publish_mail m h hfree
  publishBatch env ms h hfree := publishBatch_mail ms h hfree
  receive env vis h := receive_mail vis h
  ack env id n h := ack_mail h rfl
  nack env id n reason delay h := nack_mail reason delay h rfl
  extend env id n d h := extend_mail d h rfl
  collect env h := by
    rw [collect_door]
    exact collect_mail h

variable {env : Env} {sub : String} {s : State}

theorem getActiveSubscribers_one
    (h : (s.subscribers.select Subscriber.active (fun a b => a.createdAt ≤ b.createdAt)).map
      Subscriber.subscriberID = [sub]) : getActiveSubscribers env s = .ok [sub] := by
  unfold getActiveSubscribers
  dsimp only
  rw [h, length_singleton, if_neg fun hcap => by omega]

theorem select_registered (now : Time) (sub : String) :
    ((((Table.empty : Table Subscriber String Subscriber.subscriberID).insertNew ⟨sub, now, true⟩).update
      (fun x => decide (x.subscriberID = sub)) (Subscriber.setActive true)
      (Subscriber.id_setActive true)).select Subscriber.active
        (fun a b => a.createdAt ≤ b.createdAt)).map Subscriber.subscriberID = [sub] := by
  unfold Table.select
  rw [Table.rows_update, Table.rows_insertNew (Table.find?_empty _)]
  simp [Subscriber.setActive]

theorem numbered_register {q : Queue} (h : registerSubscriber env sub State.init = .ok s) :
    Numbered q sub [] s := by
  obtain ⟨hv, rfl⟩ := registerSubscriber_ok h
  have hdrawn : Drawn q.gen 0 [] := ⟨nodup_nil, fun _ h => absurd h not_mem_nil⟩
  exact ⟨hdrawn, hdrawn, fun _ h => absurd h not_mem_nil,
    fun _ h => absurd h not_mem_nil,
    fun _ => getActiveSubscribers_one (select_registered env.now sub), hv⟩

theorem mail_register (h : registerSubscriber env sub State.init = .ok s) : mail [] s = ⟨[], 0, 0⟩ := by
  obtain ⟨-, rfl⟩ := registerSubscriber_ok h
  rfl

end PgQueue.Topic
