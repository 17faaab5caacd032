import PgQueue.Topic.Run
import PgQueue.Topic.Settle

/-!
# The topic is a system of leases

`lease q s` reads a topic's tables as a `Lease.System` over pairs of a message and a subscriber:
the slot of a pair is its row in the subscription table, the buried items are the dead letters of
that subscriber.  `step_txn` and `Reach.run` are the statements of `PgQueue.Channel.Refine` for a
topic.

The consume path and the pages of the garbage collector address a row by its own id, so they need
that the ids of the subscription rows are distinct (`Wf`); the ids come from `uuidv7()`.
-/

namespace PgQueue.Topic
open Relational Lease List

def Sub.slot (q : Queue) (r : Sub) : Slot UUID Time :=
  ⟨phaseOf r.status, r.retryCount, q.resolveMaxRetries, r.claimID, r.visibilityTimeout, r.ackedAt⟩

def lease (q : Queue) (s : State) : System (UUID × String) UUID Time where
  slot := slots (Sub.slot q) s.subs
  dead k a := ∃ d ∈ s.dlq, d.originalMessageID = k.1 ∧ d.subscriberID = some k.2 ∧ d.retryCount = a
  seq := s.seq

/-- the leases go from `s` to `s'` by moves that report `es` -/
abbrev Moved (q : Queue) (env : Env) (s : State) (es : History (UUID × String)) (s' : State) : Prop :=
  Moves q.gen.draw q.resolveMaxRetries env.now (lease q s) es (lease q s')

/-- the ids of the subscription rows are distinct values of the generator -/
def Wf (q : Queue) (s : State) : Prop := Drawn q.gen s.seq (s.subs.rows.map Sub.id)

/-- **what a consume call of a subscriber does**: its timed-out rows are buried or put off, until a
row is claimed or the call gives up -/
inductive Fetched (q : Queue) (env : Env) (sub : String) (vis : Duration) :
    State → Option Message → State → Prop where
  | nothing {s} : Fetched q env sub vis s none s
  | pending {s} {c : Candidate} (hr : c.sub ∈ s.subs.rows) (hsub : c.sub.subscriberID = sub)
      (hst : c.sub.status = .pending) (hav : c.sub.availableAt ≤ env.now) :
      Fetched q env sub vis s (claimTopicSubscription q env sub vis c c.sub.retryCount s).1
        (claimTopicSubscription q env sub vis c c.sub.retryCount s).2
  | buried {s s' m} {c : Candidate} (hr : c.sub ∈ s.subs.rows) (hsub : c.sub.subscriberID = sub)
      (ht : c.sub.timedOut env.now = true) (hcap : c.sub.retryCount + 1 > q.resolveMaxRetries)
      (rest : Fetched q env sub vis (moveSubToDLQ q env c.sub.messageID sub errReasonVisibilityTimeout
        ⟨c.sub.retryCount, c.msg.payload, c.msg.metadata⟩ s) m s') : Fetched q env sub vis s m s'
  | deferred {s s' m} {c : Candidate} (hr : c.sub ∈ s.subs.rows) (hsub : c.sub.subscriberID = sub)
      (ht : c.sub.timedOut env.now = true) (hcap : c.sub.retryCount + 1 ≤ q.resolveMaxRetries)
      (rest : Fetched q env sub vis (deferReclaimedSubscription env c.sub.id (c.sub.retryCount + 1)
        (env.computeRetryDelay c.sub.messageID (c.sub.retryCount + 1) 0) s) m s') :
      Fetched q env sub vis s m s'
  | reclaimed {s} {c : Candidate} (hr : c.sub ∈ s.subs.rows) (hsub : c.sub.subscriberID = sub)
      (ht : c.sub.timedOut env.now = true) (hcap : c.sub.retryCount + 1 ≤ q.resolveMaxRetries) :
      Fetched q env sub vis s (claimTopicSubscription q env sub vis c (c.sub.retryCount + 1) s).1
        (claimTopicSubscription q env sub vis c (c.sub.retryCount + 1) s).2

section
variable {q : Queue} {env : Env} {s s' : State} {r : Sub} {sub : String} {n : Nat} {p : Sub → Bool}
  {c : Candidate} {x : Receipt} {now : Time} {vis delay : Duration} {f : Sub → Sub}
  {records : List (UUID × String)} {m : Option Message} {performedBy : Option String}
  {id afterID : UUID} {es : List (Event UUID Time)} {reason msg payload : Bytes} {state : SubState}
  {metadata : Option Bytes} {ids : List UUID} {op : ReplayOperation} {ds : List DLQRow}
  {h : History (UUID × String)}

/-! ## the ids of the subscription rows -/

theorem Wf.eq_of_id (hw : Wf q s) {x : Sub} (hx : x ∈ s.subs.rows) (hr : r ∈ s.subs.rows)
    (h : x.id = r.id) : x = r := inj_on_of_nodup_map hw.nodup hx hr h

theorem Wf.of_sublist (hw : Wf q s)
    (hids : (s'.subs.rows.map Sub.id).Sublist (s.subs.rows.map Sub.id)) (hn : s.seq ≤ s'.seq) :
    Wf q s' := Drawn.sublist hw hids hn

theorem ids_update {hf : ∀ r, (f r).key = r.key} (hid : ∀ r, (f r).id = r.id) :
    (s.subs.update p f hf).rows.map Sub.id = s.subs.rows.map Sub.id := by
  rw [Table.rows_update, map_map]
  apply map_congr_left
  intro r hr
  show (if p r then f r else r).id = r.id
  split
  · exact hid r
  · rfl

theorem Wf.update (hw : Wf q s) (hf : ∀ r, (f r).key = r.key) (hid : ∀ r, (f r).id = r.id)
    (hs' : s'.subs = s.subs.update p f hf) (hn : s.seq ≤ s'.seq) : Wf q s' := by
  refine hw.of_sublist ?_ hn
  rw [hs', ids_update hid]

theorem Wf.delete (hw : Wf q s) (hs' : s'.subs = s.subs.delete p) (hn : s.seq ≤ s'.seq) : Wf q s' := by
  refine hw.of_sublist ?_ hn
  rw [hs']
  exact filter_sublist.map _

theorem Wf.same (hw : Wf q s) (hs' : s'.subs = s.subs) (hn : s.seq ≤ s'.seq) : Wf q s' := by
  refine hw.of_sublist ?_ hn
  rw [hs']

theorem mem_subRows {gen : Generator} {seq : Nat} (h : r ∈ subRows gen seq now records) :
    ∃ i, seq ≤ i ∧ i < seq + records.length ∧ ∃ k ∈ records, r = newSub (gen.draw i) now k := by
  induction records generalizing seq with
  | nil => cases h
  | cons k records ih =>
    rw [length_cons]
    rcases mem_cons.mp h with rfl | h
    · exact ⟨seq, Nat.le_refl _, by omega, k, mem_cons_self, rfl⟩
    · obtain ⟨i, hi, hlt, k', hk, he⟩ := ih h
      exact ⟨i, by omega, by omega, k', mem_cons_of_mem _ hk, he⟩

theorem nodup_subRows (gen : Generator) (seq : Nat) (now : Time) (records : List (UUID × String)) :
    ((subRows gen seq now records).map Sub.id).Nodup := by
  induction records generalizing seq with
  | nil => exact nodup_nil
  | cons k records ih =>
    refine nodup_cons.mpr ⟨fun hmem => ?_, ih (seq + 1)⟩
    obtain ⟨r, hr, he⟩ := mem_map.mp hmem
    obtain ⟨i, hi, -, k', -, rfl⟩ := mem_subRows hr
    have := gen.injective he
    omega

theorem Wf.insert (hw : Wf q s) (hs' : s'.subs = s.subs.insertAll (subRows q.gen s.seq now records))
    (hn : s.seq + records.length ≤ s'.seq) : Wf q s' := by
  have hsub := Table.insertAll_sublist s.subs (subRows q.gen s.seq now records)
  have hnew : Drawn q.gen s'.seq
      (s.subs.rows.map Sub.id ++ (subRows q.gen s.seq now records).map Sub.id) := by
    refine Drawn.append hw (nodup_subRows _ _ _ _) (fun x hx => ?_) (by omega)
    obtain ⟨r, hr, rfl⟩ := mem_map.mp hx
    obtain ⟨i, hi, hlt, k, -, rfl⟩ := mem_subRows hr
    exact ⟨i, hi, by omega, rfl⟩
  unfold Wf
  rw [hs']
  refine hnew.sublist ?_ (Nat.le_refl _)
  rw [← map_append]
  exact hsub.map Sub.id

/-! ## rows and slots -/

theorem slot_newSub (id : UUID) (now : Time) (k : UUID × String) :
    (newSub id now k).slot q = .fresh q.resolveMaxRetries := rfl

theorem underClaim_iff {c : UUID} :
    r.underClaim id sub c = true ↔ r.key = (id, sub) ∧ (r.slot q).HeldBy c := by
  rw [underClaim_eq]
  unfold Slot.HeldBy
  simp only [Sub.slot, phaseOf_eq_processing]
  tauto

theorem timedOut_iff : r.timedOut now = true ↔ (r.slot q).Expired now := by
  unfold Sub.timedOut Slot.Expired
  simp only [Bool.and_eq_true, decide_eq_true_eq, Sub.slot, phaseOf_eq_processing,
    Option.any_eq_true]

theorem settled_iff : r.settled = true → (r.slot q).phase ≠ .processing := by
  unfold Sub.settled
  simp only [Bool.and_eq_true, decide_eq_true_eq, Sub.slot, ne_eq, phaseOf_eq_processing]
  exact fun h => h.2

theorem not_live_of_status (h : r.status ≠ .processing) : ¬ (r.slot q).Live now :=
  fun hl => h (phaseOf_eq_processing.mp hl.1)

/-- a row that the inactive-subscriber purge does not protect has no live lease -/
theorem not_live_of_inFlight (h : r.inFlight now = false) : ¬ (r.slot q).Live now := by
  rintro ⟨hp, T, hT, hlt⟩
  have hst : r.status = .processing := phaseOf_eq_processing.mp hp
  have hvt : r.visibilityTimeout = some T := hT
  unfold Sub.inFlight at h
  rw [hst, hvt, decide_eq_true rfl, Option.all_some, decide_eq_true hlt] at h
  cases h

theorem status_of_timedOut (h : r.timedOut now = true) : r.status = .processing := by
  unfold Sub.timedOut at h
  rw [Bool.and_eq_true, decide_eq_true_eq] at h
  exact h.1

/-! ## statements -/

theorem Wf.id_iff (hw : Wf q s) (hr : r ∈ s.subs.rows) :
    ∀ x ∈ s.subs.rows, decide (x.id = r.id) = true ↔ x.key = r.key := by
  intro x hx
  rw [decide_eq_true_eq]
  refine ⟨fun h => congrArg Sub.key (hw.eq_of_id hx hr h), fun h => ?_⟩
  rw [Table.eq_of_key hx hr h]

theorem moves_updateSub (hf : ∀ r, (f r).key = r.key) (hr : r ∈ s.subs.rows)
    (hp : ∀ x ∈ s.subs.rows, p x = true ↔ x.key = r.key) (hs' : s'.subs = s.subs.update p f hf)
    (hd : s'.dlq = s.dlq) (hn : s.seq ≤ s'.seq)
    (hs : ∃ n' ≤ s'.seq, Step q.gen.draw q.resolveMaxRetries env.now s.seq (some (r.slot q)) es []
      (some ((f r).slot q)) n') : Moved q env s (es.map fun e => (r.key, e)) s' := by
  refine Moves.of_updateRow hf (t := s.subs) rfl (congrArg (slots (Sub.slot q)) hs') ?_ hn hr hp hs
  rintro k a ⟨d, hmem, hk⟩
  exact ⟨d, hd ▸ hmem, hk⟩

theorem moves_moveSubToDLQ (hr : r ∈ s.subs.rows)
    (hs : Step q.gen.draw q.resolveMaxRetries env.now s.seq (some (r.slot q)) es
      [r.retryCount + 1] none s.seq) :
    Moved q env s (es.map fun e => (r.key, e))
      (moveSubToDLQ q env r.messageID r.subscriberID reason ⟨r.retryCount, payload, metadata⟩ s) := by
  refine Moves.of_buryRow (t := s.subs) rfl rfl (Nat.le_add_right _ _) hr ?_ ?_ hs
  · intro x hx
    simp only [any_cons, any_nil, Bool.or_false, Bool.and_eq_true, decide_eq_true_eq,
      Sub.key, Prod.mk.injEq, @eq_comm _ r.messageID]
  · rintro k b ⟨d, hd, hk1, hk2, rfl⟩
    rcases mem_append.mp hd with hd | hd
    · exact Or.inl ⟨d, hd, hk1, hk2, rfl⟩
    · obtain ⟨m, hm, hid, hrc, hsub⟩ := mem_dlqRows hd
      obtain rfl := mem_singleton.mp hm
      refine Or.inr ⟨?_, hrc⟩
      rw [hsub] at hk2
      exact Prod.ext (hk1.symm.trans hid) (Option.some.inj hk2).symm

theorem Wf.moveSubToDLQ (hw : Wf q s) : Wf q (moveSubToDLQ q env id sub reason state s) :=
  hw.delete rfl (Nat.le_add_right _ _)

/-! ## consume -/

theorem candidate_spec {o : Option Sub} (h : o.bind s.candidate = some c) :
    o = some c.sub ∧ s.tables.parentOf c.sub = some c.msg := by
  obtain ⟨x, hx, hc⟩ := Option.bind_eq_some_iff.mp h
  obtain ⟨m, hm, rfl⟩ := Option.map_eq_some_iff.mp hc
  exact ⟨hx, hm⟩

theorem pendingProbe_spec (h : pendingProbe env sub s = some c) :
    c.sub ∈ s.subs.rows ∧ c.sub.subscriberID = sub ∧ c.sub.status = .pending ∧
      c.sub.availableAt ≤ env.now := by
  obtain ⟨hc, -⟩ := candidate_spec h
  have hr := Table.mem_select.mp (mem_of_mem_head? hc)
  simp only [Bool.and_eq_true, decide_eq_true_eq] at hr
  exact ⟨hr.1, hr.2.1.1.1, hr.2.1.1.2, hr.2.1.2⟩

theorem reclaimProbe_spec (h : reclaimProbe env sub s = some c) :
    c.sub ∈ s.subs.rows ∧ c.sub.subscriberID = sub ∧ c.sub.timedOut env.now = true := by
  obtain ⟨hc, -⟩ := candidate_spec h
  have hr := Table.mem_select.mp (mem_of_mem_head? hc)
  simp only [Bool.and_eq_true, decide_eq_true_eq] at hr
  exact ⟨hr.1, hr.2.1.1, hr.2.1.2⟩

theorem fetched_of_fetch (skips : Nat)
    (h : fetchPendingTopicMessage q env sub vis skips s = .ok (m, s')) :
    Fetched q env sub vis s m s' := by
  induction skips generalizing s with
  | zero =>
    cases h
    exact .nothing
  | succ skips ih =>
    unfold fetchPendingTopicMessage at h
    cases hp : pendingProbe env sub s with
    | some c =>
      obtain ⟨hr, hsub, hst, hav⟩ := pendingProbe_spec hp
      rw [hp] at h
      cases h
      exact .pending hr hsub hst hav
    | none =>
      cases hq : reclaimProbe env sub s with
      | none =>
        rw [hp, hq] at h
        cases h
        exact .nothing
      | some c =>
        obtain ⟨hr, hsub, ht⟩ := reclaimProbe_spec hq
        rw [hp, hq] at h
        dsimp only at h
        rw [reclaimTopicAttempt, status_of_timedOut ht] at h
        by_cases hcap : c.sub.retryCount + 1 > q.resolveMaxRetries
        · rw [if_pos hcap] at h
          exact .buried hr hsub ht hcap (ih h)
        · rw [if_neg hcap] at h
          have hle := Nat.le_of_not_lt hcap
          by_cases hb : env.backoffConfigured = true
          · rw [if_pos hb] at h
            exact .deferred hr hsub ht hle (ih h)
          · rw [if_neg hb] at h
            cases h
            exact .reclaimed hr hsub ht hle

theorem fetched_of_consume (h : consumeFromTopic q env sub vis s = .ok (m, s')) :
    Fetched q env sub vis s m s' :=
  fetched_of_fetch _ (consumeFromTopic_ok h).2

theorem Wf.defer (hw : Wf q s) : Wf q (deferReclaimedSubscription env id n delay s) :=
  hw.update (Sub.key_defer _ _ _) (fun _ => rfl) rfl (Nat.le_refl _)

theorem moves_defer (hw : Wf q s) (hr : c.sub ∈ s.subs.rows) (ht : c.sub.timedOut env.now = true)
    (hcap : c.sub.retryCount + 1 ≤ q.resolveMaxRetries) :
    Moved q env s [] (deferReclaimedSubscription env c.sub.id (c.sub.retryCount + 1) delay s) := by
  show Moves _ _ _ _ (([] : List (Event UUID Time)).map fun e => (c.sub.key, e)) _
  exact moves_updateSub (Sub.key_defer _ _ _) hr (hw.id_iff hr) rfl rfl (Nat.le_refl _)
    ⟨_, Nat.le_refl _, .postpone (timedOut_iff.mp ht) hcap⟩

theorem moves_claim (hw : Wf q s) (hr : c.sub ∈ s.subs.rows) (hsub : c.sub.subscriberID = sub)
    (hs : Step q.gen.draw q.resolveMaxRetries env.now s.seq (some (c.sub.slot q))
      [.delivered (q.gen.draw s.seq) (env.now + vis)] []
      (some ((c.sub.slot q).lease (q.gen.draw s.seq) (env.now + vis) n)) (s.seq + 1)) :
    Moved q env s
      (deliveredEvents subKey (env.now + vis) (claimTopicSubscription q env sub vis c n s).1)
      (claimTopicSubscription q env sub vis c n s).2 := by
  rw [← hsub]
  show Moves _ _ _ _
    ([Event.delivered (q.gen.draw s.seq) (env.now + vis)].map fun e => (c.sub.key, e)) _
  exact moves_updateSub (Sub.key_claim _ _ _ _) hr (hw.id_iff hr) rfl rfl
    (Nat.le_succ _) ⟨_, Nat.le_refl _, hs⟩

variable (sub) in
theorem Wf.claim (hw : Wf q s) : Wf q (claimTopicSubscription q env sub vis c n s).2 :=
  hw.update (Sub.key_claim _ _ _ _) (fun _ => rfl) rfl (Nat.le_succ _)

theorem Wf.fetch (hw : Wf q s) (h : Fetched q env sub vis s m s') : Wf q s' := by
  induction h with
  | nothing => exact hw
  | pending | reclaimed => exact hw.claim sub
  | buried _ _ _ _ _ ih => exact ih hw.moveSubToDLQ
  | deferred _ _ _ _ _ ih => exact ih hw.defer

theorem moves_fetch (hw : Wf q s) (h : Fetched q env sub vis s m s') :
    Moved q env s (deliveredEvents subKey (env.now + vis) m) s' := by
  induction h with
  | nothing => exact Moves.refl _
  | pending hr hsub hst =>
    exact moves_claim hw hr hsub (.deliver (phaseOf_eq_pending.mpr hst) (Nat.le_refl _))
  | buried hr hsub ht hcap _ ih =>
    subst hsub
    exact (moves_moveSubToDLQ hr (.bury (timedOut_iff.mp ht) hcap)).trans (ih hw.moveSubToDLQ)
  | deferred hr _ ht hcap _ ih => exact (moves_defer hw hr ht hcap).trans (ih hw.defer)
  | reclaimed hr hsub ht hcap =>
    exact moves_claim hw hr hsub (.redeliver (timedOut_iff.mp ht) hcap (Nat.le_refl _))

/-! ## acknowledge -/

theorem moves_underClaim (hf : ∀ r, (f r).key = r.key) (hr : r ∈ s.subs.rows)
    (hu : r.underClaim x.messageID x.subscriberID x.claimID = true)
    (hs : Step q.gen.draw q.resolveMaxRetries env.now s.seq (some (r.slot q)) es []
      (some ((f r).slot q)) s.seq) :
    Moved q env s (es.map fun e => (subKey x, e)) (updateUnderClaim f hf x.subscriberID x s).2 := by
  have hid : r.key = subKey x := (underClaim_eq.mp hu).1
  rw [← hid]
  refine moves_updateSub hf hr ?_ rfl rfl (Nat.le_refl _) ⟨_, Nat.le_refl _, hs⟩
  intro y hy
  refine ⟨fun hy' => (underClaim_eq.mp hy').1.trans hid.symm, fun hy' => ?_⟩
  obtain rfl := Table.eq_of_key hy hr hy'
  exact hu

theorem exists_row_of_live (h : liveClaim s (subKey x) = some x.claimID) :
    ∃ r ∈ s.subs.rows, r.underClaim x.messageID x.subscriberID x.claimID = true ∧
      (r.slot q).HeldBy x.claimID := by
  obtain ⟨r, hr, hu⟩ := liveClaim_eq_some.mp h
  exact ⟨r, hr, hu, (underClaim_iff.mp hu).2⟩

theorem moves_ack (h : liveClaim s (subKey x) = some x.claimID) :
    Moved q env s (ackedEvents subKey [x])
      (updateUnderClaim (Sub.ack env.now) (Sub.key_ack env.now) x.subscriberID x s).2 := by
  obtain ⟨r, hr, hu, hh⟩ := exists_row_of_live (q := q) h
  exact moves_underClaim (Sub.key_ack env.now) hr hu (.ack hh)

theorem moves_extend {d : Duration} (hd : 0 < d) (h : liveClaim s (subKey x) = some x.claimID) :
    Moved q env s [(subKey x, .extended x.claimID (env.now + d))]
      (updateUnderClaim (Sub.extend env.now d) (Sub.key_extend env.now d) x.subscriberID x s).2 := by
  obtain ⟨r, hr, hu, hh⟩ := exists_row_of_live (q := q) h
  exact moves_underClaim (Sub.key_extend env.now d) hr hu
    (.extend hh (Int.lt_add_of_pos_right _ hd))

theorem moves_nack (hr : r ∈ s.subs.rows)
    (hu : r.underClaim x.messageID x.subscriberID x.claimID = true) :
    Moved q env s (nackedEvents subKey [x])
      (nackFound q env x.subscriberID x msg delay ⟨r.retryCount, payload, metadata⟩ s) := by
  obtain ⟨hid, hh⟩ := (underClaim_iff (q := q)).mp hu
  show Moves _ _ _ _ ([Event.nacked x.claimID].map fun e => ((x.messageID, x.subscriberID), e)) _
  unfold nackFound
  rw [← hid, show x.messageID = r.messageID from (congrArg Prod.fst hid).symm,
    show x.subscriberID = r.subscriberID from (congrArg Prod.snd hid).symm]
  split
  · rename_i hcap
    exact moves_moveSubToDLQ hr (.nackLast hh hcap)
  · rename_i hcap
    exact moves_updateSub (Sub.key_retry _ _ _) hr (fun _ _ => decide_eq_true_iff) rfl rfl
      (Nat.le_refl _) ⟨_, Nat.le_refl _, .nack hh (Nat.le_of_not_lt hcap)⟩

theorem Wf.nackFound (hw : Wf q s) : Wf q (nackFound q env sub x msg delay state s) := by
  unfold Topic.nackFound
  split
  · exact hw.moveSubToDLQ
  · exact hw.update (Sub.key_retry _ _ _) (fun _ => rfl) rfl (Nat.le_refl _)

theorem Wf.processNackTopicBatch (hw : Wf q s) {states : List Candidate} :
    Wf q (processNackTopicBatch q env sub states msg delay s) := by
  refine Wf.delete (s := batchRetrySubscriptions env _ sub msg s) ?_ rfl (Nat.le_add_right _ _)
  exact hw.update (fun r => Sub.key_retry env.now _ msg r) (fun _ => rfl) rfl (Nat.le_refl _)

/-! ## acknowledge a group: its receipts are all of one subscriber -/

section
variable {rs : List Receipt} (hn : (rs.map fun r => (r.messageID, r.claimID)).Nodup)
  (hall : ∀ x ∈ rs, x.subscriberID = sub)
include hn hall

omit hn in
theorem live_key {x : Receipt} (hx : x ∈ rs) :
    live s sub x = true ↔ liveClaim s (subKey x) = some x.claimID := by
  rw [live_iff, ← hall x hx]
  rfl

omit hall in
theorem nodup_subKey : (rs.map fun r => (subKey r, r.claimID)).Nodup := by
  refine Nodup.of_map (fun p : (UUID × String) × UUID => (p.1.1, p.2)) ?_
  rwa [map_map]

theorem about_hit (ev : UUID → Event UUID Time) (hr : r ∈ s.subs.rows) (hh : hit sub rs r = true) :
    ∃ c, (r.slot q).HeldBy c ∧
      about r.key ((rs.filter (live s sub)).map fun x => (subKey x, ev x.claimID)) = [ev c] := by
  obtain ⟨x, hx, hu⟩ := hit_iff.mp hh
  obtain ⟨hid, hheld⟩ := (underClaim_iff (q := q)).mp hu
  refine ⟨x.claimID, hheld, ?_⟩
  have hk : r.key = subKey x := by
    rw [hid, subKey, hall x hx]
  rw [hk]
  exact about_live (liveClaim s) (fun x hx => live_key hall hx) (nodup_subKey hn) hx
    (live_iff.mpr (liveClaim_of_underClaim hr hu))

omit hn in
theorem about_not_hit {ev : UUID → Event UUID Time} {k : UUID × String}
    (hk : ∀ r ∈ s.subs.rows, r.key = k → hit sub rs r = false) :
    about k ((rs.filter (live s sub)).map fun x => (subKey x, ev x.claimID)) = [] := by
  refine about_not_live fun x hx hl he => ?_
  obtain ⟨r, hr, hu⟩ := liveClaim_eq_some.mp (live_iff.mp hl)
  have hid : r.key = k := by
    rw [(underClaim_eq.mp hu).1, ← he, subKey, hall x hx]
  exact absurd (hit_iff.mpr ⟨x, hx, hu⟩) (by rw [hk r hr hid]; decide)

theorem moves_ackAll :
    Moved q env s (ackedEvents subKey (rs.filter (live s sub))) (ackAll env sub rs s) := by
  refine Moves.of_update (Sub.key_ack env.now) (t := s.subs) rfl rfl (fun _ _ h => h)
    (Nat.le_refl _) ?_ ?_
  · intro r hr hh
    obtain ⟨c, hheld, he⟩ := about_hit (q := q) hn hall Event.acked hr hh
    exact ⟨_, Nat.le_refl _, he ▸ .ack hheld⟩
  · exact fun k hk => about_not_hit hall hk

theorem moves_nackAll {msg : Bytes} {delay : Duration} :
    Moved q env s (nackedEvents subKey (rs.filter (live s sub)))
      (processNackTopicBatch q env sub (fetchBatchSubStates rs sub s) msg delay s) := by
  refine Moves.of_rewrite (t := s.subs)
    (g := fun r => if hit sub rs r then nackSub q env msg delay r else some r)
    (d := fun r => if hit sub rs r && decide (r.retryCount + 1 > q.resolveMaxRetries)
      then [r.retryCount + 1] else [])
    rfl ?_ (Nat.le_add_right _ _) ?_ ?_ ?_ ?_
  · intro k
    show ((processNackTopicBatch q env sub _ msg delay s).subs.find? k).map _ = _
    rw [Table.find?_filterMap _ rows_processNackTopicBatch]
    intro r r' hg
    split at hg
    · exact key_nackSub hg
    · exact congrArg Sub.key (Option.some.inj hg).symm
  · rintro k a ⟨d, hd, hk1, hk2, rfl⟩
    rcases mem_append.mp hd with hd | hd
    · exact Or.inl ⟨d, hd, hk1, hk2, rfl⟩
    · obtain ⟨m, hmem, hid, hrc, hsub⟩ := mem_dlqRows hd
      obtain ⟨c, hc, rfl⟩ := mem_map.mp hmem
      obtain ⟨hc, hx⟩ := mem_filter.mp hc
      obtain ⟨hrow, hh, -⟩ := mem_fetchBatchSubStates.mp hc
      refine Or.inr ⟨c.sub, hrow, ?_, ?_⟩
      · rw [hsub] at hk2
        exact Prod.ext (hid.symm.trans hk1)
          ((subscriberID_of_hit hh).trans (Option.some.inj hk2))
      · rw [if_pos (by rw [hh, hx]; rfl), hrc]
        exact mem_cons_self
  · intro r hr
    by_cases hh : hit sub rs r = true
    · obtain ⟨c, hheld, he⟩ := about_hit (q := q) hn hall Event.nacked hr hh
      refine Or.inr ⟨_, Nat.le_add_right _ _, ?_⟩
      rw [if_pos hh, hh, Bool.true_and, nackSub, nackedEvents, he]
      by_cases hc : r.retryCount + 1 > q.resolveMaxRetries
      · rw [if_pos hc, if_pos (decide_eq_true hc)]
        exact .nackLast hheld hc
      · rw [if_neg hc, if_neg (by simpa using hc)]
        exact .nack hheld (Nat.le_of_not_lt hc)
    · rw [if_neg hh]
      refine Or.inl ⟨rfl, about_not_hit hall fun r' hr' he => ?_⟩
      rw [Table.eq_of_key hr' hr he]
      exact Bool.eq_false_iff.mpr hh
  · exact fun k hk => about_not_hit hall fun r hr he => absurd he (Table.find?_eq_none.mp hk r hr)
  · intro r hr hg
    by_cases hd : (hit sub rs r && decide (r.retryCount + 1 > q.resolveMaxRetries)) = true
    · rw [Bool.and_eq_true, decide_eq_true_eq] at hd
      rw [if_pos hd.1, nackSub, if_pos hd.2] at hg
      cases hg
    · exact if_neg hd

end

/-! ## publish -/

theorem insertSubscriptionRecords_spec (h : insertSubscriptionRecords q env records s = .ok s') :
    s'.subs = s.subs.insertAll (subRows q.gen s.seq env.now records) ∧ s'.msgs = s.msgs ∧
      s'.subscribers = s.subscribers ∧ s'.dlq = s.dlq ∧ s'.replayLog = s.replayLog ∧
      s'.seq = s.seq + records.length := by
  unfold insertSubscriptionRecords at h
  split at h
  · cases h
  · rename_i tables ht
    obtain ⟨hp, hc⟩ := Linked.insertChildren_eq_some ht
    cases h
    exact ⟨hc, hp, rfl, rfl, rfl, rfl⟩

theorem fanOut_spec (h : batchCreateSubscriptionRecords q env ids s = .ok s') :
    ∃ active, getActiveSubscribers env s = .ok active ∧
      insertSubscriptionRecords q env
        (ids.flatMap fun id => active.map fun subscriberID => (id, subscriberID)) s = .ok s' := by
  unfold batchCreateSubscriptionRecords at h
  split at h
  · cases h
  · rename_i active ha
    exact ⟨active, ha, h⟩

theorem publishToPubSub_spec {m : PublishMessage} (h : publishToPubSub q env m s = .ok s') :
    s.msgs.find? m.id = none ∧ batchCreateSubscriptionRecords q env [m.id]
      { s with tables := s.tables.insertParents [newMessage env m] } = .ok s' := by
  unfold publishToPubSub at h
  split at h
  · cases h
  · rename_i hnone
    exact ⟨Option.not_isSome_iff_eq_none.mp hnone, h⟩

theorem publishBatchToPubSub_spec {ms : List PublishMessage}
    (h : publishBatchToPubSub q env ms s = .ok s') :
    (ms = [] ∧ s' = s) ∨
      s.msgs.rows.length + ms.length ≤
          (s.msgs.insertAll (ms.map (newMessage env))).rows.length ∧
        batchCreateSubscriptionRecords q env (ms.map PublishMessage.id)
          { s with tables := s.tables.insertParents (ms.map (newMessage env)) } = .ok s' := by
  unfold publishBatchToPubSub at h
  split at h
  · rename_i hnil
    cases h
    exact Or.inl ⟨hnil, rfl⟩
  · split at h
    · cases h
    · dsimp only at h
      split at h
      · cases h
      · rename_i hlen
        exact Or.inr ⟨Nat.le_of_not_lt hlen, h⟩

theorem moves_created (hs' : s'.subs = s.subs.insertAll (subRows q.gen s.seq env.now records))
    (hd : ∀ d ∈ s'.dlq, d ∈ s.dlq) (hn : s.seq ≤ s'.seq) :
    Moved q env s (publishedEvents (s.created s')) s' := by
  have hev : publishedEvents (s.created s') =
      (s'.subs.rows.filter fun r => (s.subs.find? r.key).isNone).map
        fun r => (r.key, Event.published) := by
    unfold publishedEvents State.created
    rw [map_map]
    rfl
  rw [hev, hs']
  refine Moves.of_created (t := s.subs) rfl (congrArg (slots (Sub.slot q)) hs') ?_ hn ?_
  · rintro k a ⟨d, hmem, hk⟩
    exact ⟨d, hd d hmem, hk⟩
  · intro r hr
    obtain ⟨i, -, -, k, -, rfl⟩ := mem_subRows hr
    exact slot_newSub _ _ _

theorem moves_fanOut {ms : List MessageRow} (hw : Wf q s)
    (h : batchCreateSubscriptionRecords q env ids { s with tables := s.tables.insertParents ms } =
      .ok s') : Wf q s' ∧ Moved q env s (publishedEvents (s.created s')) s' := by
  obtain ⟨active, -, hi⟩ := fanOut_spec h
  obtain ⟨hsubs, -, -, hd, -, hseq⟩ := insertSubscriptionRecords_spec hi
  exact ⟨hw.insert hsubs (Nat.le_of_eq hseq.symm),
    moves_created hsubs (fun d hmem => hd ▸ hmem) (by rw [hseq]; exact Nat.le_add_right _ _)⟩

theorem created_self : s.created s = [] := by
  unfold State.created
  rw [filter_eq_nil_iff.mpr]
  · rfl
  · intro r hr
    rw [Table.find?_of_mem hr]
    exact Bool.false_ne_true

/-! ## garbage collection -/

theorem listed_iff {page : List Sub} (hw : Wf q s) (hsub : ∀ x ∈ page, x ∈ s.subs.rows)
    (hr : r ∈ s.subs.rows) : listed page r = true ↔ r ∈ page := by
  unfold listed
  rw [any_eq_true]
  constructor
  · rintro ⟨x, hx, he⟩
    exact hw.eq_of_id (hsub x hx) hr (of_decide_eq_true he) ▸ hx
  · exact fun h => ⟨r, h, decide_eq_true rfl⟩

theorem mem_pageOf (h : r ∈ pageOf p s) : r ∈ s.subs.rows ∧ p r = true :=
  Table.mem_select.mp (mem_of_mem_take h)

theorem listed_pageOf (hw : Wf q s) (hr : r ∈ s.subs.rows) (h : listed (pageOf p s) r = true) :
    p r = true :=
  (mem_pageOf ((listed_iff hw (fun _ hx => (mem_pageOf hx).1) hr).mp h)).2

theorem mem_moveSubToDLQ {c x : Sub} (hx : x ∈ s.subs.rows) (hne : x.key ≠ c.key) :
    x ∈ (moveSubToDLQ q env c.messageID c.subscriberID reason state s).subs.rows := by
  refine mem_filter.mpr ⟨hx, ?_⟩
  simp only [any_cons, any_nil, Bool.or_false, Bool.not_eq_true', Bool.and_eq_false_iff,
    decide_eq_false_iff_not]
  by_contra hcon
  rw [not_or, not_not, not_not] at hcon
  exact hne (Prod.ext hcon.1.symm hcon.2)

theorem moves_promote (batch : List Candidate) (hnd : (batch.map fun c => c.sub.key).Nodup)
    (hb : ∀ c ∈ batch, c.sub ∈ s.subs.rows ∧ c.sub.timedOut env.now = true ∧
      q.resolveMaxRetries ≤ c.sub.retryCount) (hw : Wf q s) :
    let s' := batch.foldl (fun s e => moveSubToDLQ q env e.sub.messageID e.sub.subscriberID
      errReasonVisibilityTimeout ⟨e.sub.retryCount, e.msg.payload, e.msg.metadata⟩ s) s
    Wf q s' ∧ Moved q env s [] s' := by
  induction batch generalizing s with
  | nil => exact ⟨hw, Moves.refl _⟩
  | cons c batch ih =>
    obtain ⟨hr, ht, hc⟩ := hb c mem_cons_self
    rw [map_cons, nodup_cons] at hnd
    have hb' : ∀ c' ∈ batch, c'.sub ∈ (moveSubToDLQ q env c.sub.messageID c.sub.subscriberID
        errReasonVisibilityTimeout ⟨c.sub.retryCount, c.msg.payload, c.msg.metadata⟩ s).subs.rows ∧
        c'.sub.timedOut env.now = true ∧ q.resolveMaxRetries ≤ c'.sub.retryCount := by
      intro c' hc'
      obtain ⟨hr', ht', hcap⟩ := hb c' (mem_cons_of_mem _ hc')
      refine ⟨mem_moveSubToDLQ hr' fun he => hnd.1 ?_, ht', hcap⟩
      exact he ▸ mem_map.mpr ⟨c', hc', rfl⟩
    obtain ⟨hw', hms⟩ := ih hnd.2 hb' hw.moveSubToDLQ
    exact ⟨hw', (moves_moveSubToDLQ hr (.bury (timedOut_iff.mp ht) (Nat.lt_succ_of_le hc))).trans hms⟩

theorem map_sub_candidates (s : State) (l : List Sub) :
    ((l.filterMap s.candidate).map Candidate.sub).Sublist l := by
  induction l with
  | nil => exact Sublist.slnil
  | cons r l ih =>
    cases hc : s.candidate r with
    | none =>
      rw [filterMap_cons_none hc]
      exact ih.cons r
    | some c =>
      obtain ⟨m, -, rfl⟩ := Option.map_eq_some_iff.mp hc
      rw [filterMap_cons_some hc, map_cons]
      exact ih.cons_cons r

theorem mem_scanExhausted (hc : c ∈ scanExhaustedTopicSubscriptions q env s) :
    c.sub ∈ s.subs.rows ∧ c.sub.timedOut env.now = true ∧
      q.resolveMaxRetries ≤ c.sub.retryCount := by
  obtain ⟨x, hx, hcand⟩ := mem_filterMap.mp (mem_of_mem_take hc)
  obtain ⟨m, -, rfl⟩ := Option.map_eq_some_iff.mp hcand
  obtain ⟨hx, hp⟩ := Table.mem_select.mp hx
  rw [Bool.and_eq_true, decide_eq_true_eq] at hp
  exact ⟨hx, hp⟩

theorem nodup_scanExhausted :
    ((scanExhaustedTopicSubscriptions q env s).map fun c => c.sub.key).Nodup := by
  have hnd := (((map_sub_candidates s _).map Sub.key).nodup
    (Table.nodup_select s.subs
      (fun r => r.timedOut env.now && decide (r.retryCount ≥ q.resolveMaxRetries))
      (fun a b => a.id ≤ b.id)))
  rw [map_map] at hnd
  exact ((take_sublist _ _).map _).nodup hnd

theorem moves_promotePage (hw : Wf q s) :
    Wf q (promoteExhaustedTopicPage q env s).2 ∧
      Moved q env s [] (promoteExhaustedTopicPage q env s).2 :=
  moves_promote _ nodup_scanExhausted (fun _ => mem_scanExhausted) hw

theorem moves_resetPage (hw : Wf q s) :
    Wf q (resetTimedOutPage q env s).2 ∧
      Moved q env s [] (resetTimedOutPage q env s).2 := by
  refine ⟨hw.update Sub.key_reset (fun _ => rfl) rfl (Nat.le_refl _), ?_⟩
  refine Moves.of_update Sub.key_reset (t := s.subs) rfl rfl (fun _ _ h => h) (Nat.le_refl _) ?_
    (fun _ _ => rfl)
  intro r hr hl
  have hp := listed_pageOf hw hr hl
  rw [Bool.and_eq_true, decide_eq_true_eq] at hp
  exact ⟨_, Nat.le_refl _, .postpone (timedOut_iff.mp hp.1) hp.2⟩

theorem moves_purgeSubs (hw : Wf q s) (hp : ∀ r ∈ s.subs.rows, p r = true → ¬ (r.slot q).Live env.now) :
    Wf q (purgeSubsPage p s).2 ∧
      Moved q env s [] (purgeSubsPage p s).2 := by
  refine ⟨hw.delete rfl (Nat.le_refl _), ?_⟩
  refine Moves.of_drop (t := s.subs) rfl rfl (fun _ _ h => h) (Nat.le_refl _) ?_
  exact fun r hr hl => hp r hr (listed_pageOf hw hr hl)

theorem of_parentIs_page {p : MessageRow → Bool}
    (h : s.tables.parentIs (fun m => (((s.msgs.select p (fun a b => a.id ≤ b.id)).take n).any
      fun x => decide (x.id = m.id))) r = true) :
    ∃ m, s.tables.parentOf r = some m ∧ m ∈ s.msgs.rows ∧ p m = true := by
  unfold Linked.parentIs at h
  obtain ⟨m, hm, hany⟩ := (Option.any_eq_true _ _).mp h
  obtain ⟨x, hx, he⟩ := any_eq_true.mp hany
  obtain ⟨hx, hpx⟩ := Table.mem_select.mp (mem_of_mem_take hx)
  have hmem := Table.mem_of_find? hm
  have hxm := Table.eq_of_key hx hmem (of_decide_eq_true he)
  exact ⟨m, hm, hmem, hxm ▸ hpx⟩

theorem moves_purgeMessages (hw : Wf q s) {p : MessageRow → Bool}
    (hp : ∀ r ∈ s.subs.rows, ∀ m, r.messageID = m.id → p m = true → ¬ (r.slot q).Live env.now) :
    Wf q (purgeMessagesPage p s).2 ∧
      Moved q env s [] (purgeMessagesPage p s).2 := by
  refine ⟨hw.delete rfl (Nat.le_refl _), ?_⟩
  refine Moves.of_drop (t := s.subs) rfl rfl (fun _ _ h => h) (Nat.le_refl _) ?_
  intro r hr hl
  obtain ⟨m, hm, -, hpm⟩ := of_parentIs_page hl
  exact hp r hr m (Table.key_of_find? hm).symm hpm

theorem moves_purgeCompleted (hw : Wf q s) {ttl : Duration} :
    Wf q (purgeCompletedPage env ttl s).2 ∧
      Moved q env s [] (purgeCompletedPage env ttl s).2 := by
  unfold purgeCompletedPage
  split
  · refine moves_purgeMessages hw fun r hr m he hp => not_live_of_status fun hst => ?_
    simp only [Bool.and_eq_true, Bool.not_eq_true', any_eq_false, decide_eq_true_eq] at hp
    exact hp.1.2 r hr ⟨he, by rw [hst]; decide⟩
  · exact ⟨hw, Moves.refl _⟩

theorem moves_reclaimOrphans (hw : Wf q s) :
    Wf q (reclaimOrphanTopicMessagesPage s).2 ∧
      Moved q env s [] (reclaimOrphanTopicMessagesPage s).2 := by
  refine moves_purgeMessages hw fun r hr m he hp => ?_
  simp only [Bool.and_eq_true, Bool.not_eq_true', any_eq_false, decide_eq_true_eq] at hp
  exact absurd he (hp.1 r hr)

theorem moves_purgeOldPending (hw : Wf q s) {maxAge : Duration} :
    Wf q (purgeOldPendingPage env maxAge s).2 ∧
      Moved q env s [] (purgeOldPendingPage env maxAge s).2 := by
  unfold purgeOldPendingPage
  split
  · refine moves_purgeSubs hw fun r hr hp => not_live_of_status ?_
    rw [Bool.and_eq_true, decide_eq_true_eq] at hp
    rw [hp.1]
    decide
  · exact ⟨hw, Moves.refl _⟩

theorem moves_purgeInactive (hw : Wf q s) :
    Wf q (purgeInactiveSubscriptionsPage env s).2 ∧
      Moved q env s [] (purgeInactiveSubscriptionsPage env s).2 := by
  refine moves_purgeSubs hw fun r hr hp => not_live_of_inFlight ?_
  rw [Bool.and_eq_true, Bool.not_eq_true'] at hp
  exact hp.2

theorem moves_purgeDLQ {retention : Duration} :
    Moved q env s [] (purgeDLQPage env retention s).2 := by
  refine Moves.of_same (fun _ => rfl) ?_ (Nat.le_refl _)
  rintro k a ⟨d, hd, hk⟩
  exact ⟨d, (purgeDLQRows_sublist env retention s.dlq).subset hd, hk⟩

/-! ## replay and purge -/

theorem moves_writeReplayLog {es : History (UUID × String)} (h : Moved q env s es s') :
    Moved q env s es (writeReplayLog q env op n performedBy s') := by
  have hlog : Moved q env s' [] (writeReplayLog q env op n performedBy s') :=
    Moves.of_same (fun _ => rfl) (fun _ _ h => h) (Nat.le_succ _)
  have := h.trans hlog
  rwa [append_nil] at this

theorem Wf.writeReplayLog (hw : Wf q s) : Wf q (writeReplayLog q env op n performedBy s) :=
  hw.same rfl (Nat.le_succ _)

theorem moves_applyReplayFrom (ids : List UUID) :
    Moved q env s (replayedEvents (applyReplayFrom ids s).1) (applyReplayFrom ids s).2 := by
  have hev : replayedEvents (applyReplayFrom ids s).1 =
      (s.subs.rows.filter fun r => ids.contains r.id && r.settled).map
        fun r => (r.key, Event.replayed) := by
    unfold replayedEvents applyReplayFrom
    rw [map_map]
    rfl
  rw [hev]
  refine Moves.of_replay Sub.key_replay (t := s.subs) rfl rfl (fun _ _ h => h) (Nat.le_refl _)
    (fun _ => rfl) ?_
  intro r hr hp
  rw [Bool.and_eq_true] at hp
  exact settled_iff hp.2

theorem moves_replayFrom (hw : Wf q s) {since : Time} {limit : Nat} :
    Wf q (replayFromPage q env since afterID limit performedBy s).2 ∧
      Moved q env s
        (replayedEvents (replayFromPage q env since afterID limit performedBy s).1.reinstated)
        (replayFromPage q env since afterID limit performedBy s).2 := by
  have hw' : Wf q (applyReplayFrom (fetchReplayCandidateIDs since afterID limit s) s).2 :=
    hw.update Sub.key_replay (fun _ => rfl) rfl (Nat.le_refl _)
  have h := @moves_applyReplayFrom q env s (fetchReplayCandidateIDs since afterID limit s)
  unfold replayFromPage
  dsimp only
  split
  · exact ⟨hw', h⟩
  · exact ⟨hw'.writeReplayLog, moves_writeReplayLog h⟩

theorem reinsertDLQPubSub_spec (h : reinsertDLQPubSub q env ds s = .ok (n, s')) :
    ∃ records replayed s₁,
      resolvePubSubDLQRecords env (filterExistingMessages ds s) s = .ok (records, replayed) ∧
      insertSubscriptionRecords q env records s = .ok s₁ ∧ n = replayed.length ∧
      s' = { s₁ with dlq := s.dlq.filter fun d => !replayed.any fun x => decide (x.id = d.id) } := by
  unfold reinsertDLQPubSub at h
  split at h
  · cases h
  · rename_i records replayed hres
    split at h
    · cases h
    · rename_i s₁ hins
      cases h
      exact ⟨records, replayed, s₁, hres, hins, rfl, rfl⟩

theorem moves_reinsertDLQ (hw : Wf q s) (h : reinsertDLQPubSub q env ds s = .ok (n, s')) :
    Wf q s' ∧ Moved q env s (publishedEvents (s.created s')) s' := by
  obtain ⟨records, replayed, s₁, -, hins, -, rfl⟩ := reinsertDLQPubSub_spec h
  obtain ⟨hsubs, -, -, -, -, hseq⟩ := insertSubscriptionRecords_spec hins
  exact ⟨hw.insert hsubs (Nat.le_of_eq hseq.symm), moves_created hsubs
    (fun d hd => (mem_filter.mp hd).1) (by show s.seq ≤ s₁.seq; omega)⟩

theorem moves_replayDLQ (hw : Wf q s) {limit : Nat} {dryRun : Bool} {page : ReplayPage (UUID × String)}
    (h : replayDLQPage q env afterID limit performedBy dryRun s = .ok (page, s')) :
    Wf q s' ∧ Moved q env s (if dryRun then [] else publishedEvents page.reinstated) s' := by
  unfold replayDLQPage at h
  dsimp only at h
  split at h
  · cases h
  · rename_i n s₁ hre
    obtain ⟨hw', hm⟩ := moves_reinsertDLQ hw hre
    cases dryRun with
    | true =>
      cases h
      exact ⟨hw, Moves.refl _⟩
    | false =>
      cases h
      rw [if_neg Bool.false_ne_true, if_neg Bool.false_ne_true]
      split
      · exact ⟨hw', hm⟩
      · exact ⟨hw'.writeReplayLog, moves_writeReplayLog hm⟩

theorem moves_purge :
    Moved q env s (wipedEvents (s.subs.rows.map Sub.key)) (executePurge s) := by
  have hev : wipedEvents (s.subs.rows.map Sub.key) =
      s.subs.rows.map fun r => (r.key, Event.wiped) := by
    rw [wipedEvents, map_map]
    rfl
  rw [hev]
  refine Moves.of_wipe (t := s.subs) rfl rfl ?_ (Nat.le_refl _)
  rintro k a ⟨d, hd, -⟩
  cases hd

theorem Wf.purge (hw : Wf q s) : Wf q (executePurge s) :=
  hw.of_sublist (nil_sublist _) (Nat.le_refl _)

/-! ## transactions and runs -/

theorem subscriberID_of_group {rs : List Receipt} {k : ReceiptGroupKey} (h : x ∈ receiptGroup rs k) :
    x.subscriberID = k.subscriberID := by
  have hk : x.groupKey = k := of_decide_eq_true (mem_filter.mp h).2
  exact congrArg ReceiptGroupKey.subscriberID hk

theorem step_moves (op : Op) (hw : Wf q s) :
    Wf q (step q env s op).1 ∧
      Moved q env s (step q env s op).2 (step q env s op).1 := by
  let P := fun x : State × History (UUID × String) => Wf q x.1 ∧
    Moved q env s x.2 x.1
  have h0 : P (s, []) := ⟨hw, Moves.refl _⟩
  cases op with
  | subscribe subscriberID =>
    refine commit'_cases P h0 fun s' h => ?_
    obtain ⟨-, rfl⟩ := registerSubscriber_ok h
    exact ⟨hw.same rfl (Nat.le_refl _), Moves.refl _⟩
  | unsubscribe subscriberID =>
    refine commit'_cases P h0 fun s' h => ?_
    obtain rfl := unregisterSubscriber_ok h
    exact ⟨hw.same rfl (Nat.le_refl _), Moves.refl _⟩
  | publish m =>
    exact commitCreated_cases P h0 fun s' h => moves_fanOut hw (publishToPubSub_spec h).2
  | publishBatch ms =>
    refine commitCreated_cases P h0 fun s' h => ?_
    rcases publishBatchToPubSub_spec h with ⟨-, rfl⟩ | ⟨-, h⟩
    · refine ⟨hw, ?_⟩
      rw [created_self]
      exact Moves.refl _
    · exact moves_fanOut hw h
  | receive subscriberID vis =>
    refine commit_cases P h0 fun m s' h => ?_
    have hf := fetched_of_consume h
    exact ⟨hw.fetch hf, moves_fetch hw hf⟩
  | ack r =>
    refine commit'_cases P h0 fun s' h => ?_
    have hv := (ackTopic_ok h).1
    by_cases hl : liveClaim s (subKey r) = some r.claimID
    · rw [ackTopic_hit hv hl] at h
      cases h
      exact ⟨hw.update (Sub.key_ack _) (fun _ => rfl) rfl (Nat.le_refl _), moves_ack hl⟩
    · rw [ackTopic_miss hv hl] at h
      cases h
  | nack r reason delay =>
    refine commit'_cases P h0 fun s' h => ?_
    have hv := (nackTopicImpl_ok h).1
    by_cases hl : liveClaim s (subKey r) = some r.claimID
    · obtain ⟨row, hr, hu⟩ := liveClaim_eq_some.mp hl
      obtain ⟨m, hm⟩ := s.tables.exists_parentOf hr
      rw [nackTopicImpl_hit hv hr hu hm] at h
      cases h
      exact ⟨hw.nackFound, moves_nack hr hu⟩
    · rw [nackTopicImpl_miss hv hl] at h
      cases h
  | extend r d =>
    refine commit'_cases P h0 fun s' h => ?_
    obtain ⟨hd, hv, -⟩ := extendTopicVisibility_ok h
    by_cases hl : liveClaim s (subKey r) = some r.claimID
    · rw [extendTopicVisibility_hit hv hd hl] at h
      cases h
      exact ⟨hw.update (Sub.key_extend _ _) (fun _ => rfl) rfl (Nat.le_refl _),
        moves_extend (pos_of_validateVisibilityTimeout hd) hl⟩
    · rw [extendTopicVisibility_miss hv hd hl] at h
      cases h
  | ackBatch rs k =>
    refine commit_cases P h0 fun res s' h => ?_
    obtain ⟨hv, hsize, -⟩ := ackTopicBatch_ok h
    rw [ackTopicBatch_eq hv hsize] at h
    cases h
    exact ⟨hw.update (Sub.key_ack _) (fun _ => rfl) rfl (Nat.le_refl _),
      moves_ackAll (nodup_receiptGroup rs k) fun _ => subscriberID_of_group⟩
  | nackBatch rs k reason delay =>
    refine commit_cases P h0 fun res s' h => ?_
    obtain ⟨hv, hsize, -⟩ := nackTopicBatch_ok h
    rw [nackTopicBatch_eq hv hsize] at h
    cases h
    exact ⟨hw.processNackTopicBatch,
      moves_nackAll (nodup_receiptGroup rs k) fun _ => subscriberID_of_group⟩
  | promotePage => exact moves_promotePage hw
  | resetPage => exact moves_resetPage hw
  | purgeCompleted ttl => exact moves_purgeCompleted hw
  | purgeOldPending maxAge => exact moves_purgeOldPending hw
  | purgeDLQ retention => exact ⟨hw.same rfl (Nat.le_refl _), moves_purgeDLQ⟩
  | purgeInactive => exact moves_purgeInactive hw
  | reclaimOrphans => exact moves_reclaimOrphans hw
  | replayFrom since afterID limit performedBy => exact moves_replayFrom hw
  | replayDLQ afterID limit performedBy dryRun =>
    exact commit_cases P h0 fun page s' h => moves_replayDLQ hw h
  | purgeQueue => exact ⟨hw.purge, moves_purge⟩
  | deleteTopic => exact ⟨hw.purge.same rfl (Nat.le_refl _), moves_purge⟩

theorem step_minted (op : Op) : (minted (step q env s op).2).length ≤ 1 := by
  cases op with
  | receive subscriberID vis => exact minted_commit (minted_delivered _ _)
  | ackBatch | nackBatch => exact minted_commit fun res => by simp
  | subscribe | unsubscribe | extend => exact minted_commit' (Nat.zero_le _)
  | publish | publishBatch =>
    exact commitCreated_cases (fun x => (minted x.2).length ≤ 1) (Nat.zero_le _)
      fun _ _ => by simp
  | ack | nack => exact minted_commit' (by simp)
  | replayFrom | purgeQueue | deleteTopic => simp [step]
  | replayDLQ afterID limit performedBy dryRun =>
    exact minted_commit fun page => by cases dryRun <;> simp
  | _ => exact Nat.zero_le _

/-- **every transaction of a topic is a transaction of leases** -/
theorem step_txn (op : Op) (hw : Wf q s) :
    Txn q.gen.draw q.resolveMaxRetries env.now (lease q s) (step q env s op).2
      (lease q (step q env s op).1) :=
  ⟨(step_moves op hw).2, step_minted op⟩

theorem Reach.wf {t : Time} (hr : Reach q s h t) : Wf q s := by
  induction hr with
  | init t => exact (⟨nodup_nil, nofun⟩ : Drawn q.gen 0 [])
  | next hr env op ht ih => exact (step_moves op ih).1

/-- **every run of a topic is a run of leases** -/
theorem Reach.run {t : Time} (hr : Reach q s h t) :
    Run q.gen.draw q.resolveMaxRetries (lease q s) h t := by
  induction hr with
  | init t =>
    refine Run.init _ t (fun _ => rfl) ?_
    rintro k a ⟨d, hd, -⟩
    cases hd
  | next hr env op ht ih => exact Run.next ih ht (step_txn op hr.wf)

end
end PgQueue.Topic
