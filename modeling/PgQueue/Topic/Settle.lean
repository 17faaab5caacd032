import PgQueue.Topic.Maintenance

/-!
# The topic: what an acknowledgement does

`liveClaim s k` is the claim under which the subscription `k` is being processed.  As for a
channel, an ack, a nack or an extension depends on whether the receipt's claim is that claim:
`ackTopic_hit`, `nackTopicImpl_hit`, `extendTopicVisibility_hit` and the three `_miss` lemmas say
what happens for one receipt, `ackTopicBatch_eq` and `nackTopicBatch_eq` for a group.
-/

namespace PgQueue.Topic
open Relational List

def liveClaim (s : State) (k : UUID × String) : Option UUID :=
  (s.subs.find? k).bind fun r => if r.status = .processing then r.claimID else none

section
variable {q : Queue} {env : Env} {s : State} {row : Sub} {r : Receipt} {sub : String} {id c : UUID}
  {f : Sub → Sub} {hf : ∀ r, (f r).key = r.key} {msg : Bytes} {delay : Duration}

theorem underClaim_eq :
    row.underClaim id sub c = true ↔
      row.key = (id, sub) ∧ row.claimID = some c ∧ row.status = .processing := by
  unfold Sub.underClaim Sub.key
  simp only [Bool.and_eq_true, decide_eq_true_eq, and_assoc, Prod.mk.injEq]

theorem liveClaim_eq_some :
    liveClaim s (id, sub) = some c ↔ ∃ row ∈ s.subs.rows, row.underClaim id sub c = true := by
  unfold liveClaim
  rw [Option.bind_eq_some_iff]
  constructor
  · rintro ⟨row, hf, hc⟩
    obtain ⟨hmem, hid⟩ := Table.find?_eq_some.mp hf
    by_cases hp : row.status = .processing
    · rw [if_pos hp] at hc
      exact ⟨row, hmem, underClaim_eq.mpr ⟨hid, hc, hp⟩⟩
    · rw [if_neg hp] at hc
      cases hc
  · rintro ⟨row, hmem, hu⟩
    obtain ⟨hid, hc, hp⟩ := underClaim_eq.mp hu
    exact ⟨row, Table.find?_eq_some.mpr ⟨hmem, hid⟩, by rw [if_pos hp, hc]⟩

theorem liveClaim_of_underClaim (hr : row ∈ s.subs.rows) (hu : row.underClaim id sub c = true) :
    liveClaim s (id, sub) = some c :=
  liveClaim_eq_some.mpr ⟨row, hr, hu⟩

theorem any_underClaim (s : State) (id c : UUID) :
    (s.subs.rows.any fun row => row.underClaim id sub c) =
      decide (liveClaim s (id, sub) = some c) := by
  rw [Bool.eq_iff_iff, any_eq_true, decide_eq_true_eq, liveClaim_eq_some]

theorem underClaim_of_not_live (h : liveClaim s (id, sub) ≠ some c) :
    ∀ row ∈ s.subs.rows, row.underClaim id sub c = false := by
  intro row hr
  rw [Bool.eq_false_iff]
  exact fun hu => h (liveClaim_of_underClaim hr hu)

/-! ## one receipt -/

theorem updateChildren_of_not {p : Sub → Bool} (h : ∀ r ∈ s.subs.rows, p r = false) :
    s.tables.updateChildren p f hf = s.tables := by
  refine Linked.ext rfl ?_
  show s.subs.update p f hf = s.subs
  rw [Table.update_of_not h]

theorem updateUnderClaim_miss (h : liveClaim s (r.messageID, sub) ≠ some r.claimID) :
    updateUnderClaim f hf sub r s = (false, s) := by
  unfold updateUnderClaim
  rw [any_underClaim, decide_eq_false h, updateChildren_of_not (underClaim_of_not_live h)]

theorem updateUnderClaim_hit (h : liveClaim s (r.messageID, sub) = some r.claimID) :
    (updateUnderClaim f hf sub r s).1 = true := by
  unfold updateUnderClaim
  rw [any_underClaim, decide_eq_true h]

section
variable (hv : validateSubscriberID sub = .ok ()) {m : MessageRow} {delay : Duration}
include hv

theorem ackTopic_hit (h : liveClaim s (r.messageID, sub) = some r.claimID) :
    ackTopic env sub r s =
      .ok (updateUnderClaim (Sub.ack env.now) (Sub.key_ack env.now) sub r s).2 := by
  unfold ackTopic
  rw [hv]
  dsimp only
  rw [if_pos (updateUnderClaim_hit h)]

theorem ackTopic_miss (h : liveClaim s (r.messageID, sub) ≠ some r.claimID) :
    ackTopic env sub r s = .error (classifyTopicAckMiss sub r s) := by
  unfold ackTopic
  rw [hv, updateUnderClaim_miss h]
  rfl

theorem extendTopicVisibility_hit {d : Duration} (hd : validateVisibilityTimeout d = .ok ())
    (h : liveClaim s (r.messageID, sub) = some r.claimID) :
    extendTopicVisibility env sub r d s =
      .ok (updateUnderClaim (Sub.extend env.now d) (Sub.key_extend env.now d) sub r s).2 := by
  unfold extendTopicVisibility
  rw [hd, hv]
  dsimp only
  rw [if_pos (updateUnderClaim_hit h)]

theorem extendTopicVisibility_miss {d : Duration} (hd : validateVisibilityTimeout d = .ok ())
    (h : liveClaim s (r.messageID, sub) ≠ some r.claimID) :
    extendTopicVisibility env sub r d s = .error (classifyTopicAckMiss sub r s) := by
  unfold extendTopicVisibility
  rw [hd, hv, updateUnderClaim_miss h]
  rfl

omit hv in
theorem find?_underClaim (hr : row ∈ s.subs.rows)
    (hu : row.underClaim r.messageID sub r.claimID = true) :
    (s.subs.rows.find? fun x => x.underClaim r.messageID sub r.claimID) = some row := by
  cases hf : s.subs.rows.find? fun x => x.underClaim r.messageID sub r.claimID with
  | none => exact absurd hu (by simpa using find?_eq_none.mp hf row hr)
  | some x =>
    have hx := (underClaim_eq.mp (by simpa using find?_some hf)).1
    have hid := (underClaim_eq.mp hu).1
    rw [Table.eq_of_key (mem_of_find?_eq_some hf) hr (hx.trans hid.symm)]

omit hv in
theorem getProcessingSubState_hit (hr : row ∈ s.subs.rows)
    (hu : row.underClaim r.messageID sub r.claimID = true) (hm : s.tables.parentOf row = some m) :
    getProcessingSubState r sub s = .ok ⟨row.retryCount, m.payload, m.metadata⟩ := by
  unfold getProcessingSubState State.candidate
  rw [find?_underClaim hr hu]
  dsimp only
  rw [Option.bind_some, hm]
  rfl

theorem nackTopicImpl_hit {msg : Bytes} (hr : row ∈ s.subs.rows)
    (hu : row.underClaim r.messageID sub r.claimID = true) (hm : s.tables.parentOf row = some m) :
    nackTopicImpl q env sub r msg delay s =
      .ok (nackFound q env sub r (truncateErrorMsg msg) delay
        ⟨row.retryCount, m.payload, m.metadata⟩ s) := by
  unfold nackTopicImpl
  rw [hv, getProcessingSubState_hit hr hu hm]

theorem nackTopicImpl_miss {msg : Bytes} (h : liveClaim s (r.messageID, sub) ≠ some r.claimID) :
    nackTopicImpl q env sub r msg delay s = .error (classifyTopicAckMiss sub r s) := by
  have hf : (s.subs.rows.find? fun x => x.underClaim r.messageID sub r.claimID) = none := by
    rw [find?_eq_none]
    intro x hx
    rw [underClaim_of_not_live h x hx]
    decide
  unfold nackTopicImpl getProcessingSubState
  rw [hv, hf]
  rfl

end

/-! ## a group of receipts -/

variable {rs : List Receipt}

def live (s : State) (sub : String) (r : Receipt) : Bool :=
  decide (liveClaim s (r.messageID, sub) = some r.claimID)

theorem live_iff : live s sub r = true ↔ liveClaim s (r.messageID, sub) = some r.claimID :=
  decide_eq_true_iff

theorem hit_iff :
    hit sub rs row = true ↔ ∃ r ∈ rs, row.underClaim r.messageID sub r.claimID = true := by
  unfold hit matching
  simp only [Bool.not_eq_true', isEmpty_eq_false_iff, ne_eq, filter_eq_nil_iff, not_forall,
    Bool.not_eq_true, Bool.not_eq_false, exists_prop]

theorem subscriberID_of_hit (h : hit sub rs row = true) : row.subscriberID = sub := by
  obtain ⟨r, -, hu⟩ := hit_iff.mp h
  exact congrArg Prod.snd (underClaim_eq.mp hu).1

theorem ackTopicBatch_eq (hv : validateSubscriberID sub = .ok ())
    (hsize : validateBatchSize rs.length = .ok ()) :
    ackTopicBatch env sub rs s =
      .ok (⟨rs.filter (live s sub), classifyTopicBatchMisses sub (rs.filter fun r => !live s sub r)
        (ackAll env sub rs s)⟩, ackAll env sub rs s) := by
  unfold ackTopicBatch
  rw [hv, hsize]
  show Except.ok (finishBatch _ _ _, _) = _
  rw [finishBatch_eq]
  intro r hr
  rw [live_iff, liveClaim_eq_some, mem_flatMap]
  constructor
  · rintro ⟨row, hrow, hmem⟩
    obtain ⟨x, hx, he⟩ := mem_map.mp hmem
    obtain ⟨he1, he2⟩ := Prod.mk.inj he
    exact ⟨row, hrow, he1 ▸ he2 ▸ (mem_filter.mp hx).2⟩
  · rintro ⟨row, hrow, hu⟩
    exact ⟨row, hrow, mem_map.mpr ⟨r, mem_filter.mpr ⟨hr, hu⟩, rfl⟩⟩

theorem mem_fetchBatchSubStates {c : Candidate} :
    c ∈ fetchBatchSubStates rs sub s ↔
      c.sub ∈ s.subs.rows ∧ hit sub rs c.sub = true ∧ s.tables.parentOf c.sub = some c.msg := by
  unfold fetchBatchSubStates
  rw [mem_flatMap]
  constructor
  · rintro ⟨x, hx, hmem⟩
    obtain ⟨-, -, rfl⟩ := mem_map.mp hmem
    obtain ⟨y, hy, hc⟩ := mem_filterMap.mp hx
    obtain ⟨m, hm, rfl⟩ := Option.map_eq_some_iff.mp hc
    obtain ⟨hy, hh⟩ := Table.mem_select.mp hy
    exact ⟨hy, hh, hm⟩
  · rintro ⟨hrow, hh, hm⟩
    obtain ⟨r, hr, hu⟩ := hit_iff.mp hh
    refine ⟨c, mem_filterMap.mpr ⟨c.sub, Table.mem_select.mpr ⟨hrow, hh⟩, ?_⟩,
      mem_map.mpr ⟨r, mem_filter.mpr ⟨hr, hu⟩, rfl⟩⟩
    unfold State.candidate
    rw [hm]
    rfl

theorem exists_state_of_hit (hr : row ∈ s.subs.rows) (hh : hit sub rs row = true) :
    ∃ m, s.tables.parentOf row = some m ∧ ⟨row, m⟩ ∈ fetchBatchSubStates rs sub s := by
  obtain ⟨m, hm⟩ := s.tables.exists_parentOf hr
  exact ⟨m, hm, mem_fetchBatchSubStates.mpr ⟨hr, hh, hm⟩⟩

theorem nackTopicBatch_eq (hv : validateSubscriberID sub = .ok ())
    (hsize : validateBatchSize rs.length = .ok ()) :
    nackTopicBatch q env sub rs msg delay s =
      let s' := processNackTopicBatch q env sub (fetchBatchSubStates rs sub s) (truncateErrorMsg msg)
        delay s
      .ok (⟨rs.filter (live s sub),
        classifyTopicBatchMisses sub (rs.filter fun r => !live s sub r) s'⟩, s') := by
  unfold nackTopicBatch
  rw [hv, hsize]
  show Except.ok (finishBatch _ _ _, _) = _
  rw [finishBatch_eq]
  intro r hr
  rw [live_iff, liveClaim_eq_some, mem_filterMap]
  constructor
  · rintro ⟨c, hc, hmem⟩
    obtain ⟨hrow, hh, -⟩ := mem_fetchBatchSubStates.mp hc
    obtain ⟨cl, hcl, he⟩ := Option.map_eq_some_iff.mp hmem
    obtain ⟨he1, he2⟩ := Prod.mk.inj he
    obtain ⟨x, -, hu⟩ := hit_iff.mp hh
    have hkey : c.sub.key = (r.messageID, sub) := by
      rw [← he1, ← subscriberID_of_hit hh]
      rfl
    exact ⟨c.sub, hrow, underClaim_eq.mpr ⟨hkey, he2 ▸ hcl, (underClaim_eq.mp hu).2.2⟩⟩
  · rintro ⟨row, hrow, hu⟩
    obtain ⟨m, -, hc⟩ := exists_state_of_hit hrow (hit_iff.mpr ⟨r, hr, hu⟩)
    obtain ⟨hid, hcl, -⟩ := underClaim_eq.mp hu
    refine ⟨_, hc, ?_⟩
    show row.claimID.map (fun claim => (row.key.1, claim)) = some (r.messageID, r.claimID)
    rw [hcl, hid]
    rfl

/-! ## what a nack makes of a row -/

def nackSub (q : Queue) (env : Env) (errorMsg : Bytes) (retryDelay : Duration) (row : Sub) :
    Option Sub :=
  if row.retryCount + 1 > q.resolveMaxRetries then none
  else some (row.retry env.now (env.computeRetryDelay row.messageID (row.retryCount + 1) retryDelay)
    errorMsg)

theorem key_nackSub {row' : Sub} (h : nackSub q env msg delay row = some row') :
    row'.key = row.key := by
  unfold nackSub at h
  split at h
  · cases h
  · cases h
    rfl

theorem find?_batchStates (hr : row ∈ s.subs.rows) (hsub : row.subscriberID = sub) (p : Sub → Bool) :
    (((fetchBatchSubStates rs sub s).filter fun c => p c.sub).find?
      fun c => decide (c.sub.messageID = row.messageID)).map Candidate.sub =
      if hit sub rs row && p row then some row else none := by
  have hsame : ∀ c ∈ fetchBatchSubStates rs sub s, c.sub.messageID = row.messageID → c.sub = row := by
    intro c hc he
    obtain ⟨hmem, hh, -⟩ := mem_fetchBatchSubStates.mp hc
    refine Table.eq_of_key hmem hr ?_
    unfold Sub.key
    rw [he, subscriberID_of_hit hh, hsub]
  split
  · rename_i h
    rw [Bool.and_eq_true] at h
    obtain ⟨m, -, hc⟩ := exists_state_of_hit hr h.1
    have hmem : ⟨row, m⟩ ∈ (fetchBatchSubStates rs sub s).filter fun c => p c.sub :=
      mem_filter.mpr ⟨hc, h.2⟩
    cases hf : ((fetchBatchSubStates rs sub s).filter fun c => p c.sub).find?
        fun c => decide (c.sub.messageID = row.messageID) with
    | none => exact absurd (find?_eq_none.mp hf _ hmem) (by simp)
    | some c =>
      have hx := (mem_filter.mp (mem_of_find?_eq_some hf)).1
      rw [Option.map_some, hsame c hx (by simpa using find?_some hf)]
  · rename_i h
    rw [Option.map_eq_none_iff, find?_eq_none]
    intro c hc hid
    rw [decide_eq_true_eq] at hid
    obtain ⟨hc, hpc⟩ := mem_filter.mp hc
    have he := hsame c hc hid
    obtain ⟨-, hh, -⟩ := mem_fetchBatchSubStates.mp hc
    rw [he] at hh hpc
    exact h (by rw [hh, hpc]; rfl)

theorem any_batchStates (hr : row ∈ s.subs.rows) (hsub : row.subscriberID = sub) (p : Sub → Bool) :
    (((fetchBatchSubStates rs sub s).filter fun c => p c.sub).any
      fun c => decide (c.sub.messageID = row.messageID)) = (hit sub rs row && p row) := by
  rw [← isSome_find?, ← Option.isSome_map (f := Candidate.sub), find?_batchStates hr hsub]
  split
  · rename_i h
    rw [h]
    rfl
  · rename_i h
    rw [Bool.eq_false_iff.mpr h]
    rfl

variable (rs) in
theorem lookup_retries (hr : row ∈ s.subs.rows) (hsub : row.subscriberID = sub) (p : Sub → Bool)
    (delay : Sub → Duration) :
    (((fetchBatchSubStates rs sub s).filter fun c => p c.sub).map
      fun c => (c.sub.messageID, delay c.sub)).lookup row.messageID =
      if hit sub rs row && p row then some (delay row) else none := by
  have hg : (((fetchBatchSubStates rs sub s).filter fun c => p c.sub).find?
      fun c => decide (c.sub.messageID = row.messageID)).map (fun c => delay c.sub) =
      ((((fetchBatchSubStates rs sub s).filter fun c => p c.sub).find?
        fun c => decide (c.sub.messageID = row.messageID)).map Candidate.sub).map delay := by
    rw [Option.map_map]
    rfl
  rw [lookup_map, hg, find?_batchStates hr hsub]
  split <;> rfl

theorem rows_processNackTopicBatch :
    (processNackTopicBatch q env sub (fetchBatchSubStates rs sub s) msg delay s).subs.rows =
      s.subs.rows.filterMap fun row =>
        if hit sub rs row then nackSub q env msg delay row else some row := by
  show List.filter _ (List.map _ s.subs.rows) = _
  rw [← filterMap_eq_filter, filterMap_map]
  apply filterMap_congr
  intro row hr
  by_cases hsub : row.subscriberID = sub
  · have hretry := lookup_retries rs hr hsub
      (fun x => !decide (x.retryCount + 1 > q.resolveMaxRetries))
      (fun x => env.computeRetryDelay x.messageID (x.retryCount + 1) delay)
    have hdead : ∀ x : Sub, x.key = row.key →
        (((fetchBatchSubStates rs sub s).filter
          fun c => decide (c.sub.retryCount + 1 > q.resolveMaxRetries)).any
          ((fun m : DLQMessage => decide (m.id = x.messageID)) ∘ fun c : Candidate =>
            ⟨c.sub.messageID, c.msg.payload, c.sub.retryCount + 1, c.msg.metadata⟩)) =
          (hit sub rs row && decide (row.retryCount + 1 > q.resolveMaxRetries)) := by
      intro x hx
      rw [show x.messageID = row.messageID from congrArg Prod.fst hx]
      exact any_batchStates hr hsub fun x => decide (x.retryCount + 1 > q.resolveMaxRetries)
    simp only [Function.comp_apply, Option.guard, any_map, hretry, hsub]
    unfold nackSub
    by_cases hh : hit sub rs row = true
    · by_cases hc : row.retryCount + 1 > q.resolveMaxRetries
      · simp only [hh, hc, decide_true, Bool.not_true, Bool.and_false, Bool.false_eq_true, ↓reduceIte,
          Option.isSome_none, Bool.and_true, hdead row rfl, Bool.and_self, hsub]
      · simp only [hh, hc, decide_false, Bool.not_false, Bool.and_self, ↓reduceIte,
          Option.isSome_some, decide_true, Option.getD_some, hdead _ (Sub.key_retry _ _ _ row),
          Bool.and_false, Bool.false_and]
    · simp only [hh, Bool.false_and, Bool.false_eq_true, ↓reduceIte, Option.isSome_none, decide_true,
        Bool.and_true, hdead row rfl, Bool.not_false]
  · have hh : hit sub rs row = false :=
      Bool.eq_false_iff.mpr fun hh => hsub (subscriberID_of_hit hh)
    simp [hsub, hh, Option.guard]

end
end PgQueue.Topic
