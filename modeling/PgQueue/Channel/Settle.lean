import PgQueue.Channel.Maintenance

/-!
# The channel: what an acknowledgement does

`liveClaim s id` is the claim under which the message `id` is being processed.  Everything an
ack, a nack or an extension does depends on whether the receipt's claim is that claim:

* `ackChannel_hit`, `nackChannelImpl_hit`, `extendChannelVisibility_hit`   it is: the row changes;
* `ackChannel_miss`, `nackChannelImpl_miss`, `extendChannelVisibility_miss`   it is not: the
  receipt is classified and the tables stay;
* `ackChannelBatch_eq`, `nackChannelBatch_eq`   a batch succeeds for the receipts whose claim is
  live and classifies the others.
-/

namespace PgQueue.Channel
open Relational List

def liveClaim (s : State) (id : UUID) : Option UUID :=
  (s.msgs.find? id).bind fun r => if r.status = .processing then r.claimID else none

section
variable {q : Queue} {env : Env} {s : State} {row : Row} {r : Receipt} {msg : Bytes} {delay : Duration}
  {id c : UUID}

theorem underClaim_eq :
    row.underClaim id c = true ↔ row.id = id ∧ row.claimID = some c ∧ row.status = .processing := by
  unfold Row.underClaim
  simp only [Bool.and_eq_true, decide_eq_true_eq, and_assoc]

theorem liveClaim_eq_some :
    liveClaim s id = some c ↔ ∃ row ∈ s.msgs.rows, row.underClaim id c = true := by
  unfold liveClaim
  rw [Option.bind_eq_some_iff]
  constructor
  · rintro ⟨row, hf, hc⟩
    obtain ⟨hmem, hid⟩ := Table.find?_eq_some.mp hf
    by_cases hp : row.status = .processing
    · rw [if_pos hp] at hc
      exact ⟨row, hmem, underClaim_eq.mpr ⟨hid, hc, hp⟩⟩
    · rw [if_neg hp] at hc
      cases hc
  · rintro ⟨row, hmem, hu⟩
    obtain ⟨hid, hc, hp⟩ := underClaim_eq.mp hu
    exact ⟨row, Table.find?_eq_some.mpr ⟨hmem, hid⟩, by rw [if_pos hp, hc]⟩

theorem liveClaim_of_underClaim (hr : row ∈ s.msgs.rows) (hu : row.underClaim id c = true) :
    liveClaim s id = some c :=
  liveClaim_eq_some.mpr ⟨row, hr, hu⟩

theorem any_underClaim (s : State) (id c : UUID) :
    (s.msgs.rows.any fun row => row.underClaim id c) = decide (liveClaim s id = some c) := by
  rw [Bool.eq_iff_iff, any_eq_true, decide_eq_true_eq, liveClaim_eq_some]

theorem underClaim_of_not_live (h : liveClaim s id ≠ some c) :
    ∀ row ∈ s.msgs.rows, row.underClaim id c = false := by
  intro row hr
  rw [Bool.eq_false_iff]
  exact fun hu => h (liveClaim_of_underClaim hr hu)

/-! ## one receipt -/

theorem updateUnderClaim_miss {f : Row → Row} {hf : ∀ r, (f r).id = r.id}
    (h : liveClaim s r.messageID ≠ some r.claimID) : updateUnderClaim f hf r s = (false, s) := by
  unfold updateUnderClaim
  rw [any_underClaim, decide_eq_false h, Table.update_of_not (underClaim_of_not_live h)]

theorem ackChannel_hit (h : liveClaim s r.messageID = some r.claimID) :
    ackChannel env r s = .ok (ackUpdate env r s).2 := by
  unfold ackChannel ackUpdate updateUnderClaim
  rw [any_underClaim, decide_eq_true h]
  rfl

theorem ackChannel_miss (h : liveClaim s r.messageID ≠ some r.claimID) :
    ackChannel env r s = .error (classifyChannelAckMiss r s) := by
  unfold ackChannel ackUpdate
  rw [updateUnderClaim_miss h]
  rfl

theorem extendChannelVisibility_hit {d : Duration} (hd : validateVisibilityTimeout d = .ok ())
    (h : liveClaim s r.messageID = some r.claimID) :
    extendChannelVisibility env r d s =
      .ok (updateUnderClaim (Row.extend env.now d) (Row.id_extend env.now d) r s).2 := by
  unfold extendChannelVisibility updateUnderClaim
  rw [hd, any_underClaim, decide_eq_true h]
  rfl

theorem extendChannelVisibility_miss {d : Duration} (hd : validateVisibilityTimeout d = .ok ())
    (h : liveClaim s r.messageID ≠ some r.claimID) :
    extendChannelVisibility env r d s = .error (classifyChannelAckMiss r s) := by
  unfold extendChannelVisibility
  rw [hd, updateUnderClaim_miss h]
  rfl

theorem getProcessingMessageState_hit (hr : row ∈ s.msgs.rows)
    (hu : row.underClaim r.messageID r.claimID = true) :
    getProcessingMessageState r s = .ok row := by
  unfold getProcessingMessageState
  cases hf : s.msgs.rows.find? fun x => x.underClaim r.messageID r.claimID with
  | none => exact absurd hu (by simpa using find?_eq_none.mp hf row hr)
  | some x =>
    have hx := (underClaim_eq.mp (by simpa using find?_some hf)).1
    have hid := (underClaim_eq.mp hu).1
    rw [Table.eq_of_key (mem_of_find?_eq_some hf) hr (hx.trans hid.symm)]

theorem nackChannelImpl_hit (hr : row ∈ s.msgs.rows) (hu : row.underClaim r.messageID r.claimID = true) :
    nackChannelImpl q env r msg delay s =
      .ok (handleNack q env r.messageID (truncateErrorMsg msg) row delay s) := by
  unfold nackChannelImpl
  rw [getProcessingMessageState_hit hr hu]

theorem getProcessingMessageState_miss (h : liveClaim s r.messageID ≠ some r.claimID) :
    getProcessingMessageState r s = .error (classifyChannelAckMiss r s) := by
  have hf : (s.msgs.rows.find? fun x => x.underClaim r.messageID r.claimID) = none := by
    rw [find?_eq_none]
    intro x hx
    rw [underClaim_of_not_live h x hx]
    decide
  unfold getProcessingMessageState
  rw [hf]

theorem nackChannelImpl_miss (h : liveClaim s r.messageID ≠ some r.claimID) :
    nackChannelImpl q env r msg delay s = .error (classifyChannelAckMiss r s) := by
  unfold nackChannelImpl
  rw [getProcessingMessageState_miss h]

/-! ## a group of receipts -/

variable {rs : List Receipt}

def live (s : State) (r : Receipt) : Bool := decide (liveClaim s r.messageID = some r.claimID)

theorem live_iff : live s r = true ↔ liveClaim s r.messageID = some r.claimID := decide_eq_true_iff

theorem hit_iff : hit rs row = true ↔ ∃ r ∈ rs, row.underClaim r.messageID r.claimID = true := by
  unfold hit matching
  simp only [Bool.not_eq_true', isEmpty_eq_false_iff, ne_eq, filter_eq_nil_iff, not_forall,
    Bool.not_eq_true, Bool.not_eq_false, exists_prop]

theorem ackChannelBatch_eq (hsize : validateBatchSize rs.length = .ok ()) :
    ackChannelBatch env rs s =
      .ok (⟨rs.filter (live s), classifyChannelBatchMisses (rs.filter fun r => !live s r)
        (ackAll env rs s)⟩, ackAll env rs s) := by
  unfold ackChannelBatch
  rw [hsize]
  show Except.ok (finishBatch _ _ _, _) = _
  rw [finishBatch_eq]
  intro r hr
  rw [live_iff, liveClaim_eq_some, mem_flatMap]
  constructor
  · rintro ⟨row, hrow, hmem⟩
    obtain ⟨x, hx, he⟩ := mem_map.mp hmem
    obtain ⟨he1, he2⟩ := Prod.mk.inj he
    exact ⟨row, hrow, he1 ▸ he2 ▸ (mem_filter.mp hx).2⟩
  · rintro ⟨row, hrow, hu⟩
    exact ⟨row, hrow, mem_map.mpr ⟨r, mem_filter.mpr ⟨hr, hu⟩, rfl⟩⟩

theorem mem_fetchBatchMessageStates :
    row ∈ fetchBatchMessageStates rs s ↔ row ∈ s.msgs.rows ∧ hit rs row = true := by
  unfold fetchBatchMessageStates
  rw [mem_flatMap]
  constructor
  · rintro ⟨x, hx, hmem⟩
    obtain ⟨-, -, rfl⟩ := mem_map.mp hmem
    exact Table.mem_select.mp hx
  · rintro ⟨hrow, hh⟩
    obtain ⟨r, hr, hu⟩ := hit_iff.mp hh
    exact ⟨row, Table.mem_select.mpr ⟨hrow, hh⟩,
      mem_map.mpr ⟨r, mem_filter.mpr ⟨hr, hu⟩, rfl⟩⟩

theorem nackChannelBatch_eq (hsize : validateBatchSize rs.length = .ok ()) :
    nackChannelBatch q env rs msg delay s =
      let s' := processNackBatch q env (fetchBatchMessageStates rs s) (truncateErrorMsg msg) delay s
      .ok (⟨rs.filter (live s), classifyChannelBatchMisses (rs.filter fun r => !live s r) s'⟩,
        s') := by
  unfold nackChannelBatch
  rw [hsize]
  show Except.ok (finishBatch _ _ _, _) = _
  rw [finishBatch_eq]
  intro r hr
  rw [live_iff, liveClaim_eq_some, mem_filterMap]
  constructor
  · rintro ⟨row, hrow, hmem⟩
    obtain ⟨hmem', hh⟩ := mem_fetchBatchMessageStates.mp hrow
    obtain ⟨c, hc, he⟩ := Option.map_eq_some_iff.mp hmem
    obtain ⟨he1, he2⟩ := Prod.mk.inj he
    obtain ⟨x, -, hu⟩ := hit_iff.mp hh
    exact ⟨row, hmem', underClaim_eq.mpr ⟨he1, he2 ▸ hc, (underClaim_eq.mp hu).2.2⟩⟩
  · rintro ⟨row, hrow, hu⟩
    obtain ⟨hid, hc, -⟩ := underClaim_eq.mp hu
    refine ⟨row, mem_fetchBatchMessageStates.mpr ⟨hrow, hit_iff.mpr ⟨r, hr, hu⟩⟩, ?_⟩
    rw [hc, hid]
    rfl

/-! ## what a nack makes of a row -/

def nackRow (q : Queue) (env : Env) (errorMsg : Bytes) (retryDelay : Duration) (row : Row) :
    Option Row :=
  if row.retryCount + 1 > row.cap q then none
  else some (row.retry env.now (env.computeRetryDelay row.id (row.retryCount + 1) retryDelay)
    errorMsg)

theorem id_nackRow {row' : Row} (h : nackRow q env msg delay row = some row') : row'.id = row.id := by
  unfold nackRow at h
  split at h
  · cases h
  · cases h
    rfl

theorem find?_batchStates (hr : row ∈ s.msgs.rows) (p : Row → Bool) :
    (((fetchBatchMessageStates rs s).filter p).find? fun x => decide (x.id = row.id)) =
      if hit rs row && p row then some row else none := by
  split
  · rename_i h
    rw [Bool.and_eq_true] at h
    have hmem : row ∈ (fetchBatchMessageStates rs s).filter p :=
      mem_filter.mpr ⟨mem_fetchBatchMessageStates.mpr ⟨hr, h.1⟩, h.2⟩
    cases hf : ((fetchBatchMessageStates rs s).filter p).find? fun x => decide (x.id = row.id) with
    | none => exact absurd (find?_eq_none.mp hf row hmem) (by simp)
    | some x =>
      have hx := (mem_filter.mp (mem_of_find?_eq_some hf)).1
      have hid : x.id = row.id := by simpa using find?_some hf
      rw [Table.eq_of_key (mem_fetchBatchMessageStates.mp hx).1 hr hid]
  · rename_i h
    rw [find?_eq_none]
    intro x hx hid
    rw [decide_eq_true_eq] at hid
    obtain ⟨hx, hpx⟩ := mem_filter.mp hx
    obtain ⟨hmem, hhit⟩ := mem_fetchBatchMessageStates.mp hx
    obtain rfl := Table.eq_of_key hmem hr hid
    exact h (by rw [hhit, hpx]; rfl)

theorem any_batchStates (hr : row ∈ s.msgs.rows) (p : Row → Bool) :
    (((fetchBatchMessageStates rs s).filter p).any fun x => decide (x.id = row.id)) =
      (hit rs row && p row) := by
  rw [← isSome_find?, find?_batchStates hr]
  split
  · rename_i h
    rw [h]
    rfl
  · rename_i h
    rw [Bool.eq_false_iff.mpr h]
    rfl

theorem rows_processNackBatch :
    (processNackBatch q env (fetchBatchMessageStates rs s) msg delay s).msgs.rows =
      s.msgs.rows.filterMap fun row =>
        if hit rs row then nackRow q env msg delay row else some row := by
  show List.filter _ (List.map _ s.msgs.rows) = _
  rw [← filterMap_eq_filter, filterMap_map]
  apply filterMap_congr
  intro row hr
  simp only [Function.comp_apply, Option.guard, lookup_map, any_map, find?_batchStates hr]
  have hdead : ∀ x : Row, x.id = row.id →
      (((fetchBatchMessageStates rs s).filter fun y => decide (y.retryCount + 1 > y.cap q)).any
        ((fun m : DLQMessage => decide (m.id = x.id)) ∘ fun y : Row =>
          ⟨y.id, y.payload, y.retryCount + 1, y.metadata⟩)) =
        (hit rs row && decide (row.retryCount + 1 > row.cap q)) := by
    intro x hx
    rw [hx]
    exact any_batchStates hr _
  unfold nackRow
  by_cases hh : hit rs row = true
  · by_cases hc : row.retryCount + 1 > row.cap q
    · simp only [hh, hc, decide_true, Bool.not_true, Bool.and_false, Bool.false_eq_true, ↓reduceIte,
        Option.map_none, Option.isSome_none, hdead row rfl, Bool.and_self]
    · simp only [hh, hc, decide_false, Bool.not_false, Bool.and_self, ↓reduceIte, Option.map_some,
        Option.isSome_some, Option.getD_some, hdead _ (Row.id_retry _ _ _ row), Bool.and_false]
  · simp only [hh, Bool.false_and, Bool.false_eq_true, ↓reduceIte, Option.map_none,
      Option.isSome_none, hdead row rfl, Bool.not_false]

end
end PgQueue.Channel
