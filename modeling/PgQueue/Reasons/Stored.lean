import PgQueue.Reasons.Kept
import PgQueue.Channel.Refine
import PgQueue.Topic.Registry

/-!
# Failure reasons on their way into the database

PostgreSQL takes a `TEXT` parameter if it is valid UTF-8 without a zero byte; otherwise the statement
fails and the nack is rolled back.

* `Channel.Sent`, `Topic.Sent`   the nacks of the two models, each statement that carries the reason
                                 with the parameter it sends;
* `ZeroFree`                     no zero byte in the first 1024 bytes of the reason's text;
* `nack_succeeds_iff`            **a nack of a claimed message goes through exactly when its reason is
                                 `ZeroFree`.**
-/

namespace PgQueue
open Relational List

def acceptsText (text : Bytes) : Bool := validString text && !text.contains 0

/-- why a nack failed: an answer of the queue, or a parameter the database refused -/
inductive NackError where
  | queue (e : QueueError)
  | rejectedText
deriving DecidableEq, Repr

/-- a statement with the `TEXT` parameter `text`, after which the result is `a` -/
def execText {α : Type} (text : Bytes) (a : α) : Except NackError α :=
  if acceptsText text then .ok a else .error .rejectedText

/-- the two statements of a batch nack, each sent only when there are messages for it; the second
one truncates the reason once more -/
def execBatch {α ρ δ : Type} (text : Bytes) (retries : List ρ) (dlqMessages : List δ)
    (retry moveToDLQ : α → α) (a : α) : Except NackError α :=
  match if retries.isEmpty then .ok a else execText text (retry a) with
  | .error e => .error e
  | .ok b => if dlqMessages.isEmpty then .ok b else execText (truncateErrorMsg text) (moveToDLQ b)

/-- the text of the reason has its runs of invalid bytes replaced -/
def ZeroFree (reason : Bytes) : Prop := ∃ t, Repairs reason t ∧ 0 ∉ t.take maxErrorMessageLength

section
variable {α : Type} {text reason : Bytes}

theorem zeroFree_iff : ZeroFree reason ↔ 0 ∉ truncateErrorMsg reason := by
  have hrep := repairs_toValidUTF8 reason
  constructor
  · rintro ⟨t, ht, h⟩ h0
    exact h (ht.zero_mem_truncateErrorMsg.mp h0)
  · exact fun h => ⟨_, hrep, fun h0 => h (hrep.zero_mem_truncateErrorMsg.mpr h0)⟩

theorem zeroFree_of_notMem (h : 0 ∉ reason) : ZeroFree reason := by
  have hrep := repairs_toValidUTF8 reason
  exact ⟨_, hrep, fun h0 => h (hrep.zero_mem (mem_of_mem_take h0))⟩

theorem acceptsText_truncateErrorMsg :
    acceptsText (truncateErrorMsg reason) = true ↔ ZeroFree reason := by
  unfold acceptsText
  rw [zeroFree_iff, validString_truncateErrorMsg, Bool.true_and, Bool.not_eq_true', contains_eq_mem,
    decide_eq_false_iff_not]

theorem execText_accepted (h : acceptsText text = true) (a : α) : execText text a = .ok a := if_pos h

theorem execText_rejected (h : ¬acceptsText text = true) (a : α) :
    execText text a = .error .rejectedText := if_neg h

theorem execText_and_iff (a : α) {P : α → Prop} (ha : P a) :
    (∃ b, execText (truncateErrorMsg reason) a = .ok b ∧ P b) ↔ ZeroFree reason := by
  rw [← acceptsText_truncateErrorMsg]
  constructor
  · rintro ⟨b, hb, -⟩
    by_contra h
    rw [execText_rejected h] at hb
    cases hb
  · exact fun h => ⟨a, execText_accepted h a, ha⟩

theorem execText_iff (a : α) :
    (∃ b, execText (truncateErrorMsg reason) a = .ok b) ↔ ZeroFree reason := by
  rw [← execText_and_iff (P := fun _ => True) a trivial]
  simp only [and_true]

theorem execText_bind {β : Type} (a : α) (f : α → β) :
    (execText text a >>= fun b => pure (f b)) = execText text (f a) := by
  unfold execText
  split <;> rfl

theorem execBatch_eq {ρ δ : Type} {retries : List ρ} {dlqMessages : List δ} {retry moveToDLQ : α → α}
    {a : α} (hne : retries.isEmpty = false ∨ dlqMessages.isEmpty = false)
    (hretry : retries.isEmpty = true → retry a = a)
    (hmove : dlqMessages.isEmpty = true → moveToDLQ (retry a) = retry a) :
    execBatch (truncateErrorMsg reason) retries dlqMessages retry moveToDLQ a =
      execText (truncateErrorMsg reason) (moveToDLQ (retry a)) := by
  unfold execBatch
  rw [truncateErrorMsg_truncateErrorMsg]
  cases h1 : retries.isEmpty with
  | true =>
    have h2 : dlqMessages.isEmpty = false := hne.resolve_left (by rw [h1]; exact Bool.noConfusion)
    rw [h2, hretry h1]
    rfl
  | false =>
    by_cases ha : acceptsText (truncateErrorMsg reason) = true
    · rw [execText_accepted ha]
      cases h2 : dlqMessages.isEmpty with
      | true => rw [execText_accepted ha, hmove h2]; rfl
      | false => rfl
    · rw [execText_rejected ha, execText_rejected ha]
      rfl

theorem partition_ne_nil {ρ β γ : Type} {states : List ρ} (hne : states ≠ []) (p : ρ → Bool)
    {f : ρ → β} {g : ρ → γ} :
    ((states.filter fun x => !p x).map f).isEmpty = false ∨
      ((states.filter p).map g).isEmpty = false := by
  obtain ⟨x, xs, rfl⟩ := exists_cons_of_ne_nil hne
  cases hp : p x with
  | true =>
    rw [filter_cons_of_pos (p := p) hp]
    exact Or.inr rfl
  | false =>
    rw [filter_cons_of_pos (p := fun x => !p x) (by rw [hp]; rfl)]
    exact Or.inl rfl

end

/-! ## the channel -/

namespace Channel.Sent

def handleNack (q : Queue) (env : Env) (messageID : UUID) (errorMsg : Bytes) (state : Row)
    (retryDelay : Duration) (s : State) : Except NackError State :=
  if state.retryCount + 1 > state.cap q then
    -- `moveToDLQ` truncates once more
    execText (truncateErrorMsg errorMsg)
      (moveToDLQ q env messageID errorMsg state.payload (state.retryCount + 1) state.metadata s)
  else
    execText errorMsg (retryMessage env messageID errorMsg
      (env.computeRetryDelay messageID (state.retryCount + 1) retryDelay) s)

def nackChannelImpl (q : Queue) (env : Env) (r : Receipt) (errorMsg : Bytes)
    (retryDelay : Duration) (s : State) : Except NackError State :=
  match getProcessingMessageState r s with
  | .error e => .error (.queue e)
  | .ok state => handleNack q env r.messageID (truncateErrorMsg errorMsg) state retryDelay s

def processNackBatch (q : Queue) (env : Env) (states : List Row) (errorMsg : Bytes)
    (retryDelay : Duration) (s : State) : Except NackError State :=
  let exhausted := fun row : Row => decide (row.retryCount + 1 > row.cap q)
  let retries := (states.filter fun row => !exhausted row).map fun row =>
    (row.id, env.computeRetryDelay row.id (row.retryCount + 1) retryDelay)
  let dlqMessages := (states.filter exhausted).map fun row =>
    (⟨row.id, row.payload, row.retryCount + 1, row.metadata⟩ : DLQMessage)
  execBatch errorMsg retries dlqMessages (batchRetryMessages env retries errorMsg)
    (batchMoveToDLQ q env dlqMessages errorMsg) s

def nackChannelBatch (q : Queue) (env : Env) (rs : List Receipt) (errorMsg : Bytes)
    (retryDelay : Duration) (s : State) : Except NackError (BatchResult × State) :=
  match validateBatchSize rs.length with
  | .error e => .error (.queue e)
  | .ok () => do
    let states := fetchBatchMessageStates rs s
    let s' ← processNackBatch q env states (truncateErrorMsg errorMsg) retryDelay s
    let matched := states.filterMap fun row => row.claimID.map fun c => (row.id, c)
    return (finishBatch rs matched fun misses => classifyChannelBatchMisses misses s', s')

section
variable {q : Queue} {env : Env} {s : State} {reason : Bytes} {delay : Duration} {r : Receipt}
  {rs : List Receipt}

theorem handleNack_eq {id : UUID} {state : Row} :
    handleNack q env id (truncateErrorMsg reason) state delay s =
      execText (truncateErrorMsg reason)
        (Channel.handleNack q env id (truncateErrorMsg reason) state delay s) := by
  unfold handleNack Channel.handleNack
  split
  · rw [truncateErrorMsg_truncateErrorMsg]
  · rfl

theorem nackChannelImpl_eq (h : liveClaim s r.messageID = some r.claimID) :
    ∃ s', nackChannelImpl q env r reason delay s = execText (truncateErrorMsg reason) s' := by
  obtain ⟨row, hr, hu⟩ := liveClaim_eq_some.mp h
  refine ⟨Channel.handleNack q env r.messageID (truncateErrorMsg reason) row delay s, ?_⟩
  unfold nackChannelImpl
  rw [getProcessingMessageState_hit hr hu]
  exact handleNack_eq

theorem batchRetryMessages_nil {msg : Bytes} : batchRetryMessages env [] msg s = s := by
  have hu : s.msgs.update (fun row => (([] : List (UUID × Duration)).lookup row.id).isSome)
      (fun row => row.retry env.now ((([] : List (UUID × Duration)).lookup row.id).getD 0) msg)
      (fun row => Row.id_retry env.now _ msg row) = s.msgs := Table.update_of_not fun _ _ => rfl
  unfold batchRetryMessages
  rw [hu]

theorem processNackBatch_eq {states : List Row} (hne : states ≠ []) :
    processNackBatch q env states (truncateErrorMsg reason) delay s =
      execText (truncateErrorMsg reason)
        (Channel.processNackBatch q env states (truncateErrorMsg reason) delay s) := by
  refine execBatch_eq (partition_ne_nil hne _) (fun h => ?_) fun h => ?_
  · rw [isEmpty_iff.mp h]
    exact batchRetryMessages_nil
  · rw [isEmpty_iff.mp h]
    exact batchMoveToDLQ_nil _

/-- a batch with a claimed message sends the truncated reason; where it goes through, every claimed
message of the batch was nacked -/
theorem nackChannelBatch_eq (hsize : validateBatchSize rs.length = .ok ())
    (hlive : ∃ r ∈ rs, live s r = true) :
    ∃ x : BatchResult × State, nackChannelBatch q env rs reason delay s =
      execText (truncateErrorMsg reason) x ∧ ∀ r ∈ rs, live s r = true → r ∈ x.1.succeeded := by
  obtain ⟨r, hr, hl⟩ := hlive
  obtain ⟨row, hrow, hu⟩ := liveClaim_eq_some.mp (live_iff.mp hl)
  have hne : fetchBatchMessageStates rs s ≠ [] :=
    ne_nil_of_mem (mem_fetchBatchMessageStates.mpr ⟨hrow, hit_iff.mpr ⟨r, hr, hu⟩⟩)
  obtain ⟨x, hx, hsucc⟩ : ∃ x, Channel.nackChannelBatch q env rs reason delay s = .ok x ∧
      ∀ r ∈ rs, live s r = true → r ∈ x.1.succeeded :=
    ⟨_, Channel.nackChannelBatch_eq hsize, fun r hr hl => mem_filter.mpr ⟨hr, hl⟩⟩
  refine ⟨x, ?_, hsucc⟩
  unfold Channel.nackChannelBatch at hx
  rw [hsize] at hx
  unfold nackChannelBatch
  rw [hsize, ← Except.ok.inj hx]
  dsimp only
  rw [processNackBatch_eq hne, execText_bind]

end
end Channel.Sent

/-! ## the topic -/

namespace Topic.Sent

def nackFound (q : Queue) (env : Env) (subscriberID : String) (r : Receipt) (errorMsg : Bytes)
    (retryDelay : Duration) (state : SubState) (s : State) : Except NackError State :=
  if state.retryCount + 1 > q.resolveMaxRetries then
    execText (truncateErrorMsg errorMsg) (moveSubToDLQ q env r.messageID subscriberID errorMsg state s)
  else
    execText errorMsg (retrySubscription env r.messageID subscriberID errorMsg
      (env.computeRetryDelay r.messageID (state.retryCount + 1) retryDelay) s)

def nackTopicImpl (q : Queue) (env : Env) (subscriberID : String) (r : Receipt) (errorMsg : Bytes)
    (retryDelay : Duration) (s : State) : Except NackError State :=
  match validateSubscriberID subscriberID with
  | .error e => .error (.queue e)
  | .ok () =>
    match getProcessingSubState r subscriberID s with
    | .error e => .error (.queue e)
    | .ok state => nackFound q env subscriberID r (truncateErrorMsg errorMsg) retryDelay state s

def processNackTopicBatch (q : Queue) (env : Env) (subscriberID : String) (states : List Candidate)
    (errorMsg : Bytes) (retryDelay : Duration) (s : State) : Except NackError State :=
  let exhausted := fun c : Candidate => decide (c.sub.retryCount + 1 > q.resolveMaxRetries)
  let retries := (states.filter fun c => !exhausted c).map fun c =>
    (c.sub.messageID, env.computeRetryDelay c.sub.messageID (c.sub.retryCount + 1) retryDelay)
  let dlqMessages := (states.filter exhausted).map fun c =>
    (⟨c.sub.messageID, c.msg.payload, c.sub.retryCount + 1, c.msg.metadata⟩ : DLQMessage)
  execBatch errorMsg retries dlqMessages (batchRetrySubscriptions env retries subscriberID errorMsg)
    (batchMoveSubToDLQ q env subscriberID dlqMessages errorMsg) s

def nackTopicBatch (q : Queue) (env : Env) (subscriberID : String) (rs : List Receipt)
    (errorMsg : Bytes) (retryDelay : Duration) (s : State) :
    Except NackError (BatchResult × State) :=
  match validateSubscriberID subscriberID with
  | .error e => .error (.queue e)
  | .ok () =>
    match validateBatchSize rs.length with
    | .error e => .error (.queue e)
    | .ok () => do
      let states := fetchBatchSubStates rs subscriberID s
      let s' ← processNackTopicBatch q env subscriberID states (truncateErrorMsg errorMsg)
        retryDelay s
      let matched := states.filterMap fun c => c.sub.claimID.map fun claim => (c.sub.messageID, claim)
      return (finishBatch rs matched fun misses => classifyTopicBatchMisses subscriberID misses s', s')

section
variable {q : Queue} {env : Env} {s : State} {reason : Bytes} {delay : Duration} {sub : String}
  {r : Receipt} {rs : List Receipt}

theorem nackFound_eq {state : SubState} :
    nackFound q env sub r (truncateErrorMsg reason) delay state s =
      execText (truncateErrorMsg reason)
        (Topic.nackFound q env sub r (truncateErrorMsg reason) delay state s) := by
  unfold nackFound Topic.nackFound
  split
  · rw [truncateErrorMsg_truncateErrorMsg]
  · rfl

theorem nackTopicImpl_eq (hv : validateSubscriberID sub = .ok ())
    (h : liveClaim s (r.messageID, sub) = some r.claimID) :
    ∃ s', nackTopicImpl q env sub r reason delay s = execText (truncateErrorMsg reason) s' := by
  obtain ⟨row, hr, hu⟩ := liveClaim_eq_some.mp h
  obtain ⟨m, hm⟩ := s.tables.exists_parentOf hr
  refine ⟨Topic.nackFound q env sub r (truncateErrorMsg reason) delay
    ⟨row.retryCount, m.payload, m.metadata⟩ s, ?_⟩
  unfold nackTopicImpl
  rw [hv, getProcessingSubState_hit hr hu hm]
  exact nackFound_eq

theorem batchRetrySubscriptions_nil {msg : Bytes} :
    batchRetrySubscriptions env [] sub msg s = s := by
  have hu : s.tables.updateChildren
      (fun row => (([] : List (UUID × Duration)).lookup row.messageID).isSome &&
        decide (row.subscriberID = sub))
      (fun row => row.retry env.now ((([] : List (UUID × Duration)).lookup row.messageID).getD 0) msg)
      (fun row => Sub.key_retry env.now _ msg row) = s.tables :=
    updateChildren_of_not fun _ _ => rfl
  unfold batchRetrySubscriptions
  rw [hu]

theorem batchMoveSubToDLQ_nil {msg : Bytes} : batchMoveSubToDLQ q env sub [] msg s = s := by
  have hd : (s.tables.deleteChildren fun r =>
      (([] : List DLQMessage).any fun m => decide (m.id = r.messageID)) &&
        decide (r.subscriberID = sub)) = s.tables :=
    Linked.ext rfl (Table.ext (filter_eq_self.mpr fun _ _ => rfl))
  unfold batchMoveSubToDLQ
  rw [hd]
  show State.mk s.tables s.subscribers (s.dlq ++ []) s.replayLog s.seq = s
  rw [append_nil]

theorem processNackTopicBatch_eq {states : List Candidate} (hne : states ≠ []) :
    processNackTopicBatch q env sub states (truncateErrorMsg reason) delay s =
      execText (truncateErrorMsg reason)
        (Topic.processNackTopicBatch q env sub states (truncateErrorMsg reason) delay s) := by
  refine execBatch_eq (partition_ne_nil hne _) (fun h => ?_) fun h => ?_
  · rw [isEmpty_iff.mp h]
    exact batchRetrySubscriptions_nil
  · rw [isEmpty_iff.mp h]
    exact batchMoveSubToDLQ_nil

theorem nackTopicBatch_eq (hv : validateSubscriberID sub = .ok ())
    (hsize : validateBatchSize rs.length = .ok ()) (hlive : ∃ r ∈ rs, live s sub r = true) :
    ∃ x : BatchResult × State, nackTopicBatch q env sub rs reason delay s =
      execText (truncateErrorMsg reason) x ∧ ∀ r ∈ rs, live s sub r = true → r ∈ x.1.succeeded := by
  obtain ⟨r, hr, hl⟩ := hlive
  obtain ⟨row, hrow, hu⟩ := liveClaim_eq_some.mp (live_iff.mp hl)
  obtain ⟨m, -, hmem⟩ := exists_state_of_hit hrow (hit_iff.mpr ⟨r, hr, hu⟩)
  have hne : fetchBatchSubStates rs sub s ≠ [] := ne_nil_of_mem hmem
  obtain ⟨x, hx, hsucc⟩ : ∃ x, Topic.nackTopicBatch q env sub rs reason delay s = .ok x ∧
      ∀ r ∈ rs, live s sub r = true → r ∈ x.1.succeeded :=
    ⟨_, Topic.nackTopicBatch_eq hv hsize, fun r hr hl => mem_filter.mpr ⟨hr, hl⟩⟩
  refine ⟨x, ?_, hsucc⟩
  unfold Topic.nackTopicBatch at hx
  rw [hv, hsize] at hx
  unfold nackTopicBatch
  rw [hv, hsize, ← Except.ok.inj hx]
  dsimp only
  rw [processNackTopicBatch_eq hne, execText_bind]

end
end Topic.Sent

/-! ## every reason -/

/-- **A nack of a claimed message succeeds exactly when the first 1024 bytes of its reason's text have no
zero byte:** on a channel or a topic, alone or in a batch, whether the message is retried or
dead-lettered.  The text of a reason without zero bytes has none. -/
theorem nack_succeeds_iff (reason : Bytes) :
    (0 ∉ reason → ZeroFree reason) ∧
    (acceptsText (truncateErrorMsg reason) = true ↔ ZeroFree reason) ∧
    (∀ (q : Queue) (env : Env) (r : Receipt) (delay : Duration) (s : Channel.State),
      Channel.liveClaim s r.messageID = some r.claimID →
      ((∃ s', Channel.Sent.nackChannelImpl q env r reason delay s = .ok s') ↔
        ZeroFree reason)) ∧
    (∀ (q : Queue) (env : Env) (rs : List Receipt) (delay : Duration) (s : Channel.State),
      validateBatchSize rs.length = .ok () → (∃ r ∈ rs, Channel.live s r = true) →
      ((∃ x, Channel.Sent.nackChannelBatch q env rs reason delay s = .ok x ∧
          ∀ r ∈ rs, Channel.live s r = true → r ∈ x.1.succeeded) ↔
        ZeroFree reason)) ∧
    (∀ (q : Queue) (env : Env) (sub : String) (r : Receipt) (delay : Duration) (s : Topic.State),
      Topic.Registered s → Topic.liveClaim s (r.messageID, sub) = some r.claimID →
      ((∃ s', Topic.Sent.nackTopicImpl q env sub r reason delay s = .ok s') ↔
        ZeroFree reason)) ∧
    (∀ (q : Queue) (env : Env) (sub : String) (rs : List Receipt) (delay : Duration)
      (s : Topic.State),
      Topic.Registered s → validateBatchSize rs.length = .ok () →
      (∃ r ∈ rs, Topic.live s sub r = true) →
      ((∃ x, Topic.Sent.nackTopicBatch q env sub rs reason delay s = .ok x ∧
          ∀ r ∈ rs, Topic.live s sub r = true → r ∈ x.1.succeeded) ↔
        ZeroFree reason)) := by
  refine ⟨zeroFree_of_notMem, acceptsText_truncateErrorMsg, ?_, ?_, ?_, ?_⟩
  · intro q env r delay s hl
    obtain ⟨s', hs⟩ := Channel.Sent.nackChannelImpl_eq hl
    rw [hs]
    exact execText_iff s'
  · intro q env rs delay s hsize hl
    obtain ⟨x, hx, hsucc⟩ := Channel.Sent.nackChannelBatch_eq hsize hl
    rw [hx]
    exact execText_and_iff x hsucc
  · intro q env sub r delay s hreg hl
    obtain ⟨s', hs⟩ := Topic.Sent.nackTopicImpl_eq (hreg.of_liveClaim hl) hl
    rw [hs]
    exact execText_iff s'
  · rintro q env sub rs delay s hreg hsize ⟨r, hr, hl⟩
    have hv := hreg.of_liveClaim (Topic.live_iff.mp hl)
    obtain ⟨x, hx, hsucc⟩ := Topic.Sent.nackTopicBatch_eq hv hsize ⟨r, hr, hl⟩
    rw [hx]
    exact execText_and_iff x hsucc

def claimedChannel (maxRetries : Nat) : Channel.State :=
  (Channel.runFrom (.counting maxRetries) .init
    [(.bare 0, .publish ⟨7, [1], none⟩), (.bare 0, .receive 1000)]).1

def claimedTopic (maxRetries : Nat) : Topic.State :=
  (Topic.runFrom (.counting maxRetries) .init
    [(.bare 0, .subscribe "a"), (.bare 0, .publish ⟨7, [1], none⟩), (.bare 0, .receive "a" 1000)]).1

theorem registered_claimedTopic (maxRetries : Nat) :
    Topic.Registered (claimedTopic maxRetries) := by
  have hc : Clocked 0 [(Env.bare 0, Topic.Op.subscribe "a"),
      (Env.bare 0, Topic.Op.publish ⟨7, [1], none⟩), (Env.bare 0, Topic.Op.receive "a" 1000)] :=
    ⟨le_refl 0, le_refl 0, le_refl 0, trivial⟩
  exact ((Topic.Reach.init 0).ran hc).registered

def channelClaim : Receipt := ⟨7, 1, "orders", some .channel, ""⟩
def topicClaim : Receipt := ⟨7, 2, "orders", some .pubsub, "a"⟩

theorem nack_succeeds_plain :
    (∃ s', Channel.Sent.nackChannelImpl (.counting 3) (.bare 0) channelClaim [98, 0xFF] 0
      (claimedChannel 3) = .ok s') ∧
    (∃ x, Channel.Sent.nackChannelBatch (.counting 0) (.bare 0) [channelClaim] [98, 0xFF] 0
      (claimedChannel 0) = .ok x ∧
      ∀ r ∈ [channelClaim], Channel.live (claimedChannel 0) r = true → r ∈ x.1.succeeded) ∧
    (∃ s', Topic.Sent.nackTopicImpl (.counting 0) (.bare 0) "a" topicClaim [98, 0xFF] 0
      (claimedTopic 0) = .ok s') ∧
    (∃ x, Topic.Sent.nackTopicBatch (.counting 3) (.bare 0) "a" [topicClaim] [98, 0xFF] 0
      (claimedTopic 3) = .ok x ∧
      ∀ r ∈ [topicClaim], Topic.live (claimedTopic 3) "a" r = true → r ∈ x.1.succeeded) := by
  obtain ⟨h0, -, h1, h2, h3, h4⟩ := nack_succeeds_iff [98, 0xFF]
  have hz := h0 (by decide)
  exact ⟨(h1 _ _ _ _ _ (by decide)).mpr hz, (h2 _ _ _ _ _ rfl (by decide)).mpr hz,
    (h3 _ _ _ _ _ _ (registered_claimedTopic 0) (by decide)).mpr hz,
    (h4 _ _ _ _ _ _ (registered_claimedTopic 3) rfl (by decide)).mpr hz⟩

/-- one zero byte: it is valid UTF-8 and stays, and the database refuses it on all four paths -/
theorem nack_zero_byte_rejected :
    truncateErrorMsg [0] = [0] ∧ acceptsText [0] = false ∧
    Channel.liveClaim (claimedChannel 3) 7 = some 1 ∧
    Channel.Sent.nackChannelImpl (.counting 3) (.bare 0) channelClaim [0] 0 (claimedChannel 3) =
      .error .rejectedText ∧
    Channel.liveClaim (claimedChannel 0) 7 = some 1 ∧
    Channel.Sent.nackChannelImpl (.counting 0) (.bare 0) channelClaim [0] 0 (claimedChannel 0) =
      .error .rejectedText ∧
    Topic.liveClaim (claimedTopic 3) (7, "a") = some 2 ∧
    Topic.Sent.nackTopicImpl (.counting 3) (.bare 0) "a" topicClaim [0] 0 (claimedTopic 3) =
      .error .rejectedText ∧
    Topic.liveClaim (claimedTopic 0) (7, "a") = some 2 ∧
    Topic.Sent.nackTopicImpl (.counting 0) (.bare 0) "a" topicClaim [0] 0 (claimedTopic 0) =
      .error .rejectedText := by
  refine ⟨by decide, by decide, by decide, rfl, by decide, rfl, by decide, rfl, by decide, rfl⟩

end PgQueue
