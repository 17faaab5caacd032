import Mathlib.Data.Int.Order.Basic
import Mathlib.Logic.Function.Basic
import PgQueue.Relational.Table

/-!
# The data of the queue: identifiers, statuses, receipts, errors, configuration

* `Generator`        PostgreSQL's `uuidv7()`: successive draws, never repeated and never nil;
* `Receipt`          the acknowledgement credential of one delivery;
* `Queue`            what is fixed about one queue: its name, its retry caps, the generator;
* `Env`              what one transaction sees of the outside: the database clock, the queue's
                     TTL and paused flag, the client's backoff policy;
* `truncateErrorMsg` the failure reason as it is stored: valid UTF-8 of at most 1024 bytes.

A UUID is a number (its byte order is the numeric order), a timestamp is a number of
microseconds (PostgreSQL's resolution), and so is a duration.
-/

namespace PgQueue
open Relational List

abbrev UUID := Nat
abbrev Time := Int
abbrev Duration := Int
abbrev Bytes := List UInt8

/-- the order of the database clock -/
instance : Preorder Time := Int.instLinearOrder.toPartialOrder.toPreorder

/-- the nil UUID, the zero value of `uuid.UUID` -/
def UUID.nil : UUID := 0

/-- `uuidv7()`: the `i`-th value it returns -/
structure Generator where
  draw : Nat → UUID
  injective : Function.Injective draw
  ne_nil : ∀ i, draw i ≠ UUID.nil

def Generator.counting : Generator where
  draw i := i + 1
  injective := Nat.succ_injective
  ne_nil := Nat.succ_ne_zero

/-- distinct ids, each one of the first `n` values the generator returned -/
structure Drawn (gen : Generator) (n : Nat) (ids : List UUID) : Prop where
  nodup : ids.Nodup
  drawn : ∀ x ∈ ids, ∃ i < n, x = gen.draw i

variable {gen : Generator} {n n' : Nat} {now : Time} {sub : Option String} {reason : Bytes}
  {ids : List UUID} {a b : Time × UUID}

theorem Drawn.sublist {ids' : List UUID} (h : Drawn gen n ids) (hs : ids'.Sublist ids) (hn : n ≤ n') :
    Drawn gen n' ids' := by
  refine ⟨hs.nodup h.nodup, fun x hx => ?_⟩
  obtain ⟨i, hi, he⟩ := h.drawn x (hs.subset hx)
  exact ⟨i, Nat.lt_of_lt_of_le hi hn, he⟩

theorem Drawn.append {new : List UUID} (h : Drawn gen n ids) (hnew : new.Nodup)
    (hd : ∀ x ∈ new, ∃ i, n ≤ i ∧ i < n' ∧ x = gen.draw i) (hn : n ≤ n') :
    Drawn gen n' (ids ++ new) := by
  refine ⟨nodup_append.mpr ⟨h.nodup, hnew, ?_⟩, fun x hx => ?_⟩
  · rintro a ha b hb rfl
    obtain ⟨i, hi, he⟩ := h.drawn a ha
    obtain ⟨j, hj, -, he'⟩ := hd a hb
    have := gen.injective (he.symm.trans he')
    omega
  · rcases mem_append.mp hx with hx | hx
    · obtain ⟨i, hi, he⟩ := h.drawn x hx
      exact ⟨i, by omega, he⟩
    · obtain ⟨i, -, hi, he⟩ := hd x hx
      exact ⟨i, hi, he⟩

/-! ## statuses, receipts, errors -/

inductive MessageStatus where
  | pending
  | processing
  | completed
  | acked
deriving DecidableEq, Repr

theorem MessageStatus.pending_ne_acked : pending ≠ acked := nofun
theorem MessageStatus.processing_ne_acked : processing ≠ acked := nofun
theorem MessageStatus.completed_ne_acked : completed ≠ acked := nofun
theorem MessageStatus.pending_ne_completed : pending ≠ completed := nofun
theorem MessageStatus.processing_ne_completed : processing ≠ completed := nofun
theorem MessageStatus.acked_ne_completed : acked ≠ completed := nofun

inductive QueueType where
  | channel
  | pubsub
deriving DecidableEq, Repr

/-- a queue type that is neither of the two is `none` -/
structure Receipt where
  messageID : UUID
  claimID : UUID
  queueName : String
  queueType : Option QueueType
  subscriberID : String
deriving DecidableEq, Repr

inductive QueueError where
  | messageNotFound
  | messageAlreadyAcked
  | claimExpired
  | duplicateMessageID
  | queuePaused
  | unexpectedMessageStatus
  | invalidVisibilityTimeout
  | invalidSubscriberID
  | tooManySubscribers
  | subscriberNotFound
  | batchTooLarge
  | receiptMissingQueueType
  | channelNotFound
  | topicNotFound
  | replayMessageNotFound
  | messageInProcessing
  | foreignKeyViolation
deriving DecidableEq, Repr

/-- `classifyClaimState`: why a receipt matched no processing row; `row` is the status and the
claim of the row it names, if there is one -/
def classifyClaimState (row : Option (MessageStatus × Option UUID)) (expectedClaim : UUID) :
    QueueError :=
  match row with
  | none => .messageNotFound
  | some (status, claimID) =>
    if expectedClaim = UUID.nil then .messageAlreadyAcked
    else if claimID = some expectedClaim ∧ status ≠ .processing then .messageAlreadyAcked
    else .claimExpired

section
variable {row : Option (MessageStatus × Option UUID)} {c : UUID}

theorem classifyClaimState_notFound :
    classifyClaimState row c = .messageNotFound ↔ row = none := by
  unfold classifyClaimState
  match row with
  | none => simp
  | some (status, claimID) =>
    dsimp only
    split
    · simp
    · split <;> simp

theorem classifyClaimState_alreadyAcked (hc : c ≠ UUID.nil) :
    classifyClaimState row c = .messageAlreadyAcked ↔
      ∃ status, row = some (status, some c) ∧ status ≠ .processing := by
  unfold classifyClaimState
  match row with
  | none => simp
  | some (status, claimID) =>
    dsimp only
    rw [if_neg hc]
    split
    · rename_i h
      simp [h.1, h.2]
    · rename_i h
      simp only [reduceCtorEq, false_iff, not_exists, not_and, not_not]
      rintro status' he
      obtain ⟨rfl, rfl⟩ := Prod.mk.inj (Option.some.inj he)
      exact not_not.mp fun hne => h ⟨rfl, hne⟩

theorem classifyClaimState_nil :
    classifyClaimState row UUID.nil = .messageAlreadyAcked ↔ row.isSome := by
  match row with
  | none => simp [classifyClaimState]
  | some (status, claimID) => simp [classifyClaimState]

/-- there is no fourth answer -/
theorem classifyClaimState_cases (row : Option (MessageStatus × Option UUID)) (c : UUID) :
    classifyClaimState row c = .messageNotFound ∨ classifyClaimState row c = .messageAlreadyAcked ∨
      classifyClaimState row c = .claimExpired := by
  unfold classifyClaimState
  match row with
  | none => exact Or.inl rfl
  | some (status, claimID) =>
    dsimp only
    split
    · exact Or.inr (Or.inl rfl)
    · split
      · exact Or.inr (Or.inl rfl)
      · exact Or.inr (Or.inr rfl)

theorem classifyClaimState_eq_iff {row' : Option (MessageStatus × Option UUID)} :
    classifyClaimState row' c = classifyClaimState row c ↔
      (classifyClaimState row' c = .messageNotFound ↔ classifyClaimState row c = .messageNotFound) ∧
      (classifyClaimState row' c = .messageAlreadyAcked ↔
        classifyClaimState row c = .messageAlreadyAcked) := by
  rcases classifyClaimState_cases row c with h | h | h <;>
    rcases classifyClaimState_cases row' c with h' | h' | h' <;> simp [h, h']

end

/-! ## configuration -/

structure QueueConfig where
  maxRetries : Nat
  maxRetriesSet : Bool
deriving DecidableEq, Repr

/-- one queue; `config` is `none` when the stored JSON does not parse -/
structure Queue where
  gen : Generator
  name : String
  defaultMaxRetries : Nat
  config : Option QueueConfig

def Queue.resolveMaxRetries (q : Queue) : Nat :=
  match q.config with
  | none => q.defaultMaxRetries
  | some opts =>
    if opts.maxRetriesSet then opts.maxRetries
    else if opts.maxRetries > 0 then opts.maxRetries
    else q.defaultMaxRetries

def Queue.counting (maxRetries : Nat) : Queue := ⟨.counting, "orders", maxRetries, none⟩

/-- what one transaction sees of the outside.  `policyDelay id attempt` is the backoff policy
advanced `attempt` times for the message `id`, with the jitter this call happened to draw -/
structure Env where
  now : Time
  ttl : Duration
  paused : Bool
  backoffConfigured : Bool
  policyDelay : UUID → Nat → Duration
  maxSubscribersPerTopic : Nat

def Env.bare (now : Time) : Env := ⟨now, 0, false, false, fun _ _ => 0, 0⟩

/-- the part of the TTL clause of the consume probes that looks at one row -/
def Env.withinTTL (env : Env) (createdAt : Time) : Bool :=
  decide (env.ttl ≤ 0) || decide (createdAt > env.now - env.ttl)

def millisecond : Duration := 1000
def hour : Duration := 3600 * 1000 * millisecond

def minVisibilityTimeout : Duration := millisecond
def maxVisibilityTimeout : Duration := 24 * hour
def maxRetryDelay : Duration := 24 * hour

def validateVisibilityTimeout (d : Duration) : Except QueueError Unit :=
  if d < minVisibilityTimeout ∨ d > maxVisibilityTimeout then .error .invalidVisibilityTimeout
  else .ok ()

theorem pos_of_validateVisibilityTimeout {d : Duration} (h : validateVisibilityTimeout d = .ok ()) :
    0 < d := by
  unfold validateVisibilityTimeout at h
  split at h
  · cases h
  · rename_i hd
    have hmin : (0 : Duration) < minVisibilityTimeout := by decide
    exact Int.lt_of_lt_of_le hmin (Int.not_lt.mp fun hlt => hd (Or.inl hlt))

/-- the delay before a retry: a positive override wins, up to `maxRetryDelay` -/
def Env.computeRetryDelay (env : Env) (id : UUID) (attempt : Nat) (override : Duration) :
    Duration :=
  if override > 0 then
    if override > maxRetryDelay then maxRetryDelay else override
  else env.policyDelay id attempt

def maxBatchSize : Nat := 1000

def validateBatchSize (size : Nat) : Except QueueError Unit :=
  if size > maxBatchSize then .error .batchTooLarge else .ok ()

theorem validateBatchSize_ok {size : Nat} : validateBatchSize size = .ok () ↔ size ≤ maxBatchSize := by
  unfold validateBatchSize
  split
  · rename_i h
    exact ⟨nofun, fun hle => absurd h (Nat.not_lt.mpr hle)⟩
  · rename_i h
    exact ⟨fun _ => Nat.le_of_not_lt h, fun _ => rfl⟩

def maxSubscriberIDLength : Nat := 128

/-- a subscriber id is 1 to 128 letters, digits, underscores and hyphens -/
def validateSubscriberID (id : String) : Except QueueError Unit :=
  if id.toList ≠ [] ∧ id.toList.length ≤ maxSubscriberIDLength ∧
      id.toList.all (fun c => c.isAlphanum || c == '_' || c == '-') then .ok ()
  else .error .invalidSubscriberID

/-! ## failure reasons -/

def isContinuation (b : UInt8) : Bool := 0x80 ≤ b && b ≤ 0xBF

/-- the bytes a three-byte sequence may have second: no overlong form, no surrogate -/
def secondOfThree (b0 b1 : UInt8) : Bool :=
  if b0 = 0xE0 then 0xA0 ≤ b1 && b1 ≤ 0xBF
  else if b0 = 0xED then 0x80 ≤ b1 && b1 ≤ 0x9F
  else isContinuation b1

/-- the bytes a four-byte sequence may have second: no overlong form, nothing over U+10FFFF -/
def secondOfFour (b0 b1 : UInt8) : Bool :=
  if b0 = 0xF0 then 0x90 ≤ b1 && b1 ≤ 0xBF
  else if b0 = 0xF4 then 0x80 ≤ b1 && b1 ≤ 0x8F
  else isContinuation b1

/-- the length of the UTF-8 sequence a byte string starts with, `0` if it starts with none -/
def runeLen : Bytes → Nat
  | [] => 0
  | b0 :: bs =>
    if b0 < 0x80 then 1
    else if 0xC2 ≤ b0 ∧ b0 ≤ 0xDF then
      match bs with
      | b1 :: _ => if isContinuation b1 then 2 else 0
      | _ => 0
    else if 0xE0 ≤ b0 ∧ b0 ≤ 0xEF then
      match bs with
      | b1 :: b2 :: _ => if secondOfThree b0 b1 && isContinuation b2 then 3 else 0
      | _ => 0
    else if 0xF0 ≤ b0 ∧ b0 ≤ 0xF4 then
      match bs with
      | b1 :: b2 :: b3 :: _ =>
        if secondOfFour b0 b1 && isContinuation b2 && isContinuation b3 then 4 else 0
      | _ => 0
    else 0

/-- `utf8.ValidString`, reading at most `fuel` sequences -/
def validFrom : Nat → Bytes → Bool
  | _, [] => true
  | 0, _ => false
  | fuel + 1, bs => if runeLen bs = 0 then false else validFrom fuel (bs.drop (runeLen bs))

def validString (bs : Bytes) : Bool := validFrom bs.length bs

def replacement : Bytes := [0xEF, 0xBF, 0xBD]

/-- `strings.ToValidUTF8`: every run of invalid bytes becomes one replacement character;
`inRun` tells that the byte before was invalid -/
def toValidFrom : Nat → Bool → Bytes → Bytes
  | _, _, [] => []
  | 0, _, _ => []
  | fuel + 1, inRun, bs =>
    if runeLen bs = 0 then
      (if inRun then [] else replacement) ++ toValidFrom fuel true bs.tail
    else bs.take (runeLen bs) ++ toValidFrom fuel false (bs.drop (runeLen bs))

def toValidUTF8 (bs : Bytes) : Bytes := toValidFrom bs.length false bs

def maxErrorMessageLength : Nat := 1024

/-- drop bytes from the end until the string is valid -/
def trimToValid : Nat → Bytes → Bytes
  | 0, _ => []
  | fuel + 1, bs => if validString bs then bs else trimToValid fuel bs.dropLast

def truncateErrorMsg (msg : Bytes) : Bytes :=
  if validString msg ∧ msg.length ≤ maxErrorMessageLength then msg
  else
    let msg := if validString msg then msg else toValidUTF8 msg
    if msg.length ≤ maxErrorMessageLength then msg
    else trimToValid maxErrorMessageLength (msg.take maxErrorMessageLength)

/-- the reason stored when a message is dead-lettered by its visibility timeout -/
def errReasonVisibilityTimeout : Bytes :=
  "exceeded max retries: not acknowledged before visibility timeout".toUTF8.data.toList

/-! ## deliveries and dead letters -/

/-- a delivered message, with the queue binding its receipt carries -/
structure Message where
  id : UUID
  claimID : UUID
  payload : Bytes
  createdAt : Time
  status : MessageStatus
  retryCount : Nat
  maxRetries : Nat
  metadata : Option Bytes
  processedAt : Option Time
  errorMessage : Option Bytes
  visibilityTimeout : Option Time
  receipt : Receipt
deriving DecidableEq, Repr

/-- a row of a dead-letter table; a channel leaves `subscriberID` NULL -/
structure DLQRow where
  id : UUID
  originalMessageID : UUID
  subscriberID : Option String
  payload : Bytes
  failureReason : Bytes
  retryCount : Nat
  movedAt : Time
  metadata : Option Bytes
deriving DecidableEq, Repr

/-- what a dead letter keeps of its message -/
def DLQRow.content (d : DLQRow) : UUID × Bytes × Option Bytes :=
  (d.originalMessageID, d.payload, d.metadata)

/-- a dead letter up to its own id, which is drawn afresh -/
def DLQRow.withoutID (d : DLQRow) : DLQRow := { d with id := UUID.nil }

structure PublishMessage where
  id : UUID
  payload : Bytes
  metadata : Option Bytes
deriving DecidableEq, Repr

/-- a receipt whose ack or nack did not apply, with the reason -/
structure FailedReceipt where
  receipt : Receipt
  reason : QueueError
deriving DecidableEq, Repr

def FailedReceipt.pair (f : FailedReceipt) : Receipt × QueueError := (f.receipt, f.reason)

structure BatchResult where
  succeeded : List Receipt
  failed : List FailedReceipt
deriving DecidableEq, Repr

structure DLQMessage where
  id : UUID
  payload : Bytes
  retryCount : Nat
  metadata : Option Bytes
deriving DecidableEq, Repr

/-- the rows one `INSERT` into the dead-letter table adds; `seq` is the first id drawn -/
def dlqRows (gen : Generator) (seq : Nat) (now : Time) (subscriberID : Option String)
    (failureReason : Bytes) : List DLQMessage → List DLQRow
  | [] => []
  | m :: ms =>
    ⟨gen.draw seq, m.id, subscriberID, m.payload, failureReason, m.retryCount, now, m.metadata⟩
      :: dlqRows gen (seq + 1) now subscriberID failureReason ms

theorem mem_dlqRows {seq : Nat} {ms : List DLQMessage} {d : DLQRow}
    (h : d ∈ dlqRows gen seq now sub reason ms) :
    ∃ m ∈ ms, d.originalMessageID = m.id ∧ d.retryCount = m.retryCount ∧ d.subscriberID = sub := by
  induction ms generalizing seq with
  | nil => cases h
  | cons m ms ih =>
    rcases mem_cons.mp h with rfl | h
    · exact ⟨m, mem_cons_self, rfl, rfl, rfl⟩
    · obtain ⟨m', hm', he⟩ := ih h
      exact ⟨m', mem_cons_of_mem _ hm', he⟩

theorem id_of_mem_dlqRows {seq : Nat} {ms : List DLQMessage} {d : DLQRow}
    (h : d ∈ dlqRows gen seq now sub reason ms) :
    ∃ i, seq ≤ i ∧ i < seq + ms.length ∧ d.id = gen.draw i := by
  induction ms generalizing seq with
  | nil => cases h
  | cons m ms ih =>
    rw [length_cons]
    rcases mem_cons.mp h with rfl | h
    · exact ⟨seq, Nat.le_refl _, by omega, rfl⟩
    · obtain ⟨i, hi, hlt, he⟩ := ih h
      exact ⟨i, by omega, by omega, he⟩

theorem nodup_dlqRows (gen : Generator) (seq : Nat) (now : Time) (sub : Option String)
    (reason : Bytes) (ms : List DLQMessage) :
    ((dlqRows gen seq now sub reason ms).map DLQRow.id).Nodup := by
  induction ms generalizing seq with
  | nil => exact nodup_nil
  | cons m ms ih =>
    refine nodup_cons.mpr ⟨fun hmem => ?_, ih (seq + 1)⟩
    obtain ⟨d, hd, he⟩ := mem_map.mp hmem
    obtain ⟨i, hi, -, hid⟩ := id_of_mem_dlqRows hd
    have := gen.injective (hid.symm.trans he)
    omega

theorem Drawn.dlqRows {dlq : List DLQRow} {ms : List DLQMessage} (h : Drawn gen n (dlq.map DLQRow.id))
    (hn : n + ms.length ≤ n') :
    Drawn gen n' ((dlq ++ dlqRows gen n now sub reason ms).map DLQRow.id) := by
  rw [map_append]
  refine h.append (nodup_dlqRows gen n now sub reason ms) (fun x hx => ?_) (by omega)
  obtain ⟨d, hd, rfl⟩ := mem_map.mp hx
  obtain ⟨i, hi, hlt, he⟩ := id_of_mem_dlqRows hd
  exact ⟨i, hi, by omega, he⟩

theorem dlqRows_append (gen : Generator) (seq : Nat) (now : Time) (sub : Option String)
    (reason : Bytes) (ms ms' : List DLQMessage) :
    dlqRows gen seq now sub reason (ms ++ ms') =
      dlqRows gen seq now sub reason ms ++ dlqRows gen (seq + ms.length) now sub reason ms' := by
  induction ms generalizing seq with
  | nil => rfl
  | cons m ms ih =>
    show _ :: dlqRows gen (seq + 1) now sub reason (ms ++ ms') = _ :: _
    rw [ih, length_cons, Nat.add_assoc, Nat.add_comm 1]
    rfl

theorem withoutID_dlqRows (gen : Generator) (seq : Nat) (now : Time) (sub : Option String)
    (reason : Bytes) (ms : List DLQMessage) :
    (dlqRows gen seq now sub reason ms).map DLQRow.withoutID =
      ms.map fun m => ⟨UUID.nil, m.id, sub, m.payload, reason, m.retryCount, now, m.metadata⟩ := by
  induction ms generalizing seq with
  | nil => rfl
  | cons m ms ih => exact congrArg (_ :: ·) (ih (seq + 1))

theorem originalMessageID_dlqRows (gen : Generator) (seq : Nat) (now : Time) (sub : Option String)
    (reason : Bytes) (ms : List DLQMessage) :
    (dlqRows gen seq now sub reason ms).map DLQRow.originalMessageID = ms.map DLQMessage.id := by
  induction ms generalizing seq with
  | nil => rfl
  | cons m ms ih => exact congrArg (m.id :: ·) (ih (seq + 1))

inductive ReplayOperation where
  | timestamp (since : Time)
  | messageID (id : UUID)
  | dlq
deriving DecidableEq, Repr

structure ReplayLogRow where
  id : UUID
  queueType : QueueType
  queueName : String
  operation : ReplayOperation
  messageCount : Nat
  createdAt : Time
  createdBy : Option String
deriving DecidableEq, Repr

/-- how many timed-out rows one consume call skips at most -/
def maxConsumeReclaimDefers : Nat := 64

/-- what a consume call does about a row that timed out: deliver it again with this retry count,
or skip it, having deferred or dead-lettered it -/
inductive Reclaim where
  | deliver (retryCount : Nat)
  | skipped
deriving DecidableEq, Repr

/-- the set of receipts that one batch transaction works on -/
structure ReceiptGroupKey where
  queueType : Option QueueType
  queueName : String
  subscriberID : String
deriving DecidableEq, Repr

def Receipt.groupKey (r : Receipt) : ReceiptGroupKey := ⟨r.queueType, r.queueName, r.subscriberID⟩

/-- one group of `groupReceiptsByQueue`: equal receipts are collapsed, the order is kept -/
def receiptGroup (rs : List Receipt) (k : ReceiptGroupKey) : List Receipt :=
  (firstBy id rs).filter fun r => decide (r.groupKey = k)

/-- `finishBatch`: the receipts whose (message, claim) pair was matched succeed, the others are
classified; both keep the order of the receipts -/
def finishBatch (rs : List Receipt) (matched : List (UUID × UUID))
    (classify : List Receipt → List FailedReceipt) : BatchResult :=
  let isMatched := fun r : Receipt => matched.contains (r.messageID, r.claimID)
  { succeeded := rs.filter isMatched
    failed := classify (rs.filter fun r => !isMatched r) }

theorem finishBatch_eq {rs : List Receipt} {matched : List (UUID × UUID)} {live : Receipt → Bool}
    {classify : List Receipt → List FailedReceipt}
    (h : ∀ r ∈ rs, (r.messageID, r.claimID) ∈ matched ↔ live r = true) :
    finishBatch rs matched classify =
      ⟨rs.filter live, classify (rs.filter fun r => !live r)⟩ := by
  have hm : ∀ r ∈ rs, matched.contains (r.messageID, r.claimID) = live r := by
    intro r hr
    rw [Bool.eq_iff_iff, contains_iff_mem, h r hr]
  unfold finishBatch
  dsimp only
  rw [filter_congr hm, filter_congr fun r hr => congrArg not (hm r hr)]

/-- `ORDER BY` a timestamp, then an id -/
def Earlier (a b : Time × UUID) : Prop := a.1 < b.1 ∨ a.1 = b.1 ∧ a.2 ≤ b.2

instance : DecidableRel Earlier := fun a b =>
  inferInstanceAs (Decidable (a.1 < b.1 ∨ a.1 = b.1 ∧ a.2 ≤ b.2))

theorem Earlier.total (a b : Time × UUID) : Earlier a b ∨ Earlier b a := by
  rcases Int.lt_trichotomy a.1 b.1 with h | h | h
  · exact Or.inl (Or.inl h)
  · exact (Nat.le_total a.2 b.2).imp (fun hle => Or.inr ⟨h, hle⟩) fun hle => Or.inr ⟨h.symm, hle⟩
  · exact Or.inr (Or.inl h)

theorem Earlier.trans {c : Time × UUID} (h : Earlier a b) (h' : Earlier b c) : Earlier a c := by
  rcases h with h | ⟨h, hid⟩
  · rcases h' with h' | ⟨h', -⟩
    · exact Or.inl (Int.lt_trans h h')
    · exact Or.inl (h' ▸ h)
  · rcases h' with h' | ⟨h', hid'⟩
    · exact Or.inl (h.symm ▸ h')
    · exact Or.inr ⟨h.trans h', Nat.le_trans hid hid'⟩

theorem Earlier.antisymm (h : Earlier a b) (h' : Earlier b a) : a.2 = b.2 := by
  rcases h with h | ⟨h, hid⟩
  · rcases h' with h' | ⟨h', -⟩
    · exact absurd (Int.lt_trans h h') (Int.lt_irrefl _)
    · exact absurd (h' ▸ h) (Int.lt_irrefl _)
  · rcases h' with h' | ⟨-, hid'⟩
    · exact absurd (h ▸ h') (Int.lt_irrefl _)
    · exact Nat.le_antisymm hid hid'

theorem Earlier.pairwise_insertionSort {ρ : Type} (place : ρ → Time × UUID) (l : List ρ) :
    (l.insertionSort fun a b => Earlier (place a) (place b)).Pairwise fun a b =>
      Earlier (place a) (place b) := by
  have htotal : Std.Total fun a b : ρ => Earlier (place a) (place b) := ⟨fun a b => Earlier.total _ _⟩
  have htrans : IsTrans ρ fun a b => Earlier (place a) (place b) := ⟨fun _ _ _ h h' => h.trans h'⟩
  exact List.pairwise_insertionSort _ l

end PgQueue
