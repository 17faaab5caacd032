import PgQueue.Channel.Model
import PgQueue.Topic.Fanout
import PgQueue.Process.Drain

/-!
# Publishing

`Publish` and `PublishBatch` check what the caller passed before they write.  A caller may leave the id
of a message out, then `NewUUIDv7` makes one, and its metadata is stored as JSON.

* `Publisher`        what the calls read besides the tables: the caps and the JSON encoder;
* `Call`             one message of a call, with the id that `NewUUIDv7` returns if it is asked;
* `publish`          one message: payload, id, metadata, transaction;
* `publishBatch`     all payloads, the total size, all ids and metadata, one transaction.

Both take the transaction as an argument; a channel and a topic put in their own.
`publishBatch_iff`: **if the transaction of a batch is the transactions of its messages, a batch call
that is not too large succeeds if and only if the single calls do, and has their effect.**
-/

namespace PgQueue
open Relational Process List

/-! ## the calls -/

/-- the two size errors carry the size and the limit of their text -/
inductive PublishError where
  | queueClosed
  | nilPayload
  | messageSizeExceeded (size : Nat) (limit : Int)
  | batchTooLarge (total : Nat) (limit : Int)
  | generateID
  | marshalMetadata
  | metadataSizeExceeded (size : Nat) (limit : Int)
  | rejected (e : QueueError)
deriving DecidableEq, Repr

/-- a message as the caller passes it: the nil id asks for a generated one, a nil payload is `none` -/
structure Outgoing (μ : Type) where
  id : UUID
  payload : Option Bytes
  metadata : Option μ

/-- the length of a nil payload is `0` -/
def Outgoing.bytes {μ : Type} (m : Outgoing μ) : Bytes := m.payload.getD []

/-- `generated` is what `NewUUIDv7` returns for this message, `none` if it fails -/
structure Call (μ : Type) where
  message : Outgoing μ
  generated : Option UUID

structure SizeConfig where
  maxMessageSize : Int
  maxMetadataSize : Int
deriving DecidableEq, Repr

/-- the client and the queue; `sizes` is `none` when the stored JSON does not parse, `marshal` is
`json.Marshal` -/
structure Publisher (μ : Type) where
  closed : Bool
  maxMessageSize : Int
  maxMetadataSize : Int
  maxBatchBytes : Int
  sizes : Option SizeConfig
  marshal : μ → Option Bytes

namespace Publisher

section
variable {μ σ : Type} (pub : Publisher μ)

def checkClosed : Except PublishError Unit := if pub.closed then .error .queueClosed else .ok ()

def resolveMaxMessageSize : Int :=
  let size :=
    match pub.sizes with
    | none => pub.maxMessageSize
    | some config => config.maxMessageSize
  if size = 0 then pub.maxMessageSize else size

def resolveMaxMetadataSize : Int :=
  match pub.sizes with
  | none => pub.maxMetadataSize
  | some config => if config.maxMetadataSize > 0 then config.maxMetadataSize else pub.maxMetadataSize

def checkPayloadSize (maxMessageSize : Int) (payload : Bytes) : Except PublishError Unit :=
  if (payload.length : Int) > maxMessageSize then
    .error (.messageSizeExceeded payload.length maxMessageSize)
  else .ok ()

def checkPayload (maxMessageSize : Int) (m : Outgoing μ) : Except PublishError Unit :=
  match m.payload with
  | none => .error .nilPayload
  | some payload => checkPayloadSize maxMessageSize payload

/-- a limit that is not positive is no limit -/
def marshalMetadataWithLimit (limit : Int) (metadata : Option μ) : Except PublishError (Option Bytes) :=
  match metadata with
  | none => .ok none
  | some value =>
    match pub.marshal value with
    | none => .error .marshalMetadata
    | some json =>
      if limit > 0 ∧ (json.length : Int) > limit then
        .error (.metadataSizeExceeded json.length limit)
      else .ok (some json)

def messageID (c : Call μ) : Except PublishError UUID :=
  if c.message.id = UUID.nil then
    match c.generated with
    | none => .error .generateID
    | some id => .ok id
  else .ok c.message.id

/-- the message as it is written: first the id, then the metadata -/
def prepareMessage (maxMetaSize : Int) (c : Call μ) : Except PublishError PublishMessage := do
  let id ← messageID c
  let metadata ← pub.marshalMetadataWithLimit maxMetaSize c.message.metadata
  return ⟨id, c.message.bytes, metadata⟩

/-- a call that fails leaves the tables alone -/
def withTx {α : Type} (s : σ) : Except PublishError (α × σ) → Except PublishError α × σ
  | .error e => (.error e, s)
  | .ok (a, s') => (.ok a, s')

def inTx : Except QueueError σ → Except PublishError σ
  | .error e => .error (.rejected e)
  | .ok s => .ok s

def publish (tx : PublishMessage → σ → Except QueueError σ) (c : Call μ) (s : σ) :
    Except PublishError UUID × σ :=
  withTx s do
    pub.checkClosed
    checkPayload pub.resolveMaxMessageSize c.message
    let m ← pub.prepareMessage pub.resolveMaxMetadataSize c
    let s' ← inTx (tx m s)
    return (m.id, s')

/-- the size cap is resolved once, the first message that fails decides -/
def checkPayloads (maxMsgSize : Int) : List (Call μ) → Except PublishError Unit
  | [] => .ok ()
  | c :: cs => do
    checkPayload maxMsgSize c.message
    checkPayloads maxMsgSize cs

def totalBytes (cs : List (Call μ)) : Nat :=
  cs.foldl (fun total c => total + c.message.bytes.length) 0

def checkBatchBytes (total : Nat) : Except PublishError Unit :=
  if pub.maxBatchBytes > 0 ∧ (total : Int) > pub.maxBatchBytes then
    .error (.batchTooLarge total pub.maxBatchBytes)
  else .ok ()

def prepareBatchMessages (maxMetaSize : Int) :
    List (Call μ) → Except PublishError (List PublishMessage)
  | [] => .ok []
  | c :: cs => do
    let m ← pub.prepareMessage maxMetaSize c
    let ms ← prepareBatchMessages maxMetaSize cs
    return m :: ms

def publishBatchResolved (tx : List PublishMessage → σ → Except QueueError σ) (cs : List (Call μ))
    (s : σ) : Except PublishError (List UUID × σ) := do
  checkPayloads pub.resolveMaxMessageSize cs
  pub.checkBatchBytes (totalBytes cs)
  let ms ← pub.prepareBatchMessages pub.resolveMaxMetadataSize cs
  let s' ← inTx (tx ms s)
  return (ms.map PublishMessage.id, s')

def publishBatch (tx : List PublishMessage → σ → Except QueueError σ) (cs : List (Call μ)) (s : σ) :
    Except PublishError (List UUID) × σ :=
  withTx s do
    pub.checkClosed
    if cs.isEmpty then .ok ([], s)
    else
      match validateBatchSize cs.length with
      | .error e => .error (.rejected e)
      | .ok () => pub.publishBatchResolved tx cs s

end

/-! ## when a call succeeds -/

section
variable {μ σ : Type} {pub : Publisher μ} {s s' : σ} {cs : List (Call μ)}
  {tx : PublishMessage → σ → Except QueueError σ} {c : Call μ} {ids : List UUID} {limit : Int}
  {e : PublishError} {ms : List PublishMessage} {m : PublishMessage}
  {txs : List PublishMessage → σ → Except QueueError σ}

theorem bind_ok {α β ε : Type} {x : Except ε α} {f : α → Except ε β} {b : β} :
    (x >>= f) = .ok b ↔ ∃ a, x = .ok a ∧ f a = .ok b := by
  cases x with
  | error e => exact ⟨nofun, fun ⟨_, h, _⟩ => nomatch h⟩
  | ok a => exact ⟨fun h => ⟨a, rfl, h⟩, fun ⟨_, h, hf⟩ => Except.ok.inj h ▸ hf⟩

theorem withTx_ok {α : Type} {r : Except PublishError (α × σ)} {a : α} :
    withTx s r = (.ok a, s') ↔ r = .ok (a, s') := by
  match r with
  | .error e => exact ⟨nofun, nofun⟩
  | .ok (b, t) =>
    constructor
    · intro h
      obtain ⟨hb, ht⟩ := Prod.mk.inj h
      cases hb
      cases ht
      rfl
    · intro h
      cases h
      rfl

theorem withTx_error {α : Type} {r : Except PublishError (α × σ)} (h : withTx s r = (.error e, s')) :
    s' = s := by
  match r, h with
  | .error _, h => exact (Prod.mk.inj h).2.symm

theorem inTx_ok {r : Except QueueError σ} : inTx r = .ok s ↔ r = .ok s := by
  match r with
  | .error e => exact ⟨nofun, nofun⟩
  | .ok t => exact ⟨fun h => congrArg Except.ok (Except.ok.inj h), fun h => h ▸ rfl⟩

theorem publish_ok {id : UUID} :
    pub.publish tx c s = (.ok id, s') ↔
      pub.checkClosed = .ok () ∧ checkPayload pub.resolveMaxMessageSize c.message = .ok () ∧
        ∃ m, pub.prepareMessage pub.resolveMaxMetadataSize c = .ok m ∧ tx m s = .ok s' ∧ m.id = id := by
  unfold publish
  rw [withTx_ok]
  simp only [bind_ok, inTx_ok]
  constructor
  · rintro ⟨⟨⟩, hc, ⟨⟩, hp, m, hm, t, ht, h⟩
    cases h
    exact ⟨hc, hp, m, hm, ht, rfl⟩
  · rintro ⟨hc, hp, m, hm, ht, rfl⟩
    exact ⟨(), hc, (), hp, m, hm, s', ht, rfl⟩

theorem publishBatch_ok {tx : List PublishMessage → σ → Except QueueError σ} (hne : cs ≠ [])
    (hsize : cs.length ≤ maxBatchSize)
    (hbytes : pub.maxBatchBytes ≤ 0 ∨ (totalBytes cs : Int) ≤ pub.maxBatchBytes) :
    pub.publishBatch tx cs s = (.ok ids, s') ↔
      pub.checkClosed = .ok () ∧ checkPayloads pub.resolveMaxMessageSize cs = .ok () ∧
        ∃ ms, pub.prepareBatchMessages pub.resolveMaxMetadataSize cs = .ok ms ∧ tx ms s = .ok s' ∧
          ms.map PublishMessage.id = ids := by
  have hv := validateBatchSize_ok.mpr hsize
  have hb : pub.checkBatchBytes (totalBytes cs) = .ok () := by
    refine if_neg fun h => ?_
    omega
  unfold publishBatch publishBatchResolved
  rw [withTx_ok, hv, isEmpty_eq_false_iff.mpr hne, if_neg Bool.false_ne_true]
  simp only [bind_ok, inTx_ok, hb]
  constructor
  · rintro ⟨⟨⟩, hc, ⟨⟩, hp, ⟨⟩, -, ms, hm, t, ht, h⟩
    cases h
    exact ⟨hc, hp, ms, hm, ht, rfl⟩
  · rintro ⟨hc, hp, ms, hm, ht, rfl⟩
    exact ⟨(), hc, (), hp, (), trivial, ms, hm, s', ht, rfl⟩

theorem publishBatch_spec {tx : List PublishMessage → σ → Except QueueError σ}
    (h : pub.publishBatch tx cs s = (.ok ids, s')) :
    (cs = [] ∧ ids = [] ∧ s' = s) ∨ (cs ≠ [] ∧ cs.length ≤ maxBatchSize ∧
      ∃ ms, pub.prepareBatchMessages pub.resolveMaxMetadataSize cs = .ok ms ∧ tx ms s = .ok s' ∧
        ms.map PublishMessage.id = ids) := by
  unfold publishBatch at h
  obtain ⟨⟨⟩, -, h⟩ := bind_ok.mp (withTx_ok.mp h)
  by_cases hnil : cs = []
  · subst hnil
    cases h
    exact Or.inl ⟨rfl, rfl, rfl⟩
  · rw [isEmpty_eq_false_iff.mpr hnil, if_neg Bool.false_ne_true] at h
    cases hv : validateBatchSize cs.length with
    | error e => rw [hv] at h; cases h
    | ok _ =>
      rw [hv] at h
      unfold publishBatchResolved at h
      simp only [bind_ok, inTx_ok] at h
      obtain ⟨_, -, _, -, ms, hms, t, ht, h⟩ := h
      cases h
      exact Or.inr ⟨hnil, validateBatchSize_ok.mp hv, ms, hms, ht, rfl⟩

theorem prepareMessage_generated (hid : c.message.id = UUID.nil)
    (h : pub.prepareMessage limit c = .ok m) : c.generated = some m.id := by
  unfold prepareMessage messageID at h
  rw [if_pos hid] at h
  simp only [bind_ok] at h
  obtain ⟨id, hgen, metadata, -, h⟩ := h
  cases h
  cases hg : c.generated with
  | none => rw [hg] at hgen; cases hgen
  | some id' =>
    rw [hg] at hgen
    cases hgen
    rfl

/-! ## the single calls, one after another -/

/-- the transactions of some messages, each of which has to succeed -/
def eachTx (tx : PublishMessage → σ → Except QueueError σ) : List PublishMessage → σ → Except QueueError σ
  | [], s => .ok s
  | m :: ms, s =>
    match tx m s with
    | .error e => .error e
    | .ok s' => eachTx tx ms s'

theorem eachTx_cons :
    eachTx tx (m :: ms) s = .ok s' ↔ ∃ s₁, tx m s = .ok s₁ ∧ eachTx tx ms s₁ = .ok s' := by
  rw [eachTx]
  cases tx m s with
  | error e => exact ⟨nofun, fun ⟨_, h, _⟩ => nomatch h⟩
  | ok s₁ => exact ⟨fun h => ⟨s₁, rfl, h⟩, fun ⟨_, h, hf⟩ => Except.ok.inj h ▸ hf⟩

theorem checkPayloads_cons :
    checkPayloads limit (c :: cs) = .ok () ↔
      checkPayload limit c.message = .ok () ∧ checkPayloads limit cs = .ok () := by
  rw [checkPayloads, bind_ok]
  exact ⟨fun ⟨_, h⟩ => h, fun h => ⟨(), h⟩⟩

theorem prepareBatchMessages_cons :
    pub.prepareBatchMessages limit (c :: cs) = .ok ms ↔
      ∃ m ms', pub.prepareMessage limit c = .ok m ∧ pub.prepareBatchMessages limit cs = .ok ms' ∧
        m :: ms' = ms := by
  rw [prepareBatchMessages]
  simp only [bind_ok]
  constructor
  · rintro ⟨m, hm, ms', hms, h⟩
    exact ⟨m, ms', hm, hms, Except.ok.inj h⟩
  · rintro ⟨m, ms', hm, hms, rfl⟩
    exact ⟨m, hm, ms', hms, rfl⟩

theorem callAll_publish (hc : pub.checkClosed = .ok ()) :
    callAll (pub.publish tx) cs s = (.ok ids, s') ↔
      checkPayloads pub.resolveMaxMessageSize cs = .ok () ∧
        ∃ ms, pub.prepareBatchMessages pub.resolveMaxMetadataSize cs = .ok ms ∧
          eachTx tx ms s = .ok s' ∧ ms.map PublishMessage.id = ids := by
  induction cs generalizing s ids with
  | nil =>
    constructor
    · intro h
      cases h
      exact ⟨rfl, [], rfl, rfl, rfl⟩
    · rintro ⟨-, ms, hms, ht, rfl⟩
      cases hms
      cases ht
      rfl
  | cons c cs ih =>
    rw [callAll_cons, checkPayloads_cons]
    constructor
    · rintro ⟨id, s₁, ids', hp, hcs, rfl⟩
      obtain ⟨-, hpay, m, hm, ht, rfl⟩ := publish_ok.mp hp
      obtain ⟨hpays, ms, hms, hts, rfl⟩ := ih.mp hcs
      exact ⟨⟨hpay, hpays⟩, m :: ms, prepareBatchMessages_cons.mpr ⟨m, ms, hm, hms, rfl⟩,
        eachTx_cons.mpr ⟨s₁, ht, hts⟩, rfl⟩
    · rintro ⟨⟨hpay, hpays⟩, _, hprep, hts, rfl⟩
      obtain ⟨m, ms, hm, hms, rfl⟩ := prepareBatchMessages_cons.mp hprep
      obtain ⟨s₁, ht, hts⟩ := eachTx_cons.mp hts
      exact ⟨m.id, s₁, ms.map PublishMessage.id, publish_ok.mpr ⟨hc, hpay, m, hm, ht, rfl⟩,
        ih.mpr ⟨hpays, ms, hms, hts, rfl⟩, rfl⟩

theorem length_prepareBatchMessages (h : pub.prepareBatchMessages limit cs = .ok ms) :
    ms.length = cs.length := by
  induction cs generalizing ms with
  | nil => cases h; rfl
  | cons c cs ih =>
    obtain ⟨m, ms', -, hms, rfl⟩ := prepareBatchMessages_cons.mp h
    rw [length_cons, length_cons, ih hms]

theorem publishBatch_iff (htxs : ∀ ms : List PublishMessage, ms ≠ [] → ms.length ≤ maxBatchSize →
      ∀ s s', txs ms s = .ok s' ↔ eachTx tx ms s = .ok s') (hne : cs ≠ [])
    (hsize : cs.length ≤ maxBatchSize)
    (hbytes : pub.maxBatchBytes ≤ 0 ∨ (totalBytes cs : Int) ≤ pub.maxBatchBytes) :
    pub.publishBatch txs cs s = (.ok ids, s') ↔ callAll (pub.publish tx) cs s = (.ok ids, s') := by
  have hprep : ∀ {ms}, pub.prepareBatchMessages pub.resolveMaxMetadataSize cs = .ok ms →
      (txs ms s = .ok s' ↔ eachTx tx ms s = .ok s') := by
    intro ms hms
    have hlen := length_prepareBatchMessages hms
    refine htxs ms (fun hnil => hne ?_) (by omega) s s'
    rw [hnil] at hlen
    exact eq_nil_of_length_eq_zero hlen.symm
  rw [publishBatch_ok hne hsize hbytes]
  by_cases hc : pub.checkClosed = .ok ()
  · rw [callAll_publish hc]
    constructor
    · rintro ⟨-, hp, ms, hms, ht, hid⟩
      exact ⟨hp, ms, hms, (hprep hms).mp ht, hid⟩
    · rintro ⟨hp, ms, hms, ht, hid⟩
      exact ⟨hc, hp, ms, hms, (hprep hms).mpr ht, hid⟩
  · -- a closed client refuses the first message already
    refine ⟨fun h => absurd h.1 hc, fun h => ?_⟩
    obtain ⟨c, cs', rfl⟩ := exists_cons_of_ne_nil hne
    obtain ⟨_, _, _, hp, -, -⟩ := callAll_cons.mp h
    exact absurd (publish_ok.mp hp).1 hc

theorem publish_error (h : pub.publish tx c s = (.error e, s')) : s' = s := withTx_error h

theorem publishBatch_error (h : pub.publishBatch txs cs s = (.error e, s')) : s' = s := withTx_error h

end
end Publisher
end PgQueue
