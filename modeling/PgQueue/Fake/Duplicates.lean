import PgQueue.Fake.Model
import PgQueue.Channel.Conserve
import PgQueue.Process.Runs

/-!
# The fake queue and duplicate ids

The fake refuses an id that one of its entries has.  No entry is made up by a receive, an ack or a nack
(`hasMessage_serve`), and the real channel keeps the id of every message it was given, in the message
table or in the dead-letter table (`Known.serve`).

`duplicate_agrees`: **an id the fake refuses is refused by the real channel, unless it is the id of a
dead letter there.**  The fake refuses the ids of its dead letters too, the real channel accepts them
(`refuses_deadLettered`).
-/

namespace PgQueue.Fake
open Relational Process Publisher List

variable {μ : Type}

/-! ## the ids of the fake -/

def Channel.entries (ch : Channel μ) : List (Entry μ) := ch.pending ++ ch.claimed ++ ch.dlq

section
variable {ch ch' : Channel μ} {id : UUID} {r : Receipt} {e x : Entry μ}

theorem Channel.mem_entries :
    x ∈ ch.entries ↔ x ∈ ch.pending ∨ x ∈ ch.claimed ∨ x ∈ ch.dlq := by
  unfold Channel.entries
  rw [mem_append, mem_append, or_assoc]

theorem Channel.hasMessage_iff : ch.hasMessage id = true ↔ ∃ e ∈ ch.entries, e.id = id := by
  unfold Channel.hasMessage
  simp only [Bool.or_eq_true, any_eq_true, decide_eq_true_eq, Channel.mem_entries, or_and_right,
    exists_or, or_assoc]

theorem Channel.claimed_of_held (h : ch.held r = some e) : e ∈ ch.claimed :=
  mem_of_find?_eq_some (Option.filter_eq_some_iff.mp h).1

theorem Channel.claimed_of_without {k : UUID} (h : x ∈ ch.without k) : x ∈ ch.claimed :=
  (mem_filter.mp h).1

theorem mem_insertSortedByID {pending : List (Entry μ)} (h : x ∈ insertSortedByID pending e) :
    x ∈ pending ∨ x = e := by
  unfold insertSortedByID at h
  rcases mem_append.mp h with h | h
  · exact Or.inl (takeWhile_sublist _ |>.subset h)
  · rcases mem_cons.mp h with rfl | h
    · exact Or.inr rfl
    · exact Or.inl (dropWhile_sublist _ |>.subset h)

/-- every entry of `ch'` has the id of an entry of `ch` -/
structure Channel.Within (ch' ch : Channel μ) : Prop where
  pending : ∀ x ∈ ch'.pending, ch.hasMessage x.id = true
  claimed : ∀ x ∈ ch'.claimed, ch.hasMessage x.id = true
  dlq : ∀ x ∈ ch'.dlq, ch.hasMessage x.id = true

theorem Channel.hasMessage_pending (h : x ∈ ch.pending) : ch.hasMessage x.id = true :=
  Channel.hasMessage_iff.mpr ⟨x, Channel.mem_entries.mpr (Or.inl h), rfl⟩

theorem Channel.hasMessage_claimed (h : x ∈ ch.claimed) : ch.hasMessage x.id = true :=
  Channel.hasMessage_iff.mpr ⟨x, Channel.mem_entries.mpr (Or.inr (Or.inl h)), rfl⟩

theorem Channel.hasMessage_dlq (h : x ∈ ch.dlq) : ch.hasMessage x.id = true :=
  Channel.hasMessage_iff.mpr ⟨x, Channel.mem_entries.mpr (Or.inr (Or.inr h)), rfl⟩

theorem Channel.Within.refl : ch.Within ch :=
  ⟨fun _ => hasMessage_pending, fun _ => hasMessage_claimed, fun _ => hasMessage_dlq⟩

theorem Channel.Within.hasMessage (h : ch'.Within ch) (hm : ch'.hasMessage id = true) :
    ch.hasMessage id = true := by
  obtain ⟨x, hx, rfl⟩ := Channel.hasMessage_iff.mp hm
  rcases Channel.mem_entries.mp hx with hx | hx | hx
  · exact h.pending x hx
  · exact h.claimed x hx
  · exact h.dlq x hx

theorem within_receiveChannel (q : Queue) (claimID : Option UUID) :
    (receiveChannel q claimID ch).2.Within ch := by
  unfold receiveChannel
  cases hpaused : ch.paused with
  | true => exact .refl
  | false =>
    rw [if_neg Bool.false_ne_true]
    unfold claim
    cases hp : ch.pending with
    | nil => exact .refl
    | cons e pending =>
      have hall : ch.Within ch := .refl
      have hpend : ∀ x ∈ e :: pending, ch.hasMessage x.id = true := fun x hx =>
        Channel.hasMessage_pending (hp ▸ hx)
      cases claimID with
      | none => exact ⟨hpend, hall.claimed, hall.dlq⟩
      | some c =>
        refine ⟨fun x hx => hpend x (mem_cons_of_mem e hx), fun x hx => ?_, hall.dlq⟩
        rcases mem_cons.mp hx with rfl | hx
        · exact hpend e mem_cons_self
        · exact Channel.hasMessage_claimed (Channel.claimed_of_without hx)

theorem within_ack (r : Receipt) : (keep ch (ack r ch)).Within ch := by
  unfold ack
  cases hh : ch.held r with
  | none => exact .refl
  | some e =>
    have hall : ch.Within ch := .refl
    exact ⟨hall.pending, fun x hx => hall.claimed x (Channel.claimed_of_without hx), hall.dlq⟩

theorem within_nack (q : Queue) (r : Receipt) : (keep ch (nack q r ch)).Within ch := by
  unfold nack
  cases hh : ch.held r with
  | none => exact .refl
  | some e =>
    have hall : ch.Within ch := .refl
    have he : ch.hasMessage e.id = true := hall.claimed e (Channel.claimed_of_held hh)
    have hrest : ∀ x ∈ ch.without r.messageID, ch.hasMessage x.id = true := fun x hx =>
      hall.claimed x (Channel.claimed_of_without hx)
    dsimp only
    split
    · refine ⟨hall.pending, hrest, fun x hx => ?_⟩
      rcases mem_append.mp hx with hx | hx
      · exact hall.dlq x hx
      · rw [mem_singleton.mp hx]
        exact he
    · refine ⟨fun x hx => ?_, hrest, hall.dlq⟩
      rcases mem_insertSortedByID hx with hx | rfl
      · exact hall.pending x hx
      · exact he

theorem publish_cases {c : Call μ} {P : Except PublishError UUID × Channel μ → Prop}
    (hnil : c.message.payload = none → P (.error .nilPayload, ch))
    (hgen : ∀ e, messageID c = .error e → P (.error e, ch))
    (hdup : ∀ id, messageID c = .ok id → ch.hasMessage id = true →
      P (.error (.rejected .duplicateMessageID), ch))
    (hnew : ∀ id payload, messageID c = .ok id → ch.hasMessage id = false →
      P (.ok id, { ch with
        pending := ch.pending ++ [⟨id, UUID.nil, payload, c.message.metadata, .pending, 0⟩] })) :
    P (publish c ch) := by
  unfold publish
  cases hp : c.message.payload with
  | none => exact hnil hp
  | some payload =>
    cases hid : messageID c with
    | error e => exact hgen e hid
    | ok id =>
      dsimp only
      cases hm : ch.hasMessage id with
      | true =>
        rw [if_pos rfl]
        exact hdup id hid hm
      | false =>
        rw [if_neg Bool.false_ne_true]
        exact hnew id payload hid hm

theorem hasMessage_publish {c : Call μ} :
    (publish c ch).2.hasMessage id = true → ch.hasMessage id = true ∨ messageID c = .ok id := by
  refine publish_cases (P := fun x => x.2.hasMessage id = true → _) (fun _ => Or.inl)
    (fun _ _ => Or.inl) (fun _ _ _ => Or.inl) fun k payload hk _ h => ?_
  obtain ⟨x, hx, rfl⟩ := Channel.hasMessage_iff.mp h
  rcases Channel.mem_entries.mp hx with hx | hx | hx
  · rcases mem_append.mp hx with hx | hx
    · exact Or.inl (Channel.hasMessage_pending hx)
    · rw [mem_singleton.mp hx]
      exact Or.inr hk
  · exact Or.inl (Channel.hasMessage_claimed hx)
  · exact Or.inl (Channel.hasMessage_dlq hx)

end

/-! ## the ids of the real channel -/

section
open PgQueue.Channel (State contents Ids Op publishToChannel ackChannel nackChannelImpl)

def knows (s : State) (id : UUID) : Prop := id ∈ (contents s).map Prod.fst

variable {id : UUID} {c : Call μ} {s : State}

theorem knows_iff : knows s id ↔ (s.msgs.find? id).isSome ∨ ∃ d ∈ s.dlq, d.originalMessageID = id := by
  unfold knows contents
  rw [map_append, map_map, map_map, mem_append, mem_map, mem_map,
    Option.isSome_iff_exists]
  refine or_congr ?_ Iff.rfl
  exact exists_congr fun r => Table.find?_eq_some.symm

theorem knows_step {q : PgQueue.Queue} {env : Env} (op : Op) (hop : op.effect ≠ .removes) (hi : Ids q s)
    (h : knows s id) : knows (PgQueue.Channel.step q env s op).1 id := by
  have hrel : op.effect.Relates (contents s) (contents (PgQueue.Channel.step q env s op).1) :=
    PgQueue.Channel.step_relates op hi
  unfold knows at h ⊢
  cases hop' : op.effect with
  | keeps =>
    rw [hop'] at hrel
    exact (hrel.map Prod.fst).mem_iff.mpr h
  | adds =>
    rw [hop'] at hrel
    exact map_subset Prod.fst hrel.subset h
  | removes => exact absurd hop' hop

variable {u : Setup μ} {env : Env} {w : Sides μ}

/-- the call passes every check of the real queue that comes before its transaction -/
def Setup.passes (u : Setup μ) (c : Call μ) : Bool :=
  u.publisher.checkClosed.isOk &&
    (checkPayload u.publisher.resolveMaxMessageSize c.message).isOk &&
    (u.publisher.prepareMessage u.publisher.resolveMaxMetadataSize c).isOk

theorem isOk_iff {ε α : Type} {x : Except ε α} : x.isOk = true ↔ ∃ a, x = .ok a := by
  cases x with
  | error e => exact ⟨fun h => absurd h Bool.false_ne_true, fun ⟨_, h⟩ => by cases h⟩
  | ok a => exact ⟨fun _ => ⟨a, rfl⟩, fun _ => rfl⟩

theorem prepareMessage_id {pub : Publisher μ} {limit : Int} {m : PublishMessage}
    (h : pub.prepareMessage limit c = .ok m) : messageID c = .ok m.id := by
  unfold prepareMessage at h
  simp only [bind_ok] at h
  obtain ⟨id, hid, metadata, -, h⟩ := h
  cases h
  exact hid

theorem Setup.publish_of_passes (h : u.passes c = true) (env : Env) (s : State) :
    ∃ m, messageID c = .ok m.id ∧
      PgQueue.Channel.publish u.publisher u.real env c s =
        withTx s (do let s' ← inTx (publishToChannel u.real env m s); return (m.id, s')) := by
  unfold Setup.passes at h
  rw [Bool.and_eq_true, Bool.and_eq_true, isOk_iff, isOk_iff, isOk_iff] at h
  obtain ⟨⟨⟨⟨⟩, hclosed⟩, ⟨⟩, hpayload⟩, m, hm⟩ := h
  refine ⟨m, prepareMessage_id hm, ?_⟩
  unfold PgQueue.Channel.publish Publisher.publish
  rw [hclosed, hpayload, hm]
  rfl

theorem Setup.knows_publish (h : u.passes c = true) (hid : messageID c = .ok id) :
    knows (PgQueue.Channel.publish u.publisher u.real env c s).2 id := by
  obtain ⟨m, hm, heq⟩ := Setup.publish_of_passes h env s
  obtain rfl : m.id = id := Except.ok.inj (hm.symm.trans hid)
  rw [heq, knows_iff]
  left
  unfold publishToChannel
  cases hf : s.msgs.find? m.id with
  | some row =>
    show (s.msgs.find? m.id).isSome = true
    rw [hf]
    rfl
  | none =>
    show ((s.msgs.insertNew (PgQueue.Channel.newRow env u.real.resolveMaxRetries m)).find? m.id).isSome
      = true
    have hid' : (PgQueue.Channel.newRow env u.real.resolveMaxRetries m).id = m.id := rfl
    rw [Table.find?_insertNew, if_pos hid']
    rfl

theorem keep_eq_commit' {σ κ : Type} (s : σ) (x : Except QueueError σ) (events : PgQueue.History κ) :
    keep s x = (commit' s x events).1 := by
  cases x with
  | error | ok => rfl

theorem Setup.real_serve (env : Env) (w : Sides μ) (a : Act μ)
    (h : ∀ c, a = .publish c → u.passes c = true) :
    (u.serve env w a).real = w.real ∨
      ∃ op : Op, op.effect ≠ .removes ∧
        (u.serve env w a).real = (PgQueue.Channel.step u.real env w.real op).1 := by
  cases a with
  | publish c =>
    obtain ⟨m, -, heq⟩ := Setup.publish_of_passes (h c rfl) env w.real
    refine Or.inr ⟨.publish m, Effect.noConfusion, ?_⟩
    show (PgQueue.Channel.publish u.publisher u.real env c w.real).2 =
      (commit' w.real (publishToChannel u.real env m w.real) _).1
    rw [heq]
    cases publishToChannel u.real env m w.real with
    | error | ok => rfl
  | receive vis =>
    refine Or.inr ⟨.receive vis, Effect.noConfusion, ?_⟩
    show (received w.real (PgQueue.Channel.consumeFromChannel u.real env vis w.real)).2 =
      (commit w.real (PgQueue.Channel.consumeFromChannel u.real env vis w.real) _).1
    rcases PgQueue.Channel.consumeFromChannel u.real env vis w.real with e | ⟨_ | m, s'⟩
    · rfl
    · rfl
    · rfl
  | ack n =>
    have hreal : (u.serve env w (.ack n)).real = (Setup.receiptsOf w n).1.elim w.real fun r =>
      keep w.real (ackChannel env r w.real) := rfl
    rw [hreal]
    cases (Setup.receiptsOf w n).1 with
    | none => exact Or.inl rfl
    | some r =>
      refine Or.inr ⟨.ack r, Effect.noConfusion, ?_⟩
      exact keep_eq_commit' w.real (ackChannel env r w.real) _
  | nack n reason delay =>
    have hreal : (u.serve env w (.nack n reason delay)).real =
      (Setup.receiptsOf w n).1.elim w.real fun r =>
        keep w.real (nackChannelImpl u.real env r reason delay w.real) := rfl
    rw [hreal]
    cases (Setup.receiptsOf w n).1 with
    | none => exact Or.inl rfl
    | some r =>
      refine Or.inr ⟨.nack r reason delay, Effect.noConfusion, ?_⟩
      exact keep_eq_commit' w.real (nackChannelImpl u.real env r reason delay w.real) _

theorem Setup.hasMessage_serve {a : Act μ} (h : (u.serve env w a).fake.hasMessage id = true) :
    w.fake.hasMessage id = true ∨ ∃ c, a = .publish c ∧ messageID c = .ok id := by
  cases a with
  | publish c => exact (hasMessage_publish h).imp_right fun hid => ⟨c, rfl, hid⟩
  | receive vis => exact Or.inl ((within_receiveChannel u.fake _).hasMessage h)
  | ack n =>
    have h : (Setup.ack env (Setup.receiptsOf w n) w).fake.hasMessage id = true := h
    unfold Setup.ack at h
    cases hr : (Setup.receiptsOf w n).2 with
    | none =>
      rw [hr] at h
      exact Or.inl h
    | some r =>
      rw [hr] at h
      exact Or.inl ((within_ack r).hasMessage h)
  | nack n reason delay =>
    have h : (u.nack env (Setup.receiptsOf w n) reason delay w).fake.hasMessage id = true := h
    unfold Setup.nack at h
    cases hr : (Setup.receiptsOf w n).2 with
    | none =>
      rw [hr] at h
      exact Or.inl h
    | some r =>
      rw [hr] at h
      exact Or.inl ((within_nack u.fake r).hasMessage h)

/-! ## the invariant -/

def Setup.Passes (u : Setup μ) (_ : Sides μ) (e : Env × Act μ) : Prop :=
  match e.2 with
  | .publish c => u.passes c = true
  | _ => True

instance (u : Setup μ) (w : Sides μ) (e : Env × Act μ) : Decidable (u.Passes w e) :=
  match e with
  | (_, .publish c) => inferInstanceAs (Decidable (u.passes c = true))
  | (_, .receive _) | (_, .ack _) | (_, .nack ..) => isTrue trivial

structure Known (u : Setup μ) (w : Sides μ) : Prop where
  ids : Ids u.real w.real
  known : ∀ id, w.fake.hasMessage id = true → knows w.real id

theorem Known.start : Known u Sides.start :=
  ⟨⟨nodup_nil, fun _ h => absurd h not_mem_nil⟩, fun _ h => absurd h Bool.false_ne_true⟩

theorem Known.serve (hk : Known u w) (a : Act μ) (h : u.Passes w (env, a)) :
    Known u (u.serve env w a) := by
  have hpass : ∀ c, a = .publish c → u.passes c = true := by
    rintro c rfl
    exact h
  have hreal : Ids u.real (u.serve env w a).real ∧ ∀ id, knows w.real id →
      knows (u.serve env w a).real id := by
    rcases Setup.real_serve env w a hpass with he | ⟨op, hop, he⟩
    · rw [he]
      exact ⟨hk.ids, fun _ hid => hid⟩
    · rw [he]
      exact ⟨PgQueue.Channel.step_ids op hk.ids, fun _ => knows_step op hop hk.ids⟩
  refine ⟨hreal.1, fun id hid => ?_⟩
  rcases Setup.hasMessage_serve hid with hold | ⟨c, rfl, hc⟩
  · exact hreal.2 id (hk.known id hold)
  · exact Setup.knows_publish (hpass c rfl) hc

theorem Known.of_runs (h : Runs u.step u.Passes Sides.start w) : Known u w := by
  refine h.invariant (Known u) Known.start fun a e b hk hok he => ?_
  obtain rfl : u.serve e.1 a e.2 = b := Option.some.inj he
  exact hk.serve e.2 hok

theorem hasMessage_of_duplicate {ch : Channel μ} :
    (publish c ch).1 = .error (.rejected .duplicateMessageID) →
      ∃ id, messageID c = .ok id ∧ ch.hasMessage id = true := by
  refine publish_cases (P := fun x => x.1 = .error (.rejected .duplicateMessageID) → _) (fun _ h => ?_)
    (fun e he h => ?_) (fun id hid hm _ => ⟨id, hid, hm⟩) fun id payload _ _ h => ?_
  · cases h
  · obtain rfl : e = .rejected .duplicateMessageID := Except.error.inj h
    unfold messageID at he
    split at he
    · split at he
      · cases he
      · cases he
    · cases he
  · cases h

/-- **An id the fake refuses is refused by the real channel, unless it is the id of a dead letter
there.** -/
theorem duplicate_agrees (u : Setup μ) (w : Sides μ) (hrun : Runs u.step u.Passes Sides.start w)
    (env : Env) (c : Call μ) (hpass : u.passes c = true)
    (hlive : ∀ d ∈ w.real.dlq, messageID c ≠ .ok d.originalMessageID)
    (hdup : (publish c w.fake).1 = .error (.rejected .duplicateMessageID)) :
    (PgQueue.Channel.publish u.publisher u.real env c w.real).1 =
      .error (.rejected .duplicateMessageID) := by
  obtain ⟨id, hid, hm⟩ := hasMessage_of_duplicate hdup
  obtain ⟨m, hmid, heq⟩ := Setup.publish_of_passes hpass env w.real
  obtain rfl : m.id = id := Except.ok.inj (hmid.symm.trans hid)
  have hrow : (w.real.msgs.find? m.id).isSome = true := by
    rcases knows_iff.mp ((Known.of_runs hrun).known _ hm) with h | ⟨d, hd, he⟩
    · exact h
    · exact absurd (he ▸ hid) (hlive d hd)
  rw [heq]
  unfold publishToChannel
  rw [if_pos hrow]
  rfl

end

/-! ## a dead letter -/

/-- a client without configuration whose messages have no metadata -/
def plainPublisher : Publisher Unit := ⟨false, 1024, 1024, 0, none, fun _ => none⟩

def noRetries : Setup Unit :=
  ⟨plainPublisher, .counting 0, new "orders" [withMaxRetries 0], .counting⟩

/-- the caller chooses the id `7` -/
def callSeven : Call Unit := ⟨⟨7, some [1], none⟩, none⟩

def publishedAndReceived : List (Env × Act Unit) :=
  [(.bare 0, .publish callSeven), (.bare 1, .receive hour)]

theorem duplicate_agrees_claimed :
    ∃ w, follow (guarded noRetries.step noRetries.Passes) .start publishedAndReceived = some w ∧
      (PgQueue.Channel.publish noRetries.publisher noRetries.real (.bare 2) callSeven w.real).1 =
        .error (.rejected .duplicateMessageID) :=
  ⟨_, rfl, duplicate_agrees noRetries _ (Runs.of_follow publishedAndReceived rfl) (.bare 2) callSeven
    (by decide) (fun _ h => absurd h not_mem_nil) (by decide)⟩

/-- a message is published, received and nacked; then its id is published again -/
theorem refuses_deadLettered :
    ∃ w, follow noRetries.step .start
        (publishedAndReceived ++ [(.bare 2, .nack 0 [] 0)]) = some w ∧
      (publish callSeven w.fake).1 = .error (.rejected .duplicateMessageID) ∧
      (PgQueue.Channel.publish noRetries.publisher noRetries.real (.bare 3) callSeven w.real).1 =
        .ok 7 :=
  ⟨_, rfl, by decide, by decide⟩

end PgQueue.Fake
