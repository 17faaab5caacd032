import PgQueue.Fake.Order
import PgQueue.Reasons.Stored

/-!
# Where a message is, on the fake and on the real channel

A message of the fake is in one of three collections, or gone once it is acked; a message of the real
channel is a row, whose status says the same, or a dead letter.

* `Place`                       the four places, with the retry count;
* `Channel.place`, `realPlace`  the place of an id on either side;
* `Deed`, `Books`, `Setup.deal` a history on both sides, in which both claim the same message;
* `Replaced`                    one message of the fake moves and the others stay: `replaced_receive`,
                                `replaced_ack`, `replaced_retry`, `replaced_bury`;
* `realPlace_update`, `realPlace_delete`   the same for the rows.
-/

namespace PgQueue.Fake
open Relational Process Publisher List
open PgQueue.Channel (State Row liveClaim)

variable {μ : Type}

inductive Place where
  | pending (retryCount : Nat)
  | claimed (retryCount : Nat)
  | dead (retryCount : Nat)
  | done
deriving DecidableEq, Repr

def Channel.book (ch : Channel μ) : List (UUID × Place) :=
  ch.pending.map (fun e => (e.id, .pending e.retryCount)) ++
    (ch.claimed.map (fun e => (e.id, .claimed e.retryCount)) ++
      ch.dlq.map fun e => (e.id, .dead e.retryCount))

def Channel.place (ch : Channel μ) (id : UUID) : Option Place := ch.book.lookup id

def rowPlace (r : Row) : Option Place :=
  match r.status with
  | .pending => some (.pending r.retryCount)
  | .processing => some (.claimed r.retryCount)
  | .completed => some .done
  | .acked => none

def realPlace (s : State) (id : UUID) : Option Place :=
  match s.msgs.find? id with
  | some r => rowPlace r
  | none => (s.dlq.find? fun d => decide (d.originalMessageID = id)).map fun d => .dead d.retryCount

/-! ## the calls -/

/-- a claim has no timer; the bounds and the claim are checked -/
def extendVisibility (r : Receipt) (d : Duration) (ch : Channel μ) : Except QueueError (Channel μ) :=
  if d < millisecond ∨ d > 24 * hour then .error .invalidVisibilityTimeout
  else
    match ch.held r with
    | none => .error .claimExpired
    | some _ => .ok ch

/-- the messages with the id are put in front, so that a receive takes one of them -/
def Channel.bring (ch : Channel μ) (id : UUID) : Channel μ :=
  { ch with
    pending := (ch.pending.filter fun e => decide (e.id = id)) ++
      ch.pending.filter fun e => decide (e.id ≠ id) }

/-- a receive claims the message `id` on both sides; the others are about what the `n`-th receive
returned -/
inductive Deed (μ : Type) where
  | publish (c : Call μ)
  | receive (id : UUID) (vis : Duration)
  | ack (n : Nat)
  | nack (n : Nat) (reason : Bytes) (delay : Duration)
  | extend (n : Nat) (d : Duration)

/-- the two sides, the ids that were published, the messages of the nacks that returned nil, and for every
ack, nack and extension whether it returned nil on the real channel and on the fake -/
structure Books (μ : Type) where
  sides : Sides μ
  published : List UUID
  nacked : List UUID
  answers : List (Bool × Bool)

def Books.start : Books μ := ⟨.start, [], [], []⟩

/-- the place of a published message that the fake has forgotten is `done` -/
def Books.fakePlace (b : Books μ) (id : UUID) : Option Place :=
  (b.sides.fake.place id).or (if id ∈ b.published then some .done else none)

def Books.settle {ε ε' : Type} (b : Books μ) (n : Nat) (isNack : Bool) (real : Receipt → Except ε State)
    (fake : Receipt → Except ε' (Channel μ)) : Option (Books μ) :=
  match b.sides.receipts[n]? with
  | some (some r, some f) =>
    some
      { b with
        sides := { b.sides with
          real := keep b.sides.real (real r)
          fake := keep b.sides.fake (fake f) }
        nacked := if isNack ∧ (real r).isOk then b.nacked ++ [r.messageID] else b.nacked
        answers := b.answers ++ [((real r).isOk, (fake f).isOk)] }
  | _ => none

def Setup.deal (u : Setup μ) (env : Env) (b : Books μ) : Deed μ → Option (Books μ)
  | .publish c =>
    let real := PgQueue.Channel.publish u.publisher u.real env c b.sides.real
    some { b with
      sides := { b.sides with real := real.2, fake := (Fake.publish c b.sides.fake).2 }
      published := b.published ++ real.1.toOption.toList }
  | .receive id vis =>
    match (b.sides.real.msgs.find? id).filter fun r => decide (r.status = .pending),
      b.sides.fake.pending.find? fun e => decide (e.id = id) with
    | some row, some _ =>
      let real := PgQueue.Channel.claimChannelMessage u.real env vis row row.retryCount b.sides.real
      let fake := receiveChannel u.fake (some (u.gen.draw b.sides.drawn)) (b.sides.fake.bring id)
      some { b with
        sides :=
          { real := real.2
            fake := fake.2
            drawn := b.sides.drawn + 1
            receipts := b.sides.receipts ++
              [(real.1.map Message.receipt, fake.1.toOption.map Delivery.receipt)] } }
    | _, _ => none
  | .ack n =>
    b.settle n false (fun r => PgQueue.Channel.ackChannel env r b.sides.real)
      fun f => Fake.ack f b.sides.fake
  | .nack n reason delay =>
    b.settle n true (fun r => PgQueue.Channel.Sent.nackChannelImpl u.real env r reason delay b.sides.real)
      fun f => Fake.nack u.fake f b.sides.fake
  | .extend n d =>
    b.settle n false (fun r => PgQueue.Channel.extendChannelVisibility env r d b.sides.real)
      fun f => extendVisibility f d b.sides.fake

/-! ## lookups -/

section
variable {α β : Type} [DecidableEq α] {l l' rest : List (α × β)} {k : α} {v : β}

theorem lookup_cons_ite (a : α) (b : β) :
    ((a, b) :: l).lookup k = if k = a then some b else l.lookup k := by
  rw [lookup_cons]
  by_cases hk : k = a
  · rw [if_pos hk, hk, beq_self_eq_true]
  · rw [if_neg hk, beq_false_of_ne hk]

theorem lookup_iff_mem (hn : (l.map Prod.fst).Nodup) : l.lookup k = some v ↔ (k, v) ∈ l := by
  induction l with
  | nil => simp
  | cons x l ih =>
    obtain ⟨a, b⟩ := x
    obtain ⟨hnot, hn⟩ := nodup_cons.mp hn
    rw [lookup_cons_ite, mem_cons]
    by_cases hk : k = a
    · subst hk
      rw [if_pos rfl]
      constructor
      · intro h
        exact Or.inl (by rw [Option.some.inj h])
      · rintro (h | h)
        · rw [(Prod.mk.inj h).2]
        · exact absurd (mem_map_of_mem h) hnot
    · rw [if_neg hk, ih hn]
      exact ⟨Or.inr, fun h => h.resolve_left fun he => hk (Prod.mk.inj he).1⟩

theorem lookup_perm (hn : (l.map Prod.fst).Nodup) (h : l.Perm l') (k : α) : l.lookup k = l'.lookup k := by
  have hn' := (h.map Prod.fst).nodup_iff.mp hn
  exact Option.ext fun v => by rw [lookup_iff_mem hn, lookup_iff_mem hn', h.mem_iff]

theorem lookup_eq_none (h : k ∉ l.map Prod.fst) : l.lookup k = none := by
  rw [lookup_eq_none_iff]
  intro p hp
  rw [bne_iff_ne]
  exact fun he => h (he ▸ mem_map_of_mem hp)

theorem lookup_replaced {o : Option β} (hk : k ∉ rest.map Prod.fst) (id : α) :
    ((o.toList.map fun v => (k, v)) ++ rest).lookup id = if id = k then o else rest.lookup id := by
  cases o with
  | none =>
    split
    · rename_i h
      rw [h]
      exact lookup_eq_none hk
    · rfl
  | some v => exact lookup_cons_ite k v

theorem perm_cons_filter {ρ : Type} {key : ρ → α} {l : List ρ} {x : ρ} (hn : (l.map key).Nodup)
    (hx : x ∈ l) : l.Perm (x :: l.filter fun y => decide (key y ≠ key x)) := by
  have h := (filter_append_perm (fun y => decide (key y = key x)) l).symm
  rw [filter_eq_singleton hn hx] at h
  refine h.trans (Perm.of_eq ?_)
  show _ :: _ = _
  congr 1
  apply filter_congr
  intro y _
  by_cases hy : key y = key x <;> simp [hy]

end

/-! ## the fake -/

def Channel.Distinct (ch : Channel μ) : Prop := (ch.book.map Prod.fst).Nodup

/-- the message `k` goes from `old` to `new`, `none` being outside of the channel; the others stay -/
def Replaced (k : UUID) (old new : Option Place) (ch ch' : Channel μ) : Prop :=
  ∃ rest, ch.book.Perm ((old.toList.map fun p => (k, p)) ++ rest) ∧
    ch'.book.Perm ((new.toList.map fun p => (k, p)) ++ rest)

section
variable {ch ch' : Channel μ} {k id : UUID} {e : Entry μ} {r : Receipt}

theorem Replaced.place {old new : Option Place} (h : Replaced k old new ch ch') (hd : ch.Distinct)
    (hold : ch.place k = old) :
    ch'.Distinct ∧ ∀ id, ch'.place id = if id = k then new else ch.place id := by
  obtain ⟨rest, hp, hp'⟩ := h
  have hn := (hp.map Prod.fst).nodup_iff.mp hd
  rw [map_append] at hn
  have hrest : (rest.map Prod.fst).Nodup := (nodup_append.mp hn).2.1
  have hk : k ∉ rest.map Prod.fst := by
    cases old with
    | some p => exact (nodup_cons.mp hn).1
    | none =>
      intro hmem
      obtain ⟨⟨a, p⟩, hap, rfl⟩ := mem_map.mp hmem
      have hin : (a, p) ∈ ch.book := hp.mem_iff.mpr hap
      have hsome : ch.place a = some p := (lookup_iff_mem hd).mpr hin
      rw [hold] at hsome
      cases hsome
  have hd' : ch'.Distinct := by
    refine (hp'.map Prod.fst).nodup_iff.mpr ?_
    cases new with
    | some p => exact nodup_cons.mpr ⟨hk, hrest⟩
    | none => exact hrest
  refine ⟨hd', fun id => ?_⟩
  show ch'.book.lookup id = if id = k then new else ch.book.lookup id
  rw [lookup_perm hd' hp', lookup_replaced hk, lookup_perm hd hp, lookup_replaced hk]
  split <;> rfl

theorem map_fst_book (ch : Channel μ) : ch.book.map Prod.fst = ch.pending.map Entry.id ++
    (ch.claimed.map Entry.id ++ ch.dlq.map Entry.id) := by
  unfold Channel.book
  rw [map_append, map_append, map_map, map_map, map_map]
  rfl

theorem Channel.Distinct.pending (h : ch.Distinct) : (ch.pending.map Entry.id).Nodup := by
  unfold Channel.Distinct at h
  rw [map_fst_book] at h
  exact (nodup_append.mp h).1

theorem Channel.Distinct.claimed (h : ch.Distinct) : (ch.claimed.map Entry.id).Nodup := by
  unfold Channel.Distinct at h
  rw [map_fst_book] at h
  exact (nodup_append.mp (nodup_append.mp h).2.1).1

theorem place_pending (h : ch.Distinct) (he : e ∈ ch.pending) :
    ch.place e.id = some (.pending e.retryCount) :=
  (lookup_iff_mem h).mpr (mem_append_left _ (mem_map.mpr ⟨e, he, rfl⟩))

theorem place_claimed (h : ch.Distinct) (he : ch.lookup k = some e) :
    ch.place k = some (.claimed e.retryCount) := by
  have hid := lookup_id he
  refine (lookup_iff_mem h).mpr (mem_append_right _ (mem_append_left _ ?_))
  exact mem_map.mpr ⟨e, mem_of_find?_eq_some he, by rw [hid]⟩

theorem perm_without (h : ch.Distinct) (he : ch.lookup k = some e) : ch.claimed.Perm (e :: ch.without k) := by
  have hid := lookup_id he
  subst hid
  exact perm_cons_filter h.claimed (mem_of_find?_eq_some he)

theorem replaced_publish (hid : e.id = k) (hcount : e.retryCount = 0) :
    Replaced k none (some (.pending 0)) ch { ch with pending := ch.pending ++ [e] } := by
  refine ⟨ch.book, Perm.refl _, ?_⟩
  unfold Channel.book
  rw [map_append, append_assoc, ← hid, ← hcount]
  exact perm_middle

theorem replaced_receive {c : UUID} (h : ch.Distinct) (he : e ∈ ch.pending) :
    Replaced e.id (some (.pending e.retryCount)) (some (.claimed e.retryCount)) ch { ch with
      pending := ch.pending.filter fun x => decide (x.id ≠ e.id)
      claimed := { e with claimID := c, status := .processing } :: ch.without e.id } := by
  have hwithout : ch.without e.id = ch.claimed := by
    refine filter_eq_self.mpr fun x hx => decide_eq_true fun hid => ?_
    have hn := h
    unfold Channel.Distinct at hn
    rw [map_fst_book] at hn
    exact (nodup_append.mp hn).2.2 e.id (mem_map_of_mem he) x.id
      (mem_append_left _ (mem_map_of_mem hx)) hid.symm
  refine ⟨_, (((perm_cons_filter h.pending he).map _).append_right _), ?_⟩
  rw [hwithout]
  exact perm_middle

theorem replaced_ack (h : ch.Distinct) (he : ch.lookup k = some e) :
    Replaced k (some (.claimed e.retryCount)) none ch { ch with claimed := ch.without k } := by
  refine ⟨_, ?_, Perm.refl _⟩
  have hid := lookup_id he
  subst hid
  exact ((((perm_without h he).map _).append_right _).append_left _).trans perm_middle

theorem perm_insertSortedByID (pending : List (Entry μ)) (e : Entry μ) :
    (insertSortedByID pending e).Perm (e :: pending) := by
  unfold insertSortedByID
  refine perm_middle.trans ?_
  rw [takeWhile_append_dropWhile]

theorem replaced_retry (h : ch.Distinct) (he : ch.lookup k = some e) :
    Replaced k (some (.claimed e.retryCount)) (some (.pending (e.retryCount + 1))) ch { ch with
      claimed := ch.without k
      pending := insertSortedByID ch.pending
        { e with retryCount := e.retryCount + 1, claimID := UUID.nil, status := .pending } } := by
  obtain ⟨rest, hp, hp'⟩ := replaced_ack h he
  refine ⟨rest, hp, ?_⟩
  have hid := lookup_id he
  subst hid
  exact (((perm_insertSortedByID _ _).map _).append_right _).trans (Perm.cons _ hp')

theorem replaced_bury (h : ch.Distinct) (he : ch.lookup k = some e) :
    Replaced k (some (.claimed e.retryCount)) (some (.dead e.retryCount)) ch { ch with
      claimed := ch.without k
      dlq := ch.dlq ++ [{ e with status := .completed }] } := by
  obtain ⟨rest, hp, hp'⟩ := replaced_ack h he
  refine ⟨rest, hp, ?_⟩
  have hid := lookup_id he
  subst hid
  have hlast : Channel.book { ch with
      claimed := ch.without e.id
      dlq := ch.dlq ++ [{ e with status := .completed }] } =
        Channel.book { ch with claimed := ch.without e.id } ++ [(e.id, .dead e.retryCount)] := by
    unfold Channel.book
    rw [map_append, append_assoc, append_assoc]
    rfl
  rw [hlast]
  exact (perm_append_singleton _ _).trans (Perm.cons _ hp')

end

/-! ## the real channel -/

section
variable {s s' : State} {k id : UUID} {row : Row} {p : Row → Bool} {f : Row → Row}

theorem isSome_rowPlace (r : Row) : (rowPlace r).isSome = true := by
  have hcheck := r.check
  unfold rowPlace
  cases hst : r.status with
  | acked => exact absurd hst hcheck
  | pending | processing | completed => rfl

theorem realPlace_of_find? (h : s.msgs.find? id = some row) : realPlace s id = rowPlace row := by
  unfold realPlace
  rw [h]

theorem realPlace_eq_none (h : realPlace s id = none) :
    s.msgs.find? id = none ∧ ∀ d ∈ s.dlq, d.originalMessageID ≠ id := by
  cases hfind : s.msgs.find? id with
  | some r =>
    have hsome := isSome_rowPlace r
    rw [← realPlace_of_find? hfind, h] at hsome
    cases hsome
  | none =>
    unfold realPlace at h
    rw [hfind] at h
    refine ⟨rfl, fun d hd he => ?_⟩
    exact find?_eq_none.mp (Option.map_eq_none_iff.mp h) d hd (decide_eq_true he)

theorem find?_update_of_none {t : Table Row UUID Row.id} (hf : ∀ r, (f r).id = r.id)
    (h : t.find? id = none) : (t.update p f hf).find? id = none := by
  rw [Table.find?_update, h]
  rfl

theorem realPlace_update {hf : ∀ r, (f r).id = r.id} (hrow : row ∈ s.msgs.rows) (hk : row.id = k)
    (hp : ∀ r ∈ s.msgs.rows, p r = true ↔ r.id = k) (hs : s'.msgs = s.msgs.update p f hf)
    (hdlq : s'.dlq = s.dlq) :
    realPlace s' id = if id = k then rowPlace (f row) else realPlace s id := by
  unfold realPlace
  rw [hs, hdlq, Table.find?_update]
  by_cases hid : id = k
  · have hfind : s.msgs.find? id = some row := by
      rw [hid, ← hk]
      exact Table.find?_of_mem hrow
    rw [hfind, Option.map_some, if_pos ((hp row hrow).mpr hk), if_pos hid]
  · rw [if_neg hid]
    cases hfind : s.msgs.find? id with
    | none => rfl
    | some x =>
      obtain ⟨hx, hxid⟩ := Table.find?_eq_some.mp hfind
      rw [Option.map_some, if_neg fun h => hid (hxid.symm.trans ((hp x hx).mp h))]

theorem realPlace_delete {d : DLQRow} (hp : ∀ r ∈ s.msgs.rows, p r = true ↔ r.id = k)
    (hs : s'.msgs = s.msgs.delete p) (hdlq : s'.dlq = s.dlq ++ [d]) (hd : d.originalMessageID = k)
    (hnot : ∀ x ∈ s.dlq, x.originalMessageID ≠ k) :
    realPlace s' id = if id = k then some (.dead d.retryCount) else realPlace s id := by
  unfold realPlace
  rw [hs, hdlq, Table.find?_delete, find?_append]
  by_cases hid : id = k
  · have hnone : (s.dlq.find? fun d => decide (d.originalMessageID = id)) = none :=
      find?_eq_none.mpr fun x hx => by
        rw [hid, decide_eq_true_eq]
        exact hnot x hx
    have hgone : ((s.msgs.find? id).bind fun r => if p r then none else some r) = none := by
      cases hfind : s.msgs.find? id with
      | none => rfl
      | some x =>
        obtain ⟨hx, hxid⟩ := Table.find?_eq_some.mp hfind
        rw [Option.bind_some, if_pos ((hp x hx).mpr (hxid.trans hid))]
    have hlast : ([d].find? fun d => decide (d.originalMessageID = id)) = some d :=
      find?_cons_of_pos (decide_eq_true (hd.trans hid.symm))
    rw [hgone, hnone, if_pos hid, Option.none_or, hlast]
    rfl
  · have hlast : ([d].find? fun d => decide (d.originalMessageID = id)) = none :=
      find?_eq_none.mpr fun x hx => by
        rw [mem_singleton.mp hx, hd, decide_eq_true_eq]
        exact fun h => hid h.symm
    rw [if_neg hid, hlast, Option.or_none]
    cases hfind : s.msgs.find? id with
    | none => rfl
    | some x =>
      obtain ⟨hx, hxid⟩ := Table.find?_eq_some.mp hfind
      rw [Option.bind_some, if_neg fun h => hid (hxid.symm.trans ((hp x hx).mp h))]

theorem realPlace_insert {r : Row} (hr : s.msgs.find? r.id = none) :
    realPlace { s with msgs := s.msgs.insertNew r } id =
      if id = r.id then rowPlace r else realPlace s id := by
  unfold realPlace
  rw [Table.find?_insertNew]
  by_cases hid : id = r.id
  · rw [if_pos hid.symm, if_pos hid, hid, hr]
    rfl
  · rw [if_neg fun h => hid h.symm, if_neg hid]

section
variable {q : PgQueue.Queue} {env : Env} {r : Receipt}

theorem realPlace_claim {vis : Duration} (hrow : row ∈ s.msgs.rows) (n : Nat) (id : UUID) :
    realPlace (PgQueue.Channel.claimChannelMessage q env vis row n s).2 id =
      if id = row.id then some (.claimed n) else realPlace s id := by
  have hs : (PgQueue.Channel.claimChannelMessage q env vis row n s).2.msgs =
      s.msgs.update (fun r => decide (r.id = row.id)) (Row.claim env.now vis (q.gen.draw s.seq) n)
        (Row.id_claim _ _ _ _) := rfl
  exact realPlace_update hrow rfl (fun x _ => decide_eq_true_iff) hs rfl

theorem realPlace_complete (hrow : row ∈ s.msgs.rows) (hu : row.underClaim r.messageID r.claimID = true)
    (id : UUID) :
    realPlace (PgQueue.Channel.ackUpdate env r s).2 id =
      if id = r.messageID then some .done else realPlace s id := by
  have hs : (PgQueue.Channel.ackUpdate env r s).2.msgs = s.msgs.update
    (fun row => row.underClaim r.messageID r.claimID) (Row.complete env.now)
      (Row.id_complete env.now) := rfl
  exact realPlace_update hrow (PgQueue.Channel.underClaim_eq.mp hu).1 (underClaim_iff hrow hu) hs rfl

theorem realPlace_extend {d : Duration} (hrow : row ∈ s.msgs.rows)
    (hu : row.underClaim r.messageID r.claimID = true) (id : UUID) :
    realPlace (PgQueue.Channel.updateUnderClaim (Row.extend env.now d) (Row.id_extend env.now d) r s).2 id =
      realPlace s id := by
  have hk := (PgQueue.Channel.underClaim_eq.mp hu).1
  have hs : (PgQueue.Channel.updateUnderClaim (Row.extend env.now d) (Row.id_extend env.now d) r s).2.msgs =
    s.msgs.update (fun row => row.underClaim r.messageID r.claimID) (Row.extend env.now d)
      (Row.id_extend env.now d) := rfl
  rw [realPlace_update hrow hk (underClaim_iff hrow hu) hs rfl]
  split
  · rename_i he
    rw [he, ← hk, realPlace, Table.find?_of_mem hrow]
    rfl
  · rfl

theorem realPlace_retry {reason : Bytes} {delay : Duration} (hrow : row ∈ s.msgs.rows) (hk : row.id = k)
    (id : UUID) :
    realPlace (PgQueue.Channel.retryMessage env k reason delay s) id =
      if id = k then some (.pending (row.retryCount + 1)) else realPlace s id := by
  have hs : (PgQueue.Channel.retryMessage env k reason delay s).msgs =
      s.msgs.update (fun r => decide (r.id = k)) (Row.retry env.now delay reason)
        (Row.id_retry _ _ _) := rfl
  exact realPlace_update hrow hk (fun x _ => decide_eq_true_iff) hs rfl

theorem realPlace_bury {reason payload : Bytes} {metadata : Option Bytes}
    (hnot : ∀ x ∈ s.dlq, x.originalMessageID ≠ k) (n : Nat) (id : UUID) :
    realPlace (PgQueue.Channel.moveToDLQ q env k reason payload n metadata s) id =
      if id = k then some (.dead n) else realPlace s id := by
  have hdlq : (PgQueue.Channel.moveToDLQ q env k reason payload n metadata s).dlq = s.dlq ++
      [⟨q.gen.draw s.seq, k, none, payload, truncateErrorMsg reason, n, env.now, metadata⟩] := rfl
  exact realPlace_delete (fun x _ => any_deadLetter x) rfl hdlq rfl hnot

end
end

end PgQueue.Fake
