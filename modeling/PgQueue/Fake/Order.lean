import PgQueue.Fake.Duplicates
import PgQueue.Fifo.Line
import PgQueue.Channel.Settle
import Mathlib.Data.List.TakeWhile

/-!
# The fake queue and the order of delivery

The fake appends what is published and sorts what is nacked back by its id; the real channel serves its
pending rows by `(available_at, id)`, and both a publish and a retry set `available_at`.

* `Setup.InOrder`    what a call of a history has to meet: retry delays are over and no claim has run
                     out at a receive, and a publish or a retry comes in at the same place on both sides;
* `Agree`            the same line, the same messages in flight, receipts that are live together;
* `Agree.serve`      every such call keeps that.

`receive_agrees`: **in such a history every receive returns the same message on both sides.**  In other
histories the sides part: a message that is tried again goes in front of a later one on the fake, and
behind it on the real channel (`retry_overtakes`).
-/

namespace PgQueue.Fake
open Relational Process Publisher List
open PgQueue.Channel (State Row line liveClaim NoneTimedOut)

variable {μ : Type}

/-! ## what is in flight -/

def inFlight (s : State) (id : UUID) : Option Row :=
  (s.msgs.find? id).filter fun r => decide (r.status = .processing)

section
variable {s s' : State} {id k : UUID} {row : Row}

theorem liveClaim_eq : liveClaim s id = (inFlight s id).bind Row.claimID := by
  unfold liveClaim inFlight
  cases s.msgs.find? id with
  | none => rfl
  | some r =>
    by_cases h : r.status = .processing
    · simp [Option.filter, h]
    · simp [Option.filter, h]

theorem inFlight_eq_some :
    inFlight s id = some row ↔ row ∈ s.msgs.rows ∧ row.id = id ∧ row.status = .processing := by
  unfold inFlight
  rw [Option.filter_eq_some_iff, Table.find?_eq_some, decide_eq_true_eq, and_assoc]

theorem inFlight_update {p : Row → Bool} {f : Row → Row} {hf : ∀ r, (f r).id = r.id}
    (hp : ∀ r ∈ s.msgs.rows, p r = true ↔ r.id = k)
    (hs' : s'.msgs = s.msgs.update p f hf) :
    inFlight s' id = if id = k then ((s.msgs.find? k).map f).filter fun r =>
      decide (r.status = .processing) else inFlight s id := by
  unfold inFlight
  rw [hs', Table.find?_update]
  cases hfind : s.msgs.find? id with
  | none =>
    split
    · rename_i h
      rw [← h, hfind]
      rfl
    · rfl
  | some r =>
    obtain ⟨hr, hid⟩ := Table.find?_eq_some.mp hfind
    have hpr := hp r hr
    rw [hid] at hpr
    split
    · rename_i h
      rw [← h, hfind, Option.map_some, if_pos (hpr.mpr h)]
      rfl
    · rename_i h
      rw [Option.map_some, if_neg fun hpos => h (hpr.mp hpos)]

theorem inFlight_delete {p : Row → Bool} (hp : ∀ r ∈ s.msgs.rows, p r = true ↔ r.id = k)
    (hs' : s'.msgs = s.msgs.delete p) : inFlight s' id = if id = k then none else inFlight s id := by
  unfold inFlight
  rw [hs', Table.find?_delete]
  cases hfind : s.msgs.find? id with
  | none =>
    split
    · rfl
    · rfl
  | some r =>
    obtain ⟨hr, hid⟩ := Table.find?_eq_some.mp hfind
    have hpr := hp r hr
    rw [hid] at hpr
    split
    · rename_i h
      rw [Option.bind_some, if_pos (hpr.mpr h)]
      rfl
    · rename_i h
      rw [Option.bind_some, if_neg fun hpos => h (hpr.mp hpos)]

end

section
variable {ch : Channel μ} {id k : UUID} {e : Entry μ} {r : Receipt}

theorem find?_without :
    ((ch.without k).find? fun e => decide (e.id = id)) = if id = k then none else ch.lookup id := by
  unfold Channel.without Channel.lookup
  rw [find?_filter]
  split
  · rename_i h
    rw [find?_eq_none]
    intro x _ hx
    simp only [decide_eq_true_eq] at hx
    exact hx.1 (hx.2.trans h)
  · rename_i h
    congr 1
    funext x
    by_cases hx : x.id = id
    · simp [hx, h]
    · simp [hx]

theorem held_eq_some :
    ch.held r = some e ↔ ch.lookup r.messageID = some e ∧ e.claimID = r.claimID := by
  unfold Channel.held
  rw [Option.filter_eq_some_iff, decide_eq_true_eq]

theorem lookup_id (h : ch.lookup id = some e) : e.id = id := by
  have := find?_some h
  exact of_decide_eq_true this

end

/-! ## agreement of the sides -/

/-- the receipts of one delivery: live on both sides or on neither -/
structure Paired (u : Setup μ) (w : Sides μ) (r f : Receipt) : Prop where
  messageID : r.messageID = f.messageID
  live : (inFlight w.real r.messageID).bind Row.claimID = some r.claimID ↔
    (w.fake.lookup r.messageID).map Entry.claimID = some f.claimID
  real : ∃ i, i < w.real.seq ∧ u.real.gen.draw i = r.claimID
  fake : ∃ i, i < w.drawn ∧ u.gen.draw i = f.claimID

structure Agree (u : Setup μ) (w : Sides μ) : Prop where
  unpaused : w.fake.paused = false
  pending : (line w.real).map (fun r => (r.id, r.retryCount)) =
    w.fake.pending.map fun e => (e.id, e.retryCount)
  flight : ∀ id, (inFlight w.real id).map Row.retryCount = (w.fake.lookup id).map Entry.retryCount
  caps : ∀ r ∈ w.real.msgs.rows, r.cap u.real = u.fake.maxRetries
  receipts : ∀ p ∈ w.receipts, p = (none, none) ∨ ∃ r f, p = (some r, some f) ∧ Paired u w r f

structure Renewed (u : Setup μ) (w w' : Sides μ) (id : UUID) : Prop where
  flight : (inFlight w'.real id).map Row.retryCount = (w'.fake.lookup id).map Entry.retryCount
  real : ∀ i < w.real.seq, (inFlight w'.real id).bind Row.claimID ≠ some (u.real.gen.draw i)
  fake : ∀ i < w.drawn, (w'.fake.lookup id).map Entry.claimID ≠ some (u.gen.draw i)

section
variable {u : Setup μ} {env : Env} {w w' : Sides μ} {r f : Receipt} {row : Row} {e : Entry μ}
  {id k c : UUID} {s : State} {vis delay : Duration} {reason payload : Bytes} {n : Nat}
  {pending : List (Entry μ)} {rows : List Row} {m : PublishMessage} {q : PgQueue.Queue} {ch : Channel μ}
  {metadata : Option Bytes}

theorem Renewed.landed (hreal : inFlight w'.real id = none) (hfake : w'.fake.lookup id = none) :
    Renewed u w w' id := by
  refine ⟨?_, fun i _ h => ?_, fun i _ h => ?_⟩
  · rw [hreal, hfake]
    rfl
  · rw [hreal] at h
    cases h
  · rw [hfake] at h
    cases h

/-- what a call may do to the messages in flight -/
def Moves (u : Setup μ) (w w' : Sides μ) : Prop :=
  ∀ id, (inFlight w'.real id = inFlight w.real id ∧ w'.fake.lookup id = w.fake.lookup id) ∨
    Renewed u w w' id

/-- the claims of a message are what they were, or are new, on both sides -/
def Carries (u : Setup μ) (w w' : Sides μ) (id : UUID) : Prop :=
  ((inFlight w'.real id).bind Row.claimID = (inFlight w.real id).bind Row.claimID ∧
      (w'.fake.lookup id).map Entry.claimID = (w.fake.lookup id).map Entry.claimID) ∨
    (∀ i < w.real.seq, (inFlight w'.real id).bind Row.claimID ≠ some (u.real.gen.draw i)) ∧
      ∀ i < w.drawn, (w'.fake.lookup id).map Entry.claimID ≠ some (u.gen.draw i)

theorem Carries.same (hreal : inFlight w'.real id = inFlight w.real id)
    (hfake : w'.fake.lookup id = w.fake.lookup id) : Carries u w w' id :=
  Or.inl ⟨congrArg (Option.bind · Row.claimID) hreal, congrArg (Option.map Entry.claimID) hfake⟩

theorem Moves.carries (hm : Moves u w w') (id : UUID) : Carries u w w' id :=
  (hm id).elim (fun h => Carries.same h.1 h.2) fun hn => Or.inr ⟨hn.real, hn.fake⟩

theorem Paired.carried (h : Paired u w r f) (hm : Carries u w w' r.messageID)
    (hseq : w.real.seq ≤ w'.real.seq) (hdrawn : w.drawn ≤ w'.drawn) : Paired u w' r f := by
  obtain ⟨i, hi, hri⟩ := h.real
  obtain ⟨j, hj, hfj⟩ := h.fake
  refine ⟨h.messageID, ?_, ⟨i, Nat.lt_of_lt_of_le hi hseq, hri⟩, ⟨j, Nat.lt_of_lt_of_le hj hdrawn, hfj⟩⟩
  rcases hm with ⟨hreal, hfake⟩ | ⟨hreal, hfake⟩
  · rw [hreal, hfake]
    exact h.live
  · exact ⟨fun hl => absurd (hri ▸ hl) (hreal i hi), fun hl => absurd (hfj ▸ hl) (hfake j hj)⟩

theorem Agree.moved (h : Agree u w) (hm : Moves u w w') (hseq : w.real.seq ≤ w'.real.seq)
    (hdrawn : w.drawn ≤ w'.drawn) (hpaused : w'.fake.paused = w.fake.paused)
    (hline : (line w'.real).map (fun r => (r.id, r.retryCount)) =
      w'.fake.pending.map fun e => (e.id, e.retryCount))
    (hcaps : ∀ r ∈ w'.real.msgs.rows, r.cap u.real = u.fake.maxRetries)
    (hrec : ∀ p ∈ w'.receipts, p ∈ w.receipts ∨ p = (none, none) ∨
      ∃ r f, p = (some r, some f) ∧ Paired u w' r f) : Agree u w' := by
  refine ⟨hpaused.trans h.unpaused, hline, fun id => ?_, hcaps, fun p hp => ?_⟩
  · rcases hm id with ⟨hreal, hfake⟩ | hn
    · rw [hreal, hfake]
      exact h.flight id
    · exact hn.flight
  · rcases hrec p hp with hold | hnew
    · refine (h.receipts p hold).imp id ?_
      rintro ⟨r, f, rfl, hpair⟩
      exact ⟨r, f, rfl, hpair.carried (hm.carries _) hseq hdrawn⟩
    · exact hnew

/-! ## the calls -/

theorem cap_newRow (hcap : u.fake.maxRetries = u.real.resolveMaxRetries) :
    (PgQueue.Channel.newRow env u.real.resolveMaxRetries m).cap u.real = u.fake.maxRetries :=
  hcap.symm

theorem Agree.publish (h : Agree u w) (hcap : u.fake.maxRetries = u.real.resolveMaxRetries)
    (hno : w.fake.hasMessage m.id = false) (hnew : w.real.msgs.find? m.id = none)
    (hlast : ∀ r ∈ line w.real, ¬ Earlier (env.now, m.id) r.place)
    (he : (e.id, e.retryCount) = (m.id, 0)) :
    Agree u { w with
      real := { w.real with
        msgs := w.real.msgs.insertNew (PgQueue.Channel.newRow env u.real.resolveMaxRetries m) }
      fake := { w.fake with pending := w.fake.pending ++ [e] } } := by
  have hrows := Table.rows_insertNew (r := PgQueue.Channel.newRow env u.real.resolveMaxRetries m) hnew
  refine h.moved (fun id => ?_) (Nat.le_refl _) (Nat.le_refl _) rfl ?_ ?_ fun p hp => Or.inl hp
  · -- the message is not in flight, before or after
    by_cases hid : id = m.id
    · subst hid
      right
      refine Renewed.landed ?_ ?_
      · have hkey : (PgQueue.Channel.newRow env u.real.resolveMaxRetries m).id = m.id := rfl
        unfold inFlight
        rw [Table.find?_insertNew, if_pos hkey, hnew]
        rfl
      · cases hl : w.fake.lookup m.id with
        | none => exact hl
        | some x =>
          rw [← lookup_id hl, Channel.hasMessage_claimed (mem_of_find?_eq_some hl)] at hno
          cases hno
    · left
      refine ⟨?_, rfl⟩
      unfold inFlight
      rw [Table.find?_insertNew, if_neg fun hk => hid hk.symm]
  · rw [PgQueue.Channel.line_join (r := PgQueue.Channel.newRow env u.real.resolveMaxRetries m)
      (s := w.real)]
    · have hall : ∀ x ∈ line w.real, decide (¬ Earlier (PgQueue.Channel.newRow env
          u.real.resolveMaxRetries m).place x.place) = true :=
        fun x hx => decide_eq_true (hlast x hx)
      rw [takeWhile_eq_self_iff.mpr hall, dropWhile_eq_nil_iff.mpr hall, map_append,
        map_append, h.pending, map_cons, map_cons, he]
      rfl
    · rw [hrows, filter_append]
      exact perm_append_comm
  · intro r hr
    rw [hrows] at hr
    rcases mem_append.mp hr with hr | hr
    · exact h.caps r hr
    · rw [mem_singleton.mp hr]
      exact cap_newRow hcap

theorem inFlight_claim (hrow : row ∈ s.msgs.rows) :
    inFlight (PgQueue.Channel.claimChannelMessage q env vis row n s).2 id =
      if id = row.id then some (row.claim env.now vis (q.gen.draw s.seq) n) else inFlight s id := by
  have hs : (PgQueue.Channel.claimChannelMessage q env vis row n s).2.msgs =
      s.msgs.update (fun r => decide (r.id = row.id)) (Row.claim env.now vis (q.gen.draw s.seq) n)
        (Row.id_claim _ _ _ _) := rfl
  rw [inFlight_update (k := row.id) (fun x _ => decide_eq_true_iff) hs, Table.find?_of_mem hrow]
  rfl

theorem lookup_claim :
    Channel.lookup { ch with
      pending := pending
      claimed := { e with claimID := c, status := .processing } :: ch.without e.id } id =
      if id = e.id then some { e with claimID := c, status := .processing } else ch.lookup id := by
  unfold Channel.lookup
  rw [find?_cons, find?_without]
  by_cases hk : id = e.id
  · rw [decide_eq_true hk.symm, if_pos hk, if_pos hk]
  · rw [decide_eq_false fun h => hk h.symm, if_neg hk, if_neg hk]
    rfl

theorem draw_ne (gen : Generator) {i : Nat} (hi : i < n) : gen.draw n ≠ gen.draw i :=
  fun h => Nat.ne_of_gt hi (gen.injective h)

theorem Agree.claim (h : Agree u w) (hl : line w.real = row :: rows)
    (hp : w.fake.pending = e :: pending)
    (hr : r.messageID = row.id ∧ r.claimID = u.real.gen.draw w.real.seq)
    (hf : f.messageID = e.id ∧ f.claimID = u.gen.draw w.drawn) :
    Agree u
      { real := (PgQueue.Channel.claimChannelMessage u.real env vis row row.retryCount w.real).2
        fake := { w.fake with
          pending := pending
          claimed := { e with claimID := u.gen.draw w.drawn, status := .processing } ::
            w.fake.without e.id }
        drawn := w.drawn + 1
        receipts := w.receipts ++ [(some r, some f)] } := by
  have hhead := h.pending
  rw [hl, hp, map_cons, map_cons] at hhead
  obtain ⟨hid, hrest⟩ := List.cons.inj hhead
  obtain ⟨hid, hcount⟩ := Prod.mk.inj hid
  obtain ⟨hrow, hpend⟩ := PgQueue.Channel.mem_line.mp (hl ▸ mem_cons_self : row ∈ line w.real)
  refine h.moved (fun id => ?_) (Nat.le_succ _) (Nat.le_succ _) rfl ?_ ?_ fun p hp => ?_
  · by_cases hk : id = row.id
    · right
      refine ⟨?_, fun i hi => ?_, fun i hi => ?_⟩
      · rw [inFlight_claim hrow, if_pos hk, lookup_claim, if_pos (hk.trans hid)]
        exact congrArg some hcount
      · rw [inFlight_claim hrow, if_pos hk]
        exact fun he => draw_ne _ hi (Option.some.inj he)
      · rw [lookup_claim, if_pos (hk.trans hid)]
        exact fun he => draw_ne _ hi (Option.some.inj he)
    · left
      rw [inFlight_claim hrow, if_neg hk, lookup_claim, if_neg fun he => hk (he.trans hid.symm)]
      exact ⟨rfl, rfl⟩
  · have hone : ∀ x ∈ w.real.msgs.rows, decide (x.id = row.id) = true ↔ x = row := fun x hx =>
      decide_eq_true_iff.trans ⟨Table.eq_of_key hx hrow, congrArg Row.id⟩
    rw [PgQueue.Channel.line_leave (Table.filter_perm_update (Row.id_claim _ _ _ _) hrow hpend hone rfl)
      hl]
    exact hrest
  · exact Table.forall_update h.caps fun x hx _ => h.caps x hx
  · rcases mem_append.mp hp with hp | hp
    · exact Or.inl hp
    · right
      right
      refine ⟨r, f, mem_singleton.mp hp, hr.1.trans (hid.trans hf.1.symm), ?_,
        ⟨_, Nat.lt_succ_self _, hr.2.symm⟩, ⟨_, Nat.lt_succ_self _, hf.2.symm⟩⟩
      rw [inFlight_claim hrow, if_pos hr.1, lookup_claim, if_pos (hr.1.trans hid), hr.2, hf.2]
      exact ⟨fun _ => rfl, fun _ => rfl⟩

/-! ## settling -/

theorem Paired.hit (h : Paired u w r f)
    (hflight : (inFlight w.real r.messageID).map Row.retryCount =
      (w.fake.lookup r.messageID).map Entry.retryCount)
    (hl : liveClaim w.real r.messageID = some r.claimID) :
    ∃ row e, row ∈ w.real.msgs.rows ∧ row.underClaim r.messageID r.claimID = true ∧
      w.fake.held f = some e ∧ e.id = r.messageID ∧ row.retryCount = e.retryCount := by
  obtain ⟨row, hrow, hu⟩ := PgQueue.Channel.liveClaim_eq_some.mp hl
  obtain ⟨hid, -, hst⟩ := PgQueue.Channel.underClaim_eq.mp hu
  obtain ⟨e, he, hc⟩ := Option.map_eq_some_iff.mp (h.live.mp (liveClaim_eq ▸ hl))
  rw [inFlight_eq_some.mpr ⟨hrow, hid, hst⟩, he] at hflight
  exact ⟨row, e, hrow, hu, held_eq_some.mpr ⟨h.messageID ▸ he, hc⟩, lookup_id he,
    Option.some.inj hflight⟩

theorem Paired.miss (h : Paired u w r f) (hl : liveClaim w.real r.messageID ≠ some r.claimID) :
    w.fake.held f = none := by
  cases hh : w.fake.held f with
  | none => rfl
  | some e =>
    obtain ⟨he, hc⟩ := held_eq_some.mp hh
    rw [← h.messageID] at he
    refine absurd ?_ hl
    rw [liveClaim_eq]
    exact h.live.mpr (by rw [he, ← hc]; rfl)

theorem Agree.landed {s' : State} {ch' : Channel μ} (h : Agree u w)
    (hreal : ∀ id, inFlight s' id = if id = k then none else inFlight w.real id)
    (hseq : w.real.seq ≤ s'.seq) (hpaused : ch'.paused = w.fake.paused)
    (hfake : ch'.claimed = w.fake.without k)
    (hline : (line s').map (fun r => (r.id, r.retryCount)) =
      ch'.pending.map fun e => (e.id, e.retryCount))
    (hcaps : ∀ r ∈ s'.msgs.rows, r.cap u.real = u.fake.maxRetries) :
    Agree u { w with real := s', fake := ch' } := by
  have hlookup : ∀ id, ch'.lookup id = if id = k then none else w.fake.lookup id := by
    intro id
    unfold Channel.lookup
    rw [hfake, find?_without]
    rfl
  refine h.moved (fun id => ?_) hseq (Nat.le_refl _) hpaused hline hcaps fun p hp => Or.inl hp
  by_cases hk : id = k
  · exact Or.inr (Renewed.landed ((hreal id).trans (if_pos hk)) ((hlookup id).trans (if_pos hk)))
  · exact Or.inl ⟨(hreal id).trans (if_neg hk), (hlookup id).trans (if_neg hk)⟩

theorem underClaim_iff (hrow : row ∈ s.msgs.rows) (hu : row.underClaim r.messageID r.claimID = true) :
    ∀ x ∈ s.msgs.rows, x.underClaim r.messageID r.claimID = true ↔ x.id = r.messageID := by
  intro x hx
  refine ⟨fun h => (PgQueue.Channel.underClaim_eq.mp h).1, fun h => ?_⟩
  rw [Table.eq_of_key hx hrow (h.trans (PgQueue.Channel.underClaim_eq.mp hu).1.symm)]
  exact hu

theorem not_pending_of_underClaim (hu : row.underClaim id c = true) : row.isPending = false := by
  unfold Row.isPending
  rw [(PgQueue.Channel.underClaim_eq.mp hu).2.2]
  rfl

theorem inFlight_complete (hrow : row ∈ s.msgs.rows) (hu : row.underClaim r.messageID r.claimID = true)
    (id : UUID) :
    inFlight (PgQueue.Channel.ackUpdate env r s).2 id =
      if id = r.messageID then none else inFlight s id := by
  have hs : (PgQueue.Channel.ackUpdate env r s).2.msgs = s.msgs.update
    (fun row => row.underClaim r.messageID r.claimID) (Row.complete env.now)
      (Row.id_complete env.now) := rfl
  rw [inFlight_update (underClaim_iff hrow hu) hs]
  congr 1
  cases s.msgs.find? r.messageID with
  | none | some => rfl

theorem inFlight_retry (id : UUID) :
    inFlight (PgQueue.Channel.retryMessage env k reason delay s) id =
      if id = k then none else inFlight s id := by
  have hs : (PgQueue.Channel.retryMessage env k reason delay s).msgs =
      s.msgs.update (fun r => decide (r.id = k)) (Row.retry env.now delay reason)
        (Row.id_retry _ _ _) := rfl
  rw [inFlight_update (k := k) (fun x _ => decide_eq_true_iff) hs]
  congr 1
  cases s.msgs.find? k with
  | none | some => rfl

theorem any_deadLetter (x : Row) :
    ([(⟨k, payload, n, metadata⟩ : DLQMessage)].any fun m => decide (m.id = x.id)) = true ↔ x.id = k := by
  rw [any_cons, any_nil, Bool.or_false, decide_eq_true_eq]
  exact eq_comm

theorem inFlight_bury (id : UUID) :
    inFlight (PgQueue.Channel.moveToDLQ q env k reason payload n metadata s) id =
      if id = k then none else inFlight s id :=
  inFlight_delete (fun x _ => any_deadLetter x) rfl

theorem Agree.complete (h : Agree u w) (hrow : row ∈ w.real.msgs.rows)
    (hu : row.underClaim r.messageID r.claimID = true) :
    Agree u { w with
      real := (PgQueue.Channel.ackUpdate env r w.real).2
      fake := { w.fake with claimed := w.fake.without r.messageID } } := by
  have hs : (PgQueue.Channel.ackUpdate env r w.real).2.msgs = w.real.msgs.update
    (fun row => row.underClaim r.messageID r.claimID) (Row.complete env.now)
      (Row.id_complete env.now) := rfl
  refine h.landed (inFlight_complete hrow hu) (Nat.le_refl _) rfl rfl ?_ ?_
  · rw [PgQueue.Channel.line_same (s := w.real)]
    · exact h.pending
    · rw [hs]
      exact Table.filter_update_of_not (Row.id_complete _) fun x _ hx =>
        ⟨not_pending_of_underClaim hx, rfl⟩
  · exact Table.forall_update h.caps fun x hx _ => h.caps x hx

theorem Agree.ack (h : Agree u w) (hpair : Paired u w r f) :
    Agree u (Setup.ack env (some r, some f) w) := by
  show Agree u { w with
    real := keep w.real (PgQueue.Channel.ackChannel env r w.real)
    fake := keep w.fake (Fake.ack f w.fake) }
  by_cases hl : liveClaim w.real r.messageID = some r.claimID
  · obtain ⟨row, e, hrow, hu, hheld, heid, -⟩ := hpair.hit (h.flight _) hl
    have hfake : keep w.fake (Fake.ack f w.fake) =
        { w.fake with claimed := w.fake.without r.messageID } := by
      unfold Fake.ack
      rw [hheld, ← hpair.messageID]
      rfl
    rw [PgQueue.Channel.ackChannel_hit hl, hfake]
    exact h.complete hrow hu
  · have hfake : keep w.fake (Fake.ack f w.fake) = w.fake := by
      unfold Fake.ack
      rw [hpair.miss hl]
      rfl
    rw [PgQueue.Channel.ackChannel_miss hl, hfake]
    exact h

/-- a message that is tried again joins the line at the same place on both sides -/
def InPlace (s : State) (row : Row) (available : Time) : Prop :=
  (line s).takeWhile (fun x => decide (x.id < row.id)) =
    (line s).takeWhile fun x => decide ¬ Earlier (available, row.id) x.place

theorem dropWhile_of_takeWhile {α : Type} {p p' : α → Bool} {l : List α}
    (h : l.takeWhile p = l.takeWhile p') : l.dropWhile p = l.dropWhile p' := by
  have hl := l.takeWhile_append_dropWhile (p := p)
  conv at hl => rhs; rw [← l.takeWhile_append_dropWhile (p := p')]
  rw [h] at hl
  exact append_cancel_left hl

theorem map_insertSortedByID
    (h : rows.map (fun r => (r.id, r.retryCount)) = pending.map fun e => (e.id, e.retryCount)) :
    (insertSortedByID pending e).map (fun e => (e.id, e.retryCount)) =
      (rows.takeWhile fun x => decide (x.id < e.id)).map (fun r => (r.id, r.retryCount)) ++
        (e.id, e.retryCount) ::
          (rows.dropWhile fun x => decide (x.id < e.id)).map fun r => (r.id, r.retryCount) := by
  have htake : (rows.takeWhile fun x => decide (x.id < e.id)).map (fun r => (r.id, r.retryCount)) =
      (pending.takeWhile fun x => decide (x.id < e.id)).map fun e => (e.id, e.retryCount) := by
    have := congrArg (List.takeWhile fun v : UUID × Nat => decide (v.1 < e.id)) h
    rwa [takeWhile_map, takeWhile_map] at this
  have hdrop : (rows.dropWhile fun x => decide (x.id < e.id)).map (fun r => (r.id, r.retryCount)) =
      (pending.dropWhile fun x => decide (x.id < e.id)).map fun e => (e.id, e.retryCount) := by
    have := congrArg (List.dropWhile fun v : UUID × Nat => decide (v.1 < e.id)) h
    rwa [dropWhile_map, dropWhile_map] at this
  unfold insertSortedByID
  rw [map_append, map_cons, htake, hdrop]

theorem Agree.retry (h : Agree u w) (hrow : row ∈ w.real.msgs.rows)
    (hu : row.underClaim r.messageID r.claimID = true) (heid : e.id = r.messageID)
    (hcount : row.retryCount = e.retryCount) (hplace : InPlace w.real row (env.now + delay)) :
    Agree u { w with
      real := PgQueue.Channel.retryMessage env r.messageID reason delay w.real
      fake := { w.fake with
        claimed := w.fake.without r.messageID
        pending := insertSortedByID w.fake.pending
          { e with retryCount := e.retryCount + 1, claimID := UUID.nil, status := .pending } } } := by
  have hid := (PgQueue.Channel.underClaim_eq.mp hu).1
  refine h.landed inFlight_retry (Nat.le_refl _) rfl rfl ?_ ?_
  · rw [PgQueue.Channel.line_join (s := w.real) (r := row.retry env.now delay reason),
      map_insertSortedByID h.pending]
    · have htake : (line w.real).takeWhile (fun x => decide (x.id < e.id)) =
          (line w.real).takeWhile fun x => decide ¬ Earlier (row.retry env.now delay reason).place
            x.place := by
        rw [heid, ← hid]
        exact hplace
      rw [htake, dropWhile_of_takeWhile htake, map_append, map_cons, heid, ← hid, ← hcount]
      rfl
    · refine Table.filter_perm_update_into (Row.id_retry _ _ _) hrow (not_pending_of_underClaim hu)
        (fun x hx => ?_) rfl
      rw [decide_eq_true_eq]
      exact ⟨fun he => Table.eq_of_key hx hrow (he.trans hid.symm), fun he => he ▸ hid⟩
  · exact Table.forall_update h.caps fun x hx _ => h.caps x hx

theorem Agree.bury (h : Agree u w) (hrow : row ∈ w.real.msgs.rows)
    (hu : row.underClaim r.messageID r.claimID = true) :
    Agree u { w with
      real := PgQueue.Channel.moveToDLQ u.real env r.messageID reason row.payload
        (row.retryCount + 1) row.metadata w.real
      fake := { w.fake with
        claimed := w.fake.without r.messageID
        dlq := w.fake.dlq ++ [e] } } := by
  have hid := (PgQueue.Channel.underClaim_eq.mp hu).1
  refine h.landed inFlight_bury (Nat.le_succ _) rfl rfl ?_ ?_
  · rw [PgQueue.Channel.line_same (s := w.real)]
    · exact h.pending
    · show (w.real.msgs.rows.filter _).filter _ = _
      rw [filter_filter]
      refine filter_congr fun x hx => ?_
      cases hx' : x.isPending with
      | false => rfl
      | true =>
        rw [Bool.true_and, Bool.not_eq_true']
        refine Bool.eq_false_iff.mpr fun hm => ?_
        rw [Table.eq_of_key hx hrow (((any_deadLetter x).mp hm).trans hid.symm),
          not_pending_of_underClaim hu] at hx'
        cases hx'
  · exact Table.forall_delete h.caps

theorem Agree.nack (h : Agree u w) (hpair : Paired u w r f)
    (hplace : ∀ row, inFlight w.real r.messageID = some row → row.claimID = some r.claimID →
      row.retryCount + 1 ≤ row.cap u.real → InPlace w.real row
        (env.now + env.computeRetryDelay row.id (row.retryCount + 1) delay)) :
    Agree u (u.nack env (some r, some f) reason delay w) := by
  show Agree u { w with
    real := keep w.real (PgQueue.Channel.nackChannelImpl u.real env r reason delay w.real)
    fake := keep w.fake (Fake.nack u.fake f w.fake) }
  by_cases hl : liveClaim w.real r.messageID = some r.claimID
  · obtain ⟨row, e, hrow, hu, hheld, heid, hcount⟩ := hpair.hit (h.flight _) hl
    obtain ⟨hid, hc, hst⟩ := PgQueue.Channel.underClaim_eq.mp hu
    have hcap := h.caps row hrow
    rw [PgQueue.Channel.nackChannelImpl_hit hrow hu]
    unfold Fake.nack PgQueue.Channel.handleNack
    rw [hheld, ← hpair.messageID, hcap, hcount]
    dsimp only
    by_cases hx : e.retryCount + 1 > u.fake.maxRetries
    · rw [if_pos hx, if_pos hx, ← hcount]
      exact h.bury hrow hu
    · rw [if_neg hx, if_neg hx]
      have hle : row.retryCount + 1 ≤ row.cap u.real := by
        rw [hcap, hcount]
        exact Nat.le_of_not_lt hx
      refine h.retry hrow hu heid hcount ?_
      rw [← hcount, ← hid]
      exact hplace row (inFlight_eq_some.mpr ⟨hrow, hid, hst⟩) hc hle
  · have hfake : keep w.fake (Fake.nack u.fake f w.fake) = w.fake := by
      unfold Fake.nack
      rw [hpair.miss hl]
      rfl
    rw [PgQueue.Channel.nackChannelImpl_miss hl, hfake]
    exact h

/-! ## histories -/

/-- the sides take or refuse the id together, and a new message is the last of the real line -/
def Joins (env : Env) (w : Sides μ) (id : UUID) : Prop :=
  w.fake.hasMessage id = (w.real.msgs.find? id).isSome ∧
    (w.real.msgs.find? id = none → ∀ r ∈ line w.real, ¬ Earlier (env.now, id) r.place)

/-- the message of the receipt, if it is tried again, joins at the same place on both sides -/
def Rejoins (u : Setup μ) (env : Env) (w : Sides μ) (delay : Duration) (r : Receipt) (row : Row) :
    Prop :=
  row.claimID = some r.claimID → row.retryCount + 1 ≤ row.cap u.real →
    InPlace w.real row (env.now + env.computeRetryDelay row.id (row.retryCount + 1) delay)

def Setup.InOrder (u : Setup μ) (w : Sides μ) : Env × Act μ → Prop
  | (env, .publish c) => u.passes c = true ∧ ∀ id ∈ (messageID c).toOption, Joins env w id
  | (env, .receive vis) =>
    (Fifo.Admits env vis ∧ env.ttl ≤ 0 ∧ NoneTimedOut env.now w.real) ∧
      ∀ r ∈ line w.real, r.availableAt ≤ env.now
  | (_, .ack _) => True
  | (env, .nack n _ delay) =>
    ∀ r ∈ (Setup.receiptsOf w n).1, ∀ row ∈ inFlight w.real r.messageID, Rejoins u env w delay r row

theorem Agree.start : Agree u Sides.start where
  unpaused := rfl
  pending := rfl
  flight _ := rfl
  caps _ h := absurd h not_mem_nil
  receipts _ h := absurd h not_mem_nil

theorem Setup.payload_of_passes {c : Call μ} (h : u.passes c = true) : c.message.payload ≠ none := by
  intro hnil
  unfold Setup.passes checkPayload at h
  rw [hnil, Bool.and_eq_true, Bool.and_eq_true] at h
  exact absurd h.1.2 Bool.false_ne_true

section
variable {c : Call μ} {ch : Channel μ} {id : UUID} (hid : messageID c = .ok id)
include hid

theorem publish_refused (hm : ch.hasMessage id = true) : (Fake.publish c ch).2 = ch := by
  refine publish_cases (P := fun x => x.2 = ch) (fun _ => rfl) (fun _ _ => rfl) (fun _ _ _ => rfl)
    fun k payload hk hno => ?_
  obtain rfl : id = k := Except.ok.inj (hid.symm.trans hk)
  rw [hm] at hno
  cases hno

theorem publish_taken (hpay : c.message.payload ≠ none) (hm : ch.hasMessage id = false) :
    ∃ e, (Fake.publish c ch).2 = { ch with pending := ch.pending ++ [e] } ∧
      (e.id, e.retryCount) = (id, 0) := by
  refine publish_cases (P := fun x => ∃ e, x.2 = { ch with pending := ch.pending ++ [e] } ∧
    (e.id, e.retryCount) = (id, 0)) (fun hnil => absurd hnil hpay) (fun e he => ?_)
    (fun k hk hhas => ?_) fun k payload hk _ => ?_
  · rw [hid] at he
    cases he
  · obtain rfl : id = k := Except.ok.inj (hid.symm.trans hk)
    rw [hm] at hhas
    cases hhas
  · obtain rfl : id = k := Except.ok.inj (hid.symm.trans hk)
    exact ⟨_, rfl, rfl⟩

end

theorem Agree.serve_publish {c : Call μ} (h : Agree u w)
    (hcap : u.fake.maxRetries = u.real.resolveMaxRetries) (ho : u.InOrder w (env, .publish c)) :
    Agree u (u.serve env w (.publish c)) := by
  obtain ⟨hpass, hj⟩ := ho
  obtain ⟨m, hid, heq⟩ := Setup.publish_of_passes hpass env w.real
  obtain ⟨halike, hlast⟩ := hj m.id (by rw [hid]; rfl)
  show Agree u { w with
    real := (PgQueue.Channel.publish u.publisher u.real env c w.real).2
    fake := (Fake.publish c w.fake).2 }
  rw [heq]
  unfold PgQueue.Channel.publishToChannel
  cases hfind : w.real.msgs.find? m.id with
  | some row =>
    rw [hfind] at halike
    rw [publish_refused hid halike]
    exact h
  | none =>
    rw [hfind] at halike
    obtain ⟨e, hfake, he⟩ := publish_taken hid (Setup.payload_of_passes hpass) halike
    rw [hfake]
    exact h.publish hcap halike hfind (hlast hfind) he

theorem received_nil (h : Agree u w) (ho : u.InOrder w (env, .receive vis)) (hl : line w.real = []) :
    u.receiveReal env vis w = (.error .queueEmpty, w.real) ∧
      u.receiveFake w = (.error .queueEmpty, w.fake) := by
  obtain ⟨⟨ha, httl, ht⟩, harr⟩ := ho
  have hprobe := PgQueue.Channel.pendingProbe_line httl harr
  rw [hl] at hprobe
  refine ⟨PgQueue.Channel.receiveChannel_empty ha.1 ha.2 ht hprobe, ?_⟩
  have hpend := h.pending
  rw [hl] at hpend
  unfold Setup.receiveFake receiveChannel Fake.claim
  rw [h.unpaused, map_eq_nil_iff.mp hpend.symm]
  rfl

theorem receiveChannel_cons {q : Queue} (hpaused : ch.paused = false) (hp : ch.pending = e :: pending) :
    ∃ d, receiveChannel q (some c) ch = (.ok d, { ch with
        pending := pending
        claimed := { e with claimID := c, status := .processing } :: ch.without e.id }) ∧
      d.id = e.id ∧ d.receipt.messageID = e.id ∧ d.receipt.claimID = c := by
  unfold receiveChannel Fake.claim
  rw [hpaused, hp]
  exact ⟨_, rfl, rfl, rfl, rfl⟩

theorem received_cons (h : Agree u w) (ho : u.InOrder w (env, .receive vis))
    (hl : line w.real = row :: rows) :
    ∃ m d e pending, w.fake.pending = e :: pending ∧
      u.receiveReal env vis w =
        (.ok m, (PgQueue.Channel.claimChannelMessage u.real env vis row row.retryCount w.real).2) ∧
      u.receiveFake w = (.ok d, { w.fake with
        pending := pending
        claimed := { e with claimID := u.gen.draw w.drawn, status := .processing } ::
          w.fake.without e.id }) ∧
      (m.id = row.id ∧ m.receipt.messageID = row.id ∧ m.receipt.claimID = u.real.gen.draw w.real.seq) ∧
      (d.id = e.id ∧ d.receipt.messageID = e.id ∧ d.receipt.claimID = u.gen.draw w.drawn) ∧
      row.id = e.id := by
  obtain ⟨⟨ha, httl, ht⟩, harr⟩ := ho
  have hprobe := PgQueue.Channel.pendingProbe_line httl harr
  rw [hl] at hprobe
  obtain ⟨m, s', hreal, hclaim⟩ := PgQueue.Channel.receiveChannel_claims (q := u.real) ha.1 ha.2 hprobe
  obtain ⟨hm, rfl⟩ := Prod.mk.inj hclaim
  obtain rfl := Option.some.inj hm
  have hpend := h.pending
  rw [hl, map_cons] at hpend
  obtain ⟨e, pending, hp, he, -⟩ := map_eq_cons_iff.mp hpend.symm
  obtain ⟨d, hfake, hd⟩ := receiveChannel_cons (q := u.fake) (c := u.gen.draw w.drawn) h.unpaused hp
  exact ⟨_, d, e, pending, hp, hreal, hfake, ⟨rfl, rfl, rfl⟩, hd, (Prod.mk.inj he).1.symm⟩

theorem Agree.serve_receive (h : Agree u w) (ho : u.InOrder w (env, .receive vis)) :
    Agree u (u.serve env w (.receive vis)) := by
  show Agree u (u.receive env vis w)
  unfold Setup.receive
  cases hl : line w.real with
  | nil =>
    obtain ⟨hreal, hfake⟩ := received_nil h ho hl
    rw [hreal, hfake]
    refine h.moved (fun id => Or.inl ⟨rfl, rfl⟩) (Nat.le_refl _) (Nat.le_succ _) rfl h.pending h.caps
      fun p hp => ?_
    exact (mem_append.mp hp).imp id fun hp => Or.inl (mem_singleton.mp hp)
  | cons row rows =>
    obtain ⟨m, d, e, pending, hp, hreal, hfake, hm, hd, -⟩ := received_cons h ho hl
    rw [hreal, hfake]
    exact h.claim hl hp hm.2 hd.2

theorem Agree.receiptsOf (h : Agree u w) (n : Nat) :
    Setup.receiptsOf w n = (none, none) ∨
      ∃ r f, Setup.receiptsOf w n = (some r, some f) ∧ Paired u w r f := by
  unfold Setup.receiptsOf
  rw [getD_eq_getElem?_getD]
  cases hn : w.receipts[n]? with
  | none => exact Or.inl rfl
  | some p => exact h.receipts p (mem_of_getElem? hn)

theorem Agree.serve (h : Agree u w) (hcap : u.fake.maxRetries = u.real.resolveMaxRetries) (a : Act μ)
    (ho : u.InOrder w (env, a)) : Agree u (u.serve env w a) := by
  cases a with
  | publish c => exact h.serve_publish hcap ho
  | receive vis => exact h.serve_receive ho
  | ack n =>
    show Agree u (Setup.ack env (Setup.receiptsOf w n) w)
    rcases h.receiptsOf n with hn | ⟨r, f, hn, hpair⟩
    · rw [hn]
      exact h
    · rw [hn]
      exact h.ack hpair
  | nack n reason delay =>
    show Agree u (u.nack env (Setup.receiptsOf w n) reason delay w)
    rcases h.receiptsOf n with hn | ⟨r, f, hn, hpair⟩
    · rw [hn]
      exact h
    · rw [hn]
      exact h.nack hpair fun row hrow hc hle => ho r (by rw [hn]; rfl) row hrow hc hle

theorem Agree.of_runs (hcap : u.fake.maxRetries = u.real.resolveMaxRetries)
    (h : Runs u.step u.InOrder Sides.start w) : Agree u w := by
  refine h.invariant (Agree u) Agree.start fun a e b ha hok he => ?_
  obtain rfl : u.serve e.1 a e.2 = b := Option.some.inj he
  exact ha.serve hcap e.2 hok

end

/-! ## two messages -/

instance (s : State) (row : Row) (available : Time) : Decidable (InPlace s row available) :=
  inferInstanceAs (Decidable (_ = _))

instance (env : Env) (w : Sides μ) (id : UUID) : Decidable (Joins env w id) :=
  inferInstanceAs (Decidable (_ ∧ _))

instance (u : Setup μ) (env : Env) (w : Sides μ) (delay : Duration) (r : Receipt) (row : Row) :
    Decidable (Rejoins u env w delay r row) :=
  inferInstanceAs (Decidable (_ → _ → _))

instance (now : Time) (s : State) : Decidable (NoneTimedOut now s) :=
  inferInstanceAs (Decidable (∀ r ∈ s.msgs.rows, r.timedOut now = false))

instance (env : Env) (vis : Duration) : Decidable (Fifo.Admits env vis) :=
  inferInstanceAs (Decidable (env.paused = false ∧ validateVisibilityTimeout vis = .ok ()))

instance decidableInOrder (u : Setup μ) (w : Sides μ) : (e : Env × Act μ) → Decidable (u.InOrder w e)
  | (env, .publish c) =>
    inferInstanceAs (Decidable (u.passes c = true ∧ ∀ id ∈ (messageID c).toOption, Joins env w id))
  | (env, .receive vis) =>
    inferInstanceAs (Decidable ((Fifo.Admits env vis ∧ env.ttl ≤ 0 ∧ NoneTimedOut env.now w.real) ∧
      ∀ r ∈ line w.real, r.availableAt ≤ env.now))
  | (_, .ack _) => isTrue trivial
  | (env, .nack n _ delay) =>
    inferInstanceAs (Decidable (∀ r ∈ (Setup.receiptsOf w n).1, ∀ row ∈ inFlight w.real r.messageID,
      Rejoins u env w delay r row))

def threeRetries : Setup Unit := ⟨plainPublisher, .counting 3, new "orders" [], .counting⟩

def callWithID (id : UUID) : Call Unit := ⟨⟨id, some [1], none⟩, none⟩

end PgQueue.Fake
