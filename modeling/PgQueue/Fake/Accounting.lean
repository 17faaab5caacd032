import PgQueue.Fake.Places

/-!
# The retry accounting of the fake

Both sides are given the same calls and claim the same message at each receive.  The places of a message
and its retry counts go along, with one difference: a dead letter of the fake keeps the count from before
the last nack, the dead-letter row of the real channel counts it (`Place.counted`).

* `books_differ`        **so the retry counts of a dead letter are not equal**; and the sides part on a
                        message that only the real queue refuses, and on a reason with a zero byte;
* `Setup.Fits`          a run without these two;
* `Accounts`            what every such call keeps (`Accounts.land`, `Accounts.settle`, `Accounts.deal`);
* `retry_accounting`    **then the sides account for every message alike.**
-/

namespace PgQueue.Fake
open Relational Process Publisher List
open PgQueue.Channel (State Row liveClaim)

variable {μ : Type}

def Setup.dealt (u : Setup μ) (b : Books μ) (e : Env × Deed μ) : Option (Books μ) := u.deal e.1 b e.2

/-- the same place and the same retry count for every message, and the same answers -/
def Books.Matches (b : Books μ) : Prop :=
  (∀ id, realPlace b.sides.real id = b.fakePlace id) ∧ ∀ a ∈ b.answers, a.1 = a.2

/-! ## three runs -/

def buried : List (Env × Deed Unit) :=
  [(.bare 0, .publish callSeven), (.bare 1, .receive 7 hour), (.bare 2, .nack 0 [] 0)]

def zeroReason : List (Env × Deed Unit) :=
  [(.bare 0, .publish callSeven), (.bare 1, .receive 7 hour), (.bare 2, .nack 0 [0] 0)]

def oneByte : Setup Unit := { noRetries with publisher := { plainPublisher with sizes := some ⟨1, 0⟩ } }

def tooLong : List (Env × Deed Unit) := [(.bare 0, .publish ⟨⟨7, some [1, 2], none⟩, none⟩)]

theorem books_differ :
    (∃ b, follow noRetries.dealt .start buried = some b ∧ ¬b.Matches ∧
      realPlace b.sides.real 7 = some (.dead 1) ∧ b.fakePlace 7 = some (.dead 0)) ∧
    (∃ b, follow noRetries.dealt .start zeroReason = some b ∧ ¬b.Matches ∧ b.answers = [(false, true)]) ∧
    ∃ b, follow oneByte.dealt .start tooLong = some b ∧ ¬b.Matches ∧
      realPlace b.sides.real 7 = none ∧ b.fakePlace 7 = some (.pending 0) := by
  refine ⟨⟨_, rfl, fun h => ?_, by decide, by decide⟩, ⟨_, rfl, fun h => ?_, by decide⟩,
    ⟨_, rfl, fun h => ?_, by decide, by decide⟩⟩
  · exact absurd (h.1 7) (by decide)
  · exact absurd (h.1 7) (by decide)
  · exact absurd (h.1 7) (by decide)

/-! ## what a run keeps -/

/-- the last nack of a dead letter, which the fake does not count -/
def Place.counted : Place → Place
  | .dead n => .dead (n + 1)
  | p => p

/-- the nacks of a message that have led to its place -/
def Counts (cap nacks : Nat) : Option Place → Prop
  | none => nacks = 0
  | some (.pending n) => nacks = n ∧ n ≤ cap
  | some (.claimed n) => nacks = n ∧ n ≤ cap
  | some (.dead n) => nacks = cap + 1 ∧ n = cap
  | some .done => nacks ≤ cap

structure Accounts (u : Setup μ) (b : Books μ) : Prop where
  unpaused : b.sides.fake.paused = false
  distinct : b.sides.fake.Distinct
  known : ∀ id, b.sides.fake.place id ≠ none → id ∈ b.published
  apart : ∀ d ∈ b.sides.real.dlq, b.sides.real.msgs.find? d.originalMessageID = none
  caps : ∀ r ∈ b.sides.real.msgs.rows, r.cap u.real = u.fake.maxRetries
  places : ∀ id, realPlace b.sides.real id = (b.fakePlace id).map Place.counted
  nacks : ∀ id, Counts u.fake.maxRetries (b.nacked.count id) (b.fakePlace id)
  receipts : ∀ p ∈ b.sides.receipts, ∃ r f, p = (some r, some f) ∧ Paired u b.sides r f
  owned : ∀ id c, liveClaim b.sides.real id = some c →
    ∃ p ∈ b.sides.receipts, ∃ r, p.1 = some r ∧ r.messageID = id ∧ r.claimID = c
  answers : ∀ a ∈ b.answers, a.1 = a.2

section
variable {s : State} {ch : Channel μ} {id : UUID} {n : Nat}

theorem realPlace_claimed_iff :
    realPlace s id = some (.claimed n) ↔ ∃ row, inFlight s id = some row ∧ row.retryCount = n := by
  unfold realPlace inFlight
  cases s.msgs.find? id with
  | none => simp
  | some row =>
    unfold rowPlace
    cases hst : row.status <;> simp [Option.filter, hst]

theorem place_claimed_iff (h : ch.Distinct) :
    ch.place id = some (.claimed n) ↔ ∃ e, ch.lookup id = some e ∧ e.retryCount = n := by
  constructor
  · intro hp
    have hmem : (id, Place.claimed n) ∈ ch.book := (lookup_iff_mem h).mp hp
    obtain ⟨e, he, heq⟩ : ∃ e ∈ ch.claimed, (e.id, Place.claimed e.retryCount) = (id, .claimed n) := by
      unfold Channel.book at hmem
      rcases mem_append.mp hmem with hmem | hmem
      · obtain ⟨e, -, heq⟩ := mem_map.mp hmem
        cases (Prod.mk.inj heq).2
      · rcases mem_append.mp hmem with hmem | hmem
        · exact mem_map.mp hmem
        · obtain ⟨e, -, heq⟩ := mem_map.mp hmem
          cases (Prod.mk.inj heq).2
    obtain ⟨rfl, hn⟩ := Prod.mk.inj heq
    cases hfind : ch.lookup e.id with
    | none => exact absurd (find?_eq_none.mp hfind e he) (by simp)
    | some x =>
      have hx : x = e := inj_on_of_nodup_map h.claimed (mem_of_find?_eq_some hfind) he
        (lookup_id hfind)
      exact ⟨x, rfl, hx ▸ Place.claimed.inj hn⟩
  · rintro ⟨e, he, rfl⟩
    exact place_claimed h he

theorem counted_eq_claimed {o : Option Place} (h : o.map Place.counted = some (.claimed n)) :
    o = some (.claimed n) := by
  obtain ⟨p, rfl, hp⟩ := Option.map_eq_some_iff.mp h
  cases p with
  | claimed m => exact congrArg some hp
  | pending | dead | done => cases hp

theorem hasMessage_of_place (h : ch.Distinct) (hp : ch.place id = none) : ch.hasMessage id = false := by
  cases hm : ch.hasMessage id with
  | false => rfl
  | true =>
    obtain ⟨e, he, rfl⟩ := Channel.hasMessage_iff.mp hm
    have hkey : e.id ∈ ch.book.map Prod.fst := by
      rw [map_fst_book, ← map_append, ← map_append, ← append_assoc]
      exact mem_map_of_mem he
    obtain ⟨⟨k, p⟩, hkp, hk⟩ := mem_map.mp hkey
    have hk : k = e.id := hk
    subst hk
    have hsome : ch.place e.id = some p := (lookup_iff_mem h).mpr hkp
    rw [hp] at hsome
    cases hsome

end

section
variable {u : Setup μ} {env : Env} {b b' : Books μ} {k : UUID} {n : Nat} {r f : Receipt} {c : Call μ}
  {e : Entry μ} {nacked : List UUID} {new o : Option Place} {vis : Duration}

theorem fakePlace_claimed :
    b.fakePlace k = some (.claimed n) ↔ b.sides.fake.place k = some (.claimed n) := by
  unfold Books.fakePlace
  cases hp : b.sides.fake.place k with
  | some p => rfl
  | none =>
    rw [Option.none_or]
    split <;> simp

theorem Accounts.flight (h : Accounts u b) (id : UUID) :
    (inFlight b.sides.real id).map Row.retryCount =
      (b.sides.fake.lookup id).map Entry.retryCount := by
  refine Option.ext fun n => ?_
  rw [Option.map_eq_some_iff, Option.map_eq_some_iff, ← realPlace_claimed_iff,
    ← place_claimed_iff h.distinct, ← fakePlace_claimed, h.places id]
  exact ⟨counted_eq_claimed, fun he => by rw [he]; rfl⟩

theorem Accounts.move (h : Accounts u b) {w' : Sides μ} {published : List UUID} {old : Option Place}
    (hfake : Replaced k old new b.sides.fake w'.fake) (hold : b.sides.fake.place k = old)
    (hpaused : w'.fake.paused = b.sides.fake.paused)
    (hpub : ∀ id, id ∈ published ↔ id ∈ b.published ∨ id = k)
    (hreal : ∀ id, realPlace w'.real id =
      if id = k then some (new.getD .done).counted else realPlace b.sides.real id)
    (hcarries : ∀ id, Carries u b.sides w' id) (hseq : b.sides.real.seq ≤ w'.real.seq)
    (hdrawn : b.sides.drawn ≤ w'.drawn)
    (hapart : ∀ d ∈ w'.real.dlq, w'.real.msgs.find? d.originalMessageID = none)
    (hcaps : ∀ r ∈ w'.real.msgs.rows, r.cap u.real = u.fake.maxRetries)
    (hcount : Counts u.fake.maxRetries (nacked.count k) (some (new.getD .done)))
    (hother : ∀ id, id ≠ k → nacked.count id = b.nacked.count id)
    (hsub : b.sides.receipts ⊆ w'.receipts)
    (hreceipts : ∀ p ∈ w'.receipts, p ∈ b.sides.receipts ∨
      ∃ r f, p = (some r, some f) ∧ Paired u w' r f)
    (howned : ∀ id c, liveClaim w'.real id = some c → liveClaim b.sides.real id = some c ∨
      ∃ p ∈ w'.receipts, ∃ r, p.1 = some r ∧ r.messageID = id ∧ r.claimID = c) :
    Accounts u ⟨w', published, nacked, b.answers⟩ := by
  obtain ⟨hdistinct, hplace⟩ := hfake.place h.distinct hold
  have hnew : ∀ id, Books.fakePlace ⟨w', published, nacked, b.answers⟩ id =
      if id = k then some (new.getD .done) else b.fakePlace id := by
    intro id
    show (w'.fake.place id).or (if id ∈ published then some .done else none) = _
    rw [hplace]
    by_cases heq : id = k
    · rw [if_pos heq, if_pos heq, if_pos ((hpub id).mpr (Or.inr heq))]
      cases new <;> rfl
    · rw [if_neg heq, if_neg heq]
      simp only [hpub, or_iff_left heq]
      rfl
  refine ⟨hpaused.trans h.unpaused, hdistinct, fun id hid => (hpub id).mpr ?_, hapart, hcaps,
    fun id => ?_, fun id => ?_, fun p hp => ?_, fun id c hc => ?_, h.answers⟩
  · by_cases heq : id = k
    · exact Or.inr heq
    · have hne : w'.fake.place id ≠ none := hid
      rw [hplace, if_neg heq] at hne
      exact Or.inl (h.known id hne)
  · rw [hnew]
    refine (hreal id).trans ?_
    by_cases heq : id = k
    · rw [if_pos heq, if_pos heq]
      rfl
    · rw [if_neg heq, if_neg heq]
      exact h.places id
  · rw [hnew]
    by_cases heq : id = k
    · rw [if_pos heq, heq]
      exact hcount
    · rw [if_neg heq, hother id heq]
      exact h.nacks id
  · rcases hreceipts p hp with hp | hp
    · obtain ⟨r, f, rfl, hpair⟩ := h.receipts p hp
      exact ⟨r, f, rfl, hpair.carried (hcarries _) hseq hdrawn⟩
    · exact hp
  · rcases howned id c hc with hc | hc
    · obtain ⟨p, hp, hr⟩ := h.owned id c hc
      exact ⟨p, hsub hp, hr⟩
    · exact hc

theorem Accounts.published (h : Accounts u b) {p : Place} (hk : b.sides.fake.place k = some p) (id : UUID) :
    id ∈ b.published ↔ id ∈ b.published ∨ id = k := by
  have hpub : k ∈ b.published := h.known k (by rw [hk]; exact Option.some_ne_none _)
  exact ⟨Or.inl, fun hid => hid.elim (fun hx => hx) fun he => he ▸ hpub⟩

theorem Accounts.land (h : Accounts u b) {s' : State} {ch' : Channel μ}
    (hk : b.sides.fake.place k = some (.claimed n))
    (hfake : Replaced k (some (.claimed n)) new b.sides.fake ch')
    (hpaused : ch'.paused = b.sides.fake.paused) (hclaimed : ch'.claimed = b.sides.fake.without k)
    (hreal : ∀ id, realPlace s' id =
      if id = k then some (new.getD .done).counted else realPlace b.sides.real id)
    (hflight : ∀ id, inFlight s' id = if id = k then none else inFlight b.sides.real id)
    (hseq : b.sides.real.seq ≤ s'.seq) (hapart : ∀ d ∈ s'.dlq, s'.msgs.find? d.originalMessageID = none)
    (hcaps : ∀ r ∈ s'.msgs.rows, r.cap u.real = u.fake.maxRetries)
    (hcount : Counts u.fake.maxRetries (nacked.count k) (some (new.getD .done)))
    (hother : ∀ id, id ≠ k → nacked.count id = b.nacked.count id) :
    Accounts u { b with sides := { b.sides with real := s', fake := ch' }, nacked := nacked } := by
  have hlookup : ∀ id, ch'.lookup id = if id = k then none else b.sides.fake.lookup id := by
    intro id
    unfold Channel.lookup
    rw [hclaimed, find?_without]
    rfl
  refine h.move hfake hk hpaused (h.published hk) hreal (fun id => ?_) hseq (Nat.le_refl _)
    hapart hcaps hcount hother (List.Subset.refl _)
    (fun p hp => Or.inl hp) fun id c hc => Or.inl ?_
  · by_cases heq : id = k
    · have hn : Renewed u b.sides { b.sides with real := s', fake := ch' } id :=
        .landed ((hflight _).trans (if_pos heq)) ((hlookup _).trans (if_pos heq))
      exact Or.inr ⟨hn.real, hn.fake⟩
    · exact .same ((hflight _).trans (if_neg heq)) ((hlookup _).trans (if_neg heq))
  · have hc : (inFlight s' id).bind Row.claimID = some c := liveClaim_eq ▸ hc
    rw [hflight] at hc
    by_cases heq : id = k
    · rw [if_pos heq] at hc
      cases hc
    · rw [if_neg heq, ← liveClaim_eq] at hc
      exact hc

/-! ## the calls about a receipt -/

theorem count_other {l : List UUID} {id : UUID} (hid : id ≠ k) : (l ++ [k]).count id = l.count id := by
  rw [count_append, count_singleton, if_neg (by simpa using hid.symm), Nat.add_zero]

structure Held (u : Setup μ) (b : Books μ) (r f : Receipt) (row : Row) (e : Entry μ) : Prop where
  mem : row ∈ b.sides.real.msgs.rows
  under : row.underClaim r.messageID r.claimID = true
  held : b.sides.fake.held f = some e
  found : b.sides.fake.lookup r.messageID = some e
  count : row.retryCount = e.retryCount

theorem Accounts.held (h : Accounts u b) (hpair : Paired u b.sides r f)
    (hl : liveClaim b.sides.real r.messageID = some r.claimID) : ∃ row e, Held u b r f row e := by
  obtain ⟨row, e, hrow, hu, hheld, heid, hcount⟩ := hpair.hit (h.flight _) hl
  obtain ⟨hfound, -⟩ := held_eq_some.mp hheld
  exact ⟨row, e, hrow, hu, hheld, hpair.messageID ▸ hfound, hcount⟩

section
variable {r f : Receipt} {row : Row} {e : Entry μ}

theorem Held.id (hh : Held u b r f row e) : row.id = r.messageID :=
  (PgQueue.Channel.underClaim_eq.mp hh.under).1

theorem Held.place (hh : Held u b r f row e) (h : Accounts u b) :
    b.sides.fake.place r.messageID = some (.claimed e.retryCount) := place_claimed h.distinct hh.found

theorem Held.nacks (hh : Held u b r f row e) (h : Accounts u b) :
    b.nacked.count r.messageID = e.retryCount ∧ e.retryCount ≤ u.fake.maxRetries := by
  have hc := h.nacks r.messageID
  rw [fakePlace_claimed.mpr (hh.place h)] at hc
  exact hc

theorem Held.not_dead (hh : Held u b r f row e) (h : Accounts u b) :
    ∀ d ∈ b.sides.real.dlq, d.originalMessageID ≠ r.messageID := by
  intro d hd he
  have hnone := h.apart d hd
  rw [he, ← hh.id, Table.find?_of_mem hh.mem] at hnone
  cases hnone

theorem Accounts.complete (h : Accounts u b) (hh : Held u b r f row e) :
    Accounts u { b with sides := { b.sides with
      real := (PgQueue.Channel.ackUpdate env r b.sides.real).2
      fake := { b.sides.fake with claimed := b.sides.fake.without r.messageID } } } := by
  obtain ⟨hn, hle⟩ := hh.nacks h
  have hcount : Counts u.fake.maxRetries (b.nacked.count r.messageID) (some .done) := hn ▸ hle
  refine h.land (hh.place h) (replaced_ack h.distinct hh.found) rfl rfl
    (realPlace_complete hh.mem hh.under) (inFlight_complete hh.mem hh.under) (Nat.le_refl _)
    (fun d hd => find?_update_of_none (Row.id_complete _) (h.apart d hd)) ?_ hcount fun _ _ => rfl
  exact Table.forall_update h.caps fun x hx _ => h.caps x hx

theorem Accounts.retry {reason : Bytes} {delay : Duration} (h : Accounts u b) (hh : Held u b r f row e)
    (hle : e.retryCount + 1 ≤ u.fake.maxRetries) :
    Accounts u { b with
      sides := { b.sides with
        real := PgQueue.Channel.retryMessage env r.messageID reason delay b.sides.real
        fake := { b.sides.fake with
          claimed := b.sides.fake.without r.messageID
          pending := insertSortedByID b.sides.fake.pending
            { e with retryCount := e.retryCount + 1, claimID := UUID.nil, status := .pending } } }
      nacked := b.nacked ++ [r.messageID] } := by
  refine h.land (hh.place h) (replaced_retry h.distinct hh.found) rfl rfl (fun id => ?_) inFlight_retry
    (Nat.le_refl _) (fun d hd => find?_update_of_none (Row.id_retry _ _ _) (h.apart d hd)) ?_ ?_
    fun id hid => ?_
  · rw [realPlace_retry hh.mem hh.id, hh.count]
    rfl
  · exact Table.forall_update h.caps fun x hx _ => h.caps x hx
  · rw [count_append, count_singleton_self, (hh.nacks h).1]
    exact ⟨rfl, hle⟩
  · exact count_other hid

theorem Accounts.bury {reason : Bytes} (h : Accounts u b) (hh : Held u b r f row e)
    (hgt : e.retryCount + 1 > u.fake.maxRetries) :
    Accounts u { b with
      sides := { b.sides with
        real := PgQueue.Channel.moveToDLQ u.real env r.messageID reason row.payload
          (row.retryCount + 1) row.metadata b.sides.real
        fake := { b.sides.fake with
          claimed := b.sides.fake.without r.messageID
          dlq := b.sides.fake.dlq ++ [{ e with status := .completed }] } }
      nacked := b.nacked ++ [r.messageID] } := by
  obtain ⟨hn, hle⟩ := hh.nacks h
  refine h.land (hh.place h) (replaced_bury h.distinct hh.found) rfl rfl (fun id => ?_) inFlight_bury
    (Nat.le_succ _) (fun d hd => ?_) ?_ ?_ fun id hid => ?_
  · rw [realPlace_bury (hh.not_dead h), hh.count]
    rfl
  · show (b.sides.real.msgs.delete _).find? _ = none
    rw [Table.find?_delete]
    rcases mem_append.mp hd with hd | hd
    · rw [h.apart d hd]
      rfl
    · -- the row of the new dead letter is deleted
      cases hfind : b.sides.real.msgs.find? d.originalMessageID with
      | none => rfl
      | some x =>
        rw [mem_singleton.mp hd] at hfind
        rw [Option.bind_some, if_pos ((any_deadLetter x).mpr (Table.key_of_find? hfind))]
  · exact Table.forall_delete h.caps
  · rw [count_append, count_singleton_self, hn]
    exact ⟨by omega, by omega⟩
  · exact count_other hid

theorem Accounts.extend {d : Duration} (h : Accounts u b) (hh : Held u b r f row e) :
    Accounts u { b with sides := { b.sides with real := (PgQueue.Channel.updateUnderClaim
      (Row.extend env.now d) (Row.id_extend env.now d) r b.sides.real).2 } } := by
  have hid := hh.id
  obtain ⟨-, hclaim, hst⟩ := PgQueue.Channel.underClaim_eq.mp hh.under
  have hfind : b.sides.real.msgs.find? r.messageID = some row := hid ▸ Table.find?_of_mem hh.mem
  have hs : (PgQueue.Channel.updateUnderClaim (Row.extend env.now d) (Row.id_extend env.now d) r
      b.sides.real).2.msgs = b.sides.real.msgs.update
        (fun row => row.underClaim r.messageID r.claimID) (Row.extend env.now d)
        (Row.id_extend env.now d) := rfl
  have hflight : ∀ id, (inFlight (PgQueue.Channel.updateUnderClaim (Row.extend env.now d)
      (Row.id_extend env.now d) r b.sides.real).2 id).bind Row.claimID =
        (inFlight b.sides.real id).bind Row.claimID := by
    intro id
    rw [inFlight_update (underClaim_iff hh.mem hh.under) hs]
    split
    · rename_i he
      rw [he, inFlight_eq_some.mpr ⟨hh.mem, hid, hst⟩, hfind, Option.map_some,
        Option.filter_some_pos (by exact decide_eq_true hst)]
      rfl
    · rfl
  refine ⟨h.unpaused, h.distinct, h.known,
    fun x hx => find?_update_of_none (Row.id_extend _ _) (h.apart x hx), ?_, fun id => ?_, h.nacks,
    fun p hp => ?_, fun id c hc => h.owned id c ?_, h.answers⟩
  · exact Table.forall_update h.caps fun x hx _ => h.caps x hx
  · exact (realPlace_extend hh.mem hh.under id).trans (h.places id)
  · obtain ⟨r', f', rfl, hpair⟩ := h.receipts p hp
    exact ⟨r', f', rfl, hpair.carried (Or.inl ⟨hflight _, rfl⟩) (Nat.le_refl _) (Nat.le_refl _)⟩
  · rw [liveClaim_eq] at hc ⊢
    rw [← hflight]
    exact hc

end

/-- both sides answer with an error, or both do the call -/
def Answered {ε ε' : Type} (u : Setup μ) (b : Books μ) (nacked : List UUID) (real : Except ε State)
    (fake : Except ε' (Channel μ)) : Prop :=
  (∃ e e', real = .error e ∧ fake = .error e') ∨
    ∃ s' ch', real = .ok s' ∧ fake = .ok ch' ∧
      Accounts u { b with sides := { b.sides with real := s', fake := ch' }, nacked := nacked }

theorem Accounts.answered (h : Accounts u b) (x : Bool) :
    Accounts u { b with answers := b.answers ++ [(x, x)] } := by
  refine { h with answers := fun a ha => ?_ }
  rcases mem_append.mp ha with ha | ha
  · exact h.answers a ha
  · rw [mem_singleton.mp ha]

theorem Accounts.settle {ε ε' : Type} {isNack : Bool} {real : Receipt → Except ε State}
    {fake : Receipt → Except ε' (Channel μ)} (h : Accounts u b)
    (hb : b.settle n isNack real fake = some b')
    (hboth : ∀ r f, Paired u b.sides r f →
      Answered u b (if isNack then b.nacked ++ [r.messageID] else b.nacked) (real r) (fake f)) :
    Accounts u b' := by
  unfold Books.settle at hb
  split at hb
  · rename_i r f hn
    obtain ⟨r', f', heq, hpair⟩ := h.receipts _ (mem_of_getElem? hn)
    cases heq
    cases hb
    rcases hboth r f hpair with ⟨e, e', hreal, hfake⟩ | ⟨s', ch', hreal, hfake, hacc⟩
    · rw [hreal, hfake]
      have hnot : ¬(isNack = true ∧ (Except.error e : Except ε State).isOk = true) := fun hx =>
        Bool.false_ne_true hx.2
      rw [if_neg hnot]
      exact h.answered false
    · rw [hreal, hfake]
      have hiff : (isNack = true ∧ (Except.ok s' : Except ε State).isOk = true) = (isNack = true) :=
        propext (and_iff_left rfl)
      simp only [hiff]
      exact hacc.answered true
  · cases hb

theorem Accounts.ack (h : Accounts u b) (hpair : Paired u b.sides r f) :
    Answered u b b.nacked (PgQueue.Channel.ackChannel env r b.sides.real)
      (Fake.ack f b.sides.fake) := by
  by_cases hl : liveClaim b.sides.real r.messageID = some r.claimID
  · obtain ⟨row, e, hh⟩ := h.held hpair hl
    refine Or.inr ⟨_, _, PgQueue.Channel.ackChannel_hit hl, ?_, h.complete hh⟩
    unfold Fake.ack
    rw [hh.held, hpair.messageID]
  · have hfake : Fake.ack f b.sides.fake = .error .claimExpired := by
      unfold Fake.ack
      rw [hpair.miss hl]
    exact Or.inl ⟨_, _, PgQueue.Channel.ackChannel_miss hl, hfake⟩

theorem Accounts.nack {reason : Bytes} {delay : Duration} (h : Accounts u b)
    (hpair : Paired u b.sides r f) (hreason : 0 ∉ truncateErrorMsg reason) :
    Answered u b (b.nacked ++ [r.messageID])
      (PgQueue.Channel.Sent.nackChannelImpl u.real env r reason delay b.sides.real)
      (Fake.nack u.fake f b.sides.fake) := by
  by_cases hl : liveClaim b.sides.real r.messageID = some r.claimID
  · obtain ⟨row, e, hh⟩ := h.held hpair hl
    have hreal : PgQueue.Channel.Sent.nackChannelImpl u.real env r reason delay b.sides.real =
        .ok (PgQueue.Channel.handleNack u.real env r.messageID (truncateErrorMsg reason) row delay
          b.sides.real) := by
      unfold PgQueue.Channel.Sent.nackChannelImpl
      rw [PgQueue.Channel.getProcessingMessageState_hit hh.mem hh.under]
      dsimp only
      rw [PgQueue.Channel.Sent.handleNack_eq,
        execText_accepted (acceptsText_truncateErrorMsg.mpr (zeroFree_iff.mpr hreason))]
    unfold PgQueue.Channel.handleNack at hreal
    rw [hreal, h.caps row hh.mem]
    unfold Fake.nack
    rw [hh.held, ← hpair.messageID]
    dsimp only
    by_cases hx : e.retryCount + 1 > u.fake.maxRetries
    · rw [if_pos (hh.count ▸ hx), if_pos hx]
      exact Or.inr ⟨_, _, rfl, rfl, h.bury hh hx⟩
    · rw [if_neg (hh.count ▸ hx), if_neg hx]
      exact Or.inr ⟨_, _, rfl, rfl, h.retry hh (Nat.le_of_not_lt hx)⟩
  · have hfake : Fake.nack u.fake f b.sides.fake = .error .claimExpired := by
      unfold Fake.nack
      rw [hpair.miss hl]
    have hreal : PgQueue.Channel.Sent.nackChannelImpl u.real env r reason delay b.sides.real =
        .error (.queue (PgQueue.Channel.classifyChannelAckMiss r b.sides.real)) := by
      unfold PgQueue.Channel.Sent.nackChannelImpl
      rw [PgQueue.Channel.getProcessingMessageState_miss hl]
    exact Or.inl ⟨_, _, hreal, hfake⟩

theorem Accounts.extendVisibility {d : Duration} (h : Accounts u b) (hpair : Paired u b.sides r f) :
    Answered u b b.nacked (PgQueue.Channel.extendChannelVisibility env r d b.sides.real)
      (Fake.extendVisibility f d b.sides.fake) := by
  by_cases hd : d < millisecond ∨ d > 24 * hour
  · have hinvalid : validateVisibilityTimeout d = .error .invalidVisibilityTimeout := if_pos hd
    have hreal : PgQueue.Channel.extendChannelVisibility env r d b.sides.real =
        .error .invalidVisibilityTimeout := by
      unfold PgQueue.Channel.extendChannelVisibility
      rw [hinvalid]
    exact Or.inl ⟨_, _, hreal, if_pos hd⟩
  · have hvalid : validateVisibilityTimeout d = .ok () := if_neg hd
    unfold Fake.extendVisibility
    rw [if_neg hd]
    by_cases hl : liveClaim b.sides.real r.messageID = some r.claimID
    · obtain ⟨row, e, hh⟩ := h.held hpair hl
      rw [hh.held]
      exact Or.inr ⟨_, _, PgQueue.Channel.extendChannelVisibility_hit hvalid hl, rfl, h.extend hh⟩
    · rw [hpair.miss hl]
      exact Or.inl ⟨_, _, PgQueue.Channel.extendChannelVisibility_miss hvalid hl, rfl⟩

/-! ## publish and receive -/

theorem publish_of_not_passes (h : u.passes c = false) (env : Env) (s : State) :
    ∃ e, PgQueue.Channel.publish u.publisher u.real env c s = (.error e, s) := by
  unfold PgQueue.Channel.publish Publisher.publish
  unfold Setup.passes at h
  cases hclosed : u.publisher.checkClosed with
  | error e => exact ⟨e, rfl⟩
  | ok x =>
    rw [hclosed] at h
    cases hpayload : checkPayload u.publisher.resolveMaxMessageSize c.message with
    | error e => exact ⟨e, rfl⟩
    | ok y =>
      rw [hpayload] at h
      cases hm : u.publisher.prepareMessage u.publisher.resolveMaxMetadataSize c with
      | error e => exact ⟨e, rfl⟩
      | ok m =>
        rw [hm] at h
        cases h

theorem publish_error {ch : Channel μ} (h : (Fake.publish c ch).1.isOk = false) :
    (Fake.publish c ch).2 = ch := by
  revert h
  exact publish_cases (P := fun x => x.1.isOk = false → x.2 = ch) (fun _ _ => rfl) (fun _ _ _ => rfl)
    (fun _ _ _ _ => rfl) fun _ _ _ _ h => by cases h

theorem Accounts.unknown (h : Accounts u b) (hk : k ∉ b.published) :
    b.sides.fake.place k = none ∧ b.nacked.count k = 0 ∧ b.sides.real.msgs.find? k = none ∧
      ∀ d ∈ b.sides.real.dlq, d.originalMessageID ≠ k := by
  have hplace : b.sides.fake.place k = none := by
    by_contra hne
    exact hk (h.known k hne)
  have hfake : b.fakePlace k = none := by
    unfold Books.fakePlace
    rw [hplace, if_neg hk]
    rfl
  have hreal := h.places k
  have hcount := h.nacks k
  rw [hfake] at hreal hcount
  exact ⟨hplace, hcount, realPlace_eq_none hreal⟩

theorem Accounts.publish {m : PublishMessage} (h : Accounts u b)
    (hcap : u.fake.maxRetries = u.real.resolveMaxRetries) (hk : m.id ∉ b.published) (hid : e.id = m.id)
    (hcount : e.retryCount = 0) :
    Accounts u { b with
      sides := { b.sides with
        real := { b.sides.real with
          msgs := b.sides.real.msgs.insertNew (PgQueue.Channel.newRow env u.real.resolveMaxRetries m) }
        fake := { b.sides.fake with pending := b.sides.fake.pending ++ [e] } }
      published := b.published ++ [m.id] } := by
  obtain ⟨hplace, hzero, hnone, hdead⟩ := h.unknown hk
  have hkey : (PgQueue.Channel.newRow env u.real.resolveMaxRetries m).id = m.id := rfl
  have hflight : ∀ id, inFlight { b.sides.real with
      msgs := b.sides.real.msgs.insertNew (PgQueue.Channel.newRow env u.real.resolveMaxRetries m) } id =
        inFlight b.sides.real id := by
    intro id
    unfold inFlight
    rw [Table.find?_insertNew, hkey]
    by_cases heq : m.id = id
    · rw [if_pos heq, ← heq, hnone]
      rfl
    · rw [if_neg heq]
  refine h.move (replaced_publish hid hcount) hplace rfl (fun id => ?_) (fun id => ?_)
    (fun id => .same (hflight id) rfl) (Nat.le_refl _) (Nat.le_refl _) (fun d hd => ?_) (fun r hr => ?_)
    ⟨hzero, Nat.zero_le _⟩ (fun _ _ => rfl) (List.Subset.refl _) (fun p hp => Or.inl hp)
    fun id c hc => Or.inl ?_
  · rw [mem_append, mem_singleton]
  · exact realPlace_insert hnone
  · rw [Table.find?_insertNew, hkey, if_neg fun hx => hdead d hd hx.symm]
    exact h.apart d hd
  · have hr : r ∈ b.sides.real.msgs.rows ++ [PgQueue.Channel.newRow env u.real.resolveMaxRetries m] := by
      rw [← Table.rows_insertNew hnone]
      exact hr
    rcases mem_append.mp hr with hr | hr
    · exact h.caps r hr
    · rw [mem_singleton.mp hr]
      exact cap_newRow hcap
  · rw [liveClaim_eq] at hc ⊢
    rw [← hflight]
    exact hc

theorem Accounts.pending (h : Accounts u b) {row : Row} (hrow : row ∈ b.sides.real.msgs.rows)
    (hst : row.status = .pending) (he : e ∈ b.sides.fake.pending) (hid : e.id = row.id) :
    row.retryCount = e.retryCount ∧ b.nacked.count row.id = e.retryCount ∧
      e.retryCount ≤ u.fake.maxRetries := by
  have hfake : b.fakePlace row.id = some (.pending e.retryCount) := by
    unfold Books.fakePlace
    rw [← hid, place_pending h.distinct he]
    rfl
  have hreal := h.places row.id
  have hcount := h.nacks row.id
  rw [hfake] at hreal hcount
  rw [realPlace_of_find? (Table.find?_of_mem hrow)] at hreal
  unfold rowPlace at hreal
  rw [hst] at hreal
  exact ⟨Place.pending.inj (Option.some.inj hreal), hcount⟩

theorem Accounts.receive {row : Row} (h : Accounts u b) (hrow : row ∈ b.sides.real.msgs.rows)
    (hst : row.status = .pending) (he : e ∈ b.sides.fake.pending) (hid : e.id = row.id)
    (hr : r.messageID = row.id ∧ r.claimID = u.real.gen.draw b.sides.real.seq)
    (hf : f.messageID = e.id ∧ f.claimID = u.gen.draw b.sides.drawn) : Accounts u { b with sides :=
      { real := (PgQueue.Channel.claimChannelMessage u.real env vis row row.retryCount b.sides.real).2
        fake := { b.sides.fake with
          pending := b.sides.fake.pending.filter fun x => decide (x.id ≠ e.id)
          claimed := { e with claimID := u.gen.draw b.sides.drawn, status := .processing } ::
            b.sides.fake.without e.id }
        drawn := b.sides.drawn + 1
        receipts := b.sides.receipts ++ [(some r, some f)] } } := by
  obtain ⟨hcount, hnacks⟩ := h.pending hrow hst he hid
  have hplace := place_pending h.distinct he
  refine h.move (replaced_receive h.distinct he) hplace rfl (h.published hplace) (fun id => ?_)
    (fun id => ?_) (Nat.le_succ _) (Nat.le_succ _) (fun d hd => ?_) ?_ (hid ▸ hnacks) (fun _ _ => rfl)
    (subset_append_left _ _) (fun p hp => ?_) fun id c hc => ?_
  · rw [realPlace_claim hrow, hcount, ← hid]
    rfl
  · by_cases heq : id = row.id
    · refine Or.inr ⟨fun i hi => ?_, fun i hi => ?_⟩
      · rw [inFlight_claim hrow, if_pos heq]
        exact fun hx => draw_ne _ hi (Option.some.inj hx)
      · rw [lookup_claim, if_pos (heq.trans hid.symm)]
        exact fun hx => draw_ne _ hi (Option.some.inj hx)
    · refine .same ?_ ?_
      · rw [inFlight_claim hrow, if_neg heq]
      · rw [lookup_claim, if_neg fun hx => heq (hx.trans hid)]
  · exact find?_update_of_none (Row.id_claim _ _ _ _) (h.apart d hd)
  · exact Table.forall_update h.caps fun x hx _ => h.caps x hx
  · rcases mem_append.mp hp with hp | hp
    · exact Or.inl hp
    · refine Or.inr ⟨r, f, mem_singleton.mp hp, hr.1.trans (hid.symm.trans hf.1.symm), ?_,
        ⟨_, Nat.lt_succ_self _, hr.2.symm⟩, ⟨_, Nat.lt_succ_self _, hf.2.symm⟩⟩
      rw [inFlight_claim hrow, if_pos hr.1, lookup_claim, if_pos (hr.1.trans hid.symm), hr.2, hf.2]
      exact ⟨fun _ => rfl, fun _ => rfl⟩
  · rw [liveClaim_eq, inFlight_claim hrow] at hc
    by_cases heq : id = row.id
    · rw [if_pos heq] at hc
      exact Or.inr ⟨_, mem_append_right _ mem_cons_self, r, rfl, hr.1.trans heq.symm,
        hr.2.trans (Option.some.inj hc)⟩
    · rw [if_neg heq, ← liveClaim_eq] at hc
      exact Or.inl hc

/-! ## runs -/

/-- the ids are distinct; a message that a check of the real queue refuses is refused by the fake as well;
and the database takes the reason of a nack -/
def Setup.Fits (u : Setup μ) (b : Books μ) : Env × Deed μ → Prop
  | (_, .publish c) =>
    (u.passes c = false → (Fake.publish c b.sides.fake).1.isOk = false) ∧
      ∀ id ∈ (messageID c).toOption, id ∉ b.published
  | (_, .nack _ reason _) => 0 ∉ truncateErrorMsg reason
  | _ => True

instance decidableFits (u : Setup μ) (b : Books μ) : (e : Env × Deed μ) → Decidable (u.Fits b e)
  | (_, .publish c) =>
    inferInstanceAs (Decidable ((u.passes c = false → (Fake.publish c b.sides.fake).1.isOk = false) ∧
      ∀ id ∈ (messageID c).toOption, id ∉ b.published))
  | (_, .nack _ reason _) => inferInstanceAs (Decidable (0 ∉ truncateErrorMsg reason))
  | (_, .receive _ _) => isTrue trivial
  | (_, .ack _) => isTrue trivial
  | (_, .extend _ _) => isTrue trivial

theorem Accounts.start : Accounts u Books.start where
  unpaused := rfl
  distinct := nodup_nil
  known _ h := absurd rfl h
  apart _ h := absurd h not_mem_nil
  caps _ h := absurd h not_mem_nil
  places _ := rfl
  nacks _ := rfl
  receipts _ h := absurd h not_mem_nil
  owned _ _ h := by cases h
  answers _ h := absurd h not_mem_nil

theorem Accounts.deal_publish (h : Accounts u b) (hcap : u.fake.maxRetries = u.real.resolveMaxRetries)
    (hfit : u.Fits b (env, .publish c)) (hb : u.deal env b (.publish c) = some b') : Accounts u b' := by
  obtain ⟨hrefused, hnew⟩ := hfit
  cases hb
  cases hpass : u.passes c with
  | false =>
    obtain ⟨e, heq⟩ := publish_of_not_passes hpass env b.sides.real
    rw [heq, publish_error (hrefused hpass)]
    show Accounts u { b with published := b.published ++ [] }
    rw [append_nil]
    exact h
  | true =>
    obtain ⟨m, hid, heq⟩ := Setup.publish_of_passes hpass env b.sides.real
    have hk : m.id ∉ b.published := hnew m.id (by rw [hid]; rfl)
    obtain ⟨hplace, -, hnone, -⟩ := h.unknown hk
    obtain ⟨e, hfake, he⟩ := publish_taken hid (Setup.payload_of_passes hpass)
      (hasMessage_of_place h.distinct hplace)
    rw [heq, hfake]
    unfold PgQueue.Channel.publishToChannel
    rw [hnone]
    exact h.publish hcap hk (Prod.mk.inj he).1 (Prod.mk.inj he).2

theorem Accounts.deal_receive {k : UUID} (h : Accounts u b)
    (hb : u.deal env b (.receive k vis) = some b') : Accounts u b' := by
  rw [Setup.deal] at hb
  split at hb
  · rename_i row e hreal hfake
    cases hb
    obtain ⟨hfind, hst⟩ := Option.filter_eq_some_iff.mp hreal
    obtain ⟨hrow, hid⟩ := Table.find?_eq_some.mp hfind
    have he := mem_of_find?_eq_some hfake
    have hfound := find?_some hfake
    have heid : e.id = k := of_decide_eq_true hfound
    have hbring : (b.sides.fake.bring k).pending =
        e :: b.sides.fake.pending.filter fun x => decide (x.id ≠ e.id) := by
      unfold Channel.bring
      rw [← heid, filter_eq_singleton h.distinct.pending he]
      rfl
    have hpaused : (b.sides.fake.bring k).paused = false := h.unpaused
    obtain ⟨d, hd, -, hmsg, hclaim⟩ := receiveChannel_cons (q := u.fake) (c := u.gen.draw b.sides.drawn)
      hpaused hbring
    rw [hd]
    exact h.receive hrow (of_decide_eq_true hst) he (heid.trans hid.symm) ⟨rfl, rfl⟩ ⟨hmsg, hclaim⟩
  · cases hb

theorem Accounts.deal {a : Deed μ} (h : Accounts u b)
    (hcap : u.fake.maxRetries = u.real.resolveMaxRetries) (hfit : u.Fits b (env, a))
    (hb : u.deal env b a = some b') : Accounts u b' := by
  cases a with
  | publish c => exact h.deal_publish hcap hfit hb
  | receive id vis => exact h.deal_receive hb
  | ack n => exact h.settle hb fun r f hpair => h.ack hpair
  | nack n reason delay => exact h.settle hb fun r f hpair => h.nack hpair hfit
  | extend n d => exact h.settle hb fun r f hpair => h.extendVisibility hpair

theorem Accounts.of_runs (hcap : u.fake.maxRetries = u.real.resolveMaxRetries)
    (hrun : Runs u.dealt u.Fits .start b) : Accounts u b :=
  hrun.invariant (Accounts u) .start fun _ e _ h hfit hb => h.deal hcap (a := e.2) hfit hb

theorem Counts.dead_iff {cap nacks : Nat} (h : Counts cap nacks o) :
    (∃ n, o = some (.dead n)) ↔ nacks = cap + 1 := by
  unfold Counts at h
  split at h
  · exact ⟨fun ⟨n, hn⟩ => (by cases hn), fun hn => by omega⟩
  · exact ⟨fun ⟨n, hn⟩ => (by cases hn), fun hn => by omega⟩
  · exact ⟨fun ⟨n, hn⟩ => (by cases hn), fun hn => by omega⟩
  · exact ⟨fun _ => h.1, fun _ => ⟨_, rfl⟩⟩
  · exact ⟨fun ⟨n, hn⟩ => (by cases hn), fun hn => by omega⟩

theorem counted_dead_iff : (∃ n, o.map Place.counted = some (.dead n)) ↔ ∃ n, o = some (.dead n) := by
  constructor
  · rintro ⟨n, hn⟩
    obtain ⟨p, rfl, hp⟩ := Option.map_eq_some_iff.mp hn
    cases p with
    | dead m => exact ⟨m, rfl⟩
    | pending | claimed | done => cases hp
  · rintro ⟨n, rfl⟩
    exact ⟨n + 1, rfl⟩

end

/-- **The fake accounts for retries as the real channel does.**  One cap, distinct ids, no message that
only the real queue refuses and no reason that the database refuses.  After every such run each message
has the same place on both sides, with the same retry count, where a dead letter of the fake is short of
the last nack; the receipts of one receive carry the current claim on both sides or on neither, and every
current claim is that of a receive; every ack, nack and extension returned nil on both or an error on
both; and a message is in the dead letters of both exactly if it was nacked once more than the cap. -/
theorem retry_accounting (u : Setup μ) (hcap : u.fake.maxRetries = u.real.resolveMaxRetries) (b : Books μ)
    (hrun : Runs u.dealt u.Fits .start b) :
    (∀ id, realPlace b.sides.real id = (b.fakePlace id).map Place.counted) ∧
    (∀ p ∈ b.sides.receipts, ∃ r f, p = (some r, some f) ∧ r.messageID = f.messageID ∧
      (liveClaim b.sides.real r.messageID = some r.claimID ↔
        (b.sides.fake.lookup f.messageID).map Entry.claimID = some f.claimID)) ∧
    (∀ id c, liveClaim b.sides.real id = some c →
      ∃ p ∈ b.sides.receipts, ∃ r, p.1 = some r ∧ r.messageID = id ∧ r.claimID = c) ∧
    (∀ a ∈ b.answers, a.1 = a.2) ∧
    ∀ id, ((∃ n, realPlace b.sides.real id = some (.dead n)) ↔
        b.nacked.count id = u.fake.maxRetries + 1) ∧
      ((∃ n, b.fakePlace id = some (.dead n)) ↔ b.nacked.count id = u.fake.maxRetries + 1) := by
  have h := Accounts.of_runs hcap hrun
  refine ⟨h.places, fun p hp => ?_, h.owned, h.answers, fun id => ?_⟩
  · obtain ⟨r, f, rfl, hpair⟩ := h.receipts p hp
    refine ⟨r, f, rfl, hpair.messageID, ?_⟩
    rw [liveClaim_eq, ← hpair.messageID]
    exact hpair.live
  · have hdead := (h.nacks id).dead_iff
    rw [h.places id, counted_dead_iff]
    exact ⟨hdead, hdead⟩

/-- one message is acked under its second claim, another uses up its three retries; some receipts are
stale -/
def mixedRun : List (Env × Deed Unit) :=
  [(.bare 0, .publish (callWithID 7)), (.bare 1, .publish (callWithID 8)), (.bare 2, .receive 8 hour),
    (.bare 3, .nack 0 [1] 0), (.bare 4, .receive 7 hour), (.bare 5, .receive 8 hour),
    (.bare 6, .nack 0 [1] 0), (.bare 7, .extend 2 hour), (.bare 8, .ack 2), (.bare 9, .nack 1 [1] 0),
    (.bare 10, .receive 7 hour), (.bare 11, .nack 3 [1] 0), (.bare 12, .receive 7 hour),
    (.bare 13, .nack 4 [1] 0), (.bare 14, .receive 7 hour), (.bare 15, .nack 5 [1] 0)]

theorem retry_accounting_mixedRun :
    ∃ b, follow (guarded threeRetries.dealt threeRetries.Fits) .start mixedRun = some b ∧
      b.answers = [(true, true), (false, false), (true, true), (true, true), (true, true), (true, true),
        (true, true), (true, true)] ∧
      realPlace b.sides.real 7 = (b.fakePlace 7).map Place.counted ∧ b.fakePlace 7 = some (.dead 3) :=
  ⟨_, rfl, by decide,
    (retry_accounting threeRetries rfl _ (Runs.of_follow mixedRun rfl)).1 7, by decide⟩

end PgQueue.Fake
