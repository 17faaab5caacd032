import PgQueue.Mailbox.Model

/-!
# Queues that do what a mailbox does

A queue is used through its `Door`: the transactions a client or the collector can start.  Its
client keeps the claims it was handed, in the order of the deliveries, so that the number of a
delivery stands for a claim.

* `Session`            the claims handed out so far and the tables;
* `Door.serve`, `Door.run`   one call, and several;
* `Door.Refines`       every transaction does what the mailbox does, `mail` being what the mailbox
                       sees of the tables;
* `Refines.run`        then so does every run.
-/

namespace PgQueue
open List

/-- a delivered message without what differs from queue to queue -/
def Message.delivered (m : Message) : Mailbox.Delivered :=
  ⟨m.id, m.payload, m.createdAt, m.status, m.retryCount, m.maxRetries, m.metadata, m.processedAt,
    m.errorMessage, m.visibilityTimeout⟩

/-- a dead letter without its own id and its subscriber -/
def DLQRow.anonymous (d : DLQRow) : DLQRow := { d.withoutID with subscriberID := none }

theorem anonymous_dlqRows (gen : Generator) (seq : Nat) (now : Time) (sub : Option String)
    (reason : Bytes) (ms : List DLQMessage) :
    (dlqRows gen seq now sub reason ms).map DLQRow.anonymous =
      ms.map fun m => ⟨UUID.nil, m.id, none, m.payload, reason, m.retryCount, now, m.metadata⟩ := by
  induction ms generalizing seq with
  | nil => rfl
  | cons m ms ih => exact congrArg (_ :: ·) (ih (seq + 1))

theorem decide_pending (st : MessageStatus) :
    decide (st = .pending) = decide (phaseOf st = .pending) :=
  decide_eq_decide.mpr phaseOf_eq_pending.symm

theorem decide_processing (st : MessageStatus) :
    decide (st = .processing) = decide (phaseOf st = .processing) :=
  decide_eq_decide.mpr phaseOf_eq_processing.symm

namespace Mailbox

/-- the transactions of a queue; `receipt` binds a message id and a claim to it -/
structure Door (σ : Type) where
  publish : Env → PublishMessage → σ → Except QueueError σ
  publishBatch : Env → List PublishMessage → σ → Except QueueError σ
  receive : Env → Duration → σ → Except QueueError (Option Message × σ)
  ack : Env → Receipt → σ → Except QueueError σ
  nack : Env → Receipt → Bytes → Duration → σ → Except QueueError σ
  extend : Env → Receipt → Duration → σ → Except QueueError σ
  collect : Env → σ → σ
  receipt : UUID → UUID → Receipt
  dlq : σ → List DLQRow

structure Session (σ : Type) where
  claims : List UUID
  state : σ

def claimOf (claims : List UUID) (n : Nat) : UUID := claims.getD n UUID.nil

section
variable {σ : Type}

def handedOut (m : Option Message) : List UUID := (m.map Message.claimID).toList

def Session.tell (x : Session σ) : Except QueueError σ → Answer × Session σ
  | .ok s => (.done, ⟨x.claims, s⟩)
  | .error e => (.failed e, x)

def Session.deliver (x : Session σ) : Except QueueError (Option Message × σ) → Answer × Session σ
  | .ok (m, s) => (.received (m.map Message.delivered), ⟨x.claims ++ handedOut m, s⟩)
  | .error e => (.failed e, x)

namespace Door

def serve (door : Door σ) (env : Env) (x : Session σ) : Call → Answer × Session σ
  | .publish m => x.tell (door.publish env m x.state)
  | .publishBatch ms => x.tell (door.publishBatch env ms x.state)
  | .receive vis => x.deliver (door.receive env vis x.state)
  | .ack id n => x.tell (door.ack env (door.receipt id (claimOf x.claims n)) x.state)
  | .nack id n reason delay =>
    x.tell (door.nack env (door.receipt id (claimOf x.claims n)) reason delay x.state)
  | .extend id n d => x.tell (door.extend env (door.receipt id (claimOf x.claims n)) d x.state)
  | .collect => (.done, ⟨x.claims, door.collect env x.state⟩)

def run (door : Door σ) (x : Session σ) : List (Env × Call) → List Answer × Session σ
  | [] => ([], x)
  | (env, c) :: rest =>
    ((door.serve env x c).1 :: (run door (door.serve env x c).2 rest).1,
     (run door (door.serve env x c).2 rest).2)

/-- no publish of the run uses the id of a message that is a dead letter at the time -/
def Unburied (door : Door σ) (x : Session σ) : List (Env × Call) → Prop
  | [] => True
  | (env, c) :: rest =>
    (∀ d ∈ door.dlq x.state, d.originalMessageID ∉ c.published) ∧
      Unburied door (door.serve env x c).2 rest

instance decidableUnburied (door : Door σ) (x : Session σ) :
    (calls : List (Env × Call)) → Decidable (door.Unburied x calls)
  | [] => isTrue trivial
  | (env, c) :: rest =>
    have := decidableUnburied door (door.serve env x c).2 rest
    inferInstanceAs (Decidable ((∀ d ∈ door.dlq x.state, d.originalMessageID ∉ c.published) ∧
      Unburied door (door.serve env x c).2 rest))

end Door

/-! ## refinement -/

section
variable (mail : List UUID → σ → State) (Valid : List UUID → σ → Prop) (claims : List UUID)

/-- the outcomes of one call: the same error, or tables that show the mailbox -/
def Shows : Except QueueError σ → Except QueueError State → Prop
  | .ok s, .ok t => mail claims s = t ∧ Valid claims s
  | .error e, .error e' => e = e'
  | _, _ => False

def ShowsDelivery : Except QueueError (Option Message × σ) →
    Except QueueError (Option Delivered × State) → Prop
  | .ok (m, s), .ok (m', t) =>
    m.map Message.delivered = m' ∧ mail (claims ++ handedOut m) s = t ∧
      Valid (claims ++ handedOut m) s
  | .error e, .error e' => e = e'
  | _, _ => False

variable {mail Valid claims}

theorem showsDelivery_ok {o : Option Message × σ} {t : Option Delivered × State}
    (h : t = (o.1.map Message.delivered, mail (claims ++ handedOut o.1) o.2))
    (hv : Valid (claims ++ handedOut o.1) o.2) : ShowsDelivery mail Valid claims (.ok o) (.ok t) := by
  subst h
  exact ⟨rfl, rfl, hv⟩

theorem shows_duplicate {t : State} {now : Time} {ms : List PublishMessage}
    (h : ¬ t.Admits (ms.map PublishMessage.id)) :
    Shows mail Valid claims (.error .duplicateMessageID) (t.publish now ms) := by
  unfold State.publish
  rw [if_neg h]
  rfl

theorem publishBatch_nil (now : Time) (t : State) : t.publishBatch now [] = .ok t := by
  have hv : validateBatchSize ([] : List PublishMessage).length = .ok () := rfl
  have ha : t.Admits ([].map PublishMessage.id) := ⟨nodup_nil, fun _ _ => not_mem_nil⟩
  unfold State.publishBatch
  rw [hv]
  unfold State.publish
  rw [if_pos ha, map_nil, append_nil]

theorem showsDelivery_none {s : σ} (hv : Valid claims s) :
    ShowsDelivery mail Valid claims (.ok (none, s)) (.ok (none, mail claims s)) := by
  have hnone : claims ++ handedOut none = claims := append_nil claims
  refine showsDelivery_ok ?_ ?_
  · rw [hnone]
    rfl
  · rw [hnone]
    exact hv

end

/-- from a valid state every transaction does to the tables what the mailbox does to what `mail`
shows of them -/
structure Door.Refines (door : Door σ) (max : Nat) (mail : List UUID → σ → State)
    (Valid : List UUID → σ → Prop) : Prop where
  dead : ∀ {claims : List UUID} {s : σ},
    (mail claims s).dead = ((door.dlq s).map DLQRow.anonymous : List DLQRow)
  publish : ∀ {claims : List UUID} {s : σ} (env : Env) (m : PublishMessage), Valid claims s →
    (mail claims s).Free [m.id] →
    Shows mail Valid claims (door.publish env m s) ((mail claims s).publish env.now [m])
  publishBatch : ∀ {claims : List UUID} {s : σ} (env : Env) (ms : List PublishMessage),
    Valid claims s → (mail claims s).Free (ms.map PublishMessage.id) →
    Shows mail Valid claims (door.publishBatch env ms s) ((mail claims s).publishBatch env.now ms)
  receive : ∀ {claims : List UUID} {s : σ} (env : Env) (vis : Duration), Valid claims s →
    ShowsDelivery mail Valid claims (door.receive env vis s) ((mail claims s).receive max env vis)
  ack : ∀ {claims : List UUID} {s : σ} (env : Env) (id : UUID) (n : Nat), Valid claims s →
    Shows mail Valid claims (door.ack env (door.receipt id (claimOf claims n)) s)
      ((mail claims s).ack id n)
  nack : ∀ {claims : List UUID} {s : σ} (env : Env) (id : UUID) (n : Nat) (reason : Bytes)
    (delay : Duration), Valid claims s →
    Shows mail Valid claims (door.nack env (door.receipt id (claimOf claims n)) reason delay s)
      ((mail claims s).nack max env id n reason delay)
  extend : ∀ {claims : List UUID} {s : σ} (env : Env) (id : UUID) (n : Nat) (d : Duration),
    Valid claims s →
    Shows mail Valid claims (door.extend env (door.receipt id (claimOf claims n)) d s)
      ((mail claims s).extend env.now id n d)
  collect : ∀ {claims : List UUID} {s : σ} (env : Env), Valid claims s →
    mail claims (door.collect env s) = (mail claims s).collect max env.now ∧
      Valid claims (door.collect env s)

def Session.mail (mail : List UUID → σ → State) (x : Session σ) : State := mail x.claims x.state

def Session.Valid (Valid : List UUID → σ → Prop) (x : Session σ) : Prop := Valid x.claims x.state

section
variable {door : Door σ} {max : Nat} {mail : List UUID → σ → State} {Valid : List UUID → σ → Prop}
variable {x : Session σ}

theorem tell_of_shows {o : Except QueueError σ} {o' : Except QueueError State}
    (hx : x.Valid Valid) (h : Shows mail Valid x.claims o o') :
    (x.mail mail).tell o' = ((x.tell o).1, (x.tell o).2.mail mail) ∧ (x.tell o).2.Valid Valid := by
  match o, o', h with
  | .ok s, .ok t, h => exact ⟨congrArg (Answer.done, ·) h.1.symm, h.2⟩
  | .error e, .error e', h =>
    cases (show e = e' from h)
    exact ⟨rfl, hx⟩

/-- **one call** -/
theorem Door.Refines.serve (hd : door.Refines max mail Valid) (env : Env) (hx : x.Valid Valid) {c : Call}
    (hfree : (x.mail mail).Free c.published) :
    (x.mail mail).step max env c = ((door.serve env x c).1, (door.serve env x c).2.mail mail) ∧
      (door.serve env x c).2.Valid Valid := by
  cases c with
  | publish m => exact tell_of_shows hx (hd.publish env m hx hfree)
  | publishBatch ms => exact tell_of_shows hx (hd.publishBatch env ms hx hfree)
  | receive vis =>
    have h := hd.receive env vis hx
    unfold State.step Door.serve
    dsimp only
    unfold Session.mail at h ⊢
    generalize door.receive env vis x.state = own at h ⊢
    generalize (mail x.claims x.state).receive max env vis = abstract at h ⊢
    rcases own with e | ⟨m, s⟩ <;> rcases abstract with e' | ⟨m', t⟩
    · cases (show e = e' from h)
      exact ⟨rfl, hx⟩
    · exact h.elim
    · exact h.elim
    · obtain ⟨rfl, rfl, hv⟩ := h
      exact ⟨rfl, hv⟩
  | ack id n => exact tell_of_shows hx (hd.ack env id n hx)
  | nack id n reason delay => exact tell_of_shows hx (hd.nack env id n reason delay hx)
  | extend id n d => exact tell_of_shows hx (hd.extend env id n d hx)
  | collect =>
    obtain ⟨hm, hv⟩ := hd.collect env hx
    exact ⟨congrArg (Answer.done, ·) hm.symm, hv⟩

theorem Door.Refines.free_iff (hd : door.Refines max mail Valid) (ids : List UUID) :
    (x.mail mail).Free ids ↔ ∀ d ∈ door.dlq x.state, d.originalMessageID ∉ ids := by
  unfold State.Free Session.mail
  rw [hd.dead]
  simp only [Multiset.mem_coe, forall_mem_map]
  exact Iff.rfl

/-- **a run** -/
theorem Door.Refines.run (hd : door.Refines max mail Valid) (calls : List (Env × Call))
    (hx : x.Valid Valid) (hfree : (x.mail mail).Unburied max calls) :
    (x.mail mail).run max calls = ((door.run x calls).1, (door.run x calls).2.mail mail) := by
  induction calls generalizing x with
  | nil => rfl
  | cons a rest ih =>
    obtain ⟨env, c⟩ := a
    obtain ⟨hs, hv⟩ := hd.serve env hx hfree.1
    have hrest := hfree.2
    rw [hs] at hrest
    show (((x.mail mail).step max env c).1 :: (State.run max ((x.mail mail).step max env c).2 rest).1,
      (State.run max ((x.mail mail).step max env c).2 rest).2) = _
    rw [hs, ih hv hrest]
    rfl

theorem Door.Refines.unburied (hd : door.Refines max mail Valid) (calls : List (Env × Call))
    (hx : x.Valid Valid) (h : door.Unburied x calls) : (x.mail mail).Unburied max calls := by
  induction calls generalizing x with
  | nil => trivial
  | cons a rest ih =>
    obtain ⟨env, c⟩ := a
    have hfree := (hd.free_iff c.published).mpr h.1
    obtain ⟨hs, hv⟩ := hd.serve env hx hfree
    refine ⟨hfree, ?_⟩
    rw [hs]
    exact ih hv h.2

end

/-! ## two queues -/

/-- **two queues that start as the same mailbox answer every run in the same way, and keep the same
dead letters** -/
theorem Door.Refines.agree {τ : Type} {door : Door σ} {door' : Door τ} {max : Nat}
    {mail : List UUID → σ → State} {mail' : List UUID → τ → State} {Valid : List UUID → σ → Prop}
    {Valid' : List UUID → τ → Prop} (hd : door.Refines max mail Valid)
    (hd' : door'.Refines max mail' Valid') {x : Session σ} {y : Session τ}
    (hx : x.Valid Valid) (hy : y.Valid Valid') (hxy : x.mail mail = y.mail mail')
    {calls : List (Env × Call)} (hfree : door.Unburied x calls) :
    (door.run x calls).1 = (door'.run y calls).1 ∧
      ((door.dlq (door.run x calls).2.state).map DLQRow.anonymous).Perm
        ((door'.dlq (door'.run y calls).2.state).map DLQRow.anonymous) := by
  have hm := hd.unburied calls hx hfree
  have h := hd.run calls hx hm
  rw [hxy] at hm h
  obtain ⟨ha, hs⟩ := Prod.mk.inj (h.symm.trans (hd'.run calls hy hm))
  refine ⟨ha, Multiset.coe_eq_coe.mp ?_⟩
  rw [← hd.dead, ← hd'.dead]
  exact congrArg State.dead hs

end

/-! ## the number of a claim -/

section
variable {claims : List UUID} {o : Option UUID} {c : UUID} {n : Nat}

def number (claims : List UUID) (o : Option UUID) : Option Nat := o.map claims.idxOf

theorem claimOf_eq_nil_iff (hnil : UUID.nil ∉ claims) :
    claimOf claims n = UUID.nil ↔ claims.length ≤ n := by
  unfold claimOf
  rw [getD_eq_getElem?_getD]
  constructor
  · intro h
    by_contra hlt
    rw [getElem?_eq_getElem (Nat.not_le.mp hlt), Option.getD_some] at h
    exact hnil (h ▸ getElem_mem _)
  · intro hle
    rw [getElem?_eq_none hle]
    rfl

theorem idxOf_eq_iff (hn : claims.Nodup) (hnil : UUID.nil ∉ claims) (hc : c ∈ claims) :
    claims.idxOf c = n ↔ c = claimOf claims n := by
  have hlt : claims.idxOf c < claims.length := idxOf_lt_length_iff.mpr hc
  unfold claimOf
  rw [getD_eq_getElem?_getD]
  constructor
  · rintro rfl
    rw [getElem?_eq_getElem hlt, Option.getD_some, getElem_idxOf]
  · intro h
    have hle : n < claims.length := by
      by_contra hge
      rw [getElem?_eq_none (Nat.not_lt.mp hge), Option.getD_none] at h
      exact hnil (h ▸ hc)
    rw [getElem?_eq_getElem hle, Option.getD_some] at h
    rw [h, hn.idxOf_getElem]

theorem number_eq_some_iff (hn : claims.Nodup) (hnil : UUID.nil ∉ claims)
    (ho : ∀ c ∈ o, c ∈ claims) : number claims o = some n ↔ o = some (claimOf claims n) := by
  unfold number
  cases o with
  | none => simp
  | some c =>
    rw [Option.map_some, Option.some_inj, Option.some_inj]
    exact idxOf_eq_iff hn hnil (ho c rfl)

theorem number_append {new : List UUID} (ho : ∀ c ∈ o, c ∈ claims) :
    number (claims ++ new) o = number claims o := by
  cases o with
  | none => rfl
  | some c => exact congrArg some (idxOf_append_of_mem (ho c rfl))

theorem number_new (hc : c ∉ claims) : number (claims ++ [c]) (some c) = some claims.length := by
  refine congrArg some ?_
  show (claims ++ [c]).idxOf c = _
  rw [idxOf_append_of_notMem hc, idxOf_cons_self, Nat.add_zero]

end

section
variable {gen : Generator} {k : Nat} {claims : List UUID}

theorem nil_notMem_of_drawn (h : Drawn gen k claims) : UUID.nil ∉ claims := fun hm =>
  have ⟨i, _, he⟩ := h.drawn _ hm
  gen.ne_nil i he.symm

theorem draw_notMem_of_drawn (h : Drawn gen k claims) : gen.draw k ∉ claims := fun hm =>
  have ⟨_, hi, he⟩ := h.drawn _ hm
  absurd (gen.injective he) (Nat.ne_of_gt hi)

theorem drawn_concat (h : Drawn gen k claims) : Drawn gen (k + 1) (claims ++ [gen.draw k]) := by
  refine h.append (nodup_singleton _) (fun x hx => ?_) (Nat.le_succ k)
  exact ⟨k, Nat.le_refl k, Nat.lt_succ_self k, mem_singleton.mp hx⟩

/-- **the error of a receipt that matches nothing** -/
theorem classify_eq_refusal {ρ : Type} (hd : Drawn gen k claims) {t : State} {id : UUID} {n : Nat}
    {o : Option ρ} {item : ρ → Item} {status : ρ → MessageStatus} {claim : ρ → Option UUID}
    (ht : t.deliveries = claims.length)
    (ho : t.items.find? (fun x => decide (x.id = id)) = o.map item)
    (hitem : ∀ r ∈ o, (item r).phase = phaseOf (status r) ∧
      (item r).delivery = number claims (claim r) ∧ ∀ c ∈ claim r, c ∈ claims) :
    classifyClaimState (o.map fun r => (status r, claim r)) (claimOf claims n) = t.refusal id n := by
  unfold classifyClaimState State.refusal
  rw [ho]
  cases o with
  | none => rfl
  | some r =>
    obtain ⟨hp, hn, hc⟩ := hitem r rfl
    simp only [Option.map_some]
    rw [ht, hp, hn]
    simp only [claimOf_eq_nil_iff (nil_notMem_of_drawn hd),
      number_eq_some_iff hd.nodup (nil_notMem_of_drawn hd) hc, ne_eq, phaseOf_eq_processing]

end

end Mailbox
end PgQueue
