import PgQueue.Guarantees.Leases
import PgQueue.Process.Runs
import Mathlib.Data.List.Perm.Subperm

/-!
# What a handler loop does to its queue

The workers of `ConsumeChannel` and `ConsumeTopic` fetch messages, call the handler and settle the
claim with what it returns, among other clients of the queue.

* `Pool.step`        the workers, whose number is not bounded, and everybody else;
* `handlers_settle`  **what the loop settles it acks if the handler returned nil and nacks if it failed,
                     and two handlers run on one message only after a lease has ended.**
-/

namespace PgQueue.Handlers
open Lease Process List

/-- an error as the loop reads it: its text, and the delay of a `retryAfterError` in its chain -/
structure HandlerError where
  text : Bytes
  retryAfter : Option Duration
deriving DecidableEq, Repr

inductive Outcome
  | returned (err : Option HandlerError)
  | panicked (value : HandlerError)
deriving DecidableEq, Repr

/-- the result of `callHandler` -/
def Outcome.herr : Outcome → Option HandlerError
  | .returned err => err
  | .panicked v => some { v with text := "handler panic: ".toUTF8.data.toList ++ v.text }

/-- what the loop uses of a queue of either kind -/
structure Kind (σ ο κ : Type) [DecidableEq κ] where
  step : Env → σ → ο → σ × History κ
  consume : Env → Duration → σ → Except QueueError (Option Message × σ)
  receive : Duration → ο
  ack : Receipt → ο
  nack : Receipt → Bytes → Duration → ο
  key : Receipt → κ
  Reach : σ → History κ → Time → Prop
  next {s h t op} {env : Env} : Reach s h t → t ≤ env.now →
    Reach (step env s op).1 (h ++ (step env s op).2) env.now
  run {s h t} : Reach s h t → ∃ (mint : Nat → UUID) (cap : Nat) (S : System κ UUID Time),
    Function.Injective mint ∧ Run mint cap S h t
  step_receive {env vis s} : step env s (receive vis) =
    commit s (consume env vis s) (deliveredEvents key (env.now + vis))
  bound {env vis s m s'} : consume env vis s = .ok (some m, s') → m.receipt.claimID = m.claimID
  acks {env s r} : (step env s (ack r)).2 ⊆ [(key r, .acked r.claimID)]
  nacks {env s r reason delay} : (step env s (nack r reason delay)).2 ⊆ [(key r, .nacked r.claimID)]

structure Pool (σ κ : Type) where
  db : σ
  hist : History κ
  now : Time
  /-- what everybody else did since the loop began -/
  others : History κ
  /-- the messages that were handed to the handler, and how it ended -/
  handed : List Message
  ended : List (Message × Outcome)
  /-- the handler is running, or has ended and its result is not recorded yet -/
  running : List Message
  owed : List (Message × Outcome)

def Pool.start {σ κ : Type} (s : σ) (h : History κ) (t : Time) : Pool σ κ := ⟨s, h, t, [], [], [], [], []⟩

inductive Act (ο : Type)
  | other (env : Env) (op : ο)
  | fetch (env : Env) (vis : Duration)
  | ends (m : Message) (o : Outcome)
  | settle (env : Env) (x : Message × Outcome)
  /-- the ack or nack does not get to the database -/
  | unsettled (x : Message × Outcome)
  | dies

variable {σ ο κ : Type} [DecidableEq κ] (K : Kind σ ο κ)

/-- the ack or nack of `dispatchToHandler`, with `nackOptionsForHandlerError` -/
def Kind.settle (x : Message × Outcome) : ο :=
  match x.2.herr with
  | none => K.ack x.1.receipt
  | some e => K.nack x.1.receipt e.text (e.retryAfter.getD 0)

def Pool.commit (p : Pool σ κ) (env : Env) (op : ο) : Pool σ κ :=
  { p with
    db := (K.step env p.db op).1, hist := p.hist ++ (K.step env p.db op).2, now := env.now }

def Pool.other (p : Pool σ κ) (env : Env) (op : ο) : Pool σ κ :=
  { p.commit K env op with others := p.others ++ (K.step env p.db op).2 }

def Pool.step (p : Pool σ κ) : Act ο → Option (Pool σ κ)
  | .other env op => some (p.other K env op)
  | .fetch env vis =>
    match K.consume env vis p.db with
    | .ok (some m, _) => some { p.commit K env (K.receive vis) with
        handed := p.handed ++ [m]
        running := m :: p.running }
    | _ => none
  | .ends m o =>
    if m ∈ p.running then some { p with
      running := p.running.erase m
      owed := (m, o) :: p.owed
      ended := (m, o) :: p.ended }
    else none
  | .settle env x =>
    if x ∈ p.owed then some { p.commit K env (K.settle x) with owed := p.owed.erase x } else none
  | .unsettled x => if x ∈ p.owed then some { p with owed := p.owed.erase x } else none
  | .dies => some { p with running := [], owed := [] }

/-- the clock does not go back -/
def Act.allowed (p : Pool σ κ) : Act ο → Prop
  | .other env _ | .fetch env _ | .settle env _ => p.now ≤ env.now
  | _ => True

/-- the settlement that an outcome calls for -/
def Outcome.event (o : Outcome) (c : UUID) : Event UUID Time :=
  if o.herr.isNone then .acked c else .nacked c

structure Sound (p : Pool σ κ) : Prop where
  reach : K.Reach p.db p.hist p.now
  handed : (p.handed.map Message.claimID).Sublist (minted p.hist)
  bound : ∀ m ∈ p.handed, m.receipt.claimID = m.claimID
  once : (p.running ++ p.ended.map Prod.fst).Subperm p.handed
  owed : ∀ x ∈ p.owed, x ∈ p.ended
  settled : ∀ m ∈ p.handed, ∀ e ∈ p.hist, e.2.consumes m.claimID = true →
    e ∈ p.others ∨ ∃ o, (m, o) ∈ p.ended ∧ e.2 = o.event m.claimID

/-- two handlers work on one message only if a lease has ended -/
def Alone (p : Pool σ κ) : Prop :=
  ∀ m ∈ p.handed, ∀ m' ∈ p.handed, K.key m.receipt = K.key m'.receipt → ∀ T T',
    deadlineOf m.claimID (about (K.key m.receipt) p.hist) = some T → p.now < T →
    deadlineOf m'.claimID (about (K.key m'.receipt) p.hist) = some T' → p.now < T' → m = m'

/-- a loop on a queue that is in use -/
def Kind.Started (p : Pool σ κ) : Prop :=
  ∃ s h t, K.Reach s h t ∧ Runs (Pool.step K) (fun p a => a.allowed p) (.start s h t) p

section
variable {K} {p p' : Pool σ κ} {a : Act ο} {s : σ} {h : History κ} {t : Time}

theorem minted_nodup (hr : K.Reach s h t) : (minted h).Nodup := by
  obtain ⟨mint, cap, S, hm, hrun⟩ := K.run hr
  exact hrun.minted_nodup hm

theorem minted_of_consumes {e : κ × Event UUID Time} {c : UUID} (hr : K.Reach s h t) (he : e ∈ h)
    (hc : e.2.consumes c = true) : c ∈ minted h := by
  obtain ⟨mint, cap, S, hm, hrun⟩ := K.run hr
  obtain ⟨T, hT⟩ := (hrun.sound hm e.1).fenced.spent c
    (countP_pos_iff.mpr ⟨e.2, mem_about.mpr he, hc⟩)
  exact mem_minted.mpr ⟨e.1, T, mem_about.mp hT⟩

theorem Sound.claims (hp : Sound K p) : (p.handed.map Message.claimID).Nodup :=
  hp.handed.nodup (minted_nodup hp.reach)

theorem Sound.other (hp : Sound K p) {env : Env} (op : ο) (ht : p.now ≤ env.now) :
    Sound K (p.other K env op) where
  reach := K.next hp.reach ht
  handed := by
    show List.Sublist _ (minted (p.hist ++ _))
    rw [minted_append]
    exact hp.handed.trans (sublist_append_left _ _)
  bound := hp.bound
  once := hp.once
  owed := hp.owed
  settled m hm e he hc := (mem_append.mp he).elim
    (fun he => (hp.settled m hm e he hc).imp_left fun ho => mem_append_left _ ho)
    fun he => Or.inl (mem_append_right _ he)

/-- a transaction of the loop settles what was handed out in the way its outcome calls for -/
theorem Sound.commit (hp : Sound K p) {env : Env} (op : ο) (ht : p.now ≤ env.now)
    (hs : ∀ m ∈ p.handed, ∀ e ∈ (K.step env p.db op).2, e.2.consumes m.claimID = true →
      ∃ o, (m, o) ∈ p.ended ∧ e.2 = o.event m.claimID) : Sound K (p.commit K env op) :=
  have h := hp.other op ht
  ⟨h.reach, h.handed, h.bound, h.once, h.owed, fun m hm e he hc => (mem_append.mp he).elim
    (fun he => hp.settled m hm e he hc) fun he => Or.inr (hs m hm e he hc)⟩

theorem eq_of_consumes {o : Outcome} {c c' : UUID} (h : (o.event c).consumes c' = true) : c = c' := by
  unfold Outcome.event at h
  split at h
  all_goals exact of_decide_eq_true h

theorem mem_settle {env : Env} {x : Message × Outcome} {e : κ × Event UUID Time}
    (he : e ∈ (K.step env s (K.settle x)).2) : e.2 = x.2.event x.1.receipt.claimID := by
  unfold Kind.settle at he
  unfold Outcome.event
  split at he
  next hn => rw [mem_singleton.mp (K.acks he), hn]; rfl
  next hn => rw [mem_singleton.mp (K.nacks he), hn]; rfl

theorem Sound.fetch (hp : Sound K p) {env : Env} {vis : Duration} {m : Message} (ht : p.now ≤ env.now)
    (hm : (K.step env p.db (K.receive vis)).2 = [(K.key m.receipt, .delivered m.claimID (env.now + vis))])
    (hb : m.receipt.claimID = m.claimID) :
    Sound K { p.commit K env (K.receive vis) with
      handed := p.handed ++ [m]
      running := m :: p.running } := by
  have hnone : ∀ c, ∀ e ∈ (K.step env p.db (K.receive vis)).2, e.2.consumes c = false := by
    intro c e he
    rw [hm] at he
    rw [mem_singleton.mp he]
    rfl
  have hc := hp.commit (K.receive vis) ht fun m' _ e he h => absurd h (by simp [hnone _ e he])
  have hminted : minted (p.commit K env (K.receive vis)).hist = minted p.hist ++ [m.claimID] := by
    show minted (p.hist ++ _) = _
    rw [minted_append, hm]
    rfl
  refine ⟨hc.reach, ?_, fun m' h' => ?_, ?_, hc.owed, fun m' h' e he h => ?_⟩
  · rw [map_append, hminted]
    exact hp.handed.append (Sublist.refl _)
  · rcases mem_append.mp h' with h' | h'
    · exact hp.bound m' h'
    · rw [mem_singleton.mp h', hb]
  · exact ((subperm_cons m).mpr hp.once).trans (perm_append_singleton m p.handed).symm.subperm
  · rcases mem_append.mp h' with h' | h'
    · exact hc.settled m' h' e he h
    · rw [mem_singleton.mp h'] at h
      -- an earlier settlement under this claim would have been of an earlier delivery
      have hnd := minted_nodup hc.reach
      rw [hminted, nodup_append] at hnd
      rcases mem_append.mp he with he | he
      · exact absurd rfl (hnd.2.2 _ (minted_of_consumes hp.reach he h) _ mem_cons_self)
      · simp [hnone _ e he] at h

theorem Sound.step (hp : Sound K p) (ha : a.allowed p) (hs : p.step K a = some p') :
    Sound K p' := by
  cases a with
  | other env op =>
    cases hs
    exact hp.other op ha
  | fetch env vis =>
    rw [Pool.step] at hs
    split at hs
    next m s hm =>
      cases hs
      refine hp.fetch ha ?_ (K.bound hm)
      rw [K.step_receive, hm]
      rfl
    next => cases hs
  | ends m o =>
    obtain ⟨hm, hs⟩ := Option.ite_none_right_eq_some.mp hs
    cases hs
    refine ⟨hp.reach, hp.handed, hp.bound, ?_, fun x hx => ?_, fun m' h' e he h => ?_⟩
    · exact (perm_middle.trans ((perm_cons_erase hm).append_right _).symm).subperm.trans hp.once
    · exact mem_cons.mpr ((mem_cons.mp hx).imp_right (hp.owed x))
    · refine (hp.settled m' h' e he h).imp_right fun ⟨o', ho', heq⟩ => ?_
      exact ⟨o', mem_cons_of_mem _ ho', heq⟩
  | settle env x =>
    obtain ⟨hx, hs⟩ := Option.ite_none_right_eq_some.mp hs
    cases hs
    have hend := hp.owed x hx
    have hx₁ : x.1 ∈ p.handed :=
      hp.once.subset (mem_append_right _ (mem_map_of_mem hend))
    have hc := hp.commit (K.settle x) ha fun m hm e he h => by
      have hev := mem_settle he
      rw [hp.bound _ hx₁] at hev
      obtain rfl : m = x.1 := inj_on_of_nodup_map hp.claims hm hx₁ (eq_of_consumes (hev ▸ h)).symm
      exact ⟨x.2, hend, hev⟩
    exact ⟨hc.reach, hc.handed, hc.bound, hc.once, fun y hy => hp.owed y (mem_of_mem_erase hy),
      hc.settled⟩
  | unsettled x =>
    obtain ⟨-, hs⟩ := Option.ite_none_right_eq_some.mp hs
    cases hs
    exact ⟨hp.reach, hp.handed, hp.bound, hp.once, fun y hy => hp.owed y (mem_of_mem_erase hy),
      hp.settled⟩
  | dies =>
    cases hs
    exact ⟨hp.reach, hp.handed, hp.bound, (sublist_append_right _ _).subperm.trans hp.once,
      fun _ h => absurd h not_mem_nil, hp.settled⟩

theorem Sound.of_started (hp : K.Started p) : Sound K p := by
  obtain ⟨s, h, t, hr, hrun⟩ := hp
  refine hrun.invariant (Sound K) ?_ fun p a p' hp ha hs => hp.step ha hs
  have hnil {α : Type} {P : α → Prop} : ∀ x ∈ ([] : List α), P x :=
    fun _ h => absurd h not_mem_nil
  exact ⟨hr, nil_sublist _, hnil, nil_subperm, hnil, hnil⟩

theorem Alone.of_started (hp : K.Started p) : Alone K p := by
  have hs := Sound.of_started hp
  intro m hm m' hm' hk T T' hT hlive hT' hlive'
  obtain ⟨mint, cap, S, hinj, hrun⟩ := K.run hs.reach
  have hleased := (hrun.sound hinj (K.key m.receipt)).leased
  obtain ⟨l, hl, hh, -⟩ := hleased _ _ hT hlive
  obtain ⟨l', hl', hh', -⟩ := hleased _ _ (hk ▸ hT') hlive'
  cases hl.symm.trans hl'
  exact inj_on_of_nodup_map hs.claims hm hm' (hh.unique hh')

end

/-! ## channels and topics -/

section
variable {q : Queue} {env : Env} {vis : Duration} {m : Option Message} {x : Message}

theorem bound_channel {s s' : Channel.State} (h : Channel.Fetched q env vis s m s') (hx : m = some x) :
    x.receipt.claimID = x.claimID := by
  induction h with
  | nothing => cases hx
  | pending | reclaimed =>
    cases hx
    rfl
  | buried _ _ _ _ ih | deferred _ _ _ _ ih => exact ih hx

theorem bound_topic {s s' : Topic.State} {sub : String} (h : Topic.Fetched q env sub vis s m s')
    (hx : m = some x) : x.receipt.claimID = x.claimID := by
  induction h with
  | nothing => cases hx
  | pending | reclaimed =>
    cases hx
    rfl
  | buried _ _ _ _ _ ih | deferred _ _ _ _ _ ih => exact ih hx

omit [DecidableEq κ] in
theorem subset_commit' {s : σ} {r : Except QueueError σ} {es : History κ} : (commit' s r es).2 ⊆ es :=
  commit'_cases (fun r => r.2 ⊆ es) (nil_subset _) fun _ _ => List.Subset.refl _

end

def channel (q : Queue) : Kind Channel.State Channel.Op UUID where
  step := Channel.step q
  consume := Channel.consumeFromChannel q
  receive := .receive
  ack := .ack
  nack := .nack
  key := Receipt.messageID
  Reach := Channel.Reach q
  next hr ht := hr.next _ _ ht
  run hr := ⟨_, _, _, q.gen.injective, hr.run⟩
  step_receive := rfl
  bound h := bound_channel (Channel.fetched_of_consume h) rfl
  acks h := subset_commit' h
  nacks h := subset_commit' h

def topic (q : Queue) (subscriberID : String) : Kind Topic.State Topic.Op (UUID × String) where
  step := Topic.step q
  consume env := Topic.consumeFromTopic q env subscriberID
  receive := .receive subscriberID
  ack := .ack
  nack := .nack
  key := Topic.subKey
  Reach := Topic.Reach q
  next hr ht := hr.next _ _ ht
  run hr := ⟨_, _, _, q.gen.injective, hr.run⟩
  step_receive := rfl
  bound h := bound_topic (Topic.fetched_of_consume h) rfl
  acks h := subset_commit' h
  nacks h := subset_commit' h

theorem handlers_settle (q : Queue) (subscriberID : String) :
    (∀ p, (channel q).Started p → Sound (channel q) p ∧ Alone (channel q) p) ∧
    ∀ p, (topic q subscriberID).Started p →
      Sound (topic q subscriberID) p ∧ Alone (topic q subscriberID) p :=
  ⟨fun _ hp => ⟨.of_started hp, .of_started hp⟩, fun _ hp => ⟨.of_started hp, .of_started hp⟩⟩

theorem handlers_settle_panic : ∃ p, (channel (.counting 3)).Started p ∧ (7, Event.nacked 1) ∈ p.hist ∧
    Alone (channel (.counting 3)) p := by
  have hr := Channel.Reach.next (.init (q := .counting 3) 0) (.bare 0) (.publish ⟨7, [], none⟩) (by decide)
  let m : Message := ⟨7, 1, [], 0, .processing, 0, 3, none, none, none, some (5 + hour),
    ⟨7, 1, "orders", some .channel, ""⟩⟩
  have hp : (channel (.counting 3)).Started _ := ⟨_, _, _, hr,
    .tail (.tail (.tail .refl (e := .fetch (.bare 5) hour) (by decide : (0 : Time) ≤ 5) rfl)
      (e := .ends m (.panicked ⟨[], none⟩)) trivial rfl)
      (e := .settle (.bare 6) (m, .panicked ⟨[], none⟩)) (by decide : (5 : Time) ≤ 6) rfl⟩
  exact ⟨_, hp, by decide, ((handlers_settle (.counting 3) "").1 _ hp).2⟩

end PgQueue.Handlers
