import PgQueue.Listener.Interrupts

/-!
# A connection that is lost

`receiveOne` calls `cancel()` before it asks the context of the wait for its error, so the error of a
lost connection looks like an interrupt and the branch that reconnects is not taken.

* `Deaf`               the connection is lost, with no `LISTEN` left to issue;
* `Deaf.step`          only a new `LISTEN`, or a wait that lasts to its deadline, can end that;
* `lost_connection_stays_lost`   **until then nothing is received, and the loop goes round and round.**
-/

namespace PgQueue.Pglisten
open Process

/-- the loop is not on its way to a new connection, and has no `LISTEN` to issue -/
def Pc.calm : Pc → Bool
  | .top | .receive | .stopped => true
  | .drain reqs _ => reqs.isEmpty
  | _ => false

/-- the wait has not lasted to its deadline -/
def Place.prompt : Place → Bool
  | .waiting ctx | .returned ctx _ | .disarmed ctx _ _ => ctx ≠ .expired
  | .probing => false
  | _ => true

theorem Place.prompt_cancelWait {p : Place} (h : p.prompt = true) : p.cancelWait.prompt = true := by
  cases p with
  | waiting ctx | returned ctx => cases ctx <;> first | rfl | exact h
  | _ => exact h

structure Deaf (s : State) (place : Place) : Prop where
  session : s.session = none
  pending : s.pending = []
  calm : s.pc.calm = true
  prompt : place.prompt = true

def Ev.mends : Ev → Bool
  | .listen _ | .receiveFails => true
  | _ => false

/-- a `Listen` returns at once, as it does for a channel that is confirmed, and no wait lasts to its
deadline -/
def Act.unheard (w : Running) : Act → Bool
  | .listen ch => enqueues w.listener (.listen ch) = []
  | .expire => false
  | _ => true

section
variable {w w' : Running} {a : Act} {e : Ev} {place p : Place} {s t : State}

theorem Deaf.at (h : Deaf s p) (hplace : place.prompt = true) : Deaf s place :=
  ⟨h.session, h.pending, h.calm, hplace⟩

theorem Deaf.moves (h : Deaf s p) (hs : step s e = some t) (he : e.mends = false) : Deaf t p := by
  obtain ⟨hsession, hpending, hcalm, hplace⟩ := h
  cases moves_of_step hs with
  | listen | receiveFails => cases he
  | unlisten ch =>
    obtain ⟨hpc, hq⟩ := unlisten_same ch s
    refine ⟨?_, hq.trans hpending, hpc ▸ hcalm, hplace⟩
    unfold Pglisten.unlisten
    simp only [apply_ite State.session, ite_self, hsession]
  | cancel | leave | close => exact ⟨hsession, hpending, hcalm, hplace⟩
  | lose => exact ⟨rfl, hpending, hcalm, hplace⟩
  | snapshot => exact ⟨hsession, rfl, congrArg List.isEmpty hpending, hplace⟩
  | unlistenFails | drained | received => exact ⟨hsession, hpending, rfl, hplace⟩
  | stop => exact ⟨rfl, hpending, rfl, hplace⟩
  | _ => simp_all [Pc.calm]

theorem Deaf.inner (h : Deaf w.listener w.place) (hs : w.inner e place = some w')
    (he : e.mends = false) (hplace : place.prompt = true) : Deaf w'.listener w'.place := by
  obtain ⟨s, hmove, rfl⟩ := inner_eq_some.mp hs
  exact (h.moves hmove he).at hplace

theorem Deaf.resume {ctx : Ctx} {n i : Bool} (h : Deaf w.listener w.place) (hctx : ctx ≠ .expired)
    (hs : w.resume ctx n i = some w') : Deaf w'.listener w'.place := by
  unfold Running.resume at hs
  split at hs
  · cases hs
    exact h.at rfl
  split at hs
  · exact h.inner hs rfl rfl
  -- a live context is canceled by now, and that is taken for an interrupt
  cases ctx with
  | expired => exact absurd rfl hctx
  | live | canceled => exact h.inner hs rfl rfl

theorem Deaf.step (h : Deaf w.listener w.place) (ha : a.unheard w = true) (hs : w.step a = some w') :
    Deaf w'.listener w'.place := by
  have hp := h.prompt
  cases a with
  | expire => cases ha
  | listen ch =>
    cases hs
    obtain ⟨hpc, -, ⟨-, hq⟩ | ⟨hqueued, -⟩⟩ := listen_cases ch w.listener
    · refine ⟨?_, hq.trans h.pending, hpc ▸ h.calm, hp⟩
      unfold Pglisten.listen
      simp only [apply_ite State.session, ite_self, h.session]
    · exact absurd (hqueued.symm.trans (of_decide_eq_true ha)) (List.cons_ne_nil _ _)
  | unlisten ch =>
    rw [Running.step] at hs
    split at hs
    all_goals
      cases hs
      exact h.moves (e := .unlisten ch) rfl rfl
  | cancel | leave => exact h.inner (Option.ite_none_left_eq_some.mp hs).2 rfl hp
  | interrupt | closeInterrupt =>
    obtain ⟨-, hs⟩ := Option.ite_none_right_eq_some.mp hs
    cases hs
    exact h.at (Place.prompt_cancelWait hp)
  | close =>
    obtain ⟨v, hv, rfl⟩ := Option.map_eq_some_iff.mp (Option.ite_none_right_eq_some.mp hs).2
    exact (h.inner hv rfl hp :)
  | lose => exact h.inner hs rfl hp
  | closeDone =>
    obtain ⟨-, hs⟩ := Option.ite_none_right_eq_some.mp hs
    cases hs
    exact h
  | pass | arm =>
    obtain ⟨-, hs⟩ := Option.ite_none_right_eq_some.mp hs
    cases hs
    exact h.at rfl
  | snapshot | connect | consume =>
    obtain ⟨v, hv, rfl⟩ := Option.map_eq_some_iff.mp (Option.ite_none_right_eq_some.mp hs).2
    exact (h.inner hv rfl rfl :)
  | work e =>
    obtain ⟨⟨-, he⟩, hs⟩ := Option.ite_none_right_eq_some.mp hs
    refine h.inner hs ?_ rfl
    cases e <;> first | rfl | cases he
  | delivered | stop => exact h.inner (Option.ite_none_right_eq_some.mp hs).2 rfl rfl
  | probed ok => simp [(Option.ite_none_right_eq_some.mp hs).1, Place.prompt] at hp
  | wake | disarm =>
    rw [Running.step] at hs
    split at hs
    next hplace =>
      cases hs
      rw [hplace] at hp
      exact h.at hp
    next => cases hs
  | resume =>
    rw [Running.step] at hs
    split at hs
    next hplace =>
      rw [hplace] at hp
      exact h.resume (of_decide_eq_true hp) (Option.ite_none_left_eq_some.mp hs).2
    next => cases hs

/-- at the head of the loop, with nothing to do -/
structure Running.Quiet (w : Running) : Prop where
  place : w.place = .outside
  pc : w.listener.pc = .top
  unpending : w.listener.unpending = []
  owners : w.owners = []
  done : w.done = false
  flag : w.interruptPending = false

/-- one round of the loop in which the wait fails at once -/
def idleRound : List Act := [.pass, .snapshot, .work .drained, .arm, .wake false, .disarm, .resume]

theorem follow_round (h : w.listener.pending = []) (hq : w.Quiet) :
    follow Running.step w idleRound = some w := by
  obtain ⟨⟨_, _, _, _, _, _, _, _⟩, _, _, _, _, _, _, _⟩ := w
  obtain ⟨rfl, rfl, rfl, rfl, rfl, rfl⟩ := hq
  obtain rfl := h
  rfl

theorem lost_connection_stays_lost (h : Deaf w.listener w.place)
    (hrun : Runs Running.step (fun v a => a.unheard v = true) w w') :
    w'.listener.session = none ∧ w'.listener.pc ≠ .reconnect ∧ w'.listener.pc ≠ .dial ∧
      w'.place ≠ .probing ∧ (w'.Quiet → follow Running.step w' idleRound = some w') := by
  obtain ⟨hsession, hpending, hcalm, hprompt⟩ :=
    hrun.invariant (fun v => Deaf v.listener v.place) h fun v a v' hv ha hs => hv.step ha hs
  refine ⟨hsession, fun hpc => ?_, fun hpc => ?_, fun hplace => ?_, follow_round hpending⟩
  · simp [hpc, Pc.calm] at hcalm
  · simp [hpc, Pc.calm] at hcalm
  · simp [hplace, Place.prompt] at hprompt

/-- the connection is lost after a `Listen`, and the next `Listen` for its channel returns nil -/
theorem lost_connection_stays_lost_subscribed : ∃ w w', follow Running.step .new
      [.listen "a", .interrupt (.listen 0), .pass, .snapshot, .work .listenOK, .work .markConfirmed,
        .work .signal, .work .drained, .consume, .lose] = some w ∧
    w.step (.listen "a") = some w' ∧ w'.listener.session = none ∧
    w'.listener.calls.map Call.result = [some (.ok ()), some (.ok ())] := by
  have h {w w' : Running} (hw : Deaf w.listener w.place) (hl : Act.unheard w (.listen "a") = true)
      (hs : w.step (.listen "a") = some w')
      (hc : w'.listener.calls.map Call.result = [some (.ok ()), some (.ok ())]) :
      w.step (.listen "a") = some w' ∧ w'.listener.session = none ∧
        w'.listener.calls.map Call.result = [some (.ok ()), some (.ok ())] :=
    ⟨hs, (lost_connection_stays_lost hw (.tail .refl hl hs)).1, hc⟩
  exact ⟨_, _, rfl, h ⟨rfl, rfl, rfl, rfl⟩ rfl rfl (by decide)⟩

end

end PgQueue.Pglisten
