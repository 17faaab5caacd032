import PgQueue.Listener.Waiters

/-!
# The interrupts of the listener

A caller that has queued work calls `requestInterrupt`, under a mutex of its own: it sets the sticky flag
`interruptPending` and cancels the wait that is armed, if one is.  `receiveOne` consumes the flag instead of
waiting, arms the wait under that mutex, and disarms it without a look at what the flag was set for.

* `Running`            the listener with its wait, and the callers that have yet to interrupt;
* `Running.step`       one section, or one step of the loop outside the mutexes;
* `Acts`               the same, one by one;
* `Running.refines`    **each step is one of the listener, or leaves the listener as it is.**
-/

namespace PgQueue.Pglisten
open Process

/-! ## the model -/

/-- the wait context: `live` until it is canceled or its deadline passes, whichever is first -/
inductive Ctx where
  | live
  | canceled
  | expired
deriving DecidableEq, Repr

/-- where the loop stands, next to the `pc` of the listener -/
inductive Place where
  /-- where the `pc` says; at `receive`, before the first section of `receiveOne` -/
  | outside
  /-- at the head of the loop, after `isDone` -/
  | passed
  /-- in `WaitForNotification` -/
  | waiting (ctx : Ctx)
  /-- the wait returned, with a notification or with an error; `waitCancel` is still set -/
  | returned (ctx : Ctx) (notified : Bool)
  /-- after the second section of `receiveOne` -/
  | disarmed (ctx : Ctx) (notified interrupted : Bool)
  | delivering
  | probing
deriving DecidableEq, Repr

/-- where the one `Close` that does something stands -/
inductive Closing where
  | idle
  /-- `closed` is set -/
  | marked
  /-- `done` is closed -/
  | announced
  /-- it has called `requestInterrupt` -/
  | finished
deriving DecidableEq, Repr

inductive Caller where
  | listen (call : Nat)
  | unlisten (call : Nat)
deriving DecidableEq, Repr

/-- `late` are the callers between their section and their `requestInterrupt`; `owners` are the `Unlisten`
calls whose requests are in `unpending`, one for each -/
structure Running where
  listener : State
  done : Bool
  interruptPending : Bool
  place : Place
  late : Finset Caller
  unlistens : Nat
  owners : List Nat
  closing : Closing
deriving DecidableEq

def Running.new : Running := ⟨Pglisten.new, false, false, .outside, ∅, 0, [], .idle⟩

inductive Act where
  | listen (channel : String)
  | unlisten (channel : String)
  /-- the context of a waiting `Listen` ends -/
  | cancel (call : Nat)
  /-- a waiting `Listen` sees that `done` is closed -/
  | leave (call : Nat)
  /-- a caller calls `requestInterrupt` -/
  | interrupt (caller : Caller)
  /-- the three parts of `Close` -/
  | close
  | closeDone
  | closeInterrupt
  /-- the connection is lost -/
  | lose
  /-- `isDone` is false at the head of the loop -/
  | pass
  | snapshot
  /-- the loop works on a drain, or closes its connection -/
  | work (e : Ev)
  | connect (order : List String)
  /-- the first section of `receiveOne`, with the flag set and without -/
  | consume
  | arm
  /-- the deadline of the wait passes -/
  | expire
  | wake (notified : Bool)
  /-- the second section of `receiveOne` -/
  | disarm
  /-- `cancel()`, and on with the outcome of the wait -/
  | resume
  | delivered
  | probed (ok : Bool)
  /-- `isDone`, or the closed `done`, ends the loop -/
  | stop
deriving DecidableEq, Repr

/-- a context that has ended keeps its error -/
def Ctx.cancel : Ctx → Ctx
  | .live => .canceled
  | ctx => ctx

/-- `waitCancel` is called if it is set -/
def Place.cancelWait : Place → Place
  | .waiting ctx => .waiting ctx.cancel
  | .returned ctx notified => .returned ctx.cancel notified
  | p => p

def Place.expire : Place → Option Place
  | .waiting .live => some (.waiting .expired)
  | .returned .live notified => some (.returned .expired notified)
  | .disarmed .live notified interrupted => some (.disarmed .expired notified interrupted)
  | _ => none

/-- an event of the listener, and where the loop stands after it -/
def Running.inner (w : Running) (e : Ev) (place : Place) : Option Running :=
  (step w.listener e).map fun s => { w with listener := s, place := place }

def requestInterrupt (w : Running) : Running :=
  { w with interruptPending := true, place := w.place.cancelWait }

/-- the events of a drain, and the `closeConn` of a reconnect -/
def Ev.works : Ev → Bool
  | .listenOK | .listenFails | .markConfirmed | .signal | .requeue | .unlistenOK | .unlistenFails
  | .drained | .closeConn => true
  | _ => false

/-- the branches of `receiveOne` after the wait.  `cancel()` comes before the context is asked for its
error, so a context that was live is now canceled and the last branch is never taken -/
def Running.resume (w : Running) (ctx : Ctx) (notified interrupted : Bool) : Option Running :=
  if notified then some { w with place := .delivering }
  else if interrupted then w.inner .received .outside
  else
    match ctx.cancel with
    | .canceled => w.inner .received .outside
    | .expired => some { w with place := .probing }
    | .live => w.inner .receiveFails .outside

/-- where the loop looks at `done` -/
def Running.looksAtDone (w : Running) : Bool :=
  match w.place with
  | .outside => w.listener.pc = .top ∨ w.listener.pc = .dial
  | .disarmed _ _ _ | .delivering => true
  | _ => false

def Running.step (w : Running) : Act → Option Running
  | .listen channel =>
    some { w with
      listener := Pglisten.listen channel w.listener
      late := w.late ∪ ((enqueues w.listener (.listen channel)).map Caller.listen).toFinset }
  | .unlisten channel =>
    if containsNUL channel ∨ w.listener.closed = true ∨ channel ∉ w.listener.channels then
      some { w with listener := Pglisten.unlisten channel w.listener }
    else
      some { w with
        listener := Pglisten.unlisten channel w.listener
        late := insert (.unlisten w.unlistens) w.late
        owners := w.owners ++ [w.unlistens]
        unlistens := w.unlistens + 1 }
  | .cancel i => if .listen i ∈ w.late then none else w.inner (.cancel i) w.place
  | .leave i => if .listen i ∈ w.late ∨ w.done = false then none else w.inner (.leave i) w.place
  | .interrupt c => if c ∈ w.late then some { requestInterrupt w with late := w.late.erase c } else none
  | .close =>
    if w.closing = .idle then (w.inner .close w.place).map fun w => { w with closing := .marked } else none
  | .closeDone => if w.closing = .marked then some { w with done := true, closing := .announced } else none
  | .closeInterrupt =>
    if w.closing = .announced then some { requestInterrupt w with closing := .finished } else none
  | .lose => w.inner .lose w.place
  | .pass =>
    if w.place = .outside ∧ w.listener.pc = .top ∧ w.done = false then some { w with place := .passed }
    else none
  | .snapshot =>
    if w.place = .passed then (w.inner .snapshot .outside).map fun w => { w with owners := [] } else none
  | .work e => if w.place = .outside ∧ e.works then w.inner e .outside else none
  | .connect order =>
    if w.place = .outside then (w.inner (.connect order) .outside).map fun w => { w with owners := [] }
    else none
  | .consume =>
    if w.place = .outside ∧ w.interruptPending then
      (w.inner .received .outside).map fun w => { w with interruptPending := false }
    else none
  | .arm =>
    if w.place = .outside ∧ w.listener.pc = .receive ∧ w.interruptPending = false then
      some { w with place := .waiting .live }
    else none
  | .expire => w.place.expire.map fun place => { w with place := place }
  | .wake notified =>
    match w.place with
    | .waiting ctx => some { w with place := .returned ctx notified }
    | _ => none
  | .disarm =>
    match w.place with
    | .returned ctx notified => some { w with place := .disarmed ctx notified w.interruptPending }
    | _ => none
  | .resume =>
    match w.place with
    | .disarmed ctx notified interrupted =>
      if w.done then none else w.resume ctx notified interrupted
    | _ => none
  | .delivered => if w.place = .delivering then w.inner .received .outside else none
  | .probed ok =>
    if w.place = .probing then w.inner (if ok then .received else .receiveFails) .outside else none
  | .stop => if w.done ∧ w.looksAtDone then w.inner .stop .outside else none

/-! ## the steps, one by one -/

/-- in `receiveOne`, when the wait is over or about to be -/
def Place.ended : Place → Bool
  | .outside | .passed | .waiting .live => false
  | _ => true

inductive Acts (w : Running) : Running → Prop
  | listen (ch : String) : Acts w { w with
      listener := Pglisten.listen ch w.listener
      late := w.late ∪ ((enqueues w.listener (.listen ch)).map Caller.listen).toFinset }
  /-- a caller or the network, with nothing for the loop to do -/
  | idle {e s} (hs : step w.listener e = some s) (hpc : s.pc = w.listener.pc)
      (hpending : s.pending = w.listener.pending) (hunpending : s.unpending = w.listener.unpending) :
      Acts w { w with listener := s }
  | unlisten (ch : String)
      (hqueued : (Pglisten.unlisten ch w.listener).unpending = w.listener.unpending ++ [ch]) :
      Acts w { w with
        listener := Pglisten.unlisten ch w.listener
        late := insert (.unlisten w.unlistens) w.late
        owners := w.owners ++ [w.unlistens]
        unlistens := w.unlistens + 1 }
  | interrupt (c : Caller) : Acts w { requestInterrupt w with late := w.late.erase c }
  | close (s : State) (hs : s = { w.listener with closed := true }) :
      Acts w { w with listener := s, closing := .marked }
  | closeDone : Acts w { w with done := true, closing := .announced }
  | closeInterrupt (hclosing : w.closing = .announced) :
      Acts w { requestInterrupt w with closing := .finished }
  | pass (hdone : w.done = false) : Acts w { w with place := .passed }
  | snapshot {s} (hplace : w.place = .passed) (hs : step w.listener .snapshot = some s) :
      Acts w { w with listener := s, place := .outside, owners := [] }
  | work {e s} (hplace : w.place = .outside) (he : e.works = true) (hs : step w.listener e = some s) :
      Acts w { w with listener := s, place := .outside }
  | connect {order s} (hs : step w.listener (.connect order) = some s) :
      Acts w { w with listener := s, place := .outside, owners := [] }
  | arm (hplace : w.place = .outside) (hpc : w.listener.pc = .receive)
      (hflag : w.interruptPending = false) : Acts w { w with place := .waiting .live }
  | ends {place} (hplace : place.ended = true) : Acts w { w with place := place }
  /-- back to the head of the loop, on to a new connection, or to the end -/
  | leaves {e s} (flag : Bool) (he : e = .received ∨ e = .receiveFails ∨ e = .stop)
      (hs : step w.listener e = some s) :
      Acts w { w with listener := s, place := .outside, interruptPending := flag }

section
variable {w w' : Running} {a : Act} {e : Ev} {place : Place}

theorem inner_eq_some : w.inner e place = some w' ↔
    ∃ s, step w.listener e = some s ∧ w' = { w with listener := s, place := place } := by
  unfold Running.inner
  rw [Option.map_eq_some_iff]
  exact exists_congr fun s => and_congr_right fun _ => eq_comm

theorem Acts.inner_leaves (h : w.inner e .outside = some w')
    (he : e = .received ∨ e = .receiveFails ∨ e = .stop) : Acts w w' := by
  obtain ⟨s, hs, rfl⟩ := inner_eq_some.mp h
  exact .leaves w.interruptPending he hs

theorem Acts.resume {ctx : Ctx} {n i : Bool} (h : w.resume ctx n i = some w') : Acts w w' := by
  unfold Running.resume at h
  split at h
  · cases h
    exact .ends rfl
  split at h
  · exact .inner_leaves h (Or.inl rfl)
  split at h
  · exact .inner_leaves h (Or.inl rfl)
  · cases h
    exact .ends rfl
  · exact .inner_leaves h (Or.inr (Or.inl rfl))

theorem ended_of_expire {p p' : Place} (h : p.expire = some p') : p'.ended = true := by
  unfold Place.expire at h
  split at h
  all_goals cases h
  all_goals rfl

theorem unlisten_same (ch : String) (s : State) :
    (Pglisten.unlisten ch s).pc = s.pc ∧ (Pglisten.unlisten ch s).pending = s.pending := by
  unfold Pglisten.unlisten
  simp only [apply_ite State.pc, apply_ite State.pending, ite_self, and_self]

theorem unlisten_unpending (ch : String) (s : State) :
    (Pglisten.unlisten ch s).unpending =
      if containsNUL ch = true ∨ s.closed = true ∨ ch ∉ s.channels then s.unpending
      else s.unpending ++ [ch] := by
  unfold Pglisten.unlisten
  by_cases hnul : containsNUL ch = true
  · simp [hnul]
  by_cases hclosed : s.closed = true
  · simp [hclosed]
  · rw [if_neg hnul, if_neg hclosed]
    by_cases hch : ch ∉ s.channels
    · rw [if_pos hch, if_pos (Or.inr (Or.inr hch))]
    · rw [if_neg hch, if_neg fun h => h.elim hnul fun h => h.elim hclosed hch]

theorem Acts.of_unlisten {ch : String} (h : w.step (.unlisten ch) = some w') : Acts w w' := by
  rw [Running.step] at h
  split at h
  · rename_i hnothing
    cases h
    exact .idle (e := .unlisten ch) rfl (unlisten_same ch _).1 (unlisten_same ch _).2
      ((unlisten_unpending ch _).trans (if_pos hnothing))
  · rename_i hqueues
    cases h
    exact .unlisten ch ((unlisten_unpending ch _).trans (if_neg hqueues))

theorem Acts.of_step (h : w.step a = some w') : Acts w w' := by
  cases a with
  | listen ch =>
    cases h
    exact .listen ch
  | unlisten ch => exact .of_unlisten h
  | cancel | leave =>
    obtain ⟨-, h⟩ := Option.ite_none_left_eq_some.mp h
    obtain ⟨s, hs, rfl⟩ := inner_eq_some.mp h
    cases moves_of_step hs
    exact .idle hs rfl rfl rfl
  | interrupt c =>
    obtain ⟨-, h⟩ := Option.ite_none_right_eq_some.mp h
    cases h
    exact .interrupt c
  | close =>
    obtain ⟨-, h⟩ := Option.ite_none_right_eq_some.mp h
    obtain ⟨v, hv, rfl⟩ := Option.map_eq_some_iff.mp h
    obtain ⟨s, hs, rfl⟩ := inner_eq_some.mp hv
    cases moves_of_step hs
    exact .close _ rfl
  | closeDone =>
    obtain ⟨-, h⟩ := Option.ite_none_right_eq_some.mp h
    cases h
    exact .closeDone
  | closeInterrupt =>
    obtain ⟨hclosing, h⟩ := Option.ite_none_right_eq_some.mp h
    cases h
    exact .closeInterrupt hclosing
  | lose =>
    obtain ⟨s, hs, rfl⟩ := inner_eq_some.mp h
    cases moves_of_step hs
    exact .idle hs rfl rfl rfl
  | pass =>
    obtain ⟨hpass, h⟩ := Option.ite_none_right_eq_some.mp h
    cases h
    exact .pass hpass.2.2
  | snapshot =>
    obtain ⟨hplace, h⟩ := Option.ite_none_right_eq_some.mp h
    obtain ⟨v, hv, rfl⟩ := Option.map_eq_some_iff.mp h
    obtain ⟨s, hs, rfl⟩ := inner_eq_some.mp hv
    exact .snapshot hplace hs
  | work e =>
    obtain ⟨hwork, h⟩ := Option.ite_none_right_eq_some.mp h
    obtain ⟨s, hs, rfl⟩ := inner_eq_some.mp h
    exact .work hwork.1 hwork.2 hs
  | connect order =>
    obtain ⟨-, h⟩ := Option.ite_none_right_eq_some.mp h
    obtain ⟨v, hv, rfl⟩ := Option.map_eq_some_iff.mp h
    obtain ⟨s, hs, rfl⟩ := inner_eq_some.mp hv
    exact .connect hs
  | consume =>
    obtain ⟨-, h⟩ := Option.ite_none_right_eq_some.mp h
    obtain ⟨v, hv, rfl⟩ := Option.map_eq_some_iff.mp h
    obtain ⟨s, hs, rfl⟩ := inner_eq_some.mp hv
    exact .leaves false (Or.inl rfl) hs
  | arm =>
    obtain ⟨harm, h⟩ := Option.ite_none_right_eq_some.mp h
    cases h
    exact .arm harm.1 harm.2.1 harm.2.2
  | expire =>
    obtain ⟨p, hp, rfl⟩ := Option.map_eq_some_iff.mp h
    exact .ends (ended_of_expire hp)
  | wake | disarm =>
    rw [Running.step] at h
    split at h
    · cases h
      exact .ends rfl
    · cases h
  | resume =>
    rw [Running.step] at h
    split at h
    · exact .resume (Option.ite_none_left_eq_some.mp h).2
    · cases h
  | delivered => exact .inner_leaves (Option.ite_none_right_eq_some.mp h).2 (Or.inl rfl)
  | probed ok =>
    refine .inner_leaves (Option.ite_none_right_eq_some.mp h).2 ?_
    cases ok with
    | true => exact Or.inl rfl
    | false => exact Or.inr (Or.inl rfl)
  | stop => exact .inner_leaves (Option.ite_none_right_eq_some.mp h).2 (Or.inr (Or.inr rfl))

end

/-! ## the listener inside -/

section
variable {w w' : Running} {a : Act}

/-- every `UNLISTEN` that is queued has its owner, and `Close` closes `done` before it interrupts -/
structure Sound (w : Running) : Prop where
  owners : w.owners.length = w.listener.unpending.length
  announced : w.closing = .announced ∨ w.closing = .finished → w.done = true

theorem unpending_of_works {e : Ev} {s t : State} (he : e.works = true) (hs : step s e = some t) :
    t.unpending = s.unpending := by
  cases moves_of_step hs with
  | snapshot | unlisten | listen | connect => cases he
  | _ => rfl

theorem unpending_of_leaves {e : Ev} {s t : State} (he : e = .received ∨ e = .receiveFails ∨ e = .stop)
    (hs : step s e = some t) : t.unpending = s.unpending := by
  rcases he with rfl | rfl | rfl
  all_goals
    cases moves_of_step hs
    rfl

theorem unpending_listen (ch : String) (s : State) :
    (Pglisten.listen ch s).unpending = s.unpending := by
  unfold Pglisten.listen
  simp only [apply_ite State.unpending, ite_self]

theorem Acts.sound (h : Acts w w') (hw : Sound w) : Sound w' := by
  cases h with
  | listen ch => exact ⟨hw.owners.trans (congrArg List.length (unpending_listen ch _).symm), hw.announced⟩
  | idle hs hpc hpending hunpending =>
    exact ⟨hw.owners.trans (congrArg List.length hunpending.symm), hw.announced⟩
  | unlisten ch hqueued =>
    refine ⟨?_, hw.announced⟩
    rw [hqueued, List.length_append, List.length_append, hw.owners]
    rfl
  | interrupt | pass | arm | ends => exact ⟨hw.owners, hw.announced⟩
  | close s hs =>
    subst hs
    exact ⟨hw.owners, fun h => (by simp at h)⟩
  | closeDone => exact ⟨hw.owners, fun _ => rfl⟩
  | closeInterrupt hclosing => exact ⟨hw.owners, fun _ => hw.announced (Or.inl hclosing)⟩
  | snapshot hplace hs =>
    cases moves_of_step hs
    exact ⟨rfl, hw.announced⟩
  | work hplace he hs =>
    exact ⟨hw.owners.trans (congrArg List.length (unpending_of_works he hs).symm), hw.announced⟩
  | connect hs =>
    cases moves_of_step hs
    exact ⟨rfl, hw.announced⟩
  | leaves flag he hs =>
    exact ⟨hw.owners.trans (congrArg List.length (unpending_of_leaves he hs).symm), hw.announced⟩

theorem Running.refines (h : w.step a = some w') :
    w'.listener = w.listener ∨ ∃ e, Pglisten.step w.listener e = some w'.listener := by
  cases Acts.of_step h with
  | listen ch => exact Or.inr ⟨.listen ch, rfl⟩
  | idle hs hpc hpending hunpending => exact Or.inr ⟨_, hs⟩
  | unlisten ch hqueued => exact Or.inr ⟨.unlisten ch, rfl⟩
  | close s hs =>
    subst hs
    exact Or.inr ⟨.close, rfl⟩
  | snapshot hplace hs => exact Or.inr ⟨_, hs⟩
  | work hplace he hs => exact Or.inr ⟨_, hs⟩
  | connect hs => exact Or.inr ⟨_, hs⟩
  | leaves flag he hs => exact Or.inr ⟨_, hs⟩
  | _ => exact Or.inl rfl

end

theorem Running.runs {w : Running} (hrun : Runs Running.step (fun _ _ => True) .new w) :
    Runs Pglisten.step (fun _ _ => True) Pglisten.new w.listener := by
  refine hrun.invariant (fun v => Runs Pglisten.step (fun _ _ => True) Pglisten.new v.listener) .refl
    fun v a v' hv _ h => ?_
  rcases Running.refines h with heq | ⟨e, he⟩
  · rw [heq]
    exact hv
  · exact hv.tail trivial he

end PgQueue.Pglisten
