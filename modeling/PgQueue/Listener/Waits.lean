import PgQueue.Listener.Interrupts
import PgQueue.Process.Doorbell

/-!
# The wait of the listener

The flag `interruptPending` is set after the work is queued, and consumed at another place than where the
work is taken.  It serves two ends: that queued requests are drained, and that a `Close` is seen.

* `Effect`           what a step can do to the queues, the flag and the wait;
* `workBell`, `closeBell`   the two uses of the flag;
* `never_sleeps_on_work`   **while the loop is in a wait that nobody has ended, all that is queued belongs
                     to callers that have not called `requestInterrupt` yet, and so does a `Close`.**
-/

namespace PgQueue.Pglisten
open Process List

/-! ## what a step can do -/

/-- the loop has looked at the queues and comes to the wait before it looks again, or it waits -/
def Running.bound (w : Running) : Bool :=
  match w.place with
  | .outside => w.listener.pc.draining || decide (w.listener.pc = .receive)
  | .waiting .live => true
  | _ => false

/-- the owners of what is queued, `none` for a request of `reconnect` -/
def Running.queue (w : Running) : List (Option Caller) :=
  w.listener.pending.map (fun r => r.done.map Caller.listen) ++ w.owners.map fun j => some (.unlisten j)

/-- the loop stays where it is with respect to the wait, and the flag as it is -/
structure Stays (w w' : Running) : Prop where
  place : w'.place = w.place
  bound : w'.bound = true → w.bound = true
  flag : w'.interruptPending = w.interruptPending
  queue : ∀ o ∈ w'.queue, o ∈ w.queue ∨ ∃ c ∈ w'.late, o = some c
  late : w.late ⊆ w'.late
  closing : w'.done = true → w'.closing ≠ .finished ∨ w.done = true ∧ w.closing = .finished

inductive Effect (w w' : Running) : Prop
  /-- the loop looks at the queues and at `done` before it waits -/
  | away (hbound : w'.bound = false) (hplace : w'.place ≠ .passed)
  | stays (h : Stays w w')
  /-- `requestInterrupt` -/
  | rings (hflag : w'.interruptPending = true) (hplace : w'.place ≠ .waiting .live)
      (hbound : w'.bound = true → w.bound = true) (hpassed : w'.place = .passed → w.place = .passed)
  /-- `isDone` -/
  | passes (hbound : w'.bound = false) (hplace : w'.place = .passed)
      (hflag : w'.interruptPending = w.interruptPending) (hdone : w'.done = false)
  /-- the snapshot of a drain -/
  | takes (hqueue : w'.queue = []) (hbound : w.bound = false) (hplace : w.place = .passed)
      (hplace' : w'.place = .outside) (hflag : w'.interruptPending = w.interruptPending)
      (hdone : w'.done = w.done) (hclosing : w'.closing = w.closing)
  /-- the wait is armed -/
  | arms (hbound : w.bound = true) (hflag : w.interruptPending = false)
      (hplace : w'.place = .waiting .live) (hflag' : w'.interruptPending = false)
      (hqueue : w'.queue = w.queue) (hlate : w'.late = w.late) (hdone : w'.done = w.done)
      (hclosing : w'.closing = w.closing)

section
variable {w w' : Running} {a : Act} {e : Ev} {place : Place} {s : State}

theorem bound_outside (hplace : w.place = .outside) :
    w.bound = (w.listener.pc.draining || decide (w.listener.pc = .receive)) := by
  unfold Running.bound
  rw [hplace]

theorem Stays.same (hpc : s.pc = w.listener.pc) (hpending : s.pending = w.listener.pending) :
    Stays w { w with listener := s } where
  place := rfl
  bound h := by
    unfold Running.bound at h ⊢
    rw [← hpc]
    exact h
  flag := rfl
  queue o h := by
    unfold Running.queue at h ⊢
    rw [← hpending]
    exact Or.inl h
  late := Finset.Subset.refl _
  closing h := by
    by_cases hc : w.closing = .finished
    · exact Or.inr ⟨h, hc⟩
    · exact Or.inl hc

theorem Stays.listen (ch : String) : Stays w { w with
    listener := Pglisten.listen ch w.listener
    late := w.late ∪ ((enqueues w.listener (.listen ch)).map Caller.listen).toFinset } := by
  obtain ⟨hpc, -, hqueued⟩ := listen_cases ch w.listener
  refine ⟨rfl, fun h => ?_, rfl, fun o ho => ?_, Finset.subset_union_left, fun h => ?_⟩
  · unfold Running.bound at h ⊢
    rw [← hpc]
    exact h
  · unfold Running.queue at ho ⊢
    rcases hqueued with ⟨-, hpending⟩ | ⟨henq, hpending⟩
    · rw [hpending] at ho
      exact Or.inl ho
    · rw [hpending, map_append] at ho
      rcases mem_append.mp ho with ho | ho
      · rcases mem_append.mp ho with ho | ho
        · exact Or.inl (mem_append_left _ ho)
        · obtain rfl := mem_singleton.mp ho
          refine Or.inr ⟨.listen w.listener.calls.length, Finset.mem_union_right _ ?_, rfl⟩
          rw [henq]
          exact mem_toFinset.mpr mem_cons_self
      · exact Or.inl (mem_append_right _ ho)
  · exact (Stays.same (w := w) (s := w.listener) rfl rfl).closing h

theorem Stays.unlisten (ch : String) : Stays w { w with
    listener := Pglisten.unlisten ch w.listener
    late := insert (.unlisten w.unlistens) w.late
    owners := w.owners ++ [w.unlistens]
    unlistens := w.unlistens + 1 } := by
  obtain ⟨hpc, hpending⟩ := unlisten_same ch w.listener
  have hsame := Stays.same (w := w) hpc hpending
  refine ⟨rfl, hsame.bound, rfl, fun o ho => ?_, Finset.subset_insert _ _, hsame.closing⟩
  unfold Running.queue at ho ⊢
  rw [hpending, map_append] at ho
  rcases mem_append.mp ho with ho | ho
  · exact Or.inl (mem_append_left _ ho)
  · rcases mem_append.mp ho with ho | ho
    · exact Or.inl (mem_append_right _ ho)
    · obtain rfl := mem_singleton.mp ho
      exact Or.inr ⟨_, Finset.mem_insert_self _ _, rfl⟩

theorem bound_of_ended (h : w.place.ended = true) : w.bound = false ∧ w.place ≠ .passed := by
  unfold Running.bound
  cases hplace : w.place with
  | waiting ctx =>
    rw [hplace] at h
    cases ctx with
    | live => cases h
    | canceled | expired => exact ⟨rfl, by simp⟩
  | outside | passed =>
    rw [hplace] at h
    cases h
  | returned | disarmed | delivering | probing => exact ⟨rfl, by simp⟩

theorem cancelWait_cases (p : Place) :
    p.cancelWait = p ∧ p ≠ .waiting .live ∨ p.cancelWait.ended = true := by
  cases p with
  | waiting ctx => cases ctx <;> exact Or.inr rfl
  | returned ctx n => exact Or.inr rfl
  | outside | passed | disarmed | delivering | probing => exact Or.inl ⟨rfl, by simp⟩

theorem Effect.requestInterrupt {late : Finset Caller} {closing : Closing} :
    Effect w { requestInterrupt w with late := late, closing := closing } := by
  rcases cancelWait_cases w.place with ⟨hplace, hlive⟩ | hended
  · refine .rings rfl (fun h => hlive (hplace.symm.trans h)) (fun h => ?_) fun h => hplace.symm.trans h
    unfold Running.bound at h ⊢
    rw [← hplace]
    exact h
  · have haway := bound_of_ended (w := { Pglisten.requestInterrupt w with late := late, closing := closing })
      hended
    exact .away haway.1 haway.2

theorem Effect.work (hplace : w.place = .outside) (he : e.works = true) (h : step w.listener e = some s) :
    Effect w { w with listener := s, place := .outside } := by
  have hstay : s.pending = w.listener.pending →
      (s.pc.draining = true ∨ s.pc = .receive → w.listener.pc.draining = true) →
      Stays w { w with listener := s, place := .outside } := by
    intro hpending hpc
    refine ⟨hplace.symm, fun hb => ?_, rfl, fun o ho => ?_, Finset.Subset.refl _, ?_⟩
    · rw [bound_outside rfl] at hb
      rw [bound_outside hplace, hpc ((Bool.or_eq_true _ _).mp hb |>.imp id of_decide_eq_true)]
      rfl
    · unfold Running.queue at ho ⊢
      rw [← hpending]
      exact Or.inl ho
    · exact (Stays.same (w := w) (s := w.listener) rfl rfl).closing
  cases moves_of_step h with
  | listenOK hpc hS | unlistenOK hpc hS => exact .stays (hstay rfl fun _ => by rw [hpc]; rfl)
  | markConfirmed hpc | signal hpc | unlistenFails hpc | drained hpc =>
    exact .stays (hstay rfl fun _ => by rw [hpc]; rfl)
  | listenFails | requeue | closeConn => exact .away rfl (by simp)
  | _ => cases he

theorem Effect.leaves (h : step w.listener e = some s) (he : e = .received ∨ e = .receiveFails ∨ e = .stop)
    {flag : Bool} :
    Effect w { w with listener := s, place := .outside, interruptPending := flag } := by
  rcases he with rfl | rfl | rfl
  · cases moves_of_step h
    exact .away rfl (by simp)
  · cases moves_of_step h
    exact .away rfl (by simp)
  · cases moves_of_step h
    exact .away rfl (by simp)

theorem Acts.effect (h : Acts w w') : Effect w w' := by
  have hsame := Stays.same (w := w) (s := w.listener) rfl rfl
  cases h with
  | listen ch => exact .stays (.listen ch)
  | idle hs hpc hpending hunpending => exact .stays (.same hpc hpending)
  | unlisten ch hqueued => exact .stays (.unlisten ch)
  | interrupt | closeInterrupt => exact .requestInterrupt
  | close s hs =>
    subst hs
    exact .stays ⟨rfl, hsame.bound, rfl, hsame.queue, hsame.late, fun _ => Or.inl (by simp)⟩
  | closeDone =>
    exact .stays ⟨rfl, hsame.bound, rfl, hsame.queue, hsame.late, fun _ => Or.inl (by simp)⟩
  | pass hdone => exact .passes rfl rfl rfl hdone
  | snapshot hplace hs =>
    cases moves_of_step hs
    refine .takes rfl ?_ hplace rfl rfl rfl rfl
    unfold Running.bound
    rw [hplace]
  | work hplace he hs => exact .work hplace he hs
  | connect hs =>
    cases moves_of_step hs
    exact .away rfl (by simp)
  | arm hplace hpc hflag =>
    refine .arms ?_ hflag rfl hflag rfl rfl rfl rfl
    rw [bound_outside hplace, hpc]
    rfl
  | ends hplace =>
    have haway := bound_of_ended (w := { w with place := _ }) hplace
    exact .away haway.1 haway.2
  | leaves flag he hs => exact .leaves hs he

theorem bound_of_live (h : w.place = .waiting .live) : w.bound = true := by
  unfold Running.bound
  rw [h]

end

/-! ## the two uses of the flag -/

/-- work is queued by `Listen` and `Unlisten`, and the loop looks at its snapshot -/
def workBell : Doorbell Running (Option Caller) where
  bound w := w.bound = true
  asleep w := w.place = .waiting .live
  rung w := w.interruptPending = true
  queued w o := o ∈ w.queue
  late w o := ∃ c ∈ w.late, o = some c
  bound_of_asleep _ := bound_of_live

/-- `done` is closed by `Close`, and the loop looks at it at its head -/
def closeBell : Doorbell Running Unit where
  bound w := w.bound = true ∨ w.place = .passed
  asleep w := w.place = .waiting .live
  rung w := w.interruptPending = true
  queued w _ := w.done = true
  late w _ := w.closing ≠ .finished
  bound_of_asleep _ h := Or.inl (bound_of_live h)

section
variable {w w' : Running} {a : Act}

theorem Effect.work_keeps (h : Effect w w') : workBell.Keeps w w' := by
  cases h with
  | away hbound hplace => exact .away (Bool.eq_false_iff.mp hbound)
  | stays h =>
    refine ⟨fun hb hn => absurd (h.bound hb) hn, fun _ _ hr => h.flag.trans hr, fun _ _ o ho => ?_,
      fun ha => ⟨Or.inl (h.place.symm.trans ha), fun hr => h.flag.symm.trans hr⟩⟩
    rcases h.queue o ho with ho | hlate
    · by_cases hlate : workBell.late w o
      · obtain ⟨c, hc, rfl⟩ := hlate
        exact Or.inl ⟨c, h.late hc, rfl⟩
      · exact Or.inr (Or.inr ⟨ho, hlate⟩)
    · exact Or.inl hlate
  | rings hflag hplace hbound hpassed =>
    exact ⟨fun hb hn => absurd (hbound hb) hn, fun _ _ _ => hflag, fun _ _ _ _ => Or.inr (Or.inl hflag),
      fun ha => absurd ha hplace⟩
  | passes hbound hplace hflag hdone => exact .away (Bool.eq_false_iff.mp hbound)
  | takes hqueue hbound hplace hplace' hflag hdone hclosing =>
    have hempty : ∀ o, ¬ workBell.queued w' o := fun o ho => by
      have ho : o ∈ w'.queue := ho
      rw [hqueue] at ho
      cases ho
    exact ⟨fun _ _ o ho => absurd ho (hempty o), fun _ hs => absurd hs (Bool.eq_false_iff.mp hbound),
      fun _ _ o ho => absurd ho (hempty o), fun ha => (by cases hplace'.symm.trans ha)⟩
  | arms hbound hflag hplace hflag' hqueue hlate hdone hclosing =>
    refine ⟨fun _ hn => absurd hbound hn, fun _ _ hr => (by cases hflag.symm.trans hr), fun _ _ o ho => ?_,
      fun _ => ⟨Or.inr (Bool.eq_false_iff.mp hflag), fun hr => (by cases hflag'.symm.trans hr)⟩⟩
    have ho : o ∈ w.queue := hqueue ▸ ho
    by_cases hl : workBell.late w o
    · obtain ⟨c, hc, rfl⟩ := hl
      exact Or.inl ⟨c, hlate ▸ hc, rfl⟩
    · exact Or.inr (Or.inr ⟨ho, hl⟩)

theorem Effect.close_keeps (h : Effect w w') : closeBell.Keeps w w' := by
  have hsame : w'.done = w.done → w'.closing = w.closing → closeBell.queued w' () →
      closeBell.late w' () ∨ closeBell.rung w' ∨ closeBell.queued w () ∧ ¬ closeBell.late w () := by
    intro hdone hclosing hq
    by_cases hl : w.closing = .finished
    · exact Or.inr (Or.inr ⟨hdone.symm.trans hq, fun hne => hne hl⟩)
    · exact Or.inl fun h => hl (hclosing.symm.trans h)
  cases h with
  | away hbound hplace => exact .away fun h => h.elim (Bool.eq_false_iff.mp hbound) hplace
  | stays h =>
    have hstay : closeBell.bound w' → closeBell.bound w :=
      fun hb => hb.imp h.bound fun hp => h.place.symm.trans hp
    refine ⟨fun hb hn => absurd (hstay hb) hn, fun _ _ hr => h.flag.trans hr, fun _ _ _ hq => ?_,
      fun ha => ⟨Or.inl (h.place.symm.trans ha), fun hr => h.flag.symm.trans hr⟩⟩
    rcases h.closing hq with hne | ⟨hdone, hfin⟩
    · exact Or.inl hne
    · exact Or.inr (Or.inr ⟨hdone, fun hne => hne hfin⟩)
  | rings hflag hplace hbound hpassed =>
    exact ⟨fun hb hn => absurd (hb.imp hbound hpassed) hn, fun _ _ _ => hflag,
      fun _ _ _ _ => Or.inr (Or.inl hflag), fun ha => absurd ha hplace⟩
  | passes hbound hplace hflag hdone =>
    have hopen : ∀ i, ¬ closeBell.queued w' i := fun i hq => by cases hdone.symm.trans hq
    exact ⟨fun _ _ i hq => absurd hq (hopen i), fun _ _ hr => hflag.trans hr,
      fun _ _ i hq => absurd hq (hopen i), fun ha => (by cases hplace.symm.trans ha)⟩
  | takes hqueue hbound hplace hplace' hflag hdone hclosing =>
    exact ⟨fun _ hn => absurd (Or.inr hplace) hn, fun _ _ hr => hflag.trans hr,
      fun _ _ _ hq => hsame hdone hclosing hq, fun ha => (by cases hplace'.symm.trans ha)⟩
  | arms hbound hflag hplace hflag' hqueue hlate hdone hclosing =>
    exact ⟨fun _ hn => absurd (Or.inl hbound) hn, fun _ _ hr => (by cases hflag.symm.trans hr),
      fun _ _ _ hq => hsame hdone hclosing hq,
      fun _ => ⟨Or.inr (Bool.eq_false_iff.mp hflag), fun hr => (by cases hflag'.symm.trans hr)⟩⟩

end

/-- **The listener never sleeps on queued work.**  While the loop is in `WaitForNotification` and the wait
context is live, every queued request belongs to a call that has not called `requestInterrupt` yet, and if
the listener is closed, `Close` has not called it yet either. -/
theorem never_sleeps_on_work (w : Running) (hrun : Runs Running.step (fun _ _ => True) .new w)
    (hwait : w.place = .waiting .live) :
    (∀ r ∈ w.listener.pending, ∃ i, r.done = some i ∧ .listen i ∈ w.late) ∧
    (∀ (k : Nat) (ch : String), w.listener.unpending[k]? = some ch →
      ∃ j, w.owners[k]? = some j ∧ .unlisten j ∈ w.late) ∧
    (w.listener.closed = true → w.closing ≠ .finished) := by
  have hstart : ¬ Running.new.bound = true := by decide
  have hwork : ∀ o ∈ w.queue, ∃ c ∈ w.late, o = some c :=
    workBell.asleep_late (s := .new) (fun v a v' _ h => (Acts.of_step h).effect.work_keeps) hstart hrun hwait
  have hclose : w.done = true → w.closing ≠ .finished :=
    closeBell.asleep_late (s := .new) (fun v a v' _ h => (Acts.of_step h).effect.close_keeps)
      (fun h => h.elim hstart (by decide)) hrun hwait ()
  have hsound : Sound w :=
    hrun.invariant Sound ⟨rfl, by decide⟩ fun v a v' hv _ h => (Acts.of_step h).sound hv
  refine ⟨fun r hr => ?_, fun k ch hk => ?_, fun _ hfin => hclose (hsound.announced (Or.inr hfin)) hfin⟩
  · obtain ⟨c, hc, heq⟩ := hwork _ (mem_append_left _ (mem_map_of_mem hr))
    obtain ⟨i, hi, rfl⟩ := Option.map_eq_some_iff.mp heq
    exact ⟨i, hi, hc⟩
  · obtain ⟨hlt, -⟩ := List.getElem?_eq_some_iff.mp hk
    have hlt : k < w.owners.length := hsound.owners ▸ hlt
    have hmem : some (.unlisten w.owners[k]) ∈ w.queue :=
      mem_append_right _ (mem_map_of_mem (getElem_mem hlt))
    obtain ⟨c, hc, heq⟩ := hwork _ hmem
    exact ⟨w.owners[k], List.getElem?_eq_getElem hlt, Option.some.inj heq ▸ hc⟩

/-- an `Unlisten`, a `Listen` and a `Close` that come while the loop waits, before they interrupt it -/
def waitingRun : List Act :=
  [.listen "a", .interrupt (.listen 0), .pass, .snapshot, .work .listenOK, .work .markConfirmed,
    .work .signal, .work .drained, .consume, .pass, .snapshot, .work .drained, .arm, .unlisten "a",
    .listen "b", .close, .closeDone]

theorem never_sleeps_on_work_waitingRun :
    ∃ w, follow (guarded Running.step fun _ _ => True) .new waitingRun = some w ∧
      w.place = .waiting .live ∧ w.listener.pending = [⟨"b", some 1⟩] ∧ w.listener.unpending = ["a"] ∧
      w.listener.closed = true ∧ ∀ r ∈ w.listener.pending, ∃ i, r.done = some i ∧ .listen i ∈ w.late :=
  ⟨_, rfl, rfl, rfl, rfl, rfl, (never_sleeps_on_work _ (Runs.of_follow waitingRun rfl) rfl).1⟩

end PgQueue.Pglisten
