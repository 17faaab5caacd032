import PgQueue.Consume.Model

/-!
# When the handler loop ends

`isStopSignal` looks at the error of a receive as well as at the context.  An error that wraps
`context.Canceled` or `context.DeadlineExceeded`, such as a timeout in the driver or in the pool, ends
the worker although nobody told it to.

* `Honest`      a receive returns such an error only when the context has ended;
* `Recovers`    a receive that fails leaves its worker something to do but report the error;
* `ends_on_cancel`   **if all receives are honest, the call ends as it says; if they recover besides, so
                does every worker.**
-/

namespace PgQueue.Consume
open Process List

/-- a receive does not return the error of an ended context while the loop's is live, unless it means
an empty queue -/
def Honest (p : Pool) : Ev → Prop
  | .receive _ (.error e) => e.contextual = true → isEmptySignal e = true ∨ p.done = true
  | _ => True

instance (p : Pool) (e : Ev) : Decidable (Honest p e) := by
  unfold Honest
  split <;> infer_instance

/-- the transient errors in a row before this receive -/
def Phase.fails : Phase → Option Nat
  | .receive fails => some fails
  | _ => none

/-- an error that does not end the call: the queue is empty, the worker is to stop, or it may try again -/
def Recoverable (done : Bool) (e : Err) (fails : Nat) : Prop :=
  isEmptySignal e = true ∨ isStopSignal done e = true ∨
    isTransientError e = true ∧ fails + 1 ≤ maxConsumeTransientRetries

def Recovers (p : Pool) : Ev → Prop
  | .receive i (.error e) => ∀ w ∈ p.workers[i]?, ∀ fails ∈ w.fails, Recoverable p.done e fails
  | _ => True

instance (p : Pool) (e : Ev) : Decidable (Recovers p e) := by
  unfold Recovers Recoverable
  split <;> infer_instance

/-! ## between two events -/

inductive Moves (p : Pool) : Ev → Pool → Prop
  | cancelCtx : Moves p .cancelCtx { p with ctxDone := true }
  | cancelBg : Moves p .cancelBg { p with bgDone := true }
  | watch (hbg : p.bgDone = true) : Moves p .watch { p with canceled := true }
  | ended {i} (hdone : p.done = true) : Moves p (.check i) (p.turn i (.stopped none))
  | check {i} (fails : Nat) : Moves p (.check i) (p.turn i (.receive fails))
  | message {i} : Moves p (.receive i (.ok ())) (p.turn i .handle)
  | fail {i fails} (e : Err) (hi : p.workers[i]? = some (.receive fails)) :
      Moves p (.receive i (.error e)) (p.turn i (.failed e fails))
  | dispatch {i e fails} (hi : p.workers[i]? = some (.failed e fails)) :
      Moves p (.dispatch i) (p.turn i (dispatch p.done e fails))
  | work {i} (fails : Nat) : Moves p (.work i) (p.turn i (.fetch fails))
  | quit {i} (hdone : p.done = true) : Moves p (.quit i) (p.turn i (.stopped none))
  | handled {i} : Moves p (.handled i) (p.turn i (.fetch 0))
  | setFatal {i e} (hi : p.workers[i]? = some (.report e)) :
      Moves p (.setFatal i) ({ p with fatalErr := p.fatalErr.or (some e) }.turn i (.cancel e))
  | cancel {i e} (hi : p.workers[i]? = some (.cancel e)) :
      Moves p (.cancel i) ({ p with canceled := true }.turn i (.stopped (some e)))
  | join (hall : ∀ w ∈ p.workers, w.isStopped = true) : Moves p .join { p with returned := some p.fatalErr }

theorem moves_of_step {p q : Pool} {e : Ev} (h : step p e = some q) : Moves p e q := by
  cases e <;> simp only [step] at h <;> repeat' split at h
  all_goals cases h
  all_goals constructor
  all_goals simp_all

/-- there is a reason for workers to go: they were told to, or one of them has reported an error -/
def Pool.excused (p : Pool) : Prop := p.told = true ∨ p.fatalErr.isSome = true

def Phase.Fine (p : Pool) : Phase → Prop
  | .failed e _ => e.contextual = true → isEmptySignal e = true ∨ p.excused
  | .cancel _ => p.fatalErr.isSome = true
  | .stopped none => p.excused
  | .stopped (some _) => p.fatalErr.isSome = true
  | _ => True

structure Sound (p : Pool) : Prop where
  nonempty : p.workers ≠ []
  canceled : p.canceled = true → p.excused
  fine : ∀ w ∈ p.workers, w.Fine p
  returned : p.returned = some none → p.told = true

theorem poolSize_pos (concurrency : Int) : 0 < poolSize concurrency := by
  unfold poolSize maxConcurrency
  split <;> omega

theorem Sound.start (concurrency : Int) : Sound (runHandlerLoop concurrency) where
  nonempty := fun h => by
    have hlen : (runHandlerLoop concurrency).workers.length = poolSize concurrency :=
      length_replicate
    rw [h] at hlen
    exact absurd hlen.symm (poolSize_pos concurrency).ne'
  canceled := fun h => absurd h (by simp [runHandlerLoop])
  fine := fun w hw => by
    rw [eq_of_mem_replicate hw]
    trivial
  returned := fun h => absurd h (by simp [runHandlerLoop])

variable {p q : Pool}

theorem Sound.excused_of_done (h : Sound p) (hdone : p.done = true) : p.excused := by
  rcases Bool.or_eq_true_iff.mp hdone with hctx | hcan
  · left
    unfold Pool.told
    rw [hctx, Bool.true_or]
  · exact h.canceled hcan

theorem Sound.turn (h : Sound p) (i : Nat) {w : Phase} (hw : w.Fine p) : Sound (p.turn i w) := by
  have hlen : (p.turn i w).workers.length = p.workers.length := length_set
  refine ⟨fun hnil => h.nonempty (eq_nil_of_length_eq_zero ?_), h.canceled, fun v hv => ?_,
    h.returned⟩
  · rw [← hlen, hnil]
    rfl
  rcases mem_or_eq_of_mem_set hv with hv | rfl
  · exact h.fine v hv
  · exact hw

theorem Phase.Fine.mono (htold : p.told = true → q.told = true)
    (hfatal : p.fatalErr.isSome = true → q.fatalErr.isSome = true) {w : Phase} (h : w.Fine p) :
    w.Fine q := by
  have hex : p.excused → q.excused := Or.imp htold hfatal
  cases w with
  | failed e fails => exact fun hc => (h hc).imp id hex
  | cancel e => exact hfatal h
  | stopped reported =>
    cases reported with
    | none => exact hex h
    | some e => exact hfatal h
  | fetch | receive | wait | backoff | handle | report => trivial

theorem Sound.mono (h : Sound p) (hworkers : q.workers = p.workers)
    (htold : p.told = true → q.told = true)
    (hfatal : p.fatalErr.isSome = true → q.fatalErr.isSome = true)
    (hcanceled : q.canceled = true → q.excused) (hreturned : q.returned = p.returned) : Sound q := by
  refine ⟨by rw [hworkers]; exact h.nonempty, hcanceled, fun w hw => ?_, fun hret => ?_⟩
  · rw [hworkers] at hw
    exact (h.fine w hw).mono htold hfatal
  · rw [hreturned] at hret
    exact htold (h.returned hret)

/-! ## one event -/

theorem Sound.dispatch (h : Sound p) {e : Err} {fails : Nat} (hfine : (Phase.failed e fails).Fine p) :
    (dispatch p.done e fails).Fine p := by
  unfold Consume.dispatch
  split
  · trivial
  next hempty =>
    split
    next hstop =>
      rcases Bool.or_eq_true_iff.mp hstop with hdone | hctx
      · exact h.excused_of_done hdone
      · exact (hfine hctx).resolve_left hempty
    split
    · split <;> trivial
    · trivial

theorem Sound.cancelCtx (h : Sound p) : Sound { p with ctxDone := true } := by
  have htold : ({ p with ctxDone := true } : Pool).told = true := rfl
  exact h.mono rfl (fun _ => htold) id (fun _ => .inl htold) rfl

theorem Sound.cancelBg (h : Sound p) : Sound { p with bgDone := true } := by
  have htold : ({ p with bgDone := true } : Pool).told = true := Bool.or_true _
  exact h.mono rfl (fun _ => htold) id (fun _ => .inl htold) rfl

theorem Sound.watch (h : Sound p) (hbg : p.bgDone = true) : Sound { p with canceled := true } := by
  have htold : p.told = true := by
    unfold Pool.told
    rw [hbg, Bool.or_true]
  exact h.mono rfl id id (fun _ => .inl htold) rfl

theorem Sound.setFatal (h : Sound p) (i : Nat) (e : Err) :
    Sound ({ p with fatalErr := p.fatalErr.or (some e) }.turn i (.cancel e)) := by
  have hsome : (p.fatalErr.or (some e)).isSome = true := by cases p.fatalErr <;> rfl
  have hset : Sound { p with fatalErr := p.fatalErr.or (some e) } :=
    h.mono rfl id (fun _ => hsome) (fun _ => .inr hsome) rfl
  exact hset.turn i hsome

theorem Sound.cancel (h : Sound p) (i : Nat) {e : Err} (hw : .cancel e ∈ p.workers) :
    Sound ({ p with canceled := true }.turn i (.stopped (some e))) := by
  have hsome : p.fatalErr.isSome = true := h.fine _ hw
  have hset : Sound { p with canceled := true } := h.mono rfl id id (fun _ => .inr hsome) rfl
  exact hset.turn i hsome

theorem Sound.join (h : Sound p) (hall : ∀ w ∈ p.workers, w.isStopped = true) :
    Sound { p with returned := some p.fatalErr } := by
  refine ⟨h.nonempty, h.canceled, h.fine, fun hret => ?_⟩
  have hnone : p.fatalErr = none := Option.some.inj hret
  have hfatal : ¬ p.fatalErr.isSome = true := by simp [hnone]
  obtain ⟨w, hw⟩ := exists_mem_of_ne_nil _ h.nonempty
  have hfine := h.fine w hw
  have hstop := hall w hw
  cases w with
  | stopped reported =>
    cases reported with
    | none => exact hfine.resolve_right hfatal
    | some e => exact absurd hfine hfatal
  | fetch | receive | failed | wait | backoff | handle | report | cancel =>
    exact absurd hstop (by simp [Phase.isStopped])

theorem Sound.step {e : Ev} (h : Sound p) (hhonest : Honest p e) (hstep : step p e = some q) :
    Sound q := by
  cases moves_of_step hstep with
  | cancelCtx => exact h.cancelCtx
  | cancelBg => exact h.cancelBg
  | watch hbg => exact h.watch hbg
  | fail e hi => exact h.turn _ fun hctx => (hhonest hctx).imp id h.excused_of_done
  | dispatch hi => exact h.turn _ (h.dispatch (h.fine _ (mem_of_getElem? hi)))
  | ended hdone | quit hdone => exact h.turn _ (h.excused_of_done hdone)
  | check | message | work | handled => exact h.turn _ trivial
  | setFatal hi => exact h.setFatal _ _
  | cancel hi => exact h.cancel _ (mem_of_getElem? hi)
  | join hall => exact h.join hall

/-! ## no worker reports an error -/

def Phase.Mild (done : Bool) : Phase → Prop
  | .failed e fails => Recoverable done e fails
  | .report _ | .cancel _ => False
  | _ => True

structure Calm (p : Pool) : Prop where
  none : p.fatalErr = none
  mild : ∀ w ∈ p.workers, w.Mild p.done

theorem Calm.start (concurrency : Int) : Calm (runHandlerLoop concurrency) := by
  refine ⟨rfl, fun w hw => ?_⟩
  rw [eq_of_mem_replicate hw]
  trivial

theorem Calm.turn (h : Calm p) (i : Nat) {w : Phase} (hw : w.Mild p.done) : Calm (p.turn i w) := by
  refine ⟨h.none, fun v hv => ?_⟩
  rcases mem_or_eq_of_mem_set hv with hv | rfl
  · exact h.mild v hv
  · exact hw

theorem Calm.mono (h : Calm p) (hworkers : q.workers = p.workers) (hfatal : q.fatalErr = p.fatalErr)
    (hdone : p.done = true → q.done = true) : Calm q := by
  refine ⟨hfatal.trans h.none, fun w hw => ?_⟩
  have hmild := h.mild w (hworkers ▸ hw)
  cases w <;> grind [Phase.Mild, Recoverable, isStopSignal]

theorem Recoverable.dispatch {done : Bool} {e : Err} {fails : Nat} (h : Recoverable done e fails) :
    (dispatch done e fails).Mild done := by
  unfold Consume.dispatch
  split_ifs <;> grind [Recoverable, Phase.Mild]

theorem Calm.step {e : Ev} (h : Calm p) (hrec : Recovers p e) (hstep : step p e = some q) : Calm q := by
  cases moves_of_step hstep with
  | cancelCtx => exact h.mono rfl rfl fun _ => rfl
  | watch => exact h.mono rfl rfl fun _ => Bool.or_true _
  | cancelBg | join => exact h.mono rfl rfl id
  | fail e hi => exact h.turn _ (hrec _ hi _ rfl)
  | dispatch hi => exact h.turn _ (h.mild _ (mem_of_getElem? hi)).dispatch
  | ended | check | message | work | quit | handled => exact h.turn _ trivial
  | setFatal hi | cancel hi => exact (h.mild _ (mem_of_getElem? hi)).elim

/-! ## every run -/

/-- **If no receive returns the error of an ended context while the loop's is live, the call returns nil
only when it was told to end; and so does each worker, unless one has reported an error, which ends the
others.**  None has if after every failed receive there was something else to do. -/
theorem ends_on_cancel {concurrency : Int} {p : Pool}
    (hrun : Runs step Honest (runHandlerLoop concurrency) p) :
    (p.returned = some none → p.told = true) ∧ (p.fatalErr = none → EndsOnCancel p) ∧
      (Runs step Recovers (runHandlerLoop concurrency) p → EndsOnCancel p) := by
  have h : Sound p := hrun.invariant Sound (.start concurrency) fun _ _ _ h hhonest hstep =>
    h.step hhonest hstep
  have hends : p.fatalErr = none → EndsOnCancel p := by
    refine fun hnone => ⟨h.returned, fun hw => ?_⟩
    have hexcused : p.excused := h.fine _ hw
    exact hexcused.resolve_right (by simp [hnone])
  refine ⟨h.returned, hends, fun hrec => hends ?_⟩
  exact (hrec.invariant Calm (.start concurrency) fun _ _ _ h hrec hstep => h.step hrec hstep).none

/-- two workers: one finds nothing, the other's connection fails; then the caller's context ends -/
def canceledCall : List Ev :=
  [.check 0, .check 1, .receive 0 (.error (.sentinel .queueEmpty)), .dispatch 0,
    .receive 1 (.error (.wrap "failed to begin: " (.library "bad connection" none []) "")),
    .dispatch 1, .work 1, .check 1, .cancelCtx, .quit 0,
    .receive 1 (.error (.wrap "failed to begin: " (.sentinel .canceled) "")), .dispatch 1, .join]

theorem ends_on_cancel_canceled : ∃ p, Runs step Honest (runHandlerLoop 2) p ∧
    Runs step Recovers (runHandlerLoop 2) p ∧ p.returned = some none ∧ EndsOnCancel p := by
  have hrun : ∃ p, follow (guarded step Honest) (runHandlerLoop 2) canceledCall = some p ∧
      follow (guarded step Recovers) (runHandlerLoop 2) canceledCall = some p ∧
      p.returned = some none := by
    decide +kernel
  obtain ⟨p, hhonest, hrec, hret⟩ := hrun
  have hruns : Runs step Honest (runHandlerLoop 2) p := .of_follow canceledCall hhonest
  have hrecs : Runs step Recovers (runHandlerLoop 2) p := .of_follow canceledCall hrec
  exact ⟨p, hruns, hrecs, hret, (ends_on_cancel hruns).2.2 hrecs⟩

/-- a timeout of the driver ends the only worker, and the call returns nil; no context was cancelled -/
theorem driver_timeout_ends_loop : ∃ p, follow step (runHandlerLoop 1)
    [.check 0, .receive 0 (.error (.wrap "failed to begin: " (.sentinel .deadlineExceeded) "")),
      .dispatch 0, .join] = some p ∧
    p.workers = [.stopped none] ∧ p.returned = some none ∧ p.told = false ∧ ¬ EndsOnCancel p := by
  decide +kernel

end PgQueue.Consume
