import PgQueue.Process.Runs
import Mathlib.Data.Multiset.AddSub

/-!
# The workers of a garbage collection

`Collect` hands the queues to at most `MaxWorkers` goroutines.  The outer context may end at any time; a
worker that meets a dead pool cancels the dispatch, and the `select` of the loop may then still take
a free slot.

* `step`            the loop, the workers and the context, in any interleaving;
* `collect_pass`    **every queue is collected at most once, and what is returned accounts for all;**
* `collect_pass_ends`   **a pass in which every collection returns, returns.**
-/

namespace PgQueue.Dispatch
open Process List

variable {ι ε : Type}

/-- how `collectQueue` ends; a panic is recovered, and its error is not looked into -/
inductive Outcome (ε : Type)
  | ok
  | error (e : ε)
  | panic (e : ε)
deriving DecidableEq, Repr

inductive CollectErr (ι ε : Type)
  | queue (name : ι) (e : ε)
  | truncated
  | cancelled (e : ε)
deriving DecidableEq, Repr

def maxAccumulatedCollectErrs : Nat := 100

def appendCappedErr (errs : List (CollectErr ι ε)) (name : ι) (e : ε) : List (CollectErr ι ε) :=
  if errs.length < maxAccumulatedCollectErrs then errs ++ [.queue name e]
  else if errs.length = maxAccumulatedCollectErrs then errs ++ [.truncated]
  else errs

def Outcome.record (o : Outcome ε) (name : ι) (errs : List (CollectErr ι ε)) :
    List (CollectErr ι ε) :=
  match o with
  | .ok => errs
  | .error e | .panic e => appendCappedErr errs name e

/-- what the workers report, all of it -/
def failures (ended : List (ι × Outcome ε)) : List (CollectErr ι ε) :=
  ended.filterMap fun p => match p.2 with
    | .ok => none
    | .error e | .panic e => some (.queue p.1 e)

/-- the first errors, and one more if there are more -/
def capped (fs : List (CollectErr ι ε)) : List (CollectErr ι ε) :=
  fs.take maxAccumulatedCollectErrs ++ if fs.length ≤ maxAccumulatedCollectErrs then [] else [.truncated]

theorem appendCappedErr_capped (fs : List (CollectErr ι ε)) (q : ι) (e : ε) :
    appendCappedErr (capped fs) q e = capped (fs ++ [.queue q e]) := by
  unfold appendCappedErr capped
  rcases lt_trichotomy fs.length maxAccumulatedCollectErrs with h | h | h
  · rw [take_of_length_le h.le, if_pos h.le, append_nil, if_pos h, take_of_length_le,
      if_pos, append_nil]
    all_goals simpa [Nat.succ_le_iff] using h
  · rw [take_of_length_le h.le, if_pos h.le, append_nil, if_neg h.not_lt, if_pos h, ← h,
      take_left, if_neg]
    simp
  · rw [if_neg h.not_ge, take_append_of_le_length h.le, if_neg (c := _ ≤ _), if_neg, if_neg]
    all_goals simp
    all_goals omega

theorem record_capped (ended : List (ι × Outcome ε)) (q : ι) (o : Outcome ε) :
    o.record q (capped (failures ended)) = capped (failures (ended ++ [(q, o)])) := by
  unfold failures
  rw [filterMap_append]
  cases o with
  | ok => exact congrArg capped (append_nil _).symm
  | error e | panic e => exact appendCappedErr_capped _ q e

theorem ok_of_failures {ended : List (ι × Outcome ε)} (h : capped (failures ended) = []) :
    ∀ p ∈ ended, p.2 = .ok := by
  have htake := (append_eq_nil_iff.mp h).1
  have hnil : failures ended = [] := by simpa [maxAccumulatedCollectErrs] using htake
  intro p hp
  have := filterMap_eq_nil_iff.mp hnil p hp
  split at this <;> simp_all

/-! ## the machine -/

structure State (ι ε : Type) where
  /-- the index of the loop over the queues -/
  next : Nat
  /-- the loop has seen `dispatchCtx` done -/
  stopped : Bool
  /-- `ctx.Err()` of the outer context -/
  ctx : Option ε
  dispatchDone : Bool
  sem : Nat
  errs : List (CollectErr ι ε)
  /-- the workers: in `collectQueue`, about to call `cancelDispatch`, about to free their slot, about to
  call `wg.Done` -/
  collecting : Multiset ι
  cancelling : Nat
  leaving : Nat
  released : Nat
  /-- the collections that have ended, in the order in which they were recorded -/
  ended : List (ι × Outcome ε)

def start : State ι ε := ⟨0, false, none, false, 0, [], 0, 0, 0, 0, []⟩

inductive Ev (ι ε : Type)
  | cancel (e : ε)
  | dispatch
  | stop
  | collected (queue : ι) (o : Outcome ε)
  | cancelDispatch
  | release
  | done

def Outcome.dead (isPoolDead : ε → Bool) : Outcome ε → Bool
  | .error e => isPoolDead e
  | _ => false

/-- the counter of the wait group -/
def State.wg (s : State ι ε) : Nat := s.collecting.card + s.cancelling + s.leaving + s.released

/-- what `dispatchCollect` is called with -/
structure Pass (ι ε : Type) where
  queues : List ι
  maxWorkers : Nat
  isPoolDead : ε → Bool

variable [DecidableEq ι] (P : Pass ι ε)

def step (s : State ι ε) : Ev ι ε → Option (State ι ε)
  | .cancel e => if s.ctx.isSome then none else some { s with ctx := some e }
  | .dispatch =>
    match P.queues[s.next]? with
    | some q =>
      if s.stopped = false ∧ s.sem < P.maxWorkers then
        some { s with next := s.next + 1, sem := s.sem + 1, collecting := q ::ₘ s.collecting }
      else none
    | none => none
  | .stop =>
    if s.next < P.queues.length ∧ s.stopped = false ∧ (s.ctx.isSome ∨ s.dispatchDone) then
      some { s with stopped := true }
    else none
  | .collected q o =>
    if q ∈ s.collecting then
      some { s with
        collecting := s.collecting.erase q
        cancelling := s.cancelling + if o.dead P.isPoolDead then 1 else 0
        leaving := s.leaving + if o.dead P.isPoolDead then 0 else 1
        ended := s.ended ++ [(q, o)]
        errs := o.record q s.errs }
    else none
  | .cancelDispatch =>
    if 0 < s.cancelling then
      some { s with
        cancelling := s.cancelling - 1, leaving := s.leaving + 1, dispatchDone := true }
    else none
  | .release =>
    if 0 < s.leaving then
      some { s with leaving := s.leaving - 1, sem := s.sem - 1, released := s.released + 1 }
    else none
  | .done => if 0 < s.released then some { s with released := s.released - 1 } else none

/-- what `dispatchCollect` returns, once the loop is over and `wg.Wait` does not block -/
def returns (s : State ι ε) : Option (List (CollectErr ι ε)) :=
  if (s.stopped ∨ P.queues.length ≤ s.next) ∧ s.wg = 0 then
    some (s.errs ++ s.ctx.toList.map .cancelled)
  else none

/-- the states of a pass -/
def Reach (s : State ι ε) : Prop := Runs (step P) (fun _ _ => True) start s

/-! ## a pass -/

structure Sound (s : State ι ε) : Prop where
  once : (P.queues.take s.next : Multiset ι) = s.collecting + (s.ended.map Prod.fst : Multiset ι)
  slots : s.sem = s.collecting.card + s.cancelling + s.leaving
  bound : s.sem ≤ P.maxWorkers
  errs : s.errs = capped (failures s.ended)
  dead : 0 < s.cancelling ∨ s.dispatchDone = true → ∃ p ∈ s.ended, p.2.dead P.isPoolDead = true
  stopped : s.stopped = true → s.ctx.isSome = true ∨ s.dispatchDone = true

section
variable {P} {s t : State ι ε} {ev : Ev ι ε}

theorem Sound.step (hs : Sound P s) (h : step P s ev = some t) : Sound P t := by
  obtain ⟨honce, hslots, hbound, herrs, hdead, hstopped⟩ := hs
  cases ev with
  | cancel e =>
    obtain ⟨-, h⟩ := Option.ite_none_left_eq_some.mp h
    cases h
    exact ⟨honce, hslots, hbound, herrs, hdead, fun _ => Or.inl rfl⟩
  | dispatch =>
    rw [Dispatch.step] at h
    split at h
    next q hq =>
      obtain ⟨hfree, h⟩ := Option.ite_none_right_eq_some.mp h
      cases h
      refine ⟨?_, ?_, hfree.2, herrs, hdead, hstopped⟩
      · rw [take_add_one, hq, Multiset.cons_add, ← honce, ← Multiset.coe_add, Multiset.add_comm]
        rfl
      · simp only [Multiset.card_cons]
        omega
    next => cases h
  | stop =>
    obtain ⟨hstop, h⟩ := Option.ite_none_right_eq_some.mp h
    cases h
    exact ⟨honce, hslots, hbound, herrs, hdead, fun _ => hstop.2.2⟩
  | collected q o =>
    obtain ⟨hq, h⟩ := Option.ite_none_right_eq_some.mp h
    cases h
    refine ⟨?_, ?_, hbound, ?_, fun h => ?_, hstopped⟩
    · rw [map_append, ← Multiset.coe_add, honce]
      nth_rewrite 1 [← Multiset.cons_erase hq]
      rw [Multiset.cons_add, ← Multiset.add_cons, ← Multiset.singleton_add, Multiset.add_comm {q}]
      rfl
    · have := Multiset.card_erase_add_one hq
      simp only
      split <;> omega
    · exact herrs ▸ record_capped _ _ _
    · by_cases ho : o.dead P.isPoolDead = true
      · exact ⟨(q, o), mem_append_right _ mem_cons_self, ho⟩
      · obtain ⟨p, hp, hpd⟩ := hdead (by simpa [ho] using h)
        exact ⟨p, mem_append_left _ hp, hpd⟩
  | cancelDispatch =>
    obtain ⟨hn, h⟩ := Option.ite_none_right_eq_some.mp h
    cases h
    refine ⟨honce, ?_, hbound, herrs, fun _ => hdead (Or.inl hn), fun _ => Or.inr rfl⟩
    simp only
    omega
  | release =>
    obtain ⟨hn, h⟩ := Option.ite_none_right_eq_some.mp h
    cases h
    refine ⟨honce, ?_, ?_, herrs, hdead, hstopped⟩
    all_goals
      simp only
      omega
  | done =>
    obtain ⟨-, h⟩ := Option.ite_none_right_eq_some.mp h
    cases h
    exact ⟨honce, hslots, hbound, herrs, hdead, hstopped⟩

theorem Reach.sound (h : Reach P s) : Sound P s :=
  h.invariant (Sound P) ⟨rfl, rfl, Nat.zero_le _, rfl, by simp [start], nofun⟩ fun _ _ _ hs _ h => hs.step h

theorem collect_pass (h : Reach P s) :
    s.collecting.card ≤ P.maxWorkers ∧
      (P.queues.take s.next : Multiset ι) = s.collecting + (s.ended.map Prod.fst : Multiset ι) ∧
      ∀ errs, returns P s = some errs →
        errs = capped (failures s.ended) ++ s.ctx.toList.map .cancelled ∧
        (s.ended.map Prod.fst).Perm (P.queues.take s.next) ∧
        (s.next < P.queues.length → s.ctx.isSome ∨ ∃ p ∈ s.ended, p.2.dead P.isPoolDead = true) ∧
        (errs = [] → (s.ended.map Prod.fst).Perm P.queues ∧ ∀ p ∈ s.ended, p.2 = .ok) := by
  obtain ⟨honce, hslots, hbound, herrs, hdead, hstopped⟩ := h.sound
  refine ⟨by omega, honce, fun errs hr => ?_⟩
  obtain ⟨⟨hover, hwg⟩, hr⟩ := Option.ite_none_right_eq_some.mp hr
  have hcollecting : s.collecting = 0 := Multiset.card_eq_zero.mp (by unfold State.wg at hwg; omega)
  have hperm : (s.ended.map Prod.fst).Perm (P.queues.take s.next) := by
    rw [← Multiset.coe_eq_coe, honce, hcollecting, Multiset.zero_add]
  have hcut : s.next < P.queues.length →
      s.ctx.isSome ∨ ∃ p ∈ s.ended, p.2.dead P.isPoolDead = true := fun hlt =>
    (hstopped (hover.resolve_right (Nat.not_le.mpr hlt))).imp_right fun h => hdead (Or.inr h)
  cases hr
  refine ⟨herrs ▸ rfl, hperm, hcut, fun hnil => ?_⟩
  obtain ⟨hnil, hctx⟩ := append_eq_nil_iff.mp hnil
  have hok := ok_of_failures (herrs ▸ hnil)
  refine ⟨?_, hok⟩
  rwa [take_of_length_le] at hperm
  by_contra hlt
  rcases hcut (Nat.not_le.mp hlt) with hc | ⟨p, hp, hpd⟩
  · simp_all
  · simp [hok p hp, Outcome.dead] at hpd

/-- the pool dies under the first of two queues -/
theorem collect_pass_dead : ∃ s : State Nat Unit, Reach ⟨[1, 2], 1, fun _ => true⟩ s ∧
    returns ⟨[1, 2], 1, fun _ => true⟩ s = some [.queue 1 ()] ∧ (s.ended.map Prod.fst).Perm [1] := by
  have hr : Reach (ι := Nat) ⟨[1, 2], 1, fun _ : Unit => true⟩ _ := .of_follow
    [.dispatch, .collected 1 (.error ()), .cancelDispatch, .stop, .release, .done] rfl
  exact ⟨_, hr, rfl, ((collect_pass hr).2.2 _ rfl).2.1⟩

/-- what is left of a pass -/
def left (P : Pass ι ε) (s : State ι ε) : Nat :=
  5 * (P.queues.length - s.next) + 4 * s.collecting.card + 3 * s.cancelling + 2 * s.leaving + s.released +
    (if s.stopped then 0 else 1) + if s.ctx.isSome then 0 else 1

theorem left_lt (h : step P s ev = some t) : left P t < left P s := by
  unfold left
  cases ev with
  | cancel e =>
    obtain ⟨hc, h⟩ := Option.ite_none_left_eq_some.mp h
    cases h
    simp [hc]
  | dispatch =>
    rw [Dispatch.step] at h
    split at h
    next q hq =>
      obtain ⟨-, h⟩ := Option.ite_none_right_eq_some.mp h
      cases h
      have := (List.getElem?_eq_some_iff.mp hq).1
      simp only [Multiset.card_cons]
      omega
    next => cases h
  | stop =>
    obtain ⟨hstop, h⟩ := Option.ite_none_right_eq_some.mp h
    cases h
    simp [hstop.2.1]
  | collected q o =>
    obtain ⟨hq, h⟩ := Option.ite_none_right_eq_some.mp h
    cases h
    have := Multiset.card_erase_add_one hq
    simp only
    cases o.dead P.isPoolDead <;> simp <;> omega
  | _ =>
    obtain ⟨hn, h⟩ := Option.ite_none_right_eq_some.mp h
    cases h
    simp only
    omega

theorem collect_pass_ends (hmax : 0 < P.maxWorkers) (h : Reach P s) :
    ((returns P s).isSome ∨
      ∃ ev t, (∀ e, ev ≠ .cancel e) ∧ step P s ev = some t) ∧
    ∀ ev t, step P s ev = some t → left P t < left P s := by
  have hs := h.sound
  refine ⟨?_, fun ev t => left_lt⟩
  by_cases hc : s.collecting = 0
  · by_cases hk : 0 < s.cancelling
    · exact Or.inr ⟨.cancelDispatch, _, by simp, if_pos hk⟩
    by_cases hl : 0 < s.leaving
    · exact Or.inr ⟨.release, _, by simp, if_pos hl⟩
    by_cases hr : 0 < s.released
    · exact Or.inr ⟨.done, _, by simp, if_pos hr⟩
    have hcard : s.collecting.card = 0 := by rw [hc]; rfl
    by_cases hover : s.stopped = true ∨ P.queues.length ≤ s.next
    · refine Or.inl ?_
      unfold returns State.wg
      rw [if_pos ⟨hover, by omega⟩]
      rfl
    · obtain ⟨hgo, hlt⟩ := not_or.mp hover
      have hslots := hs.slots
      have hstep : (step P s .dispatch).isSome := by
        rw [Dispatch.step, getElem?_eq_getElem (Nat.not_le.mp hlt)]
        simp only
        rw [if_pos ⟨by simpa using hgo, by omega⟩]
        rfl
      exact Or.inr ⟨.dispatch, _, by simp, (Option.some_get hstep).symm⟩
  · obtain ⟨q, hq⟩ := Multiset.exists_mem_of_ne_zero hc
    exact Or.inr ⟨.collected q .ok, _, by simp, if_pos hq⟩

/-- of three queues one has failed and one is being collected; both slots are still taken -/
theorem collect_pass_ends_taken : ∃ s : State Nat Unit, Reach ⟨[1, 2, 3], 2, fun _ => false⟩ s ∧
    s.sem = 2 ∧ step ⟨[1, 2, 3], 2, fun _ => false⟩ s .dispatch = none ∧
    ∃ ev t, step ⟨[1, 2, 3], 2, fun _ => false⟩ s ev = some t ∧
      left ⟨[1, 2, 3], 2, fun _ => false⟩ t < left ⟨[1, 2, 3], 2, fun _ => false⟩ s := by
  have hr : Reach (ι := Nat) ⟨[1, 2, 3], 2, fun _ : Unit => false⟩ _ := .of_follow
    [.dispatch, .dispatch, .collected 1 (.error ())] rfl
  obtain ⟨hnext, hleft⟩ := collect_pass_ends Nat.two_pos hr
  obtain ⟨ev, t, -, ht⟩ := hnext.resolve_left (by decide)
  exact ⟨_, hr, rfl, rfl, ev, t, ht, hleft ev t ht⟩

end

end PgQueue.Dispatch
