import PgQueue.Consume.Model

/-!
# The budget for transient errors

A worker and an iterator share `fetchNext`, which retries a transient error.  The count of such errors
lives outside of it, in the loop that calls it, so it goes on from one fetch to the next.

* `Turn`                  one turn of the loop in `fetchNext`: what the receive returns, and what the
                          context says around it;
* `fetchNext`, `handlerWorker`, `messagesIter`   the source's loops over a list of turns;
* `Loop`                  the same as a machine that reads one outcome at a time;
* `fetchNext_reads`       a fetch is a few steps of it, so is a worker (`handlerWorker_eq`), and an
                          iterator is a worker (`messagesIter_eq`);
* `transient_budget`      **they end at the first error that is not transient, or at the sixth transient
                          one in a row, and hand over every message before it.**
-/

namespace PgQueue.Consume
open List

/-! ## the loops -/

/-- one turn of the loop: `ended` and `stopping` are the context at its head and where the error is looked
at, and `waits` is what `waitForWork` returns -/
structure Turn (μ : Type) where
  ended : Bool
  outcome : Except Err μ
  stopping : Bool
  waits : Bool

structure FetchOutcome (μ : Type) where
  msg : Option μ
  err : Option Err
deriving DecidableEq

def FetchOutcome.deliver {μ : Type} (o : FetchOutcome μ) : Bool := o.msg.isSome

/-- `fetchNext` at the end of the turns: it waits for the next one, or it has returned, with the count
and the turns that are left -/
inductive Fetched (μ : Type) where
  | waiting
  | returned (o : FetchOutcome μ) (fails : Nat) (rest : List (Turn μ))

section
variable {μ : Type}

/-- the outcome, `keepGoing`, and the count -/
def retryTransient (waits : Bool) (e : Err) (fails : Nat) : FetchOutcome μ × Bool × Nat :=
  if fails + 1 > maxConsumeTransientRetries then (⟨none, some e⟩, false, fails + 1)
  else if !waits then (⟨none, none⟩, false, fails + 1)
  else (⟨none, none⟩, true, fails + 1)

def fetchNext : List (Turn μ) → Nat → Fetched μ
  | [], _ => .waiting
  | t :: ts, fails =>
    if t.ended then .returned ⟨none, none⟩ fails (t :: ts)
    else
      match t.outcome with
      | .ok m => .returned ⟨some m, none⟩ 0 ts
      | .error e =>
        if isEmptySignal e then
          if !t.waits then .returned ⟨none, none⟩ 0 ts else fetchNext ts 0
        else if isStopSignal t.stopping e then .returned ⟨none, none⟩ fails ts
        else if isTransientError e then
          match retryTransient t.waits e fails with
          | (o, false, fails) => .returned o fails ts
          | (_, true, fails) => fetchNext ts fails
        else .returned ⟨none, some e⟩ fails ts

/-- what a worker has done: the messages it gave to its handler, whether it has returned, and the error it
gave to `setFatal` -/
structure Worked (μ : Type) where
  handled : List μ
  returned : Bool
  fatal : Option Err
deriving DecidableEq

/-- the loop of `handlerWorker`; a fetch that delivers has used up a turn, so that `fuel` above the number
of turns never ends it -/
def workerLoop : Nat → List (Turn μ) → Nat → Worked μ
  | 0, _, _ => ⟨[], false, none⟩
  | fuel + 1, ts, fails =>
    match fetchNext ts fails with
    | .waiting => ⟨[], false, none⟩
    | .returned o fails rest =>
      match o.msg with
      | none => ⟨[], true, o.err⟩
      | some m =>
        let w := workerLoop fuel rest fails
        ⟨m :: w.handled, w.returned, w.fatal⟩

def handlerWorker (ts : List (Turn μ)) : Worked μ := workerLoop (ts.length + 1) ts 0

/-- what an iterator has done: its calls of `yield`, with a message or with an error, and whether it has
returned -/
structure Ranged (μ : Type) where
  yields : List (Except Err μ)
  returned : Bool

/-- the loop of `messagesIter`; `more n` is what `yield` returns after `n` calls -/
def iterLoop (more : Nat → Bool) : Nat → Nat → List (Turn μ) → Nat → Ranged μ
  | 0, _, _, _ => ⟨[], false⟩
  | fuel + 1, n, ts, fails =>
    match fetchNext ts fails with
    | .waiting => ⟨[], false⟩
    | .returned o fails rest =>
      match o.msg with
      | none => ⟨o.err.toList.map .error, true⟩
      | some m =>
        if !more n then ⟨[.ok m], true⟩
        else
          let r := iterLoop more fuel (n + 1) rest fails
          ⟨.ok m :: r.yields, r.returned⟩

def messagesIter (more : Nat → Bool) (ts : List (Turn μ)) : Ranged μ :=
  iterLoop more (ts.length + 1) 0 ts 0

/-! ## one outcome at a time -/

/-- what has been handed over, the count, and the error that ended the loop -/
structure Loop (μ : Type) where
  handed : List μ
  fails : Nat
  error : Option Err
deriving DecidableEq

def Loop.start : Loop μ := ⟨[], 0, none⟩

def Loop.read (l : Loop μ) (o : Except Err μ) : Loop μ :=
  if l.error.isSome then l
  else
    match o with
    | .ok m => ⟨l.handed ++ [m], 0, none⟩
    | .error e =>
      if isEmptySignal e then ⟨l.handed, 0, none⟩
      else if isTransientError e then
        ⟨l.handed, l.fails + 1, if l.fails < maxConsumeTransientRetries then none else some e⟩
      else ⟨l.handed, l.fails, some e⟩

def Loop.readAll (l : Loop μ) (ts : List (Turn μ)) : Loop μ := ts.foldl (fun l t => l.read t.outcome) l

theorem Loop.read_of_error {l : Loop μ} {e : Err} (h : l.error = some e) (o : Except Err μ) : l.read o = l := by
  unfold Loop.read
  rw [h]
  rfl

theorem Loop.readAll_of_error {l : Loop μ} {e : Err} (h : l.error = some e) (ts : List (Turn μ)) :
    l.readAll ts = l := by
  induction ts with
  | nil => rfl
  | cons t ts ih =>
    show (l.read t.outcome).readAll ts = l
    rw [Loop.read_of_error h, ih]

/-- nobody cancels, and the error of a receive is not that of a context -/
structure Undisturbed (t : Turn μ) : Prop where
  live : t.ended = false
  going : t.stopping = false
  awake : t.waits = true
  plain : ∀ e, t.outcome = .error e → e.contextual = false

section
variable {t : Turn μ} {ts rest : List (Turn μ)} {e : Err} {m : μ} {fails n : Nat}

theorem fetchNext_message (hlive : t.ended = false) (hout : t.outcome = .ok m) :
    fetchNext (t :: ts) fails = .returned ⟨some m, none⟩ 0 ts := by
  rw [fetchNext, hlive, hout]
  rfl

theorem fetchNext_error (ts : List (Turn μ)) (fails n : Nat) (hlive : t.ended = false)
    (hwaits : t.waits = true) (hout : t.outcome = .error e) :
    (dispatch t.stopping e fails = .wait → fetchNext (t :: ts) fails = fetchNext ts 0) ∧
    (dispatch t.stopping e fails = .backoff n → fetchNext (t :: ts) fails = fetchNext ts n) ∧
    (dispatch t.stopping e fails = .report e →
      ∃ n, fetchNext (t :: ts) fails = .returned ⟨none, some e⟩ n ts) := by
  rw [fetchNext, hlive, hout]
  unfold dispatch retryTransient
  simp only [hwaits, Bool.false_eq_true, if_false, Bool.not_true]
  split_ifs
  · exact ⟨fun _ => rfl, False.elim, False.elim⟩
  · exact ⟨False.elim, False.elim, False.elim⟩
  · exact ⟨False.elim, False.elim, fun _ => ⟨fails + 1, rfl⟩⟩
  · refine ⟨False.elim, fun h => ?_, False.elim⟩
    cases h
    rfl
  · exact ⟨False.elim, False.elim, fun _ => ⟨fails, rfl⟩⟩

/-- a fetch with the count `fails`, as steps of the machine, whatever was handed over before -/
inductive Reads (ts : List (Turn μ)) (fails : Nat) : Fetched μ → Prop
  | waiting (h : ∀ ms, ∃ n, Loop.readAll ⟨ms, fails, none⟩ ts = ⟨ms, n, none⟩) : Reads ts fails .waiting
  | message {m : μ} {n : Nat} {rest : List (Turn μ)} (hrest : rest <:+ ts) (hlen : rest.length < ts.length)
      (h : ∀ ms, Loop.readAll ⟨ms, fails, none⟩ ts = Loop.readAll ⟨ms ++ [m], n, none⟩ rest) :
      Reads ts fails (.returned ⟨some m, none⟩ n rest)
  | failed {e : Err} {n : Nat} {rest : List (Turn μ)}
      (h : ∀ ms, ∃ n', Loop.readAll ⟨ms, fails, none⟩ ts = ⟨ms, n', some e⟩) :
      Reads ts fails (.returned ⟨none, some e⟩ n rest)

theorem Reads.cons {r : Fetched μ}
    (hread : ∀ ms, Loop.read ⟨ms, fails, none⟩ t.outcome = ⟨ms, n, none⟩) (h : Reads ts n r) :
    Reads (t :: ts) fails r := by
  have hall : ∀ ms, Loop.readAll ⟨ms, fails, none⟩ (t :: ts) = Loop.readAll ⟨ms, n, none⟩ ts := by
    intro ms
    show Loop.readAll (Loop.read ⟨ms, fails, none⟩ t.outcome) ts = _
    rw [hread]
  cases h with
  | waiting h => exact .waiting fun ms => hall ms ▸ h ms
  | message hrest hlen h =>
    exact .message (hrest.trans (suffix_cons t ts)) (Nat.lt_succ_of_lt hlen)
      fun ms => (hall ms).trans (h ms)
  | failed h => exact .failed fun ms => hall ms ▸ h ms

theorem Reads.last (hread : ∀ ms, ∃ k, Loop.read ⟨ms, fails, none⟩ t.outcome = ⟨ms, k, some e⟩) :
    Reads (t :: ts) fails (.returned ⟨none, some e⟩ n rest) := by
  refine .failed fun ms => ?_
  obtain ⟨k, hk⟩ := hread ms
  refine ⟨k, ?_⟩
  show Loop.readAll (Loop.read ⟨ms, fails, none⟩ t.outcome) ts = _
  rw [hk, Loop.readAll_of_error rfl]

theorem read_empty (ms : List μ) (hempty : isEmptySignal e = true) :
    Loop.read ⟨ms, fails, none⟩ (.error e) = ⟨ms, 0, none⟩ := if_pos hempty

theorem read_transient (ms : List μ) (hempty : isEmptySignal e = false) (htrans : isTransientError e = true) :
    Loop.read ⟨ms, fails, none⟩ (.error e) =
      ⟨ms, fails + 1, if fails < maxConsumeTransientRetries then none else some e⟩ := by
  show (if isEmptySignal e = true then _ else if isTransientError e = true then _ else _) = _
  rw [hempty, htrans]
  rfl

theorem read_other (ms : List μ) (hempty : isEmptySignal e = false) (htrans : isTransientError e = false) :
    Loop.read ⟨ms, fails, none⟩ (.error e) = ⟨ms, fails, some e⟩ := by
  show (if isEmptySignal e = true then _ else if isTransientError e = true then _ else _) = _
  rw [hempty, htrans]
  rfl

/-- **A fetch is a few steps of the machine.** -/
theorem fetchNext_reads (ts : List (Turn μ)) (h : ∀ t ∈ ts, Undisturbed t) (fails : Nat) :
    Reads ts fails (fetchNext ts fails) := by
  induction ts generalizing fails with
  | nil => exact .waiting fun ms => ⟨fails, rfl⟩
  | cons t ts ih =>
    have ht := h t mem_cons_self
    have hts := ih fun t' ht' => h t' (mem_cons_of_mem t ht')
    cases hout : t.outcome with
    | ok m =>
      rw [fetchNext_message ht.live hout]
      refine .message (suffix_cons t ts) (Nat.lt_succ_self _) fun ms => ?_
      show Loop.readAll (Loop.read ⟨ms, fails, none⟩ t.outcome) ts = _
      rw [hout]
      rfl
    | error e =>
      obtain ⟨hwait, hbackoff, hreport⟩ :=
        fetchNext_error ts fails (fails + 1) ht.live ht.awake hout
      have hstop : isStopSignal t.stopping e = false := by
        unfold isStopSignal
        rw [ht.going, ht.plain e hout]
        rfl
      unfold dispatch at hwait hbackoff hreport
      rw [hstop] at hwait hbackoff hreport
      cases hempty : isEmptySignal e with
      | true =>
        rw [hempty] at hwait
        rw [hwait rfl]
        refine .cons (fun ms => ?_) (hts 0)
        rw [hout, read_empty ms hempty]
      | false =>
        rw [hempty] at hbackoff hreport
        cases htrans : isTransientError e with
        | false =>
          rw [htrans] at hreport
          obtain ⟨n, hn⟩ := hreport rfl
          rw [hn]
          refine .last fun ms => ⟨fails, ?_⟩
          rw [hout, read_other ms hempty htrans]
        | true =>
          rw [htrans] at hbackoff hreport
          by_cases hfew : fails < maxConsumeTransientRetries
          · rw [hbackoff (if_neg (Nat.not_lt.mpr hfew))]
            refine .cons (fun ms => ?_) (hts (fails + 1))
            rw [hout, read_transient ms hempty htrans, if_pos hfew]
          · obtain ⟨n, hn⟩ := hreport (if_pos (Nat.lt_succ_of_le (Nat.le_of_not_lt hfew)))
            rw [hn]
            refine .last fun ms => ⟨fails + 1, ?_⟩
            rw [hout, read_transient ms hempty htrans, if_neg hfew]

end

/-- **So is a worker.** -/
theorem workerLoop_eq (fuel : Nat) (ts : List (Turn μ)) (h : ∀ t ∈ ts, Undisturbed t)
    (hf : ts.length < fuel) (fails : Nat) (ms : List μ) :
    (Loop.readAll ⟨ms, fails, none⟩ ts).handed = ms ++ (workerLoop fuel ts fails).handled ∧
      (workerLoop fuel ts fails).fatal = (Loop.readAll ⟨ms, fails, none⟩ ts).error ∧
      (workerLoop fuel ts fails).returned = (Loop.readAll ⟨ms, fails, none⟩ ts).error.isSome := by
  induction fuel generalizing ts fails ms with
  | zero => exact absurd hf (Nat.not_lt_zero _)
  | succ fuel ih =>
    have hreads := fetchNext_reads ts h fails
    rw [workerLoop]
    cases hfetch : fetchNext ts fails with
    | waiting =>
      rw [hfetch] at hreads
      cases hreads with
      | waiting h =>
        obtain ⟨n, hn⟩ := h ms
        rw [hn]
        exact ⟨(append_nil ms).symm, rfl, rfl⟩
    | returned o n rest =>
      rw [hfetch] at hreads
      cases hreads with
      | message hrest hlen hread =>
        have hsub : ∀ t ∈ rest, Undisturbed t := fun t ht => h t (hrest.subset ht)
        obtain ⟨hms, hfatal, hret⟩ := ih rest hsub (by omega) n (ms ++ [_])
        rw [hread]
        refine ⟨hms.trans ?_, hfatal, hret⟩
        rw [append_assoc]
        rfl
      | failed hread =>
        obtain ⟨n', hn'⟩ := hread ms
        rw [hn']
        exact ⟨(append_nil ms).symm, rfl, rfl⟩

theorem handlerWorker_eq (ts : List (Turn μ)) (h : ∀ t ∈ ts, Undisturbed t) :
    handlerWorker ts = ⟨(Loop.start.readAll ts).handed, (Loop.start.readAll ts).error.isSome,
      (Loop.start.readAll ts).error⟩ := by
  obtain ⟨hhanded, hfatal, hret⟩ := workerLoop_eq (ts.length + 1) ts h (Nat.lt_succ_self _) 0 []
  unfold handlerWorker Loop.start
  rw [← hret, hhanded, ← hfatal]
  rfl

theorem iterLoop_eq (fuel n : Nat) (ts : List (Turn μ)) (fails : Nat) :
    iterLoop (fun _ => true) fuel n ts fails =
      ⟨(workerLoop fuel ts fails).handled.map .ok ++ (workerLoop fuel ts fails).fatal.toList.map .error,
        (workerLoop fuel ts fails).returned⟩ := by
  induction fuel generalizing n ts fails with
  | zero => rfl
  | succ fuel ih =>
    rw [iterLoop, workerLoop]
    cases fetchNext ts fails with
    | waiting => rfl
    | returned o fails rest =>
      obtain ⟨msg, err⟩ := o
      cases msg with
      | none => rfl
      | some m =>
        show Ranged.mk (.ok m :: (iterLoop (fun _ => true) fuel (n + 1) rest fails).yields) _ = _
        rw [ih]
        rfl

theorem messagesIter_eq (ts : List (Turn μ)) :
    messagesIter (fun _ => true) ts =
      ⟨(handlerWorker ts).handled.map .ok ++ (handlerWorker ts).fatal.toList.map .error,
        (handlerWorker ts).returned⟩ := iterLoop_eq _ _ _ _

/-! ## over a stream of outcomes -/

def isTransient : Except Err μ → Bool
  | .ok _ => false
  | .error e => !isEmptySignal e && isTransientError e

def isOther : Except Err μ → Bool
  | .ok _ => false
  | .error e => !isEmptySignal e && !isTransientError e

theorem isTransient_error (e : Err) :
    isTransient (.error e : Except Err μ) = (!isEmptySignal e && isTransientError e) := rfl

theorem isOther_error (e : Err) :
    isOther (.error e : Except Err μ) = (!isEmptySignal e && !isTransientError e) := rfl

/-- an error that is not transient, or a transient one right after five others -/
def Fatal (f : Nat → Turn μ) (n : Nat) : Prop :=
  isOther (f n).outcome = true ∨
    isTransient (f n).outcome = true ∧ 5 ≤ n ∧ ∀ j, n - 5 ≤ j → j < n → isTransient (f j).outcome = true

def first (f : Nat → Turn μ) (k : Nat) : List (Turn μ) := (List.range k).map f

def messages (f : Nat → Turn μ) (k : Nat) : List μ :=
  (List.range k).filterMap fun i => (f i).outcome.toOption

/-- how many transient errors are directly before the `n`-th outcome -/
def streak (f : Nat → Turn μ) : Nat → Nat
  | 0 => 0
  | n + 1 => if isTransient (f n).outcome then streak f n + 1 else 0

section
variable {f : Nat → Turn μ} {n k i : Nat}

theorem le_streak_iff (c : Nat) :
    c ≤ streak f n ↔ c ≤ n ∧ ∀ j, n - c ≤ j → j < n → isTransient (f j).outcome = true := by
  induction n generalizing c with
  | zero =>
    exact ⟨fun h => ⟨h, fun j _ hj => absurd hj (Nat.not_lt_zero j)⟩, And.left⟩
  | succ n ih =>
    unfold streak
    cases c with
    | zero => exact ⟨fun _ => ⟨Nat.zero_le _, fun j hj hlt => by omega⟩, fun _ => Nat.zero_le _⟩
    | succ c =>
      split
      · rename_i hlast
        rw [Nat.add_le_add_iff_right, Nat.add_le_add_iff_right, ih]
        refine and_congr_right fun _ => ⟨fun h j hj hlt => ?_, fun h j hj hlt => h j (by omega) (by omega)⟩
        rcases Nat.lt_succ_iff_lt_or_eq.mp hlt with hlt | rfl
        · exact h j (by omega) hlt
        · exact hlast
      · rename_i hlast
        exact ⟨fun h => absurd h (Nat.not_succ_le_zero c),
          fun h => absurd (h.2 n (by omega) (Nat.lt_succ_self n)) hlast⟩

theorem fatal_iff : Fatal f n ↔
    isOther (f n).outcome = true ∨ isTransient (f n).outcome = true ∧ 5 ≤ streak f n := by
  unfold Fatal
  rw [le_streak_iff]

theorem first_succ (f : Nat → Turn μ) (k : Nat) : first f (k + 1) = first f k ++ [f k] := by
  unfold first
  rw [range_succ, map_append, map_singleton]

theorem messages_succ (f : Nat → Turn μ) (k : Nat) :
    messages f (k + 1) = messages f k ++ (f k).outcome.toOption.toList := by
  unfold messages
  rw [range_succ, filterMap_append]
  rfl

theorem Loop.readAll_first_succ (l : Loop μ) (f : Nat → Turn μ) (k : Nat) :
    l.readAll (first f (k + 1)) = (l.readAll (first f k)).read (f k).outcome := by
  unfold Loop.readAll
  rw [first_succ, foldl_append]
  rfl

theorem read_of_not_fatal (h : ¬Fatal f n) (ms : List μ) :
    Loop.read ⟨ms, streak f n, none⟩ (f n).outcome =
      ⟨ms ++ (f n).outcome.toOption.toList, streak f (n + 1), none⟩ := by
  rw [fatal_iff] at h
  rw [streak]
  cases hout : (f n).outcome with
  | ok m => rfl
  | error e =>
    rw [hout, isOther_error, isTransient_error] at h
    rw [isTransient_error]
    show _ = Loop.mk (ms ++ []) _ none
    rw [append_nil]
    cases hempty : isEmptySignal e with
    | true =>
      rw [read_empty ms hempty]
      rfl
    | false =>
      rw [hempty] at h
      cases htrans : isTransientError e with
      | false =>
        rw [htrans] at h
        exact absurd (Or.inl rfl) h
      | true =>
        rw [htrans] at h
        have hfew : streak f n < maxConsumeTransientRetries :=
          Nat.lt_of_not_le fun hle => h (Or.inr ⟨rfl, hle⟩)
        rw [read_transient ms hempty htrans, if_pos hfew]
        rfl

theorem read_of_fatal (h : Fatal f n) (ms : List μ) :
    ∃ e c, (f n).outcome = .error e ∧ Loop.read ⟨ms, streak f n, none⟩ (f n).outcome = ⟨ms, c, some e⟩ := by
  rw [fatal_iff] at h
  cases hout : (f n).outcome with
  | ok m =>
    rw [hout] at h
    rcases h with h | h
    · cases h
    · cases h.1
  | error e =>
    rw [hout, isOther_error, isTransient_error] at h
    refine ⟨e, ?_⟩
    cases hempty : isEmptySignal e with
    | true =>
      rw [hempty] at h
      rcases h with h | h
      · cases h
      · cases h.1
    | false =>
      rw [hempty] at h
      cases htrans : isTransientError e with
      | false => exact ⟨streak f n, rfl, read_other ms hempty htrans⟩
      | true =>
        rw [htrans] at h
        have hmany : ¬streak f n < maxConsumeTransientRetries := by
          rcases h with h | h
          · cases h
          · exact Nat.not_lt.mpr h.2
        refine ⟨streak f n + 1, rfl, ?_⟩
        rw [read_transient ms hempty htrans, if_neg hmany]

theorem readAll_running (h : ∀ i < k, ¬Fatal f i) :
    Loop.start.readAll (first f k) = ⟨messages f k, streak f k, none⟩ := by
  induction k with
  | zero => rfl
  | succ k ih =>
    rw [Loop.readAll_first_succ, ih fun i hi => h i (Nat.lt_succ_of_lt hi), messages_succ]
    exact read_of_not_fatal (h k (Nat.lt_succ_self k)) _

theorem readAll_ended (hi : Fatal f i) (hleast : ∀ j < i, ¬Fatal f j) (hlt : i < k) :
    ∃ e c, (f i).outcome = .error e ∧ Loop.start.readAll (first f k) = ⟨messages f i, c, some e⟩ := by
  induction k with
  | zero => exact absurd hlt (Nat.not_lt_zero i)
  | succ k ih =>
    rw [Loop.readAll_first_succ]
    rcases Nat.lt_succ_iff_lt_or_eq.mp hlt with hlt | rfl
    · obtain ⟨e, c, hout, hread⟩ := ih hlt
      exact ⟨e, c, hout, by rw [hread, Loop.read_of_error rfl]⟩
    · rw [readAll_running hleast]
      exact read_of_fatal hi _

end

/-- **The budget for transient errors.**  Nobody cancels, and no error is that of a context.  After any
number `k` of outcomes a worker, and an iterator that is ranged over, has handed over every message, once
and in order, and goes on, if none of the outcomes was fatal; at the first that was it has stopped, with
this error, and has handed over the messages before it. -/
theorem transient_budget (f : Nat → Turn μ) (hf : ∀ n, Undisturbed (f n)) (k : Nat) :
    ((∀ i < k, ¬Fatal f i) →
      handlerWorker (first f k) = ⟨messages f k, false, none⟩ ∧
      messagesIter (fun _ => true) (first f k) = ⟨(messages f k).map .ok, false⟩) ∧
    ∀ i < k, Fatal f i → (∀ j < i, ¬Fatal f j) →
      ∃ e, (f i).outcome = .error e ∧
        handlerWorker (first f k) = ⟨messages f i, true, some e⟩ ∧
        messagesIter (fun _ => true) (first f k) = ⟨(messages f i).map .ok ++ [.error e], true⟩ := by
  have hquiet : ∀ t ∈ first f k, Undisturbed t := by
    intro t ht
    obtain ⟨n, _, rfl⟩ := mem_map.mp ht
    exact hf n
  have hworker := handlerWorker_eq (first f k) hquiet
  refine ⟨fun hnone => ?_, fun i hi hfatal hleast => ?_⟩
  · rw [readAll_running hnone] at hworker
    rw [messagesIter_eq, hworker]
    exact ⟨rfl, by simp⟩
  · obtain ⟨e, c, hout, hread⟩ := readAll_ended hfatal hleast hi
    rw [hread] at hworker
    rw [messagesIter_eq, hworker]
    exact ⟨e, hout, rfl, rfl⟩

end

def conflict : Err := .library "could not serialize access" (some pgSerializationFailure) []

/-- conflicts, with a message in the middle: the count starts anew behind it -/
def contended (n : Nat) : Turn Nat := ⟨false, if n = 3 then .ok 42 else .error conflict, false, true⟩

theorem undisturbed_contended (n : Nat) : Undisturbed (contended n) := by
  refine ⟨rfl, rfl, rfl, fun e he => ?_⟩
  unfold contended at he
  split at he
  · cases he
  · cases he
    rfl

theorem transient_budget_contended :
    handlerWorker (first contended 9) = ⟨[42], false, none⟩ ∧
    ∃ e, e = conflict ∧ handlerWorker (first contended 10) = ⟨[42], true, some e⟩ := by
  have hrunning : ∀ i < 9, ¬Fatal contended i := by
    intro i hi
    rw [fatal_iff]
    revert i
    decide
  have hfatal : Fatal contended 9 := by
    rw [fatal_iff]
    decide
  obtain ⟨e, he, hworker, _⟩ :=
    (transient_budget contended undisturbed_contended 10).2 9 (by decide) hfatal hrunning
  refine ⟨((transient_budget contended undisturbed_contended 9).1 hrunning).1, e, ?_, hworker⟩
  cases he
  rfl

end PgQueue.Consume
