import Mathlib.Data.Finset.Basic
import Mathlib.Logic.Function.Basic
import PgQueue.Process.Runs

/-!
# The notifier

The notifier gives each notification channel a waker on which consume loops wait, and registers the
channel with the Listener in the background.  Its maps are guarded by one mutex, which is not held
during the calls of the Listener; those are atomic here, on a set of active channels.

* `wakeChan`        the section of a consume loop, with the goroutines it starts;
* `confirmListen`   the section of that goroutine after its `Listen` has returned;
* `forget`          the section of a queue deletion, before its `Unlisten`;
* `Ev`, `step`      these sections and the calls of the Listener, one at a time.
-/

namespace PgQueue.Notifier

/-- a `confirmListen` goroutine: the waker it was given, and what its `Listen` returned (`true` for
nil), if it has -/
structure Confirm where
  channel : String
  waker : Nat
  listened : Option Bool
deriving DecidableEq, Repr

/-- the channel that `wait` returned: one generation of a waker -/
structure Wake where
  waker : Nat
  gen : Nat
deriving DecidableEq, Repr

/-- a waker is a number, its place in `gens`, where its signals are counted; `active` is the set of
the Listener, `confirming` and `forgetting` are the calls in progress; `pumpOnce` tells whether the pump
was started -/
structure State where
  wakers : String → Option Nat
  listening : Finset String
  listenInFlight : Finset String
  listenFailures : String → Nat
  closed : Bool
  pumpOnce : Bool
  gens : List Nat
  active : Finset String
  confirming : List Confirm
  forgetting : List String

def newNotifier : State := ⟨fun _ => none, ∅, ∅, fun _ => 0, false, false, [], ∅, [], []⟩

/-! ## wakers -/

def State.gen (s : State) (w : Nat) : Nat := s.gens.getD w 0

def State.wait (s : State) (w : Nat) : Wake := ⟨w, s.gen w⟩

def State.signalled (s : State) (k : Wake) : Prop := k.gen < s.gen k.waker

instance (s : State) (k : Wake) : Decidable (s.signalled k) := by
  unfold State.signalled
  infer_instance

/-- `signal` closes the channel of the current generation and makes the next -/
def signal (w : Nat) (s : State) : State := { s with gens := s.gens.modify w (· + 1) }

/-! ## sections under the mutex -/

/-- the waker of the channel, a new one if it has none -/
def installWaker (channel : String) (s : State) : Nat × State :=
  match s.wakers channel with
  | some w => (w, s)
  | none =>
    (s.gens.length,
      { s with
        wakers := Function.update s.wakers channel (some s.gens.length)
        gens := s.gens ++ [0] })

theorem wakers_installWaker (ch : String) (s : State) :
    (installWaker ch s).2.wakers ch = some (installWaker ch s).1 := by
  unfold installWaker
  split
  next w hw => exact hw
  next => exact Function.update_self _ _ _

/-- start a `confirmListen`, unless the channel is confirmed or one is on its way -/
def startConfirm (channel : String) (w : Nat) (s : State) : State :=
  if channel ∉ s.listening ∧ channel ∉ s.listenInFlight then
    { s with
      listenInFlight := insert channel s.listenInFlight
      confirming := s.confirming ++ [⟨channel, w, none⟩] }
  else s

def wakeChan (channel : String) (s : State) : Option Wake × State :=
  if s.closed then (none, s)
  else
    let (w, s) := installWaker channel s
    let s := startConfirm channel w { s with pumpOnce := true }
    (some (s.wait w), s)

/-- the section of `confirmListen`: a goroutine whose waker is no longer that of the channel changes
nothing -/
def confirmListen (c : Confirm) (ok : Bool) (s : State) : State :=
  if s.wakers c.channel ≠ some c.waker then s
  else
    let s := { s with listenInFlight := s.listenInFlight.erase c.channel }
    if ok then
      { s with
        listening := insert c.channel s.listening
        listenFailures := Function.update s.listenFailures c.channel 0 }
    else
      { s with
        listenFailures :=
          Function.update s.listenFailures c.channel (s.listenFailures c.channel + 1) }

def forget (channel : String) (s : State) : State :=
  { s with
    wakers := Function.update s.wakers channel none
    listening := s.listening.erase channel
    listenInFlight := s.listenInFlight.erase channel
    listenFailures := Function.update s.listenFailures channel 0
    forgetting := if s.closed then s.forgetting else s.forgetting ++ [channel] }

/-! ## interleavings -/

inductive Ev where
  | wakeChan (channel : String)
  /-- the `Listen` of a `confirmListen`, and whether it returned nil -/
  | listen (i : Nat) (ok : Bool)
  | confirmListen (i : Nat)
  | forget (channel : String)
  /-- the `Unlisten` of a `forget` -/
  | unlisten (i : Nat)
  /-- a signal of the pump, or of `wakeAll` -/
  | signal (w : Nat)
  | close
deriving DecidableEq, Repr

def step (s : State) : Ev → Option State
  | .wakeChan ch => some (wakeChan ch s).2
  | .listen i ok =>
    match s.confirming[i]? with
    | some ⟨ch, w, none⟩ =>
      some { s with
        confirming := s.confirming.set i ⟨ch, w, some ok⟩
        active := if ok then insert ch s.active else s.active }
    | _ => none
  | .confirmListen i =>
    match s.confirming[i]? with
    | some ⟨ch, w, some ok⟩ =>
      some (confirmListen ⟨ch, w, some ok⟩ ok { s with confirming := s.confirming.eraseIdx i })
    | _ => none
  | .forget ch => some (forget ch s)
  | .unlisten i =>
    match s.forgetting[i]? with
    | some ch =>
      some { s with forgetting := s.forgetting.eraseIdx i, active := s.active.erase ch }
    | none => none
  | .signal w => some (signal w s)
  | .close => some { s with closed := true }

inductive Moves (s : State) : Ev → State → Prop
  | wakeChan (ch : String) : Moves s (.wakeChan ch) (wakeChan ch s).2
  | listen {i ch w} (ok : Bool) (hi : s.confirming[i]? = some ⟨ch, w, none⟩) : Moves s (.listen i ok)
      { s with
        confirming := s.confirming.set i ⟨ch, w, some ok⟩
        active := if ok then insert ch s.active else s.active }
  | confirmListen {i ch w ok} (hi : s.confirming[i]? = some ⟨ch, w, some ok⟩) :
      Moves s (.confirmListen i)
        (confirmListen ⟨ch, w, some ok⟩ ok { s with confirming := s.confirming.eraseIdx i })
  | forget (ch : String) : Moves s (.forget ch) (forget ch s)
  | unlisten {i ch} (hi : s.forgetting[i]? = some ch) : Moves s (.unlisten i)
      { s with forgetting := s.forgetting.eraseIdx i, active := s.active.erase ch }
  | signal (w : Nat) : Moves s (.signal w) (signal w s)
  | close : Moves s .close { s with closed := true }

theorem moves_of_step {s t : State} {e : Ev} (h : step s e = some t) : Moves s e t := by
  cases e with
  | wakeChan ch =>
    cases h
    exact .wakeChan ch
  | listen i ok =>
    simp only [step] at h
    split at h
    next hi =>
      cases h
      exact .listen ok hi
    next => cases h
  | confirmListen i =>
    simp only [step] at h
    split at h
    next hi =>
      cases h
      exact .confirmListen hi
    next => cases h
  | forget ch =>
    cases h
    exact .forget ch
  | unlisten i =>
    simp only [step] at h
    split at h
    next hi =>
      cases h
      exact .unlisten hi
    next => cases h
  | signal w =>
    cases h
    exact .signal w
  | close =>
    cases h
    exact .close

def State.quiet (s : State) : Bool := s.confirming = [] ∧ s.forgetting = []

/-- what the notifier takes for confirmed, the Listener listens to -/
def Agrees (s : State) : Prop := s.quiet = true → ∀ ch ∈ s.listening, ch ∈ s.active

instance (s : State) : Decidable (Agrees s) := by
  unfold Agrees
  infer_instance

end PgQueue.Notifier
