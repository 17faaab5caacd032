import Mathlib.Order.Basic
import Mathlib.Data.List.Nodup

/-!
# Leases with fencing tokens: the machine of one key, and systems of keys

A work item lives under a key.  It is handed out under a LEASE: a fencing token that is minted
for the delivery and a deadline.  The holder of the token settles the item (`ack`, `nack`) or
prolongs the lease; after the deadline the item may be taken back, which counts as an attempt;
an item without an attempt left is buried.

* `Slot`      what is stored under a key;
* `Event`     what the outside sees of one key;
* `Step`      one transition of a key, with its events and the attempt counts of buried items;
* `Path`      several transitions at one clock value;
* `System`    a slot for every key, the buried items, the number of tokens minted so far;
* `Txn`       one atomic transaction of a system: a path for every key, at most one delivery;
* `Run`       a run of transactions at a clock that never goes back, with its history.

The machine says which transitions are allowed (a delivered token is new, a lease is taken back
only after its deadline, ...).  What follows from that over whole runs is in
`PgQueue.Lease.Invariants`; a program inherits it as soon as its transactions are `Txn`s.
-/

namespace Lease
open List

inductive Phase where
  | pending
  | processing
  | done
deriving DecidableEq, Repr

/-- a work item: `attempts` counts the deliveries that failed, `cap` bounds them -/
@[ext] structure Slot (γ τ : Type) where
  phase : Phase
  attempts : Nat
  cap : Nat
  token : Option γ
  deadline : Option τ
  doneAt : Option τ
deriving DecidableEq, Repr

inductive Event (γ τ : Type) where
  | published
  | replayed
  | delivered (c : γ) (T : τ)
  | extended (c : γ) (T : τ)
  | acked (c : γ)
  | nacked (c : γ)
  | wiped
deriving DecidableEq, Repr

section
variable {γ τ : Type}

namespace Slot

/-! ## what a transition writes -/

def fresh (cap : Nat) : Slot γ τ := ⟨.pending, 0, cap, none, none, none⟩

def lease (c : γ) (T : τ) (attempts : Nat) (l : Slot γ τ) : Slot γ τ :=
  { l with phase := .processing, attempts := attempts, token := some c, deadline := some T }

def release (l : Slot γ τ) : Slot γ τ :=
  { l with phase := .pending, attempts := l.attempts + 1, token := none, deadline := none }

def finish (now : τ) (l : Slot γ τ) : Slot γ τ := { l with phase := .done, doneAt := some now }

def prolong (T : τ) (l : Slot γ τ) : Slot γ τ := { l with deadline := some T }

def replay (l : Slot γ τ) : Slot γ τ := fresh l.cap

/-! ## what a transition asks for -/

def HeldBy (c : γ) (l : Slot γ τ) : Prop := l.phase = .processing ∧ l.token = some c

def Expired [LT τ] (now : τ) (l : Slot γ τ) : Prop :=
  l.phase = .processing ∧ ∃ d, l.deadline = some d ∧ d < now

def Live [LT τ] (now : τ) (l : Slot γ τ) : Prop :=
  l.phase = .processing ∧ ∃ d, l.deadline = some d ∧ now < d

end Slot

/-! ## transitions -/

section
variable [LT τ] (mint : Nat → γ) (cap : Nat) (now : τ)

/-- one transition: the number of tokens minted and the slot before, the events, the attempt
counts of what is buried, the slot and the number of tokens after -/
inductive Step : Nat → Option (Slot γ τ) → List (Event γ τ) → List Nat → Option (Slot γ τ) →
    Nat → Prop
  | publish (n : Nat) : Step n none [.published] [] (some (.fresh cap)) n
  | deliver {n i : Nat} {l : Slot γ τ} {T : τ} (hp : l.phase = .pending) (hi : n ≤ i) :
      Step n (some l) [.delivered (mint i) T] [] (some (l.lease (mint i) T l.attempts)) (i + 1)
  | redeliver {n i : Nat} {l : Slot γ τ} {T : τ} (he : l.Expired now)
      (hc : l.attempts + 1 ≤ l.cap) (hi : n ≤ i) :
      Step n (some l) [.delivered (mint i) T] [] (some (l.lease (mint i) T (l.attempts + 1)))
        (i + 1)
  | postpone {n : Nat} {l : Slot γ τ} (he : l.Expired now) (hc : l.attempts + 1 ≤ l.cap) :
      Step n (some l) [] [] (some l.release) n
  | ack {n : Nat} {l : Slot γ τ} {c : γ} (hh : l.HeldBy c) :
      Step n (some l) [.acked c] [] (some (l.finish now)) n
  | nack {n : Nat} {l : Slot γ τ} {c : γ} (hh : l.HeldBy c) (hc : l.attempts + 1 ≤ l.cap) :
      Step n (some l) [.nacked c] [] (some l.release) n
  | nackLast {n : Nat} {l : Slot γ τ} {c : γ} (hh : l.HeldBy c) (hc : l.cap < l.attempts + 1) :
      Step n (some l) [.nacked c] [l.attempts + 1] none n
  | bury {n : Nat} {l : Slot γ τ} (he : l.Expired now) (hc : l.cap < l.attempts + 1) :
      Step n (some l) [] [l.attempts + 1] none n
  | extend {n : Nat} {l : Slot γ τ} {c : γ} {T : τ} (hh : l.HeldBy c) (hT : now < T) :
      Step n (some l) [.extended c T] [] (some (l.prolong T)) n
  | replay {n : Nat} {l : Slot γ τ} (hp : l.phase ≠ .processing) :
      Step n (some l) [.replayed] [] (some l.replay) n
  | drop {n : Nat} {l : Slot γ τ} (hl : ¬ l.Live now) : Step n (some l) [] [] none n
  | wipe {n : Nat} (l : Slot γ τ) : Step n (some l) [.wiped] [] none n

/-- transitions one after another at one clock value; tokens may be minted for other keys in
between -/
inductive Path : Nat → Option (Slot γ τ) → List (Event γ τ) → List Nat → Option (Slot γ τ) →
    Nat → Prop
  | refl (n : Nat) (o : Option (Slot γ τ)) : Path n o [] [] o n
  | tail {n m n' : Nat} {o o' o'' : Option (Slot γ τ)} {es es' : List (Event γ τ)}
      {ds ds' : List Nat} (hp : Path n o es ds o' m) (hs : Step mint cap now m o' es' ds' o'' n') :
      Path n o (es ++ es') (ds ++ ds') o'' n'
  | wait {n m n' : Nat} {o o' : Option (Slot γ τ)} {es : List (Event γ τ)} {ds : List Nat}
      (hp : Path n o es ds o' m) (hm : m ≤ n') : Path n o es ds o' n'

variable {mint cap now} {n n' : Nat} {o o' : Option (Slot γ τ)}

theorem Step.le {es ds} (h : Step mint cap now n o es ds o' n') : n ≤ n' := by
  cases h with
  | deliver hp hi => exact Nat.le_succ_of_le hi
  | redeliver he hc hi => exact Nat.le_succ_of_le hi
  | _ => exact Nat.le_refl _

theorem Path.le {es ds} (h : Path mint cap now n o es ds o' n') : n ≤ n' := by
  induction h with
  | refl o => exact Nat.le_refl _
  | tail hp hs ih => exact Nat.le_trans ih hs.le
  | wait hp hm ih => exact Nat.le_trans ih hm

theorem Path.single {es ds} (h : Step mint cap now n o es ds o' n') :
    Path mint cap now n o es ds o' n' :=
  Path.tail (Path.refl n o) h

theorem Path.trans {m : Nat} {o'' : Option (Slot γ τ)} {es es' ds ds'}
    (h : Path mint cap now n o es ds o' m) (h' : Path mint cap now m o' es' ds' o'' n') :
    Path mint cap now n o (es ++ es') (ds ++ ds') o'' n' := by
  induction h' with
  | refl o' =>
    rw [append_nil, append_nil]
    exact h
  | tail hp hs ih =>
    rw [← append_assoc, ← append_assoc]
    exact Path.tail (ih h) hs
  | wait hp hm ih => exact Path.wait (ih h) hm

end

/-! ## systems of keys -/

/-- the events of a history that are about one key -/
def about {κ : Type} [DecidableEq κ] (k : κ) (h : List (κ × Event γ τ)) : List (Event γ τ) :=
  h.filterMap fun e => if e.1 = k then some e.2 else none

def minted {κ : Type} (h : List (κ × Event γ τ)) : List γ :=
  h.filterMap fun e => match e.2 with
    | .delivered c _ => some c
    | _ => none

/-- `dead k a`: an item with `a` attempts was buried under the key `k` and is still there -/
structure System (κ γ τ : Type) where
  slot : κ → Option (Slot γ τ)
  dead : κ → Nat → Prop
  seq : Nat

section
variable {κ : Type} [DecidableEq κ] {k : κ} {h : List (κ × Event γ τ)}

theorem about_append (k : κ) (h h' : List (κ × Event γ τ)) :
    about k (h ++ h') = about k h ++ about k h' := filterMap_append

theorem about_singleton_self (k : κ) (e : Event γ τ) : about k [(k, e)] = [e] := by
  simp [about]

theorem about_singleton_ne {k' : κ} (hk : k' ≠ k) (e : Event γ τ) : about k [(k', e)] = [] := by
  simp [about, hk]

theorem about_events_self (k : κ) (es : List (Event γ τ)) :
    about k (es.map fun e => (k, e)) = es := by
  induction es with
  | nil => rfl
  | cons e es ih =>
    show about k ([(k, e)] ++ es.map fun e => (k, e)) = [e] ++ es
    rw [about_append, ih, about_singleton_self]

theorem about_events_ne {k' : κ} (hk : k' ≠ k) (es : List (Event γ τ)) :
    about k (es.map fun e => (k', e)) = [] := by
  induction es with
  | nil => rfl
  | cons e es ih =>
    show about k ([(k', e)] ++ es.map fun e => (k', e)) = []
    rw [about_append, ih, about_singleton_ne hk]
    rfl

theorem mem_about {e : Event γ τ} : e ∈ about k h ↔ (k, e) ∈ h := by
  simp only [about, mem_filterMap]
  constructor
  · rintro ⟨⟨k', e'⟩, he, hs⟩
    by_cases hk : k' = k
    · rw [if_pos hk, Option.some_inj] at hs
      exact hk ▸ hs ▸ he
    · rw [if_neg hk] at hs
      cases hs
  · intro he
    exact ⟨(k, e), he, if_pos rfl⟩

theorem ne_of_mem_about {e e' : Event γ τ} (he : e ∈ about k h) (hne : (k, e') ∉ h) : e ≠ e' :=
  fun heq => hne (mem_about.mp (heq ▸ he))

omit [DecidableEq κ] in
theorem minted_append (h h' : List (κ × Event γ τ)) :
    minted (h ++ h') = minted h ++ minted h' := filterMap_append

omit [DecidableEq κ] in
theorem mem_minted {c : γ} : c ∈ minted h ↔ ∃ k T, (k, Event.delivered c T) ∈ h := by
  simp only [minted, mem_filterMap]
  constructor
  · rintro ⟨⟨k, e⟩, he, hs⟩
    cases e with
    | delivered c' T =>
      cases hs
      exact ⟨k, T, he⟩
    | _ => cases hs
  · rintro ⟨k, T, he⟩
    exact ⟨_, he, rfl⟩

variable [LT τ]

/-- the transitions of every key in one part of a transaction -/
structure Moves (mint : Nat → γ) (cap : Nat) (now : τ) (S : System κ γ τ)
    (es : List (κ × Event γ τ)) (S' : System κ γ τ) : Prop where
  seq_le : S.seq ≤ S'.seq
  path : ∀ k, ∃ ds, Path mint cap now S.seq (S.slot k) (about k es) ds (S'.slot k) S'.seq ∧
    ∀ a, S'.dead k a → S.dead k a ∨ a ∈ ds

/-- one transaction: every key moves, and at most one item is delivered -/
structure Txn (mint : Nat → γ) (cap : Nat) (now : τ) (S : System κ γ τ)
    (es : List (κ × Event γ τ)) (S' : System κ γ τ) : Prop extends
    Moves mint cap now S es S' where
  single : (minted es).length ≤ 1

variable {mint : Nat → γ} {cap : Nat} {now : τ}

theorem Moves.refl (S : System κ γ τ) : Moves mint cap now S [] S :=
  ⟨Nat.le_refl _, fun _ => ⟨[], Path.refl _ _, fun _ h => Or.inl h⟩⟩

theorem Moves.trans {S S' S'' : System κ γ τ} {es es' : List (κ × Event γ τ)}
    (h : Moves mint cap now S es S') (h' : Moves mint cap now S' es' S'') :
    Moves mint cap now S (es ++ es') S'' := by
  refine ⟨Nat.le_trans h.seq_le h'.seq_le, fun k => ?_⟩
  obtain ⟨ds, hp, hd⟩ := h.path k
  obtain ⟨ds', hp', hd'⟩ := h'.path k
  refine ⟨ds ++ ds', ?_, fun a ha => ?_⟩
  · rw [about_append]
    exact hp.trans hp'
  · rcases hd' a ha with ha | ha
    · rcases hd a ha with ha | ha
      · exact Or.inl ha
      · exact Or.inr (mem_append_left _ ha)
    · exact Or.inr (mem_append_right _ ha)

inductive Run [LE τ] (mint : Nat → γ) (cap : Nat) :
    System κ γ τ → List (κ × Event γ τ) → τ → Prop
  | init (S : System κ γ τ) (t : τ) (hs : ∀ k, S.slot k = none) (hd : ∀ k a, ¬ S.dead k a) :
      Run mint cap S [] t
  | next {S S' : System κ γ τ} {h es : List (κ × Event γ τ)} {t now : τ}
      (hr : Run mint cap S h t) (ht : t ≤ now) (hx : Txn mint cap now S es S') :
      Run mint cap S' (h ++ es) now

end
end
end Lease
