import PgQueue.Notifier.Model

/-!
# Wake-ups

Producers commit messages and their notifications reach the Listener's stream; the pump looks up the
waker of each and signals it; consume loops read the current generation of the waker, run the receive
transaction, and wait on the generation they read if it found nothing.

* `System`, `Ev`, `step`   the three sides and the notifier, one section at a time;
* `Attended`     what holds between any two events while no channel is forgotten;
* `no_lost_wakeup`   **nobody waits for a signal that has been given.**
-/

set_option linter.unusedVariables false

namespace PgQueue.Notifier.Wakeups
open Process List

/-! ## the system -/

/-- where `fetchNext` stands; `seen` is the number of messages committed when the receive transaction
ran -/
inductive Phase where
  | top
  | armed (wake : Option Wake)
  | empty (wake : Option Wake) (seen : Nat)
  | waiting (wake : Option Wake) (seen : Nat)
deriving DecidableEq, Repr

structure Consumer where
  channel : String
  phase : Phase
deriving DecidableEq, Repr

structure Note where
  message : Nat
  channel : String
deriving DecidableEq, Repr

/-- messages are numbered in the order of their commits; `hand` is the notification that the pump has
taken, with the waker it found -/
structure System where
  notifier : Notifier.State
  commits : List String
  stream : List Note
  hand : Option (Note × Option Nat)
  processed : List Note
  consumers : List Consumer

def start : System := ⟨newNotifier, [], [], none, [], []⟩

inductive Ev where
  | consume (channel : String)
  | commit (channel : String)
  /-- the notification of a message is delivered, on a channel that is listened to -/
  | notify (message : Nat)
  /-- `pump` takes a notification and reads the waker under the mutex -/
  | take
  /-- `pump` signals the waker, if there is one -/
  | signal
  /-- `armWake` -/
  | arm (i : Nat)
  /-- the receive transaction; it found nothing, or the loop goes on -/
  | receive (i : Nat) (empty : Bool)
  /-- the start of `waitForWork` -/
  | wait (i : Nat)
  /-- `waitForWork` returns because the generation is closed -/
  | wake (i : Nat)
  /-- `waitForWork` returns because the poll interval is over -/
  | poll (i : Nat)
  | background (e : Notifier.Ev)
deriving DecidableEq, Repr

def System.turn (s : System) (i : Nat) (ch : String) (p : Phase) : System :=
  { s with consumers := s.consumers.set i ⟨ch, p⟩ }

def step (s : System) : Ev → Option System
  | .consume ch => some { s with consumers := s.consumers ++ [⟨ch, .top⟩] }
  | .commit ch => some { s with commits := s.commits ++ [ch] }
  | .notify m =>
    match s.commits[m]? with
    | some ch => if ch ∈ s.notifier.active then some { s with stream := s.stream ++ [⟨m, ch⟩] } else none
    | none => none
  | .take =>
    match s.hand, s.stream with
    | none, n :: rest =>
      some { s with stream := rest, hand := some (n, s.notifier.wakers n.channel) }
    | _, _ => none
  | .signal =>
    match s.hand with
    | some (n, some w) =>
      some { s with
        notifier := Notifier.signal w s.notifier, hand := none, processed := n :: s.processed }
    | some (n, none) => some { s with hand := none, processed := n :: s.processed }
    | none => none
  | .arm i =>
    match s.consumers[i]? with
    | some ⟨ch, .top⟩ =>
      let (wake, notifier) := wakeChan ch s.notifier
      some ({ s with notifier := notifier }.turn i ch (.armed wake))
    | _ => none
  | .receive i empty =>
    match s.consumers[i]? with
    | some ⟨ch, .armed wake⟩ =>
      some (s.turn i ch (if empty then .empty wake s.commits.length else .top))
    | _ => none
  | .wait i =>
    match s.consumers[i]? with
    | some ⟨ch, .empty wake seen⟩ => some (s.turn i ch (.waiting wake seen))
    | _ => none
  | .wake i =>
    match s.consumers[i]? with
    | some ⟨ch, .waiting (some k) _⟩ =>
      if s.notifier.signalled k then some (s.turn i ch .top) else none
    | _ => none
  | .poll i =>
    match s.consumers[i]? with
    | some ⟨ch, .waiting _ _⟩ => some (s.turn i ch .top)
    | _ => none
  | .background e => (Notifier.step s.notifier e).map fun n => { s with notifier := n }

def Unforgotten (s : System) : Ev → Prop
  | .background (.forget _) => False
  | _ => True

instance (s : System) (e : Ev) : Decidable (Unforgotten s e) := by
  unfold Unforgotten
  split <;> infer_instance

/-! ## what is asked of it -/

/-- a consume loop waits on a generation, and its receive transaction saw `seen` messages -/
def Waiting (s : System) (c : Consumer) (k : Wake) (seen : Nat) : Prop :=
  c ∈ s.consumers ∧ c.phase = .waiting (some k) seen

/-- a loop whose receive transaction ran before a message was committed is awake once the
notification of the message was processed -/
def NoLostWakeup (s : System) : Prop :=
  ∀ c k seen, Waiting s c k seen → ∀ n ∈ s.processed, n.channel = c.channel → seen ≤ n.message →
    s.notifier.signalled k

/-- the pump finds the waker of the loops that wait, and its signal wakes them all -/
def WakesAll (s : System) : Prop :=
  (∀ t n w, step s .take = some t → t.hand = some (n, w) →
    ∀ c k seen, Waiting s c k seen → c.channel = n.channel → w = some k.waker) ∧
  ∀ t n w, s.hand = some (n, some w) → step s .signal = some t →
    ∀ c k seen, Waiting s c k seen → c.channel = n.channel → t.notifier.signalled k

/-! ## the notifier, while no channel is forgotten -/

structure Grows (a b : Notifier.State) : Prop where
  wakers : ∀ ch w, a.wakers ch = some w → b.wakers ch = some w
  length : a.gens.length ≤ b.gens.length
  gen : ∀ w, w < a.gens.length → a.gen w ≤ b.gen w

def Made (a : Notifier.State) : Prop := ∀ ch w, a.wakers ch = some w → w < a.gens.length

theorem Grows.refl (a : Notifier.State) : Grows a a :=
  ⟨fun _ _ h => h, le_refl _, fun _ _ => le_refl _⟩

variable {s : System} {a b : Notifier.State} {w : Nat} {k : Wake} {n : Note}

theorem Grows.trans {c : Notifier.State} (h₁ : Grows a b) (h₂ : Grows b c) : Grows a c :=
  ⟨fun ch w h => h₂.wakers ch w (h₁.wakers ch w h), h₁.length.trans h₂.length,
    fun w hw => (h₁.gen w hw).trans (h₂.gen w (lt_of_lt_of_le hw h₁.length))⟩

theorem gen_signal (a : Notifier.State) {v : Nat} (hv : v < a.gens.length) :
    (signal w a).gen v = if w = v then a.gen v + 1 else a.gen v := by
  unfold signal State.gen
  simp only [getD_eq_getElem?_getD, getElem?_modify, getElem?_eq_getElem hv,
    Option.map_eq_map, Option.map_some, Option.getD_some]

theorem grows_signal (w : Nat) (a : Notifier.State) : Grows a (signal w a) := by
  refine ⟨fun _ _ h => h, le_of_eq (length_modify _ _ _).symm, fun v hv => ?_⟩
  rw [gen_signal a hv]
  split
  · exact Nat.le_succ _
  · exact le_refl _

theorem grows_installWaker (ch : String) (a : Notifier.State) : Grows a (installWaker ch a).2 := by
  unfold installWaker
  split
  · exact .refl a
  next hnone =>
    refine ⟨fun x w hw => ?_, by simp, fun w hw => ?_⟩
    · have hne : x ≠ ch := by
        rintro rfl
        exact absurd (hnone.symm.trans hw) (by simp)
      exact (Function.update_of_ne hne _ _).trans hw
    · unfold State.gen
      simp only [getD_eq_getElem?_getD, getElem?_append_left hw]
      exact le_refl _

theorem Made.installWaker (h : Made a) (ch : String) : Made (installWaker ch a).2 := by
  unfold Notifier.installWaker
  split
  · exact h
  next hnone =>
    set wakers := Function.update a.wakers ch (some a.gens.length)
    have hself : wakers ch = some a.gens.length := Function.update_self _ _ _
    have hlen : a.gens.length < (a.gens ++ [0]).length := by simp
    intro x w hw
    rcases eq_or_ne x ch with rfl | hne
    · obtain rfl := Option.some.inj (hself.symm.trans hw)
      exact hlen
    · have hx : wakers x = a.wakers x := Function.update_of_ne hne _ _
      exact (h x w (hx.symm.trans hw)).trans hlen

theorem grows_of_eq (h : Made a) (hw : b.wakers = a.wakers) (hg : b.gens = a.gens) :
    Grows a b ∧ Made b := by
  refine ⟨⟨fun ch w h => by rw [hw]; exact h, by rw [hg], fun w _ => ?_⟩, fun ch w hch => ?_⟩
  · unfold State.gen
    rw [hg]
  · rw [hg]
    rw [hw] at hch
    exact h ch w hch

theorem eq_startConfirm (ch : String) (w : Nat) (a : Notifier.State) :
    (startConfirm ch w a).wakers = a.wakers ∧ (startConfirm ch w a).gens = a.gens := by
  unfold startConfirm
  split <;> exact ⟨rfl, rfl⟩

theorem eq_confirmListen (c : Confirm) (ok : Bool) (a : Notifier.State) :
    (confirmListen c ok a).wakers = a.wakers ∧ (confirmListen c ok a).gens = a.gens := by
  unfold confirmListen
  split
  · exact ⟨rfl, rfl⟩
  split <;> exact ⟨rfl, rfl⟩

theorem wakeChan_spec (h : Made a) (ch : String) :
    Grows a (wakeChan ch a).2 ∧ Made (wakeChan ch a).2 ∧
      ∀ k, (wakeChan ch a).1 = some k →
        (wakeChan ch a).2.wakers ch = some k.waker ∧ k.gen ≤ (wakeChan ch a).2.gen k.waker := by
  unfold wakeChan
  split
  · exact ⟨.refl a, h, fun k hk => absurd hk (by simp)⟩
  · have hmade : Made (installWaker ch a).2 := h.installWaker ch
    obtain ⟨hw, hg⟩ := eq_startConfirm ch (installWaker ch a).1
      { (installWaker ch a).2 with pumpOnce := true }
    obtain ⟨hgrows, hmade'⟩ := grows_of_eq hmade hw hg
    refine ⟨(grows_installWaker ch a).trans hgrows, hmade', fun k hk => ?_⟩
    obtain rfl := Option.some.inj hk
    exact ⟨(congrFun hw ch).trans (wakers_installWaker ch a), le_refl _⟩

theorem grows_step {e : Notifier.Ev} (h : Made a) (hforget : ∀ ch, e ≠ .forget ch)
    (hstep : Notifier.step a e = some b) : Grows a b ∧ Made b := by
  cases Notifier.moves_of_step hstep with
  | wakeChan ch => exact ⟨(wakeChan_spec h ch).1, (wakeChan_spec h ch).2.1⟩
  | listen ok hi => exact grows_of_eq h rfl rfl
  | @confirmListen i ch w ok hi =>
    obtain ⟨hw, hg⟩ := eq_confirmListen ⟨ch, w, some ok⟩ ok
      { a with confirming := a.confirming.eraseIdx i }
    exact grows_of_eq h hw hg
  | forget ch => exact absurd rfl (hforget ch)
  | unlisten hi => exact grows_of_eq h rfl rfl
  | signal w =>
    refine ⟨grows_signal w a, fun ch v hv => ?_⟩
    exact lt_of_lt_of_le (h ch v hv) (grows_signal w a).length
  | close => exact grows_of_eq h rfl rfl

/-! ## between two events -/

def Phase.wake : Phase → Option Wake
  | .top => none
  | .armed wake => wake
  | .empty wake _ => wake
  | .waiting wake _ => wake

/-- the generation a loop waits on, or is about to, and what its receive transaction saw -/
def Phase.seen : Phase → Option (Wake × Nat)
  | .empty (some k) n => some (k, n)
  | .waiting (some k) n => some (k, n)
  | _ => none

theorem wake_of_seen {p : Phase} {n : Nat} (h : p.seen = some (k, n)) : p.wake = some k := by
  unfold Phase.seen at h
  split at h <;> cases h <;> rfl

/-- the notification is somewhere between the server and its end -/
def System.notes (s : System) (n : Note) : Prop :=
  n ∈ s.stream ∨ n ∈ s.processed ∨ ∃ w, s.hand = some (n, w)

/-- the receive transaction of the loop ran before the message of the notification was committed -/
def Behind (s : System) (k : Wake) (n : Note) : Prop :=
  ∃ c ∈ s.consumers, ∃ seen, c.phase.seen = some (k, seen) ∧ n.channel = c.channel ∧ seen ≤ n.message

structure Attended (s : System) : Prop where
  made : Made s.notifier
  notes : ∀ n, s.notes n → n.message < s.commits.length
  /-- a loop has read a generation of the waker in the map, the current one or an older one -/
  armed : ∀ c ∈ s.consumers, ∀ k, c.phase.wake = some k →
    s.notifier.wakers c.channel = some k.waker ∧ k.gen ≤ s.notifier.gen k.waker
  found : ∀ n w, s.hand = some (n, some w) → s.notifier.wakers n.channel = some w
  /-- the pump looked up the waker after the loop had read it -/
  hand : ∀ n w, s.hand = some (n, w) → ∀ k, Behind s k n → w ≠ none
  processed : ∀ n ∈ s.processed, ∀ k, Behind s k n → s.notifier.signalled k

theorem Attended.start : Attended start where
  made := fun ch w h => absurd h (by simp [Wakeups.start, newNotifier])
  notes := fun n h => absurd h (by simp [System.notes, Wakeups.start])
  armed := fun c h => absurd h not_mem_nil
  found := fun n w h => absurd h (by simp [Wakeups.start])
  hand := fun n w h => absurd h (by simp [Wakeups.start])
  processed := fun n h => absurd h not_mem_nil

theorem Attended.waker_lt (h : Attended s) {c : Consumer} (hc : c ∈ s.consumers)
    (hk : c.phase.wake = some k) : k.waker < s.notifier.gens.length :=
  h.made _ _ (h.armed c hc k hk).1

theorem Attended.grow (h : Attended s) (hg : Grows s.notifier b) (hmade : Made b) :
    Attended { s with notifier := b } := by
  refine ⟨hmade, h.notes, fun c hc k hk => ?_, fun n w hn => hg.wakers _ _ (h.found n w hn), h.hand,
    fun n hn k hk => ?_⟩
  · obtain ⟨hw, hgen⟩ := h.armed c hc k hk
    exact ⟨hg.wakers _ _ hw, hgen.trans (hg.gen _ (h.waker_lt hc hk))⟩
  · obtain ⟨c, hc, seen, hseen, -⟩ := id hk
    have hlt : k.waker < s.notifier.gens.length := h.waker_lt hc (wake_of_seen hseen)
    exact lt_of_lt_of_le (h.processed n hn k hk) (hg.gen _ hlt)

/-- a loop goes on: what it saw, it had seen before, or it has seen every message -/
theorem Attended.turn (h : Attended s) (i : Nat) {ch : String} {p : Phase}
    (hwake : ∀ k, p.wake = some k →
      s.notifier.wakers ch = some k.waker ∧ k.gen ≤ s.notifier.gen k.waker)
    (hseen : ∀ k seen, p.seen = some (k, seen) →
      (∃ c ∈ s.consumers, c.channel = ch ∧ c.phase.seen = some (k, seen)) ∨ s.commits.length ≤ seen) :
    Attended (s.turn i ch p) := by
  have hbehind : ∀ k n, s.notes n → Behind (s.turn i ch p) k n → Behind s k n := by
    rintro k n hn ⟨c, hc, seen, hcs, hch, hle⟩
    rcases mem_or_eq_of_mem_set hc with hc | rfl
    · exact ⟨c, hc, seen, hcs, hch, hle⟩
    · rcases hseen k seen hcs with ⟨d, hd, hdch, hds⟩ | hall
      · exact ⟨d, hd, seen, hds, hch.trans hdch.symm, hle⟩
      · exact absurd (h.notes n hn) (not_lt_of_ge (hall.trans hle))
  refine ⟨h.made, h.notes, fun c hc k hk => ?_, h.found,
    fun n w hn k hk => h.hand n w hn k (hbehind k n (.inr (.inr ⟨w, hn⟩)) hk),
    fun n hn k hk => h.processed n hn k (hbehind k n (.inr (.inl hn)) hk)⟩
  rcases mem_or_eq_of_mem_set hc with hc | rfl
  · exact h.armed c hc k hk
  · exact hwake k hk

theorem Attended.top (h : Attended s) (i : Nat) (ch : String) : Attended (s.turn i ch .top) :=
  h.turn i (fun k hk => absurd hk (by simp [Phase.wake])) fun k n hs => absurd hs (by simp [Phase.seen])

/-! ## one event -/

theorem Attended.consume (h : Attended s) (ch : String) :
    Attended { s with consumers := s.consumers ++ [⟨ch, .top⟩] } := by
  have hbehind : ∀ k n, Behind { s with consumers := s.consumers ++ [⟨ch, .top⟩] } k n →
      Behind s k n := by
    rintro k n ⟨c, hc, seen, hcs, hrest⟩
    rcases mem_append.mp hc with hc | hc
    · exact ⟨c, hc, seen, hcs, hrest⟩
    · rw [mem_singleton.mp hc] at hcs
      exact absurd hcs (by simp [Phase.seen])
  refine ⟨h.made, h.notes, fun c hc k hk => ?_, h.found,
    fun n w hn k hk => h.hand n w hn k (hbehind k n hk),
    fun n hn k hk => h.processed n hn k (hbehind k n hk)⟩
  rcases mem_append.mp hc with hc | hc
  · exact h.armed c hc k hk
  · rw [mem_singleton.mp hc] at hk
    exact absurd hk (by simp [Phase.wake])

theorem Attended.commit (h : Attended s) (ch : String) :
    Attended { s with commits := s.commits ++ [ch] } := by
  refine ⟨h.made, fun n hn => ?_, h.armed, h.found, h.hand, h.processed⟩
  rw [length_append]
  exact Nat.lt_add_right _ (h.notes n hn)

theorem Attended.notify (h : Attended s) {m : Nat} {ch : String} (hm : s.commits[m]? = some ch) :
    Attended { s with stream := s.stream ++ [⟨m, ch⟩] } := by
  refine ⟨h.made, fun n hn => ?_, h.armed, h.found, h.hand, h.processed⟩
  rcases hn with hn | hn
  · rcases mem_append.mp hn with hn | hn
    · exact h.notes n (.inl hn)
    · rw [mem_singleton.mp hn]
      exact (List.getElem?_eq_some_iff.mp hm).1
  · exact h.notes n (.inr hn)

theorem Attended.take (h : Attended s) {rest : List Note} (hs : s.stream = n :: rest) :
    Attended { s with stream := rest, hand := some (n, s.notifier.wakers n.channel) } := by
  have hn : s.notes n := .inl (by rw [hs]; exact mem_cons_self)
  refine ⟨h.made, fun x hx => ?_, h.armed, fun x w hx => ?_, fun x w hx k hk => ?_, h.processed⟩
  · rcases hx with hx | hx | ⟨w, hx⟩
    · exact h.notes x (.inl (by rw [hs]; exact mem_cons_of_mem _ hx))
    · exact h.notes x (.inr (.inl hx))
    · obtain ⟨rfl, -⟩ := Prod.mk.inj (Option.some.inj hx)
      exact h.notes _ hn
  · obtain ⟨rfl, hw⟩ := Prod.mk.inj (Option.some.inj hx)
    exact hw
  · obtain ⟨rfl, rfl⟩ := Prod.mk.inj (Option.some.inj hx)
    obtain ⟨c, hc, seen, hcs, hch, -⟩ := hk
    rw [hch, (h.armed c hc k (wake_of_seen hcs)).1]
    exact Option.some_ne_none _

/-- the signal closes every generation of the waker that a loop has read so far -/
theorem Attended.signalled_signal (h : Attended s) {c : Consumer} (hc : c ∈ s.consumers)
    (hk : c.phase.wake = some k) (hw : s.notifier.wakers c.channel = some w) :
    (Notifier.signal w s.notifier).signalled k := by
  obtain ⟨hkw, hgen⟩ := h.armed c hc k hk
  obtain rfl : w = k.waker := Option.some.inj (hw.symm.trans hkw)
  unfold State.signalled
  rw [gen_signal _ (h.waker_lt hc hk), if_pos rfl]
  exact Nat.lt_succ_of_le hgen

theorem Attended.processed_cons (h : Attended s) {w : Option Nat} (hhand : s.hand = some (n, w))
    (hsig : ∀ k, Behind s k n → s.notifier.signalled k) :
    Attended { s with hand := none, processed := n :: s.processed } := by
  refine ⟨h.made, fun x hx => ?_, h.armed, fun x v hx => absurd hx (by simp),
    fun x v hx => absurd hx (by simp), fun x hx k hk => ?_⟩
  · rcases hx with hx | hx | ⟨v, hx⟩
    · exact h.notes x (.inl hx)
    · rcases mem_cons.mp hx with rfl | hx
      · exact h.notes x (.inr (.inr ⟨w, hhand⟩))
      · exact h.notes x (.inr (.inl hx))
    · exact absurd hx (by simp)
  · rcases mem_cons.mp hx with rfl | hx
    · exact hsig k hk
    · exact h.processed x hx k hk

theorem Attended.signal (h : Attended s) (hhand : s.hand = some (n, some w)) :
    Attended { s with
      notifier := Notifier.signal w s.notifier, hand := none, processed := n :: s.processed } := by
  have hgrows : Grows s.notifier (Notifier.signal w s.notifier) := grows_signal w s.notifier
  have hmade : Made (Notifier.signal w s.notifier) := fun ch v hv =>
    lt_of_lt_of_le (h.made ch v hv) hgrows.length
  refine (h.grow hgrows hmade).processed_cons hhand ?_
  rintro k ⟨c, hc, seen, hcs, hch, -⟩
  exact h.signalled_signal hc (wake_of_seen hcs) (hch ▸ h.found n w hhand)

theorem Attended.step {t : System} {e : Ev} (h : Attended s) (hok : Unforgotten s e)
    (hstep : step s e = some t) : Attended t := by
  cases e with
  | consume ch =>
    obtain rfl := Option.some.inj hstep
    exact h.consume ch
  | commit ch =>
    obtain rfl := Option.some.inj hstep
    exact h.commit ch
  | notify m =>
    simp only [Wakeups.step] at hstep
    split at hstep
    next ch hm =>
      split at hstep
      next =>
        obtain rfl := Option.some.inj hstep
        exact h.notify hm
      next => exact absurd hstep (by simp)
    next => exact absurd hstep (by simp)
  | take =>
    simp only [Wakeups.step] at hstep
    split at hstep
    next n rest hhand hs =>
      obtain rfl := Option.some.inj hstep
      exact h.take hs
    next => exact absurd hstep (by simp)
  | signal =>
    simp only [Wakeups.step] at hstep
    split at hstep
    next n w hhand =>
      obtain rfl := Option.some.inj hstep
      exact h.signal hhand
    next n hhand =>
      obtain rfl := Option.some.inj hstep
      exact h.processed_cons hhand fun k hk => absurd rfl (h.hand n none hhand k hk)
    next => exact absurd hstep (by simp)
  | arm i =>
    simp only [Wakeups.step] at hstep
    split at hstep
    next ch hi =>
      obtain rfl := Option.some.inj hstep
      obtain ⟨hgrows, hmade, hk⟩ := wakeChan_spec h.made ch
      exact (h.grow hgrows hmade).turn i hk fun k seen hs => absurd hs (by simp [Phase.seen])
    next => exact absurd hstep (by simp)
  | receive i empty =>
    simp only [Wakeups.step] at hstep
    split at hstep
    next ch wake hi =>
      obtain rfl := Option.some.inj hstep
      have hc := mem_of_getElem? hi
      refine h.turn i (fun k hk => ?_) (fun k seen hs => ?_)
      · split at hk
        · exact h.armed _ hc k hk
        · exact absurd hk (by simp [Phase.wake])
      · split at hs
        · cases wake with
          | none => exact absurd hs (by simp [Phase.seen])
          | some k' =>
            obtain ⟨-, rfl⟩ := Prod.mk.inj (Option.some.inj hs)
            exact .inr (le_refl _)
        · exact absurd hs (by simp [Phase.seen])
    next => exact absurd hstep (by simp)
  | wait i =>
    simp only [Wakeups.step] at hstep
    split at hstep
    next ch wake seen hi =>
      obtain rfl := Option.some.inj hstep
      have hc := mem_of_getElem? hi
      refine h.turn i (fun k hk => h.armed _ hc k hk) (fun k n hs => .inl ⟨_, hc, rfl, ?_⟩)
      cases wake with
      | none => exact absurd hs (by simp [Phase.seen])
      | some k' => exact hs
    next => exact absurd hstep (by simp)
  | wake i =>
    simp only [Wakeups.step] at hstep
    split at hstep
    next ch k seen hi =>
      split at hstep
      next =>
        obtain rfl := Option.some.inj hstep
        exact h.top i ch
      next => exact absurd hstep (by simp)
    next => exact absurd hstep (by simp)
  | poll i =>
    simp only [Wakeups.step] at hstep
    split at hstep
    next ch wake seen hi =>
      obtain rfl := Option.some.inj hstep
      exact h.top i ch
    next => exact absurd hstep (by simp)
  | background e =>
    obtain ⟨b, hb, rfl⟩ := Option.map_eq_some_iff.mp hstep
    have hforget : ∀ ch, e ≠ .forget ch := by
      rintro ch rfl
      exact hok
    obtain ⟨hgrows, hmade⟩ := grows_step h.made hforget hb
    exact h.grow hgrows hmade

/-! ## every run -/

theorem Attended.noLostWakeup (h : Attended s) : NoLostWakeup s := by
  rintro c k seen ⟨hc, hphase⟩ n hn hch hle
  exact h.processed n hn k ⟨c, hc, seen, by rw [hphase]; rfl, hch, hle⟩

theorem Attended.wakesAll (h : Attended s) : WakesAll s := by
  refine ⟨fun t n w hstep hhand c k seen hwaits hch => ?_,
    fun t n w hhand hstep c k seen hwaits hch => ?_⟩
  · simp only [Wakeups.step] at hstep
    split at hstep
    next m rest hnone hs =>
      obtain rfl := Option.some.inj hstep
      obtain ⟨rfl, rfl⟩ := Prod.mk.inj (Option.some.inj hhand)
      rw [← hch]
      exact (h.armed c hwaits.1 k (by rw [hwaits.2]; rfl)).1
    next => exact absurd hstep (by simp)
  · simp only [Wakeups.step, hhand] at hstep
    obtain rfl := Option.some.inj hstep
    exact h.signalled_signal hwaits.1 (by rw [hwaits.2]; rfl) (hch ▸ h.found n w hhand)

/-- **While no channel is forgotten, no loop waits on a generation that is not signalled although the
notification of a message that it has not seen was processed; and a notification wakes every loop that
waits.** -/
theorem no_lost_wakeup {s : System} (hrun : Runs step Unforgotten start s) :
    NoLostWakeup s ∧ WakesAll s := by
  have h : Attended s :=
    hrun.invariant Attended .start fun _ _ _ h hok hstep => h.step hok hstep
  exact ⟨h.noLostWakeup, h.wakesAll⟩

/-- a message is committed and its notification processed after the loops found nothing, when one of
them waits and the other is about to -/
def between : List Ev :=
  [.consume "q", .consume "q", .arm 0, .background (.listen 0 true), .background (.confirmListen 0),
    .arm 1, .receive 0 true, .receive 1 true, .wait 1, .commit "q", .notify 0, .take, .signal, .wait 0]

theorem no_lost_wakeup_between : ∃ s, Runs step Unforgotten start s ∧
    s.consumers = [⟨"q", .waiting (some ⟨0, 0⟩) 0⟩, ⟨"q", .waiting (some ⟨0, 0⟩) 0⟩] ∧
    s.processed = [⟨0, "q"⟩] ∧ NoLostWakeup s ∧ WakesAll s := by
  have hrun : ∃ s, follow (guarded step Unforgotten) start between = some s ∧
      s.consumers = [⟨"q", .waiting (some ⟨0, 0⟩) 0⟩, ⟨"q", .waiting (some ⟨0, 0⟩) 0⟩] ∧
      s.processed = [⟨0, "q"⟩] := by
    decide +kernel
  obtain ⟨s, hs, hconsumers, hprocessed⟩ := hrun
  have hruns : Runs step Unforgotten start s := .of_follow between hs
  exact ⟨s, hruns, hconsumers, hprocessed, no_lost_wakeup hruns⟩

end PgQueue.Notifier.Wakeups
