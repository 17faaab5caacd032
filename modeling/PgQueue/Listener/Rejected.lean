import PgQueue.Listener.Subscribed

/-!
# A channel that the server rejects

`Listen` registers the channel before its `LISTEN` is issued and the registration outlives the
refusal; `reconnect` issues a `LISTEN` for every registered channel, and the drain gives up its
connection at the first one that fails.

* `Rejects X`   the server: it refuses the `LISTEN` of `X`, and no other while the connection lives;
* `round`       a reconnect and the drain after it, while callers come and go;
* `Recovered`   the round reaches `receiveOne`, the registered channels are subscribed, and the calls
  that were waiting have returned;
* `round_recovers_iff`   **the round recovers exactly if no request for `X` is in its queue.**
-/

namespace PgQueue.Pglisten
open Process List

/-! ## the round -/

/-- the next `LISTEN` is for `X` -/
def Pc.asks (X : String) : Pc → Bool
  | .drain (r :: _) _ => r.channel = X
  | _ => false

def obeys (X : String) (s : State) : Ev → Bool
  | .listenOK => !s.pc.asks X
  | .listenFails => s.pc.asks X || s.session.isNone
  | _ => true

def Rejects (X : String) (s : State) (e : Ev) : Prop := obeys X s e = true

instance (X : String) (s : State) (e : Ev) : Decidable (Rejects X s e) :=
  inferInstanceAs (Decidable (obeys X s e = true))

inductive Visit where
  | listen (channel : String)
  | unlisten (channel : String)
  | cancel (call : Nat)
deriving DecidableEq, Repr

def Visit.ev : Visit → Ev
  | .listen ch => .listen ch
  | .unlisten ch => .unlisten ch
  | .cancel i => .cancel i

/-- a caller never has to wait for the loop to make its call -/
def visit (s : State) (v : Visit) : State := (step s v.ev).getD s

def visits (vs : List Visit) (s : State) : State := vs.foldl visit s

def Pc.turn (X : String) : Pc → Option Ev
  | .drain (r :: _) _ => some (if r.channel = X then .listenFails else .listenOK)
  | .drain [] (_ :: _) => some .unlistenOK
  | .drain [] [] => some .drained
  | .mark _ _ _ => some .markConfirmed
  | .tell _ _ _ => some .signal
  | .requeue _ => some .requeue
  | _ => none

def work (X : String) (s : State) : State :=
  ((s.pc.turn X).bind (step s)).getD s

/-- the drain, with visits before each of its events; once it is over only the visits go on -/
def plays (X : String) (sched : List (List Visit)) (s : State) : State :=
  sched.foldl (fun s vs => work X (visits vs s)) s

/-- the listener whose queue the drain takes: `first` are the calls between the reconnect and the
snapshot -/
def taken (order : List String) (first : List Visit) (t : State) : State :=
  visits first (reconnected order t)

/-- the start of the drain that takes the queues of `v` -/
def drainOf (v : State) : State :=
  { v with pending := [], unpending := [], pc := .drain v.pending v.unpending }

def round (X : String) (order : List String) (first : List Visit) (sched : List (List Visit))
    (t : State) : Option State :=
  (step t (.connect order)).bind fun s => (step (visits first s) .snapshot).map (plays X sched)

def Pc.left : Pc → Nat
  | .drain reqs us => 3 * reqs.length + us.length + 1
  | .mark _ reqs us => 3 * reqs.length + us.length + 3
  | .tell _ reqs us => 3 * reqs.length + us.length + 2
  | .requeue _ => 1
  | _ => 0

def Pc.outcome (X : String) : Pc → Pc
  | .drain reqs _ | .mark _ reqs _ | .tell _ reqs _ =>
    if ∃ r ∈ reqs, r.channel = X then .reconnect else .receive
  | .requeue _ => .reconnect
  | pc => pc

/-- the answer of a call whose request was carried out; its context may have ended before -/
def Call.served (c : Call) : Prop :=
  c.result = some (.ok ()) ∨ c.result = some (.error (.canceled c.channel))

/-- the loop receives again on a session that is subscribed to the channels that were registered, and
each call that waited in the queue `v.pending` has returned -/
def Recovered (t : State) (first : List Visit) (v u : State) : Prop :=
  u.pc = .receive ∧
  (∃ S, u.session = some S ∧ ∀ ch ∈ t.channels, .unlisten ch ∉ first → ch ∈ S) ∧
  ∀ r ∈ v.pending, ∀ i c, r.done = some i → v.calls[i]? = some c → c.result = none →
    ∃ c', u.calls[i]? = some c' ∧ c'.served

/-! ## the calls that wait -/

def Waits (calls : List Call) (i : Nat) : Prop := ∃ c, calls[i]? = some c ∧ (c.result = none ∨ c.served)

def Served (calls : List Call) (i : Nat) : Prop := ∃ c, calls[i]? = some c ∧ c.served

/-- no call loses its place or its answer, and no call is refused -/
def Gentle (calls calls' : List Call) : Prop :=
  ∀ i, (Waits calls i → Waits calls' i) ∧ (Served calls i → Served calls' i)

variable {X : String} {s t v : State} {c : Call} {S : Finset String} {order : List String}
  {first : List Visit} {sched : List (List Visit)}

theorem answer_of_result (r : Except ListenError Unit) (h : c.result ≠ none) : c.answer r = c := by
  unfold Call.answer
  rw [if_neg (by simpa using h)]

theorem result_answer (r : Except ListenError Unit) (h : c.result = none) :
    (c.answer r).result = some r := by
  unfold Call.answer
  rw [if_pos (by simp [h])]

theorem Call.served.ne_none (h : c.served) : c.result ≠ none := by
  rcases h with h | h <;> rw [h] <;> exact Option.some_ne_none _

theorem Gentle.refl (calls : List Call) : Gentle calls calls := fun _ => ⟨id, id⟩

theorem Gentle.trans {a b c : List Call} (h₁ : Gentle a b) (h₂ : Gentle b c) : Gentle a c :=
  fun i => ⟨(h₂ i).1 ∘ (h₁ i).1, (h₂ i).2 ∘ (h₁ i).2⟩

theorem Gentle.append (calls : List Call) (more : List Call) : Gentle calls (calls ++ more) := by
  have hget : ∀ (i : Nat) (c : Call), calls[i]? = some c → (calls ++ more)[i]? = some c := by
    intro i c hc
    rw [List.getElem?_append_left (List.getElem?_eq_some_iff.mp hc).1, hc]
  exact fun i => ⟨fun ⟨c, hc, h⟩ => ⟨c, hget i c hc, h⟩, fun ⟨c, hc, h⟩ => ⟨c, hget i c hc, h⟩⟩

theorem Gentle.revoke (ch : String) (calls : List Call) :
    Gentle calls (calls.map (Call.revoke ch)) := by
  have hres : ∀ c : Call, (c.revoke ch).result = c.result ∧ (c.revoke ch).channel = c.channel := by
    intro c
    unfold Call.revoke
    split <;> exact ⟨rfl, rfl⟩
  have hserved : ∀ c : Call, c.served → (c.revoke ch).served := by
    intro c h
    unfold Call.served
    rw [(hres c).1, (hres c).2]
    exact h
  intro i
  constructor
  · rintro ⟨c, hc, h | h⟩
    · exact ⟨_, by rw [getElem?_map, hc]; rfl, .inl ((hres c).1.trans h)⟩
    · exact ⟨_, by rw [getElem?_map, hc]; rfl, .inr (hserved c h)⟩
  · rintro ⟨c, hc, h⟩
    exact ⟨_, by rw [getElem?_map, hc]; rfl, hserved c h⟩

theorem served_answer {r : Except ListenError Unit} (hr : r = .ok () ∨ r = .error (.canceled c.channel))
    (h : c.result = none ∨ c.served) : (c.answer r).served := by
  rcases h with h | h
  · unfold Call.served
    rw [result_answer r h, channel_answer]
    rcases hr with rfl | rfl
    · exact .inl rfl
    · exact .inr rfl
  · rw [answer_of_result r h.ne_none]
    exact h

theorem Gentle.modify (calls : List Call) (j : Nat) {g : Call → Except ListenError Unit}
    (hg : ∀ c, g c = .ok () ∨ g c = .error (.canceled c.channel)) :
    Gentle calls (calls.modify j fun c => c.answer (g c)) := by
  intro i
  have hget : ∀ c, calls[i]? = some c → (calls.modify j fun c => c.answer (g c))[i]? =
      some (if j = i then c.answer (g c) else c) := by
    intro c hc
    rw [getElem?_modify, hc]
    rfl
  constructor
  · rintro ⟨c, hc, h⟩
    refine ⟨_, hget c hc, ?_⟩
    split
    · exact .inr (served_answer (hg c) h)
    · exact h
  · rintro ⟨c, hc, h⟩
    refine ⟨_, hget c hc, ?_⟩
    split
    · exact served_answer (hg c) (.inr h)
    · exact h

theorem Gentle.signal (calls : List Call) (done : Option Nat) :
    Gentle calls (signal done (.ok ()) calls) := by
  cases done with
  | none => exact .refl calls
  | some j => exact .modify calls j fun _ => .inl rfl

theorem Waits.signal {calls : List Call} {i : Nat} (h : Waits calls i) :
    Served (signal (some i) (.ok ()) calls) i := by
  obtain ⟨c, hc, h⟩ := h
  refine ⟨c.answer (.ok ()), ?_, served_answer (.inl rfl) h⟩
  show (calls.modify i (Call.answer (.ok ())))[i]? = _
  rw [getElem?_modify, hc]
  simp

/-! ## the callers -/

structure Visited (s t : State) (v : Visit) : Prop where
  pc : t.pc = s.pc
  session : t.session = s.session
  closed : t.closed = s.closed
  confirmed : t.confirmed ⊆ s.confirmed
  calls : Gentle s.calls t.calls
  stays : ∀ r ∈ s.pending, r ∈ t.pending
  comes : ∀ r ∈ t.pending, r ∈ s.pending ∨
    v = .listen r.channel ∧ containsNUL r.channel = false ∧ s.closed = false
  leaves : ∀ u ∈ t.unpending, u ∈ s.unpending ∨ v = .unlisten u

theorem visited (s : State) (v : Visit) : Visited s (visit s v) v := by
  cases v with
  | listen ch =>
    show Visited s (listen ch s) _
    unfold listen
    split
    · exact ⟨rfl, rfl, rfl, fun _ h => h, .append _ _, fun _ h => h, fun _ h => .inl h, fun _ h => .inl h⟩
    split
    · exact ⟨rfl, rfl, rfl, fun _ h => h, .append _ _, fun _ h => h, fun _ h => .inl h, fun _ h => .inl h⟩
    split
    · exact ⟨rfl, rfl, rfl, fun _ h => h, .append _ _, fun _ h => h, fun _ h => .inl h, fun _ h => .inl h⟩
    next hnul hopen hnc =>
      refine ⟨rfl, rfl, rfl, fun _ h => h, .append _ _, fun _ h => mem_append_left _ h,
        fun r hr => ?_, fun _ h => .inl h⟩
      rcases mem_append.mp hr with hr | hr
      · exact .inl hr
      · obtain rfl := mem_singleton.mp hr
        exact .inr ⟨rfl, by simpa using hnul, by simpa using hopen⟩
  | unlisten ch =>
    show Visited s (unlisten ch s) _
    unfold unlisten
    dsimp only
    split
    · exact ⟨rfl, rfl, rfl, fun _ h => h, .revoke _ _, fun _ h => h, fun _ h => .inl h, fun _ h => .inl h⟩
    split
    · exact ⟨rfl, rfl, rfl, fun _ h => h, .revoke _ _, fun _ h => h, fun _ h => .inl h, fun _ h => .inl h⟩
    split
    · exact ⟨rfl, rfl, rfl, fun _ h => h, .revoke _ _, fun _ h => h, fun _ h => .inl h, fun _ h => .inl h⟩
    · refine ⟨rfl, rfl, rfl, Finset.erase_subset _ _, .revoke _ _, fun _ h => h, fun _ h => .inl h,
        fun u hu => ?_⟩
      rcases mem_append.mp hu with hu | hu
      · exact .inl hu
      · obtain rfl := mem_singleton.mp hu
        exact .inr rfl
  | cancel i =>
    exact ⟨rfl, rfl, rfl, fun _ h => h, .modify _ _ fun _ => .inr rfl, fun _ h => h,
      fun _ h => .inl h, fun _ h => .inl h⟩

theorem queued_visit_listen {ch : String} (hnul : containsNUL ch = false) (hopen : s.closed = false)
    (hc : ch ∉ s.confirmed) : (visit s (.listen ch)).queued ch := by
  show (listen ch s).queued ch
  unfold listen
  rw [if_neg (by simp [hnul]), if_neg (by simp [hopen]), if_neg hc]
  exact ⟨_, mem_append_right _ (mem_singleton_self _), rfl⟩

structure AllVisited (s t : State) (vs : List Visit) : Prop where
  pc : t.pc = s.pc
  session : t.session = s.session
  calls : Gentle s.calls t.calls
  stays : ∀ r ∈ s.pending, r ∈ t.pending
  comes : ∀ r ∈ t.pending, r ∈ s.pending ∨ .listen r.channel ∈ vs ∧ s.closed = false
  leaves : ∀ u ∈ t.unpending, u ∈ s.unpending ∨ .unlisten u ∈ vs

theorem allVisited (s : State) (vs : List Visit) : AllVisited s (visits vs s) vs := by
  induction vs generalizing s with
  | nil => exact ⟨rfl, rfl, .refl _, fun _ h => h, fun _ h => .inl h, fun _ h => .inl h⟩
  | cons v vs ih =>
    have h₁ := visited s v
    have h₂ := ih (visit s v)
    refine ⟨h₂.pc.trans h₁.pc, h₂.session.trans h₁.session, h₁.calls.trans h₂.calls,
      fun r hr => h₂.stays r (h₁.stays r hr), fun r hr => ?_, fun u hu => ?_⟩
    · rcases h₂.comes r hr with hr | ⟨hmem, hopen⟩
      · rcases h₁.comes r hr with hr | ⟨hv, -, hopen⟩
        · exact .inl hr
        · exact .inr ⟨hv ▸ mem_cons_self, hopen⟩
      · exact .inr ⟨mem_cons_of_mem _ hmem, h₁.closed ▸ hopen⟩
    · rcases h₂.leaves u hu with hu | hmem
      · rcases h₁.leaves u hu with hu | hv
        · exact .inl hu
        · exact .inr (hv ▸ mem_cons_self)
      · exact .inr (mem_cons_of_mem _ hmem)

theorem queued_visits {ch : String} {vs : List Visit} (hnul : containsNUL ch = false)
    (hopen : s.closed = false) (hc : ch ∉ s.confirmed) (hmem : .listen ch ∈ vs) :
    (visits vs s).queued ch := by
  induction vs generalizing s with
  | nil => exact absurd hmem not_mem_nil
  | cons v vs ih =>
    rcases mem_cons.mp hmem with rfl | hmem
    · obtain ⟨r, hr, hrc⟩ := queued_visit_listen hnul hopen hc
      exact ⟨r, (allVisited _ vs).stays r hr, hrc⟩
    · have h₁ := visited s v
      exact ih (h₁.closed.trans hopen) (fun h => hc (h₁.confirmed h)) hmem

/-- the queue that the drain after a reconnect takes: the registered channels, and those that were
asked for since -/
theorem queued_taken (hread : Reads order t.channels) (hnul : containsNUL X = false) :
    (taken order first t).queued X ↔ X ∈ t.channels ∨ .listen X ∈ first ∧ t.closed = false := by
  have hv := allVisited (reconnected order t) first
  constructor
  · rintro ⟨r, hr, rfl⟩
    rcases hv.comes r hr with hr | hcome
    · exact .inl ((queued_reconnected hread _).mp ⟨r, hr, rfl⟩)
    · exact .inr hcome
  · rintro (hX | ⟨hmem, hopen⟩)
    · obtain ⟨r, hr, hrX⟩ := (queued_reconnected hread X).mpr hX
      exact ⟨r, hv.stays r hr, hrX⟩
    · exact queued_visits hnul hopen (Finset.notMem_empty X) hmem

/-! ## the drain -/

theorem work_eq {e : Ev} (hturn : s.pc.turn X = some e) (hstep : step s e = some t) : work X s = t := by
  unfold work
  rw [hturn, Option.bind_some, hstep, Option.getD_some]

theorem work_of_turn (hturn : s.pc.turn X = none) : work X s = s := by
  unfold work
  rw [hturn]
  rfl

inductive Works (X : String) (s : State) (S : Finset String) : State → Prop
  | refused {r reqs us} (hpc : s.pc = .drain (r :: reqs) us) (hX : r.channel = X) : Works X s S
      { s with calls := signal r.done (.error (.refused r.channel)) s.calls, pc := .requeue reqs }
  | listened {r reqs us} (hpc : s.pc = .drain (r :: reqs) us) (hX : r.channel ≠ X) : Works X s S
      { s with session := some (insert r.channel S), pc := .mark r reqs us }
  | marked {r reqs us} (hpc : s.pc = .mark r reqs us) : Works X s S
      { s with confirmed := insert r.channel s.confirmed, pc := .tell r reqs us }
  | told {r reqs us} (hpc : s.pc = .tell r reqs us) : Works X s S
      { s with calls := signal r.done (.ok ()) s.calls, pc := .drain reqs us }
  | requeued {reqs} (hpc : s.pc = .requeue reqs) : Works X s S
      { s with pending := reqs ++ s.pending, pc := .reconnect }
  | unlistened {u us} (hpc : s.pc = .drain [] (u :: us)) : Works X s S
      { s with session := some (S.erase u), pc := .drain [] us }
  | ended (hpc : s.pc = .drain [] []) : Works X s S { s with pc := .receive }
  | rests (hpc : s.pc.left = 0) : Works X s S s

theorem works (hS : s.session = some S) : Works X s S (work X s) := by
  cases hpc : s.pc with
  | drain reqs us =>
    cases reqs with
    | cons r reqs =>
      by_cases hX : r.channel = X
      · rw [work_eq (by rw [hpc, Pc.turn, if_pos hX]) (by simp only [step, hpc]; rfl)]
        exact .refused hpc hX
      · rw [work_eq (by rw [hpc, Pc.turn, if_neg hX]) (by simp only [step, hpc, hS]; rfl)]
        exact .listened hpc hX
    | nil =>
      cases us with
      | cons u us =>
        rw [work_eq (by rw [hpc]; rfl) (by simp only [step, hpc, hS]; rfl)]
        exact .unlistened hpc
      | nil =>
        rw [work_eq (by rw [hpc]; rfl) (by simp only [step, hpc]; rfl)]
        exact .ended hpc
  | mark r reqs us =>
    rw [work_eq (by rw [hpc]; rfl) (by simp only [step, hpc]; rfl)]
    exact .marked hpc
  | tell r reqs us =>
    rw [work_eq (by rw [hpc]; rfl) (by simp only [step, hpc]; rfl)]
    exact .told hpc
  | requeue reqs =>
    rw [work_eq (by rw [hpc]; rfl) (by simp only [step, hpc]; rfl)]
    exact .requeued hpc
  | top | receive | reconnect | dial | stopped =>
    rw [work_of_turn (by rw [hpc]; rfl)]
    exact .rests (by rw [hpc]; rfl)

theorem Works.pc (h : Works X s S t) (hS : s.session = some S) :
    t.pc.outcome X = s.pc.outcome X ∧ t.pc.left ≤ s.pc.left - 1 ∧ ∃ S', t.session = some S' := by
  cases h with
  | refused hpc hX =>
    rw [hpc]
    refine ⟨?_, ?_, S, hS⟩
    · simp [Pc.outcome, hX]
    · simp [Pc.left]
      omega
  | listened hpc hX =>
    rw [hpc]
    refine ⟨?_, ?_, _, rfl⟩
    · simp [Pc.outcome, hX]
    · simp [Pc.left]
      omega
  | marked hpc | told hpc | requeued hpc =>
    rw [hpc]
    exact ⟨rfl, le_of_eq rfl, S, hS⟩
  | unlistened hpc =>
    rw [hpc]
    refine ⟨rfl, ?_, _, rfl⟩
    simp [Pc.left]
  | ended hpc =>
    rw [hpc]
    exact ⟨by simp [Pc.outcome], le_of_eq rfl, S, hS⟩
  | rests hpc => exact ⟨rfl, by omega, S, hS⟩

theorem outcome_of_left {pc : Pc} (h : pc.left = 0) : pc.outcome X = pc := by
  cases pc with
  | drain | mark | tell | requeue => exact absurd h (by simp [Pc.left])
  | top | receive | reconnect | dial | stopped => rfl

/-- **A drain ends, and where it ends depends on the requests it took only.** -/
theorem plays_pc (sched : List (List Visit)) (hS : ∃ S, s.session = some S)
    (hlong : s.pc.left ≤ sched.length) : (plays X sched s).pc = s.pc.outcome X := by
  induction sched generalizing s with
  | nil => exact (outcome_of_left (Nat.le_zero.mp hlong)).symm
  | cons vs sched ih =>
    obtain ⟨S, hS⟩ := hS
    have hv := allVisited s vs
    have hS' : (visits vs s).session = some S := hv.session.trans hS
    obtain ⟨hout, hleft, hlive⟩ := (works hS' : Works X _ S _).pc hS'
    rw [hv.pc] at hout hleft
    rw [length_cons] at hlong
    exact (ih hlive (by omega)).trans hout

/-! ## a drain that succeeds -/

def Pc.toIssue : Pc → List ListenReq
  | .drain reqs _ => reqs
  | .mark _ reqs _ => reqs
  | .tell _ reqs _ => reqs
  | _ => []

/-- a drain that took the queues of `v`, with no request for `X` in them -/
structure Draining (X : String) (v s : State) : Prop where
  outcome : s.pc.outcome X = .receive
  session : ∃ S, s.session = some S ∧
    ∀ r ∈ v.pending, r.channel ∉ v.unpending → r.channel ∈ S ∨ r ∈ s.pc.toIssue
  leaving : ∀ u ∈ s.pc.leaving, u ∈ v.unpending
  calls : ∀ r ∈ v.pending, ∀ i, r.done = some i → Waits v.calls i →
    Served s.calls i ∨ r ∈ s.pc.held ∧ Waits s.calls i

theorem Draining.visits (h : Draining X v s) (vs : List Visit) : Draining X v (visits vs s) := by
  have hv := allVisited s vs
  refine ⟨by rw [hv.pc]; exact h.outcome, by rw [hv.pc, hv.session]; exact h.session,
    by rw [hv.pc]; exact h.leaving, fun r hr i hi hw => ?_⟩
  rw [hv.pc]
  rcases h.calls r hr i hi hw with hserved | ⟨hheld, hwaits⟩
  · exact .inl ((hv.calls i).2 hserved)
  · exact .inr ⟨hheld, (hv.calls i).1 hwaits⟩

theorem Draining.works (h : Draining X v s) (hS : s.session = some S) (hw : Works X s S t) :
    Draining X v t := by
  have hout : t.pc.outcome X = .receive := (hw.pc hS).1.trans h.outcome
  obtain ⟨S', hS', hsub⟩ := h.session
  obtain rfl : S = S' := Option.some.inj (hS.symm.trans hS')
  have hleaving := h.leaving
  have hcalls := h.calls
  cases hw with
  | refused | requeued => exact absurd hout (by simp [Pc.outcome])
  | rests hpc => exact h
  | listened hpc hX =>
    rw [hpc] at hsub hleaving hcalls
    refine ⟨hout, ⟨_, rfl, fun q hq hun => ?_⟩, hleaving, hcalls⟩
    rcases hsub q hq hun with hin | hto
    · exact .inl (Finset.mem_insert_of_mem hin)
    · rcases mem_cons.mp hto with rfl | hto
      · exact .inl (Finset.mem_insert_self _ _)
      · exact .inr hto
  | marked hpc | ended hpc =>
    rw [hpc] at hsub hleaving hcalls
    exact ⟨hout, ⟨S, hS, hsub⟩, hleaving, hcalls⟩
  | told hpc =>
    rw [hpc] at hsub hleaving hcalls
    refine ⟨hout, ⟨S, hS, hsub⟩, hleaving, fun q hq i hi hwait => ?_⟩
    rcases hcalls q hq i hi hwait with hserved | ⟨hheld, hwaits⟩
    · exact .inl ((Gentle.signal _ _ i).2 hserved)
    · rcases mem_cons.mp hheld with rfl | hheld
      · rw [hi]
        exact .inl hwaits.signal
      · exact .inr ⟨hheld, (Gentle.signal _ _ i).1 hwaits⟩
  | unlistened hpc =>
    rw [hpc] at hsub hleaving hcalls
    refine ⟨hout, ⟨_, rfl, fun q hq hun => ?_⟩, fun x hx => hleaving x (mem_cons_of_mem _ hx),
      hcalls⟩
    rcases hsub q hq hun with hin | hto
    · have hne : q.channel ≠ _ := fun he => hun (he ▸ hleaving _ mem_cons_self)
      exact .inl (Finset.mem_erase.mpr ⟨hne, hin⟩)
    · exact absurd hto not_mem_nil

theorem Draining.plays (sched : List (List Visit)) (h : Draining X v s) :
    Draining X v (plays X sched s) := by
  induction sched generalizing s with
  | nil => exact h
  | cons vs sched ih =>
    obtain ⟨S, hS, -⟩ := (h.visits vs).session
    exact ih ((h.visits vs).works hS (Pglisten.works hS))

theorem Draining.start (hS : v.session = some S) (hX : ¬ v.queued X) : Draining X v (drainOf v) where
  outcome := if_neg hX
  session := ⟨S, hS, fun _ hr _ => .inr hr⟩
  leaving := fun _ hu => hu
  calls := fun _ hr _ _ hw => .inr ⟨hr, hw⟩

/-! ## names with a NUL byte -/

/-- a call for a name with a NUL byte never gets to the server -/
def Call.screened (c : Call) : Prop :=
  containsNUL c.channel = true → c.result = some (.error .channelContainsNUL)

theorem screened_answer (c : Call) (r : Except ListenError Unit) (h : c.screened) :
    (c.answer r).screened := by
  intro hnul
  rw [channel_answer] at hnul
  rw [answer_of_result r (by rw [h hnul]; exact Option.some_ne_none _)]
  exact h hnul

theorem screened_listen (h : ∀ c ∈ s.calls, c.screened) (ch : String) :
    ∀ c ∈ (listen ch s).calls, c.screened := by
  have hconcat : ∀ d : Call, d.screened → ∀ c ∈ s.calls ++ [d], c.screened := by
    intro d hd c hc
    rcases mem_append.mp hc with hc | hc
    · exact h c hc
    · rw [mem_singleton.mp hc]
      exact hd
  unfold listen
  split
  · exact hconcat _ fun _ => rfl
  next hnul =>
    split
    · exact hconcat _ fun h => absurd h hnul
    split
    · exact hconcat _ fun h => absurd h hnul
    · exact hconcat _ fun h => absurd h hnul

theorem screened_unlisten (h : ∀ c ∈ s.calls, c.screened) (ch : String) :
    ∀ c ∈ (unlisten ch s).calls, c.screened := by
  have hrevoked : ∀ c ∈ s.calls.map (Call.revoke ch), c.screened := by
    intro d hd
    obtain ⟨c, hc, rfl⟩ := mem_map.mp hd
    unfold Call.revoke
    split
    · exact h c hc
    · exact h c hc
  unfold unlisten
  dsimp only
  split
  · exact hrevoked
  split
  · exact hrevoked
  split
  · exact hrevoked
  · exact hrevoked

theorem screened_step {e : Ev} (h : ∀ c ∈ s.calls, c.screened) (hstep : step s e = some t) :
    ∀ c ∈ t.calls, c.screened := by
  cases moves_of_step hstep with
  | listen ch => exact screened_listen h ch
  | unlisten ch => exact screened_unlisten h ch
  | cancel i | leave i => exact forall_modify screened_answer h i _
  | listenFails | signal => exact forall_signal screened_answer h _ _
  | connect => exact forall_foldl_signal screened_answer _ _ h
  | _ => exact h

theorem containsNUL_of_refused (hrun : Runs step (Rejects X) new t)
    (hcall : ∃ c ∈ t.calls, c.channel = X ∧ c.result = some (.error (.refused X))) :
    containsNUL X = false := by
  have hscreened : ∀ c ∈ t.calls, c.screened :=
    hrun.invariant (fun s => ∀ c ∈ s.calls, c.screened) (fun c hc => absurd hc not_mem_nil)
      fun _ _ _ h _ hstep => screened_step h hstep
  obtain ⟨c, hc, rfl, hres⟩ := hcall
  by_contra hnul
  rw [Bool.not_eq_false] at hnul
  exact absurd (hres.symm.trans (hscreened c hc hnul)) (by simp)

/-! ## the round recovers, or not -/

theorem round_eq (hpc : t.pc = .dial) (hread : Reads order t.channels) :
    round X order first sched t = some (plays X sched (drainOf (taken order first t))) := by
  have hconnect : step t (.connect order) = some (reconnected order t) := by
    simp only [step, hpc, if_pos hread]
  have hpc' : (taken order first t).pc = .top := (allVisited (reconnected order t) first).pc
  have hsnapshot : step (taken order first t) .snapshot = some (drainOf (taken order first t)) := by
    simp only [step, hpc']
    rfl
  unfold round
  rw [hconnect, Option.bind_some]
  show (step (taken order first t) .snapshot).map _ = _
  rw [hsnapshot, Option.map_some]

theorem recovered_of_not_queued (hread : Reads order t.channels) (hX : ¬ (taken order first t).queued X)
    (hlong : (drainOf (taken order first t)).pc.left ≤ sched.length) :
    Recovered t first (taken order first t) (plays X sched (drainOf (taken order first t))) := by
  have hv := allVisited (reconnected order t) first
  have hsession : (taken order first t).session = some ∅ := hv.session
  have hlive : ∃ S, (drainOf (taken order first t)).session = some S := ⟨∅, hsession⟩
  have hend : (plays X sched (drainOf (taken order first t))).pc = .receive :=
    (plays_pc sched hlive hlong).trans (if_neg hX)
  have hdrain := (Draining.start hsession hX).plays sched
  obtain ⟨S, hS, hsub⟩ := hdrain.session
  rw [hend] at hsub
  refine ⟨hend, ⟨S, hS, fun ch hch hstays => ?_⟩, fun r hr i c hi hc hnone => ?_⟩
  · -- a registered channel was queued by the reconnect, and no `UNLISTEN` of it was
    obtain ⟨r, hr, rfl⟩ := (queued_reconnected hread ch).mpr hch
    have hun : r.channel ∉ (taken order first t).unpending := by
      intro hmem
      rcases hv.leaves _ hmem with hmem | hmem
      · exact absurd hmem not_mem_nil
      · exact hstays hmem
    rcases hsub r (hv.stays r hr) hun with hin | hto
    · exact hin
    · exact absurd hto not_mem_nil
  · rcases hdrain.calls r hr i hi ⟨c, hc, .inl hnone⟩ with hserved | ⟨hheld, -⟩
    · exact hserved
    · rw [hend] at hheld
      exact absurd hheld not_mem_nil

/-- **The round recovers exactly if `X` is not registered when the connection is made, and nobody
asks for it before the drain takes the queue.** -/
theorem round_recovers_iff {X : String} {t : State} (hrun : Runs step (Rejects X) new t)
    (hcall : ∃ c ∈ t.calls, c.channel = X ∧ c.result = some (.error (.refused X)))
    (hpc : t.pc = .dial) {order : List String} (hread : Reads order t.channels)
    (first : List Visit) {sched : List (List Visit)}
    (hlong : (drainOf (taken order first t)).pc.left ≤ sched.length) :
    ∃ u, round X order first sched t = some u ∧
      (Recovered t first (taken order first t) u ↔
        X ∉ t.channels ∧ (.listen X ∈ first → t.closed = true)) := by
  have hlive : ∃ S, (drainOf (taken order first t)).session = some S :=
    ⟨∅, (allVisited (reconnected order t) first).session⟩
  have hqueued : (taken order first t).queued X ↔ X ∈ t.channels ∨ .listen X ∈ first ∧ t.closed = false :=
    queued_taken hread (containsNUL_of_refused hrun hcall)
  refine ⟨_, round_eq hpc hread, ⟨fun hrec => ?_, fun hcond => ?_⟩⟩
  · -- the drain ends in `receiveOne`, so no request was for `X`
    have hX : ¬ (taken order first t).queued X := by
      intro hq
      have hend : (plays X sched (drainOf (taken order first t))).pc = .reconnect :=
        (plays_pc sched hlive hlong).trans (if_pos hq)
      exact absurd (hend.symm.trans hrec.1) (by simp)
    rw [hqueued] at hX
    refine ⟨fun hreg => hX (.inl hreg), fun hmem => ?_⟩
    by_contra hopen
    exact hX (.inr ⟨hmem, by simpa using hopen⟩)
  · refine recovered_of_not_queued hread (fun hq => ?_) hlong
    rcases hqueued.mp hq with hreg | ⟨hmem, hopen⟩
    · exact hcond.1 hreg
    · exact absurd (hcond.2 hmem) (by simp [hopen])

/-- `Listen` of a channel is refused, and the loop looks for a new connection -/
def refusal : List Ev :=
  [.listen "x", .snapshot, .listenFails, .requeue, .closeConn]

/-- the caller takes the channel back when its `Listen` fails -/
theorem round_recovers_iff_unlistened : ∃ t u, Runs step (Rejects "x") new t ∧
    round "x" [] [.listen "a"] (List.replicate 4 []) t = some u ∧
    Recovered t [.listen "a"] (taken [] [.listen "a"] t) u := by
  have hrun : ∃ t, follow (guarded step (Rejects "x")) new (refusal ++ [.unlisten "x"]) = some t ∧
      (∃ c ∈ t.calls, c.channel = "x" ∧ c.result = some (.error (.refused "x"))) ∧ t.pc = .dial ∧
      Reads [] t.channels ∧ (drainOf (taken [] [.listen "a"] t)).pc.left ≤ 4 ∧ "x" ∉ t.channels := by
    decide +kernel
  obtain ⟨t, ht, hcall, hpc, hread, hlong, hreg⟩ := hrun
  have hruns : Runs step (Rejects "x") new t := .of_follow _ ht
  obtain ⟨u, hu, hiff⟩ : ∃ u, round "x" [] [.listen "a"] (List.replicate 4 []) t = some u ∧ _ :=
    round_recovers_iff hruns hcall hpc hread [.listen "a"] hlong
  exact ⟨t, u, hruns, hu, hiff.mpr ⟨hreg, by simp⟩⟩

/-- after the refusal the loop fails on each new connection: the reconnect issues the `LISTEN` that
the server refuses, and a call for another channel is left waiting -/
theorem refused_round_fails : ∃ t u, follow (guarded step (Rejects "x")) new refusal = some t ∧
    t.calls = [⟨"x", some (.error (.refused "x")), false⟩] ∧ Reads ["x"] t.channels ∧
    round "x" ["x"] [.listen "a"] (List.replicate 7 []) t = some u ∧ u.pc = .reconnect ∧
    u.calls[1]? = some ⟨"a", none, false⟩ ∧
    ¬ Recovered t [.listen "a"] (taken ["x"] [.listen "a"] t) u := by
  have hrun : ∃ t, follow (guarded step (Rejects "x")) new refusal = some t ∧
      t.calls = [⟨"x", some (.error (.refused "x")), false⟩] ∧ Reads ["x"] t.channels ∧
      ∃ u, round "x" ["x"] [.listen "a"] (List.replicate 7 []) t = some u ∧ u.pc = .reconnect ∧
        u.calls[1]? = some ⟨"a", none, false⟩ := by
    decide +kernel
  obtain ⟨t, ht, hcalls, hread, u, hu, hpc, hwaits⟩ := hrun
  refine ⟨t, u, ht, hcalls, hread, hu, hpc, hwaits, fun hrec => ?_⟩
  exact absurd (hpc.symm.trans hrec.1) (by simp)

end PgQueue.Pglisten
