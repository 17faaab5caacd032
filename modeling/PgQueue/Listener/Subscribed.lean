import PgQueue.Listener.Model

/-!
# What `Listen` promises

The drain issues the `LISTEN`s it took before the `UNLISTEN`s it took, whatever the order of the
calls was, and `markConfirmed` does not ask whether the channel is still registered.  So an
`Unlisten` and a `Listen` of one channel must not meet in the queues.

* `Apart`        the two calls are kept apart, for each channel;
* `Subscribed`   what then holds between any two events;
* `listen_truthful`   **runs that keep them apart tell the truth.**
-/

namespace PgQueue.Pglisten
open Process List

/-! ## where a channel is -/

def Pc.held : Pc → List ListenReq
  | .drain reqs _ => reqs
  | .mark r reqs _ => r :: reqs
  | .tell r reqs _ => r :: reqs
  | .requeue reqs => reqs
  | _ => []

/-- the request whose `LISTEN` has just succeeded -/
def Pc.issued : Pc → Option ListenReq
  | .mark r _ _ => some r
  | .tell r _ _ => some r
  | _ => none

/-- the `UNLISTEN`s the loop has in hand -/
def Pc.leaving : Pc → List String
  | .drain _ us => us
  | .mark _ _ us => us
  | .tell _ _ us => us
  | _ => []

def Pc.connected : Pc → Bool
  | .requeue _ | .reconnect | .dial | .stopped => false
  | _ => true

def State.queued (s : State) (ch : String) : Prop := ∃ r ∈ s.pending, r.channel = ch

def State.inHand (s : State) (ch : String) : Prop := ∃ r ∈ s.pc.held, r.channel = ch

instance (s : State) (ch : String) : Decidable (s.queued ch) := by
  unfold State.queued
  infer_instance

instance (s : State) (ch : String) : Decidable (s.inHand ch) := by
  unfold State.inHand
  infer_instance

/-- `Unlisten` is called when no `LISTEN` of the channel is queued or in the hands of the loop,
`Listen` when no `UNLISTEN` of the channel is queued -/
def Apart (s : State) : Ev → Prop
  | .listen ch => ch ∉ s.unpending
  | .unlisten ch => ¬ s.queued ch ∧ ¬ s.inHand ch
  | _ => True

instance (s : State) (e : Ev) : Decidable (Apart s e) := by
  cases e <;> unfold Apart <;> infer_instance

/-! ## the calls -/

/-- no `Unlisten` came after the call, and it waits or returned nil -/
def Call.stands (c : Call) : Prop :=
  (c.result = none ∨ c.result = some (.ok ())) ∧ c.revoked = false

/-- the channels of the standing calls are registered -/
def Kept (channels : Finset String) (calls : List Call) : Prop :=
  ∀ c ∈ calls, c.stands → c.channel ∈ channels

theorem channel_answer (r : Except ListenError Unit) (c : Call) :
    (c.answer r).channel = c.channel := by
  unfold Call.answer
  split <;> rfl

theorem Call.stands.of_answer {r : Except ListenError Unit} {c : Call} (h : (c.answer r).stands) :
    c.stands := by
  unfold Call.answer at h
  split at h
  next hn => exact ⟨.inl (Option.isNone_iff_eq_none.mp hn), h.2⟩
  next => exact h

variable {s : State} {calls : List Call} {channels S : Finset String} {r : ListenReq}
  {reqs : List ListenReq} {us order : List String} {P : Call → Prop} {ch : String}

theorem forall_modify (hP : ∀ c r, P c → P (c.answer r)) (h : ∀ c ∈ calls, P c) (i : Nat)
    (g : Call → Except ListenError Unit) : ∀ c ∈ calls.modify i fun c => c.answer (g c), P c := by
  induction calls generalizing i with
  | nil => cases i <;> exact h
  | cons c calls ih =>
    obtain ⟨hc, htail⟩ := forall_mem_cons.mp h
    cases i with
    | zero => exact forall_mem_cons.mpr ⟨hP c _ hc, htail⟩
    | succ i => exact forall_mem_cons.mpr ⟨hc, ih htail i⟩

theorem forall_signal (hP : ∀ c r, P c → P (c.answer r)) (h : ∀ c ∈ calls, P c) (done : Option Nat)
    (r : Except ListenError Unit) : ∀ c ∈ signal done r calls, P c := by
  cases done with
  | none => exact h
  | some i => exact forall_modify hP h i fun _ => r

theorem forall_foldl_signal (hP : ∀ c r, P c → P (c.answer r)) (reqs : List ListenReq)
    (r : Except ListenError Unit) (h : ∀ c ∈ calls, P c) :
    ∀ c ∈ reqs.foldl (fun calls q => signal q.done r calls) calls, P c := by
  induction reqs generalizing calls with
  | nil => exact h
  | cons q reqs ih => exact ih (forall_signal hP h q.done r)

theorem stands_answer (c : Call) (r : Except ListenError Unit) (h : c.stands → c.channel ∈ channels) :
    (c.answer r).stands → (c.answer r).channel ∈ channels := by
  rw [channel_answer]
  exact fun hst => h hst.of_answer

theorem Kept.concat (h : Kept channels calls) {c : Call} (hc : c.stands → c.channel ∈ channels) :
    Kept channels (calls ++ [c]) := by
  intro d hd
  rcases mem_append.mp hd with hd | hd
  · exact h d hd
  · obtain rfl := mem_singleton.mp hd
    exact hc

theorem Kept.insert (h : Kept channels calls) (ch : String) : Kept (insert ch channels) calls :=
  fun c hc hst => Finset.mem_insert_of_mem (h c hc hst)

theorem Kept.revoke (h : Kept channels calls) (ch : String) :
    Kept (channels.erase ch) (calls.map (Call.revoke ch)) := by
  intro d hd hst
  obtain ⟨c, hc, rfl⟩ := mem_map.mp hd
  unfold Call.revoke at hst ⊢
  split at hst
  next => exact absurd hst.2 (by simp)
  next hne =>
    rw [if_neg hne]
    exact Finset.mem_erase.mpr ⟨hne, h c hc hst⟩

theorem Kept.mono {channels' : Finset String} (h : Kept channels calls) (hsub : channels ⊆ channels') :
    Kept channels' calls :=
  fun c hc hst => hsub (h c hc hst)

/-! ## between two events -/

structure Subscribed (s : State) : Prop where
  /-- a request in flight is for a registered channel -/
  queued : ∀ ch, s.queued ch → ch ∈ s.channels
  inHand : ∀ ch, s.inHand ch → ch ∈ s.channels
  confirmed : ∀ ch ∈ s.confirmed, ch ∈ s.channels
  /-- a channel whose `UNLISTEN` is queued is not registered -/
  unpending : ∀ ch ∈ s.unpending, ch ∉ s.channels
  /-- one whose `UNLISTEN` is in hand may be registered again, with a request for the next drain -/
  leaving : ∀ ch ∈ s.pc.leaving, ch ∉ s.confirmed ∧ ¬ s.inHand ch ∧ (ch ∈ s.channels → s.queued ch)
  issued : ∀ r ∈ s.pc.issued, ∀ S ∈ s.session, r.channel ∈ S
  live : ∀ ch ∈ s.confirmed, ∀ S ∈ s.session, ch ∈ S
  /-- a registered channel is subscribed, or a request for it is in flight -/
  covered : s.pc.connected = true → ∀ ch ∈ s.channels, ∀ S ∈ s.session,
    ch ∈ S ∨ s.queued ch ∨ s.inHand ch
  kept : Kept s.channels s.calls

theorem Subscribed.new : Subscribed new where
  queued := fun ch h => absurd h (by simp [State.queued, Pglisten.new])
  inHand := fun ch h => absurd h (by simp [State.inHand, Pglisten.new, Pc.held])
  confirmed := fun ch h => absurd h (Finset.notMem_empty ch)
  unpending := fun ch h => absurd h not_mem_nil
  leaving := fun ch h => absurd h not_mem_nil
  issued := fun r h => absurd h (by simp [Pglisten.new, Pc.issued])
  live := fun ch h => absurd h (Finset.notMem_empty ch)
  covered := fun _ ch h => absurd h (Finset.notMem_empty ch)
  kept := fun c h => absurd h not_mem_nil

/-- the events that change neither the queues nor the maps: the loop lets go of what it has in hand
only when it is done with it, or on its way to a new connection -/
theorem Subscribed.frame {t : State} (h : Subscribed s) (hch : t.channels = s.channels)
    (hco : t.confirmed = s.confirmed) (hpe : t.pending = s.pending) (hun : t.unpending = s.unpending)
    (hheld : ∀ r ∈ t.pc.held, r ∈ s.pc.held) (hleaving : ∀ ch ∈ t.pc.leaving, ch ∈ s.pc.leaving)
    (hissued : ∀ r ∈ t.pc.issued, r ∈ s.pc.issued) (hsession : ∀ S ∈ t.session, S ∈ s.session)
    (hconn : t.pc.connected = true → s.pc.connected = true ∧ s.pc.held = t.pc.held)
    (hkept : Kept s.channels t.calls) : Subscribed t := by
  have hq : ∀ ch, t.queued ch ↔ s.queued ch := fun ch => by unfold State.queued; rw [hpe]
  have hin : ∀ ch, t.inHand ch → s.inHand ch := fun ch ⟨r, hr, hrc⟩ => ⟨r, hheld r hr, hrc⟩
  refine ⟨fun ch hc => ?_, fun ch hc => ?_, fun ch hc => ?_, fun ch hc => ?_, fun ch hc => ?_,
    fun r hr S hS => ?_, fun ch hc S hS => ?_, fun hcon ch hc S hS => ?_, ?_⟩
  · rw [hch]
    exact h.queued ch ((hq ch).mp hc)
  · rw [hch]
    exact h.inHand ch (hin ch hc)
  · rw [hch]
    rw [hco] at hc
    exact h.confirmed ch hc
  · rw [hch]
    rw [hun] at hc
    exact h.unpending ch hc
  · obtain ⟨h₁, h₂, h₃⟩ := h.leaving ch (hleaving ch hc)
    rw [hco, hch, hq]
    exact ⟨h₁, fun hi => h₂ (hin ch hi), h₃⟩
  · exact h.issued r (hissued r hr) S (hsession S hS)
  · rw [hco] at hc
    exact h.live ch hc S (hsession S hS)
  · obtain ⟨hcon', hheld'⟩ := hconn hcon
    rw [hch] at hc
    have hin' : t.inHand ch ↔ s.inHand ch := by unfold State.inHand; rw [hheld']
    rw [hq, hin']
    exact h.covered hcon' ch hc S (hsession S hS)
  · rw [hch]
    exact hkept

theorem Subscribed.of_calls (h : Subscribed s) (hkept : Kept s.channels calls) :
    Subscribed { s with calls := calls } :=
  h.frame rfl rfl rfl rfl (fun _ hr => hr) (fun _ hc => hc) (fun _ hr => hr) (fun _ hS => hS)
    (fun hc => ⟨hc, rfl⟩) hkept

theorem Subscribed.moved (h : Subscribed s) {pc : Pc} {session : Option (Finset String)}
    (hpc : (pc.held, pc.leaving, pc.issued) = ([], [], none))
    (hconn : pc.connected = true → s.pc.connected = true ∧ s.pc.held = [])
    (hsession : ∀ S ∈ session, S ∈ s.session) : Subscribed { s with pc := pc, session := session } := by
  obtain ⟨hheld, hleaving, hissued⟩ : pc.held = [] ∧ pc.leaving = [] ∧ pc.issued = none := by
    simpa using hpc
  refine h.frame rfl rfl rfl rfl (fun r hr => ?_) (fun ch hc => ?_) (fun r hr => ?_) hsession
    (fun hc => ?_) h.kept
  · exact absurd hr (by simp [hheld])
  · exact absurd hc (by simp [hleaving])
  · exact absurd hr (by simp [hissued])
  · rw [hheld]
    exact hconn hc

/-! ### the callers -/

theorem Subscribed.listen (h : Subscribed s) (hapart : ch ∉ s.unpending) :
    Subscribed (listen ch s) := by
  unfold Pglisten.listen
  split
  · exact h.of_calls (h.kept.concat fun hst => absurd hst.1 (by simp))
  split
  · exact h.of_calls (h.kept.concat fun hst => absurd hst.1 (by simp))
  split
  next hc => exact h.of_calls (h.kept.concat fun _ => h.confirmed ch hc)
  next hnc =>
    -- the request is queued with the registration, in one section
    have hq : ∀ x, (∃ r ∈ s.pending ++ [⟨ch, some s.calls.length⟩], r.channel = x) ↔
        s.queued x ∨ x = ch := by
      intro x
      constructor
      · rintro ⟨r, hr, rfl⟩
        rcases mem_append.mp hr with hr | hr
        · exact .inl ⟨r, hr, rfl⟩
        · obtain rfl := mem_singleton.mp hr
          exact .inr rfl
      · rintro (⟨r, hr, hx⟩ | rfl)
        · exact ⟨r, mem_append_left _ hr, hx⟩
        · exact ⟨_, mem_append_right _ (mem_singleton_self _), rfl⟩
    refine ⟨fun x hx => ?_, fun x hx => ?_, fun x hx => ?_, fun x hx => ?_, fun x hx => ?_,
      h.issued, h.live, fun hcon x hx S hS => ?_, ?_⟩
    · rcases (hq x).mp hx with hx | rfl
      · exact Finset.mem_insert_of_mem (h.queued x hx)
      · exact Finset.mem_insert_self _ _
    · exact Finset.mem_insert_of_mem (h.inHand x hx)
    · exact Finset.mem_insert_of_mem (h.confirmed x hx)
    · intro hmem
      rcases Finset.mem_insert.mp hmem with rfl | hmem
      · exact hapart hx
      · exact h.unpending x hx hmem
    · obtain ⟨h₁, h₂, h₃⟩ := h.leaving x hx
      refine ⟨h₁, h₂, fun hmem => (hq x).mpr ?_⟩
      rcases Finset.mem_insert.mp hmem with hxc | hmem
      · exact .inr hxc
      · exact .inl (h₃ hmem)
    · rcases Finset.mem_insert.mp hx with hxc | hx
      · exact .inr (.inl ((hq x).mpr (.inr hxc)))
      · rcases h.covered hcon x hx S hS with hin | hqu | hha
        · exact .inl hin
        · exact .inr (.inl ((hq x).mpr (.inl hqu)))
        · exact .inr (.inr hha)
    · exact (h.kept.insert ch).concat fun _ => Finset.mem_insert_self _ _

theorem Subscribed.unlisten (h : Subscribed s) (hq : ¬ s.queued ch) (hin : ¬ s.inHand ch) :
    Subscribed (unlisten ch s) := by
  have hkept : Kept s.channels (s.calls.map (Call.revoke ch)) :=
    (h.kept.revoke ch).mono (Finset.erase_subset _ _)
  unfold Pglisten.unlisten
  dsimp only
  split
  · exact h.of_calls hkept
  split
  · exact h.of_calls hkept
  split
  · exact h.of_calls hkept
  refine ⟨fun x hx => ?_, fun x hx => ?_, fun x hx => ?_, fun x hx => ?_, fun x hx => ?_,
    h.issued, fun x hx => ?_, fun hcon x hx S hS => ?_, h.kept.revoke ch⟩
  · have hne : x ≠ ch := fun he => hq (he ▸ hx)
    exact Finset.mem_erase.mpr ⟨hne, h.queued x hx⟩
  · have hne : x ≠ ch := fun he => hin (he ▸ hx)
    exact Finset.mem_erase.mpr ⟨hne, h.inHand x hx⟩
  · obtain ⟨hne, hx⟩ := Finset.mem_erase.mp hx
    exact Finset.mem_erase.mpr ⟨hne, h.confirmed x hx⟩
  · rcases mem_append.mp hx with hx | hx
    · exact fun hmem => h.unpending x hx (Finset.mem_of_mem_erase hmem)
    · obtain rfl := mem_singleton.mp hx
      exact Finset.notMem_erase _ _
  · obtain ⟨h₁, h₂, h₃⟩ := h.leaving x hx
    exact ⟨fun hmem => h₁ (Finset.mem_of_mem_erase hmem), h₂,
      fun hmem => h₃ (Finset.mem_of_mem_erase hmem)⟩
  · exact h.live x (Finset.mem_of_mem_erase hx)
  · exact h.covered hcon x (Finset.mem_of_mem_erase hx) S hS

/-! ### the loop -/

theorem Subscribed.snapshot (h : Subscribed s) (hpc : s.pc = .top) :
    Subscribed { s with pending := [], unpending := [], pc := .drain s.pending s.unpending } := by
  refine ⟨fun x hx => ?_, fun x hx => h.queued x hx, h.confirmed, fun x hx => ?_, fun x hx => ?_,
    fun r hr => ?_, h.live, fun _ x hx S hS => ?_, h.kept⟩
  · exact absurd hx (by simp [State.queued])
  · exact absurd hx not_mem_nil
  · have hreg : x ∉ s.channels := h.unpending x hx
    exact ⟨fun hc => hreg (h.confirmed x hc), fun hi => hreg (h.queued x hi),
      fun hmem => absurd hmem hreg⟩
  · exact absurd hr (by simp [Pc.issued])
  · have hnone : ¬ s.inHand x := by simp [State.inHand, hpc, Pc.held]
    rcases h.covered (by rw [hpc]; rfl) x hx S hS with hin | hqu | hha
    · exact .inl hin
    · exact .inr (.inr hqu)
    · exact absurd hha hnone

theorem Subscribed.listenOK (h : Subscribed s) (hpc : s.pc = .drain (r :: reqs) us)
    (hS : s.session = some S) :
    Subscribed { s with session := some (insert r.channel S), pc := .mark r reqs us } := by
  have hin : ∀ x, (∃ q ∈ r :: reqs, q.channel = x) ↔ s.inHand x := by
    intro x
    unfold State.inHand
    rw [hpc]
    rfl
  refine ⟨h.queued, fun x hx => h.inHand x ((hin x).mp hx), h.confirmed, h.unpending,
    fun x hx => ?_, fun q hq T hT => ?_, fun x hx T hT => ?_, fun _ x hx T hT => ?_, h.kept⟩
  · have hx' : x ∈ s.pc.leaving := by rw [hpc]; exact hx
    obtain ⟨h₁, h₂, h₃⟩ := h.leaving x hx'
    exact ⟨h₁, fun hi => h₂ ((hin x).mp hi), h₃⟩
  · obtain rfl : r = q := Option.some.inj hq
    obtain rfl : insert r.channel S = T := Option.some.inj hT
    exact Finset.mem_insert_self _ _
  · obtain rfl : insert r.channel S = T := Option.some.inj hT
    exact Finset.mem_insert_of_mem (h.live x hx S hS)
  · obtain rfl : insert r.channel S = T := Option.some.inj hT
    rcases h.covered (by rw [hpc]; rfl) x hx S hS with hm | hqu | hha
    · exact .inl (Finset.mem_insert_of_mem hm)
    · exact .inr (.inl hqu)
    · exact .inr (.inr ((hin x).mpr hha))

/-- the channel is still registered: no `Unlisten` came while the request was in hand -/
theorem Subscribed.markConfirmed (h : Subscribed s) (hpc : s.pc = .mark r reqs us) :
    Subscribed { s with confirmed := insert r.channel s.confirmed, pc := .tell r reqs us } := by
  have hin : ∀ x, (∃ q ∈ r :: reqs, q.channel = x) ↔ s.inHand x := by
    intro x
    unfold State.inHand
    rw [hpc]
    rfl
  have hr : s.inHand r.channel := (hin _).mp ⟨r, mem_cons_self, rfl⟩
  have hiss : ∀ S ∈ s.session, r.channel ∈ S := h.issued r (by rw [hpc]; rfl)
  refine ⟨h.queued, fun x hx => h.inHand x ((hin x).mp hx), fun x hx => ?_, h.unpending,
    fun x hx => ?_, fun q hq => ?_, fun x hx S hS => ?_, fun _ x hx S hS => ?_, h.kept⟩
  · rcases Finset.mem_insert.mp hx with rfl | hx
    · exact h.inHand _ hr
    · exact h.confirmed x hx
  · have hx' : x ∈ s.pc.leaving := by rw [hpc]; exact hx
    obtain ⟨h₁, h₂, h₃⟩ := h.leaving x hx'
    refine ⟨fun hmem => ?_, fun hi => h₂ ((hin x).mp hi), h₃⟩
    rcases Finset.mem_insert.mp hmem with rfl | hmem
    · exact h₂ hr
    · exact h₁ hmem
  · obtain rfl : r = q := Option.some.inj hq
    exact hiss
  · rcases Finset.mem_insert.mp hx with rfl | hx
    · exact hiss S hS
    · exact h.live x hx S hS
  · rcases h.covered (by rw [hpc]; rfl) x hx S hS with hm | hqu | hha
    · exact .inl hm
    · exact .inr (.inl hqu)
    · exact .inr (.inr ((hin x).mpr hha))

theorem Subscribed.signal (h : Subscribed s) (hpc : s.pc = .tell r reqs us) :
    Subscribed { s with calls := signal r.done (.ok ()) s.calls, pc := .drain reqs us } := by
  have hin : ∀ x, s.inHand x ↔ r.channel = x ∨ ∃ q ∈ reqs, q.channel = x := by
    intro x
    unfold State.inHand
    rw [hpc]
    exact exists_mem_cons_iff _ _ _
  have hiss : ∀ S ∈ s.session, r.channel ∈ S := h.issued r (by rw [hpc]; rfl)
  refine ⟨h.queued, fun x hx => h.inHand x ((hin x).mpr (.inr hx)), h.confirmed, h.unpending,
    fun x hx => ?_, fun q hq => ?_, h.live, fun _ x hx S hS => ?_,
    forall_signal stands_answer h.kept _ _⟩
  · have hx' : x ∈ s.pc.leaving := by rw [hpc]; exact hx
    obtain ⟨h₁, h₂, h₃⟩ := h.leaving x hx'
    exact ⟨h₁, fun hi => h₂ ((hin x).mpr (.inr hi)), h₃⟩
  · exact absurd hq (by simp [Pc.issued])
  · rcases h.covered (by rw [hpc]; rfl) x hx S hS with hm | hqu | hha
    · exact .inl hm
    · exact .inr (.inl hqu)
    · rcases (hin x).mp hha with rfl | hha
      · exact .inl (hiss S hS)
      · exact .inr (.inr hha)

theorem Subscribed.requeue (h : Subscribed s) (hpc : s.pc = .requeue reqs) :
    Subscribed { s with pending := reqs ++ s.pending, pc := .reconnect } := by
  refine ⟨fun x hx => ?_, fun x hx => ?_, h.confirmed, h.unpending, fun x hx => ?_, fun q hq => ?_,
    h.live, fun hcon => ?_, h.kept⟩
  · obtain ⟨q, hq, rfl⟩ := hx
    rcases mem_append.mp hq with hq | hq
    · exact h.inHand _ ⟨q, by rw [hpc]; exact hq, rfl⟩
    · exact h.queued _ ⟨q, hq, rfl⟩
  · exact absurd hx (by simp [State.inHand, Pc.held])
  · exact absurd hx not_mem_nil
  · exact absurd hq (by simp [Pc.issued])
  · exact absurd hcon (by simp [Pc.connected])

/-- an `UNLISTEN` takes nothing away that is confirmed: a channel that was registered again has a
request for the next drain -/
theorem Subscribed.unlistenOK (h : Subscribed s) {u : String} (hpc : s.pc = .drain [] (u :: us))
    (hS : s.session = some S) :
    Subscribed { s with session := some (S.erase u), pc := .drain [] us } := by
  obtain ⟨hu₁, hu₂, hu₃⟩ := h.leaving u (by rw [hpc]; exact mem_cons_self)
  have hin : ∀ x, ¬ s.inHand x := fun x => by simp [State.inHand, hpc, Pc.held]
  refine ⟨h.queued, fun x hx => ?_, h.confirmed, h.unpending, fun x hx => ?_, fun q hq => ?_,
    fun x hx T hT => ?_, fun _ x hx T hT => ?_, h.kept⟩
  · exact absurd hx (by simp [State.inHand, Pc.held])
  · obtain ⟨h₁, h₂, h₃⟩ := h.leaving x (by rw [hpc]; exact mem_cons_of_mem _ hx)
    exact ⟨h₁, by simp [State.inHand, Pc.held], h₃⟩
  · exact absurd hq (by simp [Pc.issued])
  · obtain rfl : S.erase u = T := Option.some.inj hT
    have hne : x ≠ u := fun he => hu₁ (he ▸ hx)
    exact Finset.mem_erase.mpr ⟨hne, h.live x hx S hS⟩
  · obtain rfl : S.erase u = T := Option.some.inj hT
    by_cases hxu : x = u
    · exact .inr (.inl (hxu ▸ hu₃ (hxu ▸ hx)))
    · rcases h.covered (by rw [hpc]; rfl) x hx S hS with hm | hqu | hha
      · exact .inl (Finset.mem_erase.mpr ⟨hxu, hm⟩)
      · exact .inr (.inl hqu)
      · exact absurd hha (hin x)

/-! ### a new session -/

theorem channel_requestsFor {pending : List ListenReq} (hr : r ∈ requestsFor pending ch) :
    r.channel = ch := by
  unfold requestsFor at hr
  split at hr
  · rw [mem_singleton.mp hr]
  · obtain ⟨done, -, rfl⟩ := mem_map.mp hr
    rfl

theorem requestsFor_ne_nil (pending : List ListenReq) (ch : String) : requestsFor pending ch ≠ [] := by
  unfold requestsFor
  split
  · exact cons_ne_nil _ _
  next hne => exact fun he => hne (map_eq_nil_iff.mp he)

theorem queued_reconnected (hread : Reads order s.channels) (ch : String) :
    (reconnected order s).queued ch ↔ ch ∈ s.channels := by
  have hmem : ch ∈ s.channels ↔ ch ∈ order := by
    rw [← hread.2]
    exact mem_toFinset
  rw [hmem]
  constructor
  · rintro ⟨r, hr, rfl⟩
    obtain ⟨x, hx, hrx⟩ := mem_flatMap.mp hr
    rw [channel_requestsFor hrx]
    exact hx
  · intro hch
    obtain ⟨r, hr⟩ := exists_mem_of_ne_nil _ (requestsFor_ne_nil s.pending ch)
    exact ⟨r, mem_flatMap.mpr ⟨ch, hch, hr⟩, channel_requestsFor hr⟩

theorem Subscribed.reconnected (h : Subscribed s) (hread : Reads order s.channels) :
    Subscribed (reconnected order s) := by
  have hq := queued_reconnected hread
  refine ⟨fun x hx => (hq x).mp hx, fun x hx => ?_, fun x hx => ?_, fun x hx => ?_, fun x hx => ?_,
    fun r hr => ?_, fun x hx => ?_, fun _ x hx S hS => .inr (.inl ((hq x).mpr hx)), ?_⟩
  · exact absurd hx (by simp [State.inHand, Pglisten.reconnected, rebuildPendingForReconnect, Pc.held])
  · exact absurd hx (Finset.notMem_empty x)
  · exact absurd hx not_mem_nil
  · exact absurd hx not_mem_nil
  · exact absurd hr (by simp [Pglisten.reconnected, rebuildPendingForReconnect, Pc.issued])
  · exact absurd hx (Finset.notMem_empty x)
  · exact forall_foldl_signal stands_answer _ _ h.kept

/-! ## every run -/

theorem Subscribed.step {t : State} {e : Ev} (h : Subscribed s) (hapart : Apart s e)
    (hstep : step s e = some t) : Subscribed t := by
  cases moves_of_step hstep with
  | listen ch => exact h.listen hapart
  | unlisten ch => exact h.unlisten hapart.1 hapart.2
  | cancel i | leave i => exact h.of_calls (forall_modify stands_answer h.kept i _)
  | close =>
    exact h.frame rfl rfl rfl rfl (fun _ hr => hr) (fun _ hc => hc) (fun _ hr => hr)
      (fun _ hS => hS) (fun hc => ⟨hc, rfl⟩) h.kept
  | lose =>
    exact h.frame rfl rfl rfl rfl (fun _ hr => hr) (fun _ hc => hc) (fun _ hr => hr)
      (fun _ hS => absurd hS (by simp)) (fun hc => ⟨hc, rfl⟩) h.kept
  | snapshot hpc => exact h.snapshot hpc
  | listenOK hpc hS => exact h.listenOK hpc hS
  | listenFails hpc =>
    refine h.frame rfl rfl rfl rfl (fun q hq => ?_) (fun ch hc => absurd hc not_mem_nil)
      (fun q hq => absurd hq (by simp [Pc.issued])) (fun _ hS => hS)
      (fun hc => absurd hc (by simp [Pc.connected])) (forall_signal stands_answer h.kept _ _)
    rw [hpc]
    exact mem_cons_of_mem _ hq
  | markConfirmed hpc => exact h.markConfirmed hpc
  | signal hpc => exact h.signal hpc
  | requeue hpc => exact h.requeue hpc
  | unlistenOK hpc hS => exact h.unlistenOK hpc hS
  | unlistenFails hpc =>
    refine h.frame rfl rfl rfl rfl (fun q hq => absurd hq not_mem_nil) (fun ch hc => ?_)
      (fun q hq => absurd hq (by simp [Pc.issued])) (fun _ hS => hS) (fun _ => ?_) h.kept
    · rw [hpc]
      exact mem_cons_of_mem _ hc
    · rw [hpc]
      exact ⟨rfl, rfl⟩
  | drained hpc | received hpc =>
    exact h.moved rfl (by rw [hpc]; exact fun _ => ⟨rfl, rfl⟩) (fun _ hS => hS)
  | receiveFails =>
    exact h.moved rfl (fun hc => absurd hc (by simp [Pc.connected])) (fun _ hS => hS)
  | closeConn | stop =>
    exact h.moved rfl (fun hc => absurd hc (by simp [Pc.connected])) (fun _ hS => absurd hS (by simp))
  | connect hpc hread => exact h.reconnected hread

/-- an idle loop has no request in flight, so what is registered is subscribed -/
theorem Subscribed.truthful (h : Subscribed s) : Truthful s := by
  refine ⟨fun hidle c hc hres hrev S hS => ?_, h.live⟩
  obtain ⟨hpc, hpend, -⟩ : s.pc = .receive ∧ s.pending = [] ∧ s.unpending = [] := by
    simpa [State.idle] using hidle
  have hreg : c.channel ∈ s.channels := h.kept c hc ⟨.inr hres, hrev⟩
  rcases h.covered (by rw [hpc]; rfl) c.channel hreg S hS with hm | hq | hin
  · exact hm
  · exact absurd hq (by simp [State.queued, hpend])
  · exact absurd hin (by simp [State.inHand, hpc, Pc.held])

/-- **Runs that keep the two calls apart tell the truth.** -/
theorem listen_truthful {s : State} (hrun : Runs step Apart new s) : Truthful s :=
  (hrun.invariant Subscribed .new fun _ _ _ h hapart hstep => h.step hapart hstep).truthful

/-- a channel is registered, taken back and registered again, in three drains; the connection is
lost on the way -/
def inTurn : List Ev :=
  [.listen "q", .snapshot, .listenOK, .markConfirmed, .signal, .drained, .unlisten "q", .received,
    .snapshot, .unlistenOK, .drained, .listen "q", .received, .snapshot, .lose, .listenFails,
    .requeue, .closeConn, .connect ["q"], .listen "q", .snapshot, .listenOK, .markConfirmed, .signal,
    .listenOK, .markConfirmed, .signal, .drained]

theorem listen_truthful_in_turn : ∃ s, Runs step Apart new s ∧ s.idle = true ∧ s.session = some {"q"} ∧
    Truthful s := by
  have hrun : ∃ s, follow (guarded step Apart) new inTurn = some s ∧ s.idle = true ∧
      s.session = some {"q"} := by
    decide +kernel
  obtain ⟨s, hs, hidle, hsession⟩ := hrun
  have hruns : Runs step Apart new s := .of_follow inTurn hs
  exact ⟨s, hruns, hidle, hsession, listen_truthful hruns⟩

/-- an `Unlisten` and a `Listen` of one channel land in one drain -/
def oneDrain : List Ev :=
  [.listen "q", .snapshot, .listenOK, .markConfirmed, .signal, .drained, .unlisten "q", .listen "q",
    .received, .snapshot, .listenOK, .markConfirmed, .signal, .unlistenOK, .drained]

/-- the second `Listen` returned nil and nobody called `Unlisten` since; the session listens on
nothing, and a third `Listen` would return nil at once -/
theorem oneDrain_unsubscribes : ∃ s, follow step new oneDrain = some s ∧ s.idle = true ∧
    s.calls = [⟨"q", some (.ok ()), true⟩, ⟨"q", some (.ok ()), false⟩] ∧ "q" ∈ s.confirmed ∧
    s.session = some ∅ ∧ ¬ Truthful s := by
  decide +kernel

end PgQueue.Pglisten
