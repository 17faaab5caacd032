import PgQueue.Listener.Subscribed
import PgQueue.Process.Ledger

/-!
# The waiters of the listener

A `Listen` call that waits has its `done` channel in one request.  The channel has room for one answer, so
a second one would block the run loop, and a request that is lost leaves its caller waiting.

* `enqueues`, `sends`   the calls an event queues, and those whose `done` channel it sends to;
* `waiting`             the calls in the queue and in the hands of the drain;
* `conserves`           **no event loses or copies a waiter**;
* `waiters_accounted`   **each waiter is answered at most once and is in one place until then; a drain
                        answers all it took, and a reconnect keeps or answers every waiter.**
-/

namespace PgQueue.Pglisten
open Process List
open scoped List

def dones (reqs : List ListenReq) : List Nat := reqs.filterMap ListenReq.done

def waiting (s : State) : List Nat := dones s.pending ++ dones s.pc.held

/-- the calls that queue a request -/
def enqueues (s : State) : Ev → List Nat
  | .listen channel =>
    if containsNUL channel ∨ s.closed = true ∨ channel ∈ s.confirmed then [] else [s.calls.length]
  | _ => []

/-- the `done` channels that the loop sends to -/
def sends (s : State) : Ev → List Nat
  | .listenFails =>
    match s.pc with
    | .drain (r :: _) _ => r.done.toList
    | _ => []
  | .signal =>
    match s.pc with
    | .tell r _ _ => r.done.toList
    | _ => []
  | .connect order => dones (s.pending.filter fun r => r.channel ∉ order)
  | _ => []

/-! ## lists of requests -/

section
variable {reqs : List ListenReq} {ch : String} {order : List String}

theorem dones_append (reqs' : List ListenReq) : dones (reqs ++ reqs') = dones reqs ++ dones reqs' :=
  filterMap_append

theorem dones_cons (r : ListenReq) : dones (r :: reqs) = r.done.toList ++ dones reqs := by
  unfold dones
  rw [filterMap_cons]
  cases r.done <;> rfl

theorem waiters_eq : waiters reqs ch = dones (reqs.filter fun r => r.channel = ch) := by
  unfold waiters dones
  rw [filterMap_filter]
  refine congrArg (fun f => List.filterMap f reqs) (funext fun r => ?_)
  simp only [decide_eq_true_eq]

theorem dones_requestsFor : dones (requestsFor reqs ch) = waiters reqs ch := by
  unfold requestsFor
  split
  · rename_i h
    rw [h]
    rfl
  · unfold dones
    rw [filterMap_map]
    exact filterMap_some

theorem dones_flatMap : dones (order.flatMap (requestsFor reqs)) = order.flatMap (waiters reqs) := by
  unfold dones
  rw [filterMap_flatMap]
  exact congrArg order.flatMap (funext fun ch => dones_requestsFor)

theorem dones_filter (reqs : List ListenReq) (h : ch ∉ order) : dones (reqs.filter fun r => r.channel ∉ order) ~
    waiters reqs ch ++ dones (reqs.filter fun r => r.channel ∉ ch :: order) := by
  have hone : (reqs.filter fun r => r.channel ∉ order).filter (fun r => r.channel = ch) =
      reqs.filter fun r => r.channel = ch := by
    rw [filter_filter]
    refine filter_congr fun r _ => ?_
    by_cases heq : r.channel = ch
    · simp [heq, h]
    · simp [heq]
  have hrest : (reqs.filter fun r => r.channel ∉ order).filter (fun r => !decide (r.channel = ch)) =
      reqs.filter fun r => r.channel ∉ ch :: order := by
    rw [filter_filter]
    refine filter_congr fun r _ => ?_
    simp [mem_cons]
  rw [waiters_eq, ← dones_append, ← hone, ← hrest]
  exact ((filter_append_perm _ _).symm).filterMap _

theorem dones_rebuilt (reqs : List ListenReq) (hnodup : order.Nodup) :
    dones reqs ~ dones (order.flatMap (requestsFor reqs)) ++
      dones (reqs.filter fun r => r.channel ∉ order) := by
  rw [dones_flatMap]
  induction order with
  | nil => simp
  | cons ch order ih =>
    obtain ⟨hch, hnodup⟩ := nodup_cons.mp hnodup
    have hsplit := dones_filter reqs hch
    rw [flatMap_cons]
    calc dones reqs
      _ ~ order.flatMap (waiters reqs) ++ dones (reqs.filter fun r => r.channel ∉ order) := ih hnodup
      _ ~ order.flatMap (waiters reqs) ++
          (waiters reqs ch ++ dones (reqs.filter fun r => r.channel ∉ ch :: order)) := hsplit.append_left _
      _ ~ waiters reqs ch ++ order.flatMap (waiters reqs) ++
          dones (reqs.filter fun r => r.channel ∉ ch :: order) := by
        rw [← append_assoc]
        exact perm_append_comm.append_right _

end

/-! ## one event -/

section
variable {s t : State} {e : Ev} {r : ListenReq} {reqs : List ListenReq} {us : List String}

theorem sends_listenFails (hpc : s.pc = .drain (r :: reqs) us) :
    sends s .listenFails = r.done.toList := by rw [sends, hpc]

theorem sends_signal (hpc : s.pc = .tell r reqs us) :
    sends s .signal = r.done.toList := by rw [sends, hpc]

theorem length_signal (done : Option Nat) (r : Except ListenError Unit) (calls : List Call) :
    (signal done r calls).length = calls.length := by
  cases done with
  | none => rfl
  | some i => exact length_modify _ _ _

theorem length_foldl_signal (r : Except ListenError Unit) (calls : List Call) (reqs : List ListenReq) :
    (reqs.foldl (fun calls q => signal q.done r calls) calls).length = calls.length := by
  induction reqs generalizing calls with
  | nil => rfl
  | cons q reqs ih => exact (ih _).trans (length_signal _ _ _)

theorem foldl_signal (r : Except ListenError Unit) (calls : List Call) (reqs : List ListenReq) :
    reqs.foldl (fun calls q => signal q.done r calls) calls =
      (dones reqs).foldl (fun calls i => calls.modify i (Call.answer r)) calls := by
  induction reqs generalizing calls with
  | nil => rfl
  | cons q reqs ih =>
    rw [foldl_cons, dones_cons, foldl_append, ih]
    cases q.done <;> rfl

theorem answers_sends (h : step s e = some t)
    (he : ∀ ch i, e ≠ .listen ch ∧ e ≠ .unlisten ch ∧ e ≠ .cancel i ∧ e ≠ .leave i) :
    ∃ r, t.calls = (sends s e).foldl (fun calls i => calls.modify i (Call.answer r)) s.calls := by
  have hsignal : ∀ (done : Option Nat) r, signal done r s.calls =
      done.toList.foldl (fun calls i => calls.modify i (Call.answer r)) s.calls := by
    intro done r
    cases done <;> rfl
  cases moves_of_step h with
  | listen ch => exact absurd rfl (he ch 0).1
  | unlisten ch => exact absurd rfl (he ch 0).2.1
  | cancel i => exact absurd rfl (he "" i).2.2.1
  | leave i hclosed => exact absurd rfl (he "" i).2.2.2
  | listenFails hpc =>
    rw [sends_listenFails hpc]
    exact ⟨_, hsignal _ _⟩
  | signal hpc =>
    rw [sends_signal hpc]
    exact ⟨_, hsignal _ _⟩
  | connect hpc hread => exact ⟨.ok (), foldl_signal _ _ _⟩
  | _ => exact ⟨.ok (), rfl⟩

theorem listen_cases (ch : String) (s : State) :
    (listen ch s).pc = s.pc ∧ (listen ch s).calls.length = s.calls.length + 1 ∧
      ((enqueues s (.listen ch) = [] ∧ (listen ch s).pending = s.pending) ∨
        enqueues s (.listen ch) = [s.calls.length] ∧
          (listen ch s).pending = s.pending ++ [⟨ch, some s.calls.length⟩]) := by
  rw [listen, enqueues]
  by_cases hnul : containsNUL ch = true
  · rw [if_pos hnul, if_pos (Or.inl hnul)]
    exact ⟨rfl, length_append, Or.inl ⟨rfl, rfl⟩⟩
  by_cases hclosed : s.closed = true
  · rw [if_neg hnul, if_pos hclosed, if_pos (Or.inr (Or.inl hclosed))]
    exact ⟨rfl, length_append, Or.inl ⟨rfl, rfl⟩⟩
  by_cases hconfirmed : ch ∈ s.confirmed
  · rw [if_neg hnul, if_neg hclosed, if_pos hconfirmed, if_pos (Or.inr (Or.inr hconfirmed))]
    exact ⟨rfl, length_append, Or.inl ⟨rfl, rfl⟩⟩
  · rw [if_neg hnul, if_neg hclosed, if_neg hconfirmed, if_neg]
    · exact ⟨rfl, length_append, Or.inr ⟨rfl, rfl⟩⟩
    · rintro (h | h | h)
      · exact hnul h
      · exact hclosed h
      · exact hconfirmed h

theorem length_calls (h : step s e = some t) : s.calls.length ≤ t.calls.length ∧
    (enqueues s e = [] ∨ enqueues s e = [s.calls.length] ∧ s.calls.length < t.calls.length) := by
  cases moves_of_step h with
  | listen ch =>
    obtain ⟨-, hlen, henq⟩ := listen_cases ch s
    exact ⟨by omega, henq.imp And.left fun henq => ⟨henq.1, by omega⟩⟩
  | unlisten ch =>
    refine ⟨Nat.le_of_eq ?_, Or.inl rfl⟩
    unfold unlisten
    simp only [apply_ite State.calls, length_map, ite_self]
  | cancel | leave => exact ⟨Nat.le_of_eq (length_modify _ _ _).symm, Or.inl rfl⟩
  | listenFails | signal => exact ⟨Nat.le_of_eq (length_signal _ _ _).symm, Or.inl rfl⟩
  | connect hpc hread => exact ⟨Nat.le_of_eq (length_foldl_signal _ _ _).symm, Or.inl rfl⟩
  | _ => exact ⟨Nat.le_refl _, Or.inl rfl⟩

theorem waiting_same (hpending : t.pending = s.pending) (hheld : t.pc.held = s.pc.held) :
    waiting s ~ waiting t := by
  unfold waiting
  rw [hpending, hheld]

theorem waiting_listen (ch : String) :
    enqueues s (.listen ch) ++ waiting s ~ waiting (listen ch s) := by
  obtain ⟨hpc, -, ⟨henq, hpending⟩ | ⟨henq, hpending⟩⟩ := listen_cases ch s
  · rw [henq]
    exact waiting_same hpending (congrArg Pc.held hpc)
  · unfold waiting
    rw [henq, hpending, hpc, dones_append, ← append_assoc]
    exact perm_append_comm.append_right _

theorem waiting_unlisten (ch : String) : waiting s ~ waiting (unlisten ch s) := by
  unfold unlisten
  dsimp only
  split
  · exact .refl _
  split
  · exact .refl _
  split
  · exact .refl _
  · exact .refl _

theorem held_of_stop (h : step s .stop = some t) : s.pc.held = [] := by
  rw [step] at h
  split at h
  · rename_i hpc
    rw [hpc]
    rfl
  · rename_i hpc
    rw [hpc]
    rfl
  · rename_i hpc
    rw [hpc]
    rfl
  · cases h

theorem waiting_answered (hs : s.pc.held = r :: reqs) (hpending : t.pending = s.pending)
    (ht : t.pc.held = reqs) : waiting s ~ r.done.toList ++ waiting t := by
  unfold waiting
  rw [hs, hpending, ht, dones_cons, ← append_assoc, ← append_assoc]
  exact perm_append_comm.append_right _

theorem waiting_connect {order : List String} (hpc : s.pc = .dial) (hread : Reads order s.channels) :
    waiting s ~ sends s (.connect order) ++ waiting (reconnected order s) := by
  have hperm := (dones_rebuilt s.pending hread.1).trans perm_append_comm
  unfold waiting
  rw [hpc, ← append_assoc]
  exact hperm.append_right _

theorem conserves : Conserves step enqueues sends waiting := by
  intro s e t h
  cases moves_of_step h with
  | listen ch => exact waiting_listen ch
  | unlisten ch => exact waiting_unlisten ch
  | cancel | leave | close | lose => exact .refl _
  | snapshot hpc =>
    show dones s.pending ++ dones s.pc.held ~ dones [] ++ dones s.pending
    rw [hpc]
    exact .of_eq (append_nil _)
  | listenOK hpc hS | unlistenOK hpc hS => exact waiting_same rfl (by rw [hpc]; rfl)
  | listenFails hpc =>
    rw [sends_listenFails hpc]
    exact waiting_answered (by rw [hpc]; rfl) rfl rfl
  | markConfirmed hpc | unlistenFails hpc | drained hpc | received hpc | receiveFails hpc
  | closeConn hpc => exact waiting_same rfl (by rw [hpc]; rfl)
  | signal hpc =>
    rw [sends_signal hpc]
    exact waiting_answered (by rw [hpc]; rfl) rfl rfl
  | requeue hpc =>
    rename_i reqs
    show dones s.pending ++ dones s.pc.held ~ dones (reqs ++ s.pending) ++ dones []
    rw [hpc, dones_append]
    exact perm_append_comm.trans (.of_eq (append_nil _).symm)
  | connect hpc hread => exact waiting_connect hpc hread
  | stop hclosed => exact waiting_same rfl (held_of_stop h).symm

end

/-! ## a drain -/

def Pc.draining : Pc → Bool
  | .drain _ _ | .mark _ _ _ | .tell _ _ _ => true
  | _ => false

/-- until it ends, the drain has answered the first of the requests it took and holds the others -/
def Drains (reqs : List ListenReq) (p : State × Ledger Nat) : Prop :=
  p.1.pc.draining = true → p.2.left ++ dones p.1.pc.held = dones reqs

section
variable {s t : State} {e : Ev} {reqs : List ListenReq} {l : Ledger Nat}

theorem Drains.same {entered : List Nat} (h : Drains reqs (s, l)) (hheld : t.pc.held = s.pc.held)
    (hdrain : t.pc.draining = true → s.pc.draining = true) : Drains reqs (t, ⟨entered, l.left ++ []⟩) := by
  intro ht
  rw [hheld, append_nil]
  exact h (hdrain ht)

theorem Drains.step (h : Drains reqs (s, l)) (he : e ≠ .snapshot) (hstep : step s e = some t) :
    Drains reqs (t, ⟨l.entered ++ enqueues s e, l.left ++ sends s e⟩) := by
  cases moves_of_step hstep with
  | listen ch =>
    have hpc := (listen_cases ch s).1
    exact h.same (congrArg Pc.held hpc) fun ht => hpc ▸ ht
  | unlisten ch =>
    have hpc : (unlisten ch s).pc = s.pc := by
      unfold unlisten
      simp only [apply_ite State.pc, ite_self]
    exact h.same (congrArg Pc.held hpc) fun ht => hpc ▸ ht
  | cancel | leave | close | lose => exact h.same rfl id
  | snapshot hpc => exact absurd rfl he
  | listenOK hpc hS | unlistenOK hpc hS => exact h.same (by rw [hpc]; rfl) fun _ => by rw [hpc]; rfl
  | markConfirmed hpc | unlistenFails hpc =>
    exact h.same (by rw [hpc]; rfl) fun _ => by rw [hpc]; rfl
  | signal hpc =>
    rename_i r rs us
    intro _
    have hs := h (by rw [hpc]; rfl)
    rw [hpc] at hs
    rw [sends_signal hpc, append_assoc, ← dones_cons]
    exact hs
  -- these events leave the drain, or are not part of one
  | listenFails hpc => intro ht; cases ht
  | requeue hpc => intro ht; cases ht
  | drained hpc => intro ht; cases ht
  | received hpc => intro ht; cases ht
  | receiveFails hpc => intro ht; cases ht
  | closeConn hpc => intro ht; cases ht
  | connect hpc hread => intro ht; cases ht
  | stop hclosed => intro ht; cases ht

theorem drain_sends {s' : State} {l' : Ledger Nat} (hsnap : Pglisten.step s .snapshot = some t)
    (hrun : Runs (ledgered Pglisten.step enqueues sends) (fun _ e => e ≠ .snapshot) (t, .empty) (s', l'))
    (hend : (Pglisten.step s' .drained).isSome) : l'.left = dones s.pending := by
  have hdrains : Drains s.pending (s', l') := by
    refine hrun.invariant (Drains s.pending) ?_ fun p e q hp he hq => ?_
    · cases moves_of_step hsnap
      exact fun _ => rfl
    · obtain ⟨u, hu, rfl⟩ := ledgered_eq_some.mp hq
      exact hp.step he hu
  obtain ⟨u, hu⟩ := Option.isSome_iff_exists.mp hend
  cases moves_of_step hu with
  | drained hpc =>
    have hleft := hdrains (by rw [hpc]; rfl)
    rw [hpc] at hleft
    exact (append_nil _).symm.trans hleft

/-! ## a reconnect -/

theorem connect_waiter {order : List String} {r : ListenReq} {i : Nat} (hread : Reads order s.channels)
    (hr : r ∈ s.pending) (hi : r.done = some i) :
    (r.channel ∈ s.channels → r ∈ (reconnected order s).pending) ∧
      (r.channel ∉ s.channels → i ∈ sends s (.connect order)) := by
  have hmem : r.channel ∈ order ↔ r.channel ∈ s.channels := by rw [← hread.2, mem_toFinset]
  refine ⟨fun hch => ?_, fun hch => ?_⟩
  · refine mem_flatMap.mpr ⟨r.channel, hmem.mpr hch, ?_⟩
    have hw : i ∈ waiters s.pending r.channel := mem_filterMap.mpr ⟨r, hr, (if_pos rfl).trans hi⟩
    unfold requestsFor
    split
    · rename_i hnil
      rw [hnil] at hw
      cases hw
    · exact mem_map.mpr ⟨i, hw, by rw [← hi]⟩
  · exact mem_filterMap.mpr ⟨r, mem_filter.mpr ⟨hr, decide_eq_true fun h => hch (hmem.mp h)⟩, hi⟩

end

/-! ## runs -/

theorem nodup_entered {s : State} {l : Ledger Nat}
    (hrun : Runs (ledgered step enqueues sends) (fun _ _ => True) (new, .empty) (s, l)) :
    l.entered.Nodup := by
  refine (hrun.invariant (fun p => p.2.entered.Nodup ∧ ∀ i ∈ p.2.entered, i < p.1.calls.length)
    ⟨nodup_nil, fun _ h => absurd h not_mem_nil⟩ fun p e q hp _ hq => ?_).1
  obtain ⟨t, ht, rfl⟩ := ledgered_eq_some.mp hq
  have hold := fun i hi => Nat.lt_of_lt_of_le (hp.2 i hi) (length_calls ht).1
  rcases (length_calls ht).2 with henq | ⟨henq, hlt⟩
  · rw [henq, append_nil]
    exact ⟨hp.1, hold⟩
  · rw [henq]
    refine ⟨hp.1.append (nodup_singleton _) ?_, fun i hi => ?_⟩
    · exact disjoint_singleton.mpr fun hmem => absurd (hp.2 _ hmem) (Nat.lt_irrefl _)
    · rcases mem_append.mp hi with hi | hi
      · exact hold i hi
      · exact mem_singleton.mp hi ▸ hlt

/-- **The waiters are accounted for.**  In every run the `done` channel of a call is sent to at most once;
until then its request is once in the queue or once in the drain, and after that in neither.  A drain that
ends without an error has answered what was queued at its start.  A reconnect keeps or answers every
waiter, one of a registered channel with its own request, one of another channel with an answer.  What is
recorded is what the steps do: a `Listen` queues the request of the recorded call, and a step of the loop
answers the recorded calls and no other. -/
theorem waiters_accounted (s : State) (l : Ledger Nat)
    (hrun : Runs (ledgered step enqueues sends) (fun _ _ => True) (new, .empty) (s, l)) :
    (∀ i, l.left.count i ≤ 1) ∧
    (∀ i ∈ l.entered, i ∉ l.left → (dones s.pending).count i + (dones s.pc.held).count i = 1) ∧
    (∀ i ∈ l.left, i ∈ l.entered ∧ i ∉ dones s.pending ∧ i ∉ dones s.pc.held) ∧
    (∀ t s' l', step s .snapshot = some t →
      Runs (ledgered step enqueues sends) (fun _ e => e ≠ .snapshot) (t, .empty) (s', l') →
      (step s' .drained).isSome → l'.left = dones s.pending) ∧
    (∀ order t, step s (.connect order) = some t →
      dones s.pending ~ sends s (.connect order) ++ dones t.pending ∧
      ∀ r ∈ s.pending, ∀ i, r.done = some i →
        (r.channel ∈ s.channels → r ∈ t.pending) ∧
          (r.channel ∉ s.channels → i ∈ sends s (.connect order))) ∧
    (∀ ch, (listen ch s).pending =
      s.pending ++ (enqueues s (.listen ch)).map fun i => ⟨ch, some i⟩) ∧
    ∀ e t, step s e = some t →
      (∀ ch i, e ≠ .listen ch ∧ e ≠ .unlisten ch ∧ e ≠ .cancel i ∧ e ≠ .leave i) →
      ∃ r, t.calls = (sends s e).foldl (fun calls i => calls.modify i (Call.answer r)) s.calls := by
  have hperm : l.entered ++ [] ~ l.left ++ (dones s.pending ++ dones s.pc.held) := hrun.conserved conserves
  rw [append_nil] at hperm
  have hcount : ∀ i, l.entered.count i =
      l.left.count i + ((dones s.pending).count i + (dones s.pc.held).count i) := by
    intro i
    rw [hperm.count_eq i, count_append, count_append]
  have hone : ∀ i, l.entered.count i ≤ 1 := nodup_iff_count_le_one.mp (nodup_entered hrun)
  refine ⟨fun i => ?_, fun i hi hleft => ?_, fun i hi => ?_, fun t s' l' => drain_sends,
    fun order t ht => ?_, fun ch => ?_, fun e t => answers_sends⟩
  · have h₁ := hcount i
    have h₂ := hone i
    omega
  · have h₁ := hcount i
    have h₂ := hone i
    have h₃ := count_pos_iff.mpr hi
    have h₄ := count_eq_zero.mpr hleft
    omega
  · have h₁ := hcount i
    have h₂ := hone i
    have h₃ := count_pos_iff.mpr hi
    refine ⟨count_pos_iff.mp (by omega), count_eq_zero.mp (by omega),
      count_eq_zero.mp (by omega)⟩
  · cases moves_of_step ht with
    | connect hpc hread =>
      exact ⟨(dones_rebuilt s.pending hread.1).trans perm_append_comm, fun r hr i hi => connect_waiter hread hr hi⟩
  · obtain ⟨-, -, ⟨henq, hpending⟩ | ⟨henq, hpending⟩⟩ := listen_cases ch s
    · rw [henq, hpending]
      exact (append_nil _).symm
    · rw [henq, hpending]
      rfl

/-- two waiters of one channel, and one of a channel that is unlistened while the connection is down -/
def waitersRun : List Ev :=
  [.listen "a", .listen "a", .listen "b", .snapshot, .listenFails, .requeue, .closeConn, .listen "a",
    .unlisten "b", .connect ["a"], .snapshot, .listenOK, .markConfirmed, .signal, .listenOK,
    .markConfirmed]

theorem waiters_accounted_waitersRun :
    ∃ p, follow (guarded (ledgered step enqueues sends) fun _ _ => True) (new, .empty) waitersRun = some p ∧
      p.2 = ⟨[0, 1, 2, 3], [0, 2, 1]⟩ ∧ dones p.1.pc.held = [3] ∧ ∀ i, p.2.left.count i ≤ 1 :=
  ⟨_, rfl, by decide, by decide, (waiters_accounted _ _ (Runs.of_follow waitersRun rfl)).1⟩

end PgQueue.Pglisten
