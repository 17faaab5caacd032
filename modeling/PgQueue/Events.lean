import PgQueue.Types
import PgQueue.Lease.Stored

/-!
# What the callers of a queue learn

The history of a queue is a list of `Lease.Event`s, each with the key of the row it is about: a
message id in a channel, a message id and a subscriber in a topic.  It records what publishers,
consumers and operators were told; a failed call leaves no trace in it.
-/

namespace PgQueue
open Lease Relational List

abbrev History (κ : Type) := List (κ × Event UUID Time)

def phaseOf : MessageStatus → Phase
  | .pending => .pending
  | .processing => .processing
  | .completed => .done
  | .acked => .done

section
variable {κ σ α : Type}

def publishedEvents (ks : List κ) : History κ := ks.map fun k => (k, .published)
def replayedEvents (ks : List κ) : History κ := ks.map fun k => (k, .replayed)
def wipedEvents (ks : List κ) : History κ := ks.map fun k => (k, .wiped)

def ackedEvents (key : Receipt → κ) (rs : List Receipt) : History κ :=
  rs.map fun r => (key r, .acked r.claimID)

def nackedEvents (key : Receipt → κ) (rs : List Receipt) : History κ :=
  rs.map fun r => (key r, .nacked r.claimID)

def deliveredEvents (key : Receipt → κ) (deadline : Time) : Option Message → History κ
  | none => []
  | some m => [(key m.receipt, .delivered m.claimID deadline)]

/-- a transaction that fails is rolled back and tells nobody anything -/
def commit (s : σ) (r : Except QueueError (α × σ)) (events : α → History κ) : σ × History κ :=
  match r with
  | .ok (a, s') => (s', events a)
  | .error _ => (s, [])

def commit' (s : σ) (r : Except QueueError σ) (events : History κ) : σ × History κ :=
  match r with
  | .ok s' => (s', events)
  | .error _ => (s, [])

end

/-- the transactions come at a database clock that does not go back -/
def Clocked {α : Type} : Time → List (Env × α) → Prop
  | _, [] => True
  | t, a :: rest => t ≤ a.1.now ∧ Clocked a.1.now rest

theorem Clocked.mono {α : Type} {t t' : Time} {ops : List (Env × α)} (h : Clocked t' ops)
    (ht : t ≤ t') : Clocked t ops := by
  cases ops with
  | nil => trivial
  | cons a rest => exact ⟨Int.le_trans ht h.1, h.2⟩

def clockAfter {α : Type} : Time → List (Env × α) → Time
  | t, [] => t
  | _, a :: rest => clockAfter a.1.now rest

theorem clocked_append {α : Type} {t : Time} {ops ops' : List (Env × α)} :
    Clocked t (ops ++ ops') ↔ Clocked t ops ∧ Clocked (clockAfter t ops) ops' := by
  induction ops generalizing t with
  | nil => exact ⟨fun h => ⟨trivial, h⟩, fun h => h.2⟩
  | cons a rest ih =>
    show t ≤ a.1.now ∧ Clocked a.1.now (rest ++ ops') ↔
      (t ≤ a.1.now ∧ Clocked a.1.now rest) ∧ Clocked (clockAfter a.1.now rest) ops'
    rw [ih, and_assoc]

theorem commit_cases {κ σ α : Type} {s : σ} {r : Except QueueError (α × σ)}
    {events : α → History κ} (P : σ × History κ → Prop) (h0 : P (s, []))
    (h1 : ∀ a s', r = .ok (a, s') → P (s', events a)) : P (commit s r events) := by
  cases r with
  | error e => exact h0
  | ok p => exact h1 p.1 p.2 rfl

theorem commit'_cases {κ σ : Type} {s : σ} {r : Except QueueError σ} {events : History κ}
    (P : σ × History κ → Prop) (h0 : P (s, [])) (h1 : ∀ s', r = .ok s' → P (s', events)) :
    P (commit' s r events) := by
  cases r with
  | error e => exact h0
  | ok s' => exact h1 s' rfl

variable {st : MessageStatus}

theorem phaseOf_eq_pending : phaseOf st = .pending ↔ st = .pending := by
  cases st <;> decide

theorem phaseOf_eq_processing : phaseOf st = .processing ↔ st = .processing := by
  cases st <;> decide

theorem phaseOf_eq_done : phaseOf st = .done ↔ st = .completed ∨ st = .acked := by
  cases st <;> decide

theorem phaseOf_done_of_claim {claim : Option UUID} {c : UUID} (hp : st = .pending → claim = none) :
    (∃ status, some (st, claim) = some (status, some c) ∧ status ≠ .processing) ↔
      phaseOf st = .done ∧ claim = some c := by
  constructor
  · rintro ⟨status, he, hne⟩
    obtain ⟨rfl, rfl⟩ := Prod.mk.inj (Option.some.inj he)
    cases st with
    | pending => exact absurd (hp rfl) nofun
    | processing => exact absurd rfl hne
    | completed | acked => exact ⟨rfl, rfl⟩
  · rintro ⟨hd, rfl⟩
    exact ⟨st, rfl, fun h => by rw [h] at hd; cases hd⟩

/-! ## the receipts of one group -/

theorem nodup_receiptGroup (rs : List Receipt) (k : ReceiptGroupKey) :
    ((receiptGroup rs k).map fun r => (r.messageID, r.claimID)).Nodup := by
  have hnd : (receiptGroup rs k).Nodup := by
    have h := nodup_firstBy id rs
    rw [map_id] at h
    exact filter_sublist.nodup h
  refine Nodup.map_on ?_ hnd
  intro r hr r' hr' he
  have hk : r.groupKey = k := by simpa using (mem_filter.mp hr).2
  have hk' : r'.groupKey = k := by simpa using (mem_filter.mp hr').2
  obtain ⟨he1, he2⟩ := Prod.mk.inj he
  obtain ⟨h1, h2, h3⟩ := ReceiptGroupKey.mk.inj (hk.trans hk'.symm)
  cases r
  cases r'
  simp_all

section
variable {κ : Type} [DecidableEq κ] {key : Receipt → κ} (claim : κ → Option UUID)
  {live : Receipt → Bool} {rs : List Receipt} {ev : UUID → Event UUID Time}

theorem about_live (hlive : ∀ r ∈ rs, live r = true ↔ claim (key r) = some r.claimID)
    (hn : (rs.map fun r => (key r, r.claimID)).Nodup) {x : Receipt} (hx : x ∈ rs) (hl : live x = true) :
    about (key x) ((rs.filter live).map fun r => (key r, ev r.claimID)) = [ev x.claimID] := by
  have hmem : x ∈ rs.filter live := mem_filter.mpr ⟨hx, hl⟩
  have hfilter : ((rs.filter live).filter fun r => decide (key r = key x)) = [x] := by
    rw [← filter_eq_singleton ((filter_sublist.map _).nodup hn) hmem]
    apply filter_congr
    intro y hy
    obtain ⟨hy, hly⟩ := mem_filter.mp hy
    rw [decide_eq_decide, Prod.mk.injEq]
    refine ⟨fun hk => ⟨hk, ?_⟩, fun h => h.1⟩
    have hc := (hlive y hy).mp hly
    rw [hk, (hlive x hx).mp hl] at hc
    exact (Option.some.inj hc).symm
  rw [about_map, hfilter]
  rfl

theorem about_not_live {k : κ} (h : ∀ r ∈ rs, live r = true → key r ≠ k) :
    about k ((rs.filter live).map fun r => (key r, ev r.claimID)) = [] :=
  about_map_not_mem _ fun r hr => h r (mem_filter.mp hr).1 (mem_filter.mp hr).2

end

/-! ## transactions -/

section
variable {κ σ α : Type} [DecidableEq κ] {mint : Nat → UUID} {cap : Nat} {now : Time}
  {view : σ → System κ UUID Time} {s : σ}

theorem moves_commit {r : Except QueueError (α × σ)} {events : α → History κ}
    (h : ∀ a s', r = .ok (a, s') → Moves mint cap now (view s) (events a) (view s')) :
    Moves mint cap now (view s) (commit s r events).2 (view (commit s r events).1) :=
  commit_cases (fun x => Moves mint cap now (view s) x.2 (view x.1)) (Moves.refl _) h

theorem moves_commit' {r : Except QueueError σ} {events : History κ}
    (h : ∀ s', r = .ok s' → Moves mint cap now (view s) events (view s')) :
    Moves mint cap now (view s) (commit' s r events).2 (view (commit' s r events).1) :=
  commit'_cases (fun x => Moves mint cap now (view s) x.2 (view x.1)) (Moves.refl _) h

end

section
variable {κ σ α : Type} {s : σ}

@[simp] theorem minted_nil : minted ([] : History κ) = [] := rfl

theorem minted_map {key : α → κ} {ev : α → Event UUID Time} {l : List α}
    (h : ∀ x c T, ev x ≠ .delivered c T) : minted (l.map fun x => (key x, ev x)) = [] := by
  rw [eq_nil_iff_forall_not_mem]
  intro c hc
  obtain ⟨k, T, hmem⟩ := mem_minted.mp hc
  obtain ⟨x, -, he⟩ := mem_map.mp hmem
  exact h x c T (Prod.mk.inj he).2

theorem minted_commit {r : Except QueueError (α × σ)} {events : α → History κ}
    (h : ∀ a, (minted (events a)).length ≤ 1) : (minted (commit s r events).2).length ≤ 1 :=
  commit_cases (fun x => (minted x.2).length ≤ 1) (Nat.zero_le _) fun a _ _ => h a

theorem minted_commit' {r : Except QueueError σ} {events : History κ}
    (h : (minted events).length ≤ 1) : (minted (commit' s r events).2).length ≤ 1 :=
  commit'_cases (fun x => (minted x.2).length ≤ 1) (Nat.zero_le _) fun _ _ => h

theorem minted_delivered (key : Receipt → κ) (T : Time) (m : Option Message) :
    (minted (deliveredEvents key T m)).length ≤ 1 := by
  cases m with
  | none => exact Nat.zero_le _
  | some m => exact Nat.le_refl _

/-- the events that hand out no claim -/
@[simp] theorem minted_published (ks : List κ) : minted (publishedEvents ks) = [] := minted_map nofun
@[simp] theorem minted_replayed (ks : List κ) : minted (replayedEvents ks) = [] := minted_map nofun
@[simp] theorem minted_wiped (ks : List κ) : minted (wipedEvents ks) = [] := minted_map nofun
@[simp] theorem minted_acked (key : Receipt → κ) (rs : List Receipt) :
    minted (ackedEvents key rs) = [] := minted_map nofun
@[simp] theorem minted_nacked (key : Receipt → κ) (rs : List Receipt) :
    minted (nackedEvents key rs) = [] := minted_map nofun

end

end PgQueue
