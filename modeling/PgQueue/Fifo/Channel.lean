import PgQueue.Fifo.Lane
import PgQueue.Guarantees.Publishing

/-!
# First in, first out: a channel

The line of a channel are its pending rows, in the order of the table.

* `Channel.lane`, `Channel.quiet`   no TTL and no claim that has run out at a receive; the other calls
                                    are acks and extensions;
* `Channel.orderly`                 **the line of a channel is served at the front.**
-/

namespace PgQueue.Channel
open Relational Process Publisher Fifo List

def lane (q : Queue) : Lane State Op where
  publish := publishToChannel q
  publishBatch := publishBatchToChannel q
  receive := receiveChannel q
  other env op s := (step q env s op).1

def quiet : Rules State Op where
  publish _ := True
  receive env s := env.ttl ≤ 0 ∧ NoneTimedOut env.now s
  other
    | .ack _ | .ackBatch _ _ | .extend _ _ => True
    | _ => False

def Row.isPending (r : Row) : Bool := decide (r.status = .pending)

def Row.place (r : Row) : Time × UUID := (r.availableAt, r.id)

def waiting (s : State) : List (Time × UUID) := (s.msgs.rows.filter Row.isPending).map Row.place

section
variable {q : Queue} {env : Env} {s s' : State} {vis : Duration}

theorem waiting_publish {m : PublishMessage} (h : publishToChannel q env m s = .ok s') :
    waiting s' = waiting s ++ [(env.now, m.id)] := by
  obtain ⟨hn, rfl⟩ := publishToChannel_iff.mp h
  unfold waiting
  rw [Table.rows_insertNew hn, filter_append, map_append]
  rfl

theorem waiting_update {p : Row → Bool} {f : Row → Row} {hf : ∀ r, (f r).id = r.id}
    (hp : ∀ r, p r = true → r.status = .processing)
    (hst : ∀ r, r.status = .processing → (f r).status ≠ .pending) :
    waiting { s with msgs := s.msgs.update p f hf } = waiting s := by
  refine congrArg (List.map Row.place) (Table.filter_update_of_not hf fun r _ hr => ⟨?_, ?_⟩)
  · unfold Row.isPending
    rw [hp r hr]
    rfl
  · exact decide_eq_false (hst r (hp r hr))

theorem waiting_other {op : Op} (h : quiet.other op) : waiting (step q env s op).1 = waiting s := by
  let P := fun x : State × History UUID => waiting x.1 = waiting s
  have hunder : ∀ {id c : UUID} (r : Row), r.underClaim id c = true → r.status = .processing :=
    fun r hr => (underClaim_eq.mp hr).2.2
  cases op with
  | ack r =>
    refine commit'_cases P rfl fun s' hs => ?_
    obtain rfl := ackChannel_ok hs
    exact waiting_update hunder fun _ _ => nofun
  | ackBatch rs k =>
    refine commit_cases P rfl fun res s' hs => ?_
    obtain ⟨-, rfl⟩ := ackChannelBatch_ok hs
    refine waiting_update (fun row hrow => ?_) fun _ _ => nofun
    obtain ⟨r, -, hr⟩ := hit_iff.mp hrow
    exact hunder row hr
  | extend r d =>
    refine commit'_cases P rfl fun s' hs => ?_
    obtain ⟨-, rfl⟩ := extendChannelVisibility_ok hs
    refine waiting_update hunder fun row hrow hpend => ?_
    have hst : row.status = .pending := hpend
    rw [hst] at hrow
    cases hrow
  | _ => exact h.elim

theorem filter_deliverable (httl : env.ttl ≤ 0) (harr : ∀ k ∈ waiting s, k.1 ≤ env.now) :
    s.msgs.rows.filter (Row.deliverable env) = s.msgs.rows.filter Row.isPending := by
  refine filter_congr fun r hr => ?_
  unfold Row.deliverable
  cases hp : r.isPending with
  | false =>
    rw [show decide (r.status = .pending) = false from hp]
    rfl
  | true =>
    have hle : r.availableAt ≤ env.now :=
      harr r.place (mem_map_of_mem (mem_filter.mpr ⟨hr, hp⟩))
    have hw : env.withinTTL r.createdAt = true := by
      unfold Env.withinTTL
      rw [decide_eq_true httl, Bool.true_or]
    rw [show decide (r.status = .pending) = true from hp, decide_eq_true hle, hw]
    rfl

theorem pendingProbe_waiting (httl : env.ttl ≤ 0) (hline : InLine (waiting s))
    (harr : ∀ k ∈ waiting s, k.1 ≤ env.now) :
    pendingProbe env s = (s.msgs.rows.filter Row.isPending).head? := by
  have hfilter := filter_deliverable httl harr
  rw [pendingProbe_deliverable, Table.select_of_pairwise, hfilter]
  rw [hfilter]
  refine (pairwise_map.mp hline).imp fun {a b} hab => ?_
  exact (Int.lt_or_eq_of_le hab.1).imp id fun he => ⟨he, Nat.le_of_lt hab.2⟩

theorem serve_waiting {k : Time × UUID} {rest : List (Time × UUID)} (ha : Admits env vis)
    (hq : quiet.receive env s) (hline : InLine (waiting s)) (harr : ∀ k ∈ waiting s, k.1 ≤ env.now)
    (hw : waiting s = k :: rest) :
    ∃ m s', receiveChannel q env vis s = (.ok m, s') ∧ waiting s' = rest ∧ m.id = k.2 := by
  obtain ⟨r, rows, hrows, rfl, rfl⟩ := map_eq_cons_iff.mp hw
  have hp : pendingProbe env s = some r := by
    rw [pendingProbe_waiting hq.1 hline harr, hrows]
    rfl
  obtain ⟨m, s', hrec, hclaim⟩ := receiveChannel_claims (q := q) ha.1 ha.2 hp
  obtain ⟨hm, rfl⟩ := Prod.mk.inj hclaim
  refine ⟨m, _, hrec, ?_, by rw [← Option.some.inj hm]; rfl⟩
  refine congrArg (List.map Row.place) (Table.filter_update_head (Row.id_claim _ _ _ _) hrows (fun x hx => ?_) rfl)
  rw [decide_eq_true_eq]
  exact ⟨fun he => Table.eq_of_key hx (pendingProbe_eq_some hp).1 he, fun he => he ▸ rfl⟩

end

theorem orderly (q : Queue) : Orderly (lane q) quiet (fun _ => True) waiting where
  publish _ _ h := ⟨trivial, trivial, waiting_publish h⟩
  batch _ hlen h := (publishBatchToChannel_eachTx hlen).mp h
  refused env vis s h := by
    show ∃ e, received s (consumeFromChannel q env vis s) = _
    unfold consumeFromChannel
    cases hv : validateVisibilityTimeout vis with
    | error e => exact ⟨_, rfl⟩
    | ok _ =>
      cases hp : env.paused with
      | true => exact ⟨_, rfl⟩
      | false => exact absurd ⟨hp, hv⟩ h
  empty {env vis s} ha _ hq hw := by
    refine receiveChannel_empty ha.1 ha.2 hq.2 ?_
    have hnil : InLine (waiting s) ∧ ∀ k ∈ waiting s, k.1 ≤ env.now := by
      rw [hw]
      exact ⟨Pairwise.nil, fun _ h => absurd h not_mem_nil⟩
    rw [pendingProbe_waiting hq.1 hnil.1 hnil.2, map_eq_nil_iff.mp hw]
    rfl
  serve ha _ hq hline harr hw := by
    obtain ⟨m, s', hrec, hw', hm⟩ := serve_waiting (q := q) ha hq hline harr hw
    exact ⟨m, s', hrec, trivial, hw', hm⟩
  other _ _ _ _ h := ⟨trivial, waiting_other h⟩

end PgQueue.Channel
