import PgQueue.Guarantees.Replays
import PgQueue.Guarantees.Deliverable
import PgQueue.Collect.Topic

/-!
# Guarantees: dead letters of subscribers that have left

`ReplayDLQ` re-creates the subscription of the subscriber a dead letter names, whether or not it is
active; the garbage collector then deletes the subscription of one that is not.  It also deletes pending
subscriptions of old messages, if it is told to, those of a replay among them.

* `collectEach`     passes of the garbage collector, one after another;
* `Lasting`         what a row has to be for no pass to take it away;   `Awaits.pass`   it stays;
* `of_late_passes`  what two passes at a late clock leave;
* `replayDLQ_keeps_inactive_iff`   the dead letters of inactive subscribers stay, and no dead letter
                                   is lost to the collector, exactly if every dead letter that is due
                                   `Lasts`;
* `replayed_then_collected`        one that is lost.
-/

namespace PgQueue.Topic
open Relational List

/-! ## what a call leaves of a dead letter -/

section
variable {v : ReplayView}

def replayedOf (v : ReplayView) (es : List (Env × DLQRow)) : List DLQRow :=
  (es.map Prod.snd).filter fun d => !(v.records d).isEmpty

theorem records_row (env : Env) (d : DLQRow) : (replayRule.row env d v).2.records = v.records := by
  rw [replayRule_row]
  rfl

theorem replayRule_count (es : List (Env × DLQRow)) :
    (replayRule.rows es v).1 = (replayedOf v es).length := by
  induction es generalizing v with
  | nil => rfl
  | cons e es ih =>
    rw [ReplayRule.rows_cons, ih, replayRule_row]
    unfold replayedOf
    rw [map_cons, filter_cons]
    cases (v.records e.2).isEmpty <;> rfl

theorem replayRule_dlq (es : List (Env × DLQRow)) :
    (replayRule.rows es v).2.dlq =
      v.dlq.filter fun d => !(replayedOf v es).any fun x => decide (x.id = d.id) := by
  induction es generalizing v with
  | nil => exact (filter_true _).symm
  | cons e es ih =>
    rw [ReplayRule.rows_cons, ih, replayRule_row]
    show (v.dlq.filter _).filter _ = _
    rw [filter_filter]
    apply filter_congr
    intro x _
    unfold replayedOf
    rw [map_cons, filter_cons]
    cases (v.records e.2).isEmpty with
    | true => exact Bool.and_true _
    | false =>
      rw [if_neg Bool.false_ne_true, if_pos (show (!false) = true from rfl)]
      simp only [any_cons, any_nil, Bool.or_false, Bool.not_or]
      exact Bool.and_comm _ _

theorem replayRule_created {es : List (Env × DLQRow)} {e : Env × DLQRow} (he : e ∈ es)
    {p : UUID × String} (hp : p ∈ v.records e.2) :
    ((replayRule.rows es v).2.subs.find? p).isSome := by
  have hmono : ∀ (es : List (Env × DLQRow)) (v : ReplayView), (v.subs.find? p).isSome →
      ((replayRule.rows es v).2.subs.find? p).isSome := by
    intro es
    induction es with
    | nil => exact fun v h => h
    | cons e es ih =>
      intro v h
      refine ih _ ?_
      rw [replayRule_row]
      show ((v.subs.insertAll _).find? p).isSome
      rw [Table.find?_insertAll, Option.isSome_or, h]
      rfl
  induction es generalizing v with
  | nil => cases he
  | cons e' es ih =>
    rcases mem_cons.mp he with rfl | he
    · refine hmono es (replayRule.row e.1 e.2 v).2 ?_
      rw [replayRule_row]
      show ((v.subs.insertAll ((v.records e.2).map _)).find? p).isSome
      rw [Table.find?_insertAll, Option.isSome_or, Bool.or_eq_true]
      right
      exact find?_isSome.mpr ⟨_, mem_map_of_mem hp, decide_eq_true rfl⟩
    · apply ih he
      rw [records_row]
      exact hp

theorem replayRule_subs {es : List (Env × DLQRow)} {r : Sub}
    (hr : r ∈ (replayRule.rows es v).2.subs.rows) : r ∈ v.subs.rows ∨ r.status = .pending := by
  induction es generalizing v with
  | nil => exact Or.inl hr
  | cons e es ih =>
    rcases ih hr with hr | hr
    · rw [replayRule_row] at hr
      rcases Table.mem_insertAll hr with hr | hr
      · exact Or.inl hr
      · obtain ⟨p, -, rfl⟩ := mem_map.mp hr
        exact Or.inr rfl
    · exact Or.inr hr

end

/-! ## what the garbage collector keeps -/

def State.isActive (s : State) (x : String) : Bool :=
  s.subscribers.rows.any fun y => decide (y.subscriberID = x) && y.active

/-- a dead letter that names a subscriber who is not active -/
def Inactive (s : State) (d : DLQRow) : Prop := ∃ x, d.subscriberID = some x ∧ s.isActive x = false

/-- passes at these clocks, one after another -/
def collectEach (config : GarbageCollectorConfig) (q : Queue) (fuel : Nat) : List Env → State → Option State
  | [], s => some s
  | env :: envs, s =>
    (Collect.doCollectQueue config q env fuel s).bind fun r => collectEach config q fuel envs r.2

/-- what a pass leaves -/
def collected (policy : RetentionPolicy) (q : Queue) (s : State) (env : Env) : State :=
  (Collect.reclaims q env).apply ((Collect.purges env policy).apply s)

/-- the pair is still to be delivered: it has a dead letter, or a subscription with `H` -/
def Awaits (H : Sub → Prop) (s : State) (p : UUID × String) : Prop :=
  (∃ d ∈ s.dlq, dlqPair d = (p.1, some p.2)) ∨ ∃ r ∈ s.subs.rows, r.key = p ∧ H r

def Unacked (r : Sub) : Prop := r.status ≠ .acked

/-- in processing, and no timeout returns it to pending -/
def Stuck (q : Queue) (r : Sub) : Prop :=
  r.status = .processing ∧ (r.visibilityTimeout = none ∨ q.resolveMaxRetries ≤ r.retryCount)

def Acked (s : State) (p : UUID × String) : Prop := ∃ r ∈ s.subs.rows, r.key = p ∧ r.status = .acked

/-- a dead letter of `s` that is not lost in `s'`: it is still one, or each of its deliveries is
still to come or was acked before -/
def Kept (s s' : State) (d : DLQRow) : Prop :=
  d ∈ s'.dlq ∨ (replayView s).records d ≠ [] ∧
    ∀ p ∈ (replayView s).records d, Acked s p ∨ Awaits Unacked s' p

/-- no purge deletes the rows with `H`, and a timeout leaves them with it -/
structure Lasting (q : Queue) (maxAge : Duration) (H : Sub → Prop) : Prop where
  unacked : ∀ r, H r → Unacked r
  spared : 0 < maxAge → ∀ r, H r → r.status ≠ .pending
  reset : ∀ env r, H r → r.resettable q env = true → H r.reset

section
variable {q : Queue} {env : Env} {s s' : State} {p : UUID × String} {d : DLQRow} {H : Sub → Prop}
  {config : GarbageCollectorConfig} {envs : List Env} {maxAge : Duration} {policy : RetentionPolicy}

theorem isActive_iff {x : String} : s.isActive x = true ↔ x ∈ (replayView s).active := by
  unfold State.isActive ReplayView.active
  rw [any_eq_true, mem_map]
  constructor
  · rintro ⟨y, hy, hp⟩
    rw [Bool.and_eq_true, decide_eq_true_eq] at hp
    exact ⟨y, Table.mem_select.mpr ⟨hy, hp.2⟩, hp.1⟩
  · rintro ⟨y, hy, rfl⟩
    obtain ⟨hy, ha⟩ := Table.mem_select.mp hy
    exact ⟨y, hy, by rw [ha, decide_eq_true rfl]; rfl⟩

theorem isActive_congr (h : s'.subscribers = s.subscribers) (x : String) :
    s'.isActive x = s.isActive x := by
  unfold State.isActive
  rw [h]

theorem lasting_unacked (h : maxAge ≤ 0) : Lasting q maxAge Unacked where
  unacked _ hr := hr
  spared hpos := absurd hpos (Int.not_lt.mpr h)
  reset _ _ _ _ := MessageStatus.pending_ne_acked

theorem lasting_stuck : Lasting q maxAge (Stuck q) where
  unacked r hr := fun h => nomatch hr.1.symm.trans h
  spared _ r hr := fun h => nomatch hr.1.symm.trans h
  reset env r hr h := by
    unfold Sub.resettable Sub.timedOut at h
    rw [Bool.and_eq_true, Bool.and_eq_true, decide_eq_true_eq, decide_eq_true_eq] at h
    rcases hr.2 with hv | hcount
    · rw [hv] at h
      exact absurd h.1.2 Bool.false_ne_true
    · exact absurd h.2 (Nat.not_lt.mpr hcount)

theorem Awaits.mono {H' : Sub → Prop} (h : Awaits H s p) (hH : ∀ r, H r → H' r) : Awaits H' s p :=
  h.imp_right fun ⟨r, hr, hk, hst⟩ => ⟨r, hr, hk, hH r hst⟩

theorem Awaits.deleteSubs {f : Sub → Bool} (h : Awaits H s p)
    (hf : ∀ r ∈ s.subs.rows, r.key = p → H r → f r = false) :
    Awaits H { s with tables := s.tables.deleteChildren f } p := by
  refine h.imp_right fun ⟨r, hr, hk, hst⟩ => ⟨r, mem_filter.mpr ⟨hr, ?_⟩, hk, hst⟩
  rw [hf r hr hk hst]
  rfl

theorem Awaits.deleteMessages {f : MessageRow → Bool} (h : Awaits H s p)
    (hf : ∀ r ∈ s.subs.rows, H r → ∀ m, m.id = r.messageID → f m = false) :
    Awaits H { s with tables := s.tables.deleteParents f } p := by
  refine h.imp_right fun ⟨r, hr, hk, hst⟩ => ⟨r, mem_filter.mpr ⟨hr, ?_⟩, hk, hst⟩
  obtain ⟨m, hm⟩ := s.tables.exists_parentOf hr
  show (!(s.tables.parentOf r).any f) = true
  rw [hm, Option.any_some, hf r hr hst m (Table.key_of_find? hm)]
  rfl

theorem Awaits.promote (h : Awaits H s p) : Awaits H ((Collect.promote q env).apply s) p := by
  rcases h with ⟨d, hd, hp⟩ | ⟨r, hr, hk, hst⟩
  · exact Or.inl ⟨d, mem_append_left _ hd, hp⟩
  · cases hx : r.exhausted q env with
    | false => exact Or.inr ⟨r, mem_filter.mpr ⟨hr, by rw [hx]; rfl⟩, hk, hst⟩
    | true =>
      have hsel : r ∈ s.subs.select (Sub.exhausted q env) (fun a b => a.id ≤ b.id) :=
        Table.mem_select.mpr ⟨hr, hx⟩
      have hpair : r.pair ∈ (Collect.letters q env s.seq ((s.subs.select (Sub.exhausted q env)
          (fun a b => a.id ≤ b.id)).filterMap s.candidate)).map dlqPair := by
        rw [Collect.dlqPair_letters, ← map_map,
          Collect.map_candidate fun x hx => (Table.mem_select.mp hx).1]
        exact mem_map_of_mem hsel
      obtain ⟨d, hd, hdp⟩ := mem_map.mp hpair
      exact Or.inl ⟨d, mem_append_right _ hd, by rw [hdp, ← hk]; rfl⟩

theorem Awaits.reset (hH : Lasting q maxAge H) (h : Awaits H s p) :
    Awaits H ((Collect.reset q env).apply s) p := by
  refine h.imp_right fun ⟨r, hr, hk, hst⟩ => ⟨_, mem_map_of_mem hr, ?_, ?_⟩
  · split
    · exact hk
    · exact hk
  · split
    · exact hH.reset env r hst ‹_›
    · exact hst

theorem not_abandoned (ha : s.isActive p.2 = true) {r : Sub} (hk : r.key = p) :
    s.abandoned env r = false := by
  obtain ⟨y, hy, hyp⟩ := any_eq_true.mp ha
  rw [Bool.and_eq_true, decide_eq_true_eq] at hyp
  have hnone : (s.subscribers.rows.any fun x =>
      decide (x.subscriberID = r.subscriberID) && !x.active) = false := by
    rw [any_eq_false]
    intro x hx hxp
    rw [Bool.and_eq_true, decide_eq_true_eq] at hxp
    have hxy : x = y := Table.eq_of_key hx hy (by rw [hxp.1, hyp.1, ← hk]; rfl)
    rw [hxy, hyp.2] at hxp
    exact Bool.false_ne_true hxp.2
  unfold State.abandoned
  rw [hnone, Bool.false_and]

/-- what each statement of a pass keeps, the pass keeps -/
theorem collected_keeps {I : State → Prop} (hret : policy.dlqRetention ≤ 0)
    (hcompleted : ∀ ttl s, I s →
      I { s with tables := s.tables.deleteParents (s.completedBefore env ttl) })
    (hpending : 0 < policy.maxPendingAge → ∀ s, I s →
      I { s with tables := s.tables.deleteChildren (s.pendingSince env policy.maxPendingAge) })
    (habandoned : ∀ s, I s → I { s with tables := s.tables.deleteChildren (s.abandoned env) })
    (horphan : ∀ s, I s → I { s with tables := s.tables.deleteParents s.orphan })
    (hpromote : ∀ s, I s → I ((Collect.promote q env).apply s))
    (hreset : ∀ s, I s → I ((Collect.reset q env).apply s)) (hs : I s) : I (collected policy q s env) := by
  have hretention : ∀ s, I s → I ((Collect.retention env policy).apply s) :=
    fun s hs => SetOp.all_keeps (forall_mem_cons.mpr ⟨SetOp.when_keeps fun _ => hcompleted _,
      forall_mem_cons.mpr ⟨SetOp.when_keeps hpending, forall_mem_cons.mpr
        ⟨SetOp.when_keeps fun hpos => absurd hpos (Int.not_lt.mpr hret), forall_mem_nil _⟩⟩⟩) hs
  have hpurges : I ((Collect.purges env policy).apply s) :=
    SetOp.all_keeps (forall_mem_cons.mpr ⟨hretention, forall_mem_cons.mpr
      ⟨habandoned, forall_mem_cons.mpr ⟨horphan, forall_mem_nil _⟩⟩⟩) hs
  exact hreset _ (hpromote _ hpurges)

/-- **a pass keeps what an active subscriber is waiting for** -/
theorem Awaits.pass (hret : policy.dlqRetention ≤ 0)
    (hH : Lasting q policy.maxPendingAge H)
    (h : s.isActive p.2 = true ∧ Awaits H s p) :
    (collected policy q s env).isActive p.2 = true ∧ Awaits H (collected policy q s env) p := by
  refine collected_keeps (I := fun s => s.isActive p.2 = true ∧ Awaits H s p) hret ?_ ?_ ?_ ?_ ?_ ?_ h
  · rintro ttl s ⟨ha, h⟩
    refine ⟨ha, h.deleteMessages fun r hr hst m hm => ?_⟩
    have hany : (s.subs.rows.any fun r => decide (r.messageID = m.id) &&
        decide (r.status ≠ .acked)) = true := any_eq_true.mpr
      ⟨r, hr, by rw [decide_eq_true hm.symm]; exact decide_eq_true (hH.unacked r hst)⟩
    unfold State.completedBefore
    rw [hany]
    simp
  · rintro hpos s ⟨ha, h⟩
    refine ⟨ha, h.deleteSubs fun r hr _ hst => ?_⟩
    unfold State.pendingSince
    rw [decide_eq_false (hH.spared hpos r hst), Bool.false_and]
  · exact fun s ⟨ha, h⟩ => ⟨ha, h.deleteSubs fun r _ hk _ => not_abandoned ha hk⟩
  · rintro s ⟨ha, h⟩
    refine ⟨ha, h.deleteMessages fun r hr _ m hm => ?_⟩
    have hany : (s.subs.rows.any fun r => decide (r.messageID = m.id)) = true :=
      any_eq_true.mpr ⟨r, hr, decide_eq_true hm.symm⟩
    unfold State.orphan
    rw [hany]
    rfl
  · exact fun s ⟨ha, h⟩ => ⟨ha, h.promote⟩
  · exact fun s ⟨ha, h⟩ => ⟨ha, h.reset hH⟩

theorem mem_dlq_pass (hret : policy.dlqRetention ≤ 0) (hd : d ∈ s.dlq) :
    d ∈ (collected policy q s env).dlq :=
  collected_keeps (I := fun s => d ∈ s.dlq) hret (fun _ _ h => h) (fun _ _ h => h) (fun _ h => h)
    (fun _ h => h) (fun _ h => mem_append_left _ h) (fun _ h => h) hd

theorem foldl_collected {I : State → Prop} (h : ∀ s env, I s → I (collected policy q s env)) (hs : I s) :
    I (envs.foldl (collected policy q) s) := by
  induction envs generalizing s with
  | nil => exact hs
  | cons env envs ih => exact ih (h s env hs)

theorem collectEach_returns (hpol : config.getPolicy q.name = policy) (hret : policy.dlqRetention ≤ 0)
    (hs : Collect.KeyedSubs s) :
    Returns (fun fuel => collectEach config q fuel envs s) (envs.foldl (collected policy q) s) := by
  subst hpol
  induction envs generalizing s with
  | nil => exact ⟨0, fun _ _ => rfl⟩
  | cons env envs ih =>
    have hkeyed : Collect.Keyed (config.getPolicy q.name) s :=
      ⟨hs, fun hpos => absurd hpos (Int.not_lt.mpr hret)⟩
    have hpurged := ((Collect.realises_purges env _).keeps s hkeyed).subs
    exact (Collect.doCollectQueue_returns config hkeyed).bind
      (ih (Collect.realises_reclaims.keeps _ hpurged))

/-! ## what late passes leave -/

/-- every message is too old to be pending, and every visibility timeout is over -/
structure Late (maxAge : Duration) (now : Time) (s : State) : Prop where
  msgs : ∀ m ∈ s.msgs.rows, m.createdAt < now - maxAge
  subs : ∀ r ∈ s.subs.rows, ∀ t ∈ r.visibilityTimeout, t < now

theorem exists_later (ts : List Time) : ∃ now, ∀ t ∈ ts, t < now := by
  induction ts with
  | nil => exact ⟨0, fun _ h => absurd h not_mem_nil⟩
  | cons t ts ih =>
    obtain ⟨now, h⟩ := ih
    refine ⟨max (t + 1) now, forall_mem_cons.mpr ⟨?_, fun t' ht' => ?_⟩⟩
    · exact Int.lt_of_lt_of_le (Int.lt_succ t) (Int.le_max_left _ _)
    · exact Int.lt_of_lt_of_le (h t' ht') (Int.le_max_right _ _)

theorem exists_late (maxAge : Duration) (s : State) (dlq : List DLQRow) :
    ∃ now, Late maxAge now s ∧ ∀ d ∈ dlq, d.movedAt < now := by
  obtain ⟨now, h⟩ := exists_later (s.msgs.rows.map (fun m => m.createdAt + maxAge) ++
    s.subs.rows.filterMap Sub.visibilityTimeout ++ dlq.map DLQRow.movedAt)
  simp only [mem_append, or_imp, forall_and] at h
  obtain ⟨⟨hmsgs, hsubs⟩, hdlq⟩ := h
  refine ⟨now, ⟨fun m hm => ?_, fun r hr t ht => ?_⟩, fun d hd => hdlq _ (mem_map_of_mem hd)⟩
  · exact Int.lt_sub_right_of_add_lt (hmsgs _ (mem_map_of_mem hm))
  · exact hsubs t (mem_filterMap.mpr ⟨r, hr, ht⟩)

/-- rows are deleted, and nothing else -/
structure Shrinks (s s' : State) : Prop where
  msgs : ∀ m ∈ s'.msgs.rows, m ∈ s.msgs.rows
  subs : ∀ r ∈ s'.subs.rows, r ∈ s.subs.rows
  dlq : s'.dlq = s.dlq

theorem Shrinks.trans {s'' : State} (h : Shrinks s s') (h' : Shrinks s' s'') : Shrinks s s'' :=
  ⟨fun m hm => h.msgs m (h'.msgs m hm), fun r hr => h.subs r (h'.subs r hr), h'.dlq.trans h.dlq⟩

theorem Late.mono {now : Time} (h : Late maxAge now s) (hs : Shrinks s s') : Late maxAge now s' :=
  ⟨fun m hm => h.msgs m (hs.msgs m hm), fun r hr => h.subs r (hs.subs r hr)⟩

theorem shrinks_deleteSubs (f : Sub → Bool) :
    Shrinks s { s with tables := s.tables.deleteChildren f } :=
  ⟨fun _ hm => hm, fun _ hr => (mem_filter.mp hr).1, rfl⟩

theorem shrinks_deleteMessages (f : MessageRow → Bool) :
    Shrinks s { s with tables := s.tables.deleteParents f } :=
  ⟨fun _ hm => (mem_filter.mp hm).1, fun _ hr => (mem_filter.mp hr).1, rfl⟩

theorem shrinks_when {on : Prop} [Decidable on] {op : SetOp State}
    (h : on → ∀ s, Shrinks s (op.apply s)) (s : State) : Shrinks s ((op.when on).apply s) :=
  SetOp.when_keeps (fun hon s' hs' => hs'.trans (h hon s')) s ⟨fun _ h => h, fun _ h => h, rfl⟩

/-- the purge of old pending rows, and what comes before and after it -/
theorem shrinks_purges (env : Env) (s : State) (hret : policy.dlqRetention ≤ 0) : ∃ s₁, Shrinks s s₁ ∧
    Shrinks (((Collect.deleteSubs (State.pendingSince env policy.maxPendingAge)).when
      (policy.maxPendingAge > 0)).apply s₁) ((Collect.purges env policy).apply s) := by
  have hmsgs : Shrinks s (((Collect.deleteMessages (State.completedBefore env
      policy.completedMessageTTL)).when (policy.completedMessageTTL > 0)).apply s) :=
    shrinks_when (fun _ _ => shrinks_deleteMessages _) s
  have hdlq : ∀ s, Shrinks s (((Collect.deleteDLQ (DLQRow.old env policy.dlqRetention)).when
      (policy.dlqRetention > 0)).apply s) :=
    shrinks_when fun hpos => absurd hpos (Int.not_lt.mpr hret)
  exact ⟨_, hmsgs, ((hdlq _).trans (shrinks_deleteSubs _)).trans (shrinks_deleteMessages _)⟩

theorem not_pending_of_late (hl : Late maxAge env.now s) {r : Sub}
    (hr : r ∈ (s.tables.deleteChildren (s.pendingSince env maxAge)).children.rows) :
    r.status ≠ .pending := by
  intro hst
  obtain ⟨hr, hkept⟩ := mem_filter.mp hr
  obtain ⟨m, hm⟩ := s.tables.exists_parentOf hr
  have hold : s.pendingSince env maxAge r = true := by
    unfold State.pendingSince
    rw [decide_eq_true hst, Bool.true_and]
    show (s.tables.parentOf r).any _ = true
    rw [hm, Option.any_some]
    exact decide_eq_true (hl.msgs m (Table.mem_of_find? hm))
  rw [hold] at hkept
  cases hkept

/-- with the purge of old pending rows on, a late purge leaves no pending row -/
theorem purges_late (hret : policy.dlqRetention ≤ 0) (hpos : 0 < policy.maxPendingAge)
    (hl : Late policy.maxPendingAge env.now s) :
    Shrinks s ((Collect.purges env policy).apply s) ∧
      ∀ r ∈ ((Collect.purges env policy).apply s).subs.rows, r.status ≠ .pending := by
  obtain ⟨s₁, h₁, h₂⟩ := shrinks_purges env s hret
  rw [SetOp.when, if_pos hpos] at h₂
  exact ⟨(h₁.trans (shrinks_deleteSubs _)).trans h₂,
    fun r hr => not_pending_of_late (hl.mono h₁) (h₂.subs r hr)⟩

theorem mem_letters {seq : Nat} {cs : List Candidate} (hd : d ∈ Collect.letters q env seq cs) :
    d.movedAt = env.now ∧ ∃ c ∈ cs, dlqPair d = c.sub.pair := by
  induction cs generalizing seq with
  | nil => cases hd
  | cons c cs ih =>
    rcases mem_append.mp hd with hd | hd
    · rw [mem_singleton.mp hd]
      exact ⟨rfl, c, mem_cons_self, rfl⟩
    · obtain ⟨hnow, c', hc', hp⟩ := ih hd
      exact ⟨hnow, c', mem_cons_of_mem _ hc', hp⟩

/-- where the dead letters and the rows after a late pass come from -/
theorem of_late_pass (hret : policy.dlqRetention ≤ 0)
    (hpos : 0 < policy.maxPendingAge)
    (hl : Late policy.maxPendingAge env.now s) :
    (∀ d ∈ (collected policy q s env).dlq, d ∈ s.dlq ∨ d.movedAt = env.now ∧
      ∃ r ∈ s.subs.rows, dlqPair d = r.pair ∧ r.exhausted q env = true) ∧
    (∀ r ∈ (collected policy q s env).subs.rows, ∃ r₀ ∈ s.subs.rows, r₀.status ≠ .pending ∧
      r₀.exhausted q env = false ∧ r = if r₀.resettable q env then r₀.reset else r₀) ∧
    ∀ m ∈ (collected policy q s env).msgs.rows, m ∈ s.msgs.rows := by
  obtain ⟨hsh, hpend⟩ := purges_late hret hpos hl
  refine ⟨fun d hd => ?_, fun r hr => ?_, hsh.msgs⟩
  · rcases mem_append.mp hd with hd | hd
    · exact Or.inl (hsh.dlq ▸ hd)
    · obtain ⟨hnow, c, hc, hp⟩ := mem_letters hd
      obtain ⟨x, hx, hcand⟩ := mem_filterMap.mp hc
      obtain ⟨hx, hex⟩ := Table.mem_select.mp hx
      obtain ⟨m, -, rfl⟩ := Option.map_eq_some_iff.mp hcand
      exact Or.inr ⟨hnow, x, hsh.subs x hx, hp, hex⟩
  · obtain ⟨r₀, hr₀, he⟩ := mem_map.mp hr
    obtain ⟨hr₀, hex⟩ := mem_filter.mp hr₀
    exact ⟨r₀, hsh.subs r₀ hr₀, hpend r₀ hr₀, Bool.not_eq_true' _ ▸ hex, he.symm⟩

theorem stuck_of_exhausted {r : Sub} (h : r.exhausted q env = true) : Stuck q r := by
  unfold Sub.exhausted Sub.timedOut at h
  rw [Bool.and_eq_true, Bool.and_eq_true, decide_eq_true_eq, decide_eq_true_eq] at h
  exact ⟨h.1.1, Or.inr h.2⟩

theorem stuck_of_not_timedOut {r : Sub} (hvis : ∀ t ∈ r.visibilityTimeout, t < env.now)
    (hst : r.status ≠ .pending) (hout : r.timedOut env.now = false) : r.status = .acked ∨ Stuck q r := by
  cases hs : r.status with
  | pending => exact absurd hs hst
  | completed => exact absurd hs r.check
  | acked => exact Or.inl rfl
  | processing =>
    refine Or.inr ⟨hs, Or.inl ?_⟩
    cases hv : r.visibilityTimeout with
    | none => rfl
    | some t =>
      unfold Sub.timedOut at hout
      rw [hs, hv, Option.any_some, decide_eq_true (hvis t hv)] at hout
      cases hout

section
variable (hret : policy.dlqRetention ≤ 0) (hpos : 0 < policy.maxPendingAge)
  (hl : Late policy.maxPendingAge env.now s)
include hret hpos hl

/-- a row that a late pass leaves, and that is not pending, is as it was and has not timed out -/
theorem same_of_late_pass {r : Sub} (hr : r ∈ (collected policy q s env).subs.rows)
    (hst : r.status ≠ .pending) : r ∈ s.subs.rows ∧ r.timedOut env.now = false := by
  obtain ⟨r₀, hr₀, -, hex, rfl⟩ := (of_late_pass hret hpos hl).2.1 r hr
  split at hst
  · exact absurd rfl hst
  · rename_i hres
    rw [if_neg hres]
    refine ⟨hr₀, ?_⟩
    rw [timedOut_split (r₀.timedOut env.now) r₀.retryCount q.resolveMaxRetries]
    exact Bool.or_eq_false_iff.mpr ⟨hex, Bool.eq_false_iff.mpr hres⟩

theorem Late.pass : Late policy.maxPendingAge env.now (collected policy q s env) := by
  obtain ⟨-, hsubs, hmsgs⟩ := of_late_pass (q := q) hret hpos hl
  refine ⟨fun m hm => hl.msgs m (hmsgs m hm), fun r hr t ht => ?_⟩
  obtain ⟨r₀, hr₀, -, -, rfl⟩ := hsubs r hr
  split at ht
  · cases ht
  · exact hl.subs r₀ hr₀ t ht

/-- **two late passes leave the dead letters, the acked rows and the stuck ones** -/
theorem of_late_passes :
    (∀ d ∈ (collected policy q (collected policy q s env) env).dlq, d ∈ s.dlq ∨
      d.movedAt = env.now ∧ ∃ r ∈ s.subs.rows, dlqPair d = r.pair ∧ Stuck q r) ∧
    ∀ r ∈ (collected policy q (collected policy q s env) env).subs.rows,
      r.status = .acked ∨ r ∈ s.subs.rows ∧ Stuck q r := by
  obtain ⟨hdlq, -, -⟩ := of_late_pass (q := q) hret hpos hl
  obtain ⟨hdlq', hsubs', -⟩ := of_late_pass hret hpos (hl.pass (q := q) hret hpos)
  constructor
  · intro d hd
    rcases hdlq' d hd with hd | ⟨-, r, hr, -, hex⟩
    · refine (hdlq d hd).imp_right fun ⟨hnow, r, hr, hp, hex⟩ => ⟨hnow, r, hr, hp, ?_⟩
      exact stuck_of_exhausted hex
    · -- what times out does so in the first pass
      have hst : r.status ≠ .pending := fun h => nomatch h.symm.trans (stuck_of_exhausted hex).1
      unfold Sub.exhausted at hex
      rw [(same_of_late_pass hret hpos hl hr hst).2] at hex
      cases hex
  · intro r hr
    obtain ⟨r₁, hr₁, hst, -, rfl⟩ := hsubs' r hr
    obtain ⟨hmem, hout⟩ := same_of_late_pass hret hpos hl hr₁ hst
    have hres : ¬ r₁.resettable q env = true := by
      unfold Sub.resettable
      rw [hout]
      exact Bool.false_ne_true
    rw [if_neg hres]
    exact (stuck_of_not_timedOut (hl.subs r₁ hmem) hst hout).imp_right fun hstuck => ⟨hmem, hstuck⟩

end

/-! ## a call, and the collector after it -/

theorem records_eq_nil_of_inactive (hd : Inactive s d) :
    (replayView s).records d = [] ↔ s.msgs.find? d.originalMessageID = none := by
  obtain ⟨x, hx, -⟩ := hd
  unfold ReplayView.records ReplayView.exists? dlqRecords
  rw [hx]
  show (if (s.msgs.find? d.originalMessageID).isSome then _ else _) = _ ↔ _
  cases s.msgs.find? d.originalMessageID <;> simp

theorem isActive_of_record (hp : p ∈ (replayView s).records d) (hd : ¬ Inactive s d) :
    s.isActive p.2 = true := by
  unfold ReplayView.records at hp
  split at hp
  · unfold dlqRecords at hp
    split at hp
    · rename_i x hx
      rw [mem_singleton.mp hp]
      exact Bool.not_eq_false _ |>.mp fun h => hd ⟨x, hx, h⟩
    · obtain ⟨x, hx, rfl⟩ := mem_map.mp hp
      exact isActive_iff.mpr hx
  · cases hp

/-- a dead letter of the same delivery is replayed as well -/
theorem records_ne_nil {d' : DLQRow} (hp : p ∈ (replayView s).records d)
    (hpair : dlqPair d' = (p.1, some p.2)) : (replayView s).records d' ≠ [] := by
  unfold ReplayView.records ReplayView.exists? at *
  split at hp
  · rename_i hex
    obtain ⟨hid, hsub⟩ := Prod.mk.inj hpair
    rw [hid, fst_dlqRecords hp, if_pos hex, dlqRecords, hsub]
    exact cons_ne_nil _ _
  · cases hp

section
variable {size limit : Nat} {txn : Nat → Except QueueError Env} {call : ReplayDLQCall State}
  (hk : Keyed s.dlq)
  (hout : Outcome replayRule replayView State.replayLog false size txn ⟨0, 0⟩ (due limit s.dlq) s call)
include hout

theorem subscribers_final : call.final.subscribers = s.subscribers := by
  have hsteady : Steady replayRule (fun _ => .ok (Env.bare 0)) _ _ :=
    steady (fun _ => rfl) (replayView s)
  have hsame := hsteady.rows ⟨rfl, rfl⟩ call.examined
  rw [← hout.ruled.2] at hsame
  exact hsame.2

theorem mem_dlq_of_final {d : DLQRow} (hd : d ∈ call.final.dlq) : d ∈ s.dlq := by
  have hdlq : call.final.dlq = _ := congrArg ReplayView.dlq hout.ruled.2
  rw [hdlq] at hd
  exact (replayRule.dlq_rows_sublist _).subset hd

/-- the call only adds pending rows -/
theorem mem_subs_of_final (hpre : s.subs.rows <+: call.final.subs.rows) {r : Sub}
    (hr : r ∈ call.final.subs.rows) (hst : r.status ≠ .pending) : r ∈ s.subs.rows := by
  have hview : r.withoutID ∈ (replayView call.final).subs.rows := mem_map_of_mem hr
  rw [hout.ruled.2] at hview
  rcases replayRule_subs hview with hold | hpend
  · obtain ⟨r₀, hr₀, heq⟩ := mem_map.mp hold
    have heq : r₀.withoutID = r.withoutID := heq
    have hkey : r₀.key = r.key := by rw [← Sub.key_withoutID, heq, Sub.key_withoutID]
    exact Table.eq_of_key (hpre.subset hr₀) hr hkey ▸ hr₀
  · exact absurd hpend hst

theorem mem_dlq_of_examined {e : Env × DLQRow} (he : e ∈ call.examined) : e.2 ∈ s.dlq := by
  have hmem : e.2 ∈ (call.pages.map Prod.snd).flatten :=
    ReplayRule.map_snd_examined call.pages ▸ mem_map_of_mem he
  exact mem_of_due (hout.read.subset hmem)

include hk in
theorem mem_final_dlq {d : DLQRow} (hd : d ∈ s.dlq) :
    d ∈ call.final.dlq ↔ ¬ (d ∈ call.examined.map Prod.snd ∧ (replayView s).records d ≠ []) := by
  have hdlq : call.final.dlq = s.dlq.filter fun d =>
      !(replayedOf (replayView s) call.examined).any fun x => decide (x.id = d.id) := by
    have h := congrArg ReplayView.dlq hout.ruled.2
    rw [replayRule_dlq] at h
    exact h
  rw [hdlq, mem_filter, and_iff_right hd, Bool.not_eq_true', ← Bool.not_eq_true, not_iff_not,
    any_eq_true]
  constructor
  · rintro ⟨x, hx, he⟩
    obtain ⟨hx, hr⟩ := mem_filter.mp hx
    obtain ⟨e, hmem, rfl⟩ := mem_map.mp hx
    have hsame := inj_on_of_nodup_map hk.nodup (mem_dlq_of_examined hout hmem) hd
      (of_decide_eq_true he)
    rw [← hsame]
    rw [Bool.not_eq_true', isEmpty_eq_false_iff] at hr
    exact ⟨hx, hr⟩
  · rintro ⟨hx, hr⟩
    refine ⟨d, mem_filter.mpr ⟨hx, ?_⟩, decide_eq_true rfl⟩
    rw [Bool.not_eq_true', isEmpty_eq_false_iff]
    exact hr

include hk in
theorem skipped_eq : call.result.skipped =
    (call.examined.countP fun e => decide (e.2 ∈ call.final.dlq) : Nat) := by
  have hrep : call.result.replayed =
      (call.examined.countP fun e => !((replayView s).records e.2).isEmpty : Nat) := by
    rw [hout.ruled.1, replayRule_count]
    unfold replayedOf
    rw [← countP_eq_length_filter, countP_map]
    rfl
  have hsplit := call.examined.length_eq_countP_add_countP
    (fun e => !((replayView s).records e.2).isEmpty)
  have hleft : (call.examined.countP fun e => decide (e.2 ∈ call.final.dlq)) =
      call.examined.countP fun e => decide (¬ (!((replayView s).records e.2).isEmpty) = true) := by
    refine countP_congr fun e he => ?_
    rw [decide_eq_true_eq, mem_final_dlq hk hout (mem_dlq_of_examined hout he), decide_eq_true_eq,
      and_iff_right (mem_map_of_mem he), Bool.not_eq_true', isEmpty_eq_false_iff]
  have htotal := hout.examined_eq
  rw [hleft]
  omega

/-- after the call a record of a replayed dead letter awaits delivery, or it was acked before -/
theorem awaits_of_replayed (hpre : s.subs.rows <+: call.final.subs.rows) {d : DLQRow}
    (hd : d ∈ call.examined.map Prod.snd) (hp : p ∈ (replayView s).records d) :
    Acked s p ∨ Awaits Unacked call.final p := by
  obtain ⟨e, he, rfl⟩ := mem_map.mp hd
  have hsome := replayRule_created he hp
  rw [← hout.ruled.2] at hsome
  obtain ⟨r', hr'⟩ := Option.isSome_iff_exists.mp hsome
  obtain ⟨hr', hkey⟩ := Table.find?_eq_some.mp hr'
  obtain ⟨r, hr, rfl⟩ := mem_map.mp hr'
  by_cases hst : r.status = .acked
  · have hold := mem_subs_of_final hout hpre hr fun h => nomatch h.symm.trans hst
    exact Or.inl ⟨r, hold, hkey, hst⟩
  · exact Or.inr (Or.inr ⟨r, hr, hkey, hst⟩)

end
end

/-- the purge of old pending rows does not reach the delivery: it was acked, its row is stuck, or it has
a dead letter that is not due -/
def Safe (q : Queue) (limit : Nat) (s : State) (p : UUID × String) : Prop :=
  Acked s p ∨ (∃ r ∈ s.subs.rows, r.key = p ∧ Stuck q r) ∨
    ∃ d ∈ s.dlq, d ∉ due limit s.dlq ∧ dlqPair d = (p.1, some p.2)

/-- a dead letter that a replay does not lose: its subscriber is active or its message is gone, and with
the purge of old pending rows on its deliveries are safe -/
def Lasts (q : Queue) (maxAge : Duration) (limit : Nat) (s : State) (d : DLQRow) : Prop :=
  (Inactive s d → s.msgs.find? d.originalMessageID = none) ∧
    (0 < maxAge → ∀ p ∈ (replayView s).records d, Safe q limit s p)

/-- the dead letters of inactive subscribers stay, and whatever passes follow, no dead letter is lost -/
def Keeps (config : GarbageCollectorConfig) (q : Queue) (s : State) (call : ReplayDLQCall State) : Prop :=
  (∀ d ∈ s.dlq, Inactive s d → d ∈ call.final.dlq) ∧
    ∀ envs, ∃ s', Returns (fun fuel => collectEach config q fuel envs call.final) s' ∧
      ∀ d ∈ s.dlq, Kept s s' d

section
variable {q : Queue} {s : State} {config : GarbageCollectorConfig} {size limit : Nat}
  {txn : Nat → Except QueueError Env} {call : ReplayDLQCall State} {d : DLQRow}
  {policy : RetentionPolicy} (hpol : config.getPolicy q.name = policy) (hret : policy.dlqRetention ≤ 0)
  (hk : Keyed s.dlq)
  (hpre : s.subs.rows <+: call.final.subs.rows) (hids : Collect.KeyedSubs call.final)
  (hout : Outcome replayRule replayView State.replayLog false size txn ⟨0, 0⟩ (due limit s.dlq) s call)
include hpol hret hk hpre hids hout

theorem keeps_of_lasts (h : ∀ d ∈ due limit s.dlq, Lasts q policy.maxPendingAge limit s d) :
    Keeps config q s call := by
  have hdue : ∀ {d}, d ∈ call.examined.map Prod.snd → d ∈ due limit s.dlq := fun hd =>
    hout.read.subset (ReplayRule.map_snd_examined call.pages ▸ hd)
  refine ⟨fun d hd hi => ?_, fun envs => ⟨_, collectEach_returns hpol hret hids, fun d hd => ?_⟩⟩
  · refine (mem_final_dlq hk hout hd).mpr fun hrep => hrep.2 ?_
    exact (records_eq_nil_of_inactive hi).mpr ((h d (hdue hrep.1)).1 hi)
  · by_cases hleft : d ∈ call.final.dlq
    · exact Or.inl (foldl_collected (I := fun s => d ∈ s.dlq) (fun _ _ h => mem_dlq_pass hret h) hleft)
    obtain ⟨hex, hrec⟩ := not_not.mp fun hn => hleft ((mem_final_dlq hk hout hd).mpr hn)
    obtain ⟨hgone, hsafe⟩ := h d (hdue hex)
    have hactive : ¬ Inactive s d := fun hi => hrec ((records_eq_nil_of_inactive hi).mpr (hgone hi))
    refine Or.inr ⟨hrec, fun p hp => ?_⟩
    have hact : call.final.isActive p.2 = true := by
      rw [isActive_congr (subscribers_final hout)]
      exact isActive_of_record hp hactive
    have hkept : ∀ {H}, Lasting q policy.maxPendingAge H → Awaits H call.final p →
        Awaits Unacked (envs.foldl (collected policy q) call.final) p := fun hH ha =>
      (foldl_collected (I := fun s => s.isActive p.2 = true ∧ Awaits _ s p)
        (fun _ _ => Awaits.pass hret hH) ⟨hact, ha⟩).2.mono hH.unacked
    by_cases hpos : 0 < policy.maxPendingAge
    · rcases hsafe hpos p hp with hacked | ⟨r, hr, hst⟩ | ⟨d', hd', hnot, hpair⟩
      · exact Or.inl hacked
      · exact Or.inr (hkept lasting_stuck (Or.inr ⟨r, hpre.subset hr, hst⟩))
      · refine Or.inr (hkept lasting_stuck (Or.inl ⟨d', ?_, hpair⟩))
        exact (mem_final_dlq hk hout hd').mpr fun hrep => hnot (hdue hrep.1)
    · exact (awaits_of_replayed hout hpre hex hp).imp_right
        (hkept (lasting_unacked (Int.not_lt.mp hpos)))

theorem lasts_of_keeps (herr : call.error = none) (h : Keeps config q s call)
    (hd : d ∈ due limit s.dlq) : Lasts q policy.maxPendingAge limit s d := by
  have hall : call.examined.map Prod.snd = due limit s.dlq :=
    (ReplayRule.map_snd_examined call.pages).trans (hout.complete herr)
  have hmem := mem_of_due hd
  have hgone : (replayView s).records d ≠ [] → d ∉ call.final.dlq := fun hr hleft =>
    (mem_final_dlq hk hout hmem).mp hleft ⟨hall ▸ hd, hr⟩
  refine ⟨fun hi => ?_, fun hpos p hp => ?_⟩
  · exact (records_eq_nil_of_inactive hi).mp (not_not.mp fun hr => hgone hr (h.1 d hmem hi))
  obtain ⟨now, hl, hdlq⟩ := exists_late policy.maxPendingAge call.final s.dlq
  obtain ⟨s', hs', hkept⟩ := h.2 [Env.bare now, Env.bare now]
  obtain rfl := hs'.unique (collectEach_returns hpol hret hids)
  obtain ⟨hletters, hrows⟩ := of_late_passes hret hpos
    (show Late policy.maxPendingAge (Env.bare now).now call.final from hl)
  have hstuck : ∀ r ∈ call.final.subs.rows, r.key = p → Stuck q r → Safe q limit s p :=
    fun r hr hkey hst => Or.inr (Or.inl ⟨r, mem_subs_of_final hout hpre hr
      (fun h => nomatch h.symm.trans hst.1), hkey, hst⟩)
  rcases hkept d hmem with hleft | ⟨-, hall'⟩
  · rcases hletters d hleft with hleft | ⟨hnow, -⟩
    · exact absurd hleft (hgone (ne_nil_of_mem hp))
    · exact absurd (hdlq d hmem) (hnow ▸ Int.lt_irrefl _)
  rcases hall' p hp with hacked | ⟨d', hd', hpair⟩ | ⟨r, hr, hkey, hun⟩
  · exact Or.inl hacked
  · rcases hletters d' hd' with hd' | ⟨-, r, hr, hrp, hst⟩
    · have hold := mem_dlq_of_final hout hd'
      refine Or.inr (Or.inr ⟨d', hold, fun hdue => ?_, hpair⟩)
      exact (mem_final_dlq hk hout hold).mp hd' ⟨hall ▸ hdue, records_ne_nil hp hpair⟩
    · obtain ⟨h1, h2⟩ := Prod.mk.inj (hrp.symm.trans hpair)
      exact hstuck r hr (Prod.ext h1 (Option.some.inj h2)) hst
  · rcases hrows r hr with hacked | ⟨hr, hst⟩
    · exact absurd hacked hun
    · exact hstuck r hr hkey hst

end
end PgQueue.Topic

namespace PgQueue
open Relational Topic

/-- **Dead letters of subscribers that have left.**  For every call of ReplayDLQ on a topic, followed by
any number of passes of the garbage collector that do not purge dead letters: the dead letters whose
subscriber is not active stay in their table, and no dead letter is lost, if every dead letter that is due
lasts; and only then, unless the call fails.  The rows left are the rows counted as skipped. -/
theorem replayDLQ_keeps_inactive_iff (config : GarbageCollectorConfig) (q : Queue)
    (hret : (config.getPolicy q.name).dlqRetention ≤ 0) {size : Nat} (hsize : 0 < size) (limit : Nat)
    (performedBy : Option String) (txn : Nat → Except QueueError Env) (s : Topic.State)
    (hk : Keyed s.dlq) (hw : Wf q s) :
    ∃ call, Topic.replayDLQ q size limit performedBy false txn s = some call ∧
      call.result.skipped = (call.examined.countP fun e => decide (e.2 ∈ call.final.dlq) : Nat) ∧
      ((∀ d ∈ due limit s.dlq, Lasts q (config.getPolicy q.name).maxPendingAge limit s d) →
        Keeps config q s call) ∧
      (call.error = none → (Keeps config q s call ↔
        ∀ d ∈ due limit s.dlq, Lasts q (config.getPolicy q.name).maxPendingAge limit s d)) := by
  obtain ⟨call, hcall, hout⟩ := replayDLQ_outcome q hsize limit performedBy false txn hk
  have hpre := prefix_replayDLQ hcall
  have hids : Collect.KeyedSubs call.final := Drawn.nodup
    (executeReplayDLQ_keeps (P := Wf q) (fun hs hp => (moves_replayDLQ hs hp).1) hcall hw)
  have hkeeps := keeps_of_lasts rfl hret hk hpre hids hout
  exact ⟨call, hcall, skipped_eq hk hout, hkeeps, fun herr =>
    ⟨fun h d hd => lasts_of_keeps rfl hret hk hpre hids hout herr h hd, hkeeps⟩⟩

def keepDeadLetters : GarbageCollectorConfig := ⟨[], ⟨1000, 0, 0⟩⟩

/-- while the subscriber is active, its dead letter is not lost -/
theorem replayDLQ_keeps_inactive_iff_active :
    let s := (runFrom (Queue.counting 0) Topic.State.init rejectedOnce).1
    ∃ call, Topic.replayDLQ (Queue.counting 0) 100 0 none false (fun _ => .ok (Env.bare 3)) s = some call ∧
      call.result = ⟨1, 0⟩ ∧ Keeps keepDeadLetters (Queue.counting 0) s call := by
  intro s
  have hr : Reach (Queue.counting 0) s _ 2 :=
    (Reach.init 0).ran ⟨by decide, by decide, by decide, by decide, trivial⟩
  obtain ⟨call, hcall, -, hkeeps, -⟩ := replayDLQ_keeps_inactive_iff keepDeadLetters (Queue.counting 0)
    (by decide) (by decide : 0 < 100) 0 none (fun _ => .ok (Env.bare 3)) s ⟨by decide, by decide⟩ hr.wf
  have hres : (Topic.replayDLQ (Queue.counting 0) 100 0 none false (fun _ => .ok (Env.bare 3)) s).map
      ReplayDLQCall.result = some ⟨1, 0⟩ := by decide
  rw [hcall] at hres
  refine ⟨call, hcall, Option.some.inj hres, hkeeps fun d hd => ⟨?_, fun hpos => absurd hpos (by decide)⟩⟩
  rintro ⟨x, hx, hact⟩
  have hone : ∀ d ∈ due 0 s.dlq, d.subscriberID = some "a" := by decide
  rw [hone d hd] at hx
  cases hx
  exact absurd hact (by decide)

/-- the subscriber leaves; its dead letter is replayed, counted as replayed and collected: nothing
is left of the message -/
theorem replayed_then_collected :
    let s := (runFrom (Queue.counting 0) Topic.State.init
      (rejectedOnce ++ [(Env.bare 2, .unsubscribe "a")])).1
    s.dlq.map dlqPair = [(7, some "a")] ∧ s.isActive "a" = false ∧
    (Topic.replayDLQ (Queue.counting 0) defaultDLQReplayPageSize 0 none false
      (fun _ => .ok (Env.bare 3)) s).map (fun call => (call.result, call.final.dlq)) =
        some (⟨1, 0⟩, []) ∧
    ((Topic.replayDLQ (Queue.counting 0) defaultDLQReplayPageSize 0 none false
      (fun _ => .ok (Env.bare 3)) s).bind fun call =>
        (collectEach keepDeadLetters (Queue.counting 0) 1 [Env.bare 4] call.final).map fun s' =>
          (s'.msgs.rows, s'.subs.rows, s'.dlq)) = some ([], [], []) := by
  decide

end PgQueue
