import PgQueue.Types

/-!
# One consume call on a backlog of timed-out rows

A consume call looks for a pending row first.  If there is none it looks at the timed-out rows, one
after another: a row whose retries are used up is dead-lettered, with a backoff policy any other row is
deferred, and both are passed over; the first row that is neither is delivered.

* `Reclaiming`        what the loop sees of a queue: the rows, the two probes and their orders, what
                      becomes of a row;
* `PassedOver`        the tables after some rows have been passed over, as one set operation;
* `Delivered`         a row was claimed, and only that row;
* `OneCall`           the specification of a call;
* `Lawful`            what is asked of one round of the loop.

`Lawful.oneCall`: **a loop whose rounds are lawful meets the specification.**
-/

namespace PgQueue
open Relational List

/-- the row of `rows` with `p` that is first in the order of `place` -/
structure First {ρ : Type} (p : ρ → Bool) (place : ρ → Time × UUID) (rows : List ρ) (r : ρ) : Prop where
  mem : r ∈ rows
  holds : p r = true
  first : ∀ x ∈ rows, p x = true → Earlier (place r) (place x)

structure Reclaiming (σ ρ φ : Type) where
  rows : σ → List ρ
  id : ρ → UUID
  messageID : ρ → UUID
  retryCount : ρ → Nat
  /-- the payload and the metadata of the row's message -/
  contents : σ → ρ → Bytes × Option Bytes
  available : σ → ρ → Bool
  turn : ρ → Time × UUID
  expired : σ → ρ → Bool
  deadline : ρ → Time × UUID
  exhausted : ρ → Bool
  backoff : Bool
  deferred : ρ → ρ
  claimed : UUID → Nat → ρ → ρ
  gen : Generator
  now : Time
  subscriberID : Option String
  dlq : σ → List DLQRow
  seq : σ → Nat
  /-- what a call does not touch -/
  rest : σ → φ
  fetch : Nat → σ → Except QueueError (Option Message × σ)

namespace Reclaiming

section
variable {σ ρ φ : Type} (R : Reclaiming σ ρ φ)

def passes (r : ρ) : Bool := R.exhausted r || R.backoff

/-- what becomes of a row that is passed over -/
def settle (r : ρ) : Option ρ := if R.exhausted r then none else some (R.deferred r)

def letter (s : σ) (r : ρ) : DLQMessage :=
  ⟨R.messageID r, (R.contents s r).1, R.retryCount r + 1, (R.contents s r).2⟩

structure PassedOver (passed : List ρ) (s s' : σ) : Prop where
  rows : R.rows s' = (R.rows s).filterMap fun r =>
    if R.id r ∈ passed.map R.id then R.settle r else some r
  dlq : R.dlq s' = R.dlq s ++ dlqRows R.gen (R.seq s) R.now R.subscriberID
    (truncateErrorMsg errReasonVisibilityTimeout) ((passed.filter R.exhausted).map (R.letter s))
  seq : R.seq s' = R.seq s + (passed.filter R.exhausted).length
  rest : R.rest s' = R.rest s

structure Delivered (r : ρ) (attempts : Nat) (s : σ) (m : Message) (s' : σ) : Prop where
  id : m.id = R.messageID r
  contents : (m.payload, m.metadata) = R.contents s r
  retryCount : m.retryCount = attempts
  rows : R.rows s' = (R.rows s).map fun x =>
    if R.id x = R.id r then R.claimed m.claimID attempts x else x
  dlq : R.dlq s' = R.dlq s
  rest : R.rest s' = R.rest s

def Drained (s : σ) : Prop := ∀ r ∈ R.rows s, R.available s r = false ∧ R.expired s r = false

/-- how the walk ends: `left` more rows could be passed over, and `rest` are still in the line -/
inductive Ends (s : σ) : Nat → List ρ → Except QueueError (Option Message × σ) → Prop
  | capped (rest : List ρ) : Ends s 0 rest (.ok (none, s))
  | drained (left : Nat) (h : R.Drained s) : Ends s left [] (.ok (none, s))
  | delivered (left : Nat) (r : ρ) (rest : List ρ) (m : Message) (s' : σ) (hr : R.passes r = false)
      (h : R.Delivered r (R.retryCount r + 1) s m s') : Ends s (left + 1) (r :: rest) (.ok (some m, s'))

/-- the walk along the timed-out rows; `s₁` are the tables when it ends -/
structure Walk (limit : Nat) (s : σ) (passed rest : List ρ) (left : Nat) (s₁ : σ) : Prop where
  line : (passed ++ rest).Perm ((R.rows s).filter (R.expired s))
  inOrder : (passed ++ rest).Pairwise fun a b => Earlier (R.deadline a) (R.deadline b)
  within : passed.length + left = limit
  passes : ∀ r ∈ passed, R.passes r = true
  future : ∀ r ∈ passed, R.exhausted r = false → R.now < (R.turn (R.deferred r)).1
  tables : R.PassedOver passed s s₁
  ends : R.Ends s₁ left rest (R.fetch limit s)

structure OneCall (limit : Nat) (s : σ) : Prop where
  pending : (∃ r ∈ R.rows s, R.available s r = true) → ∃ r m s',
    First (R.available s) R.turn (R.rows s) r ∧ R.fetch limit s = .ok (some m, s') ∧
      R.Delivered r (R.retryCount r) s m s'
  reclaim : (∀ r ∈ R.rows s, R.available s r = false) →
    ∃ passed rest left s₁, R.Walk limit s passed rest left s₁

def Distinct (s : σ) : Prop := ((R.rows s).map R.id).Nodup

structure Lawful : Prop where
  id_deferred (r : ρ) : R.id (R.deferred r) = R.id r
  future (r : ρ) : R.backoff = true → R.now < (R.turn (R.deferred r)).1
  available_deferred (s : σ) (r : ρ) : R.now < (R.turn (R.deferred r)).1 →
    R.available s (R.deferred r) = false
  expired_deferred (s : σ) (r : ρ) : R.expired s (R.deferred r) = false
  same (s s' : σ) : R.rest s' = R.rest s →
    R.available s' = R.available s ∧ R.expired s' = R.expired s ∧ R.contents s' = R.contents s
  stop (s : σ) : R.fetch 0 s = .ok (none, s)
  pending (n : Nat) (s : σ) : R.Distinct s → (∃ r ∈ R.rows s, R.available s r = true) →
    ∃ r m s', First (R.available s) R.turn (R.rows s) r ∧ R.fetch (n + 1) s = .ok (some m, s') ∧
      R.Delivered r (R.retryCount r) s m s'
  drained (n : Nat) (s : σ) : R.Drained s → R.fetch (n + 1) s = .ok (none, s)
  reclaim (n : Nat) (s : σ) : R.Distinct s → (∀ r ∈ R.rows s, R.available s r = false) →
    (∃ r ∈ R.rows s, R.expired s r = true) → ∃ r, First (R.expired s) R.deadline (R.rows s) r ∧
      ((R.passes r = true ∧ ∃ s', R.fetch (n + 1) s = R.fetch n s' ∧ R.PassedOver [r] s s') ∨
        (R.passes r = false ∧ ∃ m s', R.fetch (n + 1) s = .ok (some m, s') ∧
          R.Delivered r (R.retryCount r + 1) s m s'))

end

section
variable {σ ρ φ : Type} {R : Reclaiming σ ρ φ} {s s₁ s' : σ} {r x : ρ} {passed rest : List ρ} {n : Nat}

/-! ## rows that are passed over -/

theorem PassedOver.nil (s : σ) : R.PassedOver [] s s where
  rows := filterMap_some.symm
  dlq := (append_nil _).symm
  seq := rfl
  rest := rfl

theorem PassedOver.cons (hl : R.Lawful) (h : R.PassedOver [r] s s₁) (h' : R.PassedOver passed s₁ s')
    (hr : R.id r ∉ passed.map R.id) : R.PassedOver (r :: passed) s s' where
  rows := by
    rw [h'.rows, h.rows, filterMap_filterMap]
    refine filterMap_congr fun x _ => ?_
    by_cases hx : R.id x = R.id r
    · have hone : R.id x ∈ [r].map R.id := mem_singleton.mpr hx
      have hboth : R.id x ∈ (r :: passed).map R.id := mem_cons.mpr (Or.inl hx)
      rw [if_pos hone, if_pos hboth]
      unfold settle
      split
      · rfl
      · rw [Option.bind_some, hl.id_deferred, hx, if_neg hr]
    · have hone : R.id x ∉ [r].map R.id := fun hm => hx (mem_singleton.mp hm)
      have hboth : R.id x ∈ (r :: passed).map R.id ↔ R.id x ∈ passed.map R.id := by
        rw [map_cons, mem_cons]
        exact or_iff_right hx
      rw [if_neg hone, Option.bind_some]
      exact if_congr hboth.symm rfl rfl
  dlq := by
    have hletter : R.letter s₁ = R.letter s := by
      unfold letter
      rw [(hl.same s s₁ h.rest).2.2]
    have hcons : r :: passed = [r] ++ passed := rfl
    rw [h'.dlq, h.dlq, h.seq, hletter, append_assoc, hcons, filter_append,
      map_append, dlqRows_append, length_map]
  seq := by
    rw [h'.seq, h.seq, Nat.add_assoc, ← length_append, ← filter_append,
      singleton_append]
  rest := h'.rest.trans h.rest

theorem Distinct.settle_one (hd : R.Distinct s) (hr : r ∈ R.rows s) {g : ρ → Option ρ}
    (hself : g r = R.settle r) (hother : ∀ x ∈ R.rows s, x ≠ r → g x = some x) :
    (R.rows s).filterMap g = (R.rows s).filterMap fun x =>
      if R.id x ∈ [r].map R.id then R.settle x else some x := by
  refine filterMap_congr fun x hx => ?_
  by_cases hxr : x = r
  · have hmem : R.id x ∈ [r].map R.id := mem_singleton.mpr (congrArg R.id hxr)
    rw [if_pos hmem, hxr, hself]
  · have hmem : R.id x ∉ [r].map R.id := fun hm =>
      hxr (inj_on_of_nodup_map hd hx hr (mem_singleton.mp hm))
    rw [if_neg hmem, hother x hx hxr]

theorem PassedOver.bury {p : ρ → Bool} (hd : R.Distinct s) (hr : r ∈ R.rows s)
    (hex : R.exhausted r = true) (hp : ∀ x ∈ R.rows s, p x = true ↔ x = r)
    (hrows : R.rows s' = (R.rows s).filter fun x => !p x)
    (hdlq : R.dlq s' = R.dlq s ++ dlqRows R.gen (R.seq s) R.now R.subscriberID
      (truncateErrorMsg errReasonVisibilityTimeout) [R.letter s r])
    (hseq : R.seq s' = R.seq s + 1) (hrest : R.rest s' = R.rest s) : R.PassedOver [r] s s' where
  rows := by
    rw [hrows, ← filterMap_eq_filter]
    refine hd.settle_one hr ?_ fun x hx hne => ?_
    · rw [settle, if_pos hex, Option.guard, (hp r hr).mpr rfl]
      rfl
    · rw [Option.guard, Bool.eq_false_iff.mpr fun h => hne ((hp x hx).mp h)]
      rfl
  dlq := by
    rw [hdlq, filter_cons_of_pos hex]
    rfl
  seq := by
    rw [hseq, filter_cons_of_pos hex]
    rfl
  rest := hrest

theorem PassedOver.postpone {p : ρ → Bool} {f : ρ → ρ} (hd : R.Distinct s) (hr : r ∈ R.rows s)
    (hex : R.exhausted r = false) (hp : ∀ x ∈ R.rows s, p x = true ↔ x = r)
    (hrows : R.rows s' = (R.rows s).map fun x => if p x then f x else x) (hf : f r = R.deferred r)
    (hdlq : R.dlq s' = R.dlq s) (hseq : R.seq s' = R.seq s) (hrest : R.rest s' = R.rest s) :
    R.PassedOver [r] s s' := by
  have hnil : [r].filter R.exhausted = [] := filter_cons_of_neg (Bool.not_eq_true _ ▸ hex)
  refine ⟨?_, ?_, ?_, hrest⟩
  · rw [hrows, ← filterMap_eq_map]
    refine hd.settle_one hr ?_ fun x hx hne => ?_
    · rw [settle, hex, Function.comp_apply, (hp r hr).mpr rfl, if_pos rfl, hf]
      rfl
    · rw [Function.comp_apply, if_neg fun h => hne ((hp x hx).mp h)]
  · rw [hdlq, hnil]
    exact (append_nil _).symm
  · rw [hseq, hnil]
    rfl

theorem PassedOver.mem (hd : R.Distinct s) (h : R.PassedOver [r] s s₁) (hr : r ∈ R.rows s)
    (hx : x ∈ R.rows s₁) :
    (x ∈ R.rows s ∧ R.id x ≠ R.id r) ∨ (R.exhausted r = false ∧ x = R.deferred r) := by
  rw [h.rows] at hx
  obtain ⟨y, hy, hyx⟩ := mem_filterMap.mp hx
  split at hyx
  · rename_i hid
    obtain rfl : y = r := inj_on_of_nodup_map hd hy hr (mem_singleton.mp hid)
    unfold settle at hyx
    split at hyx
    · cases hyx
    · rename_i hex
      exact Or.inr ⟨Bool.not_eq_true _ ▸ hex, (Option.some.inj hyx).symm⟩
  · rename_i hid
    cases hyx
    exact Or.inl ⟨hy, fun he => hid (mem_singleton.mpr he)⟩

theorem PassedOver.distinct (hl : R.Lawful) (hd : R.Distinct s) (h : R.PassedOver passed s s₁) :
    R.Distinct s₁ := by
  have hid : ∀ x y, (if R.id x ∈ passed.map R.id then R.settle x else some x) = some y →
      R.id y = R.id x := by
    intro x y hxy
    split at hxy
    · unfold settle at hxy
      split at hxy
      · cases hxy
      · exact Option.some.inj hxy ▸ hl.id_deferred x
    · exact congrArg R.id (Option.some.inj hxy).symm
  unfold Distinct
  rw [h.rows, map_filterMap]
  refine Sublist.nodup ?_ hd
  generalize R.rows s = l
  induction l with
  | nil => exact Sublist.slnil
  | cons x l ih =>
    rw [map_cons]
    cases hx : (if R.id x ∈ passed.map R.id then R.settle x else some x) with
    | none =>
      rw [filterMap_cons_none (by rw [hx]; rfl)]
      exact ih.cons _
    | some y =>
      rw [filterMap_cons_some (by rw [hx]; rfl), hid x y hx]
      exact ih.cons_cons _

theorem PassedOver.available (hl : R.Lawful) (hd : R.Distinct s) (h : R.PassedOver [r] s s₁)
    (hr : r ∈ R.rows s) (hp : R.passes r = true) (hnone : ∀ x ∈ R.rows s, R.available s x = false) :
    ∀ x ∈ R.rows s₁, R.available s₁ x = false := by
  intro x hx
  rcases h.mem hd hr hx with ⟨hx, -⟩ | ⟨hex, rfl⟩
  · rw [(hl.same s s₁ h.rest).1]
    exact hnone x hx
  · unfold passes at hp
    rw [hex, Bool.false_or] at hp
    exact hl.available_deferred s₁ r (hl.future r hp)

theorem PassedOver.line (hl : R.Lawful) (hd : R.Distinct s) (h : R.PassedOver [r] s s₁)
    (hr : r ∈ R.rows s) (he : R.expired s r = true) :
    ((R.rows s).filter (R.expired s)).Perm (r :: (R.rows s₁).filter (R.expired s₁)) := by
  have hnd : ∀ {t}, R.Distinct t → ((R.rows t).filter (R.expired t)).Nodup := fun hd =>
    filter_sublist.nodup (Nodup.of_map R.id hd)
  have hsame := (hl.same s s₁ h.rest).2.1
  have hnew : r ∉ (R.rows s₁).filter (R.expired s₁) := by
    intro hm
    obtain ⟨hm, he'⟩ := mem_filter.mp hm
    rcases h.mem hd hr hm with ⟨-, hne⟩ | ⟨-, hx⟩
    · exact hne rfl
    · rw [hx, hl.expired_deferred] at he'
      cases he'
  refine (perm_ext_iff_of_nodup (hnd hd)
    (nodup_cons.mpr ⟨hnew, hnd (h.distinct hl hd)⟩)).mpr fun x => ?_
  rw [mem_filter, mem_cons, mem_filter, hsame]
  constructor
  · rintro ⟨hx, hex⟩
    by_cases hid : R.id x = R.id r
    · exact Or.inl (inj_on_of_nodup_map hd hx hr hid)
    · refine Or.inr ⟨?_, hex⟩
      rw [h.rows]
      exact mem_filterMap.mpr ⟨x, hx, if_neg fun hm => hid (mem_singleton.mp hm)⟩
  · rintro (rfl | ⟨hx, hex⟩)
    · exact ⟨hr, he⟩
    · rcases h.mem hd hr hx with ⟨hx, -⟩ | ⟨-, rfl⟩
      · exact ⟨hx, hex⟩
      · rw [hl.expired_deferred] at hex
        cases hex

/-! ## the walk -/

theorem Walk.cons {left : Nat} (hl : R.Lawful) (hd : R.Distinct s)
    (hf : First (R.expired s) R.deadline (R.rows s) r) (hp : R.passes r = true)
    (h : R.PassedOver [r] s s₁) (hfetch : R.fetch (n + 1) s = R.fetch n s₁)
    (hw : R.Walk n s₁ passed rest left s') : R.Walk (n + 1) s (r :: passed) rest left s' := by
  have hline : (r :: (passed ++ rest)).Perm ((R.rows s).filter (R.expired s)) :=
    (hw.line.cons r).trans (h.line hl hd hf.mem hf.holds).symm
  refine ⟨hline, pairwise_cons.mpr ⟨fun x hx => ?_, hw.inOrder⟩, ?_, ?_, ?_, ?_, ?_⟩
  · obtain ⟨hx, he⟩ := mem_filter.mp (hline.subset (mem_cons_of_mem r hx))
    exact hf.first x hx he
  · rw [length_cons, ← hw.within, Nat.add_right_comm]
  · exact forall_mem_cons.mpr ⟨hp, hw.passes⟩
  · refine forall_mem_cons.mpr ⟨fun hex => hl.future r ?_, hw.future⟩
    unfold Reclaiming.passes at hp
    rwa [hex, Bool.false_or] at hp
  · refine h.cons hl hw.tables fun hm => ?_
    -- the rows in the line of `s₁` are other rows
    obtain ⟨x, hx, hid⟩ := mem_map.mp hm
    obtain ⟨hx, he⟩ := mem_filter.mp (hw.line.subset (mem_append_left rest hx))
    rcases h.mem hd hf.mem hx with ⟨-, hne⟩ | ⟨-, rfl⟩
    · exact hne hid
    · rw [hl.expired_deferred] at he
      cases he
  · rw [hfetch]
    exact hw.ends

theorem exists_line (R : Reclaiming σ ρ φ) (s : σ) :
    ∃ rest : List ρ, rest.Perm ((R.rows s).filter (R.expired s)) ∧
      rest.Pairwise fun a b => Earlier (R.deadline a) (R.deadline b) :=
  ⟨_, perm_insertionSort _ _, Earlier.pairwise_insertionSort R.deadline _⟩

theorem First.exists_line (hf : First (R.expired s) R.deadline (R.rows s) r) :
    ∃ rest : List ρ, (r :: rest).Perm ((R.rows s).filter (R.expired s)) ∧
      (r :: rest).Pairwise fun a b => Earlier (R.deadline a) (R.deadline b) := by
  obtain ⟨a, b, hab⟩ := append_of_mem (mem_filter.mpr ⟨hf.mem, hf.holds⟩)
  have hperm : ((a ++ b).insertionSort fun x y => Earlier (R.deadline x) (R.deadline y)).Perm (a ++ b) :=
    perm_insertionSort _ _
  have hline : (r :: (a ++ b).insertionSort fun x y => Earlier (R.deadline x) (R.deadline y)).Perm
      ((R.rows s).filter (R.expired s)) := by
    rw [hab]
    exact (hperm.cons r).trans perm_middle.symm
  refine ⟨_, hline, pairwise_cons.mpr ⟨fun x hx => ?_, Earlier.pairwise_insertionSort _ _⟩⟩
  obtain ⟨hx, he⟩ := mem_filter.mp (hline.subset (mem_cons_of_mem r hx))
  exact hf.first x hx he

theorem Walk.of_ends (s : σ) (hperm : rest.Perm ((R.rows s).filter (R.expired s)))
    (hsorted : rest.Pairwise fun a b => Earlier (R.deadline a) (R.deadline b))
    (h : R.Ends s n rest (R.fetch n s)) : R.Walk n s [] rest n s :=
  ⟨hperm, hsorted, Nat.zero_add n, fun _ hr => absurd hr not_mem_nil,
    fun _ hr => absurd hr not_mem_nil, .nil s, h⟩

theorem Lawful.walk (hl : R.Lawful) (limit : Nat) (hd : R.Distinct s)
    (hnone : ∀ r ∈ R.rows s, R.available s r = false) :
    ∃ passed rest left s₁, R.Walk limit s passed rest left s₁ := by
  induction limit generalizing s with
  | zero =>
    obtain ⟨rest, hperm, hsorted⟩ := exists_line R s
    refine ⟨[], rest, 0, s, .of_ends s hperm hsorted ?_⟩
    rw [hl.stop]
    exact .capped rest
  | succ n ih =>
    by_cases hex : ∃ r ∈ R.rows s, R.expired s r = true
    · obtain ⟨r, hf, hround⟩ := hl.reclaim n s hd hnone hex
      rcases hround with ⟨hp, s₁, hfetch, h⟩ | ⟨hp, m, s', hfetch, h⟩
      · obtain ⟨passed, rest, left, s₂, hw⟩ := ih (h.distinct hl hd) (h.available hl hd hf.mem hp hnone)
        exact ⟨r :: passed, rest, left, s₂, hw.cons hl hd hf hp h hfetch⟩
      · obtain ⟨rest, hperm, hsorted⟩ := First.exists_line hf
        refine ⟨[], r :: rest, n + 1, s, .of_ends s hperm hsorted ?_⟩
        rw [hfetch]
        exact .delivered n r rest m s' hp h
    · have hdrained : R.Drained s := fun r hr =>
        ⟨hnone r hr, Bool.eq_false_iff.mpr fun he => hex ⟨r, hr, he⟩⟩
      have hnil : (R.rows s).filter (R.expired s) = [] :=
        filter_eq_nil_iff.mpr fun r hr he => hex ⟨r, hr, he⟩
      refine ⟨[], [], n + 1, s, .of_ends s (hnil ▸ Perm.nil) Pairwise.nil ?_⟩
      rw [hl.drained n s hdrained]
      exact .drained (n + 1) hdrained

theorem Lawful.oneCall (hl : R.Lawful) (limit : Nat) (hd : R.Distinct s) :
    R.OneCall (limit + 1) s :=
  ⟨hl.pending limit s hd, hl.walk (limit + 1) hd⟩

end
end Reclaiming
end PgQueue
