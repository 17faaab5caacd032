import PgQueue.Lease.Machine
import Mathlib.Data.List.Count

/-!
# Leases with fencing tokens: what holds over whole runs

Every quantity below is read off the history of one key.

* `deliveries hk`      deliveries since the item was last published or replayed;
* `deadlineOf c hk`    the deadline of the lease under the token `c`, while it is in force;
* `AckStands c hk`     the item was acked with `c` and neither replayed nor published since;
* `consumed c hk`      how often `c` settled the item.

`Sound` ties them to the slot of the key; `Sound.step` is the step lemma, `Run.sound` the run
lemma.  `Run.minted_nodup` (no token is minted twice) and `Run.consumed_le_one` are about all
keys at once.
-/

set_option linter.unusedSectionVars false

namespace Lease
open List
variable {κ γ τ : Type}

/-! ## reading a history -/

def deliveries (hk : List (Event γ τ)) : Nat :=
  hk.foldl (fun n e => match e with
    | .published => 0
    | .replayed => 0
    | .delivered _ _ => n + 1
    | _ => n) 0

def AckStands (c : γ) (hk : List (Event γ τ)) : Prop :=
  ∃ a b, hk = a ++ .acked c :: b ∧ ∀ e ∈ b, e ≠ .published ∧ e ≠ .replayed

section
variable [DecidableEq γ]

def deadlineOf (c : γ) (hk : List (Event γ τ)) : Option τ :=
  hk.foldl (fun d e => match e with
    | .delivered c' T => if c' = c then some T else d
    | .extended c' T => if c' = c then some T else d
    | .acked c' => if c' = c then none else d
    | .nacked c' => if c' = c then none else d
    | .wiped => none
    | _ => d) none

def Event.consumes (c : γ) : Event γ τ → Bool
  | .acked c' => decide (c' = c)
  | .nacked c' => decide (c' = c)
  | _ => false

def consumed (c : γ) (hk : List (Event γ τ)) : Nat := hk.countP (Event.consumes c)

end

theorem ackStands_snoc (c : γ) (hk : List (Event γ τ)) (e : Event γ τ) :
    AckStands c (hk ++ [e]) ↔
      e = .acked c ∨ AckStands c hk ∧ e ≠ .published ∧ e ≠ .replayed := by
  constructor
  · rintro ⟨a, b, h, hb⟩
    rcases eq_nil_or_concat b with rfl | ⟨b, x, rfl⟩
    · have he := (append_inj' h rfl).2
      exact Or.inl (singleton_inj.mp he)
    · rw [concat_eq_append] at h hb
      rw [← cons_append, ← append_assoc] at h
      obtain ⟨hl, hx⟩ := append_inj' h rfl
      have hx := singleton_inj.mp hx
      refine Or.inr ⟨⟨a, b, hl, fun y hy => hb y (mem_append_left _ hy)⟩, ?_⟩
      exact hx ▸ hb x (by simp)
  · rintro (rfl | ⟨⟨a, b, rfl, hb⟩, he⟩)
    · exact ⟨hk, [], rfl, by simp⟩
    · refine ⟨a, b ++ [e], by simp, ?_⟩
      intro y hy
      rcases mem_append.mp hy with hy | hy
      · exact hb y hy
      · exact (mem_singleton.mp hy) ▸ he

theorem ackStands_append {c : γ} {es : List (Event γ τ)} (h : .acked c ∉ es)
    (hk : List (Event γ τ)) :
    AckStands c (hk ++ es) ↔ AckStands c hk ∧ ∀ e ∈ es, e ≠ .published ∧ e ≠ .replayed := by
  induction es generalizing hk with
  | nil => simp
  | cons e es ih =>
    have he : e ≠ .acked c := fun he => h (he ▸ mem_cons_self)
    rw [append_cons, ih (fun hm => h (mem_cons_of_mem _ hm)), ackStands_snoc,
      or_iff_right he, forall_mem_cons, and_assoc]

/-! ## slots -/

structure Slot.Shape (l : Slot γ τ) : Prop where
  pending : l.phase = .pending → l.token = none ∧ l.deadline = none
  processing : l.phase = .processing → l.token.isSome ∧ l.deadline.isSome
  done : l.phase = .done → l.token.isSome
  doneAt : l.doneAt.isSome ↔ l.phase = .done

theorem Slot.shape_fresh (cap : Nat) : (Slot.fresh cap : Slot γ τ).Shape :=
  ⟨fun _ => ⟨rfl, rfl⟩, nofun, nofun, by simp [Slot.fresh]⟩

theorem Slot.HeldBy.unique {c c' : γ} {l : Slot γ τ} (h : l.HeldBy c) (h' : l.HeldBy c') :
    c = c' := Option.some.inj (h.2.symm.trans h'.2)

section
variable [Preorder τ] {mint : Nat → γ} {cap : Nat} {now : τ} {n n' : Nat}
  {o o' : Option (Slot γ τ)} {es : List (Event γ τ)} {ds : List Nat} {l : Slot γ τ}
  {hk : List (Event γ τ)}

theorem Slot.Expired.not_live {T : τ} (h : l.Expired now) (hd : l.deadline = some T) (hT : now < T) :
    False := by
  obtain ⟨-, d, hd', hlt⟩ := h
  rw [hd, Option.some_inj] at hd'
  exact lt_asymm hT (hd' ▸ hlt)

/-! ## slots keep their shape -/

theorem Slot.Shape.not_done (hl : l.Shape) (h : l.phase ≠ .done) : l.doneAt.isSome = false := by
  rw [Bool.eq_false_iff]
  exact fun hd => h (hl.doneAt.mp hd)

theorem Slot.Shape.lease (hl : l.Shape) (h : l.phase ≠ .done) (c : γ) (T : τ) (a : Nat) :
    (l.lease c T a).Shape :=
  ⟨nofun, fun _ => ⟨rfl, rfl⟩, nofun, by simp [Slot.lease, hl.not_done h]⟩

theorem Slot.Shape.release (hl : l.Shape) (h : l.phase ≠ .done) : l.release.Shape :=
  ⟨fun _ => ⟨rfl, rfl⟩, nofun, nofun, by simp [Slot.release, hl.not_done h]⟩

theorem Slot.Shape.finish (hl : l.Shape) (h : l.phase = .processing) (t : τ) : (l.finish t).Shape :=
  ⟨nofun, nofun, fun _ => (hl.processing h).1, by simp [Slot.finish]⟩

theorem Slot.Shape.prolong (hl : l.Shape) (h : l.phase = .processing) (T : τ) : (l.prolong T).Shape :=
  ⟨fun hp => absurd (h.symm.trans hp) nofun, fun _ => ⟨(hl.processing h).1, rfl⟩,
    fun hp => absurd (h.symm.trans hp) nofun, hl.doneAt⟩

theorem Step.shape (h : Step mint cap now n o es ds o' n') (hs : ∀ l, o = some l → l.Shape) :
    ∀ l, o' = some l → l.Shape := by
  cases h with
  | publish =>
    rintro _ ⟨⟩
    exact Slot.shape_fresh cap
  | deliver hp hi =>
    rintro _ ⟨⟩
    exact (hs _ rfl).lease (by rw [hp]; decide) _ _ _
  | redeliver he hc hi =>
    rintro _ ⟨⟩
    exact (hs _ rfl).lease (by rw [he.1]; decide) _ _ _
  | postpone he hc =>
    rintro _ ⟨⟩
    exact (hs _ rfl).release (by rw [he.1]; decide)
  | ack hh =>
    rintro _ ⟨⟩
    exact (hs _ rfl).finish hh.1 _
  | nack hh hc =>
    rintro _ ⟨⟩
    exact (hs _ rfl).release (by rw [hh.1]; decide)
  | extend hh hT =>
    rintro _ ⟨⟩
    exact (hs _ rfl).prolong hh.1 _
  | replay hp =>
    rintro _ ⟨⟩
    exact Slot.shape_fresh _
  | nackLast | bury | drop | wipe => nofun

/-! ## attempts count deliveries -/

theorem deliveries_snoc (hk : List (Event γ τ)) (e : Event γ τ) :
    deliveries (hk ++ [e]) = match e with
      | .published => 0
      | .replayed => 0
      | .delivered _ _ => deliveries hk + 1
      | _ => deliveries hk := by
  simp only [deliveries, foldl_append, foldl_cons, foldl_nil]

/-- the attempts of a slot against the deliveries of its history -/
structure Accounted (cap : Nat) (o : Option (Slot γ τ)) (hk : List (Event γ τ)) : Prop where
  capped : ∀ l, o = some l → l.cap = cap ∧ l.attempts ≤ cap
  counted : ∀ l, o = some l →
    deliveries hk = l.attempts + if l.phase = .pending then 0 else 1
  bounded : deliveries hk ≤ cap + 1

theorem Accounted.of_some (hcap : l.cap = cap) (ha : l.attempts ≤ cap)
    (hd : deliveries hk = l.attempts + if l.phase = .pending then 0 else 1) :
    Accounted cap (some l) hk := by
  refine ⟨?_, ?_, ?_⟩
  · rintro _ ⟨⟩
    exact ⟨hcap, ha⟩
  · rintro _ ⟨⟩
    exact hd
  · rw [hd]
    split <;> omega

theorem Accounted.of_none (hb : deliveries hk ≤ cap + 1) :
    Accounted cap (none : Option (Slot γ τ)) hk := ⟨nofun, nofun, hb⟩

theorem Accounted.processing (h : Accounted cap (some l) hk) (hp : l.phase = .processing) :
    deliveries hk = l.attempts + 1 := by
  rw [h.counted l rfl, hp]
  rfl

theorem Accounted.step (ha : Accounted cap o hk) (h : Step mint cap now n o es ds o' n') :
    Accounted cap o' (hk ++ es) := by
  cases h with
  | publish =>
    exact .of_some rfl (Nat.zero_le _) (deliveries_snoc hk _)
  | @deliver _ l T hp hi =>
    obtain ⟨hcap, hle⟩ := ha.capped l rfl
    refine .of_some hcap hle ?_
    rw [deliveries_snoc, ha.counted l rfl, hp]
    rfl
  | @redeliver _ l T he hc hi =>
    obtain ⟨hcap, hle⟩ := ha.capped l rfl
    refine .of_some hcap (hcap ▸ hc) ?_
    rw [deliveries_snoc, ha.processing he.1]
    rfl
  | @postpone l he hc =>
    obtain ⟨hcap, hle⟩ := ha.capped l rfl
    refine .of_some hcap (hcap ▸ hc) ?_
    rw [append_nil, ha.processing he.1]
    rfl
  | @ack l c hh =>
    obtain ⟨hcap, hle⟩ := ha.capped l rfl
    refine .of_some hcap hle ?_
    rw [deliveries_snoc, ha.processing hh.1]
    rfl
  | @nack l c hh hc =>
    obtain ⟨hcap, hle⟩ := ha.capped l rfl
    refine .of_some hcap (hcap ▸ hc) ?_
    rw [deliveries_snoc, ha.processing hh.1]
    rfl
  | nackLast hh hc => exact .of_none (deliveries_snoc hk _ ▸ ha.bounded)
  | bury he hc => exact .of_none ((append_nil hk).symm ▸ ha.bounded)
  | @extend l c T hh hT =>
    obtain ⟨hcap, hle⟩ := ha.capped l rfl
    refine .of_some hcap hle ?_
    rw [deliveries_snoc, ha.counted l rfl]
    rfl
  | @replay l hp =>
    obtain ⟨hcap, hle⟩ := ha.capped l rfl
    exact .of_some hcap (Nat.zero_le _) (deliveries_snoc hk _)
  | drop hl => exact .of_none ((append_nil hk).symm ▸ ha.bounded)
  | wipe l => exact .of_none (deliveries_snoc hk _ ▸ ha.bounded)

theorem Accounted.buried (ha : Accounted cap o hk) (h : Step mint cap now n o es ds o' n') :
    ∀ a ∈ ds, a = cap + 1 := by
  have hlast : ∀ l, o = some l → l.cap < l.attempts + 1 → ∀ a ∈ [l.attempts + 1], a = cap + 1 := by
    intro l hl hc a hmem
    obtain ⟨hcap, hle⟩ := ha.capped l hl
    rw [mem_singleton] at hmem
    omega
  cases h with
  | nackLast hh hc => exact hlast _ rfl hc
  | bury he hc => exact hlast _ rfl hc
  | _ => nofun

/-! ## tokens settle once -/

section
variable [DecidableEq γ]

theorem consumed_snoc (c : γ) (hk : List (Event γ τ)) (e : Event γ τ) :
    consumed c (hk ++ [e]) = consumed c hk + if e.consumes c then 1 else 0 := by
  simp only [consumed, countP_append, countP_singleton]

/-- the tokens of a history: every one is drawn from the mint, the slot holds one of them, and
none has settled the item twice -/
structure Fenced (mint : Nat → γ) (n : Nat) (o : Option (Slot γ τ)) (hk : List (Event γ τ)) :
    Prop where
  drawn : ∀ c T, .delivered c T ∈ hk → ∃ i < n, c = mint i
  held : ∀ l c, o = some l → l.token = some c → ∃ T, .delivered c T ∈ hk
  spent : ∀ c, 0 < consumed c hk → ∃ T, .delivered c T ∈ hk
  unspent : ∀ l c, o = some l → l.HeldBy c → consumed c hk = 0
  once : ∀ c, consumed c hk ≤ 1

variable {hk : List (Event γ τ)} {l : Slot γ τ} {c : γ} {T : τ} {e : Event γ τ}

theorem Fenced.quiet (hf : Fenced mint n o hk) (hc : ∀ c, consumed c (hk ++ es) = consumed c hk)
    (hd : ∀ c T, .delivered c T ∉ es)
    (ho : ∀ l' c, o' = some l' → l'.token = some c →
      ∃ l, o = some l ∧ l.token = some c ∧ (l'.phase = .processing → l.phase = .processing)) :
    Fenced mint n o' (hk ++ es) := by
  refine ⟨?_, ?_, ?_, ?_, fun c => hc c ▸ hf.once c⟩
  · intro c T hm
    exact hf.drawn c T ((mem_append.mp hm).resolve_right (hd c T))
  · intro l' c hl' ht
    obtain ⟨l, hl, htok, -⟩ := ho l' c hl' ht
    obtain ⟨T, hT⟩ := hf.held l c hl htok
    exact ⟨T, mem_append_left _ hT⟩
  · intro c hpos
    obtain ⟨T, hT⟩ := hf.spent c (hc c ▸ hpos)
    exact ⟨T, mem_append_left _ hT⟩
  · intro l' c hl' hh
    obtain ⟨l, hl, htok, hph⟩ := ho l' c hl' hh.2
    exact (hc c).trans (hf.unspent l c hl ⟨hph hh.1, htok⟩)

/-- a delivery mints a token that no earlier event mentions -/
theorem Fenced.deliver (hm : Function.Injective mint) (hf : Fenced mint n o hk) {i : Nat} (hi : n ≤ i)
    (l : Slot γ τ) (T : τ) (a : Nat) :
    Fenced mint (i + 1) (some (l.lease (mint i) T a)) (hk ++ [.delivered (mint i) T]) := by
  have hc : ∀ c, consumed c (hk ++ [.delivered (mint i) T]) = consumed c hk :=
    fun c => consumed_snoc c hk _
  have hnew : consumed (mint i) hk = 0 := by
    by_contra hne
    obtain ⟨T', hT'⟩ := hf.spent _ (Nat.pos_of_ne_zero hne)
    obtain ⟨j, hj, he⟩ := hf.drawn _ _ hT'
    exact absurd (hm he) (by omega)
  refine ⟨?_, ?_, ?_, ?_, fun c => hc c ▸ hf.once c⟩
  · intro c T' hmem
    rcases mem_append.mp hmem with hmem | hmem
    · obtain ⟨j, hj, he⟩ := hf.drawn c T' hmem
      exact ⟨j, by omega, he⟩
    · rw [mem_singleton, Event.delivered.injEq] at hmem
      exact ⟨i, Nat.lt_succ_self i, hmem.1⟩
  · rintro _ c ⟨⟩ ht
    cases ht
    exact ⟨T, mem_append_right _ mem_cons_self⟩
  · intro c hpos
    obtain ⟨T', hT'⟩ := hf.spent c (hc c ▸ hpos)
    exact ⟨T', mem_append_left _ hT'⟩
  · rintro _ c ⟨⟩ hh
    cases hh.2
    exact (hc _).trans hnew

theorem Fenced.settle (hf : Fenced mint n (some l) hk) (hh : l.HeldBy c)
    (he : ∀ c', e.consumes c' = decide (c = c'))
    (ho : ∀ l', o' = some l' → l'.phase ≠ .processing ∧ ∀ c', l'.token = some c' → c' = c) :
    Fenced mint n o' (hk ++ [e]) := by
  have hc : ∀ c', consumed c' (hk ++ [e]) = consumed c' hk + if c = c' then 1 else 0 := by
    intro c'
    rw [consumed_snoc, he c']
    simp
  obtain ⟨T, hT⟩ := hf.held l c rfl hh.2
  have hdel : ∀ c' T', e ≠ .delivered c' T' := by
    rintro c' T' rfl
    exact absurd (he c) (by simp [Event.consumes])
  refine ⟨?_, ?_, ?_, ?_, ?_⟩
  · intro c' T' hmem
    rcases mem_append.mp hmem with hmem | hmem
    · exact hf.drawn c' T' hmem
    · exact absurd (mem_singleton.mp hmem).symm (hdel c' T')
  · intro l' c' hl' ht
    exact ⟨T, mem_append_left _ ((ho l' hl').2 c' ht ▸ hT)⟩
  · intro c' hpos
    by_cases hcc : c = c'
    · exact ⟨T, mem_append_left _ (hcc ▸ hT)⟩
    · rw [hc, if_neg hcc] at hpos
      obtain ⟨T', hT'⟩ := hf.spent c' hpos
      exact ⟨T', mem_append_left _ hT'⟩
  · intro l' c' hl' hh'
    exact absurd hh'.1 (ho l' hl').1
  · intro c'
    rw [hc]
    split
    · rename_i hcc
      have h0 : consumed c' hk = 0 := hcc ▸ hf.unspent l c rfl hh
      omega
    · exact hf.once c'

theorem Fenced.step (hm : Function.Injective mint) (hf : Fenced mint n o hk)
    (h : Step mint cap now n o es ds o' n') : Fenced mint n' o' (hk ++ es) := by
  cases h with
  | publish => exact hf.quiet (fun c => consumed_snoc c hk _) (by simp) (by rintro _ c ⟨⟩; nofun)
  | deliver hp hi => exact hf.deliver hm hi _ _ _
  | redeliver he hc hi => exact hf.deliver hm hi _ _ _
  | postpone he hc =>
    exact hf.quiet (fun c => by rw [append_nil]) (by simp) (by rintro _ c ⟨⟩; nofun)
  | ack hh =>
    refine hf.settle hh (fun c' => rfl) ?_
    rintro _ ⟨⟩
    exact ⟨nofun, fun c' ht => Option.some.inj (ht.symm.trans hh.2)⟩
  | nack hh hc =>
    refine hf.settle hh (fun c' => rfl) ?_
    rintro _ ⟨⟩
    exact ⟨nofun, nofun⟩
  | nackLast hh hc => exact hf.settle hh (fun c' => rfl) nofun
  | bury he hc => exact hf.quiet (fun c => by rw [append_nil]) (by simp) nofun
  | @extend l c T hh hT =>
    refine hf.quiet (fun c => consumed_snoc c hk _) (by simp) ?_
    rintro _ c' ⟨⟩ ht
    exact ⟨l, rfl, ht, id⟩
  | replay hp => exact hf.quiet (fun c => consumed_snoc c hk _) (by simp) (by rintro _ c ⟨⟩; nofun)
  | drop hl => exact hf.quiet (fun c => by rw [append_nil]) (by simp) nofun
  | wipe l => exact hf.quiet (fun c => consumed_snoc c hk _) (by simp) nofun

/-! ## acks stand until a replay -/

/-- an ack with `c` stands exactly on a slot that is done under `c` -/
def Stands (o : Option (Slot γ τ)) (hk : List (Event γ τ)) : Prop :=
  ∀ l c, o = some l → (AckStands c hk ↔ l.phase = .done ∧ l.token = some c)

theorem Stands.not (hs : Stands (some l) hk) (h : l.phase ≠ .done) (c : γ) :
    ¬ AckStands c hk := fun ha => h ((hs l c rfl).mp ha).1

theorem Stands.of_not (h : l.phase ≠ .done) (hn : ∀ c, ¬ AckStands c hk) : Stands (some l) hk := by
  rintro _ c ⟨⟩
  exact ⟨fun ha => absurd ha (hn c), fun hd => absurd hd.1 h⟩

theorem Stands.step (hs : Stands o hk) (h : Step mint cap now n o es ds o' n') :
    Stands o' (hk ++ es) := by
  cases h with
  | publish => exact .of_not nofun fun c => by simp [ackStands_snoc]
  | deliver hp hi =>
    exact .of_not nofun fun c => by simp [ackStands_snoc, hs.not (by rw [hp]; decide) c]
  | redeliver he hc hi =>
    exact .of_not nofun fun c => by simp [ackStands_snoc, hs.not (by rw [he.1]; decide) c]
  | postpone he hc =>
    exact .of_not nofun fun c => by simp [hs.not (by rw [he.1]; decide) c]
  | @ack l c hh =>
    rintro _ c' ⟨⟩
    simp [ackStands_snoc, hs.not (by rw [hh.1]; decide) c', Slot.finish, hh.2]
  | nack hh hc =>
    exact .of_not nofun fun c => by simp [ackStands_snoc, hs.not (by rw [hh.1]; decide) c]
  | @extend l c T hh hT =>
    exact .of_not (by rw [Slot.prolong, hh.1]; decide)
      fun c => by simp [ackStands_snoc, hs.not (by rw [hh.1]; decide) c]
  | replay hp => exact .of_not nofun fun c => by simp [ackStands_snoc]
  | nackLast | bury | drop | wipe => exact nofun

/-! ## a token that is neither held nor new -/

theorem Slot.not_heldBy (h : l.phase ≠ .processing) : ∀ l', some l = some l' → ¬ l'.HeldBy c := by
  rintro _ ⟨⟩ hh
  exact h hh.1

theorem Slot.not_heldBy_lease {c' : γ} {a : Nat} (h : c' ≠ c) :
    ∀ l', some (l.lease c' T a) = some l' → ¬ l'.HeldBy c := by
  rintro _ ⟨⟩ hh
  exact h (Option.some.inj hh.2)

/-- a token that the mint has passed and that nobody holds is never held again, and acks nothing -/
theorem Step.stale (hc : ∀ i, n ≤ i → mint i ≠ c) (h0 : ∀ l, o = some l → ¬ l.HeldBy c)
    (hs : Step mint cap now n o es ds o' n') : (∀ l, o' = some l → ¬ l.HeldBy c) ∧ .acked c ∉ es := by
  cases hs with
  | publish | postpone | nack => exact ⟨Slot.not_heldBy nofun, by simp⟩
  | deliver hp hi => exact ⟨Slot.not_heldBy_lease (hc _ hi), by simp⟩
  | redeliver he hcap hi => exact ⟨Slot.not_heldBy_lease (hc _ hi), by simp⟩
  | ack hh =>
    refine ⟨Slot.not_heldBy nofun, fun hmem => ?_⟩
    obtain rfl := Event.acked.inj (mem_singleton.mp hmem)
    exact h0 _ rfl hh
  | @extend l c' T hh hT =>
    refine ⟨?_, by simp⟩
    rintro _ ⟨⟩ hh'
    exact h0 l rfl hh'
  | replay hp => exact ⟨Slot.not_heldBy nofun, by simp⟩
  | nackLast | bury | drop | wipe => exact ⟨nofun, by simp⟩

theorem Path.stale (hc : ∀ i, n ≤ i → mint i ≠ c) (h0 : ∀ l, o = some l → ¬ l.HeldBy c)
    (hp : Path mint cap now n o es ds o' n') : (∀ l, o' = some l → ¬ l.HeldBy c) ∧ .acked c ∉ es := by
  induction hp with
  | refl o => exact ⟨h0, not_mem_nil⟩
  | wait hp hm ih => exact ih h0
  | tail hp hs ih =>
    obtain ⟨hheld, hack⟩ := ih h0
    obtain ⟨hheld', hack'⟩ := hs.stale (fun i hi => hc i (Nat.le_trans hp.le hi)) hheld
    exact ⟨hheld', fun hmem => (mem_append.mp hmem).elim hack hack'⟩

/-! ## a lease is exclusive until its deadline -/

theorem deadlineOf_snoc (c : γ) (hk : List (Event γ τ)) (e : Event γ τ) :
    deadlineOf c (hk ++ [e]) = match e with
      | .delivered c' T => if c' = c then some T else deadlineOf c hk
      | .extended c' T => if c' = c then some T else deadlineOf c hk
      | .acked c' => if c' = c then none else deadlineOf c hk
      | .nacked c' => if c' = c then none else deadlineOf c hk
      | .wiped => none
      | _ => deadlineOf c hk := by
  simp only [deadlineOf, foldl_append, foldl_cons, foldl_nil]

/-- while its deadline is ahead, the slot is in processing under the token -/
def Leased (now : τ) (o : Option (Slot γ τ)) (hk : List (Event γ τ)) : Prop :=
  ∀ c T, deadlineOf c hk = some T → now < T →
    ∃ l, o = some l ∧ l.HeldBy c ∧ l.deadline = some T

theorem Leased.clock {t : τ} (hl : Leased t o hk) (ht : t ≤ now) :
    Leased now o hk := fun c T hd hT => hl c T hd (lt_of_le_of_lt ht hT)

theorem Leased.free (hl : Leased now o hk) (ho : ∀ l, o = some l → l.phase ≠ .processing)
    (hd : deadlineOf c hk = some T) (hT : now < T) : False := by
  obtain ⟨l, hl, hh, -⟩ := hl c T hd hT
  exact ho l hl hh.1

theorem Leased.expired (hl : Leased now (some l) hk) (he : l.Expired now)
    (hd : deadlineOf c hk = some T) (hT : now < T) : False := by
  obtain ⟨_, ⟨⟩, -, hdl⟩ := hl c T hd hT
  exact he.not_live hdl hT

theorem Leased.holder (hl : Leased now (some l) hk) {c' : γ} (hh : l.HeldBy c)
    (hd : deadlineOf c' hk = some T) (hT : now < T) : c = c' := by
  obtain ⟨_, ⟨⟩, hh', -⟩ := hl c' T hd hT
  exact hh.unique hh'

theorem Leased.deliver (l : Slot γ τ) (c₀ : γ) (T₀ : τ) (a : Nat)
    (hno : ∀ c T, deadlineOf c hk = some T → now < T → False) :
    Leased now (some (l.lease c₀ T₀ a)) (hk ++ [.delivered c₀ T₀]) := by
  intro c T hd hT
  replace hd : (if c₀ = c then some T₀ else deadlineOf c hk) = some T :=
    (deadlineOf_snoc c hk _).symm.trans hd
  by_cases hc : c₀ = c
  · rw [if_pos hc, Option.some_inj] at hd
    exact ⟨_, rfl, ⟨rfl, hc ▸ rfl⟩, hd ▸ rfl⟩
  · rw [if_neg hc] at hd
    exact (hno c T hd hT).elim

/-- the settled token has no lease left, and no other token had one -/
theorem Leased.settle {c₀ : γ} (hl : Leased now (some l) hk) (hh : l.HeldBy c₀)
    (he : ∀ c, deadlineOf c (hk ++ [e]) = if c₀ = c then none else deadlineOf c hk) :
    Leased now o' (hk ++ [e]) := by
  intro c T hd hT
  rw [he] at hd
  by_cases hc : c₀ = c
  · rw [if_pos hc] at hd
    cases hd
  · rw [if_neg hc] at hd
    exact absurd (hl.holder hh hd hT) hc

theorem Leased.step (hl : Leased now o hk) (h : Step mint cap now n o es ds o' n') :
    Leased now o' (hk ++ es) := by
  cases h with
  | publish =>
    intro c T hd hT
    exact (hl.free nofun (deadlineOf_snoc c hk _ ▸ hd) hT).elim
  | @deliver _ l T hp hi =>
    refine .deliver l _ T _ fun c T' => hl.free ?_
    rintro _ ⟨⟩
    rw [hp]
    decide
  | @redeliver _ l T he hc hi => exact .deliver l _ T _ fun c T' => hl.expired he
  | postpone he hc =>
    rw [append_nil]
    exact fun c T hd hT => (hl.expired he hd hT).elim
  | ack hh => exact hl.settle hh fun c => deadlineOf_snoc c hk _
  | nack hh hc => exact hl.settle hh fun c => deadlineOf_snoc c hk _
  | nackLast hh hc => exact hl.settle hh fun c => deadlineOf_snoc c hk _
  | bury he hc =>
    rw [append_nil]
    exact fun c T hd hT => (hl.expired he hd hT).elim
  | @extend l c₀ T₀ hh hT₀ =>
    intro c T hd hT
    replace hd : (if c₀ = c then some T₀ else deadlineOf c hk) = some T :=
      (deadlineOf_snoc c hk _).symm.trans hd
    by_cases hc : c₀ = c
    · rw [if_pos hc, Option.some_inj] at hd
      exact ⟨_, rfl, hc ▸ hh, hd ▸ rfl⟩
    · rw [if_neg hc] at hd
      exact absurd (hl.holder hh hd hT) hc
  | replay hp =>
    intro c T hd hT
    refine (hl.free ?_ (deadlineOf_snoc c hk _ ▸ hd) hT).elim
    rintro _ ⟨⟩
    exact hp
  | drop hlive =>
    rw [append_nil]
    intro c T hd hT
    obtain ⟨_, ⟨⟩, hh, hdl⟩ := hl c T hd hT
    exact absurd ⟨hh.1, T, hdl, hT⟩ hlive
  | wipe l =>
    intro c T hd hT
    rw [deadlineOf_snoc] at hd
    cases hd

/-- at a time before the deadline the holder's slot does not change, except that the holder
prolongs it -/
theorem Path.live (hh : l.HeldBy c) (hd : l.deadline = some T) (hT : now < T)
    (hp : Path mint cap now n (some l) es ds o' n')
    (hes : ∀ e ∈ es, e ≠ .acked c ∧ e ≠ .nacked c ∧ e ≠ .wiped) :
    ds = [] ∧ (∀ e ∈ es, ∃ T', e = .extended c T') ∧
      ∃ T', now < T' ∧ o' = some (l.prolong T') ∧ (es = [] → T' = T) := by
  generalize ho : some l = o at hp
  induction hp with
  | refl o =>
    subst ho
    refine ⟨rfl, by simp, T, hT, ?_, fun _ => rfl⟩
    rw [Slot.prolong, ← hd]
  | wait hp hm ih => exact ih hes ho
  | tail hp hs ih =>
    obtain ⟨rfl, hext, T', hT', rfl, hsame⟩ :=
      ih (fun e he => hes e (mem_append_left _ he)) ho
    have hh' : (l.prolong T').HeldBy c := hh
    have hdl : (l.prolong T').deadline = some T' := rfl
    have hlast := fun e he => hes e (mem_append_right _ he)
    cases hs with
    | deliver hp hi => exact absurd (hh.1.symm.trans hp) nofun
    | redeliver he hc hi => exact (he.not_live hdl hT').elim
    | postpone he hc | bury he hc => exact (he.not_live hdl hT').elim
    | ack hc => exact absurd (hc.unique hh' ▸ rfl) (hlast _ mem_cons_self).1
    | nack hc | nackLast hc => exact absurd (hc.unique hh' ▸ rfl) (hlast _ mem_cons_self).2.1
    | @extend _ c' T'' hc hT'' =>
      obtain rfl := hc.unique hh'
      refine ⟨rfl, ?_, T'', hT'', rfl, by simp⟩
      intro e he
      rcases mem_append.mp he with he | he
      · exact hext e he
      · exact ⟨T'', mem_singleton.mp he⟩
    | replay hp => exact absurd hh.1 hp
    | drop hl => exact absurd ⟨hh.1, T', hdl, hT'⟩ hl
    | wipe l => exact absurd rfl (hlast _ mem_cons_self).2.2

end

/-! ## the rules of invariance -/

theorem Path.preserves {P : Nat → Option (Slot γ τ) → List (Event γ τ) → Prop}
    (hstep : ∀ {n o hk es ds o' n'}, P n o hk → Step mint cap now n o es ds o' n' →
      P n' o' (hk ++ es)) (hwait : ∀ {n n' o hk}, n ≤ n' → P n o hk → P n' o hk)
    (h : Path mint cap now n o es ds o' n') (h0 : P n o hk) : P n' o' (hk ++ es) := by
  induction h with
  | refl o => rwa [append_nil]
  | tail hp hs ih =>
    rw [← append_assoc]
    exact hstep (ih h0) hs
  | wait hp hm ih => exact hwait hm (ih h0)

/-- what the empty slot has, a later clock keeps and every step keeps, holds for every key of
every run -/
theorem Run.key_inv [DecidableEq κ] {P : τ → Nat → Option (Slot γ τ) → List (Event γ τ) → Prop}
    (hinit : ∀ t n, P t n none [])
    (hclock : ∀ {t t' n o hk}, t ≤ t' → P t n o hk → P t' n o hk)
    (hwait : ∀ {t n n' o hk}, n ≤ n' → P t n o hk → P t n' o hk)
    (hstep : ∀ {now n o hk es ds o' n'}, P now n o hk → Step mint cap now n o es ds o' n' →
      P now n' o' (hk ++ es))
    {S : System κ γ τ} {h : List (κ × Event γ τ)} {t : τ} (hr : Run mint cap S h t) (k : κ) :
    P t S.seq (S.slot k) (about k h) := by
  induction hr with
  | init S t hs hd =>
    rw [hs k]
    exact hinit t S.seq
  | next hr ht hx ih =>
    obtain ⟨ds, hp, -⟩ := hx.path k
    rw [about_append]
    exact hp.preserves (P := P _) hstep hwait (hclock ht ih)

/-! ## runs -/

section
variable [DecidableEq γ]

/-- a slot against the history of its key -/
structure Sound (mint : Nat → γ) (cap : Nat) (now : τ) (n : Nat) (o : Option (Slot γ τ))
    (hk : List (Event γ τ)) : Prop where
  shape : ∀ l, o = some l → l.Shape
  accounted : Accounted cap o hk
  fenced : Fenced mint n o hk
  stands : Stands o hk
  leased : Leased now o hk

theorem Sound.init (mint : Nat → γ) (cap : Nat) (t : τ) (n : Nat) :
    Sound mint cap t n none [] :=
  ⟨nofun, .of_none (Nat.zero_le _),
    ⟨nofun, nofun, fun _ h => absurd h (Nat.lt_irrefl 0), nofun, fun _ => Nat.zero_le 1⟩,
    nofun, nofun⟩

variable {c : γ} {hk : List (Event γ τ)} {k : κ} {T : τ}

theorem Sound.wait (hn : n ≤ n') (h : Sound mint cap now n o hk) : Sound mint cap now n' o hk := by
  refine ⟨h.shape, h.accounted, ⟨?_, h.fenced.held, h.fenced.spent, h.fenced.unspent,
    h.fenced.once⟩, h.stands, h.leased⟩
  intro c T hm
  obtain ⟨i, hi, hc⟩ := h.fenced.drawn c T hm
  exact ⟨i, by omega, hc⟩

theorem Sound.clock {t : τ} (ht : t ≤ now) (h : Sound mint cap t n o hk) : Sound mint cap now n o hk :=
  ⟨h.shape, h.accounted, h.fenced, h.stands, h.leased.clock ht⟩

/-- **Step lemma.** -/
theorem Sound.step (hm : Function.Injective mint) (h : Sound mint cap now n o hk)
    (hs : Step mint cap now n o es ds o' n') : Sound mint cap now n' o' (hk ++ es) :=
  ⟨hs.shape h.shape, h.accounted.step hs, h.fenced.step hm hs, h.stands.step hs, h.leased.step hs⟩

variable [DecidableEq κ] {S : System κ γ τ} {h : List (κ × Event γ τ)} {t : τ}

/-- **Run lemma.** -/
theorem Run.sound (hm : Function.Injective mint) (hr : Run mint cap S h t) (k : κ) :
    Sound mint cap t S.seq (S.slot k) (about k h) :=
  hr.key_inv (Sound.init mint cap) Sound.clock Sound.wait (Sound.step hm) k

theorem Path.buried (hp : Path mint cap now n o es ds o' n') (ha : Accounted cap o hk) :
    ∀ a ∈ ds, a = cap + 1 := by
  induction hp with
  | refl o => nofun
  | wait hp hm ih => exact ih ha
  | tail hp hs ih =>
    intro a hmem
    rcases mem_append.mp hmem with hmem | hmem
    · exact ih ha a hmem
    · have ha' := hp.preserves (P := fun _ o hk => Accounted cap o hk) Accounted.step
        (fun _ h => h) ha
      exact ha'.buried hs a hmem

theorem Run.buried (hm : Function.Injective mint) (hr : Run mint cap S h t) {a : Nat} (hd : S.dead k a) :
    a = cap + 1 := by
  induction hr with
  | init S t hs hd' => exact absurd hd (hd' k a)
  | next hr ht hx ih =>
    obtain ⟨ds, hp, hds⟩ := hx.path k
    rcases hds a hd with hd | hd
    · exact ih hd
    · exact hp.buried (hr.sound hm k).accounted a hd

/-! ## all keys at once -/

theorem Step.fresh (hs : Step mint cap now n o es ds o' n') (hc : .delivered c T ∈ es) :
    ∃ i, n ≤ i ∧ c = mint i := by
  cases hs with
  | @deliver i l T' hp hi =>
    rw [mem_singleton, Event.delivered.injEq] at hc
    exact ⟨i, hi, hc.1⟩
  | @redeliver i l T' he hcap hi =>
    rw [mem_singleton, Event.delivered.injEq] at hc
    exact ⟨i, hi, hc.1⟩
  | publish | ack | nack | nackLast | extend | replay | wipe =>
    rw [mem_singleton] at hc
    cases hc
  | postpone | bury | drop => cases hc

theorem Path.fresh (hp : Path mint cap now n o es ds o' n') (hc : .delivered c T ∈ es) :
    ∃ i, n ≤ i ∧ c = mint i := by
  induction hp with
  | refl o => cases hc
  | wait hp hm ih => exact ih hc
  | tail hp hs ih =>
    rcases mem_append.mp hc with hc | hc
    · exact ih hc
    · obtain ⟨i, hi, he⟩ := hs.fresh hc
      exact ⟨i, Nat.le_trans hp.le hi, he⟩

theorem Run.minted_lt (hm : Function.Injective mint) (hr : Run mint cap S h t) (hc : c ∈ minted h) :
    ∃ i < S.seq, c = mint i := by
  obtain ⟨k, T, hk⟩ := mem_minted.mp hc
  exact (hr.sound hm k).fenced.drawn c T (mem_about.mpr hk)

theorem Run.minted_nodup (hm : Function.Injective mint) (hr : Run mint cap S h t) :
    (minted h).Nodup := by
  induction hr with
  | init S t hs hd => exact nodup_nil
  | next hr ht hx ih =>
    rw [minted_append, nodup_append]
    refine ⟨ih, ?_, ?_⟩
    · have hlen := hx.single
      match minted _, hlen with
      | [], _ => exact nodup_nil
      | [c], _ => exact nodup_singleton c
    · rintro c hc _ hc' rfl
      obtain ⟨i, hi, he⟩ := hr.minted_lt hm hc
      obtain ⟨k, T, hk⟩ := mem_minted.mp hc'
      obtain ⟨ds, hp, -⟩ := hx.path k
      obtain ⟨j, hj, he'⟩ := hp.fresh (mem_about.mpr hk)
      exact absurd (hm (he.symm.trans he')) (by omega)

theorem Run.delivered_key (hm : Function.Injective mint) (hr : Run mint cap S h t) {k' : κ} {T' : τ}
    (hk : (k, Event.delivered c T) ∈ h) (hk' : (k', Event.delivered c T') ∈ h) : k = k' := by
  have hnd := hr.minted_nodup hm
  obtain ⟨a, b, rfl⟩ := append_of_mem hk
  have hc : c ∉ minted (a ++ b) := by
    have hmid : minted (a ++ (k, Event.delivered c T) :: b) = minted a ++ c :: minted b := by
      rw [minted_append]
      rfl
    rw [hmid, nodup_middle, nodup_cons, ← minted_append] at hnd
    exact hnd.1
  rcases mem_append.mp hk' with hk' | hk'
  · exact absurd (mem_minted.mpr ⟨k', T', mem_append_left b hk'⟩) hc
  · rcases mem_cons.mp hk' with he | hk'
    · exact (Prod.mk.inj he).1.symm
    · exact absurd (mem_minted.mpr ⟨k', T', mem_append_right a hk'⟩) hc

theorem Run.token_unique (hm : Function.Injective mint) (hr : Run mint cap S h t) {k' : κ}
    {l l' : Slot γ τ} (hl : S.slot k = some l) (hl' : S.slot k' = some l') (hc : l.token = some c)
    (hc' : l'.token = some c) : k = k' := by
  obtain ⟨T, hT⟩ := (hr.sound hm k).fenced.held l c hl hc
  obtain ⟨T', hT'⟩ := (hr.sound hm k').fenced.held l' c hl' hc'
  exact hr.delivered_key hm (mem_about.mp hT) (mem_about.mp hT')

theorem Run.consumed_le_one (hm : Function.Injective mint) (hr : Run mint cap S h t) (c : γ) :
    h.countP (fun e => e.2.consumes c) ≤ 1 := by
  have hpos : ∀ e ∈ h, e.2.consumes c = true → ∃ T, (e.1, Event.delivered c T) ∈ h := by
    intro e he hc
    have hcount : 0 < consumed c (about e.1 h) :=
      countP_pos_iff.mpr ⟨e.2, mem_about.mpr he, hc⟩
    obtain ⟨T, hT⟩ := (hr.sound hm e.1).fenced.spent c hcount
    exact ⟨T, mem_about.mp hT⟩
  by_cases hz : ∃ e ∈ h, e.2.consumes c = true
  · obtain ⟨e, he, hc⟩ := hz
    obtain ⟨T, hT⟩ := hpos e he hc
    -- every settlement with `c` is about the key it was delivered under
    have hkey : ∀ e' ∈ h, e'.2.consumes c = true → e'.1 = e.1 := by
      intro e' he' hc'
      obtain ⟨T', hT'⟩ := hpos e' he' hc'
      exact hr.delivered_key hm hT' hT
    have heq : h.countP (fun e => e.2.consumes c) = consumed c (about e.1 h) := by
      unfold consumed about
      rw [countP_filterMap]
      apply countP_congr
      intro e' he'
      by_cases hk : e'.1 = e.1
      · simp [hk]
      · have hno : e'.2.consumes c = false := by
          rw [Bool.eq_false_iff]
          exact fun hc' => hk (hkey e' he' hc')
        simp [hk, hno]
    rw [heq]
    exact (hr.sound hm e.1).fenced.once c
  · have hzero : h.countP (fun e => e.2.consumes c) = 0 := by
      rw [countP_eq_zero]
      exact fun e he hc => hz ⟨e, he, hc⟩
    omega

end
end
end Lease
