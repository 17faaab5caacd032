import PgQueue.Lifecycle.Model

/-!
# One step of one call

* `Call.holds`, `Call.starting`, `Call.adding`, `Call.looping`   where a call stands;
* `Effect`        what a step of a call does to the shared fields, next to where the call stood and where it
                  stands;
* `effect_next`   **every step of every call has this effect.**
-/

namespace PgQueue.Lifecycle

/-! ## where a call stands -/

def StartAt.holds : StartAt → Bool
  | .locked | .seenOpen | .won | .added | .unlock => true
  | .call | .returned => false

def StartAt.starting : StartAt → Bool
  | .seenOpen | .won | .added => true
  | .call | .locked | .unlock | .returned => false

def Call.starts : Call → Option Nat
  | .start g _ => some g
  | .stop _ _ | .consume _ _ | .close _ => none

def Call.holds (g : Nat) : Call → Bool
  | .start g' pc => decide (g' = g) && pc.holds
  | .stop _ _ | .consume _ _ | .close _ => false

def Call.starting (g : Nat) : Call → Bool
  | .start g' pc => decide (g' = g) && pc.starting
  | .stop _ _ | .consume _ _ | .close _ => false

def Call.adding (g : Nat) : Call → Bool
  | .start g' pc => decide (g' = g) && decide (pc = .added)
  | .stop _ _ | .consume _ _ | .close _ => false

def Call.looping : Call → Bool
  | .consume _ (.loop _ _) => true
  | .consume _ _ | .start _ _ | .stop _ _ | .close _ => false

/-! ## one step of one call -/

/-- what the step of a call does to the memory, next to where the call stood and where it stands -/
structure Effect (i : Nat) (m : Memory) (c : Call) (m' : Memory) (c' : Call) : Prop where
  closed : m.closed = true → m'.closed = true
  created : m'.created = m.created
  gcs : m'.gcs = m.gcs
  starts : c'.starts = c.starts
  holds : ∀ g, (c.holds g = true → (m.collectors g).mu = some i) → c'.holds g = true →
    (m'.collectors g).mu = some i
  others : ∀ g j, (c.holds g = true → (m.collectors g).mu = some i) → j ≠ i →
    (m.collectors g).mu = some j → (m'.collectors g).mu = some j
  joined : ∀ g, (m'.collectors g).wg + (c.adding g).toNat + (m.collectors g).loops =
    (m.collectors g).wg + (c'.adding g).toNat + (m'.collectors g).loops
  quiet : ∀ g, c.starting g = false → (m'.collectors g).wg = (m.collectors g).wg
  workers : (c.looping = true → 0 < m.workerWG) →
    m'.workerWG + c.looping.toNat = m.workerWG + c'.looping.toNat
  starting : m.closed = true → ∀ g, c'.starting g = true → c.starting g = true
  looping : m.closed = true → c'.looping = true → c.looping = true

section
variable {i g : Nat} {m m' : Memory} {c c' : Call} {failed : Bool}

theorem collectors_setGC (m : Memory) (g h : Nat) (k : Collector) :
    (m.setGC g k).collectors h = if h = g then k else m.collectors h := Function.update_apply _ _ _ _

theorem setGC_self (m : Memory) (g : Nat) : m.setGC g (m.collectors g) = m := by
  unfold Memory.setGC
  rw [Function.update_eq_self]

theorem Effect.of_start {pc pc' : StartAt} (k : Collector)
    (hholds : (pc.holds = true → (m.collectors g).mu = some i) → pc'.holds = true → k.mu = some i)
    (hothers : (pc.holds = true → (m.collectors g).mu = some i) → ∀ j, j ≠ i →
      (m.collectors g).mu = some j → k.mu = some j)
    (hjoined : k.wg + (decide (pc = .added)).toNat + (m.collectors g).loops =
      (m.collectors g).wg + (decide (pc' = .added)).toNat + k.loops)
    (hquiet : pc.starting = false → k.wg = (m.collectors g).wg)
    (hstarting : m.closed = true → pc'.starting = true → pc.starting = true) :
    Effect i m (.start g pc) (m.setGC g k) (.start g pc') where
  closed := id
  created := rfl
  gcs := rfl
  starts := rfl
  holds h hold hh := by
    rw [collectors_setGC]
    rw [Call.holds, Bool.and_eq_true, decide_eq_true_eq] at hh
    obtain ⟨rfl, hpc'⟩ := hh
    rw [if_pos rfl]
    refine hholds (fun hpc => hold ?_) hpc'
    rw [Call.holds, hpc, decide_eq_true rfl]
    rfl
  others h j hold hj hmu := by
    rw [collectors_setGC]
    split
    · rename_i he
      subst he
      refine hothers (fun hpc => hold ?_) j hj hmu
      rw [Call.holds, hpc, decide_eq_true rfl]
      rfl
    · exact hmu
  joined h := by
    rw [collectors_setGC, Call.adding, Call.adding]
    split
    · rename_i he
      subst he
      rw [decide_eq_true rfl, Bool.true_and, Bool.true_and]
      exact hjoined
    · rename_i hne
      rw [decide_eq_false (Ne.symm hne), Bool.false_and, Bool.false_and]
  quiet h hq := by
    rw [collectors_setGC]
    split
    · rename_i he
      subst he
      rw [Call.starting, decide_eq_true rfl, Bool.true_and] at hq
      exact hquiet hq
    · rfl
  workers _ := rfl
  starting hc h hs := by
    rw [Call.starting, Bool.and_eq_true] at hs ⊢
    exact ⟨hs.1, hstarting hc hs.2⟩
  looping _ := id

theorem Effect.of_start_same {pc pc' : StartAt} (hholds : pc.holds = true)
    (hadded : pc ≠ .added) (hadded' : pc' ≠ .added)
    (hstarting : m.closed = true → pc'.starting = true → pc.starting = true) :
    Effect i m (.start g pc) m (.start g pc') := by
  have h : Effect i m (.start g pc) (m.setGC g (m.collectors g)) (.start g pc') :=
    .of_start _ (fun hold _ => hold hholds) (fun _ j _ hj => hj)
      (by rw [decide_eq_false hadded, decide_eq_false hadded']) (fun _ => rfl) hstarting
  rw [setGC_self] at h
  exact h

theorem effect_start {pc pc' : StartAt} (h : start i m g pc = some (m', pc')) :
    Effect i m (.start g pc) m' (.start g pc') := by
  cases pc with
  | call =>
    rw [start] at h
    split at h
    · rename_i hfree
      cases h
      exact .of_start _ (fun _ _ => rfl) (fun _ j _ hj => by rw [hfree] at hj; cases hj) rfl
        (fun _ => rfl) (fun _ hs => hs)
    · cases h
  | locked =>
    cases h
    refine .of_start_same rfl nofun ?_ fun hc hs => ?_
    · split <;> nofun
    · rw [if_pos hc] at hs
      cases hs
  | seenOpen =>
    rw [start] at h
    split at h
    · cases h
      exact .of_start_same rfl nofun nofun (fun _ _ => rfl)
    · cases h
      exact .of_start _ (fun hold _ => hold rfl) (fun _ j _ hj => hj) rfl (fun _ => rfl) (fun _ _ => rfl)
  | won =>
    cases h
    exact .of_start _ (fun hold _ => hold rfl) (fun _ j _ hj => hj) rfl nofun (fun _ _ => rfl)
  | added =>
    cases h
    refine .of_start _ (fun hold _ => hold rfl) (fun _ j _ hj => hj) ?_ nofun (fun _ _ => rfl)
    show (m.collectors g).wg + 1 + (m.collectors g).loops = (m.collectors g).wg + 0 + ((m.collectors g).loops + 1)
    omega
  | unlock =>
    cases h
    refine .of_start _ (fun _ => nofun) (fun hold j hj hmu => ?_) rfl (fun _ => rfl) (fun _ hs => hs)
    exact absurd (Option.some.inj ((hold rfl).symm.trans hmu)).symm hj
  | returned => cases h

theorem Effect.of_other (hc : c.starts = none) (hc' : c'.starts = none)
    (hsame : ∀ g, (m'.collectors g).mu = (m.collectors g).mu ∧
      (m'.collectors g).wg = (m.collectors g).wg ∧ (m'.collectors g).loops = (m.collectors g).loops)
    (hclosed : m.closed = true → m'.closed = true) (hcreated : m'.created = m.created)
    (hgcs : m'.gcs = m.gcs)
    (hworkers : (c.looping = true → 0 < m.workerWG) →
      m'.workerWG + c.looping.toNat = m.workerWG + c'.looping.toNat)
    (hlooping : m.closed = true → c'.looping = true → c.looping = true) : Effect i m c m' c' := by
  have hno : ∀ {d : Call}, d.starts = none → ∀ g, d.holds g = false ∧ d.starting g = false ∧
      d.adding g = false := by
    intro d hd g
    cases d with
    | start g pc => cases hd
    | stop g pc | consume o pc | close pc => exact ⟨rfl, rfl, rfl⟩
  refine
    { closed := hclosed
      created := hcreated
      gcs := hgcs
      starts := hc'.trans hc.symm
      holds := fun g _ hh => ?_
      others := fun g j _ _ hmu => (hsame g).1.trans hmu
      joined := fun g => ?_
      quiet := fun g _ => (hsame g).2.1
      workers := hworkers
      starting := fun _ g hs => ?_
      looping := hlooping }
  · rw [(hno hc' g).1] at hh
    cases hh
  · rw [(hno hc g).2.2, (hno hc' g).2.2, (hsame g).2.1, (hsame g).2.2]
  · rw [(hno hc' g).2.1] at hs
    cases hs

theorem stopSection_spec (h : stopSection m g = some m') :
    (m.collectors g).mu = none ∧ m'.closed = m.closed ∧ m'.created = m.created ∧ m'.gcs = m.gcs ∧
      m'.workerWG = m.workerWG ∧ ∀ k, (m'.collectors k).mu = (m.collectors k).mu ∧
        (m'.collectors k).wg = (m.collectors k).wg ∧ (m'.collectors k).loops = (m.collectors k).loops := by
  unfold stopSection at h
  split at h
  · rename_i hfree
    cases h
    refine ⟨hfree, rfl, rfl, rfl, rfl, fun k => ?_⟩
    rw [collectors_setGC]
    split
    · rename_i he
      subst he
      exact ⟨rfl, rfl, rfl⟩
    · exact ⟨rfl, rfl, rfl⟩
  · cases h

theorem effect_stopSection (hc : c.starts = none) (hc' : c'.starts = none)
    (hl : c'.looping = c.looping) (h : stopSection m g = some m') : Effect i m c m' c' := by
  obtain ⟨-, hclosed, hcreated, hgcs, hwork, hsame⟩ := stopSection_spec h
  exact .of_other hc hc' hsame (fun h => hclosed.trans h) hcreated hgcs
    (fun _ => by rw [hwork, hl]) (fun _ h => hl.symm.trans h)

theorem effect_same (hc : c.starts = none) (hc' : c'.starts = none) (hl : c'.looping = c.looping) :
    Effect i m c m c' :=
  .of_other hc hc' (fun _ => ⟨rfl, rfl, rfl⟩) id rfl rfl (fun _ => by rw [hl]) (fun _ h => hl.symm.trans h)

theorem effect_stop {pc pc' : StopAt} (h : stop m g pc = some (m', pc')) :
    Effect i m (.stop g pc) m' (.stop g pc') := by
  cases pc with
  | call =>
    obtain ⟨m₁, hm, he⟩ := Option.map_eq_some_iff.mp h
    cases he
    exact effect_stopSection rfl rfl rfl hm
  | join =>
    rw [stop] at h
    split at h
    · cases h
      exact effect_same rfl rfl rfl
    · cases h
  | returned => cases h

theorem effect_consume {o : ConsumeOpts} {pc pc' : ConsumeAt} (h : consume m o pc = some (m', pc')) :
    Effect i m (.consume o pc) m' (.consume o pc') := by
  cases pc with
  | call =>
    rw [consume] at h
    split at h
    · cases h
      exact effect_same rfl rfl rfl
    · split at h
      · cases h
        exact effect_same rfl rfl rfl
      · cases h
        exact effect_same rfl rfl rfl
  | checked =>
    rw [consume] at h
    split at h
    · cases h
      exact effect_same rfl rfl rfl
    · rename_i hopen
      cases h
      -- `trackWorker` adds to the wait group of an open Queue only
      exact .of_other rfl rfl (fun _ => ⟨rfl, rfl, rfl⟩) id rfl rfl (fun _ => rfl)
        (fun hc => absurd hc hopen)
  | loop toStart live =>
    cases toStart with
    | succ toStart =>
      cases h
      exact effect_same rfl rfl rfl
    | zero =>
      cases live with
      | zero =>
        cases h
        refine .of_other rfl rfl (fun _ => ⟨rfl, rfl, rfl⟩) id rfl rfl (fun hpos => ?_) (fun _ => nofun)
        exact Nat.sub_add_cancel (hpos rfl)
      | succ live => cases h
  | refused | returned => cases h

theorem effect_close {pc pc' : CloseAt} (h : close failed m pc = some (m', pc')) :
    Effect i m (.close pc) m' (.close pc') := by
  cases pc with
  | call =>
    rw [close] at h
    split at h
    · cases h
      exact effect_same rfl rfl rfl
    · cases h
      exact .of_other rfl rfl (fun _ => ⟨rfl, rfl, rfl⟩) (fun _ => rfl) rfl rfl (fun _ => rfl) (fun _ => nofun)
  | cancel gcs =>
    cases h
    exact .of_other rfl rfl (fun _ => ⟨rfl, rfl, rfl⟩) id rfl rfl (fun _ => rfl) (fun _ => nofun)
  | stop gcs =>
    cases gcs with
    | nil =>
      cases h
      exact effect_same rfl rfl rfl
    | cons g gcs =>
      obtain ⟨m₁, hm, he⟩ := Option.map_eq_some_iff.mp h
      cases he
      exact effect_stopSection rfl rfl rfl hm
  | join g gcs | wait =>
    rw [close] at h
    split at h
    · cases h
      exact effect_same rfl rfl rfl
    · cases h
  | notifier =>
    cases h
    exact effect_same rfl rfl rfl
  | returned failed => cases h
  | nothing => cases h

theorem effect_next (h : next failed i m c = some (m', c')) : Effect i m c m' c' := by
  cases c with
  | start g pc =>
    obtain ⟨⟨m₁, pc'⟩, hm, he⟩ := Option.map_eq_some_iff.mp h
    cases he
    exact effect_start hm
  | stop g pc =>
    obtain ⟨⟨m₁, pc'⟩, hm, he⟩ := Option.map_eq_some_iff.mp h
    cases he
    exact effect_stop hm
  | consume o pc =>
    obtain ⟨⟨m₁, pc'⟩, hm, he⟩ := Option.map_eq_some_iff.mp h
    cases he
    exact effect_consume hm
  | close pc =>
    obtain ⟨⟨m₁, pc'⟩, hm, he⟩ := Option.map_eq_some_iff.mp h
    cases he
    exact effect_close hm

theorem effect_workerEnds (h : workerEnds i m c = some (m', c')) : Effect i m c m' c' := by
  unfold workerEnds at h
  split at h
  · cases h
    exact effect_same rfl rfl rfl
  · cases h

end

end PgQueue.Lifecycle
