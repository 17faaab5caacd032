import PgQueue.Lifecycle.Steps
import PgQueue.Process.Runs

/-!
# Close is final

* `Sound`      who holds the mutexes, and what the wait groups count;
* `Calm`       what a step leaves of a Queue that is closed: no `Start` and no handler loop gets on its way;
* `Progress`   what a `Close` has brought about when it stands there;
* `Inv.step`   every step keeps them;
* `close_final`   **once the `Close` that closes the Queue has returned no loop runs, and none ever starts;
               and nothing is added to a wait group that `Close` waits for.**
-/

namespace PgQueue.Lifecycle
open Process List

/-! ## the invariant -/

structure Sound (s : State) : Prop where
  holder : ∀ i c g, s.calls[i]? = some c → c.holds g = true → (s.mem.collectors g).mu = some i
  known : ∀ c ∈ s.calls, ∀ g, c.starts = some g → g < s.mem.created
  registered : s.mem.closed = false → ∀ g < s.mem.created, g ∈ s.mem.gcs
  unborn : ∀ g, s.mem.created ≤ g → (s.mem.collectors g).wg = 0
  joined : ∀ g, (s.mem.collectors g).wg = (s.mem.collectors g).loops + s.calls.countP (Call.adding g)
  workers : s.mem.workerWG = s.calls.countP Call.looping

/-- no `Start` of the collector is on its way to a loop -/
def Quiet (s : State) (g : Nat) : Prop := ∀ c ∈ s.calls, c.starting g = false

def Idle (s : State) (g : Nat) : Prop := Quiet s g ∧ (s.mem.collectors g).wg = 0

/-- what a step leaves of a Queue that is closed -/
structure Calm (s s' : State) : Prop where
  closed : s'.mem.closed = true
  workers : s'.mem.workerWG ≤ s.mem.workerWG
  quiet : ∀ g, Quiet s g → Quiet s' g ∧ (s'.mem.collectors g).wg ≤ (s.mem.collectors g).wg

/-- what a `Close` has brought about when it stands there -/
def Progress (s : State) : CloseAt → Prop
  | .call | .nothing => True
  | .cancel gcs | .stop gcs => s.mem.closed = true ∧ ∀ g, g ∈ gcs ∨ Idle s g
  | .join k gcs => s.mem.closed = true ∧ Quiet s k ∧ ∀ g, g ∈ gcs ∨ Idle s g ∨ g = k
  | .wait => s.mem.closed = true ∧ ∀ g, Idle s g
  | .notifier | .returned _ => s.mem.closed = true ∧ (∀ g, Idle s g) ∧ s.mem.workerWG = 0

section
variable {s s' : State} {c c' : Call} {i g : Nat} {m' : Memory} {e : Event} {failed : Bool}

theorem starts_of_starting (h : c.starting g = true) : c.starts = some g := by
  cases c with
  | start g' pc =>
    rw [Call.starting, Bool.and_eq_true, decide_eq_true_eq] at h
    rw [Call.starts, h.1]
  | stop g' pc | consume o pc | close pc => cases h

theorem holds_of_starting (h : c.starting g = true) : c.holds g = true := by
  cases c with
  | start g' pc =>
    rw [Call.starting, Bool.and_eq_true] at h
    obtain ⟨hg, hpc⟩ := h
    rw [Call.holds, Bool.and_eq_true]
    refine ⟨hg, ?_⟩
    cases pc with
    | seenOpen | won | added => rfl
    | call | locked | unlock | returned => cases hpc
  | stop g' pc | consume o pc | close pc => cases h

theorem Quiet.set (h : Quiet s g) (hc' : c'.starting g = false) : Quiet ⟨m', s.calls.set i c'⟩ g := by
  intro d hd
  rcases mem_or_eq_of_mem_set hd with hd | rfl
  · exact h d hd
  · exact hc'

theorem quiet_of_free (hs : Sound s) (h : (s.mem.collectors g).mu = none) : Quiet s g := by
  intro c hc
  by_contra hst
  obtain ⟨i, hi⟩ := mem_iff_getElem?.mp hc
  have hmu := hs.holder i c g hi (holds_of_starting (eq_true_of_ne_false hst))
  rw [h] at hmu
  cases hmu

theorem idle_of_unborn (hs : Sound s) (h : s.mem.created ≤ g) : Idle s g := by
  refine ⟨fun c hc => ?_, hs.unborn g h⟩
  by_contra hst
  exact absurd (hs.known c hc g (starts_of_starting (eq_true_of_ne_false hst))) (Nat.not_lt.mpr h)

theorem Idle.calm (h : Idle s g) (hcalm : Calm s s') : Idle s' g :=
  ⟨(hcalm.quiet g h.1).1, Nat.eq_zero_of_le_zero (h.2 ▸ (hcalm.quiet g h.1).2)⟩

theorem Progress.mono {pc : CloseAt} (h : Progress s pc) (hcalm : s.mem.closed = true → Calm s s') :
    Progress s' pc := by
  cases pc with
  | call | nothing => trivial
  | cancel gcs | stop gcs =>
    have hc := hcalm h.1
    exact ⟨hc.closed, fun g => (h.2 g).imp id fun hi => hi.calm hc⟩
  | join k gcs =>
    have hc := hcalm h.1
    exact ⟨hc.closed, (hc.quiet k h.2.1).1, fun g => (h.2.2 g).imp id (Or.imp (fun hi => hi.calm hc) id)⟩
  | wait =>
    have hc := hcalm h.1
    exact ⟨hc.closed, fun g => (h.2 g).calm hc⟩
  | notifier | returned failed =>
    have hc := hcalm h.1
    exact ⟨hc.closed, fun g => (h.2.1 g).calm hc, Nat.eq_zero_of_le_zero (h.2.2 ▸ hc.workers)⟩

theorem Progress.close {pc pc' : CloseAt} (h : Progress s pc) (hs : Sound s)
    (hcl : close failed s.mem pc = some (m', pc'))
    (hcalm : s.mem.closed = true → Calm s ⟨m', s.calls.set i (.close pc')⟩) :
    Progress ⟨m', s.calls.set i (.close pc')⟩ pc' := by
  have hold := h.mono hcalm
  cases pc with
  | call =>
    rw [Lifecycle.close] at hcl
    split at hcl
    · cases hcl
      trivial
    · rename_i hopen
      cases hcl
      refine ⟨rfl, fun g => ?_⟩
      rcases Nat.lt_or_ge g s.mem.created with hg | hg
      · exact Or.inl (hs.registered (eq_false_of_ne_true hopen) g hg)
      · have hidle := idle_of_unborn hs hg
        exact Or.inr ⟨hidle.1.set rfl, hidle.2⟩
  | cancel | notifier =>
    cases hcl
    exact hold
  | stop gcs =>
    cases gcs with
    | nil =>
      cases hcl
      exact ⟨hold.1, fun g => (hold.2 g).resolve_left not_mem_nil⟩
    | cons k gcs =>
      obtain ⟨m₁, hm, he⟩ := Option.map_eq_some_iff.mp hcl
      cases he
      -- nobody holds the mutex, so no `Start` has seen an open Queue and is still under way
      have hq := quiet_of_free hs (stopSection_spec hm).1
      refine ⟨hold.1, ((hcalm h.1).quiet k hq).1, fun g => ?_⟩
      rcases hold.2 g with hg | hi
      · exact (mem_cons.mp hg).elim (fun he => Or.inr (Or.inr he)) Or.inl
      · exact Or.inr (Or.inl hi)
  | join k gcs =>
    rw [Lifecycle.close] at hcl
    split at hcl
    · rename_i hzero
      cases hcl
      refine ⟨hold.1, fun g => (hold.2.2 g).imp id fun hg => ?_⟩
      rcases hg with hi | rfl
      · exact hi
      · exact ⟨hold.2.1, hzero⟩
    · cases hcl
  | wait =>
    rw [Lifecycle.close] at hcl
    split at hcl
    · rename_i hzero
      cases hcl
      exact ⟨hold.1, hold.2, hzero⟩
    · cases hcl
  | returned | nothing => cases hcl

/-! ## the steps -/

theorem Sound.act (hs : Sound s) (hc : s.calls[i]? = some c) (h : Effect i s.mem c m' c') :
    Sound ⟨m', s.calls.set i c'⟩ where
  holder j d g hd hh := by
    rcases getElem?_set_cases hc hd with ⟨rfl, rfl⟩ | ⟨hj, hd⟩
    · exact h.holds g (hs.holder j c g hc) hh
    · exact h.others g j (hs.holder i c g hc) hj (hs.holder j d g hd hh)
  known d hd g hg := by
    rw [h.created]
    rcases mem_or_eq_of_mem_set hd with hd | rfl
    · exact hs.known d hd g hg
    · exact hs.known c (mem_of_getElem? hc) g (h.starts.symm.trans hg)
  registered ho g hg := by
    have hopen : s.mem.closed = false := by
      cases hcl : s.mem.closed with
      | false => rfl
      | true => exact absurd (h.closed hcl) (ne_true_of_eq_false ho)
    rw [h.gcs]
    exact hs.registered hopen g (h.created ▸ hg)
  unborn g hg := by
    have hidle := idle_of_unborn hs (h.created ▸ hg)
    exact (h.quiet g (hidle.1 c (mem_of_getElem? hc))).trans hidle.2
  joined g := by
    have hj := h.joined g
    have hn := countP_set (Call.adding g) hc c'
    have ho := hs.joined g
    show (m'.collectors g).wg = (m'.collectors g).loops + (s.calls.set i c').countP (Call.adding g)
    omega
  workers := by
    have hpos : c.looping = true → 0 < s.mem.workerWG := fun hl => by
      rw [hs.workers]
      exact countP_pos_iff.mpr ⟨c, mem_of_getElem? hc, hl⟩
    have hw := h.workers hpos
    have hn := countP_set Call.looping hc c'
    have ho := hs.workers
    show m'.workerWG = (s.calls.set i c').countP Call.looping
    omega

theorem calm_act (hs : Sound s) (hcl : s.mem.closed = true) (hc : s.calls[i]? = some c)
    (h : Effect i s.mem c m' c') : Calm s ⟨m', s.calls.set i c'⟩ where
  closed := h.closed hcl
  workers := by
    have hw : m'.workerWG = (s.calls.set i c').countP Call.looping := (hs.act hc h).workers
    have hn := countP_set Call.looping hc c'
    have ho := hs.workers
    have hle : c'.looping.toNat ≤ c.looping.toNat := by
      cases hl : c'.looping with
      | false => exact Nat.zero_le _
      | true => rw [h.looping hcl hl]
    show m'.workerWG ≤ s.mem.workerWG
    omega
  quiet g hq := by
    have hcq := hq c (mem_of_getElem? hc)
    refine ⟨hq.set ?_, Nat.le_of_eq (h.quiet g hcq)⟩
    by_contra hst
    rw [h.starting hcl g (eq_true_of_ne_false hst)] at hcq
    cases hcq

structure Inv (s : State) : Prop extends Sound s where
  closers : ∀ pc, .close pc ∈ s.calls → Progress s pc

theorem Inv.of_calm (h : Inv s) (hs' : Sound s') (hcalm : s.mem.closed = true → Calm s s')
    (hcl : ∀ pc, .close pc ∈ s'.calls → .close pc ∈ s.calls ∨ pc = .call) : Inv s' := by
  refine ⟨hs', fun pc hpc => ?_⟩
  rcases hcl pc hpc with hpc | rfl
  · exact (h.closers pc hpc).mono hcalm
  · trivial

theorem Inv.next (h : Inv s) (hst : s.act (next failed) i = some s') :
    Inv s' ∧ (s.mem.closed = true → Calm s s') := by
  obtain ⟨c, m', c', hc, hf, rfl⟩ := Calls.act_eq_some.mp hst
  have heff := effect_next hf
  have hcalm := fun hcl => calm_act h.toSound hcl hc heff
  refine ⟨⟨h.toSound.act hc heff, fun pc hpc => ?_⟩, hcalm⟩
  rcases mem_or_eq_of_mem_set hpc with hpc | hpc
  · exact (h.closers pc hpc).mono hcalm
  · subst hpc
    cases c with
    | close pc₀ =>
      obtain ⟨⟨m₁, pc₁⟩, hm, he⟩ := Option.map_eq_some_iff.mp hf
      cases he
      exact (h.closers pc₀ (mem_of_getElem? hc)).close h.toSound hm hcalm
    | start g pc₀ | stop g pc₀ | consume o pc₀ =>
      obtain ⟨⟨m₁, pc₁⟩, hm, he⟩ := Option.map_eq_some_iff.mp hf
      cases he

theorem Inv.workerEnds (h : Inv s) (hst : s.act workerEnds i = some s') :
    Inv s' ∧ (s.mem.closed = true → Calm s s') := by
  obtain ⟨c, m', c', hc, hf, rfl⟩ := Calls.act_eq_some.mp hst
  have heff := effect_workerEnds hf
  have hcalm := fun hcl => calm_act h.toSound hcl hc heff
  refine ⟨h.of_calm (h.toSound.act hc heff) hcalm fun pc hpc => ?_, hcalm⟩
  rcases mem_or_eq_of_mem_set hpc with hpc | hpc
  · exact Or.inl hpc
  · subst hpc
    unfold Lifecycle.workerEnds at hf
    split at hf
    · cases hf
    · cases hf

theorem Inv.push (h : Inv s) (hholds : ∀ g, c.holds g = false) (hstarting : ∀ g, c.starting g = false)
    (hadding : ∀ g, c.adding g = false) (hlooping : c.looping = false)
    (hknown : ∀ g, c.starts = some g → g < s.mem.created) (hclose : ∀ pc, c = .close pc → pc = .call) :
    Inv (s.push c) ∧ (s.mem.closed = true → Calm s (s.push c)) := by
  have hmem : ∀ {d}, d ∈ (s.push c).calls → d ∈ s.calls ∨ d = c := fun hd =>
    (mem_append.mp hd).imp id mem_singleton.mp
  have hcount : ∀ p : Call → Bool, p c = false → (s.push c).calls.countP p = s.calls.countP p := by
    intro p hp
    show (s.calls ++ [c]).countP p = _
    rw [countP_append, countP_singleton, hp]
    rfl
  have hcalm : s.mem.closed = true → Calm s (s.push c) := fun hcl =>
    ⟨hcl, Nat.le_refl _, fun g hq => ⟨fun d hd => (hmem hd).elim (hq d) fun he => he ▸ hstarting g,
      Nat.le_refl _⟩⟩
  refine ⟨h.of_calm ⟨fun i d g hd hh => ?_, fun d hd g hg => ?_, h.registered, h.unborn, fun g => ?_, ?_⟩
    hcalm fun pc hpc => ?_, hcalm⟩
  · rcases getElem?_push_cases hd with hd | rfl
    · exact h.holder i d g hd hh
    · rw [hholds g] at hh
      cases hh
  · rcases hmem hd with hd | rfl
    · exact h.known d hd g hg
    · exact hknown g hg
  · rw [hcount _ (hadding g)]
    exact h.joined g
  · rw [hcount _ hlooping]
    exact h.workers
  · exact (hmem hpc).imp id fun he => hclose pc he.symm

theorem Inv.newGarbageCollector (h : Inv s) :
    Inv { s with mem := newGarbageCollector s.mem } ∧
      (s.mem.closed = true → Calm s { s with mem := Lifecycle.newGarbageCollector s.mem }) := by
  have hcalm : s.mem.closed = true → Calm s { s with mem := Lifecycle.newGarbageCollector s.mem } :=
    fun hcl => ⟨hcl, Nat.le_refl _, fun g hq => ⟨hq, Nat.le_refl _⟩⟩
  refine ⟨h.of_calm ⟨h.holder, fun d hd g hg => ?_, fun ho g hg => ?_, fun g hg => ?_, h.joined, h.workers⟩
    hcalm (fun pc hpc => Or.inl hpc), hcalm⟩
  · exact Nat.lt_succ_of_lt (h.known d hd g hg)
  · show g ∈ if s.mem.closed then _ else _
    change s.mem.closed = false at ho
    rw [if_neg (ne_true_of_eq_false ho)]
    rcases Nat.lt_succ_iff_lt_or_eq.mp hg with hg | rfl
    · exact mem_append_left _ (h.registered ho g hg)
    · exact mem_append_right _ (mem_singleton_self _)
  · exact h.unborn g (Nat.le_of_succ_le hg)

theorem Inv.loopEnds {m' : Memory} (h : Inv s) (hm : loopEnds s.mem g = some m') :
    Inv { s with mem := m' } ∧ (s.mem.closed = true → Calm s { s with mem := m' }) := by
  unfold Lifecycle.loopEnds at hm
  split at hm
  · cases hm
  rename_i hpos
  cases hm
  generalize hk : ({ s.mem.collectors g with
    wg := (s.mem.collectors g).wg - 1
    loops := (s.mem.collectors g).loops - 1 } : Collector) = k
  have hmu : k.mu = (s.mem.collectors g).mu := hk ▸ rfl
  have hwg : k.wg = (s.mem.collectors g).wg - 1 := hk ▸ rfl
  have hloops : k.loops = (s.mem.collectors g).loops - 1 := hk ▸ rfl
  have hle : ∀ j, ((s.mem.setGC g k).collectors j).wg ≤ (s.mem.collectors j).wg := by
    intro j
    rw [collectors_setGC]
    split
    · rename_i he
      rw [he, hwg]
      exact Nat.sub_le _ _
    · exact Nat.le_refl _
  have hcalm : s.mem.closed = true → Calm s ⟨s.mem.setGC g k, s.calls⟩ :=
    fun hcl => ⟨hcl, Nat.le_refl _, fun j hq => ⟨hq, hle j⟩⟩
  refine ⟨h.of_calm ⟨fun i c j hc hh => ?_, h.known, h.registered, fun j hj => ?_, fun j => ?_, h.workers⟩
    hcalm (fun pc hpc => Or.inl hpc), hcalm⟩
  · rw [collectors_setGC]
    split
    · rename_i he
      rw [hmu, ← he]
      exact h.holder i c j hc hh
    · exact h.holder i c j hc hh
  · exact Nat.eq_zero_of_le_zero (h.unborn j hj ▸ hle j)
  · have hj := h.joined j
    rw [collectors_setGC]
    split
    · rename_i he
      subst he
      show k.wg = k.loops + s.calls.countP (Call.adding j)
      rw [hwg, hloops]
      omega
    · exact hj

/-- **every step keeps the invariant, and a closed Queue calm** -/
theorem Inv.step (h : Inv s) (hst : step s e = some s') : Inv s' ∧ (s.mem.closed = true → Calm s s') := by
  cases e with
  | newGarbageCollector =>
    cases hst
    exact h.newGarbageCollector
  | callStart g =>
    rw [Lifecycle.step] at hst
    split at hst
    · rename_i hg
      cases hst
      refine h.push (fun k => Bool.and_false _) (fun k => Bool.and_false _) (fun k => Bool.and_false _) rfl
        (fun k hk => ?_) nofun
      exact Option.some.inj hk ▸ hg
    · cases hst
  | callStop g =>
    rw [Lifecycle.step] at hst
    split at hst
    · cases hst
      exact h.push (fun _ => rfl) (fun _ => rfl) (fun _ => rfl) rfl nofun nofun
    · cases hst
  | callConsume o =>
    cases hst
    exact h.push (fun _ => rfl) (fun _ => rfl) (fun _ => rfl) rfl nofun nofun
  | callClose =>
    cases hst
    exact h.push (fun _ => rfl) (fun _ => rfl) (fun _ => rfl) rfl nofun
      (fun pc hpc => (Call.close.inj hpc).symm)
  | next i failed => exact h.next hst
  | workerEnds i => exact h.workerEnds hst
  | loopEnds g =>
    obtain ⟨m', hm, rfl⟩ := Option.map_eq_some_iff.mp hst
    exact h.loopEnds hm

theorem inv_init : Inv .init where
  holder _ _ _ hc := absurd hc nofun
  known _ hc := absurd hc not_mem_nil
  registered _ _ hg := absurd hg (Nat.not_lt_zero _)
  unborn _ _ := rfl
  joined _ := rfl
  workers := rfl
  closers _ hpc := absurd hpc not_mem_nil

end

/-! ## Close is final -/

abbrev Reaches : State → State → Prop := Runs step fun _ _ => True

/-- no loop of a collector and no handler loop runs -/
def Still (s : State) : Prop :=
  (∀ g, (s.mem.collectors g).loops = 0) ∧ ∀ c ∈ s.calls, c.looping = false

/-- a `Close` has come to `workerWG.Wait` -/
def WaitBegun (s : State) : Prop :=
  .close .wait ∈ s.calls ∨ .close .notifier ∈ s.calls ∨ ∃ failed, .close (.returned failed) ∈ s.calls

section
variable {s s' : State} {e : Event}

theorem Reaches.inv (h : Reaches s s') (hs : Inv s) : Inv s' :=
  h.invariant Inv hs fun _ _ _ ha _ he => (ha.step he).1

theorem Inv.still (h : Inv s) (hidle : ∀ g, Idle s g) (hw : s.mem.workerWG = 0) : Still s := by
  refine ⟨fun g => ?_, fun c hc => ?_⟩
  · have hj := h.joined g
    rw [(hidle g).2] at hj
    omega
  · have hcount := h.workers.symm.trans hw
    exact eq_false_of_ne_true fun hl => countP_eq_zero.mp hcount c hc hl

theorem WaitBegun.closed (h : WaitBegun s) (hs : Inv s) : s.mem.closed = true := by
  rcases h with h | h | ⟨failed, h⟩
  · exact (hs.closers _ h).1
  · exact (hs.closers _ h).1
  · exact (hs.closers _ h).1

theorem Reaches.returned {failed : Bool} (h : Reaches s s') (hs : Inv s)
    (hr : Progress s (.returned failed)) : Progress s' (.returned failed) := by
  have hboth := h.invariant (fun t => Inv t ∧ Progress t (.returned failed)) ⟨hs, hr⟩
    fun a e b ha _ he => ⟨(ha.1.step he).1, ha.2.mono (ha.1.step he).2⟩
  exact hboth.2

end

/-- **once the `Close` that closes the Queue has returned no loop runs, and none ever starts; and from the
moment on when `Close` waits for a wait group, that of the handler loops or that of a collector, nothing
is added to it** -/
theorem close_final (s : State) (h : Reaches .init s) :
    (∀ failed s', .close (.returned failed) ∈ s.calls → Reaches s s' → Still s') ∧
      (∀ e s', WaitBegun s → step s e = some s' → s'.mem.workerWG ≤ s.mem.workerWG) ∧
      ∀ e s' g gcs, .close (.join g gcs) ∈ s.calls → step s e = some s' →
        (s'.mem.collectors g).wg ≤ (s.mem.collectors g).wg := by
  have hinv := h.inv inv_init
  refine ⟨fun failed s' hret hrun => ?_, fun e s' hwait he => ?_, fun e s' g gcs hjoin he => ?_⟩
  · obtain ⟨-, hidle, hw⟩ := hrun.returned hinv (hinv.closers _ hret)
    exact (hrun.inv hinv).still hidle hw
  · exact ((hinv.step he).2 (hwait.closed hinv)).workers
  · obtain ⟨hcl, hq, -⟩ := hinv.closers _ hjoin
    exact (((hinv.step he).2 hcl).quiet g hq).2

/-- two collectors, one whose `Start` is under way when the Queue is closed and one whose `Start` comes too
late, and a handler loop with two workers -/
def shutdown : List Event :=
  [.newGarbageCollector, .newGarbageCollector, .callStart 0, .callStart 1, .callConsume ⟨2, 0⟩, .callClose,
    .next 0 false, .next 0 false, .next 1 false, .next 2 false, .next 2 false, .next 2 false,
    .next 3 false, .next 1 false, .next 0 false, .next 0 false, .next 0 false, .next 0 false, .next 1 false,
    .next 3 false, .next 3 false, .loopEnds 0, .next 3 false, .next 3 false, .next 3 false, .next 3 false,
    .next 2 false, .workerEnds 2, .workerEnds 2, .next 2 false, .next 3 false, .next 3 false]

def lateCalls : List Event :=
  [.newGarbageCollector, .callStart 2, .next 4 false, .next 4 false, .next 4 false, .callConsume ⟨1, 0⟩,
    .next 5 false]

theorem close_final_shutdown : ∃ s s', Reaches .init s ∧ .close (.returned false) ∈ s.calls ∧
    Reaches s s' ∧ s'.calls.length = 6 ∧ s'.mem.created = 3 ∧ Still s' := by
  have h : Reaches .init _ := Runs.of_follow shutdown rfl
  refine ⟨_, _, h, by decide, Runs.of_follow lateCalls rfl, rfl, rfl, ?_⟩
  exact (close_final _ h).1 false _ (by decide) (Runs.of_follow lateCalls rfl)

end PgQueue.Lifecycle
