import PgQueue.Process.Runs

/-!
# Sleeping next to a queue

Callers put work into a queue and ring afterwards; a worker looks at the queue, does the work and then
sleeps, unless the bell has rung meanwhile.  A ring that comes while it sleeps ends the sleep.

* `Doorbell`           where the worker is, whether the bell has rung, the work that is queued and the
                       work whose caller has not rung yet;
* `Doorbell.Keeps`     the rules of the worker and of the callers, step by step;
* `Doorbell.asleep_late`   **the worker sleeps only if every caller with queued work has yet to ring.**
-/

namespace Process

/-- `bound`: the worker has looked and will come to its sleep before it looks again -/
structure Doorbell (σ ι : Type) where
  bound : σ → Prop
  asleep : σ → Prop
  rung : σ → Prop
  queued : σ → ι → Prop
  late : σ → ι → Prop
  bound_of_asleep : ∀ s, asleep s → bound s

namespace Doorbell
variable {σ ε ι : Type} {step : σ → ε → Option σ} {ok : σ → ε → Prop} {d : Doorbell σ ι} {s t : σ}

/-- one step from `s` to `t` -/
structure Keeps (d : Doorbell σ ι) (s t : σ) : Prop where
  /-- the worker has taken what was there -/
  looks : d.bound t → ¬ d.bound s → ∀ i, d.queued t i → d.late t i
  /-- it forgets a ring only on its way to the next look -/
  hears : d.bound t → d.bound s → d.rung s → d.rung t
  /-- work that is queued now is late, or it was there before, or its caller has just rung -/
  queues : d.bound t → d.bound s → ∀ i, d.queued t i → d.late t i ∨ d.rung t ∨ d.queued s i ∧ ¬ d.late s i
  /-- a ring ends the sleep, and prevents it -/
  sleeps : d.asleep t → (d.asleep s ∨ ¬ d.rung s) ∧ (d.rung t → d.rung s)

theorem Keeps.away (h : ¬ d.bound t) : d.Keeps s t where
  looks ht := absurd ht h
  hears ht := absurd ht h
  queues ht := absurd ht h
  sleeps ht := absurd (d.bound_of_asleep t ht) h

/-- the bell has rung, or nobody with queued work has rung -/
def Answered (d : Doorbell σ ι) (s : σ) : Prop :=
  d.bound s → d.rung s ∨ ∀ i, d.queued s i → d.late s i

theorem Answered.next (h : d.Answered s) (hk : d.Keeps s t) : d.Answered t := by
  intro ht
  by_cases hs : d.bound s
  · by_cases hr : d.rung t
    · exact Or.inl hr
    · refine Or.inr fun i hi => ?_
      rcases hk.queues ht hs i hi with hlate | hrung | ⟨hqueued, hnot⟩
      · exact hlate
      · exact absurd hrung hr
      · rcases h hs with hrung | hall
        · exact absurd (hk.hears ht hs hrung) hr
        · exact absurd (hall i hqueued) hnot
  · exact Or.inr (hk.looks ht hs)

/-- **The worker sleeps only if every caller with queued work has yet to ring.** -/
theorem asleep_late (hk : ∀ s e t, ok s e → step s e = some t → d.Keeps s t) (h₀ : ¬ d.bound s)
    (hrun : Runs step ok s t) (ht : d.asleep t) : ∀ i, d.queued t i → d.late t i := by
  have h : d.Answered t ∧ (d.asleep t → ¬ d.rung t) := by
    refine hrun.invariant (fun u => d.Answered u ∧ (d.asleep u → ¬ d.rung u))
      ⟨fun hb => absurd hb h₀, fun ha => absurd (d.bound_of_asleep s ha) h₀⟩ fun u e v hu hok he => ?_
    have hkeeps := hk u e v hok he
    refine ⟨hu.1.next hkeeps, fun hv hr => ?_⟩
    obtain ⟨hsleep, hrung⟩ := hkeeps.sleeps hv
    exact hsleep.elim hu.2 (fun hs => hs) (hrung hr)
  exact (h.1 (d.bound_of_asleep t ht)).resolve_left (h.2 ht)

end Doorbell

end Process
