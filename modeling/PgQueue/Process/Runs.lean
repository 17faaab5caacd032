import Mathlib.Data.Option.Basic

/-!
# Runs of a machine with several callers

A machine is a partial function `step` from a state and an event to the next state; an event that is
not possible in a state has no next state.  Every interleaving of the callers is a list of events.

* `Runs step ok s t`   from `s` to `t` by steps that all meet `ok`;
* `follow step s es`   the state after the events `es`;
* `Runs.invariant`     **what every step keeps holds at the end of every run.**
-/

namespace Process

variable {σ ε : Type}

inductive Runs (step : σ → ε → Option σ) (ok : σ → ε → Prop) (s : σ) : σ → Prop
  | refl : Runs step ok s s
  | tail {t u : σ} {e : ε} : Runs step ok s t → ok t e → step t e = some u → Runs step ok s u

def follow (step : σ → ε → Option σ) : σ → List ε → Option σ
  | s, [] => some s
  | s, e :: es => (step s e).bind fun t => follow step t es

def guarded (step : σ → ε → Option σ) (ok : σ → ε → Prop) [∀ s e, Decidable (ok s e)] (s : σ)
    (e : ε) : Option σ :=
  if ok s e then step s e else none

variable {step : σ → ε → Option σ} {ok : σ → ε → Prop}

/-- **What every step keeps holds at the end of every run.** -/
theorem Runs.invariant {s t : σ} (h : Runs step ok s t) (I : σ → Prop) (h₀ : I s)
    (hstep : ∀ a e b, I a → ok a e → step a e = some b → I b) : I t := by
  induction h with
  | refl => exact h₀
  | tail _ hok he ih => exact hstep _ _ _ ih hok he

theorem Runs.trans {s t u : σ} (h₁ : Runs step ok s t) (h₂ : Runs step ok t u) :
    Runs step ok s u := by
  induction h₂ with
  | refl => exact h₁
  | tail _ hok he ih => exact ih.tail hok he

theorem Runs.of_follow [∀ s e, Decidable (ok s e)] (es : List ε) {s t : σ}
    (h : follow (guarded step ok) s es = some t) : Runs step ok s t := by
  induction es generalizing s with
  | nil =>
    obtain rfl : s = t := Option.some.inj h
    exact .refl
  | cons e es ih =>
    obtain ⟨u, hu, ht⟩ := Option.bind_eq_some_iff.mp h
    unfold guarded at hu
    split at hu
    next hok => exact (Runs.refl.tail hok hu).trans (ih ht)
    next => exact absurd hu (by simp)

end Process
