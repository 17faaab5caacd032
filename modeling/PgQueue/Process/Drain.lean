import Mathlib.Data.List.Perm.Basic

/-!
# Taking elements out until there is nothing left

A call `receive v s` takes one element out of a state, or fails; one of its errors means that there
is nothing to take.

* `callAll receive vs s`          the calls with the arguments `vs`, all of which have to succeed;
* `drain receive empty arg n s`   calls until nothing is left, at most `n` of them;
* `Takes`                         the calls take out the elements of `ready`, one at a time;
* `Takes.callAll`, `Takes.drain`  **so many calls succeed as there are ready elements, and no more.**
-/

namespace Process
open List

variable {σ ε μ ν κ : Type}

def callAll (receive : ν → σ → Except ε μ × σ) : List ν → σ → Except ε (List μ) × σ
  | [], s => (.ok [], s)
  | v :: vs, s =>
    match receive v s with
    | (.error e, s') => (.error e, s')
    | (.ok m, s') =>
      match callAll receive vs s' with
      | (.error e, s'') => (.error e, s'')
      | (.ok ms, s'') => (.ok (m :: ms), s'')

theorem callAll_cons {receive : ν → σ → Except ε μ × σ} {v : ν} {vs : List ν} {s s' : σ}
    {ms : List μ} :
    callAll receive (v :: vs) s = (.ok ms, s') ↔
      ∃ m s₁ ms', receive v s = (.ok m, s₁) ∧ callAll receive vs s₁ = (.ok ms', s') ∧
        m :: ms' = ms := by
  rw [callAll]
  constructor
  · intro h
    split at h
    · cases h
    · rename_i m s₁ hr
      split at h
      · cases h
      · rename_i ms' s₂ hrs
        cases h
        exact ⟨m, s₁, ms', hr, hrs, rfl⟩
  · rintro ⟨m, s₁, ms', hr, hrs, rfl⟩
    rw [hr]
    dsimp only
    rw [hrs]

/-- the `i`-th call has the argument `arg i`; `none` if the calls run out or one fails otherwise -/
def drain [DecidableEq ε] (receive : ν → σ → Except ε μ × σ) (empty : ε) (arg : Nat → ν) :
    Nat → σ → Option (List μ × σ)
  | 0, _ => none
  | calls + 1, s =>
    match receive (arg 0) s with
    | (.error e, s') => if e = empty then some ([], s') else none
    | (.ok m, s') =>
      (drain receive empty (fun i => arg (i + 1)) calls s').map fun p => (m :: p.1, p.2)

/-- in the states `I`, a call with a good argument takes out one element of `ready` -/
structure Takes (receive : ν → σ → Except ε μ × σ) (empty : ε) (good : ν → Prop) (I : σ → Prop)
    (ready : σ → List κ) (key : μ → κ) : Prop where
  empty : ∀ v s, good v → I s → ready s = [] → receive v s = (.error empty, s)
  next : ∀ v s, good v → I s → ready s ≠ [] →
    ∃ m s', receive v s = (.ok m, s') ∧ I s' ∧ (ready s).Perm (key m :: ready s')

section
variable {receive : ν → σ → Except ε μ × σ} {empty : ε} {good : ν → Prop} {I : σ → Prop}
  {ready : σ → List κ} {key : μ → κ}

theorem Takes.callAll (h : Takes receive empty good I ready key) {vs : List ν}
    (hv : ∀ v ∈ vs, good v) {s : σ} (hs : I s) (hn : vs.length = (ready s).length) :
    ∃ ms s', callAll receive vs s = (.ok ms, s') ∧ I s' ∧ (ms.map key).Perm (ready s) ∧
      ready s' = [] := by
  induction vs generalizing s with
  | nil =>
    have hnil := eq_nil_of_length_eq_zero hn.symm
    exact ⟨[], s, rfl, hs, by rw [hnil]; exact Perm.nil, hnil⟩
  | cons v vs ih =>
    rw [length_cons] at hn
    have hne : ready s ≠ [] := fun h0 => by rw [h0] at hn; cases hn
    obtain ⟨m, s₁, hr, hs₁, hp⟩ := h.next v s (hv v mem_cons_self) hs hne
    have hlen := hp.length_eq
    rw [length_cons] at hlen
    obtain ⟨ms, s₂, hc, hs₂, hp₂, hnil⟩ :=
      ih (fun w hw => hv w (mem_cons_of_mem v hw)) hs₁ (by omega)
    refine ⟨m :: ms, s₂, ?_, hs₂, ?_, hnil⟩
    · rw [Process.callAll, hr]
      dsimp only
      rw [hc]
    · rw [map_cons]
      exact (hp₂.cons _).trans hp.symm

theorem Takes.drain [DecidableEq ε] (h : Takes receive empty good I ready key) {arg : Nat → ν}
    (hv : ∀ i, good (arg i)) {calls : Nat} {s : σ} (hs : I s) (hn : (ready s).length < calls) :
    ∃ ms s', drain receive empty arg calls s = some (ms, s') ∧ I s' ∧
      (ms.map key).Perm (ready s) := by
  induction calls generalizing s arg with
  | zero => omega
  | succ calls ih =>
    rw [Process.drain]
    by_cases hnil : ready s = []
    · rw [h.empty _ s (hv 0) hs hnil]
      refine ⟨[], s, if_pos rfl, hs, ?_⟩
      rw [hnil]
      exact Perm.nil
    · obtain ⟨m, s₁, hr, hs₁, hp⟩ := h.next (arg 0) s (hv 0) hs hnil
      have hlen := hp.length_eq
      rw [length_cons] at hlen
      obtain ⟨ms, s₂, hd, hs₂, hp₂⟩ := ih (fun i => hv (i + 1)) hs₁ (by omega)
      refine ⟨m :: ms, s₂, ?_, hs₂, ?_⟩
      · rw [hr]
        dsimp only
        rw [hd]
        rfl
      · rw [map_cons]
        exact (hp₂.cons _).trans hp.symm

end

end Process
