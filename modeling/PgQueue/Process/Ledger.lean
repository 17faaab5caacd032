import Mathlib.Data.List.Perm.Basic
import PgQueue.Process.Runs

/-!
# What enters a machine and what leaves it

Each step takes some items in and lets some out; in between they are inside.  The ledger of a run lists
both, and the machine neither loses nor copies an item if no step does.

* `Ledger`, `ledgered`   a machine that keeps the ledger;
* `Conserves`            a step moves items, no more;
* `Runs.conserved`       **what has entered has left or is inside, each item as often as it entered.**
-/

namespace Process
open scoped List

variable {σ ε α : Type}

structure Ledger (α : Type) where
  entered : List α
  left : List α
deriving DecidableEq, Repr

def Ledger.empty : Ledger α := ⟨[], []⟩

def ledgered (step : σ → ε → Option σ) (enters leaves : σ → ε → List α) (p : σ × Ledger α) (e : ε) :
    Option (σ × Ledger α) :=
  (step p.1 e).map fun t => (t, ⟨p.2.entered ++ enters p.1 e, p.2.left ++ leaves p.1 e⟩)

def Conserves (step : σ → ε → Option σ) (enters leaves : σ → ε → List α) (inside : σ → List α) : Prop :=
  ∀ s e t, step s e = some t → (enters s e ++ inside s).Perm (leaves s e ++ inside t)

section
variable {step : σ → ε → Option σ} {enters leaves : σ → ε → List α} {inside : σ → List α}
  {ok : σ × Ledger α → ε → Prop} {s t : σ} {l : Ledger α}

theorem ledgered_eq_some {p q : σ × Ledger α} {e : ε} :
    ledgered step enters leaves p e = some q ↔ ∃ t, step p.1 e = some t ∧
      q = (t, ⟨p.2.entered ++ enters p.1 e, p.2.left ++ leaves p.1 e⟩) := by
  unfold ledgered
  rw [Option.map_eq_some_iff]
  exact exists_congr fun t => and_congr_right fun _ => eq_comm

/-- **what has entered has left or is inside.** -/
theorem Runs.conserved (h : Conserves step enters leaves inside)
    (hrun : Runs (ledgered step enters leaves) ok (s, .empty) (t, l)) :
    (l.entered ++ inside s).Perm (l.left ++ inside t) := by
  refine hrun.invariant (fun p => (p.2.entered ++ inside s).Perm (p.2.left ++ inside p.1)) (.refl _) ?_
  intro p e q hp _ hq
  obtain ⟨u, hu, rfl⟩ := ledgered_eq_some.mp hq
  have hstep := h p.1 e u hu
  calc p.2.entered ++ enters p.1 e ++ inside s
    _ ~ p.2.entered ++ inside s ++ enters p.1 e := by
      rw [List.append_assoc, List.append_assoc]
      exact List.perm_append_comm.append_left _
    _ ~ p.2.left ++ inside p.1 ++ enters p.1 e := hp.append_right _
    _ ~ p.2.left ++ (enters p.1 e ++ inside p.1) := by
      rw [List.append_assoc]
      exact List.perm_append_comm.append_left _
    _ ~ p.2.left ++ (leaves p.1 e ++ inside u) := hstep.append_left _
    _ = p.2.left ++ leaves p.1 e ++ inside u := (List.append_assoc _ _ _).symm

end

end Process
