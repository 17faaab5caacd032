import Mathlib.Data.List.Basic

/-!
# Calls over a shared memory

Every call stands somewhere in its code.  A step of the call at position `i` changes the memory and
where that call stands, and no other call.

* `Calls`            the memory and the calls;
* `Calls.act`        one step of a call, by a local function;
* `getElem?_set_cases`, `getElem?_push_cases`   the calls after a step, and after a new call;
* `countP_set`       **a number of calls changes by the one that moves.**
-/

namespace Process
open List

structure Calls (μ κ : Type) where
  mem : μ
  calls : List κ

namespace Calls
variable {μ κ : Type}

def act (f : Nat → μ → κ → Option (μ × κ)) (w : Calls μ κ) (i : Nat) : Option (Calls μ κ) :=
  match w.calls[i]? with
  | none => none
  | some c => (f i w.mem c).map fun p => ⟨p.1, w.calls.set i p.2⟩

def push (w : Calls μ κ) (c : κ) : Calls μ κ := ⟨w.mem, w.calls ++ [c]⟩

theorem act_eq_some {f : Nat → μ → κ → Option (μ × κ)} {w w' : Calls μ κ} {i : Nat} :
    act f w i = some w' ↔ ∃ c m c', w.calls[i]? = some c ∧ f i w.mem c = some (m, c') ∧
      w' = ⟨m, w.calls.set i c'⟩ := by
  unfold act
  constructor
  · intro h
    split at h
    · cases h
    · rename_i c hc
      obtain ⟨⟨m, c'⟩, hf, rfl⟩ := Option.map_eq_some_iff.mp h
      exact ⟨c, m, c', hc, hf, rfl⟩
  · rintro ⟨c, m, c', hc, hf, rfl⟩
    rw [hc]
    dsimp only
    rw [hf]
    rfl

theorem act_push {f : Nat → μ → κ → Option (μ × κ)} {w : Calls μ κ} {c c' : κ} {m : μ}
    (h : f w.calls.length w.mem c = some (m, c')) :
    act f (w.push c) w.calls.length = some (push ⟨m, w.calls⟩ c') := by
  refine act_eq_some.mpr ⟨c, m, c', getElem?_concat_length, h, ?_⟩
  show (⟨m, w.calls ++ [c']⟩ : Calls μ κ) = ⟨m, (w.calls ++ [c]).set w.calls.length c'⟩
  rw [set_append_right _ _ (Nat.le_refl _), Nat.sub_self]
  rfl

end Calls

section
variable {κ : Type} {l : List κ} {i : Nat} {c c' : κ}

theorem getElem?_set_cases (hc : l[i]? = some c) {j : Nat} {d : κ} (h : (l.set i c')[j]? = some d) :
    (j = i ∧ d = c') ∨ j ≠ i ∧ l[j]? = some d := by
  by_cases hj : j = i
  · subst hj
    rw [List.getElem?_set_self (List.getElem?_eq_some_iff.mp hc).1] at h
    exact Or.inl ⟨rfl, (Option.some.inj h).symm⟩
  · rw [List.getElem?_set_ne (Ne.symm hj)] at h
    exact Or.inr ⟨hj, h⟩

theorem getElem?_push_cases {j : Nat} {d : κ} (h : (l ++ [c])[j]? = some d) :
    l[j]? = some d ∨ d = c := by
  rcases Nat.lt_or_ge j l.length with hj | hj
  · rw [getElem?_append_left hj] at h
    exact Or.inl h
  · rw [getElem?_append_right hj] at h
    exact Or.inr (mem_singleton.mp (mem_of_getElem? h))

theorem countP_set (p : κ → Bool) (hc : l[i]? = some c) (c' : κ) :
    (l.set i c').countP p + (p c).toNat = l.countP p + (p c').toNat := by
  induction l generalizing i with
  | nil => cases hc
  | cons a l ih =>
    cases i with
    | zero =>
      obtain rfl : a = c := Option.some.inj hc
      rw [set_cons_zero, countP_cons, countP_cons]
      cases p a <;> cases p c' <;> rfl
    | succ i =>
      have h := ih hc
      rw [set_cons_succ, countP_cons, countP_cons]
      omega

end
end Process
