import Mathlib.Data.List.Basic

/-!
# Work that is done in pieces

`act xs s` works off the elements `xs` in the state `s`, or fails.

* `chunked act n`      the work cut into pieces of `n` elements;
* `stream act n buf`   the elements go through a buffer that is worked off when it holds `n` of them,
                       and at the end;
* `Additive act`       two pieces of work are one;
* `pieces n`           the pieces themselves.

**Whatever the work is, both work off the same pieces** (`chunked_eq_foldlM`, `stream_eq_chunked`,
`chunked_chunked`); they are `act` itself if the work is additive (`Additive.chunked`).  Work that is seen
as other work is so in pieces (`chunked_map`).
-/

set_option linter.unusedVariables false

namespace Process
open List

variable {α σ ε : Type}

def chunked (act : List α → σ → Except ε σ) (n : Nat) (hn : 0 < n) (xs : List α) (s : σ) :
    Except ε σ :=
  if h : xs = [] then .ok s
  else
    match act (xs.take n) s with
    | .error e => .error e
    | .ok s' => chunked act n hn (xs.drop n) s'
termination_by xs.length
decreasing_by
  have := length_pos_iff.mpr h
  rw [length_drop]
  omega

def stream (act : List α → σ → Except ε σ) (n : Nat) : List α → List α → σ → Except ε σ
  | buf, [], s => if buf = [] then .ok s else act buf s
  | buf, x :: xs, s =>
    if (buf ++ [x]).length = n then
      match act (buf ++ [x]) s with
      | .error e => .error e
      | .ok s' => stream act n [] xs s'
    else stream act n (buf ++ [x]) xs s

/-! ## the pieces -/

section
variable {act : List α → σ → Except ε σ} {n : Nat} (hn : 0 < n)

def pieces (n : Nat) (hn : 0 < n) (xs : List α) : List (List α) :=
  if h : xs = [] then [] else xs.take n :: pieces n hn (xs.drop n)
termination_by xs.length
decreasing_by
  have := length_pos_iff.mpr h
  rw [length_drop]
  omega

include hn

theorem length_drop_lt {xs : List α} (hx : xs ≠ []) : (xs.drop n).length < xs.length := by
  have := length_pos_iff.mpr hx
  rw [length_drop]
  omega

theorem piece_induction {motive : List α → Prop} (nil : motive [])
    (cons : ∀ xs, xs ≠ [] → motive (xs.drop n) → motive xs) (xs : List α) : motive xs := by
  induction hk : xs.length using Nat.strongRecOn generalizing xs with
  | _ k ih =>
    by_cases hx : xs = []
    · rw [hx]
      exact nil
    · exact cons xs hx (ih _ (hk ▸ length_drop_lt hn hx) (xs.drop n) rfl)

theorem pieces_nil : pieces n hn ([] : List α) = [] := by rw [pieces, dif_pos rfl]

theorem pieces_cons {xs : List α} (hx : xs ≠ []) :
    pieces n hn xs = xs.take n :: pieces n hn (xs.drop n) := by rw [pieces, dif_neg hx]

theorem chunked_nil (s : σ) : chunked act n hn [] s = .ok s := by rw [chunked, dif_pos rfl]

theorem chunked_cons {xs : List α} (hx : xs ≠ []) (s : σ) :
    chunked act n hn xs s = act (xs.take n) s >>= chunked act n hn (xs.drop n) := by
  rw [chunked, dif_neg hx]
  cases act (xs.take n) s with
  | error | ok => rfl

theorem flatten_pieces (xs : List α) : (pieces n hn xs).flatten = xs := by
  induction xs using piece_induction hn with
  | nil =>
    rw [pieces_nil]
    rfl
  | cons xs hx ih => rw [pieces_cons hn hx, flatten_cons, ih, take_append_drop]

theorem length_of_mem_pieces {xs p : List α} (h : p ∈ pieces n hn xs) : 1 ≤ p.length ∧ p.length ≤ n := by
  induction xs using piece_induction hn with
  | nil =>
    rw [pieces_nil] at h
    cases h
  | cons xs hx ih =>
    rw [pieces_cons hn hx] at h
    rcases mem_cons.mp h with rfl | h
    · have := length_pos_iff.mpr hx
      rw [length_take]
      omega
    · exact ih h

theorem chunked_eq_foldlM (xs : List α) (s : σ) :
    chunked act n hn xs s = (pieces n hn xs).foldlM (fun s p => act p s) s := by
  induction xs using piece_induction hn generalizing s with
  | nil =>
    rw [pieces_nil, chunked_nil]
    rfl
  | cons xs hx ih =>
    rw [pieces_cons hn hx, chunked_cons hn hx, foldlM_cons]
    exact congrArg (act (xs.take n) s >>= ·) (funext ih)

theorem chunked_of_le {xs : List α} (hx : xs ≠ []) (hle : xs.length ≤ n) (s : σ) :
    chunked act n hn xs s = act xs s := by
  rw [chunked_cons hn hx, take_of_length_le hle, drop_of_length_le hle]
  cases act xs s with
  | error e => rfl
  | ok s' => exact chunked_nil hn s'

theorem chunked_chunked (xs : List α) (s : σ) :
    chunked (chunked act n hn) n hn xs s = chunked act n hn xs s := by
  induction xs using piece_induction hn generalizing s with
  | nil => rw [chunked_nil, chunked_nil]
  | cons xs hx ih =>
    have htake : xs.take n ≠ [] := by
      rw [Ne, take_eq_nil_iff]
      exact fun h => h.elim (Nat.ne_of_gt hn) hx
    rw [chunked_cons hn hx, chunked_cons hn hx,
      chunked_of_le hn htake (length_take_le n xs)]
    exact congrArg (act (xs.take n) s >>= ·) (funext ih)

theorem chunked_map {τ δ : Type} {act' : List α → τ → Except δ τ} {f : σ → τ} {g : δ → ε}
    (h : ∀ xs s, (act xs s).map f = ((act' xs (f s)).mapError g)) (xs : List α) (s : σ) :
    (chunked act n hn xs s).map f = (chunked act' n hn xs (f s)).mapError g := by
  induction xs using piece_induction hn generalizing s with
  | nil =>
    rw [chunked_nil, chunked_nil]
    rfl
  | cons xs hx ih =>
    have hhead := h (xs.take n) s
    rw [chunked_cons hn hx, chunked_cons hn hx]
    cases ha : act (xs.take n) s <;> cases hb : act' (xs.take n) (f s) <;> rw [ha, hb] at hhead
    · exact congrArg Except.error (Except.error.inj hhead)
    · cases hhead
    · cases hhead
    · cases hhead
      exact ih _

/-- the buffer is never full between two elements -/
theorem stream_eq_chunked {buf : List α} (xs : List α) (hbuf : buf.length < n) (s : σ) :
    stream act n buf xs s = chunked act n hn (buf ++ xs) s := by
  induction xs generalizing buf s with
  | nil =>
    rw [stream, append_nil]
    split
    · rename_i hb
      rw [hb, chunked_nil]
    · rename_i hb
      exact (chunked_of_le hn hb (Nat.le_of_lt hbuf) s).symm
  | cons x xs ih =>
    have hmove : buf ++ x :: xs = (buf ++ [x]) ++ xs := by
      rw [append_assoc, singleton_append]
    rw [stream, hmove]
    split
    · rename_i hfull
      rw [chunked_cons hn (by simp), take_left' hfull, drop_left' hfull]
      cases act (buf ++ [x]) s with
      | error e => rfl
      | ok s' => exact @ih [] hn s'
    · rename_i hfull
      refine ih ?_ s
      rw [length_append, length_singleton] at hfull ⊢
      omega

end

/-! ## additive work -/

structure Additive (act : List α → σ → Except ε σ) : Prop where
  nil : ∀ s, act [] s = .ok s
  append : ∀ xs ys s, act (xs ++ ys) s =
    match act xs s with
    | .error e => .error e
    | .ok s' => act ys s'

section
variable {act : List α → σ → Except ε σ} (h : Additive act)
include h

theorem Additive.chunked {n : Nat} (hn : 0 < n) (xs : List α) (s : σ) :
    chunked act n hn xs s = act xs s := by
  induction xs using piece_induction hn generalizing s with
  | nil => rw [chunked_nil, h.nil]
  | cons xs hx ih =>
    have hcut := h.append (xs.take n) (xs.drop n) s
    rw [take_append_drop] at hcut
    rw [chunked_cons hn hx, hcut]
    cases act (xs.take n) s with
    | error e => rfl
    | ok s' => exact ih s'

end
end Process
