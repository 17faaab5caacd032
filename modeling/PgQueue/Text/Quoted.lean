import Mathlib.Data.List.Basic

/-!
# Quoted text

A text between quotes, in which a quote is written twice.

* `replaceAll`        every occurrence of one text, from the left, becomes another;
* `quote`             the text between quotes;
* `lexQuoted`         the lexer: it reads a quote, takes a doubled quote as one, and stops at the first quote
                      that is not doubled;
* `lexQuoted_quote`   **it reads back what was quoted, and nothing of what follows.**
-/

namespace Text
open List
variable {α : Type} [DecidableEq α]

/-- `skip` characters are left of the occurrence that was replaced last -/
def replaceFrom (old new : List α) : Nat → List α → List α
  | _, [] => []
  | skip + 1, _ :: s => replaceFrom old new skip s
  | 0, a :: s =>
    if old.isPrefixOf (a :: s) then new ++ replaceFrom old new (old.length - 1) s
    else a :: replaceFrom old new 0 s

/-- `old` is not empty -/
def replaceAll (s old new : List α) : List α := replaceFrom old new 0 s

def quote (q : α) (s : List α) : List α := [q] ++ replaceAll s [q] [q, q] ++ [q]

/-- the lexer behind the opening quote: what is denoted, and what is left; the whole text ends at `nul` -/
def lexBody (q nul : α) : List α → Option (List α × List α)
  | [] => none
  | [a] => if a = q then some ([], []) else none
  | a :: b :: s =>
    if a = nul then none
    else if a = q then
      if b = q then (lexBody q nul s).map fun p => (q :: p.1, p.2) else some ([], b :: s)
    else (lexBody q nul (b :: s)).map fun p => (a :: p.1, p.2)

def lexQuoted (q nul : α) : List α → Option (List α × List α)
  | [] => none
  | a :: s => if a = q then lexBody q nul s else none

section
variable {q nul a : α} {s t rest : List α}

theorem replaceAll_cons_self (new : List α) : replaceAll (q :: s) [q] new = new ++ replaceAll s [q] new := by
  unfold replaceAll
  rw [replaceFrom, if_pos (by simp)]
  rfl

theorem replaceAll_cons_of_ne (ha : a ≠ q) (new : List α) :
    replaceAll (a :: s) [q] new = a :: replaceAll s [q] new := by
  unfold replaceAll
  rw [replaceFrom, if_neg (by simpa using ha.symm)]

theorem lexBody_of_ne (hnul : a ≠ nul) (hq : a ≠ q) :
    lexBody q nul (a :: s) = (lexBody q nul s).map fun p => (a :: p.1, p.2) := by
  cases s with
  | nil =>
    have hlast : lexBody q nul [a] = none := if_neg hq
    rw [hlast]
    rfl
  | cons b s => rw [lexBody, if_neg hnul, if_neg hq]

/-- a quote that is not doubled ends the text -/
theorem lexBody_end (hne : q ≠ nul) (hrest : rest.head? ≠ some q) :
    lexBody q nul (q :: rest) = some ([], rest) := by
  cases rest with
  | nil => rw [lexBody, if_pos rfl]
  | cons b rest =>
    have hb : b ≠ q := fun h => hrest (congrArg some h)
    rw [lexBody, if_neg hne, if_pos rfl, if_neg hb]

theorem lexBody_doubled (hne : q ≠ nul) :
    lexBody q nul (q :: q :: s) = (lexBody q nul s).map fun p => (q :: p.1, p.2) := by
  rw [lexBody, if_neg hne, if_pos rfl, if_pos rfl]

theorem lexBody_replaceAll (hne : q ≠ nul) (hs : nul ∉ s) (hrest : rest.head? ≠ some q) :
    lexBody q nul (replaceAll s [q] [q, q] ++ q :: rest) = some (s, rest) := by
  induction s with
  | nil => exact lexBody_end hne hrest
  | cons a s ih =>
    obtain ⟨ha, hs⟩ := ne_and_not_mem_of_not_mem_cons hs
    by_cases hq : a = q
    · subst hq
      rw [replaceAll_cons_self]
      show lexBody a nul (a :: a :: (replaceAll s [a] [a, a] ++ a :: rest)) = _
      rw [lexBody_doubled hne, ih hs]
      rfl
    · rw [replaceAll_cons_of_ne hq, cons_append, lexBody_of_ne (Ne.symm ha) hq, ih hs]
      rfl

/-- **What was quoted is read back**, and what follows is left, if it does not begin with a quote. -/
theorem lexQuoted_quote (hne : q ≠ nul) (hs : nul ∉ s) (hrest : rest.head? ≠ some q) :
    lexQuoted q nul (quote q s ++ rest) = some (s, rest) := by
  have htext : quote q s ++ rest = q :: (replaceAll s [q] [q, q] ++ q :: rest) := by
    unfold quote
    rw [append_assoc, append_assoc]
    rfl
  rw [htext, lexQuoted, if_pos rfl]
  exact lexBody_replaceAll hne hs hrest

theorem quote_inj (hne : q ≠ nul) (hs : nul ∉ s) (ht : nul ∉ t) (h : quote q s = quote q t) : s = t := by
  have hend : ([] : List α).head? ≠ some q := by simp
  have hread := lexQuoted_quote hne hs hend
  rw [h, lexQuoted_quote hne ht hend] at hread
  exact (Prod.mk.inj (Option.some.inj hread)).1.symm

end
end Text
