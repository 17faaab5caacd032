import Mathlib.Data.List.Basic

/-!
# Array literals

The text of an array of one dimension, as PostgreSQL reads it: elements between braces, with commas between
them.  An element stands in double quotes or plainly; a backslash takes the character behind it as it is;
blanks around an element do not count; a plain `NULL` is null.  (Bounds before the braces and arrays in
arrays are not read.)

* `scan`             the texts of the elements, and what is left behind the closing brace;
* `arrayIn`          the array, for any reader of the elements;
* `literal`          texts between braces, with commas between them;
* `Plain`            a text that needs no quotes;
* `arrayIn_literal`  **plain texts are read back one by one;**
* `unnest`           two arrays side by side, the shorter one filled up with nulls.
-/

namespace Text
open List

def openBrace : Char := '\x7b'
def closeBrace : Char := '\x7d'
def quotes : Char := '\x22'
def backslash : Char := '\x5c'

def blank (c : Char) : Bool :=
  c = ' ' || c = '\t' || c = '\n' || c = '\r' || c = '\x0b' || c = '\x0c'

inductive Place where
  /-- before an element; if it is the first one, the array may end here -/
  | before (first : Bool)
  /-- in a plain element: what was read, the blanks since then, and if there was a backslash -/
  | plain (text blanks : List Char) (escaped : Bool)
  | plainEscape (text : List Char)
  | quoted (text : List Char)
  | quotedEscape (text : List Char)
  /-- behind an element in quotes -/
  | after (text : List Char)

/-- `none` is null -/
def plainElement (text : List Char) (escaped : Bool) : Option (List Char) :=
  if escaped = false ∧ text.map Char.toUpper = ['N', 'U', 'L', 'L'] then none else some text

def scan : Place → List Char → Option (List (Option (List Char)) × List Char)
  | _, [] => none
  | .before first, c :: s =>
    if blank c then scan (.before first) s
    else if c = closeBrace then if first then some ([], s) else none
    else if c = ',' ∨ c = openBrace then none
    else if c = quotes then scan (.quoted []) s
    else if c = backslash then scan (.plainEscape []) s
    else scan (.plain [c] [] false) s
  | .plain text blanks escaped, c :: s =>
    if c = ',' then (scan (.before false) s).map fun p => (plainElement text escaped :: p.1, p.2)
    else if c = closeBrace then some ([plainElement text escaped], s)
    else if c = openBrace ∨ c = quotes then none
    else if c = backslash then scan (.plainEscape (text ++ blanks)) s
    else if blank c then scan (.plain text (blanks ++ [c]) escaped) s
    else scan (.plain (text ++ blanks ++ [c]) [] escaped) s
  | .plainEscape text, c :: s => scan (.plain (text ++ [c]) [] true) s
  | .quoted text, c :: s =>
    if c = quotes then scan (.after text) s
    else if c = backslash then scan (.quotedEscape text) s
    else scan (.quoted (text ++ [c])) s
  | .quotedEscape text, c :: s => scan (.quoted (text ++ [c])) s
  | .after text, c :: s =>
    if blank c then scan (.after text) s
    else if c = ',' then (scan (.before false) s).map fun p => (some text :: p.1, p.2)
    else if c = closeBrace then some ([some text], s)
    else none

section
variable {α β γ : Type}

def readElement (elem : List Char → Option α) : Option (List Char) → Option (Option α)
  | none => some none
  | some text => (elem text).map some

/-- `none` if the text is refused; a null element is `none` in the array -/
def arrayIn (elem : List Char → Option α) (s : List Char) : Option (List (Option α)) :=
  match s.dropWhile blank with
  | [] => none
  | c :: s =>
    if c = openBrace then
      match scan (.before true) s with
      | none => none
      | some (texts, rest) => if rest.all blank then texts.mapM (readElement elem) else none
    else none

def literal (parts : List (List Char)) : List Char := [openBrace] ++ [','].intercalate parts ++ [closeBrace]

/-- `unnest` of two arrays -/
def unnest : List (Option α) → List (Option β) → List (Option α × Option β)
  | [], bs => bs.map fun b => (none, b)
  | a :: as, [] => (a, none) :: as.map fun a => (a, none)
  | a :: as, b :: bs => (a, b) :: unnest as bs

/-! ## plain texts -/

def plainChar (c : Char) : Bool :=
  !blank c && c ≠ ',' && c ≠ openBrace && c ≠ closeBrace && c ≠ quotes && c ≠ backslash

structure Plain (text : List Char) : Prop where
  ne_nil : text ≠ []
  chars : ∀ c ∈ text, plainChar c = true
  ne_null : text.map Char.toUpper ≠ ['N', 'U', 'L', 'L']

section
variable {text done rest : List Char} {first : Bool} {parts : List (List Char)}

theorem scan_plain (h : ∀ c ∈ text, plainChar c = true) :
    scan (.plain done [] false) (text ++ rest) = scan (.plain (done ++ text) [] false) rest := by
  induction text generalizing done with
  | nil => rw [nil_append, append_nil]
  | cons c text ih =>
    obtain ⟨hc, htext⟩ := forall_mem_cons.mp h
    have hstep : scan (.plain done [] false) (c :: (text ++ rest)) =
        scan (.plain (done ++ [c]) [] false) (text ++ rest) := by
      rw [scan]
      simp only [plainChar, Bool.and_eq_true, Bool.not_eq_true', decide_eq_true_eq] at hc
      simp [hc]
    rw [cons_append, hstep, ih htext, append_assoc]
    rfl

theorem scan_before (h : Plain text) :
    scan (.before first) (text ++ rest) = scan (.plain text [] false) rest := by
  obtain ⟨c, text, rfl⟩ := exists_cons_of_ne_nil h.ne_nil
  obtain ⟨hc, htext⟩ := forall_mem_cons.mp h.chars
  have hstep : scan (.before first) (c :: (text ++ rest)) = scan (.plain [c] [] false) (text ++ rest) := by
    rw [scan]
    simp only [plainChar, Bool.and_eq_true, Bool.not_eq_true', decide_eq_true_eq] at hc
    simp [hc]
  rw [cons_append, hstep, scan_plain htext]
  rfl

theorem plainElement_of_plain (h : Plain text) : plainElement text false = some text :=
  if_neg fun hnull => h.ne_null hnull.2

theorem scan_intercalate (hne : parts ≠ []) (h : ∀ text ∈ parts, Plain text) :
    scan (.before first) ([','].intercalate parts ++ closeBrace :: rest) = some (parts.map some, rest) := by
  induction parts generalizing first with
  | nil => exact absurd rfl hne
  | cons text parts ih =>
    obtain ⟨htext, hparts⟩ := forall_mem_cons.mp h
    cases parts with
    | nil =>
      rw [intercalate_singleton, scan_before htext, scan, if_neg (by decide), if_pos rfl,
        plainElement_of_plain htext]
      rfl
    | cons text' parts =>
      have hrest : scan (.before false) ([','].intercalate (text' :: parts) ++ closeBrace :: rest) =
          some ((text' :: parts).map some, rest) := ih (cons_ne_nil _ _) hparts
      rw [intercalate_cons_cons, append_assoc, append_assoc, scan_before htext]
      show scan (.plain text [] false) (',' :: ([','].intercalate (text' :: parts) ++ closeBrace :: rest)) = _
      rw [scan, if_pos rfl, hrest, plainElement_of_plain htext]
      rfl

end

variable {elem : List Char → Option α} {render : α → List Char}

theorem mapM_readElement {l : List α} (h : ∀ a ∈ l, elem (render a) = some a) :
    (l.map fun a => some (render a)).mapM (readElement elem) = some (l.map some) := by
  induction l with
  | nil => rfl
  | cons a l ih =>
    obtain ⟨ha, hl⟩ := forall_mem_cons.mp h
    rw [map_cons, mapM_cons, ih hl, readElement, ha]
    rfl

/-- **Plain texts are read back one by one.** -/
theorem arrayIn_literal {l : List α} (hplain : ∀ a ∈ l, Plain (render a))
    (hread : ∀ a ∈ l, elem (render a) = some a) :
    arrayIn elem (literal (l.map render)) = some (l.map some) := by
  have hopen : (literal (l.map render)).dropWhile blank =
      openBrace :: ([','].intercalate (l.map render) ++ [closeBrace]) := rfl
  have hscan : scan (.before true) ([','].intercalate (l.map render) ++ [closeBrace]) =
      some (l.map fun a => some (render a), []) := by
    cases l with
    | nil => rfl
    | cons a l =>
      rw [scan_intercalate (by simp) (forall_mem_map.mpr hplain), map_map]
      rfl
  unfold arrayIn
  rw [hopen]
  dsimp only
  rw [if_pos rfl, hscan]
  dsimp only
  rw [all_nil, if_pos rfl, mapM_readElement hread]

theorem unnest_map (f : γ → Option α) (g : γ → Option β) (l : List γ) :
    unnest (l.map f) (l.map g) = l.map fun x => (f x, g x) := by
  induction l with
  | nil => rfl
  | cons x l ih => rw [map_cons, map_cons, unnest, ih, map_cons]

end
end Text
