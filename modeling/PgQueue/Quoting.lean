import PgQueue.Text.Quoted
import PgQueue.Types

/-!
# Names in statements

`LISTEN`, `UNLISTEN` and `DROP INDEX` take no parameters, so the names are part of their text, between
double quotes.  A name is any bytes; the text of a statement ends at its first NUL.

* `quoteListenIdent`, `quoteIdent`   a name between double quotes;
* `lexIdent`                the lexer of PostgreSQL, at a double quote;
* `quoted_name_read_back`   **it reads the name back and nothing of what follows, so two names are never
                            quoted alike;**
* `readListen`, `readUnlisten`, `readDropIndex`   the statements as the server reads them;
* `statements_read_back`    **so each statement names what it was made for, and is the whole text.**

The database refuses an empty name and cuts one of more than 63 bytes, after the lexer has read it.
-/

namespace PgQueue

def nul : UInt8 := .ofNat 0
def doubleQuote : UInt8 := 0x22

theorem doubleQuote_ne_nul : doubleQuote ≠ nul := by decide

/-! ## one name -/

def quoteListenIdent (ch : Bytes) : Bytes := Text.quote doubleQuote ch

def quoteIdent (s : Bytes) : Bytes := Text.quote doubleQuote s

/-- the identifier at the head of a text, and what is left of the text -/
def lexIdent (text : Bytes) : Option (Bytes × Bytes) := Text.lexQuoted doubleQuote nul text

/-- **A quoted name is read back.**  The name has no NUL and the text that follows does not begin with a
double quote.  The lexer reads exactly the name from what `quoteListenIdent` and `quoteIdent` made of it,
and leaves exactly what follows.  So no other name is quoted like this one. -/
theorem quoted_name_read_back (name rest : Bytes) (hname : nul ∉ name)
    (hrest : rest.head? ≠ some doubleQuote) :
    lexIdent (quoteListenIdent name ++ rest) = some (name, rest) ∧
    lexIdent (quoteIdent name ++ rest) = some (name, rest) ∧
    ∀ name', nul ∉ name' → name' ≠ name →
      quoteListenIdent name' ≠ quoteListenIdent name ∧ quoteIdent name' ≠ quoteIdent name := by
  have hread : lexIdent (Text.quote doubleQuote name ++ rest) = some (name, rest) :=
    Text.lexQuoted_quote doubleQuote_ne_nul hname hrest
  have hinj : ∀ name', nul ∉ name' → Text.quote doubleQuote name' = Text.quote doubleQuote name →
      name' = name := fun name' h he => Text.quote_inj doubleQuote_ne_nul h hname he
  exact ⟨hread, hread, fun name' h hne => ⟨fun he => hne (hinj name' h he), fun he => hne (hinj name' h he)⟩⟩

/-- a name that closes its quotes and goes on with a statement, and a name of two quotes -/
theorem quoted_name_read_back_closing :
    -- "; x
    lexIdent (quoteListenIdent [0x22, 0x3b, 0x20, 0x78] ++ [0x3b]) = some ([0x22, 0x3b, 0x20, 0x78], [0x3b]) ∧
    lexIdent (quoteIdent [0x22, 0x22] ++ [0x2e]) = some ([0x22, 0x22], [0x2e]) :=
  ⟨(quoted_name_read_back [0x22, 0x3b, 0x20, 0x78] [0x3b] (by decide) (by decide)).1,
    (quoted_name_read_back [0x22, 0x22] [0x2e] (by decide) (by decide)).2.1⟩

/-! ## statements -/

def utf8 (s : String) : Bytes := s.toUTF8.data.toList

/-- the statements of `drainPending` -/
def listenStatement (ch : Bytes) : Bytes := utf8 "LISTEN " ++ quoteListenIdent ch

def unlistenStatement (ch : Bytes) : Bytes := utf8 "UNLISTEN " ++ quoteListenIdent ch

/-- the first statement of `recreateIndex` -/
def dropIndexStatement (schema name : Bytes) : Bytes :=
  utf8 "DROP INDEX IF EXISTS " ++ quoteIdent schema ++ utf8 "." ++ quoteIdent name

def readName (keyword text : Bytes) : Option Bytes := do
  let text ← keyword.isPrefixOf? text
  let (name, text) ← lexIdent text
  if text = [] then some name else none

def readListen (text : Bytes) : Option Bytes := readName (utf8 "LISTEN ") text

def readUnlisten (text : Bytes) : Option Bytes := readName (utf8 "UNLISTEN ") text

def readDropIndex (text : Bytes) : Option (Bytes × Bytes) := do
  let text ← (utf8 "DROP INDEX IF EXISTS ").isPrefixOf? text
  let (schema, text) ← lexIdent text
  let text ← (utf8 ".").isPrefixOf? text
  let (name, text) ← lexIdent text
  if text = [] then some (schema, name) else none

section
variable {name schema : Bytes}

theorem isPrefixOf?_append (pre text : Bytes) : pre.isPrefixOf? (pre ++ text) = some text :=
  List.isPrefixOf?_eq_some_iff_append_eq.mpr rfl

theorem lexIdent_quote (hname : nul ∉ name) : lexIdent (Text.quote doubleQuote name) = some (name, []) := by
  have hread : lexIdent (Text.quote doubleQuote name ++ []) = some (name, []) :=
    Text.lexQuoted_quote doubleQuote_ne_nul hname (by simp)
  rwa [List.append_nil] at hread

theorem readName_quote (keyword : Bytes) (hname : nul ∉ name) :
    readName keyword (keyword ++ Text.quote doubleQuote name) = some name := by
  unfold readName
  simp only [isPrefixOf?_append, lexIdent_quote hname, Option.bind_eq_bind, Option.bind_some, if_true]

theorem readDropIndex_dropIndexStatement (hschema : nul ∉ schema) (hname : nul ∉ name) :
    readDropIndex (dropIndexStatement schema name) = some (schema, name) := by
  -- the dot ends the name of the schema
  have hdot : (utf8 "." ++ quoteIdent name).head? ≠ some doubleQuote := by
    show some (0x2e : UInt8) ≠ some doubleQuote
    decide
  have hread : lexIdent (quoteIdent schema ++ (utf8 "." ++ quoteIdent name)) =
      some (schema, utf8 "." ++ quoteIdent name) :=
    Text.lexQuoted_quote doubleQuote_ne_nul hschema hdot
  have hlast : lexIdent (quoteIdent name) = some (name, []) := lexIdent_quote hname
  unfold readDropIndex dropIndexStatement
  simp only [List.append_assoc, isPrefixOf?_append, hread, hlast, Option.bind_eq_bind, Option.bind_some,
    if_true]

end

/-- **A statement names what it was made for**, and there is nothing else in its text. -/
theorem statements_read_back {name schema : Bytes} (hschema : nul ∉ schema) (hname : nul ∉ name) :
    readListen (listenStatement name) = some name ∧ readUnlisten (unlistenStatement name) = some name ∧
      readDropIndex (dropIndexStatement schema name) = some (schema, name) :=
  ⟨readName_quote _ hname, readName_quote _ hname, readDropIndex_dropIndexStatement hschema hname⟩

end PgQueue
