import PureContracts.Definition.Compile
import PureContracts.Form.Read

/-!
# Compiling sources

A source is a sequence of forms.  Definitions are compiled in order, everything else is left out,
and the first failure ends the run: there are either the functions of all definitions or none.

* `compileForm` — the functions of one form (`compile_item`).
* `compileForms` — the functions of some forms (`compile`).
* `compileText` — the functions of a source text (`compile_source`).

Principal results
* `result_readText` — reading with events reads the same forms as reading without;
* `result_compileText` — a text is read, and its forms are compiled.
-/

namespace PureContracts

/-- The functions of a form.  Only a definition has any. -/
def compileForm (table : Table) (form : Form) : Trace (List PureFunction) :=
  if form.label = definitionLabel then do
    let outline ← Trace.ofExcept (Outline.ofChildren form.children)
    outline.compile table
  else do
    Trace.emit (.skipped form.label)
    return []

/-- The functions of some forms, in order. -/
def compileForms (table : Table) : List Form → Trace (List PureFunction)
  | [] => pure []
  | form :: rest => do
    let first ← compileForm table form
    let others ← compileForms table rest
    return first ++ others

/-- The forms of a text, with the events of scanning and reading. -/
def readText (text : String) : Trace (List Form) := do
  let tokens := Source.tokens text
  Trace.emit (.scanned tokens.length)
  let forms ← Trace.ofExcept (Form.readTokens nestingLimit tokens)
  Trace.emit (.read forms.length)
  return forms

theorem result_readText (text : String) : (readText text).result = Form.read text := by
  simp only [readText, Form.read, bind, pure, Trace.andThen, Trace.emit, Trace.ofExcept]
  cases Form.readTokens nestingLimit (Source.tokens text) <;> rfl

/-- The functions of a source text. -/
def compileText (table : Table) (text : String) : Trace (List PureFunction) := do
  let forms ← readText text
  compileForms table forms

theorem result_compileText (table : Table) (text : String) :
    (compileText table text).result =
      Form.read text >>= fun forms => (compileForms table forms).result := by
  rw [compileText, Trace.result_bind, result_readText]

end PureContracts
