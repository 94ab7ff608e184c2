import PureContracts.Error
import PureContracts.Form.Basic
import PureContracts.Source.Scan

/-!
# Reading forms

`readFrom` reads tokens with an explicit stack of open nodes.  The forms of the innermost open node
are kept newest first; a frame holds the place of its opening parenthesis and the forms that stood
in front of it.

* `Form.readTokens` — the forms that a token sequence spells, nested at most `limit` deep
  (`parse_tokens`).
* `Form.read` — the forms of a text, nested at most `nestingLimit` deep (`parse`).
-/

namespace PureContracts.Form

/-- A node that is still open. -/
structure Frame where
  /-- Where it was opened. -/
  opened : Position
  /-- The forms in front of it on its own level, newest first. -/
  before : List Form

/-- Reads on, inside the open nodes `frames` (innermost first), behind the forms `recent` (newest
first) of the innermost level. -/
def readFrom (limit : Nat) (frames : List Frame) (recent : List Form) :
    List Token → Except Error (List Form)
  | [] =>
    match frames with
    | [] => .ok recent.reverse
    | frame :: _ => .error (.unreadable (.unclosed frame.opened))
  | token :: rest =>
    match token.lexeme with
    | .opening =>
      if limit ≤ frames.length then
        .error (.unreadable (.tooDeep limit token.span.start))
      else readFrom limit (⟨token.span.start, recent⟩ :: frames) [] rest
    | .closing =>
      match frames with
      | [] => .error (.unreadable (.strayClosing token.span.start))
      | frame :: outer => readFrom limit outer (.node recent.reverse :: frame.before) rest
    | .word text => readFrom limit frames (.atom text :: recent) rest

/-- The forms that a token sequence spells. -/
def readTokens (limit : Nat) (tokens : List Token) : Except Error (List Form) :=
  readFrom limit [] [] tokens

/-- The forms of a text. -/
def read (text : String) : Except Error (List Form) :=
  readTokens nestingLimit (Source.tokens text)

end PureContracts.Form
