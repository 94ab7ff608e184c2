import PureContracts.Source.Position

/-!
# Tokens

A source text is made of three kinds of lexeme: an opening parenthesis, a closing parenthesis and
a word.  Numbers and quoted strings are words; the scanner gives them no meaning.

* `Lexeme` — the kind of a token (`Token`), and its `text`.
* `Span` — the stretch of source that a token covers.
* `Token` — a lexeme with its span (`SpannedToken`).
-/

namespace PureContracts

/-- What a token is. -/
inductive Lexeme where
  | opening
  | closing
  | word (text : String)
  deriving DecidableEq, Inhabited

/-- The source text of a lexeme. -/
def Lexeme.text : Lexeme → String
  | .opening => "("
  | .closing => ")"
  | .word text => text

/-- The stretch of source that a token covers.  The end is the place after its last character. -/
structure Span where
  start : Position
  endLine : Nat
  endColumn : Nat
  deriving DecidableEq, Inhabited

/-- A lexeme at its place. -/
structure Token where
  lexeme : Lexeme
  span : Span
  deriving DecidableEq, Inhabited

/-- One line of a token listing: start, end and text. -/
def Token.render (t : Token) : String :=
  t.span.start.render ++ "-" ++ t.span.endLine.repr ++ ":" ++ t.span.endColumn.repr ++ " " ++
    t.lexeme.text

end PureContracts
