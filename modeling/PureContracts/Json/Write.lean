import PureContracts.Json.Basic

/-!
# JSON text

One writer serves both spellings of a value.  A `Style` says what stands at the places where a line
may be broken and behind a key: nothing in `Style.compact`, a line feed with two blanks a level in
`Style.indented`.

* `Json.escaped` — a character inside a string.
* `Json.write` — the characters of a value at a level.
* `Json.compact`, `Json.indented` — the text of a value; `definitions_json` and `cmd_check` use the
  indented one.
-/

namespace PureContracts.Json

/-- What stands between the tokens of a JSON text. -/
structure Style where
  /-- What stands where a line may be broken, at a level of nesting. -/
  lineBreak : Nat → List Char
  /-- What stands between a key and its value. -/
  colon : List Char

/-- No blanks at all. -/
def Style.compact : Style := ⟨fun _ => [], [':']⟩

/-- One item a line, indented by two blanks a level. -/
def Style.indented : Style := ⟨fun level => '\n' :: List.replicate (2 * level) ' ', [':', ' ']⟩

/-- A character inside a string.  Quotes, backslashes and control characters are escaped, the
common ones by a letter and the others by their code; all else is written as it is. -/
def escaped (c : Char) : List Char :=
  if c = '"' then ['\\', '"']
  else if c = '\\' then ['\\', '\\']
  else if c = '\x08' then ['\\', 'b']
  else if c = '\x0c' then ['\\', 'f']
  else if c = '\n' then ['\\', 'n']
  else if c = '\r' then ['\\', 'r']
  else if c = '\t' then ['\\', 't']
  else if c.toNat < 32 then
    ['\\', 'u', '0', '0', Nat.digitChar (c.toNat / 16), Nat.digitChar (c.toNat % 16)]
  else [c]

/-- A string in quotes. -/
def quoted (text : String) : List Char := '"' :: (text.toList.flatMap escaped ++ ['"'])

/-- Pieces in brackets, each at a line break; brackets around nothing stay together. -/
def bracketed (style : Style) (level : Nat) (opening closing : Char) :
    List (List Char) → List Char
  | [] => [opening, closing]
  | pieces =>
    opening :: (style.lineBreak (level + 1) ++
      List.intercalate (',' :: style.lineBreak (level + 1)) pieces ++
      style.lineBreak level ++ [closing])

mutual

/-- The characters of a value at a level of nesting. -/
def write (style : Style) (level : Nat) : Json → List Char
  | .null => "null".toList
  | .bool true => "true".toList
  | .bool false => "false".toList
  | .string text => quoted text
  | .array items => bracketed style level '[' ']' (writeItems style (level + 1) items)
  | .object fields => bracketed style level '\x7b' '\x7d' (writeFields style (level + 1) fields)
termination_by structural value => value

/-- The items of an array. -/
def writeItems (style : Style) (level : Nat) : List Json → List (List Char)
  | [] => []
  | item :: rest => write style level item :: writeItems style level rest
termination_by structural items => items

/-- The fields of an object. -/
def writeFields (style : Style) (level : Nat) : List (String × Json) → List (List Char)
  | [] => []
  | field :: rest => writeField style level field :: writeFields style level rest
termination_by structural fields => fields

/-- A key with its value. -/
def writeField (style : Style) (level : Nat) : String × Json → List Char
  | (key, value) => quoted key ++ style.colon ++ write style level value
termination_by structural field => field

end

/-- The text of a value without blanks. -/
def compact (value : Json) : String := String.ofList (write .compact 0 value)

/-- The text of a value with one item a line. -/
def indented (value : Json) : String := String.ofList (write .indented 0 value)

end PureContracts.Json
