import PureContracts.Source.Token

/-!
# Scanning a source text into tokens

Between tokens stands layout: blanks, and comments that run from a semicolon up to the end of the
line.  Every other character is a parenthesis or belongs to a word, and a word runs as far as it
can, so scanning never fails.  Models `Tokenizer`:

* `splitLayout` — the layout in front of a text, and what follows it
  (`skip_whitespace_and_comments`).
* `Cursor.next?` — the next token and the cursor behind it (`next_token`, `read_identifier`).
* `Cursor.scan` — all tokens from a cursor on, and the cursor behind the last layout (`tokenize`).
* `tokens` — the tokens of a text.

Principal results
* `splitLayout_append` — layout and remainder make up the text;
* `Cursor.next?_rest_length` — a token takes at least one character;
* `Cursor.scan_rest` — scanning uses the text up.
-/

namespace PureContracts.Source

/-- The characters that separate tokens (`is_space`). -/
def isBlank (c : Char) : Bool := c == ' ' || c == '\t' || c == '\r' || c == '\n'

/-- The characters that end a word (`is_delimiter`). -/
def isDelimiter (c : Char) : Bool := isBlank c || c == '(' || c == ')' || c == ';'

/-- The characters that words are made of. -/
def isWordChar (c : Char) : Bool := !isDelimiter c

/-- The longest layout in front of a text, and the rest.  With `comment` set, the text starts
inside a comment. -/
def splitLayout (comment : Bool) : List Char → List Char × List Char
  | [] => ([], [])
  | c :: cs =>
    if comment || isBlank c || c == ';' then
      let split := splitLayout ((comment || c == ';') && c != '\n') cs
      (c :: split.1, split.2)
    else ([], c :: cs)

theorem splitLayout_append (comment : Bool) (cs : List Char) :
    (splitLayout comment cs).1 ++ (splitLayout comment cs).2 = cs := by
  induction cs generalizing comment with
  | nil => rfl
  | cons c cs ih =>
    rw [splitLayout]
    split
    · simp [ih]
    · rfl

theorem splitLayout_rest_length (comment : Bool) (cs : List Char) :
    (splitLayout comment cs).2.length ≤ cs.length := by
  have h := congrArg List.length (splitLayout_append comment cs)
  simp only [List.length_append] at h
  omega

/-- A place in a text together with the characters that follow it. -/
structure Cursor where
  position : Position
  rest : List Char
  deriving DecidableEq, Inhabited

namespace Cursor

/-- The cursor in front of a text. -/
def ofText (text : String) : Cursor := ⟨.start, text.toList⟩

/-- Moves over the layout in front of the cursor. -/
def skipLayout (c : Cursor) : Cursor :=
  let split := splitLayout false c.rest
  ⟨c.position.after split.1, split.2⟩

/-- The token that covers `covered` (`span_from`), with the cursor behind it. -/
def cover (c : Cursor) (lexeme : Lexeme) (covered rest : List Char) : Token × Cursor :=
  let stop := c.position.after covered
  (⟨lexeme, ⟨c.position, stop.line, stop.column⟩⟩, ⟨stop, rest⟩)

/-- The next token, unless only layout is left. -/
def next? (c : Cursor) : Option (Token × Cursor) :=
  match c.skipLayout.rest with
  | [] => none
  | '(' :: rest => some (c.skipLayout.cover .opening ['('] rest)
  | ')' :: rest => some (c.skipLayout.cover .closing [')'] rest)
  | first :: rest =>
    let word := first :: rest.takeWhile isWordChar
    some (c.skipLayout.cover (.word (String.ofList word)) word (rest.dropWhile isWordChar))

theorem skipLayout_rest_length (c : Cursor) : c.skipLayout.rest.length ≤ c.rest.length :=
  splitLayout_rest_length false c.rest

/-- A token takes at least one character. -/
theorem next?_rest_length {c after : Cursor} {t : Token} (h : c.next? = some (t, after)) :
    after.rest.length < c.rest.length := by
  have hskip := c.skipLayout_rest_length
  unfold next? at h
  split at h
  · cases h
  · next hrest => cases h; rw [hrest] at hskip; exact hskip
  · next hrest => cases h; rw [hrest] at hskip; exact hskip
  · next first rest _ _ hrest =>
    cases h
    rw [hrest] at hskip
    have hdrop := (List.dropWhile_suffix isWordChar (l := rest)).length_le
    simp only [List.length_cons] at hskip
    exact Nat.lt_of_le_of_lt hdrop (Nat.lt_of_succ_le hskip)

/-- All tokens from the cursor on, and the cursor behind the layout that follows them. -/
def scan (c : Cursor) : List Token × Cursor :=
  match _h : c.next? with
  | none => ([], c.skipLayout)
  | some (t, after) =>
    let remaining := scan after
    (t :: remaining.1, remaining.2)
termination_by c.rest.length
decreasing_by exact next?_rest_length _h

theorem skipLayout_rest_of_next? {c : Cursor} (h : c.next? = none) : c.skipLayout.rest = [] := by
  unfold next? at h
  split at h
  · next hrest => exact hrest
  all_goals cases h

/-- Scanning uses the text up. -/
theorem scan_rest (c : Cursor) : c.scan.2.rest = [] := by
  fun_induction scan c with
  | case1 c h => exact skipLayout_rest_of_next? h
  | case2 c t after h remaining ih => exact ih

end Cursor

/-- The tokens of a text. -/
def tokens (text : String) : List Token := (Cursor.ofText text).scan.1

end PureContracts.Source
