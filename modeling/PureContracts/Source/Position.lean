/-!
# Positions in a source text

A `Position` names a place between two characters: its line and column, both counted from one,
and the number of characters before it.  All three count code points.  Models the counters of
`Tokenizer`:

* `Position.step` — the position after one more character (`advance`); only a line feed starts a
  line.
* `Position.after` — the position after a whole stretch of text.

Principal results
* `after_append` — stretches may be walked one after the other;
* `offset_after` — the offset grows by the length of the stretch.
-/

namespace PureContracts

/-- A place in a source text. -/
structure Position where
  /-- Line, counted from one. -/
  line : Nat
  /-- Column, counted from one. -/
  column : Nat
  /-- Number of characters before the place. -/
  offset : Nat
  deriving DecidableEq, Inhabited

namespace Position

/-- The place before the first character. -/
def start : Position := ⟨1, 1, 0⟩

/-- The place after one more character. -/
def step (p : Position) (c : Char) : Position :=
  if c = '\n' then ⟨p.line + 1, 1, p.offset + 1⟩ else ⟨p.line, p.column + 1, p.offset + 1⟩

/-- The place after a stretch of text. -/
def after (p : Position) (stretch : List Char) : Position := stretch.foldl step p

@[simp] theorem after_nil (p : Position) : p.after [] = p := rfl

@[simp] theorem after_cons (p : Position) (c : Char) (stretch : List Char) :
    p.after (c :: stretch) = (p.step c).after stretch := rfl

theorem after_append (p : Position) (first second : List Char) :
    p.after (first ++ second) = (p.after first).after second := by
  simp [after, List.foldl_append]

@[simp] theorem offset_step (p : Position) (c : Char) : (p.step c).offset = p.offset + 1 := by
  unfold step; split <;> rfl

theorem offset_after (p : Position) (stretch : List Char) :
    (p.after stretch).offset = p.offset + stretch.length := by
  induction stretch generalizing p with
  | nil => rfl
  | cons c stretch ih => simp [ih]; omega

/-- Line and column, as messages and listings show a place. -/
def render (p : Position) : String := p.line.repr ++ ":" ++ p.column.repr

end Position

end PureContracts
