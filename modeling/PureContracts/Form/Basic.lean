import PureContracts.Source.Token

/-!
# Forms

A form is a word, or a parenthesised sequence of forms.  What a node means is decided later, by its
label: the text of its first child, when that child is a word.  Models `SExpr`:

* `Form.label`, `Form.children`, `Form.word?` — what the passes look at (`label`, `children`,
  `as_atom`).
* `Form.depth` — how many nodes stand inside each other.
* `Form.lexemes` — the lexemes that spell a form.

Principal result: `Form.induction` — what holds of a node as soon as it holds of its children holds
of every form.
-/

namespace PureContracts

/-- A word, or a sequence of forms in parentheses. -/
inductive Form where
  | atom (text : String)
  | node (children : List Form)
  deriving Inhabited

namespace Form

/-- What holds of atoms, and of a node as soon as it holds of its children, holds of every form. -/
@[elab_as_elim, induction_eliminator]
theorem induction {motive : Form → Prop} (atom : ∀ text, motive (.atom text))
    (node : ∀ children, (∀ child ∈ children, motive child) → motive (.node children)) :
    ∀ form, motive form
  | .atom text => atom text
  | .node children => node children fun child _ => induction atom node child

/-- The text of an atom. -/
def word? : Form → Option String
  | .atom text => some text
  | .node _ => none

/-- The children of a node; an atom has none. -/
def children : Form → List Form
  | .atom _ => []
  | .node children => children

/-- The text of the first form, when that is an atom; empty otherwise. -/
def headWord : List Form → String
  | .atom text :: _ => text
  | _ => ""

/-- Only a word in front of the others gives forms a head word. -/
theorem exists_of_headWord_ne {forms : List Form} (h : headWord forms ≠ "") :
    ∃ rest, forms = .atom (headWord forms) :: rest := by
  rcases forms with _ | ⟨word | inner, rest⟩
  · exact absurd rfl h
  · exact ⟨rest, rfl⟩
  · exact absurd rfl h

/-- The label of a node is the text of its first child, when that is an atom.  Every other form
has the empty label. -/
def label (form : Form) : String := headWord form.children

@[simp] theorem label_atom (text : String) : (Form.atom text).label = "" := rfl

@[simp] theorem label_node (children : List Form) :
    (Form.node children).label = headWord children := rfl

mutual

/-- How many nodes stand inside each other. -/
def depth : Form → Nat
  | .atom _ => 0
  | .node children => depthAll children + 1

/-- The greatest depth among some forms. -/
def depthAll : List Form → Nat
  | [] => 0
  | form :: rest => max form.depth (depthAll rest)

end

mutual

/-- The lexemes that spell a form. -/
def lexemes : Form → List Lexeme
  | .atom text => [.word text]
  | .node children => .opening :: (lexemesAll children ++ [.closing])

/-- The lexemes that spell some forms one after the other. -/
def lexemesAll : List Form → List Lexeme
  | [] => []
  | form :: rest => form.lexemes ++ lexemesAll rest

end

theorem lexemesAll_append (first second : List Form) :
    lexemesAll (first ++ second) = lexemesAll first ++ lexemesAll second := by
  induction first with
  | nil => rfl
  | cons form rest ih => simp [lexemesAll, ih]

end Form

end PureContracts
