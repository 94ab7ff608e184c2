import PureContracts.Form.Basic

/-!
# Laying out forms

A node is written on one line when its children are short enough, and with one child a line
otherwise.  The decision is made from the inside out: a `Block` is a finished text that remembers
whether it was broken, and a node breaks when one of its children did or when the children together
are `breakWidth` characters wide.

* `Form.layout` — the block of a form at an indentation (`pretty_at`).
* `Form.pretty` — the text of a form on its own (`pretty`).
* `Form.prettyAll`, `Form.prettyListing` — the text of several forms, as `pfunc_parse_tree` and
  `cmd_tree` put them together.
-/

namespace PureContracts

/-- The width of the children, with a blank between neighbours, from which on a node is broken
(`WRAP_WIDTH`). -/
def breakWidth : Nat := 30

/-- A finished piece of layout. -/
structure Block where
  text : List Char
  broken : Bool

namespace Block

/-- The width of some blocks in a row, with a blank between neighbours. -/
def width (blocks : List Block) : Nat :=
  (blocks.length - 1) + (blocks.map (·.text)).flatten.length

/-- Whether a node with these children is broken over several lines. -/
def breaks (blocks : List Block) : Bool :=
  blocks.any (·.broken) || decide (breakWidth ≤ width blocks)

/-- What stands between the children of a node at the given indentation. -/
def separator (indent : Nat) (broken : Bool) : List Char :=
  if broken then '\n' :: List.replicate (2 * indent) ' ' else [' ']

/-- The block of a node from the blocks of its children. -/
def enclose (indent : Nat) (blocks : List Block) : Block :=
  let broken := breaks blocks
  ⟨'(' :: (List.intercalate (separator indent broken) (blocks.map (·.text)) ++ [')']), broken⟩

end Block

namespace Form

mutual

/-- The block of a form whose children are indented by `indent` steps of two blanks. -/
def layout (indent : Nat) : Form → Block
  | .atom text => ⟨text.toList, false⟩
  | .node children => Block.enclose indent (layoutAll (indent + 1) children)

/-- The blocks of some forms. -/
def layoutAll (indent : Nat) : List Form → List Block
  | [] => []
  | form :: rest => layout indent form :: layoutAll indent rest

end

theorem layoutAll_eq_map (indent : Nat) (forms : List Form) :
    layoutAll indent forms = forms.map (layout indent) := by
  induction forms with
  | nil => rfl
  | cons form rest ih => simp [layoutAll, ih]

/-- The text of a form, broken over several lines where it is wide. -/
def pretty (form : Form) : String := String.ofList (layout 1 form).text

/-- Some forms with a blank line between neighbours. -/
def prettyAll (forms : List Form) : String :=
  String.ofList (List.intercalate ['\n', '\n'] (forms.map fun form => form.pretty.toList))

/-- Some forms with a blank line behind each. -/
def prettyListing (forms : List Form) : String :=
  String.ofList (forms.flatMap fun form => form.pretty.toList ++ ['\n', '\n'])

end Form

end PureContracts
