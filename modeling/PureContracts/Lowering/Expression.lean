import PureContracts.Lowering.Table

/-!
# Lowering forms to expressions

An atom becomes a literal.  A node becomes what the rule of its label makes of its children, and
without a rule an application.  A node that stands inside `nestingLimit` others is refused before
anything else is looked at.

* `lowerAt` — lowers a form that stands inside `depth` nodes (`compile_expression`, with the check
  of `descend`).
* `operandsAt` — the operands of the children of a node (`compile_into`, `compile_all`).
* `lower` — lowers a form that stands on its own.
* `Rule.lower` — a rule used on the children of a form directly (`Handler.lower`).

Principal results
* `operandsAt_eq_map` — the operands are the children, each with its lowering;
* `operandsAt_congr` — children that are lowered alike are the same operands.
-/

namespace PureContracts

/-- How a message names the node with these children. -/
def nodeName (children : List Form) : String :=
  if Form.headWord children = "" then "()" else Form.headWord children

mutual

/-- Lowers a form that stands inside `depth` nodes.  No rule looks a name up: the scope is
passed down to the forms inside. -/
def lowerAt (table : Table) (scope : Scope) (depth : Nat) : Form → Except Error Lowered
  | .atom text => .ok ⟨[], .literal text⟩
  | .node children =>
    if depth < nestingLimit then
      match table.get? (Form.headWord children) with
      | some rule => rule.apply (operandsAt table scope (depth + 1) children)
      | none => application (operandsAt table scope (depth + 1) children)
    else .error (.unsupported (nodeName children) (.tooDeep nestingLimit))

/-- The children of a node as operands. -/
def operandsAt (table : Table) (scope : Scope) (depth : Nat) : List Form → List Operand
  | [] => []
  | form :: rest => ⟨form, lowerAt table scope depth form⟩ :: operandsAt table scope depth rest

end

theorem operandsAt_eq_map (table : Table) (scope : Scope) (depth : Nat) (forms : List Form) :
    operandsAt table scope depth forms =
      forms.map fun form => ⟨form, lowerAt table scope depth form⟩ := by
  induction forms with
  | nil => simp [operandsAt]
  | cons form rest ih => simp [operandsAt, ih]

/-- Children that are lowered alike are the same operands. -/
theorem operandsAt_congr {table other : Table} {scope visible : Scope} {depth : Nat}
    {forms : List Form}
    (h : ∀ form ∈ forms, lowerAt table scope depth form = lowerAt other visible depth form) :
    operandsAt table scope depth forms = operandsAt other visible depth forms := by
  rw [operandsAt_eq_map, operandsAt_eq_map]
  apply List.map_congr_left
  intro form hform
  rw [h form hform]

/-- Lowers a form that stands on its own. -/
def lower (table : Table) (scope : Scope) (form : Form) : Except Error Lowered :=
  lowerAt table scope 0 form

/-- Uses a rule on the children of a form, head included. -/
def Rule.lower (rule : Rule) (table : Table) (scope : Scope) (children : List Form) :
    Except Error Lowered :=
  rule.apply (operandsAt table scope 0 children)

end PureContracts
