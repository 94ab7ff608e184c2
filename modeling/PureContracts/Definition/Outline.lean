import PureContracts.Error
import PureContracts.Form.Layout
import PureContracts.Function
import PureContracts.Text.Quote

/-!
# Outlines of definitions

A definition names a function and holds a block of clauses and body forms, in any order.  Its
outline sorts them: parameters and return type are read off their first clauses, conditions are
gathered by their label, and every other form belongs to the body, whose last form is the result.

* `Outline.firstLabelled` — the first form with a label (`first_labelled`).
* `Outline.paramsOf` — the parameters that an `args` clause lists (`parse_args`).
* `Outline.ofChildren` — the outline of a definition, or the first part that it lacks (the checks of
  `compile_define`).
-/

namespace PureContracts

/-- The label of a definition. -/
def definitionLabel : String := "define"

/-- The labels of clauses.  Every other form of a block belongs to the body. -/
def clauseLabels : List String := ["args", "returns", "requires", "preserves", "ensures"]

/-- The parts of a definition. -/
structure Outline where
  name : String
  params : List Param
  returnType : String
  /-- The forms of the body in front of the last one. -/
  discarded : List Form
  /-- The last form of the body. -/
  result : Form
  /-- The `requires` clauses. -/
  requires : List Form
  /-- The `preserves` clauses. -/
  preserves : List Form
  /-- The `ensures` clauses. -/
  ensures : List Form

namespace Outline

/-- The name that a definition with these children gives: its second child, or the label of that
child.  Empty when there is none. -/
def functionName : List Form → String
  | _ :: .atom name :: _ => name
  | _ :: signature :: _ => signature.label
  | _ => ""

/-- How messages name the definition of a function. -/
def formName (name : String) : String := definitionLabel ++ " " ++ name

/-- The first form with a label. -/
def firstLabelled (label : String) (forms : List Form) : Option Form :=
  forms.find? fun form => form.label == label

/-- The forms with a label. -/
def allLabelled (label : String) (forms : List Form) : List Form :=
  forms.filter fun form => form.label == label

/-- The forms that are no clauses. -/
def bodyForms (forms : List Form) : List Form :=
  forms.filter fun form => !clauseLabels.contains form.label

/-- A parameter is a node of two words, its name and its type. -/
def param (name : String) (form : Form) : Except Error Param :=
  match form.children with
  | [.atom paramName, .atom type] => .ok ⟨paramName, Text.unquoted type⟩
  | _ => .error (.missing (formName name) (.wellFormedParameter form.pretty))

/-- Some parameters, or the first malformed one. -/
def paramsOf (name : String) : List Form → Except Error (List Param)
  | [] => .ok []
  | form :: rest => do
    let first ← param name form
    let others ← paramsOf name rest
    return first :: others

/-- The parameters of the first `args` clause. -/
def params? (name : String) (clauses : List Form) : Except Error (List Param) :=
  match firstLabelled "args" clauses with
  | none => .error (.missing (formName name) .parameters)
  | some clause => paramsOf name clause.children.tail

/-- The type of the first `returns` clause. -/
def returnType? (name : String) (clauses : List Form) : Except Error String :=
  match firstLabelled "returns" clauses with
  | none => .error (.missing (formName name) .returnType)
  | some clause =>
    match clause.children with
    | [_, .atom type] => .ok (Text.unquoted type)
    | _ => .error (.missing (formName name) .wellFormedReturnType)

/-- The outline of a function from the forms of its block. -/
def ofClauses (name : String) (clauses : List Form) : Except Error Outline := do
  let params ← params? name clauses
  let returnType ← returnType? name clauses
  match (bodyForms clauses).getLast? with
  | none => .error (.missing (formName name) .body)
  | some result =>
    return { name, params, returnType, result,
             discarded := (bodyForms clauses).dropLast,
             requires := allLabelled "requires" clauses,
             preserves := allLabelled "preserves" clauses,
             ensures := allLabelled "ensures" clauses }

/-- The outline of a definition from its children, or the first part that it lacks. -/
def ofChildren (children : List Form) : Except Error Outline :=
  if functionName children = "" then .error (.missing definitionLabel .functionName)
  else
    match firstLabelled "begin" children with
    | none => .error (.missing (formName (functionName children)) .block)
    | some block => ofClauses (functionName children) block.children.tail

end Outline

end PureContracts
