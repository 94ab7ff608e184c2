import PureContracts.Definition.Outline
import PureContracts.Lowering.Expression
import PureContracts.Trace

/-!
# Compiling definitions

Every form of a body is lowered, and only the last one is kept: a definition whose earlier forms
cannot be lowered is refused.  The result comes first, then the conditions by kind, and the function
stands behind the auxiliary functions that were found on the way.

* `Outline.discard` — lowers and drops the forms in front of the result.
* `Outline.conditions` — lowers the conditions of one kind (`compile_conditions`).
* `Outline.compile` — the functions of a definition (`compile_define`, once it has its parts).
-/

namespace PureContracts.Outline

/-- Lowers some forms and drops what they become. -/
def discard (table : Table) (scope : Scope) (name : String) : List Form → Trace Unit
  | [] => pure ()
  | form :: rest => do
    let _ ← Trace.ofExcept (lower table scope form)
    Trace.emit (.discarded name form.pretty)
    discard table scope name rest

/-- Lowers the conditions of some clauses with one label.  A clause holds exactly one. -/
def conditions (table : Table) (scope : Scope) (name label : String) :
    List Form → Except Error (List Lowered)
  | [] => .ok []
  | clause :: rest =>
    match clause.children with
    | [_, condition] => do
      let first ← lower table scope condition
      let others ← conditions table scope name label rest
      return first :: others
    | _ => .error (.missing (formName name) (.wellFormedCondition label))

/-- The result and the conditions of a definition, lowered. -/
structure Contract where
  result : Lowered
  requires : List Lowered
  preserves : List Lowered
  ensures : List Lowered

namespace Contract

/-- The auxiliary functions that were found, in the order of the parts. -/
def auxiliary (contract : Contract) : List PureFunction :=
  contract.result.auxiliary ++ contract.requires.flatMap (·.auxiliary) ++
    contract.preserves.flatMap (·.auxiliary) ++ contract.ensures.flatMap (·.auxiliary)

end Contract

/-- Lowers the result and then the conditions. -/
def contract (outline : Outline) (table : Table) (scope : Scope) : Except Error Contract := do
  let result ← lower table scope outline.result
  let requires ← conditions table scope outline.name "requires" outline.requires
  let preserves ← conditions table scope outline.name "preserves" outline.preserves
  let ensures ← conditions table scope outline.name "ensures" outline.ensures
  return { result, requires, preserves, ensures }

/-- The function of a definition. -/
def function (outline : Outline) (contract : Contract) : PureFunction where
  name := outline.name
  params := outline.params
  returnType := outline.returnType
  result := contract.result.expr
  requires := contract.requires.map (·.expr)
  preserves := contract.preserves.map (·.expr)
  ensures := contract.ensures.map (·.expr)

/-- The functions of a definition: the auxiliary ones, then its own. -/
def compile (outline : Outline) (table : Table) : Trace (List PureFunction) := do
  let scope := Scope.ofParams outline.params
  discard table scope outline.name outline.discarded
  let contract ← Trace.ofExcept (outline.contract table scope)
  Trace.emit (.compiled outline.name contract.auxiliary.length)
  return contract.auxiliary ++ [outline.function contract]

end PureContracts.Outline
