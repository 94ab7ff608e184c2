import PureContracts.Error
import PureContracts.Function
import PureContracts.Json.Write

/-!
# Functions and expressions as JSON

The view names the kind of an expression first and its parts in a fixed order.  An absent bound of a
slice is `null`.

* `PureFunction.toJson`, `Expr.toJson` — the view of a function (`PureFunc`) and of an expression
  (`Expr`).
* `definitionsJson` — the definitions of a source as text (`definitions_json`).
-/

namespace PureContracts

namespace Expr

/-- An expression object: its kind, then its parts. -/
def jsonNode (kind : String) (parts : List (String × Json)) : Json :=
  .object (("kind", .string kind) :: parts)

mutual

/-- The JSON view of an expression. -/
def toJson : Expr → Json
  | .literal source => jsonNode "literal" [("src", .string source)]
  | .unary operator operand =>
    jsonNode "unary_op" [("operand", toJson operand), ("op", .string operator)]
  | .binary left operator right =>
    jsonNode "bin_op" [("left", toJson left), ("right", toJson right), ("op", .string operator)]
  | .conditional condition whenTrue whenFalse =>
    jsonNode "conditional" [("cond", toJson condition), ("then", toJson whenTrue),
      ("otherwise", toJson whenFalse)]
  | .sequence elementType elements =>
    jsonNode "seq_literal" [("typ", .string elementType), ("elems", .array (toJsonAll elements))]
  | .slice whole low high =>
    jsonNode "seq_slice" [("seq", toJson whole), ("low", toJsonBound low),
      ("high", toJsonBound high)]
  | .call callee arguments =>
    jsonNode "call" [("callee", toJson callee), ("args", .array (toJsonAll arguments))]

/-- The JSON view of some expressions. -/
def toJsonAll : List Expr → List Json
  | [] => []
  | expr :: rest => toJson expr :: toJsonAll rest

/-- The JSON view of the bound of a slice. -/
def toJsonBound : Option Expr → Json
  | none => .null
  | some bound => toJson bound

end

theorem toJsonAll_eq_map (exprs : List Expr) : toJsonAll exprs = exprs.map toJson := by
  induction exprs with
  | nil => rfl
  | cons expr rest ih => simp [toJsonAll, ih]

end Expr

/-- The JSON view of a parameter. -/
def Param.toJson (param : Param) : Json :=
  .object [("name", .string param.name), ("typ", .string param.type)]

/-- The JSON view of a function. -/
def PureFunction.toJson (function : PureFunction) : Json :=
  .object [("name", .string function.name), ("args", .array (function.params.map Param.toJson)),
    ("ret_typ", .string function.returnType), ("ret", function.result.toJson),
    ("requires", .array (Expr.toJsonAll function.requires)),
    ("preserves", .array (Expr.toJsonAll function.preserves)),
    ("ensures", .array (Expr.toJsonAll function.ensures))]

/-- The definitions of a source as indented JSON text.  The view of a function holds nothing that
has no JSON text, so the error of a failed serialization does not occur. -/
def definitionsJson (functions : List PureFunction) : Except Error String :=
  .ok (Json.indented (.array (functions.map PureFunction.toJson)))

end PureContracts
