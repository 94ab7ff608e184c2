import PureContracts.Bindings
import PureContracts.Lowering.Rule

/-!
# Tables of lowering rules

A table binds labels to rules (`Registry`), and a scope binds the parameters of a function to their
types (`Context`).

* `Table.standard` — the rules of the source language (`Registry.standard`).  Everything that it
  does not bind is an application.
* `Scope.ofParams` — the scope of a parameter list (`Context.from_args`).
-/

namespace PureContracts

/-- The rules in force, by label. -/
abbrev Table := Bindings String Rule

/-- The types of the names in force. -/
abbrev Scope := Bindings String String

/-- The operators that keep their symbol. -/
def plainOperators : List String := ["+", "-", "*", "/", "++", ">=", ">", "<", "<=", "&&", "||"]

/-- The rules of the source language. -/
def Table.standard : Table :=
  Bindings.ofList (plainOperators.map (fun operator => (operator, Rule.binary operator)) ++
    [("=", .binary "=="), ("=seq", .binary "=="), ("if", .conditional), ("seq", .sequence),
      ("slice", .slice), ("null?", .isEmpty),
      ("letrec", .refused "local recursive bindings are not implemented"),
      ("cond", .refused "multi-way conditionals are not implemented")])

/-- The scope of a parameter list; of two parameters with one name the later counts. -/
def Scope.ofParams (params : List Param) : Scope :=
  Bindings.ofList (params.map fun param => (param.name, param.type))

end PureContracts
