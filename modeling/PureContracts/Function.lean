import PureContracts.Expr.Render

/-!
# Pure functions with contracts

A `PureFunction` is what a definition compiles to.  Its text is a list of lines: the conditions, one
a line, the termination measure, and the function on a line of its own.

* `Param` — a parameter (`Arg`).
* `PureFunction` — a function (`PureFunc`).
* `PureFunction.chars` — its characters, as `PureFunc` displays it.
-/

namespace PureContracts

/-- A declared parameter. -/
structure Param where
  name : String
  type : String
  deriving DecidableEq, Inhabited

/-- The characters of a parameter declaration. -/
def Param.chars (param : Param) : List Char := param.name.toList ++ ' ' :: param.type.toList

/-- A pure function with its contract. -/
structure PureFunction where
  name : String
  params : List Param
  returnType : String
  /-- The expression that the function returns. -/
  result : Expr
  /-- What callers have to establish. -/
  requires : List Expr
  /-- What holds before and after. -/
  preserves : List Expr
  /-- What callers may rely on. -/
  ensures : List Expr
  deriving Inhabited

namespace PureFunction

/-- The line of a condition. -/
def conditionLine (keyword : String) (condition : Expr) : List Char :=
  keyword.toList ++ ' ' :: condition.chars

/-- The line with the function itself. -/
def bodyLine (function : PureFunction) : List Char :=
  "pure func ".toList ++ function.name.toList ++ ['('] ++
    List.intercalate Expr.comma (function.params.map Param.chars) ++ [')', ' '] ++
    function.returnType.toList ++ " \x7b return ".toList ++ function.result.chars ++ " \x7d".toList

/-- The lines of a function. -/
def lines (function : PureFunction) : List (List Char) :=
  function.requires.map (conditionLine "requires") ++
    function.preserves.map (conditionLine "preserves") ++
    function.ensures.map (conditionLine "ensures") ++
    ["decreases _".toList, function.bodyLine]

/-- The characters of a function, without a line feed at the end. -/
def chars (function : PureFunction) : List Char := List.intercalate ['\n'] function.lines

/-- The text of a function. -/
def render (function : PureFunction) : String := String.ofList function.chars

end PureFunction

end PureContracts
