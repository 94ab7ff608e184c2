import PureContracts.Expr.Basic

/-!
# The text of expressions

Every compound expression but a sequence and a call stands in parentheses, so that no rule of
precedence is needed to read it back.

* `Expr.chars` — the characters of an expression, as `Expr` displays it; its lists are those of
  `write_list`.
* `Expr.render` — the same as a `String`.

Principal result: `charsAll_eq_map` — lists of expressions are rendered item by item.
-/

namespace PureContracts.Expr

/-- What stands between the items of a list. -/
def comma : List Char := [',', ' ']

mutual

/-- The characters of an expression. -/
def chars : Expr → List Char
  | .literal source => source.toList
  | .unary operator operand => '(' :: (operator.toList ++ ' ' :: (chars operand ++ [')']))
  | .binary left operator right =>
    '(' :: (chars left ++ ' ' :: (operator.toList ++ ' ' :: (chars right ++ [')'])))
  | .conditional condition whenTrue whenFalse =>
    '(' :: (chars condition ++ [' ', '?', ' '] ++ chars whenTrue ++ [' ', ':', ' '] ++
      chars whenFalse ++ [')'])
  | .sequence elementType elements =>
    ['s', 'e', 'q', '['] ++ elementType.toList ++ [']', '\x7b'] ++
      List.intercalate comma (charsAll elements) ++ ['\x7d']
  | .slice whole low high =>
    '(' :: (chars whole ++ ['['] ++ charsBound low ++ [':'] ++ charsBound high ++ [']', ')'])
  | .call callee arguments =>
    chars callee ++ ['('] ++ List.intercalate comma (charsAll arguments) ++ [')']

/-- The characters of some expressions. -/
def charsAll : List Expr → List (List Char)
  | [] => []
  | expr :: rest => chars expr :: charsAll rest

/-- The characters of the bound of a slice; an absent bound has none. -/
def charsBound : Option Expr → List Char
  | none => []
  | some bound => chars bound

end

theorem charsAll_eq_map (exprs : List Expr) : charsAll exprs = exprs.map chars := by
  induction exprs with
  | nil => rfl
  | cons expr rest ih => simp [charsAll, ih]

/-- The text of an expression. -/
def render (expr : Expr) : String := String.ofList expr.chars

end PureContracts.Expr
