import PureContracts.Error
import PureContracts.Form.Basic
import PureContracts.Function
import PureContracts.Text.Quote

/-!
# Lowering rules

A rule says what a form with its label becomes.  It is given the children of the form, head
included, each with what that child itself is lowered to: an `Operand`.  Operands are used from left
to right, so the leftmost failure is the one reported.

* `Rule.apply` — the result of a rule (`Handler.lower`).
* `application` — the result for a form without a rule: its head is called (the last case
  of `compile_expression`).
-/

namespace PureContracts

/-- An expression, and the auxiliary functions found on the way to it. -/
structure Lowered where
  auxiliary : List PureFunction
  expr : Expr

/-- A child of a form together with what it is lowered to. -/
structure Operand where
  form : Form
  value : Except Error Lowered

namespace Operand

/-- The label of the form that has these operands. -/
def label (operands : List Operand) : String := Form.headWord (operands.map (·.form))

/-- What the operands are lowered to, or the leftmost failure. -/
def values : List Operand → Except Error (List Lowered)
  | [] => .ok []
  | operand :: rest => do
    let value ← operand.value
    let others ← values rest
    return value :: others

end Operand

/-- What a form of some label becomes. -/
inductive Rule where
  /-- `(label a b)` becomes `(a operator b)`. -/
  | binary (operator : String)
  /-- `(label c t e)` becomes `(c ? t : e)`. -/
  | conditional
  /-- `(label "T" e …)` becomes a sequence of element type `T`. -/
  | sequence
  /-- `(label s low high)` becomes `(s[low:high])`. -/
  | slice
  /-- `(label s)` becomes `(len(s) == 0)`. -/
  | isEmpty
  /-- The form is recognised and always refused. -/
  | refused (reason : String)
  deriving DecidableEq, Inhabited

/-- The result of a rule for the form that has these operands. -/
def Rule.apply (rule : Rule) (operands : List Operand) : Except Error Lowered :=
  match rule, operands with
  | .binary operator, [_, left, right] => do
    let left ← left.value
    let right ← right.value
    return ⟨left.auxiliary ++ right.auxiliary, .binary left.expr operator right.expr⟩
  | .binary _, _ => refuse (.childCount 3 operands.length)
  | .conditional, [_, condition, whenTrue, whenFalse] => do
    let condition ← condition.value
    let whenTrue ← whenTrue.value
    let whenFalse ← whenFalse.value
    return ⟨condition.auxiliary ++ whenTrue.auxiliary ++ whenFalse.auxiliary,
      .conditional condition.expr whenTrue.expr whenFalse.expr⟩
  | .conditional, _ => refuse (.childCount 4 operands.length)
  | .sequence, _ :: elementType :: elements =>
    match elementType.form.word? with
    | none => refuse .elementType
    | some word => do
      let elements ← Operand.values elements
      return ⟨elements.flatMap (·.auxiliary),
        .sequence (Text.unquoted word) (elements.map (·.expr))⟩
  | .sequence, _ => refuse (.tooFewChildren 2 operands.length)
  | .slice, [_, whole, low, high] => do
    let whole ← whole.value
    let low ← low.value
    let high ← high.value
    return ⟨whole.auxiliary ++ low.auxiliary ++ high.auxiliary,
      .slice whole.expr (some low.expr) (some high.expr)⟩
  | .slice, _ => refuse (.childCount 4 operands.length)
  | .isEmpty, [_, whole] => do
    let whole ← whole.value
    return ⟨whole.auxiliary, whole.expr.isEmpty⟩
  | .isEmpty, _ => refuse (.childCount 2 operands.length)
  | .refused reason, _ => refuse (.stated reason)
where
  /-- The form is refused under its own label. -/
  refuse (refusal : Refusal) : Except Error Lowered :=
    .error (.unsupported (Operand.label operands) refusal)

/-- The result for a form without a rule: its head is applied to the other children. -/
def application : List Operand → Except Error Lowered
  | [] => .error (.missing "()" .callee)
  | callee :: arguments => do
    let callee ← callee.value
    let arguments ← Operand.values arguments
    return ⟨callee.auxiliary ++ arguments.flatMap (·.auxiliary),
      .call callee.expr (arguments.map (·.expr))⟩

end PureContracts
