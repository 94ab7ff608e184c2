/-!
# Expressions

The expressions of pure functions.  Literals carry source words verbatim, whatever they spell:
numbers, names, quoted strings.  Models `Expr`, whose variants are `Literal`, `UnaryOp`, `BinOp`,
`Conditional`, `SeqLiteral`, `SeqSlice` and `Call`.

Principal result: `Expr.induction` — what holds of an expression as soon as it holds of its parts
holds of every expression.
-/

namespace PureContracts

/-- An expression of a pure function. -/
inductive Expr where
  /-- A source word, passed through. -/
  | literal (source : String)
  | unary (operator : String) (operand : Expr)
  | binary (left : Expr) (operator : String) (right : Expr)
  | conditional (condition whenTrue whenFalse : Expr)
  /-- A sequence of the given element type. -/
  | sequence (elementType : String) (elements : List Expr)
  /-- The part of a sequence from `low` up to, not including, `high`. -/
  | slice (whole : Expr) (low high : Option Expr)
  | call (callee : Expr) (arguments : List Expr)
  deriving Inhabited

namespace Expr

/-- What holds of literals, and of a compound expression as soon as it holds of its parts, holds of
every expression. -/
@[elab_as_elim, induction_eliminator]
theorem induction {motive : Expr → Prop} (literal : ∀ source, motive (.literal source))
    (unary : ∀ operator operand, motive operand → motive (.unary operator operand))
    (binary : ∀ left operator right, motive left → motive right →
      motive (.binary left operator right))
    (conditional : ∀ condition whenTrue whenFalse, motive condition → motive whenTrue →
      motive whenFalse → motive (.conditional condition whenTrue whenFalse))
    (sequence : ∀ elementType elements, (∀ element ∈ elements, motive element) →
      motive (.sequence elementType elements))
    (slice : ∀ whole low high, motive whole → (∀ bound ∈ low, motive bound) →
      (∀ bound ∈ high, motive bound) → motive (.slice whole low high))
    (call : ∀ callee arguments, motive callee → (∀ argument ∈ arguments, motive argument) →
      motive (.call callee arguments))
    (expr : Expr) : motive expr :=
  @Expr.rec motive (fun exprs => ∀ expr ∈ exprs, motive expr)
    (fun bound => ∀ expr ∈ bound, motive expr)
    literal unary binary conditional sequence slice call
    (fun _ h => nomatch h)
    (fun _ _ hfirst hrest => List.forall_mem_cons.mpr ⟨hfirst, hrest⟩)
    (fun _ h => nomatch h)
    (fun _ hbound _ h => Option.some.inj h ▸ hbound)
    expr

/-- The length of a sequence (`len`). -/
def length (whole : Expr) : Expr := .call (.literal "len") [whole]

/-- Whether a sequence is empty: its length is compared with zero. -/
def isEmpty (whole : Expr) : Expr := .binary whole.length "==" (.literal "0")

end Expr

end PureContracts
