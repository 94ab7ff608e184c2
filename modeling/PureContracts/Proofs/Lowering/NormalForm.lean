import PureContracts.Proofs.Lowering.Inversion

/-!
# Lowering loses nothing but three spellings

Under the standard rules two forms become the same expression in three ways only: `=seq` is another
word for `=`, `(null? s)` is short for `(= (len s) 0)`, and the element type of a sequence may stand
in quotes.  `Form.normal` undoes just these, and two forms that are lowered at all become the same
expression exactly when they have the same normal form.

* `Form.normal` — a form with the three spellings undone, at every node.
* `Expr.spelling` — the normal form that an expression came from.
* `Form.meaning` — the expression that a normal form goes to.
* `StandardNode` — a lowered node beside its normal form, one case for each kind of node.

Principal results
* `spelling_of_lowerAt` — from the expression back to the normal form;
* `meaning_of_lowerAt` — from the normal form on to the expression;
* `lower_expr_eq_iff_normal_eq` — equal expressions are equal normal forms.

`Form.meaning` is not the lowering itself: a normal form may be nested deeper than the form it came
from, and the type in it has lost its quotes already.
-/

namespace PureContracts

/-! ## Normal forms -/

namespace Form

/-- The word that stands for an operator in normal forms. -/
def plainLabel (word : String) : String := if word = "=seq" then "=" else word

/-- The normal form of a node whose children are in normal form. -/
def normalNode : List Form → Form
  | [.atom "null?", whole] => .node [.atom "=", .node [.atom "len", whole], .atom "0"]
  | .atom "seq" :: .atom type :: rest => .node (.atom "seq" :: .atom (Text.unquoted type) :: rest)
  | .atom word :: rest => .node (.atom (plainLabel word) :: rest)
  | children => .node children

mutual

/-- A form with the three spellings undone. -/
def normal : Form → Form
  | .atom text => .atom text
  | .node children => normalNode (normalAll children)

/-- Some forms with the three spellings undone. -/
def normalAll : List Form → List Form
  | [] => []
  | form :: rest => form.normal :: normalAll rest

end

theorem normalNode_isNode (children : List Form) : ∃ inner, normalNode children = .node inner := by
  unfold normalNode
  split <;> exact ⟨_, rfl⟩

theorem normalNode_word {word : String} (hnull : word ≠ "null?") (hseq : word ≠ "seq")
    (rest : List Form) :
    normalNode (.atom word :: rest) = .node (.atom (plainLabel word) :: rest) := by
  unfold normalNode
  split
  all_goals simp_all

theorem headWord_normalAll (forms : List Form) : headWord (normalAll forms) = headWord forms := by
  rcases forms with _ | ⟨word | inner, rest⟩
  · rfl
  · rw [normalAll, normal]
    rfl
  · obtain ⟨children, hchildren⟩ := normalNode_isNode (normalAll inner)
    rw [normalAll, normal, hchildren]
    rfl

theorem respelled_bound :
    ∀ word ∈ ["null?", "seq", "=seq"], Table.standard.get? word ≠ none := by decide

theorem normalNode_of_unbound {children : List Form}
    (h : Table.standard.get? (headWord children) = none) :
    normalNode children = .node children := by
  unfold normalNode
  split
  · exact absurd h (respelled_bound "null?" (by decide))
  · exact absurd h (respelled_bound "seq" (by decide))
  · rename_i word rest _ _
    have hword : word ≠ "=seq" := by
      rintro rfl
      exact absurd h (respelled_bound "=seq" (by decide))
    rw [plainLabel, if_neg hword]
  · rfl

end Form

/-! ## Nodes under the standard rules -/

/-- The word that stands for an operator. -/
def Expr.operatorLabel (operator : String) : String := if operator = "==" then "=" else operator

/-- The labels under which a rule may stand in the standard table. -/
def Rule.Labelled (label : String) : Rule → Prop
  | .binary operator => (label ≠ "null?" ∧ label ≠ "seq") ∧
      Form.plainLabel label = Expr.operatorLabel operator ∧
      Table.standard.get? (Expr.operatorLabel operator) = some (.binary operator)
  | .conditional => label = "if"
  | .sequence => label = "seq"
  | .slice => label = "slice"
  | .isEmpty => label = "null?"
  | .refused _ => True

instance (label : String) (rule : Rule) : Decidable (rule.Labelled label) :=
  match rule with
  | .binary _ => inferInstanceAs (Decidable (_ ∧ _ ∧ _))
  | .conditional => inferInstanceAs (Decidable (_ = _))
  | .sequence => inferInstanceAs (Decidable (_ = _))
  | .slice => inferInstanceAs (Decidable (_ = _))
  | .isEmpty => inferInstanceAs (Decidable (_ = _))
  | .refused _ => inferInstanceAs (Decidable True)

theorem labelled_of_get? {label : String} {rule : Rule}
    (h : Table.standard.get? label = some rule) : rule.Labelled label := by
  have hall : ∀ entry ∈ Table.standard.entries, entry.2.Labelled entry.1 := by decide
  exact hall (label, rule) (Bindings.mem_of_get? h)

theorem exists_atom_of_get? {children : List Form} {rule : Rule}
    (h : Table.standard.get? (Form.headWord children) = some rule) :
    ∃ rest, children = .atom (Form.headWord children) :: rest := by
  apply Form.exists_of_headWord_ne
  intro hempty
  have hnone : Table.standard.get? "" = none := by decide
  rw [hempty, hnone] at h
  cases h

/-- A node that the standard rules lower: its children, its normal form and its expression. -/
inductive StandardNode (lowers : Form → Lowered → Prop) : List Form → Form → Expr → Prop where
  | binary {word operator : String} {left right : Form} {l r : Lowered} :
      Table.standard.get? (Expr.operatorLabel operator) = some (.binary operator) →
      lowers left l → lowers right r →
      StandardNode lowers [.atom word, left, right]
        (.node [.atom (Expr.operatorLabel operator), left.normal, right.normal])
        (.binary l.expr operator r.expr)
  | conditional {condition whenTrue whenFalse : Form} {c t f : Lowered} :
      lowers condition c → lowers whenTrue t → lowers whenFalse f →
      StandardNode lowers [.atom "if", condition, whenTrue, whenFalse]
        (.node [.atom "if", condition.normal, whenTrue.normal, whenFalse.normal])
        (.conditional c.expr t.expr f.expr)
  | sequence {type : String} {elements : List Form} {values : List Lowered} :
      List.Forall₂ lowers elements values →
      StandardNode lowers (.atom "seq" :: .atom type :: elements)
        (.node (.atom "seq" :: .atom (Text.unquoted type) :: Form.normalAll elements))
        (.sequence (Text.unquoted type) (values.map (·.expr)))
  | slice {whole low high : Form} {w l h : Lowered} :
      lowers whole w → lowers low l → lowers high h →
      StandardNode lowers [.atom "slice", whole, low, high]
        (.node [.atom "slice", whole.normal, low.normal, high.normal])
        (.slice w.expr (some l.expr) (some h.expr))
  | isEmpty {whole : Form} {w : Lowered} :
      lowers whole w →
      StandardNode lowers [.atom "null?", whole]
        (.node [.atom "=", .node [.atom "len", whole.normal], .atom "0"]) w.expr.isEmpty
  | call {head : Form} {arguments : List Form} {callee : Lowered} {values : List Lowered} :
      Table.standard.get? (Form.headWord (Form.normalAll (head :: arguments))) = none →
      lowers head callee → List.Forall₂ lowers arguments values →
      StandardNode lowers (head :: arguments) (.node (Form.normalAll (head :: arguments)))
        (.call callee.expr (values.map (·.expr)))

theorem standardNode_of_makes {lowers : Form → Lowered → Prop} {children : List Form}
    {lowered : Lowered} {rule : Rule}
    (hrule : Table.standard.get? (Form.headWord children) = some rule)
    (hmade : rule.Makes lowers children lowered) :
    StandardNode lowers children (Form.node children).normal lowered.expr := by
  -- The head is a word, and the rule tells which.
  obtain ⟨rest, hchildren⟩ := exists_atom_of_get? hrule
  have hlabelled := labelled_of_get? hrule
  generalize Form.headWord children = word at *
  rw [Form.normal]
  cases hmade with
  | binary hl hr =>
    cases hchildren
    obtain ⟨⟨hnull, hseq⟩, hplain, hbound⟩ := hlabelled
    simp only [Form.normalAll, Form.normal]
    rw [Form.normalNode_word hnull hseq, hplain]
    exact .binary hbound hl hr
  | conditional hc ht hf =>
    cases hchildren
    cases hlabelled
    simp only [Form.normalAll, Form.normal]
    rw [Form.normalNode_word (by decide) (by decide)]
    exact .conditional hc ht hf
  | sequence hvalues =>
    cases hchildren
    cases hlabelled
    simp only [Form.normalAll, Form.normal]
    exact .sequence hvalues
  | slice hw hl hh =>
    cases hchildren
    cases hlabelled
    simp only [Form.normalAll, Form.normal]
    rw [Form.normalNode_word (by decide) (by decide)]
    exact .slice hw hl hh
  | isEmpty hw =>
    cases hchildren
    cases hlabelled
    simp only [Form.normalAll, Form.normal]
    exact .isEmpty hw

theorem standardNode_of_applied {lowers : Form → Lowered → Prop} {children : List Form}
    {lowered : Lowered} (hrule : Table.standard.get? (Form.headWord children) = none)
    (happlied : Applied lowers children lowered) :
    StandardNode lowers children (Form.node children).normal lowered.expr := by
  rw [← Form.headWord_normalAll] at hrule
  rw [Form.normal, Form.normalNode_of_unbound hrule]
  cases happlied with
  | call hcallee hvalues => exact .call hrule hcallee hvalues

/-- **What the standard rules can do at a node.** -/
theorem standardNode_of_lowerAt {scope : Scope} {depth : Nat} {children : List Form}
    {lowered : Lowered} (h : lowerAt Table.standard scope depth (.node children) = .ok lowered) :
    StandardNode (fun form value => lowerAt Table.standard scope (depth + 1) form = .ok value)
      children (Form.node children).normal lowered.expr := by
  rcases lowerAt_node_cases h with ⟨rule, hrule, hmade⟩ | ⟨hrule, happlied⟩
  · exact standardNode_of_makes hrule hmade
  · exact standardNode_of_applied hrule happlied

/-! ## From expressions back to forms -/

namespace Expr

mutual

/-- The normal form that an expression came from. -/
def spelling : Expr → Form
  | .literal source => .atom source
  | .unary operator operand => .node [.atom operator, operand.spelling]
  | .binary left operator right =>
    .node [.atom (operatorLabel operator), left.spelling, right.spelling]
  | .conditional condition whenTrue whenFalse =>
    .node [.atom "if", condition.spelling, whenTrue.spelling, whenFalse.spelling]
  | .sequence elementType elements =>
    .node (.atom "seq" :: .atom elementType :: spellingAll elements)
  | .slice whole low high =>
    .node [.atom "slice", whole.spelling, spellingBound low, spellingBound high]
  | .call callee arguments => .node (callee.spelling :: spellingAll arguments)

/-- The normal forms that some expressions came from. -/
def spellingAll : List Expr → List Form
  | [] => []
  | expr :: rest => expr.spelling :: spellingAll rest

/-- The normal form of a bound.  No form leaves a bound out. -/
def spellingBound : Option Expr → Form
  | none => .node []
  | some bound => bound.spelling

end

end Expr

theorem spellingAll_of_forall₂ {lowers : Form → Lowered → Prop} {forms : List Form}
    {values : List Lowered} (hvalues : List.Forall₂ lowers forms values)
    (h : ∀ form ∈ forms, ∀ value, lowers form value → value.expr.spelling = form.normal) :
    Expr.spellingAll (values.map (·.expr)) = Form.normalAll forms := by
  induction hvalues with
  | nil => rfl
  | cons hvalue _ ih =>
    rw [List.map_cons, Expr.spellingAll, Form.normalAll, h _ List.mem_cons_self _ hvalue,
      ih fun form hform => h form (List.mem_cons_of_mem _ hform)]

/-- **The expression of a form spells its normal form.** -/
theorem spelling_of_lowerAt {scope : Scope} {depth : Nat} {form : Form} {lowered : Lowered}
    (h : lowerAt Table.standard scope depth form = .ok lowered) :
    lowered.expr.spelling = form.normal := by
  induction form generalizing depth lowered with
  | atom text =>
    rw [lowerAt] at h
    cases h
    rw [Expr.spelling, Form.normal]
  | node children ih =>
    obtain ⟨auxiliary, expr⟩ := lowered
    have hnode := standardNode_of_lowerAt h
    generalize (Form.node children).normal = normal at *
    cases hnode with
    | binary _ hl hr => rw [Expr.spelling, ih _ (by simp) hl, ih _ (by simp) hr]
    | conditional hc ht hf =>
      rw [Expr.spelling, ih _ (by simp) hc, ih _ (by simp) ht, ih _ (by simp) hf]
    | sequence hvalues =>
      rw [Expr.spelling, spellingAll_of_forall₂ hvalues fun form hform value hvalue =>
        ih form (by simp [hform]) hvalue]
    | slice hw hl hh =>
      rw [Expr.spelling, Expr.spellingBound, Expr.spellingBound, ih _ (by simp) hw,
        ih _ (by simp) hl, ih _ (by simp) hh]
    | isEmpty hw =>
      simp only [Expr.length, Expr.spelling, Expr.spellingAll]
      rw [ih _ (by simp) hw]
      rfl
    | call _ hcallee hvalues =>
      rw [Expr.spelling, Form.normalAll, ih _ List.mem_cons_self hcallee,
        spellingAll_of_forall₂ hvalues fun form hform value hvalue =>
          ih form (List.mem_cons_of_mem _ hform) hvalue]

/-! ## From normal forms on to expressions -/

namespace Form

/-- The expression of a node in normal form, from the rule of its label and the expressions of its
children. -/
def assembled : Option Rule → List Form → List Expr → Expr
  | some (.binary operator), _, [_, left, right] => .binary left operator right
  | some .conditional, _, [_, condition, whenTrue, whenFalse] =>
    .conditional condition whenTrue whenFalse
  | some .sequence, _ :: .atom type :: _, _ :: _ :: elements => .sequence type elements
  | some .slice, _, [_, whole, low, high] => .slice whole (some low) (some high)
  | _, _, callee :: arguments => .call callee arguments
  | _, _, [] => .literal ""

mutual

/-- The expression that a normal form goes to. -/
def meaning : Form → Expr
  | .atom text => .literal text
  | .node children =>
    assembled (Table.standard.get? (headWord children)) children (meaningAll children)

/-- The expressions that some normal forms go to. -/
def meaningAll : List Form → List Expr
  | [] => []
  | form :: rest => form.meaning :: meaningAll rest

end

theorem meaning_node {word : String} {rest : List Form} {found : Option Rule}
    (h : Table.standard.get? word = found) :
    (Form.node (.atom word :: rest)).meaning =
      assembled found (.atom word :: rest) (.literal word :: meaningAll rest) := by
  subst h
  rw [meaning, meaningAll, meaning]
  rfl

end Form

theorem meaningAll_of_forall₂ {lowers : Form → Lowered → Prop} {forms : List Form}
    {values : List Lowered} (hvalues : List.Forall₂ lowers forms values)
    (h : ∀ form ∈ forms, ∀ value, lowers form value → form.normal.meaning = value.expr) :
    Form.meaningAll (Form.normalAll forms) = values.map (·.expr) := by
  induction hvalues with
  | nil => rfl
  | cons hvalue _ ih =>
    rw [Form.normalAll, Form.meaningAll, List.map_cons, h _ List.mem_cons_self _ hvalue,
      ih fun form hform => h form (List.mem_cons_of_mem _ hform)]

/-- **The normal form of a form means its expression.** -/
theorem meaning_of_lowerAt {scope : Scope} {depth : Nat} {form : Form} {lowered : Lowered}
    (h : lowerAt Table.standard scope depth form = .ok lowered) :
    form.normal.meaning = lowered.expr := by
  induction form generalizing depth lowered with
  | atom text =>
    rw [lowerAt] at h
    cases h
    rw [Form.normal, Form.meaning]
  | node children ih =>
    obtain ⟨auxiliary, expr⟩ := lowered
    have hnode := standardNode_of_lowerAt h
    generalize (Form.node children).normal = normal at *
    cases hnode with
    | binary hbound hl hr =>
      rw [Form.meaning_node hbound]
      simp only [Form.meaningAll, Form.assembled]
      rw [ih _ (by simp) hl, ih _ (by simp) hr]
    | conditional hc ht hf =>
      have hbound : Table.standard.get? "if" = some .conditional := by decide
      rw [Form.meaning_node hbound]
      simp only [Form.meaningAll, Form.assembled]
      rw [ih _ (by simp) hc, ih _ (by simp) ht, ih _ (by simp) hf]
    | sequence hvalues =>
      have hbound : Table.standard.get? "seq" = some .sequence := by decide
      rw [Form.meaning_node hbound, Form.meaningAll,
        meaningAll_of_forall₂ hvalues fun form hform value hvalue =>
          ih form (by simp [hform]) hvalue]
      rfl
    | slice hw hl hh =>
      have hbound : Table.standard.get? "slice" = some .slice := by decide
      rw [Form.meaning_node hbound]
      simp only [Form.meaningAll, Form.assembled]
      rw [ih _ (by simp) hw, ih _ (by simp) hl, ih _ (by simp) hh]
    | isEmpty hw =>
      -- The short form means the comparison that it is short for: `len` is applied, `=` is not.
      have hequal : Table.standard.get? "=" = some (.binary "==") := by decide
      have hlen : Table.standard.get? "len" = none := by decide
      rw [Form.meaning_node hequal]
      simp only [Form.meaningAll, Form.assembled]
      rw [Form.meaning_node hlen, Form.meaning]
      simp only [Form.meaningAll, Form.assembled]
      rw [ih _ (by simp) hw]
      rfl
    | call hunbound hcallee hvalues =>
      rw [Form.meaning, hunbound, Form.normalAll, Form.meaningAll,
        ih _ List.mem_cons_self hcallee,
        meaningAll_of_forall₂ hvalues fun form hform value hvalue =>
          ih form (List.mem_cons_of_mem _ hform) hvalue]
      rfl

/-! ## Expressions and normal forms -/

/-- **Two forms that are lowered become the same expression exactly when they have the same normal
form.** -/
theorem lower_expr_eq_iff_normal_eq {scope scope' : Scope} {first second : Form} {a b : Lowered}
    (hfirst : lower Table.standard scope first = .ok a)
    (hsecond : lower Table.standard scope' second = .ok b) :
    a.expr = b.expr ↔ first.normal = second.normal := by
  constructor
  · intro h
    rw [← spelling_of_lowerAt hfirst, ← spelling_of_lowerAt hsecond, h]
  · intro h
    rw [← meaning_of_lowerAt hfirst, ← meaning_of_lowerAt hsecond, h]

/-- `(null? s)` and `(=seq (len s) 0)` become one expression. -/
theorem lower_expr_eq_iff_normal_eq_null :
    lower Table.standard .empty (.node [.atom "null?", .atom "s"]) =
        .ok ⟨[], Expr.isEmpty (.literal "s")⟩ ∧
      lower Table.standard .empty
          (.node [.atom "=seq", .node [.atom "len", .atom "s"], .atom "0"]) =
        .ok ⟨[], Expr.isEmpty (.literal "s")⟩ ∧
      (Form.node [.atom "null?", .atom "s"]).normal =
        (Form.node [.atom "=seq", .node [.atom "len", .atom "s"], .atom "0"]).normal := by
  have hnull : lower Table.standard .empty (.node [.atom "null?", .atom "s"]) =
      .ok ⟨[], Expr.isEmpty (.literal "s")⟩ := rfl
  have hequal : lower Table.standard .empty
      (.node [.atom "=seq", .node [.atom "len", .atom "s"], .atom "0"]) =
      .ok ⟨[], Expr.isEmpty (.literal "s")⟩ := rfl
  exact ⟨hnull, hequal, (lower_expr_eq_iff_normal_eq hnull hequal).mp rfl⟩

end PureContracts
