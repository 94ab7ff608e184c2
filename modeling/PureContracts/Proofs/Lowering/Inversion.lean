import Mathlib.Data.List.Forall2
import PureContracts.Lowering.Expression

/-!
# What a lowered form was made of

The rules lower by pattern matching on operands.  Proofs go the other way: from the fact that a node
was lowered back to its shape and to the lowering of its children.  This file says once what each
rule can make, so that no later proof opens a rule again.

* `Rule.Makes` — what a rule makes of a node, one constructor for each rule that makes anything.
* `Applied` — what becomes of a node without a rule.

Principal results
* `Rule.makes_of_apply`, `applied_of_application` — nothing else is ever made;
* `lowerAt_node_cases` — the same at a node, with the table looked up;
* `lowerAt_auxiliary_eq_nil` — lowering finds no auxiliary functions;
* `lowerAt_scope` — lowering does not look at the scope.
-/

namespace PureContracts

theorem bind_eq_ok_iff {α β : Type} {first : Except Error α} {next : α → Except Error β} {b : β} :
    (first >>= next) = .ok b ↔ ∃ a, first = .ok a ∧ next a = .ok b := by
  cases first with
  | error e => simp [bind, Except.bind]
  | ok a => simp [bind, Except.bind]

theorem pure_eq_ok_iff {α : Type} {a b : α} : (pure a : Except Error α) = .ok b ↔ a = b := by
  simp [pure, Except.pure]

theorem map_eq_ok_iff {α β : Type} {outcome : Except Error α} {f : α → β} {b : β} :
    outcome.map f = .ok b ↔ ∃ a, outcome = .ok a ∧ f a = b := by
  cases outcome <;> simp [Except.map]

theorem map_eq_error_iff {α β : Type} {outcome : Except Error α} {f : α → β} {e : Error} :
    outcome.map f = .error e ↔ outcome = .error e := by
  cases outcome <;> simp [Except.map]

theorem mapM_eq_ok_iff {α β : Type} {f : α → Except Error β} {as : List α} {bs : List β} :
    as.mapM f = .ok bs ↔ List.Forall₂ (fun a b => f a = .ok b) as bs := by
  induction as generalizing bs with
  | nil => rw [List.mapM_nil, pure_eq_ok_iff, List.forall₂_nil_left_iff, eq_comm]
  | cons a rest ih =>
    simp only [List.mapM_cons, bind_eq_ok_iff, pure_eq_ok_iff, ih, List.forall₂_cons_left_iff]
    constructor
    · rintro ⟨b, hb, others, hothers, rfl⟩
      exact ⟨b, others, hb, hothers, rfl⟩
    · rintro ⟨b, others, hb, hothers, rfl⟩
      exact ⟨b, hb, others, hothers, rfl⟩

theorem bind_eq_error_iff {α β : Type} {first : Except Error α} {next : α → Except Error β}
    {e : Error} :
    (first >>= next) = .error e ↔ first = .error e ∨ ∃ a, first = .ok a ∧ next a = .error e := by
  cases first with
  | error e => simp [bind, Except.bind]
  | ok a => simp [bind, Except.bind]

/-- A run over a list fails exactly as the first member that fails. -/
theorem mapM_eq_error_iff {α β : Type} {f : α → Except Error β} {as : List α} {e : Error} :
    as.mapM f = .error e ↔ ∃ before a after, as = before ++ a :: after ∧
      (∀ earlier ∈ before, ∃ b, f earlier = .ok b) ∧ f a = .error e := by
  induction as with
  | nil => simp [pure, Except.pure]
  | cons a rest ih =>
    simp only [List.mapM_cons, bind_eq_error_iff, ih]
    constructor
    · rintro (ha | ⟨b, hb, ⟨before, a', after, rfl, hbefore, ha'⟩ | ⟨_, _, h⟩⟩)
      · exact ⟨[], a, rest, rfl, by simp, ha⟩
      · refine ⟨a :: before, a', after, rfl, ?_, ha'⟩
        exact List.forall_mem_cons.mpr ⟨⟨b, hb⟩, hbefore⟩
      · cases h
    · rintro ⟨before, a', after, hsplit, hbefore, ha'⟩
      cases before with
      | nil =>
        cases hsplit
        exact .inl ha'
      | cons first before =>
        cases hsplit
        obtain ⟨⟨b, hb⟩, hbefore⟩ := List.forall_mem_cons.mp hbefore
        exact .inr ⟨b, hb, .inl ⟨before, a', after, rfl, hbefore, ha'⟩⟩

theorem Operand.values_eq_mapM (operands : List Operand) :
    Operand.values operands = operands.mapM Operand.value := by
  induction operands with
  | nil => rfl
  | cons operand rest ih => rw [Operand.values, List.mapM_cons, ih]

theorem Operand.values_eq_ok_iff {lowering : Form → Except Error Lowered} {forms : List Form}
    {values : List Lowered} :
    Operand.values (forms.map fun form => ⟨form, lowering form⟩) = .ok values ↔
      List.Forall₂ (fun form value => lowering form = .ok value) forms values := by
  rw [Operand.values_eq_mapM, mapM_eq_ok_iff, List.forall₂_map_left_iff]

/-! ## Rules -/

/-- What a rule makes of the children of a node, head included, from what they are lowered to. -/
inductive Rule.Makes (lowers : Form → Lowered → Prop) : Rule → List Form → Lowered → Prop where
  | binary {operator : String} {head left right : Form} {l r : Lowered} :
      lowers left l → lowers right r →
      Makes lowers (.binary operator) [head, left, right]
        ⟨l.auxiliary ++ r.auxiliary, .binary l.expr operator r.expr⟩
  | conditional {head condition whenTrue whenFalse : Form} {c t f : Lowered} :
      lowers condition c → lowers whenTrue t → lowers whenFalse f →
      Makes lowers .conditional [head, condition, whenTrue, whenFalse]
        ⟨c.auxiliary ++ t.auxiliary ++ f.auxiliary, .conditional c.expr t.expr f.expr⟩
  | sequence {head : Form} {type : String} {elements : List Form} {values : List Lowered} :
      List.Forall₂ lowers elements values →
      Makes lowers .sequence (head :: .atom type :: elements)
        ⟨values.flatMap (·.auxiliary), .sequence (Text.unquoted type) (values.map (·.expr))⟩
  | slice {head whole low high : Form} {w l h : Lowered} :
      lowers whole w → lowers low l → lowers high h →
      Makes lowers .slice [head, whole, low, high]
        ⟨w.auxiliary ++ l.auxiliary ++ h.auxiliary, .slice w.expr (some l.expr) (some h.expr)⟩
  | isEmpty {head whole : Form} {w : Lowered} :
      lowers whole w → Makes lowers .isEmpty [head, whole] ⟨w.auxiliary, w.expr.isEmpty⟩

/-- What becomes of the children of a node without a rule. -/
inductive Applied (lowers : Form → Lowered → Prop) : List Form → Lowered → Prop where
  | call {head : Form} {arguments : List Form} {callee : Lowered} {values : List Lowered} :
      lowers head callee → List.Forall₂ lowers arguments values →
      Applied lowers (head :: arguments)
        ⟨callee.auxiliary ++ values.flatMap (·.auxiliary),
          .call callee.expr (values.map (·.expr))⟩

section

variable {lowering : Form → Except Error Lowered} {children : List Form} {lowered : Lowered}

theorem Rule.makes_of_apply {rule : Rule}
    (h : rule.apply (children.map fun form => ⟨form, lowering form⟩) = .ok lowered) :
    rule.Makes (fun form value => lowering form = .ok value) children lowered := by
  cases rule with
  | binary operator =>
    rcases children with _ | ⟨head, _ | ⟨a, _ | ⟨b, _ | ⟨c, rest⟩⟩⟩⟩
    case cons.cons.cons.nil =>
      obtain ⟨l, hl, h⟩ := bind_eq_ok_iff.mp h
      obtain ⟨r, hr, h⟩ := bind_eq_ok_iff.mp h
      cases h
      exact .binary hl hr
    all_goals cases h
  | conditional =>
    rcases children with _ | ⟨head, _ | ⟨a, _ | ⟨b, _ | ⟨c, _ | ⟨d, rest⟩⟩⟩⟩⟩
    case cons.cons.cons.cons.nil =>
      obtain ⟨x, hx, h⟩ := bind_eq_ok_iff.mp h
      obtain ⟨y, hy, h⟩ := bind_eq_ok_iff.mp h
      obtain ⟨z, hz, h⟩ := bind_eq_ok_iff.mp h
      cases h
      exact .conditional hx hy hz
    all_goals cases h
  | sequence =>
    rcases children with _ | ⟨head, _ | ⟨type | inner, elements⟩⟩
    case cons.cons.atom =>
      obtain ⟨values, hvalues, h⟩ := bind_eq_ok_iff.mp h
      cases h
      exact .sequence (Operand.values_eq_ok_iff.mp hvalues)
    all_goals cases h
  | slice =>
    rcases children with _ | ⟨head, _ | ⟨a, _ | ⟨b, _ | ⟨c, _ | ⟨d, rest⟩⟩⟩⟩⟩
    case cons.cons.cons.cons.nil =>
      obtain ⟨x, hx, h⟩ := bind_eq_ok_iff.mp h
      obtain ⟨y, hy, h⟩ := bind_eq_ok_iff.mp h
      obtain ⟨z, hz, h⟩ := bind_eq_ok_iff.mp h
      cases h
      exact .slice hx hy hz
    all_goals cases h
  | isEmpty =>
    rcases children with _ | ⟨head, _ | ⟨a, _ | ⟨b, rest⟩⟩⟩
    case cons.cons.nil =>
      obtain ⟨w, hw, h⟩ := bind_eq_ok_iff.mp h
      cases h
      exact .isEmpty hw
    all_goals cases h
  | refused reason => cases h

theorem applied_of_application
    (h : application (children.map fun form => ⟨form, lowering form⟩) = .ok lowered) :
    Applied (fun form value => lowering form = .ok value) children lowered := by
  cases children with
  | nil => cases h
  | cons head arguments =>
    obtain ⟨callee, hcallee, h⟩ := bind_eq_ok_iff.mp h
    obtain ⟨values, hvalues, h⟩ := bind_eq_ok_iff.mp h
    cases h
    exact .call hcallee (Operand.values_eq_ok_iff.mp hvalues)

end

/-! ## Nodes -/

section

variable {table : Table} {scope : Scope} {depth : Nat}

/-- A node that was lowered went through the rule of its label, or through none. -/
theorem lowerAt_node_cases {children : List Form} {lowered : Lowered}
    (h : lowerAt table scope depth (.node children) = .ok lowered) :
    (∃ rule, table.get? (Form.headWord children) = some rule ∧
      rule.Makes (fun form value => lowerAt table scope (depth + 1) form = .ok value)
        children lowered) ∨
    (table.get? (Form.headWord children) = none ∧
      Applied (fun form value => lowerAt table scope (depth + 1) form = .ok value)
        children lowered) := by
  rw [lowerAt, operandsAt_eq_map] at h
  split at h
  · split at h
    · rename_i rule hrule
      exact .inl ⟨rule, hrule, Rule.makes_of_apply h⟩
    · rename_i hrule
      exact .inr ⟨hrule, applied_of_application h⟩
  · cases h

theorem flatMap_auxiliary_eq_nil {forms : List Form} {values : List Lowered}
    {lowers : Form → Lowered → Prop} (hvalues : List.Forall₂ lowers forms values)
    (h : ∀ form ∈ forms, ∀ value, lowers form value → value.auxiliary = []) :
    values.flatMap (·.auxiliary) = [] := by
  induction hvalues with
  | nil => rfl
  | cons hvalue _ ih =>
    rw [List.flatMap_cons, h _ List.mem_cons_self _ hvalue,
      ih fun form hform => h form (List.mem_cons_of_mem _ hform)]
    rfl

/-- **Lowering finds no auxiliary functions.** -/
theorem lowerAt_auxiliary_eq_nil {form : Form} {lowered : Lowered}
    (h : lowerAt table scope depth form = .ok lowered) : lowered.auxiliary = [] := by
  induction form generalizing depth lowered with
  | atom text =>
    rw [lowerAt] at h
    cases h
    rfl
  | node children ih =>
    rcases lowerAt_node_cases h with ⟨rule, -, hmade⟩ | ⟨-, happlied⟩
    · cases hmade with
      | binary hl hr => simp [ih _ (by simp) hl, ih _ (by simp) hr]
      | conditional hc ht hf => simp [ih _ (by simp) hc, ih _ (by simp) ht, ih _ (by simp) hf]
      | sequence hvalues =>
        exact flatMap_auxiliary_eq_nil hvalues fun form hform value hvalue =>
          ih form (by simp [hform]) hvalue
      | slice hw hl hh => simp [ih _ (by simp) hw, ih _ (by simp) hl, ih _ (by simp) hh]
      | isEmpty hw => simp [ih _ (by simp) hw]
    · cases happlied with
      | call hcallee hvalues =>
        rw [ih _ List.mem_cons_self hcallee, List.nil_append]
        exact flatMap_auxiliary_eq_nil hvalues fun form hform value hvalue =>
          ih form (List.mem_cons_of_mem _ hform) hvalue

/-- **Lowering does not look at the scope.** -/
theorem lowerAt_scope (other : Scope) (form : Form) :
    lowerAt table scope depth form = lowerAt table other depth form := by
  induction form generalizing depth with
  | atom text => rw [lowerAt, lowerAt]
  | node children ih =>
    have hoperands : operandsAt table scope (depth + 1) children =
        operandsAt table other (depth + 1) children :=
      operandsAt_congr fun child hchild => ih child hchild
    rw [lowerAt, lowerAt, hoperands]

end

end PureContracts
