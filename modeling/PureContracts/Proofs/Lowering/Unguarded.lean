import PureContracts.Proofs.Compilation.Nesting
import PureContracts.Proofs.Form.Within

/-!
# The nesting guard only rejects

Lowering counts the nodes that it has entered and refuses to enter more than `nestingLimit`.  The
count goes into nothing else.  Wherever a form has room below the limit it is lowered as if there
were no limit at all, to the same expression or with the same error; and a form that has no room is
not lowered.

* `lowerFreely` — lowering without the guard.

Principal results
* `lowerAt_eq_lowerFreely` — within the limit the guard makes no difference;
* `Rule.lower_eq_lower` — a rule used on the children directly does what lowering the node does;
* `lower_fails_of_too_deep` — above the limit nothing is lowered;
* `guard_only_rejects` — the three together, for every table and every form.
-/

namespace PureContracts

/-! ## Lowering without the guard -/

mutual

/-- Lowers a form, however deep it is nested. -/
def lowerFreely (table : Table) (scope : Scope) : Form → Except Error Lowered
  | .atom text => .ok ⟨[], .literal text⟩
  | .node children =>
    match table.get? (Form.headWord children) with
    | some rule => rule.apply (operandsFreely table scope children)
    | none => application (operandsFreely table scope children)

/-- The children of a node as operands, however deep they are nested. -/
def operandsFreely (table : Table) (scope : Scope) : List Form → List Operand
  | [] => []
  | form :: rest => ⟨form, lowerFreely table scope form⟩ :: operandsFreely table scope rest

end

theorem operandsFreely_eq_map (table : Table) (scope : Scope) (forms : List Form) :
    operandsFreely table scope forms =
      forms.map fun form => ⟨form, lowerFreely table scope form⟩ := by
  induction forms with
  | nil => rw [operandsFreely, List.map_nil]
  | cons form rest ih => rw [operandsFreely, ih, List.map_cons]

section

variable (table : Table) (scope : Scope)

theorem operandsAt_eq_operandsFreely {depth : Nat} {children : List Form}
    (h : ∀ child ∈ children, lowerAt table scope depth child = lowerFreely table scope child) :
    operandsAt table scope depth children = operandsFreely table scope children := by
  rw [operandsAt_eq_map, operandsFreely_eq_map]
  apply List.map_congr_left
  intro child hchild
  rw [h child hchild]

/-- **Within the limit the guard makes no difference.** -/
theorem lowerAt_eq_lowerFreely {depth : Nat} {form : Form} (h : depth + form.depth ≤ nestingLimit) :
    lowerAt table scope depth form = lowerFreely table scope form := by
  induction form generalizing depth with
  | atom text => rw [lowerAt, lowerFreely]
  | node children ih =>
    rw [Form.depth] at h
    -- A child has one level less to go and starts one level further in.
    have hoperands : operandsAt table scope (depth + 1) children =
        operandsFreely table scope children := by
      apply operandsAt_eq_operandsFreely
      intro child hchild
      have hdepth := Form.depthAll_le_iff.mp (Nat.le_refl _) child hchild
      exact ih child hchild (by omega)
    have hroom : depth < nestingLimit := by omega
    cases hrule : table.get? (Form.headWord children) with
    | some rule => simp only [lowerAt, lowerFreely, if_pos hroom, hoperands, hrule]
    | none => simp only [lowerAt, lowerFreely, if_pos hroom, hoperands, hrule]

/-- A rule used on the children directly does what lowering the node does. -/
theorem Rule.lower_eq_lower {rule : Rule} {children : List Form}
    (hdepth : (Form.node children).depth ≤ nestingLimit)
    (hrule : table.get? (Form.headWord children) = some rule) :
    rule.lower table scope children = PureContracts.lower table scope (.node children) := by
  have hoperands : operandsAt table scope 0 children = operandsFreely table scope children := by
    apply operandsAt_eq_operandsFreely
    intro child hchild
    have hlt : child.depth < (Form.node children).depth := Form.depth_lt_of_mem_children hchild
    exact lowerAt_eq_lowerFreely table scope (by omega)
  rw [Rule.lower, hoperands, PureContracts.lower, lowerAt_eq_lowerFreely table scope (by omega),
    lowerFreely, hrule]

end

/-! ## Forms without room -/

/-- A form is no deeper than the levels of its nodes allow. -/
theorem Form.depth_le_of_sites {form : Form} {level bound : Nat} (hlevel : level ≤ bound)
    (h : ∀ site ∈ form.sitesAt (level + 1), site.level ≤ bound) : level + form.depth ≤ bound := by
  induction form generalizing level with
  | atom text => exact hlevel
  | node children ih =>
    rw [sitesAt, List.forall_mem_cons] at h
    have hself : level + 1 ≤ bound := h.1
    have hchildren : depthAll children ≤ bound - (level + 1) := by
      rw [depthAll_le_iff]
      intro child hchild
      have hroom : level + 1 + child.depth ≤ bound := by
        refine ih child hchild hself fun site hsite => ?_
        exact h.2 site (mem_sitesAllAt.mpr ⟨child, hchild, hsite⟩)
      omega
    rw [depth]
    omega

theorem Site.level_le_of_offence?_eq_none {table : Table} {site : Site}
    (h : site.offence? table = none) : site.level ≤ nestingLimit := by
  rw [Site.offence?] at h
  split at h
  · cases h
  · next hlevel => exact Nat.not_lt.mp hlevel

/-- Above the limit nothing is lowered, unless a rule for the empty label leaves nodes out. -/
theorem lower_fails_of_too_deep {table : Table} (hempty : table.get? "" = none) (scope : Scope)
    {form : Form} (hdeep : nestingLimit < form.depth) :
    ∃ e, lower table scope form = .error e := by
  cases hlower : lower table scope form with
  | error e => exact ⟨e, rfl⟩
  | ok lowered =>
    have hnone : failure? (lowerAt table scope 0 form) = none :=
      failure?_eq_none_iff.mpr ⟨lowered, hlower⟩
    rw [failure?_lowerAt hempty, List.findSome?_eq_none_iff] at hnone
    have hdepth : 0 + form.depth ≤ nestingLimit :=
      Form.depth_le_of_sites (Nat.zero_le _) fun site hsite =>
        Site.level_le_of_offence?_eq_none (hnone site hsite)
    omega

/-- **The nesting guard only rejects.**  A form that has room below the limit is lowered at any
depth as it is on its own, and as it would be without the guard, be it to an expression or with an
error; so the rule of a node may as well be used on its children directly.  A form above the limit
is not lowered. -/
theorem guard_only_rejects (table : Table) (scope : Scope) (form : Form) :
    (∀ depth, depth + form.depth ≤ nestingLimit →
      lowerAt table scope depth form = lowerAt table scope 0 form ∧
      lowerAt table scope depth form = lowerFreely table scope form) ∧
    (∀ children rule, form = .node children → form.depth ≤ nestingLimit →
      table.get? form.label = some rule →
      rule.lower table scope children = lower table scope form) ∧
    (table.get? "" = none → nestingLimit + 1 ≤ form.depth →
      ∃ e, lower table scope form = .error e) := by
  refine ⟨fun depth hroom => ?_, ?_, fun hempty hdeep => lower_fails_of_too_deep hempty scope hdeep⟩
  · have hfree := lowerAt_eq_lowerFreely table scope hroom
    exact ⟨hfree.trans (lowerAt_eq_lowerFreely table scope (by omega)).symm, hfree⟩
  · rintro children rule rfl hdepth hrule
    exact Rule.lower_eq_lower table scope hdepth hrule

/-- Up to the limit and one level above it, with a sum as the node that has a rule. -/
theorem guard_only_rejects_nested :
    (28 + (nested 100).depth = 128 ∧
      lowerAt .standard .empty 28 (nested 100) = lowerFreely .standard .empty (nested 100)) ∧
    ((Form.node [.atom "+", nested 127, .atom "1"]).depth = 128 ∧
      (Rule.binary "+").lower .standard .empty [.atom "+", nested 127, .atom "1"] =
        lower .standard .empty (.node [.atom "+", nested 127, .atom "1"])) ∧
    ((nested 129).depth = 129 ∧ ∃ e, lower .standard .empty (nested 129) = .error e) := by
  have hsum : (Form.node [.atom "+", nested 127, .atom "1"]).depth = 128 := by
    simp [Form.depth, Form.depthAll, depth_nested]
  refine ⟨⟨by rw [depth_nested], ?_⟩, ⟨hsum, ?_⟩, depth_nested 129, ?_⟩
  · exact ((guard_only_rejects .standard .empty (nested 100)).1 28
      (by rw [depth_nested]; decide)).2
  · exact (guard_only_rejects .standard .empty _).2.1 _ _ rfl (Nat.le_of_eq hsum) (by decide)
  · exact (guard_only_rejects .standard .empty (nested 129)).2.2 (by decide)
      (by rw [depth_nested]; decide)

end PureContracts
