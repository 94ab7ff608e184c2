import PureContracts.Lowering.Expression

/-!
# Which forms are lowered, and what is said of the others

Lowering visits the nodes of a form in an order that its rules decide, and stops at the first one
that it cannot lower.  Seen from outside no rule matters for that order: the verdict on a form is
the verdict on its nodes one by one, read from left to right, a node before the nodes inside it.

* `Form.sites` — the nodes of a form in that order, each with its level; the form itself has level
  one.
* `Rule.objection?` — why a rule does not take a node, from the number and kind of its children.
* `Site.offence?` — the error of a single node: it stands too deep, its rule objects, or there is no
  rule and nothing to apply.

Principal results
* `failure?_apply` — a rule fails with its own objection, and otherwise with the leftmost failure
  among the children;
* `failure?_lowerAt` — lowering fails with the first offence among the sites;
* `lower_fails_with_first_offence` — a form is lowered exactly when no site offends, and the error
  is that of the first site that does.

A rule bound to the empty label would also take nodes whose head is a node, and leave that head
unvisited; the results are about tables without one.
-/

namespace PureContracts

theorem findSome?_cons_eq_or {α β : Type} (f : α → Option β) (a : α) (rest : List α) :
    (a :: rest).findSome? f = (f a).or (rest.findSome? f) := by
  rw [List.findSome?_cons]
  cases f a <;> rfl

/-! ## Sites -/

/-- A node inside a form.  Its level counts the nodes around it and itself. -/
structure Site where
  level : Nat
  children : List Form

namespace Form

mutual

/-- The nodes of a form that has the given level, each before the nodes inside it. -/
def sitesAt (level : Nat) : Form → List Site
  | .atom _ => []
  | .node children => ⟨level, children⟩ :: sitesAllAt (level + 1) children

/-- The nodes of some forms of one level, from left to right. -/
def sitesAllAt (level : Nat) : List Form → List Site
  | [] => []
  | form :: rest => sitesAt level form ++ sitesAllAt level rest

end

/-- The nodes of a form that stands on its own. -/
def sites (form : Form) : List Site := form.sitesAt 1

theorem findSome?_sitesAllAt (level : Nat) (verdict : Site → Option Error) (forms : List Form) :
    (sitesAllAt level forms).findSome? verdict =
      forms.findSome? fun form => (form.sitesAt level).findSome? verdict := by
  induction forms with
  | nil => rfl
  | cons form rest ih =>
    rw [sitesAllAt, List.findSome?_append, ih, findSome?_cons_eq_or]

end Form

/-! ## Offences -/

/-- The objection to a number of children other than the expected one. -/
def countObjection? (expected found : Nat) : Option Refusal :=
  if found = expected then none else some (.childCount expected found)

/-- Why a rule does not take a node with these children, whatever they are lowered to. -/
def Rule.objection? (rule : Rule) (children : List Form) : Option Refusal :=
  match rule with
  | .binary _ => countObjection? 3 children.length
  | .conditional => countObjection? 4 children.length
  | .slice => countObjection? 4 children.length
  | .isEmpty => countObjection? 2 children.length
  | .sequence =>
    if children.length < 2 then some (.tooFewChildren 2 children.length)
    else if (children[1]?.bind Form.word?).isNone then some .elementType
    else none
  | .refused reason => some (.stated reason)

/-- The error of a single node, whatever stands around it and inside it. -/
def Site.offence? (table : Table) (site : Site) : Option Error :=
  if nestingLimit < site.level then
    some (.unsupported (nodeName site.children) (.tooDeep nestingLimit))
  else
    match table.get? (Form.headWord site.children) with
    | some rule => (rule.objection? site.children).map (.unsupported (Form.headWord site.children))
    | none => if site.children = [] then some (.missing "()" .callee) else none

/-! ## Failures of runs -/

/-- The error that a run ended with. -/
def failure? {α : Type} : Except Error α → Option Error
  | .ok _ => none
  | .error e => some e

@[simp] theorem failure?_ok {α : Type} (value : α) :
    failure? (.ok value : Except Error α) = none := rfl

@[simp] theorem failure?_error {α : Type} (e : Error) :
    failure? (.error e : Except Error α) = some e := rfl

theorem failure?_eq_none_iff {α : Type} {run : Except Error α} :
    failure? run = none ↔ ∃ value, run = .ok value := by
  cases run <;> simp

theorem failure?_eq_some_iff {α : Type} {run : Except Error α} {e : Error} :
    failure? run = some e ↔ run = .error e := by
  cases run <;> simp

/-- A run fails with its first part, and otherwise with what follows; here the failure of what
follows does not depend on the value of the first part. -/
theorem failure?_bind {α β : Type} (first : Except Error α) {next : α → Except Error β}
    {later : Option Error} (h : ∀ value, failure? (next value) = later) :
    failure? (first >>= next) = (failure? first).or later := by
  cases first with
  | error e => rfl
  | ok value => exact h value

theorem failure?_values (operands : List Operand) :
    failure? (Operand.values operands) =
      operands.findSome? fun operand => failure? operand.value := by
  induction operands with
  | nil => rfl
  | cons operand rest ih =>
    have hrest : ∀ value : Lowered, failure? (do
        let others ← Operand.values rest
        return value :: others) = (failure? (Operand.values rest)).or none :=
      fun _ => failure?_bind _ fun _ => rfl
    rw [Operand.values, failure?_bind _ hrest, Option.or_none, ih, findSome?_cons_eq_or]

/-! ## Rules -/

/-- A form as an operand of the rule of the node around it. -/
def Form.operand (lowering : Form → Except Error Lowered) (form : Form) : Operand :=
  ⟨form, lowering form⟩

section

variable {lowering : Form → Except Error Lowered}

theorem findSome?_failure? (forms : List Form) :
    (forms.findSome? fun form => failure? (lowering form)) =
      (failure? (Operand.values (forms.map (Form.operand lowering)))).or none := by
  rw [failure?_values, List.findSome?_map, Option.or_none]
  rfl

theorem failure?_refuse_count {expected : Nat} {word : String} {rest : List Form}
    (h : rest.length + 1 ≠ expected) (later : Option Error) :
    failure? (Rule.apply.refuse ((Form.atom word :: rest).map (Form.operand lowering))
        (.childCount expected ((Form.atom word :: rest).map (Form.operand lowering)).length)) =
      ((countObjection? expected (Form.atom word :: rest).length).map (.unsupported word)).or
        later := by
  rw [countObjection?, List.length_cons, if_neg h, List.length_map]
  rfl

/-- **A rule fails with its own objection, and otherwise with the leftmost failure among the
children behind the head.** -/
theorem failure?_apply (hatom : ∀ text, failure? (lowering (.atom text)) = none) (rule : Rule)
    (word : String) (rest : List Form) :
    failure? (rule.apply ((Form.atom word :: rest).map (Form.operand lowering))) =
      ((rule.objection? (.atom word :: rest)).map (.unsupported word)).or
        (rest.findSome? fun form => failure? (lowering form)) := by
  cases rule with
  | binary operator =>
    rcases rest with _ | ⟨a, _ | ⟨b, _ | ⟨c, rest⟩⟩⟩
    · rfl
    · rfl
    · simp only [findSome?_cons_eq_or, List.findSome?_nil]
      exact failure?_bind _ fun _ => failure?_bind _ fun _ => rfl
    · exact failure?_refuse_count (by simp) _
  | conditional | slice =>
    rcases rest with _ | ⟨a, _ | ⟨b, _ | ⟨c, _ | ⟨d, rest⟩⟩⟩⟩
    · rfl
    · rfl
    · rfl
    · simp only [findSome?_cons_eq_or, List.findSome?_nil]
      exact failure?_bind _ fun _ => failure?_bind _ fun _ => failure?_bind _ fun _ => rfl
    · exact failure?_refuse_count (by simp) _
  | isEmpty =>
    rcases rest with _ | ⟨a, _ | ⟨b, rest⟩⟩
    · rfl
    · simp only [findSome?_cons_eq_or, List.findSome?_nil]
      exact failure?_bind _ fun _ => rfl
    · exact failure?_refuse_count (by simp) _
  | sequence =>
    rcases rest with _ | ⟨type | inner, elements⟩
    · rfl
    · -- The element type is an atom, so that it adds no failure of its own.
      rw [findSome?_cons_eq_or, hatom, Option.none_or, findSome?_failure?]
      exact failure?_bind _ fun _ => rfl
    · rfl
  | refused reason => rfl

theorem failure?_application (children : List Form) :
    failure? (application (children.map (Form.operand lowering))) =
      (if children = [] then some (.missing "()" .callee) else none).or
        (children.findSome? fun form => failure? (lowering form)) := by
  cases children with
  | nil => rfl
  | cons head rest =>
    rw [if_neg (List.cons_ne_nil head rest), Option.none_or, findSome?_cons_eq_or,
      findSome?_failure?]
    exact failure?_bind _ fun _ => failure?_bind _ fun _ => rfl

end

/-! ## Lowering -/

theorem failure?_children {table : Table} {scope : Scope} {depth : Nat} {children : List Form}
    (ih : ∀ child ∈ children, failure? (lowerAt table scope (depth + 1) child) =
      (child.sitesAt (depth + 2)).findSome? (Site.offence? table)) :
    (children.findSome? fun form => failure? (lowerAt table scope (depth + 1) form)) =
      (Form.sitesAllAt (depth + 2) children).findSome? (Site.offence? table) := by
  rw [Form.findSome?_sitesAllAt]
  induction children with
  | nil => rfl
  | cons child rest ihrest =>
    rw [findSome?_cons_eq_or, findSome?_cons_eq_or, ih child List.mem_cons_self,
      ihrest fun other hother => ih other (List.mem_cons_of_mem child hother)]

/-- **Lowering fails with the first offence among the sites.** -/
theorem failure?_lowerAt {table : Table} (hempty : table.get? "" = none) (scope : Scope)
    (depth : Nat) (form : Form) :
    failure? (lowerAt table scope depth form) =
      (form.sitesAt (depth + 1)).findSome? (Site.offence? table) := by
  induction form generalizing depth with
  | atom text => simp [lowerAt, Form.sitesAt]
  | node children ih =>
    have hinside := failure?_children fun child hchild => ih child hchild (depth + 1)
    rw [lowerAt, Form.sitesAt, findSome?_cons_eq_or, ← hinside, operandsAt_eq_map]
    by_cases hdepth : depth < nestingLimit
    · rw [if_pos hdepth, Site.offence?, if_neg (Nat.not_lt.mpr hdepth)]
      cases hrule : table.get? (Form.headWord children) with
      | some rule =>
        -- A bound label is not empty, so the head is a word and nothing is lost by skipping it.
        have hlabel : Form.headWord children ≠ "" := by
          intro h
          rw [h, hempty] at hrule
          cases hrule
        obtain ⟨rest, hchildren⟩ := Form.exists_of_headWord_ne hlabel
        generalize Form.headWord children = word at *
        subst hchildren
        have hatom : ∀ text, failure? (lowerAt table scope (depth + 1) (.atom text)) = none := by
          intro text
          rw [lowerAt, failure?_ok]
        rw [findSome?_cons_eq_or, hatom word, Option.none_or]
        exact failure?_apply hatom rule word rest
      | none => exact failure?_application children
    · rw [if_neg hdepth, Site.offence?, if_pos (Nat.lt_succ_of_le (Nat.not_lt.mp hdepth))]
      rfl

/-- **A form is lowered exactly when none of its sites offends, and otherwise the error is that of
the first site that does.** -/
theorem lower_fails_with_first_offence (table : Table) (hempty : table.get? "" = none)
    (scope : Scope) (form : Form) :
    ((∃ lowered, lower table scope form = .ok lowered) ↔
      ∀ site ∈ form.sites, site.offence? table = none) ∧
    ∀ e, lower table scope form = .error e ↔
      ∃ before site after, form.sites = before ++ site :: after ∧
        (∀ earlier ∈ before, earlier.offence? table = none) ∧ site.offence? table = some e := by
  have hfirst := failure?_lowerAt hempty scope 0 form
  constructor
  · rw [← failure?_eq_none_iff, lower, hfirst, List.findSome?_eq_none_iff]
    rfl
  · intro e
    rw [← failure?_eq_some_iff, lower, hfirst, List.findSome?_eq_some_iff]
    constructor
    · rintro ⟨before, site, after, hsites, hsite, hbefore⟩
      exact ⟨before, site, after, hsites, hbefore, hsite⟩
    · rintro ⟨before, site, after, hsites, hbefore, hsite⟩
      exact ⟨before, site, after, hsites, hsite, hbefore⟩

/-- Of `(f (+ 1) (cond))` the sum is reported, which has too few operands and stands first. -/
theorem lower_fails_with_first_offence_sum :
    Table.standard.get? "" = none ∧
      lower Table.standard .empty
        (.node [.atom "f", .node [.atom "+", .atom "1"], .node [.atom "cond"]]) =
          .error (.unsupported "+" (.childCount 3 2)) := by
  refine ⟨by decide, ?_⟩
  refine ((lower_fails_with_first_offence Table.standard (by decide) .empty _).2 _).mpr
    ⟨[⟨1, [.atom "f", .node [.atom "+", .atom "1"], .node [.atom "cond"]]⟩],
      ⟨2, [.atom "+", .atom "1"]⟩, [⟨2, [.atom "cond"]⟩], rfl, ?_, by decide⟩
  intro earlier hearlier
  rw [List.mem_singleton.mp hearlier]
  decide

end PureContracts
