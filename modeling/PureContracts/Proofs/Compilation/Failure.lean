import PureContracts.Proofs.Compilation.Batch
import PureContracts.Proofs.Form.Within

/-!
# What a failure can be about

A run ends with the error of one place in the source.  This file goes from the error back to that
place: to a node that the rules do not take, to a part that a definition lacks, or to a parenthesis.
Every later statement about errors is read off these cases, and no pass is opened again.

* `BlockLacks`, `Lacks` — what a definition lacks, read off its children.
* `Blames` — the errors that a definition deserves.

Principal results
* `offence_of_lowerAt` — every failure of lowering is the offence of a node inside the form,
  whatever the table binds;
* `blames_of_compileForm` — a definition fails with an error that it deserves.
-/

namespace PureContracts

/-! ## Rules -/

theorem Operand.exists_of_values_error {operands : List Operand} {e : Error}
    (h : Operand.values operands = .error e) : ∃ operand ∈ operands, operand.value = .error e := by
  rw [Operand.values_eq_mapM, mapM_eq_error_iff] at h
  obtain ⟨before, operand, after, rfl, -, hoperand⟩ := h
  exact ⟨operand, by simp, hoperand⟩

/-- What a rule objects to: the number of children, an element type, or the form as such. -/
theorem Rule.objection?_cases {rule : Rule} {children : List Form} {refusal : Refusal}
    (h : rule.objection? children = some refusal) :
    (∃ expected found, refusal = .childCount expected found) ∨
      (∃ least found, refusal = .tooFewChildren least found) ∨ refusal = .elementType ∨
      ∃ reason, rule = .refused reason ∧ refusal = .stated reason := by
  have hcount : ∀ expected, countObjection? expected children.length = some refusal →
      ∃ expected found, refusal = .childCount expected found := by
    intro expected hobjection
    rw [countObjection?] at hobjection
    split at hobjection
    · cases hobjection
    · cases hobjection
      exact ⟨_, _, rfl⟩
  cases rule with
  | binary operator => exact .inl (hcount 3 h)
  | conditional => exact .inl (hcount 4 h)
  | slice => exact .inl (hcount 4 h)
  | isEmpty => exact .inl (hcount 2 h)
  | sequence =>
    rw [objection?] at h
    split at h
    · cases h
      exact .inr (.inl ⟨_, _, rfl⟩)
    · split at h
      · cases h
        exact .inr (.inr (.inl rfl))
      · cases h
  | refused reason =>
    cases h
    exact .inr (.inr (.inr ⟨reason, rfl, rfl⟩))

/-- The offence of a node: it stands too deep, its rule objects, or there is nothing to apply. -/
theorem Site.offence?_cases {table : Table} {site : Site} {e : Error}
    (h : site.offence? table = some e) :
    (nestingLimit < site.level ∧
      e = .unsupported (nodeName site.children) (.tooDeep nestingLimit)) ∨
    (∃ rule refusal, table.get? (Form.headWord site.children) = some rule ∧
      rule.objection? site.children = some refusal ∧
      e = .unsupported (Form.headWord site.children) refusal) ∨
    e = .missing "()" .callee := by
  unfold Site.offence? at h
  split at h
  · rename_i hdeep
    cases h
    exact .inl ⟨hdeep, rfl⟩
  · split at h
    · rename_i rule hrule
      obtain ⟨refusal, hobjection, rfl⟩ := Option.map_eq_some_iff.mp h
      exact .inr (.inl ⟨rule, refusal, hrule, hobjection, rfl⟩)
    · split at h
      · cases h
        exact .inr (.inr rfl)
      · cases h

/-- A rule fails with its own objection, or as one of its operands. -/
theorem Rule.apply_error_cases {rule : Rule} {operands : List Operand} {e : Error}
    (h : rule.apply operands = .error e) :
    (∃ refusal, rule.objection? (operands.map (·.form)) = some refusal ∧
      e = .unsupported (Operand.label operands) refusal) ∨
    ∃ operand ∈ operands, operand.value = .error e := by
  cases rule with
  | binary operator =>
    rcases operands with _ | ⟨head, _ | ⟨a, _ | ⟨b, _ | ⟨c, rest⟩⟩⟩⟩
    case cons.cons.cons.nil =>
      rcases bind_eq_error_iff.mp h with h | ⟨_, _, h⟩
      · exact .inr ⟨a, by simp, h⟩
      rcases bind_eq_error_iff.mp h with h | ⟨_, _, h⟩
      · exact .inr ⟨b, by simp, h⟩
      cases h
    all_goals
      cases h
      exact .inl ⟨_, by simp [objection?, countObjection?], rfl⟩
  | conditional | slice =>
    rcases operands with _ | ⟨head, _ | ⟨a, _ | ⟨b, _ | ⟨c, _ | ⟨d, rest⟩⟩⟩⟩⟩
    case cons.cons.cons.cons.nil =>
      rcases bind_eq_error_iff.mp h with h | ⟨_, _, h⟩
      · exact .inr ⟨a, by simp, h⟩
      rcases bind_eq_error_iff.mp h with h | ⟨_, _, h⟩
      · exact .inr ⟨b, by simp, h⟩
      rcases bind_eq_error_iff.mp h with h | ⟨_, _, h⟩
      · exact .inr ⟨c, by simp, h⟩
      cases h
    all_goals
      cases h
      exact .inl ⟨_, by simp [objection?, countObjection?], rfl⟩
  | isEmpty =>
    rcases operands with _ | ⟨head, _ | ⟨a, _ | ⟨b, rest⟩⟩⟩
    case cons.cons.nil =>
      rcases bind_eq_error_iff.mp h with h | ⟨_, _, h⟩
      · exact .inr ⟨a, by simp, h⟩
      cases h
    all_goals
      cases h
      exact .inl ⟨_, by simp [objection?, countObjection?], rfl⟩
  | sequence =>
    rcases operands with _ | ⟨head, _ | ⟨⟨type | inner, value⟩, elements⟩⟩
    case cons.cons.atom =>
      rcases bind_eq_error_iff.mp h with h | ⟨_, _, h⟩
      · obtain ⟨operand, hmem, hoperand⟩ := Operand.exists_of_values_error h
        exact .inr ⟨operand, by simp [hmem], hoperand⟩
      cases h
    all_goals
      cases h
      exact .inl ⟨_, by simp [objection?, Form.word?], rfl⟩
  | refused reason =>
    cases h
    exact .inl ⟨_, rfl, rfl⟩

/-- Without a rule a node fails for want of a callee, or as one of its children. -/
theorem application_error_cases {operands : List Operand} {e : Error}
    (h : application operands = .error e) :
    (operands = [] ∧ e = .missing "()" .callee) ∨
      ∃ operand ∈ operands, operand.value = .error e := by
  cases operands with
  | nil =>
    cases h
    exact .inl ⟨rfl, rfl⟩
  | cons callee arguments =>
    rcases bind_eq_error_iff.mp h with h | ⟨_, _, h⟩
    · exact .inr ⟨callee, List.mem_cons_self, h⟩
    rcases bind_eq_error_iff.mp h with h | ⟨_, _, h⟩
    · obtain ⟨operand, hmem, hoperand⟩ := Operand.exists_of_values_error h
      exact .inr ⟨operand, List.mem_cons_of_mem _ hmem, hoperand⟩
    cases h

/-! ## Lowering -/

theorem map_form_operandsAt (table : Table) (scope : Scope) (depth : Nat) (children : List Form) :
    (operandsAt table scope depth children).map (·.form) = children := by
  rw [operandsAt_eq_map, List.map_map]
  exact List.map_id children

theorem exists_child_of_operand {table : Table} {scope : Scope} {depth : Nat}
    {children : List Form} {operand : Operand}
    (h : operand ∈ operandsAt table scope depth children) :
    ∃ child ∈ children, operand.value = lowerAt table scope depth child := by
  rw [operandsAt_eq_map, List.mem_map] at h
  obtain ⟨child, hchild, rfl⟩ := h
  exact ⟨child, hchild, rfl⟩

/-- A node that is not lowered offends itself, or one of its children is not lowered. -/
theorem lowerAt_node_error_cases {table : Table} {scope : Scope} {depth : Nat}
    {children : List Form} {e : Error}
    (h : lowerAt table scope depth (.node children) = .error e) :
    (Site.mk (depth + 1) children).offence? table = some e ∨
      ∃ child ∈ children, lowerAt table scope (depth + 1) child = .error e := by
  have hinside : (∃ operand ∈ operandsAt table scope (depth + 1) children,
      operand.value = .error e) →
        ∃ child ∈ children, lowerAt table scope (depth + 1) child = .error e := by
    rintro ⟨operand, hoperand, hvalue⟩
    obtain ⟨child, hchild, hlower⟩ := exists_child_of_operand hoperand
    exact ⟨child, hchild, hlower.symm.trans hvalue⟩
  rw [lowerAt] at h
  split at h
  · rename_i hdepth
    rw [Site.offence?, if_neg (Nat.not_lt.mpr hdepth)]
    split at h
    · rename_i rule hrule
      rcases Rule.apply_error_cases h with ⟨refusal, hobjection, rfl⟩ | hoperand
      · rw [map_form_operandsAt] at hobjection
        rw [Operand.label, map_form_operandsAt]
        exact .inl (by simp [hrule, hobjection])
      · exact .inr (hinside hoperand)
    · rename_i hrule
      rcases application_error_cases h with ⟨hnil, rfl⟩ | hoperand
      · have hchildren := congrArg (List.map (·.form)) hnil
        rw [map_form_operandsAt, List.map_nil] at hchildren
        rw [hrule]
        exact .inl (if_pos hchildren)
      · exact .inr (hinside hoperand)
  · rename_i hdepth
    cases h
    rw [Site.offence?, if_pos (Nat.lt_succ_of_le (Nat.not_lt.mp hdepth))]
    exact .inl rfl

/-- **Every failure of lowering is the offence of a node inside the form.**  A rule bound to the
empty label may pass over nodes, so in general this is not the first that offends. -/
theorem offence_of_lowerAt {table : Table} {scope : Scope} {depth : Nat} {form : Form} {e : Error}
    (h : lowerAt table scope depth form = .error e) :
    ∃ site ∈ form.sitesAt (depth + 1), site.offence? table = some e := by
  induction form generalizing depth with
  | atom text =>
    rw [lowerAt] at h
    cases h
  | node children ih =>
    rw [Form.sitesAt]
    rcases lowerAt_node_error_cases h with hoffence | ⟨child, hchild, herror⟩
    · exact ⟨_, List.mem_cons_self, hoffence⟩
    · obtain ⟨site, hsite, hoffence⟩ := ih child hchild herror
      exact ⟨site, List.mem_cons_of_mem _ (Form.mem_sitesAllAt.mpr ⟨child, hchild, hsite⟩),
        hoffence⟩

/-! ## What a definition lacks -/

/-- What the forms of a block lack. -/
inductive BlockLacks (clauses : List Form) : MissingPart → Prop where
  | parameters : (∀ form ∈ clauses, form.label ≠ "args") → BlockLacks clauses .parameters
  | wellFormedParameter {clause form : Form} : IsFirst "args" clause clauses →
      form ∈ clause.children.tail → (∀ param, ¬ IsParam form param) →
      BlockLacks clauses (.wellFormedParameter form.pretty)
  | returnType : (∀ form ∈ clauses, form.label ≠ "returns") → BlockLacks clauses .returnType
  | wellFormedReturnType {clause : Form} : IsFirst "returns" clause clauses →
      (∀ head type, clause.children ≠ [head, .atom type]) →
      BlockLacks clauses .wellFormedReturnType
  | body : (∀ form ∈ clauses, ¬ IsBody form) → BlockLacks clauses .body
  | wellFormedCondition {clause : Form} : clause ∈ clauses → clause.label ∈ conditionLabels →
      (∀ head condition, clause.children ≠ [head, condition]) →
      BlockLacks clauses (.wellFormedCondition clause.label)

/-- What a definition with these children lacks. -/
inductive Lacks (children : List Form) : MissingPart → Prop where
  | block : (∀ form ∈ children, form.label ≠ "begin") → Lacks children .block
  | inBlock {block : Form} {part : MissingPart} : IsFirst "begin" block children →
      BlockLacks block.children.tail part → Lacks children part

/-- The errors that a definition with these children deserves: it has no name, it lacks a part, or
something inside it cannot be lowered. -/
inductive Blames (table : Table) (children : List Form) : Error → Prop where
  | unnamed : (∀ name, NamedBy children name → name = "") →
      Blames table children (.missing definitionLabel .functionName)
  | lacking {name : String} {part : MissingPart} : NamedBy children name → name ≠ "" →
      Lacks children part → Blames table children (.missing (Outline.formName name) part)
  | lowering {scope : Scope} {form : Form} {e : Error} : (Form.node children).Within form →
      lower table scope form = .error e → Blames table children e

theorem firstLabelled_eq_none_iff {label : String} {forms : List Form} :
    Outline.firstLabelled label forms = none ↔ ∀ form ∈ forms, form.label ≠ label := by
  simp [Outline.firstLabelled]

theorem param_error {name : String} {form : Form} {e : Error}
    (h : Outline.param name form = .error e) :
    (∀ param, ¬ IsParam form param) ∧
      e = .missing (Outline.formName name) (.wellFormedParameter form.pretty) := by
  constructor
  · intro param hparam
    rw [← @param_eq_ok_iff name, h] at hparam
    cases hparam
  · unfold Outline.param at h
    split at h
    · cases h
    · cases h
      rfl

namespace Outline

variable {name : String} {clauses : List Form} {e : Error}

theorem blockLacks_of_params? (h : params? name clauses = .error e) :
    ∃ part, BlockLacks clauses part ∧ e = .missing (formName name) part := by
  unfold params? at h
  split at h
  · rename_i hnone
    cases h
    exact ⟨_, .parameters (firstLabelled_eq_none_iff.mp hnone), rfl⟩
  · rename_i clause hclause
    rw [paramsOf_eq_mapM, mapM_eq_error_iff] at h
    obtain ⟨before, form, after, hforms, -, hform⟩ := h
    obtain ⟨hparam, rfl⟩ := param_error hform
    have hmem : form ∈ clause.children.tail := by simp [hforms]
    exact ⟨_, .wellFormedParameter (firstLabelled_eq_some_iff.mp hclause) hmem hparam, rfl⟩

theorem blockLacks_of_returnType? (h : returnType? name clauses = .error e) :
    ∃ part, BlockLacks clauses part ∧ e = .missing (formName name) part := by
  unfold returnType? at h
  split at h
  · rename_i hnone
    cases h
    exact ⟨_, .returnType (firstLabelled_eq_none_iff.mp hnone), rfl⟩
  · rename_i clause hclause
    split at h
    · cases h
    · rename_i hshape
      cases h
      exact ⟨_, .wellFormedReturnType (firstLabelled_eq_some_iff.mp hclause) hshape, rfl⟩

theorem blockLacks_of_ofClauses (h : ofClauses name clauses = .error e) :
    ∃ part, BlockLacks clauses part ∧ e = .missing (formName name) part := by
  rw [ofClauses] at h
  rcases bind_eq_error_iff.mp h with h | ⟨_, _, h⟩
  · exact blockLacks_of_params? h
  rcases bind_eq_error_iff.mp h with h | ⟨_, _, h⟩
  · exact blockLacks_of_returnType? h
  split at h
  · rename_i hnone
    cases h
    refine ⟨_, .body fun form hform hbody => ?_, rfl⟩
    have hmem := mem_bodyForms.mpr ⟨hform, hbody⟩
    rw [List.getLast?_eq_none_iff.mp hnone] at hmem
    cases hmem
  · cases h

theorem blames_of_ofChildren (table : Table) {children : List Form}
    (h : ofChildren children = .error e) : Blames table children e := by
  unfold ofChildren at h
  split at h
  · rename_i hname
    cases h
    refine .unnamed fun name hnamed => ?_
    by_contra hne
    exact hne ((functionName_eq_iff hne).mpr hnamed ▸ hname)
  · rename_i hname
    have hnamed := (functionName_eq_iff hname).mp rfl
    split at h
    · rename_i hnone
      cases h
      exact .lacking hnamed hname (.block (firstLabelled_eq_none_iff.mp hnone))
    · rename_i block hblock
      obtain ⟨part, hlacks, rfl⟩ := blockLacks_of_ofClauses h
      exact .lacking hnamed hname (.inBlock (firstLabelled_eq_some_iff.mp hblock) hlacks)

/-! ## Failures of outlines -/

theorem discard_error {table : Table} {scope : Scope} {forms : List Form}
    (h : (discard table scope name forms).result = .error e) :
    ∃ form ∈ forms, lower table scope form = .error e := by
  induction forms with
  | nil => cases h
  | cons form rest ih =>
    rw [discard, Trace.result_bind] at h
    rcases bind_eq_error_iff.mp h with h | ⟨_, _, h⟩
    · exact ⟨form, List.mem_cons_self, h⟩
    rw [Trace.result_bind] at h
    rcases bind_eq_error_iff.mp h with h | ⟨_, _, h⟩
    · cases h
    obtain ⟨later, hlater, herror⟩ := ih h
    exact ⟨later, List.mem_cons_of_mem _ hlater, herror⟩

/-- The conditions of one kind fail where a clause is malformed or its condition is not lowered. -/
theorem conditions_error {table : Table} {scope : Scope} {label : String}
    (h : conditions table scope name label clauses = .error e) :
    ∃ clause ∈ clauses, (∃ condition ∈ clause.children, lower table scope condition = .error e) ∨
      ((∀ head condition, clause.children ≠ [head, condition]) ∧
        e = .missing (formName name) (.wellFormedCondition label)) := by
  rw [conditions_eq_mapM, mapM_eq_error_iff] at h
  obtain ⟨before, clause, after, rfl, -, h⟩ := h
  refine ⟨clause, by simp, ?_⟩
  unfold conditionOf at h
  split at h
  · rename_i head condition hchildren
    exact .inl ⟨condition, by simp [hchildren], h⟩
  · rename_i hshape
    cases h
    exact .inr ⟨hshape, rfl⟩

/-- How compiling an outline fails: a form of the body is not lowered, or a kind of conditions
fails. -/
theorem compile_error {outline : Outline} {table : Table}
    (h : (outline.compile table).result = .error e) :
    ∃ scope, (∃ form ∈ outline.discarded ++ [outline.result], lower table scope form = .error e) ∨
      conditions table scope outline.name "requires" outline.requires = .error e ∨
      conditions table scope outline.name "preserves" outline.preserves = .error e ∨
      conditions table scope outline.name "ensures" outline.ensures = .error e := by
  refine ⟨Scope.ofParams outline.params, ?_⟩
  rw [Outline.compile, Trace.result_bind] at h
  rcases bind_eq_error_iff.mp h with h | ⟨_, _, h⟩
  · obtain ⟨form, hform, herror⟩ := discard_error h
    exact .inl ⟨form, List.mem_append_left _ hform, herror⟩
  rw [Trace.result_bind] at h
  rcases bind_eq_error_iff.mp h with h | ⟨_, _, h⟩
  · rw [Trace.result_ofExcept, contract] at h
    rcases bind_eq_error_iff.mp h with h | ⟨_, _, h⟩
    · exact .inl ⟨outline.result, by simp, h⟩
    rcases bind_eq_error_iff.mp h with h | ⟨_, _, h⟩
    · exact .inr (.inl h)
    rcases bind_eq_error_iff.mp h with h | ⟨_, _, h⟩
    · exact .inr (.inr (.inl h))
    rcases bind_eq_error_iff.mp h with h | ⟨_, _, h⟩
    · exact .inr (.inr (.inr h))
    cases h
  cases h

end Outline

/-! ## Failures of definitions -/

theorem blames_of_conditions {table : Table} {scope : Scope} {children : List Form} {block : Form}
    {name label : String} {e : Error} (hnamed : NamedBy children name) (hname : name ≠ "")
    (hblock : IsFirst "begin" block children) (hlabel : label ∈ conditionLabels)
    (h : Outline.conditions table scope name label
      (Outline.allLabelled label block.children.tail) = .error e) : Blames table children e := by
  obtain ⟨clause, hclause, hcause⟩ := Outline.conditions_error h
  obtain ⟨hmem, hclauseLabel⟩ := List.mem_filter.mp hclause
  obtain rfl : clause.label = label := by simpa using hclauseLabel
  rcases hcause with ⟨condition, hcondition, herror⟩ | ⟨hshape, rfl⟩
  · have hwithin : (Form.node children).Within clause :=
      (Form.Within.self.child hblock.mem).child (List.mem_of_mem_tail hmem)
    exact .lowering (hwithin.child hcondition) herror
  · exact .lacking hnamed hname (.inBlock hblock (.wellFormedCondition hmem hlabel hshape))

/-- **A form fails only if it is a definition, and then with an error that it deserves.** -/
theorem blames_of_compileForm {table : Table} {form : Form} {e : Error}
    (h : (compileForm table form).result = .error e) :
    ∃ children, form = .node children ∧ Blames table children e := by
  have hlabel := label_of_compileForm_error h
  cases form with
  | atom text => simp [definitionLabel] at hlabel
  | node children =>
    refine ⟨children, rfl, ?_⟩
    rw [compileForm, if_pos hlabel, Trace.result_bind, Trace.result_ofExcept] at h
    rcases bind_eq_error_iff.mp h with h | ⟨outline, houtline, h⟩
    · exact Outline.blames_of_ofChildren table h
    obtain ⟨hnamed, hname, block, hblock, hrecords⟩ := Outline.ofChildren_eq_ok_iff.mp houtline
    obtain ⟨scope, ⟨form, hform, herror⟩ | hrequires | hpreserves | hensures⟩ :=
      Outline.compile_error h
    · rw [← hrecords.body, mem_bodyForms] at hform
      have hwithin : (Form.node children).Within block := Form.Within.self.child hblock.mem
      exact .lowering (hwithin.child (List.mem_of_mem_tail hform.1)) herror
    · rw [hrecords.requires] at hrequires
      exact blames_of_conditions hnamed hname hblock (by decide) hrequires
    · rw [hrecords.preserves] at hpreserves
      exact blames_of_conditions hnamed hname hblock (by decide) hpreserves
    · rw [hrecords.ensures] at hensures
      exact blames_of_conditions hnamed hname hblock (by decide) hensures

end PureContracts
