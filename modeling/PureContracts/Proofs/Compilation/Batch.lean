import PureContracts.Proofs.Definition.Acceptance

/-!
# All definitions or none

The forms of a source are compiled in one run, and each form answers for itself: a definition with
its one function or with an error, any other form with nothing.  So the result for a whole batch is
known from the results for its definitions.

Principal results
* `result_compileForms` — a batch is compiled form by form;
* `compileForms_eq_error_iff` — a batch fails exactly as its first definition that fails;
* `one_function_per_definition` — a batch compiles to one function for each definition, in order,
  and what stands between the definitions does not matter.
-/

namespace PureContracts

section

variable {table : Table}

/-! ## Single forms -/

/-- A form that is no definition adds nothing, and it cannot fail. -/
theorem result_compileForm_of_ne {form : Form} (h : form.label ≠ definitionLabel) :
    (compileForm table form).result = .ok [] := by
  rw [compileForm, if_neg h]
  rfl

theorem label_of_compileForm_error {form : Form} {e : Error}
    (h : (compileForm table form).result = .error e) : form.label = definitionLabel := by
  by_contra hlabel
  rw [result_compileForm_of_ne hlabel] at h
  cases h

/-- A definition that compiles gives one function, under the name of the definition. -/
theorem exists_function_of_compileForm {form : Form} {functions : List PureFunction}
    (hlabel : form.label = definitionLabel)
    (h : (compileForm table form).result = .ok functions) :
    ∃ function, functions = [function] ∧ NamedBy form.children function.name := by
  cases form with
  | atom text => simp [definitionLabel] at hlabel
  | node children =>
    obtain ⟨function, hfunctions, hdescribes⟩ :=
      (compileForm_eq_ok_iff_describes table hlabel functions).mp h
    exact ⟨function, hfunctions, hdescribes.name⟩

/-! ## Batches -/

theorem result_compileForms_cons (form : Form) (rest : List Form) :
    (compileForms table (form :: rest)).result =
      (compileForm table form).result >>= fun first =>
        (compileForms table rest).result.map (first ++ ·) := by
  rw [compileForms, Trace.result_bind]
  congr 1
  funext first
  rw [Trace.result_bind]
  cases (compileForms table rest).result <;> rfl

/-- **A batch is compiled form by form.** -/
theorem result_compileForms (forms : List Form) :
    (compileForms table forms).result =
      (forms.mapM fun form => (compileForm table form).result).map List.flatten := by
  induction forms with
  | nil => rfl
  | cons form rest ih =>
    rw [result_compileForms_cons, ih, List.mapM_cons]
    cases (compileForm table form).result with
    | error e => rfl
    | ok functions =>
      cases rest.mapM fun form => (compileForm table form).result <;> rfl

/-- **A batch fails exactly as its first form that fails.** -/
theorem compileForms_eq_error_iff {forms : List Form} {e : Error} :
    (compileForms table forms).result = .error e ↔
      ∃ before form after, forms = before ++ form :: after ∧
        (∀ earlier ∈ before, ∃ functions, (compileForm table earlier).result = .ok functions) ∧
        (compileForm table form).result = .error e := by
  rw [← mapM_eq_error_iff, result_compileForms]
  cases forms.mapM fun form => (compileForm table form).result with
  | error e => simp [Except.map]
  | ok functions => simp [Except.map]

/-- Forms that are no definitions may be left out. -/
theorem result_compileForms_allLabelled (forms : List Form) :
    (compileForms table (Outline.allLabelled definitionLabel forms)).result =
      (compileForms table forms).result := by
  induction forms with
  | nil => rfl
  | cons form rest ih =>
    rw [Outline.allLabelled] at ih ⊢
    by_cases hlabel : form.label = definitionLabel
    · rw [List.filter_cons_of_pos (by simpa using hlabel), result_compileForms_cons,
        result_compileForms_cons, ih]
    · rw [List.filter_cons_of_neg (by simpa using hlabel), result_compileForms_cons,
        result_compileForm_of_ne hlabel, ih]
      cases (compileForms table rest).result <;> rfl

/-- A batch of definitions compiles to one function for each. -/
theorem compileForms_eq_ok_iff {definitions : List Form}
    (hlabel : ∀ form ∈ definitions, form.label = definitionLabel)
    (functions : List PureFunction) :
    (compileForms table definitions).result = .ok functions ↔
      List.Forall₂ (fun form function => (compileForm table form).result = .ok [function] ∧
        NamedBy form.children function.name) definitions functions := by
  induction definitions generalizing functions with
  | nil => simp [compileForms, eq_comm]
  | cons form rest ih =>
    rw [List.forall_mem_cons] at hlabel
    rw [result_compileForms_cons, bind_eq_ok_iff, List.forall₂_cons_left_iff]
    constructor
    · rintro ⟨first, hfirst, h⟩
      obtain ⟨function, rfl, hname⟩ := exists_function_of_compileForm hlabel.1 hfirst
      cases hrest : (compileForms table rest).result with
      | error e =>
        rw [hrest] at h
        cases h
      | ok others =>
        rw [hrest] at h
        cases h
        exact ⟨function, others, ⟨hfirst, hname⟩, (ih hlabel.2 others).mp hrest, rfl⟩
    · rintro ⟨function, others, ⟨hfirst, -⟩, hothers, rfl⟩
      refine ⟨[function], hfirst, ?_⟩
      rw [(ih hlabel.2 others).mpr hothers]
      rfl

end

/-- **A batch compiles to one function for each definition, in order and under the name of the
definition, or it fails as the first definition that fails.**  What stands between the definitions
does not matter, and no auxiliary function is ever added. -/
theorem one_function_per_definition (table : Table) (forms : List Form) :
    (compileForms table forms).result =
      (compileForms table (forms.filter fun form => form.label == "define")).result ∧
    (∀ functions, (compileForms table forms).result = .ok functions ↔
      List.Forall₂ (fun form function => (compileForm table form).result = .ok [function] ∧
        NamedBy form.children function.name)
        (forms.filter fun form => form.label == "define") functions) ∧
    (∀ e, (compileForms table forms).result = .error e ↔
      ∃ before form after, forms = before ++ form :: after ∧ form.label = "define" ∧
        (∀ earlier ∈ before, earlier.label = "define" →
          ∃ functions, (compileForm table earlier).result = .ok functions) ∧
        (compileForm table form).result = .error e) ∧
    ∀ scope form lowered, lower table scope form = .ok lowered → lowered.auxiliary = [] := by
  have hfilter := @result_compileForms_allLabelled table forms
  refine ⟨hfilter.symm, ?_, ?_, fun scope form lowered h => lowerAt_auxiliary_eq_nil h⟩
  · intro functions
    rw [← hfilter]
    apply compileForms_eq_ok_iff
    intro form hform
    simpa using List.of_mem_filter hform
  · intro e
    rw [compileForms_eq_error_iff]
    constructor
    · rintro ⟨before, form, after, hforms, hbefore, hform⟩
      exact ⟨before, form, after, hforms, label_of_compileForm_error hform,
        fun earlier hearlier _ => hbefore earlier hearlier, hform⟩
    · rintro ⟨before, form, after, hforms, -, hbefore, hform⟩
      refine ⟨before, form, after, hforms, fun earlier hearlier => ?_, hform⟩
      by_cases hlabel : earlier.label = definitionLabel
      · exact hbefore earlier hearlier hlabel
      · exact ⟨[], result_compileForm_of_ne hlabel⟩

/-! ## A batch of one -/

/-- A source with one definition. -/
def unitSource : String := "(define f(begin(args)(returns t)1))"

def unitForm : Form :=
  .node [.atom "define", .atom "f", .node [.atom "begin", .node [.atom "args"],
    .node [.atom "returns", .atom "t"], .atom "1"]]

def unitFunction : PureFunction := ⟨"f", [], "t", .literal "1", [], [], []⟩

theorem read_unitSource : Form.read unitSource = .ok [unitForm] := by
  with_unfolding_all rfl

theorem compileText_unitSource :
    (compileText .standard unitSource).result = .ok [unitFunction] := by
  rw [result_compileText, read_unitSource]
  rfl

end PureContracts
