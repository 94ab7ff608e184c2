import PureContracts.Proofs.Compilation.Batch

/-!
# What the log tells about a run

Events are reported at several places, and at each of them a failure may end the run.  Still the log
can be told from the source alone: how many tokens and forms there are, which forms are left out,
and how far each definition came.

* `Outlines` — a definition that passes the checks in front of its lowering.
* `Tells` — the events of one form, read off the form.
* `reached` — the forms up to the first that fails, and that one.
* `compiledNames`, `skips` — what the log says about definitions and other forms.

Principal results
* `tells_iff` — a form reports exactly the events that are told of it;
* `events_compileForms` — a batch reports the events of the forms that it reaches;
* `log_tells_the_run` — the log of a text, and what can be read off it.
-/

namespace PureContracts

/-! ## What is told of a form -/

/-- A definition whose name, block, parameters, return type and body are there and well formed, with
its name and the forms of its body. -/
structure Outlines (children : List Form) (name : String) (body : List Form) : Prop where
  namedBy : NamedBy children name
  name_ne : name ≠ ""
  block : ∃ block, IsFirst "begin" block children ∧
    (∃ clause, IsFirst "args" clause block.children.tail ∧
      ∀ form ∈ clause.children.tail, ∃ param type, form = .node [.atom param, .atom type]) ∧
    (∃ clause, IsFirst "returns" clause block.children.tail ∧
      ∃ head type, clause.children = [head, .atom type]) ∧
    Outline.bodyForms block.children.tail = body
  body_ne : body ≠ []

/-- A form that compiles. -/
def Compiles (table : Table) (form : Form) : Prop :=
  ∃ functions, (compileForm table form).result = .ok functions

theorem exists_eq_ok_iff {α : Type} {outcome : Except Error α} :
    (∃ value, outcome = .ok value) ↔ outcome.isOk = true := by
  cases outcome <;> simp [Except.isOk, Except.toBool]

instance (table : Table) (form : Form) : Decidable (Compiles table form) :=
  decidable_of_iff' _ exists_eq_ok_iff

theorem not_compiles_of_error {table : Table} {form : Form} {e : Error}
    (h : (compileForm table form).result = .error e) : ¬ Compiles table form := by
  rintro ⟨functions, hfunctions⟩
  rw [h] at hfunctions
  cases hfunctions

/-- Whether a form is lowered does not depend on the scope. -/
theorem lowers_iff {table : Table} {form : Form} (scope : Scope) :
    Lowers table form ↔ ∃ lowered, lower table scope form = .ok lowered := by
  constructor
  · exact fun h => h scope
  · rintro ⟨lowered, hlowered⟩
    obtain ⟨expr, hexpr, -⟩ := lower_eq_ok_iff.mp hlowered
    exact exists_lowersTo_iff.mp ⟨expr, hexpr⟩

instance (table : Table) (form : Form) : Decidable (Lowers table form) :=
  decidable_of_iff' _ ((lowers_iff .empty).trans exists_eq_ok_iff)

/-- The events of the forms in front of the result of a body: each one that is lowered is reported
as dropped, up to the first that is not. -/
def discardEvents (table : Table) (name : String) (forms : List Form) : List Event :=
  (forms.takeWhile fun form => decide (Lowers table form)).map fun form =>
    .discarded name form.pretty

/-- The events that are told of a form. -/
inductive Tells (table : Table) (form : Form) : List Event → Prop where
  /-- A form that is no definition is left out. -/
  | skipped : form.label ≠ "define" → Tells table form [.skipped form.label]
  /-- A definition that fails a check reports nothing. -/
  | refused : form.label = "define" → (∀ name body, ¬ Outlines form.children name body) →
      Tells table form []
  /-- A definition that fails later reports how far its body was lowered. -/
  | failed {name : String} {body : List Form} : form.label = "define" →
      Outlines form.children name body → ¬ Compiles table form →
      Tells table form (discardEvents table name body.dropLast)
  /-- A definition that compiles reports that too, and that no auxiliary function was found. -/
  | compiled {name : String} {body : List Form} : form.label = "define" →
      Outlines form.children name body → Compiles table form →
      Tells table form (discardEvents table name body.dropLast ++ [.compiled name 0])

/-- The checks of a definition are passed exactly when it has an outline. -/
theorem outlines_iff {children : List Form} {name : String} {body : List Form} :
    Outlines children name body ↔ ∃ outline, Outline.ofChildren children = .ok outline ∧
      outline.name = name ∧ body = outline.discarded ++ [outline.result] := by
  constructor
  · rintro ⟨hnamed, hname, ⟨block, hblock, ⟨args, hargs, hpairs⟩, ⟨returns, hreturns, head, type,
      htype⟩, hbody⟩, hne⟩
    obtain ⟨params, hparams⟩ : ∃ params, List.Forall₂ IsParam args.children.tail params := by
      rw [exists_forall₂_iff]
      intro form hform
      obtain ⟨param, paramType, rfl⟩ := hpairs form hform
      exact ⟨⟨param, Text.unquoted paramType⟩, paramType, rfl, rfl⟩
    have hlast : body.dropLast ++ [body.getLast hne] = body := List.dropLast_append_getLast hne
    refine ⟨⟨name, params, Text.unquoted type, body.dropLast, body.getLast hne, _, _, _⟩,
      Outline.ofChildren_eq_ok_iff.mpr ⟨hnamed, hname, block, hblock, ⟨args, hargs, hparams⟩,
        ⟨returns, hreturns, head, type, htype, rfl⟩, hbody.trans hlast.symm, rfl, rfl, rfl⟩,
      rfl, hlast.symm⟩
  · rintro ⟨outline, houtline, rfl, rfl⟩
    obtain ⟨hnamed, hname, block, hblock, hrecords⟩ := Outline.ofChildren_eq_ok_iff.mp houtline
    obtain ⟨args, hargs, hparams⟩ := hrecords.params
    obtain ⟨returns, hreturns, head, type, htype, -⟩ := hrecords.returnType
    refine ⟨hnamed, hname, ⟨block, hblock, ⟨args, hargs, ?_⟩, ⟨returns, hreturns, head, type,
      htype⟩, hrecords.body⟩, by simp⟩
    intro form hform
    obtain ⟨param, paramType, rfl, -⟩ := exists_forall₂_iff.mp ⟨_, hparams⟩ form hform
    exact ⟨param.name, paramType, rfl⟩

/-! ## What a form reports -/

theorem Outline.events_discard (table : Table) (scope : Scope) (name : String)
    (forms : List Form) :
    (discard table scope name forms).events = discardEvents table name forms := by
  induction forms with
  | nil => rfl
  | cons form rest ih =>
    rw [discard, discardEvents]
    cases hlower : lower table scope form with
    | ok lowered =>
      have hlowers : Lowers table form := (lowers_iff scope).mpr ⟨lowered, hlower⟩
      rw [Trace.events_bind_ok rfl, Trace.events_bind_ok rfl, ih,
        List.takeWhile_cons_of_pos (by simpa using hlowers)]
      rfl
    | error e =>
      have hrefused : ¬ Lowers table form := by
        rw [lowers_iff scope, hlower]
        rintro ⟨lowered, h⟩
        cases h
      rw [Trace.bind_error rfl, List.takeWhile_cons_of_neg (by simpa using hrefused)]
      rfl

/-- A definition with an outline reports the forms that it dropped, and that it compiled if it
did. -/
theorem Outline.events_compile (outline : Outline) (table : Table) :
    (outline.compile table).events = discardEvents table outline.name outline.discarded ++
      if (outline.compile table).result.isOk then [.compiled outline.name 0] else [] := by
  rw [Outline.compile]
  rw [← events_discard table (Scope.ofParams outline.params)]
  cases hdiscard : (discard table (Scope.ofParams outline.params) outline.name
      outline.discarded).result with
  | error e =>
    rw [Trace.bind_error hdiscard]
    exact (List.append_nil _).symm
  | ok value =>
    rw [Trace.events_bind_ok hdiscard, Trace.result_bind_ok hdiscard]
    cases hcontract : outline.contract table (Scope.ofParams outline.params) with
    | error e => rfl
    | ok contract =>
      obtain ⟨result, requires, preserves, ensures, -, -, -, -, rfl⟩ :=
        contract_eq_ok_iff.mp hcontract
      rw [Trace.events_bind_ok rfl, Trace.result_bind_ok rfl, Contract.auxiliary_plain]
      rfl

section

variable {table : Table} {form : Form}

theorem compileForm_of_outline {outline : Outline} (hlabel : form.label = definitionLabel)
    (houtline : Outline.ofChildren form.children = .ok outline) :
    compileForm table form = outline.compile table := by
  rw [compileForm, if_pos hlabel, houtline]
  rfl

theorem events_compileForm_of_ne (h : form.label ≠ definitionLabel) :
    (compileForm table form).events = [.skipped form.label] := by
  rw [compileForm, if_neg h]
  rfl

/-- A definition that fails a check reports nothing. -/
theorem events_compileForm_of_refused (hlabel : form.label = definitionLabel)
    (hrefused : ∀ name body, ¬ Outlines form.children name body) :
    (compileForm table form).events = [] := by
  cases houtline : Outline.ofChildren form.children with
  | error e =>
    rw [compileForm, if_pos hlabel, houtline, Trace.bind_error rfl]
    rfl
  | ok outline => exact absurd (outlines_iff.mpr ⟨outline, houtline, rfl, rfl⟩) (hrefused _ _)

/-- A definition that passes its checks reports how far its body was lowered, and that it compiled
if it did. -/
theorem events_compileForm_of_outlines {name : String} {body : List Form}
    (hlabel : form.label = definitionLabel) (h : Outlines form.children name body) :
    (compileForm table form).events = discardEvents table name body.dropLast ++
      if Compiles table form then [.compiled name 0] else [] := by
  obtain ⟨outline, houtline, rfl, rfl⟩ := outlines_iff.mp h
  have hcompiles : Compiles table form ↔ (outline.compile table).result.isOk = true := by
    rw [Compiles, exists_eq_ok_iff, compileForm_of_outline hlabel houtline]
  rw [compileForm_of_outline hlabel houtline, Outline.events_compile, List.dropLast_concat]
  simp only [hcompiles]

/-- Something is told of every form. -/
theorem exists_tells (table : Table) (form : Form) : ∃ events, Tells table form events := by
  by_cases hlabel : form.label = "define"
  · by_cases houtlines : ∃ name body, Outlines form.children name body
    · obtain ⟨name, body, houtlines⟩ := houtlines
      by_cases hcompiles : Compiles table form
      · exact ⟨_, .compiled hlabel houtlines hcompiles⟩
      · exact ⟨_, .failed hlabel houtlines hcompiles⟩
    · exact ⟨_, .refused hlabel fun name body h => houtlines ⟨name, body, h⟩⟩
  · exact ⟨_, .skipped hlabel⟩

/-- Nothing is told of a form but what it reports. -/
theorem Tells.events_eq {events : List Event} (h : Tells table form events) :
    (compileForm table form).events = events := by
  cases h with
  | skipped hlabel => exact events_compileForm_of_ne hlabel
  | refused hlabel hrefused => exact events_compileForm_of_refused hlabel hrefused
  | failed hlabel houtlines hfailed =>
    rw [events_compileForm_of_outlines hlabel houtlines, if_neg hfailed, List.append_nil]
  | compiled hlabel houtlines hcompiles =>
    rw [events_compileForm_of_outlines hlabel houtlines, if_pos hcompiles]

/-- **A form reports exactly the events that are told of it.** -/
theorem tells_iff {events : List Event} :
    Tells table form events ↔ (compileForm table form).events = events := by
  constructor
  · exact Tells.events_eq
  · rintro rfl
    obtain ⟨events, htells⟩ := exists_tells table form
    rwa [htells.events_eq]

end

/-! ## What a batch reports -/

section

variable {table : Table}

/-- The forms up to the first that fails, and that one. -/
def reached (table : Table) (forms : List Form) : List Form :=
  forms.takeWhile (fun form => decide (Compiles table form)) ++
    (forms.dropWhile fun form => decide (Compiles table form)).take 1

theorem reached_cons_of_compiles {form : Form} (h : Compiles table form) (rest : List Form) :
    reached table (form :: rest) = form :: reached table rest := by
  simp [reached, h]

theorem reached_cons_of_fails {form : Form} (h : ¬ Compiles table form) (rest : List Form) :
    reached table (form :: rest) = [form] := by
  simp [reached, h]

theorem reached_append {before : List Form} (h : ∀ form ∈ before, Compiles table form)
    (rest : List Form) : reached table (before ++ rest) = before ++ reached table rest := by
  induction before with
  | nil => rfl
  | cons form before ih =>
    obtain ⟨hform, hbefore⟩ := List.forall_mem_cons.mp h
    rw [List.cons_append, reached_cons_of_compiles hform, ih hbefore, List.cons_append]

/-- **A batch reports the events of the forms that it reaches.** -/
theorem events_compileForms (forms : List Form) :
    (compileForms table forms).events =
      (reached table forms).flatMap fun form => (compileForm table form).events := by
  induction forms with
  | nil => rfl
  | cons form rest ih =>
    rw [compileForms]
    cases hform : (compileForm table form).result with
    | error e =>
      rw [Trace.bind_error hform, reached_cons_of_fails (not_compiles_of_error hform),
        List.flatMap_singleton]
    | ok first =>
      rw [Trace.events_bind_ok hform, reached_cons_of_compiles ⟨first, hform⟩, List.flatMap_cons,
        ← ih]
      cases hrest : (compileForms table rest).result with
      | error e => rw [Trace.bind_error hrest]
      | ok others => rw [Trace.events_bind_ok hrest, Trace.events_pure, List.append_nil]

/-! ## What can be read off the log -/

/-- The function that an event reports as compiled. -/
def Event.compiledName? : Event → Option String
  | .compiled function _ => some function
  | _ => none

/-- Whether an event reports a form that was left out. -/
def Event.isSkip : Event → Bool
  | .skipped _ => true
  | _ => false

/-- The functions that a log reports as compiled, in order. -/
def compiledNames (events : List Event) : List String := events.filterMap Event.compiledName?

/-- How many forms a log reports as left out. -/
def skips (events : List Event) : Nat := events.countP Event.isSkip

@[simp] theorem compiledNames_append (events others : List Event) :
    compiledNames (events ++ others) = compiledNames events ++ compiledNames others :=
  List.filterMap_append

@[simp] theorem skips_append (events others : List Event) :
    skips (events ++ others) = skips events + skips others :=
  List.countP_append

@[simp] theorem compiledNames_discardEvents (name : String) (forms : List Form) :
    compiledNames (discardEvents table name forms) = [] := by
  simp [compiledNames, discardEvents, Event.compiledName?]

@[simp] theorem skips_discardEvents (name : String) (forms : List Form) :
    skips (discardEvents table name forms) = 0 := by
  simp [skips, discardEvents, Event.isSkip]

/-- A form that compiles reports its functions, and one that has none is reported as left out. -/
theorem log_of_compileForm {form : Form} {functions : List PureFunction}
    (h : (compileForm table form).result = .ok functions) :
    compiledNames (compileForm table form).events = functions.map (·.name) ∧
      skips (compileForm table form).events + functions.length = 1 := by
  by_cases hlabel : form.label = definitionLabel
  · cases houtline : Outline.ofChildren form.children with
    | error e =>
      rw [compileForm, if_pos hlabel, houtline] at h
      cases h
    | ok outline =>
      have houtlines := outlines_iff.mpr ⟨outline, houtline, rfl, rfl⟩
      have hcompiles : Compiles table form := ⟨functions, h⟩
      rw [events_compileForm_of_outlines hlabel houtlines, if_pos hcompiles]
      rw [compileForm_of_outline hlabel houtline] at h
      obtain ⟨function, rfl, hmakes⟩ := Outline.compile_eq_ok_iff.mp h
      rw [compiledNames_append, compiledNames_discardEvents, skips_append, skips_discardEvents,
        List.map_singleton, hmakes.name]
      exact ⟨rfl, rfl⟩
  · rw [result_compileForm_of_ne hlabel] at h
    cases h
    rw [events_compileForm_of_ne hlabel]
    exact ⟨rfl, rfl⟩

/-- A form that fails reports no function. -/
theorem compiledNames_of_fails {form : Form} (h : ¬ Compiles table form) :
    compiledNames (compileForm table form).events = [] := by
  obtain ⟨events, htells⟩ := exists_tells table form
  rw [htells.events_eq]
  cases htells with
  | skipped _ => rfl
  | refused _ _ => rfl
  | failed _ _ _ => exact compiledNames_discardEvents ..
  | compiled _ _ hcompiles => exact absurd hcompiles h

/-- A batch that compiles reports its functions in order, and every other form as left out. -/
theorem log_of_compileForms {forms : List Form} {functions : List PureFunction}
    (h : (compileForms table forms).result = .ok functions) :
    compiledNames (compileForms table forms).events = functions.map (·.name) ∧
      skips (compileForms table forms).events + functions.length = forms.length := by
  induction forms generalizing functions with
  | nil =>
    cases h
    exact ⟨rfl, rfl⟩
  | cons form rest ih =>
    rw [result_compileForms_cons, bind_eq_ok_iff] at h
    obtain ⟨first, hfirst, h⟩ := h
    obtain ⟨others, hothers, rfl⟩ := map_eq_ok_iff.mp h
    obtain ⟨hnames, hskips⟩ := log_of_compileForm hfirst
    obtain ⟨hothernames, hotherskips⟩ := ih hothers
    rw [events_compileForms, reached_cons_of_compiles ⟨first, hfirst⟩, List.flatMap_cons,
      ← events_compileForms]
    constructor
    · rw [compiledNames_append, hnames, hothernames, List.map_append]
    · rw [skips_append, List.length_append, List.length_cons]
      omega

/-- A batch that fails reports the functions of the forms in front of the one that fails. -/
theorem compiledNames_of_failure {before : List Form} {form : Form}
    (hbefore : ∀ earlier ∈ before, Compiles table earlier) (hform : ¬ Compiles table form)
    (after : List Form) :
    ∃ functions, (compileForms table before).result = .ok functions ∧
      compiledNames (compileForms table (before ++ form :: after)).events =
        functions.map (·.name) := by
  cases hresult : (compileForms table before).result with
  | error e =>
    obtain ⟨_, culprit, _, rfl, -, hculprit⟩ := compileForms_eq_error_iff.mp hresult
    exact absurd (hbefore culprit (by simp)) (not_compiles_of_error hculprit)
  | ok functions =>
    refine ⟨functions, rfl, ?_⟩
    have hreached : reached table before = before := by
      simpa [reached] using reached_append hbefore []
    rw [events_compileForms, reached_append hbefore, reached_cons_of_fails hform,
      List.flatMap_append, List.flatMap_singleton, compiledNames_append,
      compiledNames_of_fails hform, List.append_nil, ← (log_of_compileForms hresult).1,
      events_compileForms, hreached]

/-- The functions of a batch have the names of its definitions. -/
theorem forall₂_namedBy {forms : List Form} {functions : List PureFunction}
    (h : (compileForms table forms).result = .ok functions) :
    List.Forall₂ (fun form name => NamedBy form.children name)
      (Outline.allLabelled definitionLabel forms) (functions.map (·.name)) := by
  rw [← result_compileForms_allLabelled, compileForms_eq_ok_iff] at h
  · exact List.forall₂_map_right_iff.mpr (h.imp fun _ _ hfunction => hfunction.2)
  · intro form hform
    simpa using List.of_mem_filter hform

end

/-! ## What a text reports -/

theorem events_compileText_of_error (table : Table) {text : String} {e : Error}
    (h : Form.read text = .error e) :
    (compileText table text).events = [.scanned (Source.tokens text).length] := by
  have hread : (readText text).result = .error e := (result_readText text).trans h
  rw [compileText, Trace.bind_error hread, readText, Trace.events_bind_ok rfl, Trace.bind_error h]
  rfl

theorem events_compileText_of_ok (table : Table) {text : String} {forms : List Form}
    (h : Form.read text = .ok forms) :
    (compileText table text).events =
      .scanned (Source.tokens text).length :: .read forms.length ::
        (compileForms table forms).events := by
  have hread : (readText text).result = .ok forms := (result_readText text).trans h
  rw [compileText, Trace.events_bind_ok hread, readText, Trace.events_bind_ok rfl,
    Trace.events_bind_ok h]
  rfl

/-- A word, a definition with a form in front of its result, and a definition without a block. -/
def mixedForms : List Form :=
  [.atom "x",
    .node [.atom "define", .node [.atom "f"],
      .node [.atom "begin", .node [.atom "args"], .node [.atom "returns", .atom "t"], .atom "y",
        .atom "1"]],
    .node [.atom "define", .atom "g"]]

end PureContracts
