import PureContracts.Compilation
import PureContracts.Proofs.Lowering.Inversion

/-!
# Which definitions are accepted, and what they become

A definition is compiled by a chain of look-ups, filters and runs of the lowering, each of which may
end the compilation.  Here the same is said without any order: what has to stand where in the
definition, and which function then comes out.

* `Acceptable` — the conditions on a definition, read off its children.
* `Describes` — the function that a definition stands for, field by field.

Principal results
* `Outline.ofChildren_eq_ok_iff` — what an outline records;
* `Outline.compile_eq_ok_iff` — when an outline compiles, and to what;
* `definition_compiles_iff_acceptable` — a definition compiles exactly when it is acceptable, and
  then to the one function that it describes.

Clauses and body forms may stand in any order, and only the first `args` and the first `returns`
clause count.
-/

namespace PureContracts

/-! ## Definitions as they are written -/

/-- The first of some forms with a label. -/
def IsFirst (label : String) (form : Form) (forms : List Form) : Prop :=
  ∃ before after, forms = before ++ form :: after ∧ form.label = label ∧
    ∀ earlier ∈ before, earlier.label ≠ label

/-- A form of a block that is no clause. -/
def IsBody (form : Form) : Prop := form.label ∉ clauseLabels

/-- The last of some forms that is no clause. -/
def IsLastBody (form : Form) (forms : List Form) : Prop :=
  ∃ before after, forms = before ++ form :: after ∧ IsBody form ∧ ∀ later ∈ after, ¬ IsBody later

/-- The second child gives the name: as a word, or as the label of a node. -/
def NamedBy (children : List Form) (name : String) : Prop :=
  children[1]? = some (.atom name) ∨
    ∃ inner, children[1]? = some (.node inner) ∧ Form.headWord inner = name

/-- A form that is lowered, in whatever scope. -/
def Lowers (table : Table) (form : Form) : Prop :=
  ∀ scope, ∃ lowered, lower table scope form = .ok lowered

/-- A form and what it is lowered to, in whatever scope, without any auxiliary function. -/
def LowersTo (table : Table) (form : Form) (expr : Expr) : Prop :=
  ∀ scope, lower table scope form = .ok ⟨[], expr⟩

/-- A parameter is written as a node of its name and its type, the type in quotes or not. -/
def IsParam (form : Form) (param : Param) : Prop :=
  ∃ type, form = .node [.atom param.name, .atom type] ∧ param.type = Text.unquoted type

/-- A condition is written behind the label of its clause. -/
def IsCondition (table : Table) (clause : Form) (expr : Expr) : Prop :=
  ∃ head condition, clause.children = [head, condition] ∧ LowersTo table condition expr

/-- The labels of clauses that hold conditions. -/
def conditionLabels : List String := ["requires", "preserves", "ensures"]

/-- What the forms of a block have to be. -/
structure BlockAcceptable (table : Table) (clauses : List Form) : Prop where
  params : ∃ clause, IsFirst "args" clause clauses ∧
    ∀ form ∈ clause.children.tail, ∃ name type, form = .node [.atom name, .atom type]
  returnType : ∃ clause, IsFirst "returns" clause clauses ∧
    ∃ head type, clause.children = [head, .atom type]
  body : ∃ form ∈ clauses, IsBody form
  conditions : ∀ clause ∈ clauses, clause.label ∈ conditionLabels → clause.children.length = 2
  bodyLowers : ∀ form ∈ clauses, IsBody form → Lowers table form
  conditionsLower : ∀ clause ∈ clauses, clause.label ∈ conditionLabels →
    ∀ condition, clause.children[1]? = some condition → Lowers table condition

/-- What the children of a definition have to be. -/
structure Acceptable (table : Table) (children : List Form) : Prop where
  name : ∃ name, NamedBy children name ∧ name ≠ ""
  block : ∃ block, IsFirst "begin" block children ∧ BlockAcceptable table block.children.tail

/-- The function that the forms of a block stand for, up to its name. -/
structure BlockDescribes (table : Table) (clauses : List Form) (function : PureFunction) :
    Prop where
  params : ∃ clause, IsFirst "args" clause clauses ∧
    List.Forall₂ IsParam clause.children.tail function.params
  returnType : ∃ clause, IsFirst "returns" clause clauses ∧
    ∃ head type, clause.children = [head, .atom type] ∧ function.returnType = Text.unquoted type
  result : ∃ form, IsLastBody form clauses ∧ LowersTo table form function.result
  bodyLowers : ∀ form ∈ clauses, IsBody form → Lowers table form
  requires : List.Forall₂ (IsCondition table) (Outline.allLabelled "requires" clauses)
    function.requires
  preserves : List.Forall₂ (IsCondition table) (Outline.allLabelled "preserves" clauses)
    function.preserves
  ensures : List.Forall₂ (IsCondition table) (Outline.allLabelled "ensures" clauses)
    function.ensures

/-- The function that the children of a definition stand for. -/
structure Describes (table : Table) (children : List Form) (function : PureFunction) : Prop where
  name : NamedBy children function.name
  named : function.name ≠ ""
  block : ∃ block, IsFirst "begin" block children ∧
    BlockDescribes table block.children.tail function

/-! ## Look-ups -/

theorem firstLabelled_eq_some_iff {label : String} {forms : List Form} {form : Form} :
    Outline.firstLabelled label forms = some form ↔ IsFirst label form forms := by
  rw [Outline.firstLabelled, List.find?_eq_some_iff_append]
  constructor
  · rintro ⟨hlabel, before, after, rfl, hbefore⟩
    exact ⟨before, after, rfl, by simpa using hlabel, by simpa using hbefore⟩
  · rintro ⟨before, after, rfl, hlabel, hbefore⟩
    exact ⟨by simpa using hlabel, before, after, rfl, by simpa using hbefore⟩

theorem IsFirst.mem {label : String} {form : Form} {forms : List Form}
    (h : IsFirst label form forms) : form ∈ forms := by
  obtain ⟨before, after, rfl, -⟩ := h
  simp

theorem mem_bodyForms {forms : List Form} {form : Form} :
    form ∈ Outline.bodyForms forms ↔ form ∈ forms ∧ IsBody form := by
  simp [Outline.bodyForms, IsBody]

theorem getLast?_bodyForms_eq_some_iff {forms : List Form} {form : Form} :
    (Outline.bodyForms forms).getLast? = some form ↔ IsLastBody form forms := by
  rw [Outline.bodyForms, List.getLast?_eq_head?_reverse, ← List.filter_reverse, List.head?_filter,
    List.find?_eq_some_iff_append]
  -- The search runs backwards, so that what it passed over stands behind the form.
  constructor
  · rintro ⟨hbody, after, before, hforms, hafter⟩
    refine ⟨before.reverse, after.reverse, ?_, by simpa [IsBody] using hbody, ?_⟩
    · simpa using congrArg List.reverse hforms
    · simpa [IsBody] using hafter
  · rintro ⟨before, after, rfl, hbody, hafter⟩
    exact ⟨by simpa [IsBody] using hbody, after.reverse, before.reverse, by simp,
      by simpa [IsBody] using hafter⟩

theorem functionName_eq_iff {children : List Form} {name : String} (hname : name ≠ "") :
    Outline.functionName children = name ↔ NamedBy children name := by
  rcases children with _ | ⟨head, _ | ⟨text | inner, rest⟩⟩
  · simp [Outline.functionName, NamedBy, hname.symm]
  · simp [Outline.functionName, NamedBy, hname.symm]
  · simp [Outline.functionName, NamedBy]
  · simp [Outline.functionName, NamedBy]

/-! ## Runs over lists -/

theorem exists_forall₂_iff {α β : Type} {R : α → β → Prop} {as : List α} :
    (∃ bs, List.Forall₂ R as bs) ↔ ∀ a ∈ as, ∃ b, R a b := by
  induction as with
  | nil => simp
  | cons a rest ih =>
    simp only [List.forall₂_cons_left_iff, List.forall_mem_cons, ← ih]
    constructor
    · rintro ⟨_, b, bs, hb, hbs, rfl⟩
      exact ⟨⟨b, hb⟩, bs, hbs⟩
    · rintro ⟨⟨b, hb⟩, bs, hbs⟩
      exact ⟨b :: bs, b, bs, hb, hbs, rfl⟩

theorem lower_eq_ok_iff {table : Table} {scope : Scope} {form : Form} {lowered : Lowered} :
    lower table scope form = .ok lowered ↔
      ∃ expr, LowersTo table form expr ∧ lowered = ⟨[], expr⟩ := by
  constructor
  · intro h
    obtain ⟨auxiliary, expr⟩ := lowered
    obtain rfl : auxiliary = [] := lowerAt_auxiliary_eq_nil h
    refine ⟨expr, fun other => ?_, rfl⟩
    rw [lower, lowerAt_scope scope, ← h, lower]
  · rintro ⟨expr, hexpr, rfl⟩
    exact hexpr scope

theorem exists_lowersTo_iff {table : Table} {form : Form} :
    (∃ expr, LowersTo table form expr) ↔ Lowers table form := by
  constructor
  · rintro ⟨expr, hexpr⟩ scope
    exact ⟨⟨[], expr⟩, hexpr scope⟩
  · intro h
    obtain ⟨lowered, hlowered⟩ := h .empty
    obtain ⟨expr, hexpr, -⟩ := lower_eq_ok_iff.mp hlowered
    exact ⟨expr, hexpr⟩

theorem param_eq_ok_iff {name : String} {form : Form} {param : Param} :
    Outline.param name form = .ok param ↔ IsParam form param := by
  constructor
  · intro h
    unfold Outline.param at h
    split at h
    · rename_i paramName type hchildren
      cases h
      cases form with
      | atom text => cases hchildren
      | node children =>
        cases hchildren
        exact ⟨type, rfl, rfl⟩
    · cases h
  · rintro ⟨type, rfl, htype⟩
    obtain ⟨paramName, paramType⟩ := param
    cases htype
    rfl

theorem paramsOf_eq_mapM (name : String) (forms : List Form) :
    Outline.paramsOf name forms = forms.mapM (Outline.param name) := by
  induction forms with
  | nil => rfl
  | cons form rest ih => rw [Outline.paramsOf, List.mapM_cons, ih]

theorem paramsOf_eq_ok_iff {name : String} {forms : List Form} {params : List Param} :
    Outline.paramsOf name forms = .ok params ↔ List.Forall₂ IsParam forms params := by
  simp only [paramsOf_eq_mapM, mapM_eq_ok_iff, param_eq_ok_iff]

/-- The condition of a single clause. -/
def conditionOf (table : Table) (scope : Scope) (name label : String) (clause : Form) :
    Except Error Lowered :=
  match clause.children with
  | [_, condition] => lower table scope condition
  | _ => .error (.missing (Outline.formName name) (.wellFormedCondition label))

theorem conditions_eq_mapM (table : Table) (scope : Scope) (name label : String)
    (clauses : List Form) :
    Outline.conditions table scope name label clauses =
      clauses.mapM (conditionOf table scope name label) := by
  induction clauses with
  | nil => rfl
  | cons clause rest ih =>
    rw [Outline.conditions, List.mapM_cons, ih, conditionOf]
    rcases clause.children with _ | ⟨head, _ | ⟨condition, _ | ⟨extra, more⟩⟩⟩ <;> rfl

theorem conditionOf_eq_ok_iff {table : Table} {scope : Scope} {name label : String}
    {clause : Form} {lowered : Lowered} :
    conditionOf table scope name label clause = .ok lowered ↔
      ∃ expr, IsCondition table clause expr ∧ lowered = ⟨[], expr⟩ := by
  constructor
  · intro h
    unfold conditionOf at h
    split at h
    · rename_i head condition hchildren
      obtain ⟨expr, hexpr, rfl⟩ := lower_eq_ok_iff.mp h
      exact ⟨expr, ⟨head, condition, hchildren, hexpr⟩, rfl⟩
    · cases h
  · rintro ⟨expr, ⟨head, condition, hchildren, hexpr⟩, rfl⟩
    rw [conditionOf, hchildren]
    exact hexpr scope

theorem conditions_eq_ok_iff {table : Table} {scope : Scope} {name label : String}
    {clauses : List Form} {lowered : List Lowered} :
    Outline.conditions table scope name label clauses = .ok lowered ↔
      ∃ exprs, List.Forall₂ (IsCondition table) clauses exprs ∧
        lowered = exprs.map fun expr => ⟨[], expr⟩ := by
  simp only [conditions_eq_mapM, mapM_eq_ok_iff, conditionOf_eq_ok_iff]
  induction clauses generalizing lowered with
  | nil => simp
  | cons clause rest ih =>
    simp only [List.forall₂_cons_left_iff, ih]
    constructor
    · rintro ⟨_, _, ⟨expr, hexpr, rfl⟩, ⟨exprs, hexprs, rfl⟩, rfl⟩
      exact ⟨expr :: exprs, ⟨expr, exprs, hexpr, hexprs, rfl⟩, rfl⟩
    · rintro ⟨_, ⟨expr, exprs, hexpr, hexprs, rfl⟩, rfl⟩
      exact ⟨_, _, ⟨expr, hexpr, rfl⟩, ⟨exprs, hexprs, rfl⟩, rfl⟩

theorem discard_eq_ok_iff {table : Table} {scope : Scope} {name : String} {forms : List Form} :
    (Outline.discard table scope name forms).result = .ok () ↔
      ∀ form ∈ forms, Lowers table form := by
  induction forms with
  | nil => simp [Outline.discard]
  | cons form rest ih =>
    simp only [Outline.discard, Trace.result_bind, Trace.result_ofExcept, Trace.result_emit,
      bind_eq_ok_iff, List.forall_mem_cons, ← ih, lower_eq_ok_iff]
    constructor
    · rintro ⟨_, ⟨expr, hexpr, _⟩, _, _, hrest⟩
      exact ⟨exists_lowersTo_iff.mp ⟨expr, hexpr⟩, hrest⟩
    · rintro ⟨hform, hrest⟩
      obtain ⟨expr, hexpr⟩ := exists_lowersTo_iff.mpr hform
      exact ⟨_, ⟨expr, hexpr, rfl⟩, (), trivial, hrest⟩

/-! ## Outlines -/

namespace Outline

theorem params?_eq_ok_iff {name : String} {clauses : List Form} {params : List Param} :
    params? name clauses = .ok params ↔
      ∃ clause, IsFirst "args" clause clauses ∧
        List.Forall₂ IsParam clause.children.tail params := by
  simp only [← firstLabelled_eq_some_iff]
  rw [params?]
  cases firstLabelled "args" clauses with
  | none => simp
  | some clause => simp [paramsOf_eq_ok_iff]

theorem returnType?_eq_ok_iff {name : String} {clauses : List Form} {returnType : String} :
    returnType? name clauses = .ok returnType ↔
      ∃ clause, IsFirst "returns" clause clauses ∧
        ∃ head type, clause.children = [head, .atom type] ∧ returnType = Text.unquoted type := by
  simp only [← firstLabelled_eq_some_iff]
  rw [returnType?]
  cases firstLabelled "returns" clauses with
  | none => simp
  | some clause =>
    simp only [Option.some.injEq, exists_eq_left']
    rcases clause.children with _ | ⟨head, _ | ⟨type | inner, _ | ⟨extra, more⟩⟩⟩
    case cons.cons.atom.nil => simp [eq_comm]
    all_goals simp

/-- What the outline of a block records. -/
structure Records (outline : Outline) (clauses : List Form) : Prop where
  params : ∃ clause, IsFirst "args" clause clauses ∧
    List.Forall₂ IsParam clause.children.tail outline.params
  returnType : ∃ clause, IsFirst "returns" clause clauses ∧
    ∃ head type, clause.children = [head, .atom type] ∧
      outline.returnType = Text.unquoted type
  body : bodyForms clauses = outline.discarded ++ [outline.result]
  requires : outline.requires = allLabelled "requires" clauses
  preserves : outline.preserves = allLabelled "preserves" clauses
  ensures : outline.ensures = allLabelled "ensures" clauses

theorem ofClauses_eq_ok_iff {name : String} {clauses : List Form} {outline : Outline} :
    ofClauses name clauses = .ok outline ↔ outline.name = name ∧ outline.Records clauses := by
  simp only [ofClauses, bind_eq_ok_iff, params?_eq_ok_iff, returnType?_eq_ok_iff]
  constructor
  · rintro ⟨params, hparams, returnType, hreturns, h⟩
    split at h
    · cases h
    · rename_i result hlast
      cases h
      have hbody := List.dropLast_append_getLast? result hlast
      exact ⟨rfl, hparams, hreturns, hbody.symm, rfl, rfl, rfl⟩
  · rintro ⟨rfl, hparams, hreturns, hbody, hrequires, hpreserves, hensures⟩
    refine ⟨_, hparams, _, hreturns, ?_⟩
    obtain ⟨name, params, returnType, discarded, result, requires, preserves, ensures⟩ := outline
    simp only at *
    simp [hbody, hrequires, hpreserves, hensures, pure, Except.pure]

theorem ofChildren_eq_ok_iff {children : List Form} {outline : Outline} :
    ofChildren children = .ok outline ↔
      NamedBy children outline.name ∧ outline.name ≠ "" ∧
        ∃ block, IsFirst "begin" block children ∧ outline.Records block.children.tail := by
  simp only [← firstLabelled_eq_some_iff]
  unfold ofChildren
  constructor
  · intro h
    split at h
    · cases h
    · rename_i hname
      split at h
      · cases h
      · rename_i block hblock
        obtain ⟨houtline, hrecords⟩ := ofClauses_eq_ok_iff.mp h
        rw [houtline]
        exact ⟨(functionName_eq_iff hname).mp rfl, hname, block, hblock, hrecords⟩
  · rintro ⟨hnamed, hname, block, hblock, hrecords⟩
    have hfunction := (functionName_eq_iff hname).mpr hnamed
    rw [hfunction, if_neg hname, hblock]
    exact ofClauses_eq_ok_iff.mpr ⟨rfl, hrecords⟩

/-! ## Compiling an outline -/

/-- The function of an outline, from what its parts are lowered to. -/
structure Makes (outline : Outline) (table : Table) (function : PureFunction) : Prop where
  name : function.name = outline.name
  params : function.params = outline.params
  returnType : function.returnType = outline.returnType
  discarded : ∀ form ∈ outline.discarded, Lowers table form
  result : LowersTo table outline.result function.result
  requires : List.Forall₂ (IsCondition table) outline.requires function.requires
  preserves : List.Forall₂ (IsCondition table) outline.preserves function.preserves
  ensures : List.Forall₂ (IsCondition table) outline.ensures function.ensures

/-- A contract whose parts were lowered without auxiliary functions. -/
def Contract.plain (result : Expr) (requires preserves ensures : List Expr) : Contract where
  result := ⟨[], result⟩
  requires := requires.map fun expr => ⟨[], expr⟩
  preserves := preserves.map fun expr => ⟨[], expr⟩
  ensures := ensures.map fun expr => ⟨[], expr⟩

theorem Contract.auxiliary_plain (result : Expr) (requires preserves ensures : List Expr) :
    (plain result requires preserves ensures).auxiliary = [] := by
  simp [plain, auxiliary]

theorem function_plain (outline : Outline) (result : Expr)
    (requires preserves ensures : List Expr) :
    outline.function (.plain result requires preserves ensures) =
      ⟨outline.name, outline.params, outline.returnType, result, requires, preserves, ensures⟩ := by
  simp [function, Contract.plain, Function.comp_def]

theorem contract_eq_ok_iff {outline : Outline} {table : Table} {scope : Scope}
    {contract : Contract} :
    outline.contract table scope = .ok contract ↔
      ∃ result requires preserves ensures, LowersTo table outline.result result ∧
        List.Forall₂ (IsCondition table) outline.requires requires ∧
        List.Forall₂ (IsCondition table) outline.preserves preserves ∧
        List.Forall₂ (IsCondition table) outline.ensures ensures ∧
        contract = .plain result requires preserves ensures := by
  simp only [Outline.contract, bind_eq_ok_iff, pure_eq_ok_iff, lower_eq_ok_iff,
    conditions_eq_ok_iff]
  constructor
  · rintro ⟨_, ⟨result, hresult, rfl⟩, _, ⟨requires, hrequires, rfl⟩, _,
      ⟨preserves, hpreserves, rfl⟩, _, ⟨ensures, hensures, rfl⟩, rfl⟩
    exact ⟨result, requires, preserves, ensures, hresult, hrequires, hpreserves, hensures, rfl⟩
  · rintro ⟨result, requires, preserves, ensures, hresult, hrequires, hpreserves, hensures, rfl⟩
    exact ⟨_, ⟨result, hresult, rfl⟩, _, ⟨requires, hrequires, rfl⟩, _,
      ⟨preserves, hpreserves, rfl⟩, _, ⟨ensures, hensures, rfl⟩, rfl⟩

theorem compile_eq_ok_iff {outline : Outline} {table : Table} {functions : List PureFunction} :
    (outline.compile table).result = .ok functions ↔
      ∃ function, functions = [function] ∧ outline.Makes table function := by
  simp only [Outline.compile, Trace.result_bind, Trace.result_ofExcept, Trace.result_emit,
    Trace.result_pure, bind_eq_ok_iff, contract_eq_ok_iff]
  constructor
  · rintro ⟨_, hdiscard, _, ⟨result, requires, preserves, ensures, hresult, hrequires, hpreserves,
      hensures, rfl⟩, _, _, h⟩
    rw [Contract.auxiliary_plain, function_plain, List.nil_append] at h
    cases h
    exact ⟨_, rfl, rfl, rfl, rfl, discard_eq_ok_iff.mp hdiscard, hresult, hrequires, hpreserves,
      hensures⟩
  · rintro ⟨function, rfl, hmakes⟩
    refine ⟨(), discard_eq_ok_iff.mpr hmakes.discarded, _, ⟨_, _, _, _, hmakes.result,
      hmakes.requires, hmakes.preserves, hmakes.ensures, rfl⟩, (), trivial, ?_⟩
    rw [Contract.auxiliary_plain, function_plain, List.nil_append, ← hmakes.name, ← hmakes.params,
      ← hmakes.returnType]

end Outline

/-! ## Definitions -/

theorem blockDescribes_of_outline {table : Table} {clauses : List Form} {outline : Outline}
    {function : PureFunction} (hrecords : outline.Records clauses)
    (hmakes : outline.Makes table function) : BlockDescribes table clauses function where
  params := by rw [hmakes.params]; exact hrecords.params
  returnType := by rw [hmakes.returnType]; exact hrecords.returnType
  result := by
    refine ⟨outline.result, getLast?_bodyForms_eq_some_iff.mp ?_, hmakes.result⟩
    rw [hrecords.body, List.getLast?_concat]
  bodyLowers := by
    intro form hform hbody
    have hmem := mem_bodyForms.mpr ⟨hform, hbody⟩
    rw [hrecords.body, List.mem_append, List.mem_singleton] at hmem
    rcases hmem with hmem | rfl
    · exact hmakes.discarded form hmem
    · exact exists_lowersTo_iff.mp ⟨function.result, hmakes.result⟩
  requires := hrecords.requires ▸ hmakes.requires
  preserves := hrecords.preserves ▸ hmakes.preserves
  ensures := hrecords.ensures ▸ hmakes.ensures

theorem outline_of_blockDescribes {table : Table} {clauses : List Form} {function : PureFunction}
    (h : BlockDescribes table clauses function) :
    ∃ outline : Outline, outline.name = function.name ∧ outline.Records clauses ∧
      outline.Makes table function := by
  obtain ⟨result, hlast, hresult⟩ := h.result
  have hbody := List.dropLast_append_getLast? result (getLast?_bodyForms_eq_some_iff.mpr hlast)
  refine ⟨⟨function.name, function.params, function.returnType,
    (Outline.bodyForms clauses).dropLast, result, Outline.allLabelled "requires" clauses,
    Outline.allLabelled "preserves" clauses, Outline.allLabelled "ensures" clauses⟩, rfl,
    ⟨h.params, h.returnType, hbody.symm, rfl, rfl, rfl⟩,
    ⟨rfl, rfl, rfl, ?_, hresult, h.requires, h.preserves, h.ensures⟩⟩
  intro form hform
  obtain ⟨hmem, hisBody⟩ := mem_bodyForms.mp ((List.dropLast_sublist _).subset hform)
  exact h.bodyLowers form hmem hisBody

theorem compileForm_eq_ok_iff_describes (table : Table) {children : List Form}
    (hdefine : Form.headWord children = definitionLabel) (functions : List PureFunction) :
    (compileForm table (.node children)).result = .ok functions ↔
      ∃ function, functions = [function] ∧ Describes table children function := by
  rw [compileForm, Form.label_node, if_pos hdefine]
  simp only [Trace.result_bind, Trace.result_ofExcept, bind_eq_ok_iff, Form.children,
    Outline.ofChildren_eq_ok_iff, Outline.compile_eq_ok_iff]
  constructor
  · rintro ⟨outline, ⟨hnamed, hname, block, hblock, hrecords⟩, function, hfunctions, hmakes⟩
    rw [← hmakes.name] at hnamed hname
    exact ⟨function, hfunctions, hnamed, hname, block, hblock,
      blockDescribes_of_outline hrecords hmakes⟩
  · rintro ⟨function, hfunctions, hnamed, hname, block, hblock, hdescribes⟩
    obtain ⟨outline, houtline, hrecords, hmakes⟩ := outline_of_blockDescribes hdescribes
    rw [← houtline] at hnamed hname
    exact ⟨outline, ⟨hnamed, hname, block, hblock, hrecords⟩, function, hfunctions, hmakes⟩

theorem exists_isCondition_iff {table : Table} {clause : Form} :
    (∃ expr, IsCondition table clause expr) ↔ clause.children.length = 2 ∧
      ∀ condition, clause.children[1]? = some condition → Lowers table condition := by
  simp only [IsCondition, ← exists_lowersTo_iff]
  rcases clause.children with _ | ⟨head, _ | ⟨condition, _ | ⟨extra, more⟩⟩⟩
  case cons.cons.nil => simp
  all_goals simp

theorem exists_conditions_iff {table : Table} {label : String} {clauses : List Form} :
    (∃ exprs, List.Forall₂ (IsCondition table) (Outline.allLabelled label clauses) exprs) ↔
      ∀ clause ∈ clauses, clause.label = label → clause.children.length = 2 ∧
        ∀ condition, clause.children[1]? = some condition → Lowers table condition := by
  rw [exists_forall₂_iff]
  simp [Outline.allLabelled, exists_isCondition_iff]

theorem exists_blockDescribes {table : Table} {clauses : List Form}
    (h : BlockAcceptable table clauses) (name : String) :
    ∃ function : PureFunction, function.name = name ∧ BlockDescribes table clauses function := by
  obtain ⟨args, hargs, hpairs⟩ := h.params
  obtain ⟨params, hparams⟩ : ∃ params, List.Forall₂ IsParam args.children.tail params := by
    rw [exists_forall₂_iff]
    intro form hform
    obtain ⟨paramName, type, rfl⟩ := hpairs form hform
    exact ⟨⟨paramName, Text.unquoted type⟩, type, rfl, rfl⟩
  obtain ⟨returns, hreturns, head, type, htype⟩ := h.returnType
  obtain ⟨result, hlast⟩ : ∃ result, (Outline.bodyForms clauses).getLast? = some result := by
    obtain ⟨form, hform, hbody⟩ := h.body
    have hne := List.ne_nil_of_mem (mem_bodyForms.mpr ⟨hform, hbody⟩)
    exact ⟨_, List.getLast?_eq_some_getLast hne⟩
  obtain ⟨hmem, hbody⟩ := mem_bodyForms.mp (List.mem_of_getLast? hlast)
  obtain ⟨expr, hexpr⟩ := exists_lowersTo_iff.mpr (h.bodyLowers result hmem hbody)
  have hconditions : ∀ label ∈ conditionLabels, ∃ exprs,
      List.Forall₂ (IsCondition table) (Outline.allLabelled label clauses) exprs := by
    intro label hlabel
    rw [exists_conditions_iff]
    rintro clause hclause rfl
    exact ⟨h.conditions clause hclause hlabel, h.conditionsLower clause hclause hlabel⟩
  obtain ⟨requires, hrequires⟩ := hconditions "requires" (by decide)
  obtain ⟨preserves, hpreserves⟩ := hconditions "preserves" (by decide)
  obtain ⟨ensures, hensures⟩ := hconditions "ensures" (by decide)
  exact ⟨⟨name, params, Text.unquoted type, expr, requires, preserves, ensures⟩, rfl,
    ⟨args, hargs, hparams⟩, ⟨returns, hreturns, head, type, htype, rfl⟩,
    ⟨result, getLast?_bodyForms_eq_some_iff.mp hlast, hexpr⟩, h.bodyLowers, hrequires,
    hpreserves, hensures⟩

theorem blockAcceptable_of_blockDescribes {table : Table} {clauses : List Form}
    {function : PureFunction} (h : BlockDescribes table clauses function) :
    BlockAcceptable table clauses := by
  have hconditions : ∀ clause ∈ clauses, clause.label ∈ conditionLabels →
      clause.children.length = 2 ∧
        ∀ condition, clause.children[1]? = some condition → Lowers table condition := by
    intro clause hclause hlabel
    simp only [conditionLabels, List.mem_cons, List.not_mem_nil, or_false] at hlabel
    rcases hlabel with hlabel | hlabel | hlabel
    · exact exists_conditions_iff.mp ⟨_, h.requires⟩ clause hclause hlabel
    · exact exists_conditions_iff.mp ⟨_, h.preserves⟩ clause hclause hlabel
    · exact exists_conditions_iff.mp ⟨_, h.ensures⟩ clause hclause hlabel
  obtain ⟨args, hargs, hparams⟩ := h.params
  obtain ⟨returns, hreturns, head, type, htype, -⟩ := h.returnType
  obtain ⟨result, ⟨before, after, rfl, hbody, -⟩, -⟩ := h.result
  refine ⟨⟨args, hargs, ?_⟩, ⟨returns, hreturns, head, type, htype⟩, ⟨result, by simp, hbody⟩,
    fun clause hclause hlabel => (hconditions clause hclause hlabel).1, h.bodyLowers,
    fun clause hclause hlabel => (hconditions clause hclause hlabel).2⟩
  intro form hform
  obtain ⟨param, type, rfl, -⟩ := exists_forall₂_iff.mp ⟨_, hparams⟩ form hform
  exact ⟨param.name, type, rfl⟩

theorem acceptable_iff_exists_describes {table : Table} {children : List Form} :
    Acceptable table children ↔ ∃ function, Describes table children function := by
  constructor
  · rintro ⟨⟨name, hnamed, hname⟩, block, hblock, hacceptable⟩
    obtain ⟨function, rfl, hdescribes⟩ := exists_blockDescribes hacceptable name
    exact ⟨function, hnamed, hname, block, hblock, hdescribes⟩
  · rintro ⟨function, hnamed, hname, block, hblock, hdescribes⟩
    exact ⟨⟨function.name, hnamed, hname⟩, block, hblock,
      blockAcceptable_of_blockDescribes hdescribes⟩

/-- **A definition compiles exactly when it is acceptable, and then to the one function that it
describes.** -/
theorem definition_compiles_iff_acceptable (table : Table) (children : List Form)
    (hdefine : (Form.node children).label = "define") :
    ((∃ functions, (compileForm table (.node children)).result = .ok functions) ↔
      Acceptable table children) ∧
    ∀ functions, (compileForm table (.node children)).result = .ok functions ↔
      ∃ function, functions = [function] ∧ Describes table children function := by
  have hcompiled := compileForm_eq_ok_iff_describes table hdefine
  refine ⟨?_, hcompiled⟩
  rw [acceptable_iff_exists_describes]
  constructor
  · rintro ⟨functions, h⟩
    obtain ⟨function, -, hdescribes⟩ := (hcompiled functions).mp h
    exact ⟨function, hdescribes⟩
  · rintro ⟨function, hdescribes⟩
    exact ⟨[function], (hcompiled _).mpr ⟨function, rfl, hdescribes⟩⟩

/-- `(define (f x) (begin y (requires (> x 0)) (returns "int") x (args (x "int")) (args)))`, which
has its clauses out of order, a body form in front of the result, and one `args` clause too many. -/
def scatteredDefinition : List Form :=
  [.atom "define", .node [.atom "f", .atom "x"],
    .node [.atom "begin", .atom "y",
      .node [.atom "requires", .node [.atom ">", .atom "x", .atom "0"]],
      .node [.atom "returns", .atom "\"int\""], .atom "x",
      .node [.atom "args", .node [.atom "x", .atom "\"int\""]], .node [.atom "args"]]]

theorem definition_compiles_iff_acceptable_scattered :
    (Form.node scatteredDefinition).label = "define" ∧
      Acceptable Table.standard scatteredDefinition ∧
      Describes Table.standard scatteredDefinition
        ⟨"f", [⟨"x", "int"⟩], "int", .literal "x",
          [.binary (.literal "x") ">" (.literal "0")], [], []⟩ := by
  have hcompiles := definition_compiles_iff_acceptable Table.standard scatteredDefinition rfl
  refine ⟨rfl, hcompiles.1.mp ⟨_, rfl⟩, ?_⟩
  obtain ⟨function, hfunction, hdescribes⟩ := (hcompiles.2 _).mp rfl
  cases hfunction
  exact hdescribes

end PureContracts
