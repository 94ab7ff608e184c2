import PureContracts.Proofs.Definition.Acceptance

/-!
# What the spelling of a definition leaves open

A definition gives its name as a word or as the head of a signature, and its block holds clauses and
body forms in any order.  What becomes of it is decided by less than that: by the name, and in the
block by the first `args` and the first `returns` clause, the conditions of each kind and the forms
of the body.  Definitions that agree on these are compiled in the same way, with the same events and
to the same function or the same error.

The block is the first child with the label `begin`, and a signature is a child like any other.  So
a signature that names the function `begin` is itself taken for the block.

* `plainDefinition` — a definition with nothing in it but its name and its block.
* `SameClauses` — two blocks that agree on what counts in them.
* `tidied` — a block in the order of the grammar, without the clauses that do not count.

Principal results
* `compileForm_plain` — name and block decide what becomes of a definition;
* `clause_placement_is_free` — where the clauses stand does not matter;
* `compileForm_tidied` — every definition compiles as the grammar would write it;
* `word_and_signature_name_alike` — a word and a signature give the same definition, unless the
  signature is a block.
-/

namespace PureContracts

/-! ## Name and block -/

/-- Definitions with one name and one block compile alike. -/
theorem compileForm_congr (table : Table) {form other : Form}
    (hform : form.label = definitionLabel) (hother : other.label = definitionLabel)
    (hname : Outline.functionName form.children = Outline.functionName other.children)
    (hblock : Outline.firstLabelled "begin" form.children =
      Outline.firstLabelled "begin" other.children) :
    compileForm table form = compileForm table other := by
  have houtline : Outline.ofChildren form.children = Outline.ofChildren other.children := by
    rw [Outline.ofChildren, Outline.ofChildren, hname, hblock]
  rw [compileForm, compileForm, if_pos hform, if_pos hother, houtline]

theorem NamedBy.functionName_eq {children : List Form} {name : String}
    (h : NamedBy children name) : Outline.functionName children = name := by
  rcases children with _ | ⟨head, _ | ⟨word | inner, rest⟩⟩
  case cons.cons.atom => simpa [NamedBy, Outline.functionName] using h
  case cons.cons.node => simpa [NamedBy, Outline.functionName] using h
  all_goals simp [NamedBy] at h

/-- A definition with its name as a word and nothing but its block behind it. -/
def plainDefinition (name : String) (clauses : List Form) : Form :=
  .node [.atom definitionLabel, .atom name, .node (.atom "begin" :: clauses)]

/-- A form with a label is a node with the label as its head. -/
theorem Form.eq_node_of_label {form : Form} (h : form.label ≠ "") :
    form = .node (.atom form.label :: form.children.tail) := by
  cases form with
  | atom text => exact absurd rfl h
  | node children =>
    obtain ⟨rest, hrest⟩ : ∃ rest, children = .atom (headWord children) :: rest :=
      exists_of_headWord_ne h
    rw [label_node, Form.children, hrest]
    rfl

/-- **Name and block decide what becomes of a definition.** -/
theorem compileForm_plain (table : Table) {form : Form} {name : String} {block : Form}
    (hdefine : form.label = definitionLabel) (hname : NamedBy form.children name)
    (hblock : IsFirst "begin" block form.children) :
    compileForm table form = compileForm table (plainDefinition name block.children.tail) := by
  obtain ⟨before, after, hchildren, hlabel, hbefore⟩ := hblock
  have hnode : Form.node (.atom "begin" :: block.children.tail) = block := by
    rw [← hlabel]
    exact (Form.eq_node_of_label (by rw [hlabel]; decide)).symm
  refine compileForm_congr table hdefine rfl hname.functionName_eq ?_
  rw [firstLabelled_eq_some_iff.mpr ⟨before, after, hchildren, hlabel, hbefore⟩, eq_comm,
    firstLabelled_eq_some_iff]
  refine ⟨[.atom definitionLabel, .atom name], [], ?_, hlabel, by simp⟩
  rw [plainDefinition, hnode]
  rfl

/-! ## Clauses -/

/-- Two blocks that agree on what counts in them: the first `args` and the first `returns` clause,
the conditions of each kind in order, and the forms of the body in order. -/
structure SameClauses (clauses others : List Form) : Prop where
  params : ∀ clause, IsFirst "args" clause clauses ↔ IsFirst "args" clause others
  returnType : ∀ clause, IsFirst "returns" clause clauses ↔ IsFirst "returns" clause others
  requires : Outline.allLabelled "requires" clauses = Outline.allLabelled "requires" others
  preserves : Outline.allLabelled "preserves" clauses = Outline.allLabelled "preserves" others
  ensures : Outline.allLabelled "ensures" clauses = Outline.allLabelled "ensures" others
  body : Outline.bodyForms clauses = Outline.bodyForms others

theorem firstLabelled_eq_iff {label : String} {forms others : List Form} :
    Outline.firstLabelled label forms = Outline.firstLabelled label others ↔
      ∀ form, IsFirst label form forms ↔ IsFirst label form others := by
  simp only [← firstLabelled_eq_some_iff]
  exact Option.ext_iff

theorem SameClauses.ofClauses_eq {clauses others : List Form} (h : SameClauses clauses others)
    (name : String) : Outline.ofClauses name clauses = Outline.ofClauses name others := by
  have hparams : Outline.params? name clauses = Outline.params? name others := by
    rw [Outline.params?, Outline.params?, firstLabelled_eq_iff.mpr h.params]
  have hreturns : Outline.returnType? name clauses = Outline.returnType? name others := by
    rw [Outline.returnType?, Outline.returnType?, firstLabelled_eq_iff.mpr h.returnType]
  rw [Outline.ofClauses, Outline.ofClauses, hparams, hreturns, h.requires, h.preserves, h.ensures,
    h.body]

/-- What counts in the block of a plain definition decides what becomes of it. -/
theorem SameClauses.compileForm_eq {clauses others : List Form} (h : SameClauses clauses others)
    (table : Table) (name : String) :
    compileForm table (plainDefinition name clauses) =
      compileForm table (plainDefinition name others) := by
  have houtline (clauses : List Form) : Outline.ofChildren (plainDefinition name clauses).children =
      if name = "" then .error (.missing definitionLabel .functionName)
      else Outline.ofClauses name clauses := rfl
  rw [compileForm, compileForm, houtline, houtline, h.ofClauses_eq name]
  rfl

/-- **Where the clauses stand does not matter.**  Two definitions under one name whose blocks agree
on what counts are compiled with the same events and to the same end, be it a function or an error.
How the clauses and the forms of the body are mixed, and which further `args` and `returns` clauses
follow the first ones, has no influence. -/
theorem clause_placement_is_free (table : Table) {form other : Form} {name : String}
    {block otherBlock : Form} (hform : form.label = "define") (hother : other.label = "define")
    (hname : NamedBy form.children name) (hotherName : NamedBy other.children name)
    (hblock : IsFirst "begin" block form.children)
    (hotherBlock : IsFirst "begin" otherBlock other.children)
    (hclauses : SameClauses block.children.tail otherBlock.children.tail) :
    (compileForm table form).result = (compileForm table other).result ∧
    (compileForm table form).events = (compileForm table other).events := by
  rw [compileForm_plain table hform hname hblock,
    compileForm_plain table hother hotherName hotherBlock, hclauses.compileForm_eq table name]
  exact ⟨rfl, rfl⟩

/-- `(define g (begin (args (x "int")) (returns "int") (letrec) (requires (> x 0)) x))`: the form in
front of the result is not lowered. -/
def orderlyDefinition : Form :=
  plainDefinition "g"
    [.node [.atom "args", .node [.atom "x", .atom "\"int\""]],
      .node [.atom "returns", .atom "\"int\""], .node [.atom "letrec"],
      .node [.atom "requires", .node [.atom ">", .atom "x", .atom "0"]], .atom "x"]

/-- The same under a signature, with the clauses behind the body and spare ones behind those. -/
def disorderlyDefinition : Form :=
  .node [.atom "define", .node [.atom "g", .atom "x"],
    .node [.atom "begin", .node [.atom "letrec"], .atom "x",
      .node [.atom "requires", .node [.atom ">", .atom "x", .atom "0"]],
      .node [.atom "returns", .atom "\"int\""],
      .node [.atom "args", .node [.atom "x", .atom "\"int\""]],
      .node [.atom "args"], .node [.atom "returns"]]]

theorem clause_placement_is_free_disorderly :
    (compileForm .standard orderlyDefinition).result =
      .error (.unsupported "letrec" (.stated "local recursive bindings are not implemented")) ∧
    (compileForm .standard disorderlyDefinition).result =
      (compileForm .standard orderlyDefinition).result ∧
    (compileForm .standard disorderlyDefinition).events =
      (compileForm .standard orderlyDefinition).events := by
  refine ⟨rfl, clause_placement_is_free .standard rfl rfl (.inr ⟨_, rfl, rfl⟩) (.inl rfl)
    (firstLabelled_eq_some_iff.mp rfl) (firstLabelled_eq_some_iff.mp rfl) ?_⟩
  exact ⟨firstLabelled_eq_iff.mp rfl, firstLabelled_eq_iff.mp rfl, rfl, rfl, rfl, rfl⟩

/-! ## The order of the grammar -/

/-- The forms of a block in the order of the grammar: parameters, return type, conditions by kind,
and the body.  Clauses that do not count are left out. -/
def tidied (clauses : List Form) : List Form :=
  (Outline.allLabelled "args" clauses).take 1 ++ (Outline.allLabelled "returns" clauses).take 1 ++
    Outline.allLabelled "requires" clauses ++ Outline.allLabelled "preserves" clauses ++
    Outline.allLabelled "ensures" clauses ++ Outline.bodyForms clauses

theorem firstLabelled_eq_head? (label : String) (forms : List Form) :
    Outline.firstLabelled label forms = (Outline.allLabelled label forms).head? :=
  List.head?_filter.symm

theorem allLabelled_append (label : String) (forms others : List Form) :
    Outline.allLabelled label (forms ++ others) =
      Outline.allLabelled label forms ++ Outline.allLabelled label others :=
  List.filter_append ..

theorem bodyForms_append (forms others : List Form) :
    Outline.bodyForms (forms ++ others) = Outline.bodyForms forms ++ Outline.bodyForms others :=
  List.filter_append ..

/-- Among clauses of one kind the label finds all or none. -/
theorem allLabelled_of_forall {kind : String} {forms : List Form}
    (h : ∀ form ∈ forms, form.label = kind) (label : String) :
    Outline.allLabelled label forms = if kind = label then forms else [] := by
  split
  · rename_i hkind
    refine List.filter_eq_self.mpr fun form hform => ?_
    simp [h form hform, hkind]
  · rename_i hkind
    refine List.filter_eq_nil_iff.mpr fun form hform => ?_
    simp [h form hform, hkind]

theorem bodyForms_of_forall {kind : String} {forms : List Form} (hkind : kind ∈ clauseLabels)
    (h : ∀ form ∈ forms, form.label = kind) : Outline.bodyForms forms = [] := by
  refine List.filter_eq_nil_iff.mpr fun form hform => ?_
  simp [h form hform, hkind]

theorem label_of_mem_allLabelled {label : String} {forms : List Form} :
    ∀ form ∈ Outline.allLabelled label forms, form.label = label := by
  intro form hform
  simpa using List.of_mem_filter hform

theorem label_of_mem_take_allLabelled {label : String} {forms : List Form} {count : Nat} :
    ∀ form ∈ (Outline.allLabelled label forms).take count, form.label = label :=
  fun form hform => label_of_mem_allLabelled form (List.mem_of_mem_take hform)

theorem allLabelled_bodyForms {label : String} (hlabel : label ∈ clauseLabels)
    (forms : List Form) : Outline.allLabelled label (Outline.bodyForms forms) = [] := by
  refine List.filter_eq_nil_iff.mpr fun form hform => ?_
  obtain ⟨-, hbody⟩ := mem_bodyForms.mp hform
  simp only [beq_iff_eq]
  rintro rfl
  exact hbody hlabel

theorem bodyForms_bodyForms (forms : List Form) :
    Outline.bodyForms (Outline.bodyForms forms) = Outline.bodyForms forms := by
  simp [Outline.bodyForms]

/-- What is found of each kind in a tidied block. -/
theorem allLabelled_tidied {label : String} (hlabel : label ∈ clauseLabels) (clauses : List Form) :
    Outline.allLabelled label (tidied clauses) =
      if label ∈ conditionLabels then Outline.allLabelled label clauses
      else (Outline.allLabelled label clauses).take 1 := by
  simp only [tidied, allLabelled_append, allLabelled_of_forall label_of_mem_allLabelled,
    allLabelled_of_forall label_of_mem_take_allLabelled, allLabelled_bodyForms hlabel]
  simp only [clauseLabels, List.mem_cons, List.not_mem_nil, or_false] at hlabel
  rcases hlabel with rfl | rfl | rfl | rfl | rfl <;> simp [conditionLabels]

theorem bodyForms_tidied (clauses : List Form) :
    Outline.bodyForms (tidied clauses) = Outline.bodyForms clauses := by
  have hall {kind : String} (hkind : kind ∈ clauseLabels) :
      Outline.bodyForms (Outline.allLabelled kind clauses) = [] :=
    bodyForms_of_forall hkind label_of_mem_allLabelled
  have hfirst {kind : String} (hkind : kind ∈ clauseLabels) :
      Outline.bodyForms ((Outline.allLabelled kind clauses).take 1) = [] :=
    bodyForms_of_forall hkind label_of_mem_take_allLabelled
  simp only [tidied, bodyForms_append, bodyForms_bodyForms]
  rw [hfirst (by decide), hfirst (by decide), hall (by decide), hall (by decide),
    hall (by decide)]
  rfl

/-- Tidying a block changes nothing that counts. -/
theorem sameClauses_tidied (clauses : List Form) : SameClauses clauses (tidied clauses) := by
  have hfirst {label : String} (hlabel : label ∈ clauseLabels) (hkind : label ∉ conditionLabels) :
      ∀ form, IsFirst label form clauses ↔ IsFirst label form (tidied clauses) := by
    rw [← firstLabelled_eq_iff, firstLabelled_eq_head?, firstLabelled_eq_head?,
      allLabelled_tidied hlabel, if_neg hkind, List.head?_take, if_neg Nat.one_ne_zero]
  have hall {label : String} (hlabel : label ∈ clauseLabels) (hkind : label ∈ conditionLabels) :
      Outline.allLabelled label clauses = Outline.allLabelled label (tidied clauses) := by
    rw [allLabelled_tidied hlabel, if_pos hkind]
  exact ⟨hfirst (by decide) (by decide), hfirst (by decide) (by decide),
    hall (by decide) (by decide), hall (by decide) (by decide), hall (by decide) (by decide),
    (bodyForms_tidied clauses).symm⟩

/-- **Every definition compiles as the grammar would write it.** -/
theorem compileForm_tidied (table : Table) {form : Form} {name : String} {block : Form}
    (hdefine : form.label = definitionLabel) (hname : NamedBy form.children name)
    (hblock : IsFirst "begin" block form.children) :
    compileForm table form =
      compileForm table (plainDefinition name (tidied block.children.tail)) := by
  rw [compileForm_plain table hdefine hname hblock]
  exact (sameClauses_tidied _).compileForm_eq table name

/-! ## Words and signatures -/

/-- **A word and a signature give the same definition, unless the signature is a block.**  With the
function name as a word or at the head of a signature, whatever its parameters are, the rest of a
definition is compiled alike.  A signature with the name `begin` is the first child with that label:
then its parameters are the clauses, and what follows it does not count. -/
theorem word_and_signature_name_alike (table : Table) (name : String) (params rest : List Form) :
    (name ≠ "begin" →
      compileForm table (.node (.atom "define" :: .atom name :: rest)) =
        compileForm table (.node (.atom "define" :: .node (.atom name :: params) :: rest))) ∧
    compileForm table (.node (.atom "define" :: .node (.atom "begin" :: params) :: rest)) =
      compileForm table (plainDefinition "begin" params) := by
  refine ⟨fun hname => compileForm_congr table rfl rfl rfl ?_,
    compileForm_congr table rfl rfl rfl rfl⟩
  -- Neither the word nor the signature is a block, so the search goes on in what follows.
  have hsignature : ((Form.node (.atom name :: params)).label == "begin") = false := by
    simpa [Form.headWord] using hname
  simp only [Form.children, Outline.firstLabelled, List.find?_cons, hsignature]
  rfl

/-- The block `(begin (args) (returns "int") 1)`. -/
def oneBlock : Form :=
  .node [.atom "begin", .node [.atom "args"], .node [.atom "returns", .atom "\"int\""], .atom "1"]

theorem word_and_signature_name_alike_one :
    "one" ≠ "begin" ∧
    (compileForm .standard (.node [.atom "define", .atom "one", oneBlock])).result =
      .ok [⟨"one", [], "int", .literal "1", [], [], []⟩] ∧
    compileForm .standard (.node [.atom "define", .atom "one", oneBlock]) =
      compileForm .standard
        (.node [.atom "define", .node [.atom "one", .atom "x", .node []], oneBlock]) :=
  ⟨by decide, rfl,
    (word_and_signature_name_alike .standard "one" [.atom "x", .node []] [oneBlock]).1 (by decide)⟩

/-- Under the name `begin` a word and a signature do not give the same: `(define begin BLOCK)` is a
function, and `(define (begin) BLOCK)` lacks its parameters. -/
theorem begin_signature_is_taken_for_the_block :
    ¬ ∀ (name : String) (params rest : List Form), name ≠ "" →
      (compileForm .standard (.node (.atom "define" :: .atom name :: rest))).result =
        (compileForm .standard
          (.node (.atom "define" :: .node (.atom name :: params) :: rest))).result := by
  intro halike
  have hword : (compileForm .standard (.node [.atom "define", .atom "begin", oneBlock])).result =
      .ok [⟨"begin", [], "int", .literal "1", [], [], []⟩] := rfl
  have hsignature : (compileForm .standard
      (.node [.atom "define", .node [.atom "begin"], oneBlock])).result =
        .error (.missing "define begin" .parameters) := rfl
  have hsame := hword.symm.trans ((halike "begin" [] [oneBlock] (by decide)).trans hsignature)
  cases hsame

end PureContracts
