import PureContracts.Proofs.Compilation.Batch
import PureContracts.Proofs.Form.Within

/-!
# Where the texts of a function come from

The compiler makes up no text.  The names, types, operators and literals of a compiled function are
words of its definition, words without their quotes, operators of the table, or one of the three
words in which emptiness is expressed.  What is to be shown of every text of every function has to
be shown of these sources only.

* `Expr.texts`, `PureFunction.texts` — the texts inside an expression and inside a function.
* `Stems` — the texts that a form can give rise to.

Principal results
* `stems_of_lowerAt` — lowering makes up no text;
* `describes_of_compileForms` — every function comes from a definition;
* `stems_of_compileForms` — every text of a function stems from one of the forms.
-/

namespace PureContracts

/-! ## Texts -/

namespace Expr

mutual

/-- The texts inside an expression. -/
def texts : Expr → List String
  | .literal source => [source]
  | .unary operator operand => operator :: texts operand
  | .binary left operator right => operator :: (texts left ++ texts right)
  | .conditional condition whenTrue whenFalse =>
    texts condition ++ texts whenTrue ++ texts whenFalse
  | .sequence elementType elements => elementType :: textsAll elements
  | .slice whole low high => texts whole ++ textsBound low ++ textsBound high
  | .call callee arguments => texts callee ++ textsAll arguments

/-- The texts inside some expressions. -/
def textsAll : List Expr → List String
  | [] => []
  | expr :: rest => texts expr ++ textsAll rest

/-- The texts inside the bound of a slice. -/
def textsBound : Option Expr → List String
  | none => []
  | some bound => texts bound

end

section

variable {Good : String → Prop}

theorem forall_mem_textsAll {exprs : List Expr} :
    (∀ text ∈ textsAll exprs, Good text) ↔ ∀ expr ∈ exprs, ∀ text ∈ expr.texts, Good text := by
  induction exprs with
  | nil => simp [textsAll]
  | cons expr rest ih => rw [textsAll, List.forall_mem_append, ih, List.forall_mem_cons]

theorem forall_mem_textsBound {bound : Option Expr} :
    (∀ text ∈ textsBound bound, Good text) ↔ ∀ expr ∈ bound, ∀ text ∈ expr.texts, Good text := by
  cases bound <;> simp [textsBound]

/-- What holds of literals with a good text, and of a compound expression as soon as it holds of its
parts and its own text is good, holds of every expression in which all texts are good. -/
theorem induction_texts {motive : Expr → Prop}
    (literal : ∀ source, Good source → motive (.literal source))
    (unary : ∀ operator operand, Good operator → motive operand →
      motive (.unary operator operand))
    (binary : ∀ left operator right, motive left → Good operator → motive right →
      motive (.binary left operator right))
    (conditional : ∀ condition whenTrue whenFalse, motive condition → motive whenTrue →
      motive whenFalse → motive (.conditional condition whenTrue whenFalse))
    (sequence : ∀ elementType elements, Good elementType → (∀ element ∈ elements, motive element) →
      motive (.sequence elementType elements))
    (slice : ∀ whole low high, motive whole → (∀ bound ∈ low, motive bound) →
      (∀ bound ∈ high, motive bound) → motive (.slice whole low high))
    (call : ∀ callee arguments, motive callee → (∀ argument ∈ arguments, motive argument) →
      motive (.call callee arguments))
    {expr : Expr} (h : ∀ text ∈ expr.texts, Good text) : motive expr := by
  induction expr with
  | literal source => exact literal source (h source List.mem_cons_self)
  | unary operator operand ih =>
    rw [texts, List.forall_mem_cons] at h
    exact unary _ _ h.1 (ih h.2)
  | binary left operator right ihleft ihright =>
    rw [texts, List.forall_mem_cons, List.forall_mem_append] at h
    exact binary _ _ _ (ihleft h.2.1) h.1 (ihright h.2.2)
  | conditional condition whenTrue whenFalse ihcondition ihtrue ihfalse =>
    rw [texts, List.forall_mem_append, List.forall_mem_append] at h
    exact conditional _ _ _ (ihcondition h.1.1) (ihtrue h.1.2) (ihfalse h.2)
  | sequence elementType elements ih =>
    rw [texts, List.forall_mem_cons, forall_mem_textsAll] at h
    exact sequence _ _ h.1 fun element hmem => ih element hmem (h.2 element hmem)
  | slice whole low high ihwhole ihlow ihhigh =>
    rw [texts, List.forall_mem_append, List.forall_mem_append, forall_mem_textsBound,
      forall_mem_textsBound] at h
    exact slice _ _ _ (ihwhole h.1.1) (fun bound hmem => ihlow bound hmem (h.1.2 bound hmem))
      fun bound hmem => ihhigh bound hmem (h.2 bound hmem)
  | call callee arguments ihcallee iharguments =>
    rw [texts, List.forall_mem_append, forall_mem_textsAll] at h
    exact call _ _ (ihcallee h.1) fun argument hmem => iharguments argument hmem (h.2 argument hmem)

end

/-- The words in which emptiness is expressed. -/
def emptinessWords : List String := ["len", "==", "0"]

theorem texts_isEmpty (whole : Expr) :
    whole.isEmpty.texts = ["==", "len"] ++ whole.texts ++ ["0"] := by
  simp [isEmpty, length, texts, textsAll]

end Expr

/-- The texts of a parameter. -/
def Param.texts (param : Param) : List String := [param.name, param.type]

/-- The texts inside a function. -/
def PureFunction.texts (function : PureFunction) : List String :=
  function.name :: function.returnType :: (function.params.flatMap Param.texts ++
    function.result.texts ++ Expr.textsAll function.requires ++ Expr.textsAll function.preserves ++
    Expr.textsAll function.ensures)

theorem PureFunction.forall_mem_texts {function : PureFunction} {Good : String → Prop} :
    (∀ text ∈ function.texts, Good text) ↔
      Good function.name ∧ Good function.returnType ∧
      (∀ param ∈ function.params, Good param.name ∧ Good param.type) ∧
      (∀ text ∈ function.result.texts, Good text) ∧
      (∀ expr ∈ function.requires, ∀ text ∈ expr.texts, Good text) ∧
      (∀ expr ∈ function.preserves, ∀ text ∈ expr.texts, Good text) ∧
      ∀ expr ∈ function.ensures, ∀ text ∈ expr.texts, Good text := by
  have hparams : (∀ text ∈ function.params.flatMap Param.texts, Good text) ↔
      ∀ param ∈ function.params, Good param.name ∧ Good param.type := by
    rw [List.forall_mem_flatMap]
    simp [Param.texts]
  simp only [texts, List.forall_mem_cons, List.forall_mem_append, Expr.forall_mem_textsAll, hparams,
    and_assoc]

/-! ## Stems -/

/-- The texts that a form can give rise to. -/
inductive Stems (table : Table) (form : Form) : String → Prop where
  | word {word : String} : form.Within (.atom word) → Stems table form word
  | unquoted {word : String} : form.Within (.atom word) → Stems table form (Text.unquoted word)
  | operator {label operator : String} : table.get? label = some (.binary operator) →
      Stems table form operator
  | emptiness {word : String} : word ∈ Expr.emptinessWords → Stems table form word

theorem Stems.within {table : Table} {outer form : Form} {text : String}
    (h : Stems table form text) (hform : outer.Within form) : Stems table outer text := by
  cases h with
  | word hword => exact .word (hform.trans hword)
  | unquoted hword => exact .unquoted (hform.trans hword)
  | operator hrule => exact .operator hrule
  | emptiness hword => exact .emptiness hword

/-! ## Lowering -/

theorem exists_of_mem_right {α β : Type} {R : α → β → Prop} {as : List α} {bs : List β}
    (h : List.Forall₂ R as bs) {b : β} (hb : b ∈ bs) : ∃ a ∈ as, R a b := by
  induction h with
  | nil => cases hb
  | cons hfirst _ ih =>
    rcases List.mem_cons.mp hb with rfl | hb
    · exact ⟨_, List.mem_cons_self, hfirst⟩
    · obtain ⟨a, ha, hab⟩ := ih hb
      exact ⟨a, List.mem_cons_of_mem _ ha, hab⟩

theorem forall_mem_textsAll_of_forall₂ {lowers : Form → Lowered → Prop} {forms : List Form}
    {values : List Lowered} {P : String → Prop} (hvalues : List.Forall₂ lowers forms values)
    (h : ∀ form ∈ forms, ∀ value, lowers form value → ∀ text ∈ value.expr.texts, P text) :
    ∀ text ∈ Expr.textsAll (values.map (·.expr)), P text := by
  rw [Expr.forall_mem_textsAll, List.forall_mem_map]
  intro value hvalue
  obtain ⟨form, hform, hlowers⟩ := exists_of_mem_right hvalues hvalue
  exact h form hform value hlowers

/-- **Lowering makes up no text.** -/
theorem stems_of_lowerAt {table : Table} {scope : Scope} {depth : Nat} {form : Form}
    {lowered : Lowered} (h : lowerAt table scope depth form = .ok lowered) :
    ∀ text ∈ lowered.expr.texts, Stems table form text := by
  induction form generalizing depth lowered with
  | atom word =>
    rw [lowerAt] at h
    cases h
    intro text htext
    rw [List.mem_singleton.mp htext]
    exact .word .self
  | node children ih =>
    -- What a child gives rise to, the node does; only its own text is left to each rule.
    have hchild : ∀ child ∈ children, ∀ value,
        lowerAt table scope (depth + 1) child = .ok value →
          ∀ text ∈ value.expr.texts, Stems table (.node children) text :=
      fun child hmem value hvalue text htext =>
        (ih child hmem hvalue text htext).within (Form.Within.self.child hmem)
    rcases lowerAt_node_cases h with ⟨rule, hrule, hmade⟩ | ⟨-, happlied⟩
    · cases hmade with
      | binary hl hr =>
        simp only [Expr.texts, List.forall_mem_cons, List.forall_mem_append]
        exact ⟨.operator hrule, hchild _ (by simp) _ hl, hchild _ (by simp) _ hr⟩
      | conditional hc ht hf =>
        simp only [Expr.texts, List.forall_mem_append]
        exact ⟨⟨hchild _ (by simp) _ hc, hchild _ (by simp) _ ht⟩, hchild _ (by simp) _ hf⟩
      | @sequence head type elements values hvalues =>
        have htype : (Form.node (head :: .atom type :: elements)).Within (.atom type) :=
          Form.Within.self.child (by simp [Form.children])
        simp only [Expr.texts, List.forall_mem_cons]
        refine ⟨.unquoted htype, forall_mem_textsAll_of_forall₂ hvalues ?_⟩
        exact fun form hmem => hchild form (by simp [hmem])
      | slice hw hl hh =>
        simp only [Expr.texts, Expr.textsBound, List.forall_mem_append]
        exact ⟨⟨hchild _ (by simp) _ hw, hchild _ (by simp) _ hl⟩, hchild _ (by simp) _ hh⟩
      | isEmpty hw =>
        rw [Expr.texts_isEmpty, List.forall_mem_append, List.forall_mem_append]
        refine ⟨⟨fun text htext => .emptiness ?_, hchild _ (by simp) _ hw⟩,
          fun text htext => .emptiness ?_⟩
        all_goals
          revert text
          decide
    · cases happlied with
      | call hcallee hvalues =>
        simp only [Expr.texts, List.forall_mem_append]
        refine ⟨hchild _ (by simp) _ hcallee, forall_mem_textsAll_of_forall₂ hvalues ?_⟩
        exact fun form hmem => hchild form (by simp [hmem])

theorem LowersTo.stems {table : Table} {form : Form} {expr : Expr} (h : LowersTo table form expr) :
    ∀ text ∈ expr.texts, Stems table form text :=
  stems_of_lowerAt (h .empty)

/-! ## Definitions -/

theorem IsLastBody.mem {form : Form} {forms : List Form} (h : IsLastBody form forms) :
    form ∈ forms := by
  obtain ⟨before, after, rfl, -⟩ := h
  simp

theorem within_of_namedBy {children : List Form} {name : String} (h : NamedBy children name)
    (hname : name ≠ "") : (Form.node children).Within (.atom name) := by
  rcases h with h | ⟨inner, h, rfl⟩
  · exact Form.Within.self.child (List.mem_of_getElem? h)
  · obtain ⟨rest, hinner⟩ := Form.exists_of_headWord_ne hname
    have hsignature : (Form.node children).Within (.node inner) :=
      Form.Within.self.child (List.mem_of_getElem? h)
    have hhead : Form.atom (Form.headWord inner) ∈ inner := by
      rw [hinner]
      exact List.mem_cons_self
    exact hsignature.child hhead

theorem IsParam.stems {table : Table} {form : Form} {param : Param} (h : IsParam form param) :
    Stems table form param.name ∧ Stems table form param.type := by
  obtain ⟨type, rfl, htype⟩ := h
  have hname : (Form.node [.atom param.name, .atom type]).Within (.atom param.name) :=
    Form.Within.self.child (by simp [Form.children])
  have hword : (Form.node [.atom param.name, .atom type]).Within (.atom type) :=
    Form.Within.self.child (by simp [Form.children])
  rw [htype]
  exact ⟨.word hname, .unquoted hword⟩

section

variable {table : Table} {outer : Form} {clauses : List Form}

theorem stems_of_conditions {label : String} {exprs : List Expr}
    (hclauses : ∀ clause ∈ clauses, outer.Within clause)
    (h : List.Forall₂ (IsCondition table) (Outline.allLabelled label clauses) exprs) :
    ∀ expr ∈ exprs, ∀ text ∈ expr.texts, Stems table outer text := by
  intro expr hexpr text htext
  obtain ⟨clause, hclause, head, condition, hchildren, hlowers⟩ := exists_of_mem_right h hexpr
  have hcondition : condition ∈ clause.children := by simp [hchildren]
  exact (hlowers.stems text htext).within
    ((hclauses clause (List.mem_of_mem_filter hclause)).child hcondition)

/-- Every text of a function stems from its definition. -/
theorem Describes.stems {children : List Form} {function : PureFunction}
    (h : Describes table children function) :
    ∀ text ∈ function.texts, Stems table (.node children) text := by
  obtain ⟨hnamed, hname, block, hblock, hdescribes⟩ := h
  have hclauses : ∀ clause ∈ block.children.tail, (Form.node children).Within clause :=
    fun clause hclause =>
      (Form.Within.self.child hblock.mem).child (List.mem_of_mem_tail hclause)
  obtain ⟨args, hargs, hparams⟩ := hdescribes.params
  obtain ⟨returns, hreturns, head, type, htype, hreturnType⟩ := hdescribes.returnType
  obtain ⟨result, hlast, hresult⟩ := hdescribes.result
  refine PureFunction.forall_mem_texts.mpr ⟨.word (within_of_namedBy hnamed hname), ?_, ?_, ?_,
    stems_of_conditions hclauses hdescribes.requires,
    stems_of_conditions hclauses hdescribes.preserves,
    stems_of_conditions hclauses hdescribes.ensures⟩
  · have hmem : Form.atom type ∈ returns.children := by simp [htype]
    rw [hreturnType]
    exact .unquoted ((hclauses returns hreturns.mem).child hmem)
  · intro param hparam
    obtain ⟨form, hform, hisParam⟩ := exists_of_mem_right hparams hparam
    have hwithin := (hclauses args hargs.mem).child (List.mem_of_mem_tail hform)
    exact hisParam.stems.imp (·.within hwithin) (·.within hwithin)
  · intro text htext
    exact (hresult.stems text htext).within (hclauses result hlast.mem)

end

/-! ## Sources -/

section

variable {table : Table} {functions : List PureFunction}

theorem describes_of_compileForm {form : Form}
    (h : (compileForm table form).result = .ok functions) :
    ∀ function ∈ functions, ∃ children, form = .node children ∧
      Describes table children function := by
  intro function hfunction
  by_cases hlabel : form.label = definitionLabel
  · cases form with
    | atom text => simp [definitionLabel] at hlabel
    | node children =>
      obtain ⟨described, rfl, hdescribes⟩ :=
        (compileForm_eq_ok_iff_describes table hlabel functions).mp h
      rw [List.mem_singleton] at hfunction
      rw [hfunction]
      exact ⟨children, rfl, hdescribes⟩
  · rw [compileForm, if_neg hlabel] at h
    cases h
    cases hfunction

/-- Every function comes from a definition. -/
theorem describes_of_compileForms {forms : List Form}
    (h : (compileForms table forms).result = .ok functions) :
    ∀ function ∈ functions, ∃ children, .node children ∈ forms ∧
      Describes table children function := by
  intro function hfunction
  rw [result_compileForms, map_eq_ok_iff] at h
  obtain ⟨groups, hgroups, rfl⟩ := h
  obtain ⟨group, hgroup, hfunction⟩ := List.mem_flatten.mp hfunction
  obtain ⟨form, hform, hcompile⟩ := exists_of_mem_right (mapM_eq_ok_iff.mp hgroups) hgroup
  obtain ⟨children, rfl, hdescribes⟩ := describes_of_compileForm hcompile function hfunction
  exact ⟨children, hform, hdescribes⟩

/-- **Every text of a function stems from one of the forms.** -/
theorem stems_of_compileForms {forms : List Form}
    (h : (compileForms table forms).result = .ok functions) :
    ∀ function ∈ functions, ∀ text ∈ function.texts, ∃ form ∈ forms, Stems table form text := by
  intro function hfunction text htext
  obtain ⟨children, hmem, hdescribes⟩ := describes_of_compileForms h function hfunction
  exact ⟨_, hmem, hdescribes.stems text htext⟩

end

end PureContracts
