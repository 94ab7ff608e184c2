import PureContracts.Proofs.Compilation.Provenance

/-!
# Words stay words

The texts of a compiled function are words of the source, words without their quotes, or operators
of the table.  No delimiter gets into any of them, and so none gets into the text of the function
except where the printer puts it.

* `Source.Unbroken` — texts without delimiters.
* `Expr.Unbroken`, `PureFunction.Unbroken` — expressions and functions in which every text is such.

Principal results
* `Stems.unbroken` — what stems from a well-spelled form is unbroken;
* `unbroken_of_compileText` — the functions of a source are unbroken.
-/

namespace PureContracts

/-! ## Texts -/

/-- A text without delimiters: a word, a part of one, or nothing. -/
def Source.Unbroken (text : String) : Prop := ∀ c ∈ text.toList, c ∉ delimiters

instance (text : String) : Decidable (Source.Unbroken text) :=
  decidable_of_iff (text.toList.all (· ∉ Source.delimiters) = true) (by simp [Source.Unbroken])

namespace Source.Unbroken

theorem notMem {text : String} {c : Char} (h : Unbroken text) (hc : c ∈ delimiters) :
    c ∉ text.toList :=
  fun hmem => h c hmem hc

theorem unquoted {text : String} (h : Unbroken text) : Unbroken (Text.unquoted text) :=
  fun c hc => h c (Text.mem_of_mem_unquoted hc)

end Source.Unbroken

theorem Source.IsWord.unbroken {text : String} (h : IsWord text) : Unbroken text := h.chars

/-! ## Expressions and functions -/

/-- An expression in which every text is unbroken. -/
inductive Expr.Unbroken : Expr → Prop where
  | literal {source : String} : Source.Unbroken source → Unbroken (.literal source)
  | unary {operator : String} {operand : Expr} :
      Source.Unbroken operator → Unbroken operand → Unbroken (.unary operator operand)
  | binary {left right : Expr} {operator : String} :
      Unbroken left → Source.Unbroken operator → Unbroken right →
      Unbroken (.binary left operator right)
  | conditional {condition whenTrue whenFalse : Expr} :
      Unbroken condition → Unbroken whenTrue → Unbroken whenFalse →
      Unbroken (.conditional condition whenTrue whenFalse)
  | sequence {elementType : String} {elements : List Expr} :
      Source.Unbroken elementType → (∀ element ∈ elements, Unbroken element) →
      Unbroken (.sequence elementType elements)
  | slice {whole : Expr} {low high : Option Expr} :
      Unbroken whole → (∀ bound ∈ low, Unbroken bound) → (∀ bound ∈ high, Unbroken bound) →
      Unbroken (.slice whole low high)
  | call {callee : Expr} {arguments : List Expr} :
      Unbroken callee → (∀ argument ∈ arguments, Unbroken argument) →
      Unbroken (.call callee arguments)

/-- A parameter whose name and type are unbroken. -/
structure Param.Unbroken (param : Param) : Prop where
  name : Source.Unbroken param.name
  type : Source.Unbroken param.type

/-- A function in which every text is unbroken. -/
structure PureFunction.Unbroken (function : PureFunction) : Prop where
  name : Source.Unbroken function.name
  params : ∀ param ∈ function.params, param.Unbroken
  returnType : Source.Unbroken function.returnType
  result : function.result.Unbroken
  requires : ∀ condition ∈ function.requires, condition.Unbroken
  preserves : ∀ condition ∈ function.preserves, condition.Unbroken
  ensures : ∀ condition ∈ function.ensures, condition.Unbroken

theorem Expr.unbroken_of_texts {expr : Expr} (h : ∀ text ∈ expr.texts, Source.Unbroken text) :
    expr.Unbroken :=
  Expr.induction_texts (fun _ => .literal) (fun _ _ => .unary) (fun _ _ _ => .binary)
    (fun _ _ _ => .conditional) (fun _ _ => .sequence) (fun _ _ _ => .slice) (fun _ _ => .call) h

theorem PureFunction.unbroken_of_texts {function : PureFunction}
    (h : ∀ text ∈ function.texts, Source.Unbroken text) : function.Unbroken := by
  obtain ⟨hname, hreturnType, hparams, hresult, hrequires, hpreserves, hensures⟩ :=
    forall_mem_texts.mp h
  exact {
    name := hname
    params := fun param hparam => ⟨(hparams param hparam).1, (hparams param hparam).2⟩
    returnType := hreturnType
    result := Expr.unbroken_of_texts hresult
    requires := fun expr hexpr => Expr.unbroken_of_texts (hrequires expr hexpr)
    preserves := fun expr hexpr => Expr.unbroken_of_texts (hpreserves expr hexpr)
    ensures := fun expr hexpr => Expr.unbroken_of_texts (hensures expr hexpr) }

/-! ## Stems -/

/-- A rule whose operator, if it has one, is unbroken. -/
def Rule.Unbroken : Rule → Prop
  | .binary operator => Source.Unbroken operator
  | _ => True

instance (rule : Rule) : Decidable rule.Unbroken :=
  match rule with
  | .binary operator => inferInstanceAs (Decidable (Source.Unbroken operator))
  | .conditional | .sequence | .slice | .isEmpty | .refused _ => .isTrue trivial

/-- A table with unbroken operators. -/
def Table.Unbroken (table : Table) : Prop :=
  ∀ label rule, table.get? label = some rule → rule.Unbroken

theorem Table.unbroken_standard : Table.standard.Unbroken := by
  have hentries : ∀ entry ∈ Table.standard.entries, entry.2.Unbroken := by decide
  intro label rule h
  exact hentries _ (Bindings.mem_of_get? h)

/-- What stems from a well-spelled form is unbroken. -/
theorem Stems.unbroken {table : Table} {form : Form} {text : String} (h : Stems table form text)
    (htable : table.Unbroken) (hform : form.WellSpelled) : Source.Unbroken text := by
  cases h with
  | word hword => exact (hform.isWord_of_within hword).unbroken
  | unquoted hword => exact (hform.isWord_of_within hword).unbroken.unquoted
  | operator hrule => exact htable _ _ hrule
  | emptiness hword =>
    have hwords : ∀ word ∈ Expr.emptinessWords, Source.Unbroken word := by decide
    exact hwords text hword

/-- **The functions of a source are unbroken.** -/
theorem unbroken_of_compileText {table : Table} {functions : List PureFunction}
    (htable : table.Unbroken) {text : String}
    (h : (compileText table text).result = .ok functions) :
    ∀ function ∈ functions, function.Unbroken := by
  rw [result_compileText, bind_eq_ok_iff] at h
  obtain ⟨forms, hread, hcompile⟩ := h
  intro function hfunction
  apply PureFunction.unbroken_of_texts
  intro word hword
  obtain ⟨form, hform, hstems⟩ := stems_of_compileForms hcompile function hfunction word hword
  exact hstems.unbroken htable (Form.wellSpelled_of_read hread form hform)

end PureContracts
