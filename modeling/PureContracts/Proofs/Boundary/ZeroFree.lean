import PureContracts.Artifact
import PureContracts.Proofs.Compilation.Failure
import PureContracts.Proofs.Compilation.Provenance
import PureContracts.Proofs.Form.Fault
import PureContracts.Proofs.Json.Lossless

/-!
# No zero character is made

A zero character is no delimiter, so nothing keeps it out of a word: in a source with one it gets as
far as the artifact.  But no pass and no printer brings one in.  What is printed of a source without
zero characters, be it the output or the message of an error, has none either.

* `Text.ZeroFree` — texts without a zero character.
* `Form.ZeroFree` — forms in which every word is such a text.

Principal results
* `zeroFree_of_read` — what is read from a zero-free text is zero-free;
* `zeroFree_of_compileText` — and so are the functions that it compiles to;
* `Artifact.zeroFree_chars`, `Form.zeroFree_prettyAll`, `Json.zeroFree_write`, `Text.zeroFree_hex` —
  the printers;
* `zeroFree_of_read_error`, `zeroFree_of_compileText_error` — the messages.
-/

namespace PureContracts

/-! ## Texts -/

namespace Text

/-- A text without a zero character. -/
def ZeroFree (text : List Char) : Prop := '\x00' ∉ text

instance (text : List Char) : Decidable (ZeroFree text) :=
  inferInstanceAs (Decidable ('\x00' ∉ text))

@[simp] theorem zeroFree_nil : ZeroFree [] := List.not_mem_nil

@[simp] theorem zeroFree_cons {c : Char} {text : List Char} :
    ZeroFree (c :: text) ↔ c ≠ '\x00' ∧ ZeroFree text := by
  rw [ZeroFree, List.mem_cons, not_or, ne_comm, ZeroFree]

@[simp] theorem zeroFree_append {first second : List Char} :
    ZeroFree (first ++ second) ↔ ZeroFree first ∧ ZeroFree second := by
  rw [ZeroFree, List.mem_append, not_or, ZeroFree, ZeroFree]

@[simp] theorem zeroFree_replicate_blank (count : Nat) : ZeroFree (List.replicate count ' ') := by
  simp [ZeroFree]

theorem ZeroFree.subset {text other : List Char} (h : ZeroFree text) (hother : other ⊆ text) :
    ZeroFree other :=
  fun hzero => h (hother hzero)

theorem ZeroFree.concat {first second : String} (hfirst : ZeroFree first.toList)
    (hsecond : ZeroFree second.toList) : ZeroFree (first ++ second).toList := by
  rw [String.toList_append, zeroFree_append]
  exact ⟨hfirst, hsecond⟩

theorem ZeroFree.unquoted {text : String} (h : ZeroFree text.toList) :
    ZeroFree (unquoted text).toList :=
  fun hzero => h (mem_of_mem_unquoted hzero)

theorem zeroFree_flatMap {α : Type} {as : List α} {chars : α → List Char}
    (h : ∀ a ∈ as, ZeroFree (chars a)) : ZeroFree (as.flatMap chars) := by
  intro hzero
  obtain ⟨a, ha, hzero⟩ := List.mem_flatMap.mp hzero
  exact h a ha hzero

theorem digitChar_ne_zero : ∀ digit < 16, Nat.digitChar digit ≠ '\x00' := by decide

theorem zeroFree_hex (bytes : List UInt8) : ZeroFree (hex bytes).toList := by
  rw [hex, String.toList_ofList]
  apply zeroFree_flatMap
  intro byte _
  have hbyte : byte.toNat < 256 := byte.toNat_lt
  have hhigh : byte.toNat / 16 < 16 := by omega
  have hlow : byte.toNat % 16 < 16 := by omega
  simp [hexDigits, digitChar_ne_zero _ hhigh, digitChar_ne_zero _ hlow]

@[simp] theorem zeroFree_repr (n : Nat) : ZeroFree n.repr.toList := by
  intro hzero
  rw [Nat.toList_repr] at hzero
  have hdigit := Nat.isDigit_of_mem_toDigits (by decide) (by decide) hzero
  exact absurd hdigit (by decide)

theorem zeroFree_intercalate {separator : List Char} {pieces : List (List Char)}
    (hseparator : ZeroFree separator) (h : ∀ piece ∈ pieces, ZeroFree piece) :
    ZeroFree (List.intercalate separator pieces) :=
  notMem_intercalate hseparator h

end Text

open Text (zeroFree_nil zeroFree_append zeroFree_intercalate zeroFree_flatMap digitChar_ne_zero)

/-! ## JSON -/

namespace Json

/-- The writer escapes zero characters, whatever the strings hold. -/
theorem zeroFree_escaped (c : Char) : Text.ZeroFree (escaped c) := by
  by_cases hshort : c ∈ shortEscapes
  · simp only [shortEscapes, List.mem_cons, List.not_mem_nil, or_false] at hshort
    rcases hshort with rfl | rfl | rfl | rfl | rfl | rfl | rfl <;> decide
  · simp only [shortEscapes, List.mem_cons, List.not_mem_nil, or_false, not_or] at hshort
    by_cases hcontrol : c.toNat < 32
    · have hhigh := digitChar_ne_zero (c.toNat / 16) (by omega)
      have hlow := digitChar_ne_zero (c.toNat % 16) (by omega)
      simp [escaped, hshort, hcontrol, hhigh, hlow]
    · have hplain : escaped c = [c] := by simp [escaped, hshort, hcontrol]
      have hne : c ≠ '\x00' := by
        rintro rfl
        exact hcontrol (by decide)
      simp [hplain, hne]

theorem zeroFree_quoted (text : String) : Text.ZeroFree (quoted text) := by
  have hinside : Text.ZeroFree (text.toList.flatMap escaped) :=
    zeroFree_flatMap fun c _ => zeroFree_escaped c
  simp [quoted, hinside]

theorem zeroFree_bracketed {level : Nat} {opening closing : Char} {pieces : List (List Char)}
    (hopening : opening ≠ '\x00') (hclosing : closing ≠ '\x00')
    (hpieces : ∀ piece ∈ pieces, Text.ZeroFree piece) :
    Text.ZeroFree (bracketed .indented level opening closing pieces) := by
  unfold bracketed
  split
  · simp [hopening, hclosing]
  · have hinside :
        Text.ZeroFree (List.intercalate (',' :: Style.indented.lineBreak (level + 1)) pieces) :=
      zeroFree_intercalate (by simp [Style.indented]) hpieces
    simp [Style.indented] at hinside ⊢
    exact ⟨hopening, hinside, hclosing⟩

/-- **The text of a value has no zero character, whatever its strings hold.** -/
theorem zeroFree_write (value : Json) (level : Nat) :
    Text.ZeroFree (write .indented level value) := by
  induction value generalizing level with
  | null =>
    have hnull : Text.ZeroFree "null".toList := by decide
    exact hnull
  | bool value =>
    have hwords : Text.ZeroFree "true".toList ∧ Text.ZeroFree "false".toList := by decide
    cases value with
    | true => exact hwords.1
    | false => exact hwords.2
  | string text => exact zeroFree_quoted text
  | array items ih =>
    rw [write_array]
    refine zeroFree_bracketed (by decide) (by decide) ?_
    rw [List.forall_mem_map]
    exact fun item hitem => ih item hitem (level + 1)
  | object fields ih =>
    rw [write_object]
    refine zeroFree_bracketed (by decide) (by decide) ?_
    rw [List.forall_mem_map]
    rintro ⟨key, value⟩ hfield
    rw [writeField, zeroFree_append, zeroFree_append]
    exact ⟨⟨zeroFree_quoted key, by decide⟩, ih _ hfield (level + 1)⟩

end Json

/-! ## Functions and artifacts -/

theorem Expr.zeroFree_chars {expr : Expr} (h : ∀ text ∈ expr.texts, Text.ZeroFree text.toList) :
    Text.ZeroFree expr.chars := by
  have hitems : ∀ exprs : List Expr, (∀ expr ∈ exprs, Text.ZeroFree expr.chars) →
      Text.ZeroFree (List.intercalate comma (charsAll exprs)) := by
    intro exprs hexprs
    rw [charsAll_eq_map]
    exact zeroFree_intercalate (by decide) (List.forall_mem_map.mpr hexprs)
  have hbound : ∀ bound : Option Expr, (∀ expr ∈ bound, Text.ZeroFree expr.chars) →
      Text.ZeroFree (charsBound bound) := by
    rintro (_ | bound) h
    · exact zeroFree_nil
    · exact h bound rfl
  refine induction_texts (motive := fun expr => Text.ZeroFree expr.chars) ?_ ?_ ?_ ?_ ?_ ?_ ?_ h
  · intro source hsource
    exact hsource
  · intro operator operand hoperator hoperand
    simp [chars, hoperator, hoperand]
  · intro left operator right hleft hoperator hright
    simp [chars, hleft, hoperator, hright]
  · intro condition whenTrue whenFalse hcondition htrue hfalse
    simp [chars, hcondition, htrue, hfalse]
  · intro elementType elements htype helements
    simp [chars, htype, hitems elements helements]
  · intro whole low high hwhole hlow hhigh
    simp [chars, hwhole, hbound low hlow, hbound high hhigh]
  · intro callee arguments hcallee harguments
    simp [chars, hcallee, hitems arguments harguments]

theorem PureFunction.zeroFree_chars {function : PureFunction}
    (h : ∀ text ∈ function.texts, Text.ZeroFree text.toList) : Text.ZeroFree function.chars := by
  obtain ⟨hname, hreturnType, hparams, hresult, hrequires, hpreserves, hensures⟩ :=
    forall_mem_texts.mp h
  have hdeclared :
      Text.ZeroFree (List.intercalate Expr.comma (function.params.map Param.chars)) := by
    refine zeroFree_intercalate (by decide) (List.forall_mem_map.mpr fun param hparam => ?_)
    simp [Param.chars, hparams param hparam]
  have hlines : ∀ keyword : String, Text.ZeroFree keyword.toList → ∀ conditions : List Expr,
      (∀ expr ∈ conditions, ∀ text ∈ expr.texts, Text.ZeroFree text.toList) →
        ∀ line ∈ conditions.map (conditionLine keyword), Text.ZeroFree line := by
    intro keyword hkeyword conditions hconditions
    refine List.forall_mem_map.mpr fun condition hcondition => ?_
    simp [conditionLine, hkeyword, Expr.zeroFree_chars (hconditions condition hcondition)]
  have hbody : Text.ZeroFree function.bodyLine := by
    unfold bodyLine
    simp only [zeroFree_append]
    exact ⟨⟨⟨⟨⟨⟨⟨⟨by decide, hname⟩, by decide⟩, hdeclared⟩, by decide⟩, hreturnType⟩, by decide⟩,
      Expr.zeroFree_chars hresult⟩, by decide⟩
  refine zeroFree_intercalate (by decide) ?_
  simp only [lines, List.forall_mem_append, List.forall_mem_cons]
  exact ⟨⟨⟨hlines _ (by decide) _ hrequires, hlines _ (by decide) _ hpreserves⟩,
    hlines _ (by decide) _ hensures⟩, by decide, hbody, by simp⟩

theorem Artifact.zeroFree_chars {package : String} {functions : List PureFunction}
    (hpackage : Text.ZeroFree package.toList)
    (h : ∀ function ∈ functions, ∀ text ∈ function.texts, Text.ZeroFree text.toList) :
    Text.ZeroFree (chars package functions) := by
  have hfunctions : Text.ZeroFree
      (List.intercalate ['\n'] (functions.map fun function => function.chars ++ ['\n'])) := by
    refine zeroFree_intercalate (by decide) (List.forall_mem_map.mpr fun function hfunction => ?_)
    simp [PureFunction.zeroFree_chars (h function hfunction)]
  unfold chars
  simp only [zeroFree_append]
  exact ⟨⟨⟨⟨⟨by decide, hpackage⟩, by decide⟩, by decide⟩, by decide⟩, hfunctions⟩

/-! ## Forms -/

namespace Form

/-- A form in which no word has a zero character. -/
def ZeroFree (form : Form) : Prop := ∀ word, form.Within (.atom word) → Text.ZeroFree word.toList

theorem ZeroFree.within {outer inner : Form} (h : outer.ZeroFree) (hinner : outer.Within inner) :
    inner.ZeroFree :=
  fun word hword => h word (hinner.trans hword)

theorem ZeroFree.headWord {children : List Form} (h : (Form.node children).ZeroFree) :
    Text.ZeroFree (Form.headWord children).toList := by
  by_cases hhead : Form.headWord children = ""
  · rw [hhead]
    decide
  · obtain ⟨rest, hchildren⟩ := exists_of_headWord_ne hhead
    have hmem : Form.atom (Form.headWord children) ∈ children := by
      rw [hchildren]
      exact List.mem_cons_self
    exact h _ (Within.self.child hmem)

theorem zeroFree_separator (indent : Nat) (broken : Bool) :
    Text.ZeroFree (Block.separator indent broken) := by
  cases broken <;> simp [Block.separator]

theorem zeroFree_layout {form : Form} (h : form.ZeroFree) (indent : Nat) :
    Text.ZeroFree (layout indent form).text := by
  induction form generalizing indent with
  | atom text => exact h text .self
  | node children ih =>
    have hchildren : ∀ child ∈ children, Text.ZeroFree (layout (indent + 1) child).text :=
      fun child hmem => ih child hmem (h.within (Within.self.child hmem)) (indent + 1)
    rw [layout, layoutAll_eq_map, Block.enclose, List.map_map]
    have hinside := zeroFree_intercalate
      (zeroFree_separator indent (Block.breaks (children.map (layout (indent + 1)))))
      (List.forall_mem_map.mpr hchildren)
    simp [Function.comp_def, hinside]

theorem zeroFree_pretty {form : Form} (h : form.ZeroFree) : Text.ZeroFree form.pretty.toList := by
  rw [pretty, String.toList_ofList]
  exact zeroFree_layout h 1

theorem zeroFree_prettyAll {forms : List Form} (h : ∀ form ∈ forms, form.ZeroFree) :
    Text.ZeroFree (prettyAll forms).toList := by
  rw [prettyAll, String.toList_ofList]
  exact zeroFree_intercalate (by decide)
    (List.forall_mem_map.mpr fun form hform => zeroFree_pretty (h form hform))

end Form

/-! ## Sources -/

/-- What is read from a zero-free text is zero-free. -/
theorem zeroFree_of_read {text : String} {forms : List Form} (htext : Text.ZeroFree text.toList)
    (h : Form.read text = .ok forms) : ∀ form ∈ forms, form.ZeroFree :=
  fun _ hform _ hword => htext.subset (Form.isInfix_of_read h hform hword).subset

/-- The texts that a rule holds. -/
def Rule.texts : Rule → List String
  | .binary operator => [operator]
  | .refused reason => [reason]
  | .conditional | .sequence | .slice | .isEmpty => []

/-- A table whose rules hold no zero character. -/
def Table.ZeroFree (table : Table) : Prop :=
  ∀ label rule, table.get? label = some rule → ∀ text ∈ rule.texts, Text.ZeroFree text.toList

theorem Table.zeroFree_standard : Table.standard.ZeroFree := by
  have hentries : ∀ entry ∈ Table.standard.entries, ∀ text ∈ entry.2.texts,
      Text.ZeroFree text.toList := by decide
  intro label rule h
  exact hentries _ (Bindings.mem_of_get? h)

section

variable {table : Table} (htable : table.ZeroFree)

include htable

theorem Stems.zeroFree {form : Form} {text : String} (hform : form.ZeroFree)
    (h : Stems table form text) : Text.ZeroFree text.toList := by
  cases h with
  | word hword => exact hform _ hword
  | unquoted hword => exact (hform _ hword).unquoted
  | operator hrule => exact htable _ _ hrule _ (List.mem_singleton_self _)
  | emptiness hword =>
    have hwords : ∀ word ∈ Expr.emptinessWords, Text.ZeroFree word.toList := by decide
    exact hwords text hword

/-- **A zero-free text compiles to functions without zero characters.** -/
theorem zeroFree_of_compileText {text : String} {functions : List PureFunction}
    (htext : Text.ZeroFree text.toList) (h : (compileText table text).result = .ok functions) :
    ∀ function ∈ functions, ∀ word ∈ function.texts, Text.ZeroFree word.toList := by
  rw [result_compileText, bind_eq_ok_iff] at h
  obtain ⟨forms, hread, hcompile⟩ := h
  intro function hfunction word hword
  obtain ⟨form, hform, hstems⟩ := stems_of_compileForms hcompile function hfunction word hword
  exact hstems.zeroFree htable (zeroFree_of_read htext hread form hform)

end

/-! ## Messages -/

theorem Position.zeroFree_render (p : Position) : Text.ZeroFree p.render.toList :=
  ((Text.zeroFree_repr _).concat (by decide)).concat (Text.zeroFree_repr _)

/-- A fault at a place is worded without zero characters. -/
theorem ReadFault.zeroFree_text {fault : ReadFault} {place : Position}
    (h : fault.place? = some place) : Text.ZeroFree fault.text.toList := by
  cases fault with
  | strayClosing position => exact .concat (by decide) position.zeroFree_render
  | tooDeep limit position =>
    exact .concat (.concat (.concat (by decide) (Text.zeroFree_repr _)) (by decide))
      position.zeroFree_render
  | unclosed position =>
    exact .concat (.concat (by decide) position.zeroFree_render) (by decide)
  | described text => cases h

/-- The message of a text that cannot be read shows none of its characters. -/
theorem zeroFree_of_read_error {text : String} {e : Error} (h : Form.read text = .error e) :
    Text.ZeroFree e.message.toList := by
  obtain ⟨fault, hfault, rfl⟩ := Form.readTokens_eq_error_iff.mp h
  obtain ⟨place, hplace⟩ := Form.faultFrom_place? hfault
  exact .concat (by decide) (ReadFault.zeroFree_text hplace)

theorem Error.zeroFree_unsupported {form : String} {refusal : Refusal}
    (hform : Text.ZeroFree form.toList) (hrefusal : Text.ZeroFree refusal.text.toList) :
    Text.ZeroFree (Error.unsupported form refusal).message.toList :=
  .concat (.concat (.concat (by decide) hform) (by decide)) hrefusal

theorem Error.zeroFree_missing {form : String} {part : MissingPart}
    (hform : Text.ZeroFree form.toList) (hpart : Text.ZeroFree part.text.toList) :
    Text.ZeroFree (Error.missing form part).message.toList :=
  .concat (.concat (.concat (by decide) hform) (by decide)) hpart

theorem Rule.zeroFree_objection {rule : Rule} {children : List Form} {refusal : Refusal}
    (hrule : ∀ text ∈ rule.texts, Text.ZeroFree text.toList)
    (h : rule.objection? children = some refusal) : Text.ZeroFree refusal.text.toList := by
  rcases Rule.objection?_cases h with ⟨expected, found, rfl⟩ | ⟨least, found, rfl⟩ | rfl |
    ⟨reason, rfl, rfl⟩
  · exact .concat (.concat (.concat (by decide) (Text.zeroFree_repr _)) (by decide))
      (Text.zeroFree_repr _)
  · exact .concat (.concat (.concat (by decide) (Text.zeroFree_repr _)) (by decide))
      (Text.zeroFree_repr _)
  · decide
  · exact hrule reason (List.mem_singleton_self _)

theorem Site.zeroFree_offence {table : Table} (htable : table.ZeroFree) {site : Site} {e : Error}
    (hsite : (Form.node site.children).ZeroFree) (h : site.offence? table = some e) :
    Text.ZeroFree e.message.toList := by
  rcases Site.offence?_cases h with ⟨-, rfl⟩ | ⟨rule, refusal, hrule, hobjection, rfl⟩ | rfl
  · apply Error.zeroFree_unsupported
    · unfold nodeName
      split
      · decide
      · exact hsite.headWord
    · exact .concat (.concat (by decide) (Text.zeroFree_repr _)) (by decide)
  · exact Error.zeroFree_unsupported hsite.headWord
      (Rule.zeroFree_objection (htable _ rule hrule) hobjection)
  · exact Error.zeroFree_missing (by decide) (by decide)

theorem BlockLacks.zeroFree {outer : Form} {clauses : List Form} {part : MissingPart}
    (houter : outer.ZeroFree) (hclauses : ∀ clause ∈ clauses, outer.Within clause)
    (h : BlockLacks clauses part) : Text.ZeroFree part.text.toList := by
  cases h with
  | parameters | returnType | wellFormedReturnType | body => decide
  | wellFormedParameter hclause hform =>
    have hwithin := (hclauses _ hclause.mem).child (List.mem_of_mem_tail hform)
    exact .concat (.concat (by decide) (Form.zeroFree_pretty (houter.within hwithin))) (by decide)
  | wellFormedCondition _ hlabel =>
    have hlabels : ∀ label ∈ conditionLabels, Text.ZeroFree label.toList := by decide
    exact (hlabels _ hlabel).concat (by decide)

theorem Blames.zeroFree {table : Table} (htable : table.ZeroFree) {children : List Form} {e : Error}
    (hform : (Form.node children).ZeroFree) (h : Blames table children e) :
    Text.ZeroFree e.message.toList := by
  cases h with
  | unnamed _ => exact Error.zeroFree_missing (by decide) (by decide)
  | lacking hnamed hname hlacks =>
    apply Error.zeroFree_missing
    · exact .concat (by decide) (hform _ (within_of_namedBy hnamed hname))
    · cases hlacks with
      | block _ => decide
      | inBlock hblock hlacks =>
        refine hlacks.zeroFree hform fun clause hclause => ?_
        exact (Form.Within.self.child hblock.mem).child (List.mem_of_mem_tail hclause)
  | lowering hwithin herror =>
    obtain ⟨site, hsite, hoffence⟩ := offence_of_lowerAt herror
    exact Site.zeroFree_offence htable
      ((hform.within hwithin).within (Form.within_of_mem_sitesAt hsite)) hoffence

/-- **A zero-free text that does not compile is answered with a message without zero characters**,
though messages quote words and whole forms. -/
theorem zeroFree_of_compileText_error {table : Table} (htable : table.ZeroFree) {text : String}
    {e : Error} (htext : Text.ZeroFree text.toList)
    (h : (compileText table text).result = .error e) : Text.ZeroFree e.message.toList := by
  rw [result_compileText] at h
  rcases bind_eq_error_iff.mp h with hread | ⟨forms, hread, h⟩
  · exact zeroFree_of_read_error hread
  · obtain ⟨before, form, after, rfl, -, hform⟩ := compileForms_eq_error_iff.mp h
    obtain ⟨children, rfl, hblames⟩ := blames_of_compileForm hform
    exact hblames.zeroFree htable (zeroFree_of_read htext hread _ (by simp))

end PureContracts
