import PureContracts.Proofs.Compilation.Events
import PureContracts.Proofs.Form.Within

/-!
# Only the bindings that a form uses matter

A table is looked up at the label of every node that is lowered, and nowhere else.  Two tables that
agree at the labels of a form lower it alike, to the same expression or with the same error, however
they were put together and whatever else they bind.

* `Form.labels` — the labels of the nodes of a form.
* `Bindings.bindingAfter?` — what a key is bound to once some pairs were bound one after the other.
* `Table.Interchangeable` — tables that no form and no source tells apart.

Principal results
* `get?_insertAll` — the last pair that binds a key counts;
* `lowerAt_eq_of_agree` — tables that agree at the labels of a form lower it alike;
* `compileForm_eq_of_lower_eq` — a form is compiled alike where all that stands in it is lowered
  alike;
* `only_used_bindings_matter` — both for tables that were built by any steps, and what follows for
  rebinding, reordering and superfluous steps.
-/

namespace PureContracts

/-! ## The last binding of a key -/

namespace Bindings

variable {κ α : Type} [DecidableEq κ]

/-- The value that some pairs give to a key: of two pairs with the key the later counts. -/
def lastValue? (pairs : List (κ × α)) (key : κ) : Option α :=
  (pairs.filter fun pair => pair.1 == key).getLast?.map Prod.snd

/-- What a key is bound to once some pairs were bound: to its last value among them, and without one
as before. -/
def bindingAfter? (bindings : Bindings κ α) (pairs : List (κ × α)) (key : κ) : Option α :=
  (lastValue? pairs key).or (bindings.get? key)

theorem lastValue?_append (first second : List (κ × α)) (key : κ) :
    lastValue? (first ++ second) key = (lastValue? second key).or (lastValue? first key) := by
  rw [lastValue?, List.filter_append, List.getLast?_append, Option.map_or]
  rfl

theorem lastValue?_cons (first key : κ) (value : α) (rest : List (κ × α)) :
    lastValue? ((first, value) :: rest) key =
      (lastValue? rest key).or (if key = first then some value else none) := by
  have hsingle : lastValue? [(first, value)] key = if key = first then some value else none := by
    by_cases h : key = first
    · simp [lastValue?, h]
    · simp [lastValue?, h, Ne.symm h]
  rw [← hsingle, ← lastValue?_append, List.singleton_append]

/-- Leaving out the pairs of another key changes nothing. -/
theorem lastValue?_filter_ne {key other : κ} (h : key ≠ other) (pairs : List (κ × α)) :
    lastValue? (pairs.filter fun pair => pair.1 != other) key = lastValue? pairs key := by
  have hfilter : ∀ pair ∈ pairs, (pair.1 == key && pair.1 != other) = (pair.1 == key) := by
    intro pair _
    by_cases hpair : pair.1 = key
    · simp [hpair, h]
    · simp [hpair]
  rw [lastValue?, List.filter_filter, List.filter_congr hfilter, lastValue?]

/-- **The last pair that binds a key counts.** -/
theorem get?_insertAll (bindings : Bindings κ α) (pairs : List (κ × α)) (key : κ) :
    (bindings.insertAll pairs).get? key = bindings.bindingAfter? pairs key := by
  induction pairs generalizing bindings with
  | nil => rfl
  | cons pair rest ih =>
    obtain ⟨first, value⟩ := pair
    rw [bindingAfter?, lastValue?_cons]
    refine (ih _).trans ?_
    rw [bindingAfter?, get?_insert, Option.or_assoc]
    by_cases h : key = first
    · simp [h]
    · simp [h]

end Bindings

/-! ## The labels of a form -/

namespace Form

mutual

/-- The labels of the nodes of a form. -/
def labels : Form → List String
  | .atom _ => []
  | .node children => headWord children :: labelsAll children

/-- The labels of the nodes of some forms. -/
def labelsAll : List Form → List String
  | [] => []
  | form :: rest => form.labels ++ labelsAll rest

end

theorem mem_labelsAll {forms : List Form} {label : String} :
    label ∈ labelsAll forms ↔ ∃ form ∈ forms, label ∈ form.labels := by
  induction forms with
  | nil => simp [labelsAll]
  | cons form rest ih => simp [labelsAll, ih]

theorem labels_subset_of_mem_children {form child : Form} (h : child ∈ form.children) :
    child.labels ⊆ form.labels := by
  intro label hlabel
  cases form with
  | atom text => cases h
  | node children =>
    rw [labels]
    exact List.mem_cons_of_mem _ (mem_labelsAll.mpr ⟨child, h, hlabel⟩)

theorem Within.labels_subset {outer inner : Form} (h : outer.Within inner) :
    inner.labels ⊆ outer.labels := by
  induction h with
  | self => exact List.Subset.refl _
  | child _ hinner ih => exact List.Subset.trans (labels_subset_of_mem_children hinner) ih

end Form

/-! ## Lowering and compiling -/

section

variable {first second : Table}

/-- **Tables that agree at the labels of a form lower it alike.** -/
theorem lowerAt_eq_of_agree {scope : Scope} {depth : Nat} {form : Form}
    (h : ∀ label ∈ form.labels, first.get? label = second.get? label) :
    lowerAt first scope depth form = lowerAt second scope depth form := by
  induction form generalizing depth with
  | atom text => rw [lowerAt, lowerAt]
  | node children ih =>
    have hoperands : operandsAt first scope (depth + 1) children =
        operandsAt second scope (depth + 1) children := by
      apply operandsAt_congr
      intro child hchild
      exact ih child hchild fun label hlabel =>
        h label (Form.labels_subset_of_mem_children hchild hlabel)
    have hrule : first.get? (Form.headWord children) = second.get? (Form.headWord children) := by
      apply h
      rw [Form.labels]
      exact List.mem_cons_self
    rw [lowerAt, lowerAt, hoperands, hrule]

namespace Outline

variable {scope : Scope} {name : String}

theorem discard_eq_of_lower_eq {forms : List Form}
    (h : ∀ form ∈ forms, lower first scope form = lower second scope form) :
    discard first scope name forms = discard second scope name forms := by
  induction forms with
  | nil => rfl
  | cons form rest ih =>
    rw [List.forall_mem_cons] at h
    rw [discard, discard, h.1, ih h.2]

theorem conditions_eq_of_lower_eq {label : String} {clauses : List Form}
    (h : ∀ clause ∈ clauses, ∀ condition ∈ clause.children,
      lower first scope condition = lower second scope condition) :
    conditions first scope name label clauses = conditions second scope name label clauses := by
  induction clauses with
  | nil => rfl
  | cons clause rest ih =>
    rw [List.forall_mem_cons] at h
    rw [conditions, conditions, ih h.2]
    split
    · rename_i head condition hchildren
      rw [h.1 condition (by simp [hchildren])]
    · rfl

/-- An outline is compiled alike where its body and its conditions are lowered alike. -/
theorem compile_eq_of_lower_eq {outline : Outline}
    (hbody : ∀ form ∈ outline.discarded ++ [outline.result], ∀ scope,
      lower first scope form = lower second scope form)
    (hconditions : ∀ clause ∈ outline.requires ++ outline.preserves ++ outline.ensures,
      ∀ condition ∈ clause.children, ∀ scope,
        lower first scope condition = lower second scope condition) :
    outline.compile first = outline.compile second := by
  have hdiscard : ∀ scope, discard first scope outline.name outline.discarded =
      discard second scope outline.name outline.discarded := fun scope =>
    discard_eq_of_lower_eq fun form hform => hbody form (List.mem_append_left _ hform) scope
  have hkind : ∀ scope label clauses,
      clauses ⊆ outline.requires ++ outline.preserves ++ outline.ensures →
      conditions first scope outline.name label clauses =
        conditions second scope outline.name label clauses := by
    intro scope label clauses hclauses
    apply conditions_eq_of_lower_eq
    intro clause hclause condition hcondition
    exact hconditions clause (hclauses hclause) condition hcondition scope
  rw [compile, compile, hdiscard, contract, contract, hbody outline.result (by simp),
    hkind _ _ outline.requires (by simp), hkind _ _ outline.preserves (by simp),
    hkind _ _ outline.ensures (by simp)]

/-- All that an outline records stands inside the definition. -/
theorem within_of_ofChildren {form : Form} {outline : Outline}
    (h : ofChildren form.children = .ok outline) :
    (∀ inner ∈ outline.discarded ++ [outline.result], form.Within inner) ∧
      ∀ clause ∈ outline.requires ++ outline.preserves ++ outline.ensures, form.Within clause := by
  obtain ⟨-, -, block, hblock, hrecords⟩ := ofChildren_eq_ok_iff.mp h
  have hclause : ∀ clause ∈ block.children.tail, form.Within clause := fun clause hclause =>
    (Form.Within.self.child hblock.mem).child (List.mem_of_mem_tail hclause)
  have hkind : ∀ label, ∀ clause ∈ allLabelled label block.children.tail, form.Within clause :=
    fun _ clause hmem => hclause clause (List.mem_of_mem_filter hmem)
  rw [← hrecords.body, hrecords.requires, hrecords.preserves, hrecords.ensures]
  constructor
  · exact fun inner hinner => hclause inner (mem_bodyForms.mp hinner).1
  · simp only [List.forall_mem_append]
    exact ⟨⟨hkind _, hkind _⟩, hkind _⟩

end Outline

/-- A form is compiled alike where all that stands in it is lowered alike. -/
theorem compileForm_eq_of_lower_eq {form : Form}
    (h : ∀ inner, form.Within inner → ∀ scope,
      lower first scope inner = lower second scope inner) :
    compileForm first form = compileForm second form := by
  by_cases hlabel : form.label = definitionLabel
  · cases houtline : Outline.ofChildren form.children with
    | error e =>
      rw [compileForm, compileForm, if_pos hlabel, if_pos hlabel, houtline, Trace.bind_error rfl,
        Trace.bind_error rfl]
    | ok outline =>
      obtain ⟨hbody, hclauses⟩ := Outline.within_of_ofChildren houtline
      rw [compileForm_of_outline hlabel houtline, compileForm_of_outline hlabel houtline]
      apply Outline.compile_eq_of_lower_eq
      · exact fun inner hinner => h inner (hbody inner hinner)
      · exact fun clause hclause condition hcondition =>
          h condition ((hclauses clause hclause).child hcondition)
  · rw [compileForm, compileForm, if_neg hlabel, if_neg hlabel]

theorem compileForms_eq_of_agree {forms : List Form}
    (h : ∀ form ∈ forms, ∀ label ∈ form.labels, first.get? label = second.get? label) :
    compileForms first forms = compileForms second forms := by
  induction forms with
  | nil => rfl
  | cons form rest ih =>
    rw [List.forall_mem_cons] at h
    have hform : compileForm first form = compileForm second form := by
      apply compileForm_eq_of_lower_eq
      intro inner hinner scope
      exact lowerAt_eq_of_agree fun label hlabel => h.1 label (hinner.labels_subset hlabel)
    rw [compileForms, compileForms, hform, ih h.2]

end

/-! ## Tables built step by step -/

/-- Tables that no form and no source tells apart. -/
structure Table.Interchangeable (first second : Table) : Prop where
  lower_eq : ∀ scope form, lower first scope form = lower second scope form
  compileForms_eq : ∀ forms, compileForms first forms = compileForms second forms

theorem Table.interchangeable_of_get? {first second : Table}
    (h : ∀ label, first.get? label = second.get? label) : first.Interchangeable second where
  lower_eq _ _ := lowerAt_eq_of_agree fun label _ => h label
  compileForms_eq _ := compileForms_eq_of_agree fun _ _ label _ => h label

section

variable (base : Table) (earlier later : List (String × Rule)) (label : String) (rule : Rule)

/-- A step hides all earlier bindings of its label, those of the table that it started from
included. -/
theorem Table.get?_insertAll_overriding {other : Table}
    (h : ∀ word, word ≠ label → base.get? word = other.get? word) (word : String) :
    (base.insertAll (earlier ++ (label, rule) :: later)).get? word =
      (other.insertAll
        ((earlier.filter fun step => step.1 != label) ++ (label, rule) :: later)).get? word := by
  simp only [Bindings.get?_insertAll, Bindings.bindingAfter?, Bindings.lastValue?_append,
    Bindings.lastValue?_cons]
  by_cases hword : word = label
  · simp [hword]
  · rw [h word hword, Bindings.lastValue?_filter_ne hword]

/-- Steps on different labels commute. -/
theorem Table.get?_insertAll_swapped {other : String} (rule' : Rule) (h : label ≠ other)
    (word : String) :
    (base.insertAll (earlier ++ (label, rule) :: (other, rule') :: later)).get? word =
      (base.insertAll (earlier ++ (other, rule') :: (label, rule) :: later)).get? word := by
  simp only [Bindings.get?_insertAll, Bindings.bindingAfter?, Bindings.lastValue?_append,
    Bindings.lastValue?_cons]
  by_cases hword : word = label
  · simp [hword, h]
  · simp [hword]

/-- A step is seen at its own label only. -/
theorem Table.get?_insertAll_superfluous {word : String} (h : word ≠ label) :
    (base.insertAll (earlier ++ (label, rule) :: later)).get? word =
      (base.insertAll (earlier ++ later)).get? word := by
  simp only [Bindings.get?_insertAll, Bindings.bindingAfter?, Bindings.lastValue?_append,
    Bindings.lastValue?_cons, if_neg h, Option.or_none]

end

/-- **Only the bindings that a form uses matter.**  Tables are built from any table by any steps.
Where two of them give every label of a form the same last binding, or both none, the form is
lowered alike, and forms are compiled alike, events included.  So a step hides all earlier bindings
of its label, steps on different labels commute, and a step for a label that does not occur changes
nothing. -/
theorem only_used_bindings_matter (base : Table) (steps : List (String × Rule)) :
    (∀ (other : Table) (others : List (String × Rule)),
      (∀ form : Form, (∀ label ∈ form.labels,
          base.bindingAfter? steps label = other.bindingAfter? others label) →
        ∀ scope, lower (base.insertAll steps) scope form =
          lower (other.insertAll others) scope form) ∧
      ∀ forms : List Form, (∀ form ∈ forms, ∀ label ∈ form.labels,
          base.bindingAfter? steps label = other.bindingAfter? others label) →
        compileForms (base.insertAll steps) forms = compileForms (other.insertAll others) forms) ∧
    ∀ (label : String) (rule : Rule) (later : List (String × Rule)),
      (∀ other : Table, (∀ word, word ≠ label → base.get? word = other.get? word) →
        Table.Interchangeable (base.insertAll (steps ++ (label, rule) :: later))
          (other.insertAll
            ((steps.filter fun step => step.1 != label) ++ (label, rule) :: later))) ∧
      (∀ (label' : String) (rule' : Rule), label ≠ label' →
        Table.Interchangeable
          (base.insertAll (steps ++ (label, rule) :: (label', rule') :: later))
          (base.insertAll (steps ++ (label', rule') :: (label, rule) :: later))) ∧
      (∀ form : Form, label ∉ form.labels → ∀ scope,
        lower (base.insertAll (steps ++ (label, rule) :: later)) scope form =
          lower (base.insertAll (steps ++ later)) scope form) ∧
      ∀ forms : List Form, (∀ form ∈ forms, label ∉ form.labels) →
        compileForms (base.insertAll (steps ++ (label, rule) :: later)) forms =
          compileForms (base.insertAll (steps ++ later)) forms := by
  refine ⟨fun other others => ⟨fun form h scope => ?_, fun forms h => ?_⟩,
    fun label rule later => ⟨fun other h => ?_, fun label' rule' h => ?_, fun form h scope => ?_,
      fun forms h => ?_⟩⟩
  · simp only [← Bindings.get?_insertAll] at h
    exact lowerAt_eq_of_agree h
  · simp only [← Bindings.get?_insertAll] at h
    exact compileForms_eq_of_agree h
  · exact Table.interchangeable_of_get?
      (Table.get?_insertAll_overriding base steps later label rule h)
  · exact Table.interchangeable_of_get?
      (Table.get?_insertAll_swapped base steps later label rule rule' h)
  · apply lowerAt_eq_of_agree
    intro word hword
    exact Table.get?_insertAll_superfluous base steps later label rule fun heq => h (heq ▸ hword)
  · apply compileForms_eq_of_agree
    intro form hform word hword
    exact Table.get?_insertAll_superfluous base steps later label rule
      fun heq => h form hform (heq ▸ hword)

/-- A call with a sum as its argument. -/
def callOfSum : Form := .node [.atom "f", .node [.atom "+", .atom "1", .atom "2"]]

/-- Steps of which only the last one binds a label of the call. -/
def roundaboutSteps : List (String × Rule) :=
  [("+", .refused "no sums"), ("if", .refused "no choices"), ("+", .binary "plus")]

/-- The call is lowered alike by the standard table after a detour and by the empty table with one
step; and what the theorem says of steps applies to the steps of the detour. -/
theorem only_used_bindings_matter_detour :
    ((∀ label ∈ callOfSum.labels, Table.standard.bindingAfter? roundaboutSteps label =
        Bindings.bindingAfter? .empty [("+", .binary "plus")] label) ∧
      lower (Table.standard.insertAll roundaboutSteps) .empty callOfSum =
        lower (Bindings.empty.insertAll [("+", .binary "plus")]) .empty callOfSum) ∧
    Table.Interchangeable (Table.standard.insertAll roundaboutSteps)
      ((Table.standard.insert "+" .conditional).insertAll
        [("if", .refused "no choices"), ("+", .binary "plus")]) ∧
    ("if" ≠ "+" ∧ Table.Interchangeable (Table.standard.insertAll roundaboutSteps)
      (Table.standard.insertAll
        [("+", .refused "no sums"), ("+", .binary "plus"), ("if", .refused "no choices")])) ∧
    ("if" ∉ callOfSum.labels ∧
      lower (Table.standard.insertAll roundaboutSteps) .empty callOfSum =
        lower (Table.standard.insertAll [("+", .refused "no sums"), ("+", .binary "plus")]) .empty
          callOfSum) := by
  have hlabels : ∀ label ∈ callOfSum.labels, Table.standard.bindingAfter? roundaboutSteps label =
      Bindings.bindingAfter? .empty [("+", .binary "plus")] label := by decide
  have hbase : ∀ word, word ≠ "+" →
      Table.standard.get? word = (Table.standard.insert "+" .conditional).get? word := by
    intro word hword
    rw [Bindings.get?_insert, if_neg hword]
  have hfirst := only_used_bindings_matter .standard [("+", .refused "no sums")]
  have hsecond := only_used_bindings_matter .standard
    [("+", .refused "no sums"), ("if", .refused "no choices")]
  refine ⟨⟨hlabels, ?_⟩, ?_, ⟨by decide, ?_⟩, by decide, ?_⟩
  · exact ((only_used_bindings_matter .standard roundaboutSteps).1 _ _).1 _ hlabels _
  · exact (hsecond.2 "+" (.binary "plus") []).1 _ hbase
  · exact (hfirst.2 "if" (.refused "no choices") []).2.1 "+" (.binary "plus") (by decide)
  · exact (hfirst.2 "if" (.refused "no choices") [("+", .binary "plus")]).2.2.1 _ (by decide) _

end PureContracts
