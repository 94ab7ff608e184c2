import PureContracts.Proofs.Compilation.Failure
import PureContracts.Proofs.Form.Fault
import PureContracts.Proofs.Form.RoundTrip

/-!
# The nesting guard is for forms that were not read

Reading and lowering both stop at `nestingLimit`, each by its own count: the reader counts the
parentheses that are open, and lowering counts the nodes that it has entered since it started, at
the top of a source or somewhere inside a definition.  What the reader lets through, lowering never
finds too deep.  Only forms that were built by hand can be.

Principal results
* `level_le_of_read` — wherever lowering starts inside forms that were read, it meets no node above
  the limit;
* `objection_of_offence` — a node within the limit is refused by its own rule or not at all;
* `nesting_guard_never_fires` — no source makes the guard of the compiler report an error.
-/

namespace PureContracts

theorem read_error_unreadable {text : String} {e : Error} (h : Form.read text = .error e) :
    ∃ fault, e = .unreadable fault := by
  obtain ⟨fault, -, rfl⟩ := Form.readTokens_eq_error_iff.mp h
  exact ⟨fault, rfl⟩

/-! ## Levels -/

/-- **Wherever lowering starts inside forms that were read, it meets no node above the limit.** -/
theorem level_le_of_read {text : String} {forms : List Form} (h : Form.read text = .ok forms) :
    ∀ form ∈ forms, ∀ inner, form.Within inner → ∀ site ∈ inner.sites,
      site.level ≤ nestingLimit := by
  intro form hform inner hinner site hsite
  obtain ⟨-, hdepth⟩ := Form.readTokens_eq_ok_iff.mp h
  have hread : form.depth ≤ nestingLimit := Form.depthAll_le_iff.mp hdepth form hform
  have hlevel : site.level < 1 + inner.depth := Form.level_of_mem_sitesAt hsite
  have hwithin : inner.depth ≤ form.depth := hinner.depth_le
  omega

/-! ## Refusals -/

/-- A node within the limit is refused by its own rule or not at all. -/
theorem objection_of_offence {table : Table} {site : Site} {name : String} {refusal : Refusal}
    (hlevel : site.level ≤ nestingLimit)
    (h : site.offence? table = some (.unsupported name refusal)) :
    ∃ rule, table.get? name = some rule ∧ rule.objection? site.children = some refusal := by
  rcases Site.offence?_cases h with
    ⟨hdeep, -⟩ | ⟨rule, objection, hrule, hobjection, herror⟩ | herror
  · exact absurd hdeep (Nat.not_lt.mpr hlevel)
  · cases herror
    exact ⟨rule, hrule, hobjection⟩
  · cases herror

theorem Rule.objection?_ne_tooDeep {rule : Rule} {children : List Form} {limit : Nat} :
    rule.objection? children ≠ some (.tooDeep limit) := by
  intro h
  rcases Rule.objection?_cases h with ⟨_, _, h⟩ | ⟨_, _, h⟩ | h | ⟨_, _, h⟩ <;> cases h

/-- The reasons of the standard table are not the words of the guard. -/
theorem Table.standard_reason_ne {label reason : String}
    (h : Table.standard.get? label = some (.refused reason)) :
    reason ≠ "nested deeper than 128 levels" := by
  have hentries : ∀ entry ∈ Table.standard.entries,
      entry.2 ≠ .refused "nested deeper than 128 levels" := by decide
  rintro rfl
  exact hentries _ (Bindings.mem_of_get? h) rfl

-- Texts are told apart by their first characters: as a whole, literals are slow to compare.
theorem ne_of_first_ne {text other : String} {c : Char} (h : text.toList.head? = some c)
    (hother : other.toList.head? ≠ some c) : text ≠ other := by
  rintro rfl
  exact hother h

theorem head?_toList_append {first : String} {c : Char} (h : first.toList.head? = some c)
    (second : String) : (first ++ second).toList.head? = some c := by
  rw [String.toList_append, List.head?_append, h]
  rfl

/-- No objection of the standard table is worded as the guard words its own. -/
theorem Table.standard_objection_text_ne {label : String} {rule : Rule} {children : List Form}
    {refusal : Refusal} (hrule : Table.standard.get? label = some rule)
    (h : rule.objection? children = some refusal) :
    refusal.text ≠ "nested deeper than 128 levels" := by
  have hguard : "nested deeper than 128 levels".toList.head? ≠ some 'e' := by decide
  rcases Rule.objection?_cases h with ⟨expected, found, rfl⟩ | ⟨least, found, rfl⟩ | rfl |
    ⟨reason, rfl, rfl⟩
  · have hfirst : "expected ".toList.head? = some 'e' := by decide
    exact ne_of_first_ne
      (head?_toList_append (head?_toList_append (head?_toList_append hfirst _) _) _) hguard
  · have hfirst : "expected at least ".toList.head? = some 'e' := by decide
    exact ne_of_first_ne
      (head?_toList_append (head?_toList_append (head?_toList_append hfirst _) _) _) hguard
  · exact ne_of_first_ne (by decide) hguard
  · exact Table.standard_reason_ne hrule

/-! ## Sources -/

theorem offence_of_lower {table : Table} {scope : Scope} {form : Form} {e : Error}
    (h : lower table scope form = .error e) :
    ∃ site ∈ form.sites, site.offence? table = some e :=
  offence_of_lowerAt h

/-- A form is refused for an offence of a node inside one of the definitions. -/
theorem offence_of_compileForms {table : Table} {forms : List Form} {name : String}
    {refusal : Refusal}
    (h : (compileForms table forms).result = .error (.unsupported name refusal)) :
    ∃ form ∈ forms, ∃ inner, form.Within inner ∧ ∃ site ∈ inner.sites,
      site.offence? table = some (.unsupported name refusal) := by
  obtain ⟨before, form, after, rfl, -, hform⟩ := compileForms_eq_error_iff.mp h
  refine ⟨form, by simp, ?_⟩
  obtain ⟨children, rfl, hblames⟩ := blames_of_compileForm hform
  cases hblames with
  | lowering hwithin herror => exact ⟨_, hwithin, offence_of_lower herror⟩

/-- **No source makes the nesting guard of the compiler report an error.**  In the forms that were
read no node is entered above the limit, whatever the table and wherever lowering starts; neither
lowering nor compiling them ends with the error of the guard; and the standard table has no other
error that reads the same. -/
theorem nesting_guard_never_fires (text : String) :
    (∀ forms, Form.read text = .ok forms →
      (∀ form ∈ forms, ∀ inner, form.Within inner → ∀ site ∈ inner.sites,
        site.level ≤ nestingLimit) ∧
      ∀ table name limit,
        (compileForms table forms).result ≠ .error (.unsupported name (.tooDeep limit)) ∧
        ∀ form ∈ forms, ∀ inner, form.Within inner → ∀ scope,
          lower table scope inner ≠ .error (.unsupported name (.tooDeep limit))) ∧
    ∀ name refusal, (compileText .standard text).result = .error (.unsupported name refusal) →
      refusal.text ≠ "nested deeper than 128 levels" := by
  constructor
  · intro forms hread
    have hlevels := level_le_of_read hread
    refine ⟨hlevels, fun table name limit => ⟨?_, ?_⟩⟩
    · intro h
      obtain ⟨form, hform, inner, hinner, site, hsite, hoffence⟩ := offence_of_compileForms h
      obtain ⟨rule, -, hobjection⟩ :=
        objection_of_offence (hlevels form hform inner hinner site hsite) hoffence
      exact Rule.objection?_ne_tooDeep hobjection
    · intro form hform inner hinner scope h
      obtain ⟨site, hsite, hoffence⟩ := offence_of_lower h
      obtain ⟨rule, -, hobjection⟩ :=
        objection_of_offence (hlevels form hform inner hinner site hsite) hoffence
      exact Rule.objection?_ne_tooDeep hobjection
  · intro name refusal h
    rw [result_compileText] at h
    rcases bind_eq_error_iff.mp h with hread | ⟨forms, hread, h⟩
    · obtain ⟨fault, herror⟩ := read_error_unreadable hread
      cases herror
    · obtain ⟨form, hform, inner, hinner, site, hsite, hoffence⟩ := offence_of_compileForms h
      obtain ⟨rule, hrule, hobjection⟩ :=
        objection_of_offence (level_le_of_read hread form hform inner hinner site hsite) hoffence
      exact Table.standard_objection_text_ne hrule hobjection

/-- Nodes inside each other around a word. -/
def nested : Nat → Form
  | 0 => .atom "x"
  | levels + 1 => .node [nested levels]

theorem depth_nested (levels : Nat) : (nested levels).depth = levels := by
  induction levels with
  | zero => rfl
  | succ levels ih => rw [nested, Form.depth, Form.depthAll, Form.depthAll, ih, Nat.max_zero]

theorem wellSpelled_nested (levels : Nat) : (nested levels).WellSpelled := by
  induction levels with
  | zero => exact Form.wellSpelled_atom.mpr (by decide)
  | succ levels ih => exact Form.wellSpelled_node.mpr (by simpa using ih)

theorem read_nested {levels : Nat} (h : levels ≤ nestingLimit) :
    Form.read (Form.prettyAll [nested levels]) = .ok [nested levels] := by
  apply Form.read_of_spells
  · apply Form.spells_intercalate Form.isGap_blank_line
    intro form hform
    rw [List.mem_singleton.mp hform, Form.pretty, String.toList_ofList]
    exact Form.spells_layout (wellSpelled_nested levels) 1
  · intro form hform
    rw [List.mem_singleton.mp hform, depth_nested]
    exact h

/-- At the limit itself: the guard lets the deepest node pass that can be read. -/
theorem nesting_guard_never_fires_deepest :
    Form.read (Form.prettyAll [nested nestingLimit]) = .ok [nested nestingLimit] ∧
      (nested nestingLimit).depth = 128 ∧
      ∀ table scope name limit,
        lower table scope (nested nestingLimit) ≠ .error (.unsupported name (.tooDeep limit)) := by
  have hread := read_nested (Nat.le_refl nestingLimit)
  obtain ⟨-, hguard⟩ := (nesting_guard_never_fires _).1 _ hread
  refine ⟨hread, depth_nested nestingLimit, fun table scope name limit => ?_⟩
  exact (hguard table name limit).2 _ List.mem_cons_self _ .self scope

end PureContracts
