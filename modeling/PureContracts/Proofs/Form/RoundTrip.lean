import PureContracts.Form.Layout
import PureContracts.Proofs.Form.Grammar
import PureContracts.Proofs.Source.Lexical

/-!
# Reading undoes laying out

A form is laid out on one line or over several, with blanks that depend on how deep it stands.  None
of that matters to a reader: between two children there is always some blank, and a word is always
followed by a blank, a parenthesis or the end of the text.

* `WellSpelled` — forms whose atoms are words.
* `Spells` — a text that is scanned as given lexemes wherever it stands, as long as a delimiter
  follows.

Principal results
* `wellSpelled_of_read` — what is read from a text is well spelled;
* `spells_layout` — a form is laid out as a text that spells it;
* `read_undoes_pretty` — forms that are laid out are read back as they were.
-/

namespace PureContracts.Form

open Source

/-- A form whose atoms are words. -/
def WellSpelled (form : Form) : Prop := ∀ word, .word word ∈ form.lexemes → IsWord word

theorem mem_lexemesAll {lexeme : Lexeme} {forms : List Form} :
    lexeme ∈ lexemesAll forms ↔ ∃ form ∈ forms, lexeme ∈ form.lexemes := by
  induction forms with
  | nil => simp [lexemesAll]
  | cons form rest ih => simp [lexemesAll, ih]

theorem wellSpelled_atom {text : String} : (Form.atom text).WellSpelled ↔ IsWord text := by
  simp [WellSpelled, lexemes]

theorem wellSpelled_node {children : List Form} :
    (Form.node children).WellSpelled ↔ ∀ child ∈ children, child.WellSpelled := by
  simp only [WellSpelled, lexemes, List.mem_cons, List.mem_append, mem_lexemesAll]
  constructor
  · intro h child hchild word hword
    exact h word (.inr (.inl ⟨child, hchild, hword⟩))
  · rintro h word (hword | ⟨child, hchild, hword⟩ | hword | hword)
    · cases hword
    · exact h child hchild word hword
    · cases hword
    · cases hword

/-- **What is read from a text is well spelled.** -/
theorem wellSpelled_of_read {text : String} {forms : List Form} (h : read text = .ok forms) :
    ∀ form ∈ forms, form.WellSpelled := by
  obtain ⟨hlexemes, -⟩ := readTokens_eq_ok_iff.mp h
  intro form hform word hword
  apply (scans_tokens text).isWord
  rw [hlexemes, mem_lexemesAll]
  exact ⟨form, hform, hword⟩

/-! ## Texts that spell lexemes -/

/-- A text that is scanned as the given lexemes, wherever it stands, when a delimiter follows. -/
def Spells (text : List Char) (spelled : List Lexeme) : Prop :=
  ∀ p rest ts, Delimited rest → Scans false (p.after text) rest ts →
    ∃ first, first.map Token.lexeme = spelled ∧ Scans false p (text ++ rest) (first ++ ts)

theorem spells_nil : Spells [] [] := by
  intro p rest ts _ hrest
  exact ⟨[], rfl, hrest⟩

theorem spells_word {word : String} (hword : IsWord word) : Spells word.toList [.word word] := by
  intro p rest ts hdelimited hrest
  exact ⟨[placed (.word word) p], rfl, .word hword hdelimited hrest⟩

/-- Some blank between two texts. -/
structure IsGap (gap : List Char) : Prop where
  ne_nil : gap ≠ []
  blank : ∀ c ∈ gap, c ∈ blanks

theorem IsGap.delimited {gap : List Char} (h : IsGap gap) (rest : List Char) :
    Delimited (gap ++ rest) := by
  obtain ⟨c, more, rfl⟩ := List.exists_cons_of_ne_nil h.ne_nil
  exact delimited_cons (mem_delimiters_of_mem_blanks (h.blank c List.mem_cons_self)) _

theorem scans_blanks {gap rest : List Char} {p : Position} {ts : List Token}
    (hgap : ∀ c ∈ gap, c ∈ blanks) (h : Scans false (p.after gap) rest ts) :
    Scans false p (gap ++ rest) ts := by
  induction gap generalizing p with
  | nil => exact h
  | cons c gap ih =>
    rw [List.forall_mem_cons] at hgap
    exact .blank hgap.1 (ih hgap.2 h)

/-- Two texts with a gap between them spell their lexemes one after the other. -/
theorem Spells.separate {first second gap : List Char} {spelled more : List Lexeme}
    (hfirst : Spells first spelled) (hgap : IsGap gap) (hsecond : Spells second more) :
    Spells (first ++ (gap ++ second)) (spelled ++ more) := by
  intro p rest ts hrest hscans
  rw [Position.after_append, Position.after_append] at hscans
  obtain ⟨later, hlater, hscans⟩ := hsecond _ _ _ hrest hscans
  have hbehind := scans_blanks hgap.blank hscans
  obtain ⟨earlier, hearlier, hscans⟩ := hfirst _ _ _ (hgap.delimited (second ++ rest)) hbehind
  refine ⟨earlier ++ later, ?_, ?_⟩
  · rw [List.map_append, hearlier, hlater]
  · simp only [List.append_assoc]
    exact hscans

theorem Spells.enclose {inner : List Char} {spelled : List Lexeme} (h : Spells inner spelled) :
    Spells ('(' :: (inner ++ [')'])) (.opening :: (spelled ++ [.closing])) := by
  intro p rest ts _ hrest
  rw [Position.after_cons, Position.after_append] at hrest
  obtain ⟨first, hfirst, hscans⟩ := h _ _ _ (delimited_cons (by decide) rest) (.closing hrest)
  refine ⟨placed .opening p :: (first ++ [placed .closing ((p.step '(').after inner)]), ?_, ?_⟩
  · simp [hfirst, placed]
  · simp only [List.cons_append, List.append_assoc, List.nil_append]
    exact .opening hscans

section

variable {text : Form → List Char} {forms : List Form} {gap : List Char}

theorem spells_intercalate (hgap : IsGap gap)
    (h : ∀ form ∈ forms, Spells (text form) form.lexemes) :
    Spells (List.intercalate gap (forms.map text)) (lexemesAll forms) := by
  induction forms with
  | nil => exact spells_nil
  | cons form rest ih =>
    rw [List.forall_mem_cons] at h
    cases rest with
    | nil =>
      rw [List.map_singleton, List.intercalate_singleton, lexemesAll, lexemesAll, List.append_nil]
      exact h.1
    | cons next rest =>
      rw [List.map_cons, List.map_cons, List.intercalate_cons_cons, List.append_assoc, lexemesAll]
      exact h.1.separate hgap (ih h.2)

theorem spells_listing (hgap : IsGap gap) (h : ∀ form ∈ forms, Spells (text form) form.lexemes) :
    Spells (forms.flatMap fun form => text form ++ gap) (lexemesAll forms) := by
  induction forms with
  | nil => exact spells_nil
  | cons form rest ih =>
    rw [List.forall_mem_cons] at h
    rw [List.flatMap_cons, List.append_assoc, lexemesAll]
    exact h.1.separate hgap (ih h.2)

end

/-! ## Layout -/

theorem isGap_separator (indent : Nat) (broken : Bool) : IsGap (Block.separator indent broken) := by
  constructor
  · cases broken <;> simp [Block.separator]
  · cases broken with
    | false => simp [Block.separator, blanks]
    | true =>
      intro c hc
      simp only [Block.separator, if_true, List.mem_cons, List.mem_replicate] at hc
      rcases hc with rfl | ⟨-, rfl⟩ <;> decide

/-- **A form is laid out as a text that spells it.** -/
theorem spells_layout {form : Form} (h : form.WellSpelled) (indent : Nat) :
    Spells (layout indent form).text form.lexemes := by
  induction form generalizing indent with
  | atom text => exact spells_word (wellSpelled_atom.mp h)
  | node children ih =>
    rw [wellSpelled_node] at h
    rw [layout, layoutAll_eq_map, Block.enclose, lexemes, List.map_map]
    apply Spells.enclose
    apply spells_intercalate (isGap_separator _ _)
    intro child hchild
    exact ih child hchild (h child hchild) (indent + 1)

theorem isGap_blank_line : IsGap ['\n', '\n'] := ⟨by simp, by simp [blanks]⟩

theorem read_of_spells {text : List Char} {forms : List Form} (h : Spells text (lexemesAll forms))
    (hdepth : ∀ form ∈ forms, form.depth ≤ nestingLimit) :
    read (String.ofList text) = .ok forms := by
  obtain ⟨tokens, hlexemes, hscans⟩ := h .start [] [] delimited_nil .done
  rw [List.append_nil, List.append_nil] at hscans
  have htokens : Source.tokens (String.ofList text) = tokens := by
    rw [tokens_eq_iff_scans, String.toList_ofList]
    exact hscans
  rw [read, htokens, readTokens_eq_ok_iff]
  exact ⟨hlexemes, depthAll_le_iff.mpr hdepth⟩

/-- **Forms that are laid out are read back as they were.**  This holds of all forms whose atoms are
words and that are not nested too deep, and thus of everything that was read from a text. -/
theorem read_undoes_pretty :
    (∀ forms : List Form,
      (∀ form ∈ forms, form.WellSpelled ∧ form.depth ≤ nestingLimit) →
        read (prettyListing forms) = .ok forms ∧ read (prettyAll forms) = .ok forms) ∧
    ∀ text forms, read text = .ok forms →
      ∀ form ∈ forms, form.WellSpelled ∧ form.depth ≤ nestingLimit := by
  constructor
  · intro forms h
    have hspells : ∀ form ∈ forms, Spells form.pretty.toList form.lexemes := by
      intro form hform
      rw [pretty, String.toList_ofList]
      exact spells_layout (h form hform).1 1
    have hdepth := fun form hform => (h form hform).2
    exact ⟨read_of_spells (spells_listing isGap_blank_line hspells) hdepth,
      read_of_spells (spells_intercalate isGap_blank_line hspells) hdepth⟩
  · intro text forms h form hform
    obtain ⟨-, hdepth⟩ := readTokens_eq_ok_iff.mp h
    exact ⟨wellSpelled_of_read h form hform, depthAll_le_iff.mp hdepth form hform⟩

/-- A form that is broken over several lines, with an empty node and a node as the head of a node,
and a word behind it. -/
def brokenForms : List Form :=
  [.node [.atom "sequence-of-words", .node [], .node [.node [.atom "f"], .atom "\"a,b\""]],
    .atom "x"]

theorem read_undoes_pretty_broken :
    (∀ form ∈ brokenForms, form.WellSpelled ∧ form.depth ≤ nestingLimit) ∧
      read (prettyListing brokenForms) = .ok brokenForms ∧
      read (prettyAll brokenForms) = .ok brokenForms := by
  have hforms : ∀ form ∈ brokenForms, form.WellSpelled ∧ form.depth ≤ nestingLimit := by
    have hlong : IsWord "sequence-of-words" := by decide
    have hf : IsWord "f" := by decide
    have hquoted : IsWord "\"a,b\"" := by decide
    have hx : IsWord "x" := by decide
    simp [brokenForms, wellSpelled_node, wellSpelled_atom, hlong, hf, hquoted, hx, depth, depthAll,
      nestingLimit]
  exact ⟨hforms, read_undoes_pretty.1 brokenForms hforms⟩

end PureContracts.Form
