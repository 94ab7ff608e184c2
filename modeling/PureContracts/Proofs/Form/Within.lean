import PureContracts.Proofs.Form.RoundTrip
import PureContracts.Proofs.Lowering.Offence

/-!
# Forms inside forms

Passes start at different places of a source, and report on places further inside.  What they need
to know of the source is inherited from the outermost form: how deep it is nested, how its words are
spelled, and that these are stretches of the text that was read.

* `Form.Within` — a form and all that stands anywhere inside it.

Principal results
* `Within.depth_le`, `WellSpelled.within` — what forms pass on to the forms inside them;
* `level_of_mem_sitesAt`, `within_of_mem_sitesAt` — the nodes that are visited from a form on;
* `isInfix_of_read` — every word inside a form that was read is a stretch of the text.
-/

namespace PureContracts.Form

/-- A form and all that stands anywhere inside it. -/
inductive Within (outer : Form) : Form → Prop where
  | self : Within outer outer
  | child {form inner : Form} : Within outer form → inner ∈ form.children → Within outer inner

theorem Within.trans {outer form inner : Form} (h : outer.Within form)
    (hinner : form.Within inner) : outer.Within inner := by
  induction hinner with
  | self => exact h
  | child _ hmem ih => exact ih.child hmem

/-! ## Depth and spelling -/

theorem depth_lt_of_mem_children {form child : Form} (h : child ∈ form.children) :
    child.depth < form.depth := by
  cases form with
  | atom text => cases h
  | node children =>
    rw [depth]
    exact Nat.lt_succ_of_le (depthAll_le_iff.mp (Nat.le_refl _) child h)

theorem Within.depth_le {outer inner : Form} (h : outer.Within inner) :
    inner.depth ≤ outer.depth := by
  induction h with
  | self => exact Nat.le_refl _
  | child _ hinner ih =>
    have hlt := depth_lt_of_mem_children hinner
    omega

theorem lexemes_subset_of_mem_children {form child : Form} (h : child ∈ form.children) :
    child.lexemes ⊆ form.lexemes := by
  intro lexeme hlexeme
  cases form with
  | atom text => cases h
  | node children =>
    have hmem : lexeme ∈ lexemesAll children := mem_lexemesAll.mpr ⟨child, h, hlexeme⟩
    rw [lexemes]
    exact List.mem_cons_of_mem _ (List.mem_append_left _ hmem)

theorem Within.lexemes_subset {outer inner : Form} (h : outer.Within inner) :
    inner.lexemes ⊆ outer.lexemes := by
  induction h with
  | self => exact List.Subset.refl _
  | child _ hinner ih => exact List.Subset.trans (lexemes_subset_of_mem_children hinner) ih

theorem WellSpelled.within {outer inner : Form} (hform : outer.WellSpelled)
    (h : outer.Within inner) : inner.WellSpelled :=
  fun word hword => hform word (h.lexemes_subset hword)

theorem WellSpelled.isWord_of_within {form : Form} {word : String} (hform : form.WellSpelled)
    (h : form.Within (.atom word)) : Source.IsWord word :=
  wellSpelled_atom.mp (hform.within h)

/-- **Every word inside a form that was read is a stretch of the text.** -/
theorem isInfix_of_read {text : String} {forms : List Form} (h : read text = .ok forms)
    {form : Form} (hform : form ∈ forms) {word : String} (hword : form.Within (.atom word)) :
    word.toList <:+: text.toList := by
  obtain ⟨hlexemes, -⟩ := readTokens_eq_ok_iff.mp h
  apply (Source.scans_tokens text).isInfix_of_word
  rw [hlexemes, mem_lexemesAll]
  have hspelled : .word word ∈ (Form.atom word).lexemes := List.mem_singleton_self _
  exact ⟨form, hform, hword.lexemes_subset hspelled⟩

/-! ## Sites -/

theorem mem_sitesAllAt {level : Nat} {forms : List Form} {site : Site} :
    site ∈ sitesAllAt level forms ↔ ∃ form ∈ forms, site ∈ form.sitesAt level := by
  induction forms with
  | nil => simp [sitesAllAt]
  | cons form rest ih => simp [sitesAllAt, ih]

/-- A node stands at a level that the depth of the whole form allows. -/
theorem level_of_mem_sitesAt {form : Form} {level : Nat} {site : Site}
    (h : site ∈ form.sitesAt level) : site.level < level + form.depth := by
  induction form generalizing level with
  | atom text => cases h
  | node children ih =>
    rw [sitesAt, List.mem_cons] at h
    rw [depth]
    rcases h with rfl | h
    · exact Nat.lt_add_of_pos_right (Nat.succ_pos _)
    · obtain ⟨child, hchild, hsite⟩ := mem_sitesAllAt.mp h
      have hlevel := ih child hchild hsite
      have hdepth := depthAll_le_iff.mp (Nat.le_refl _) child hchild
      omega

/-- The node of a site is the form itself or stands inside it. -/
theorem within_of_mem_sitesAt {form : Form} {level : Nat} {site : Site}
    (h : site ∈ form.sitesAt level) : form.Within (.node site.children) := by
  induction form generalizing level with
  | atom text => cases h
  | node children ih =>
    rw [sitesAt, List.mem_cons] at h
    rcases h with rfl | h
    · exact .self
    · obtain ⟨child, hchild, hsite⟩ := mem_sitesAllAt.mp h
      exact (Within.self.child hchild).trans (ih child hchild hsite)

end PureContracts.Form
