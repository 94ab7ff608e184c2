import PureContracts.Proofs.Form.Grammar
import PureContracts.Proofs.Source.Lexical

/-!
# Lexemes set out with layout

A text is lexemes with layout around them.  The layout is free: any blanks and comments will do, as
long as two words do not touch.  The scanner finds the lexemes whatever the layout is, and there is
no text that is not made in this way.

* `IsLayout` — blanks and complete comments.
* `IsFinalLayout` — layout at the end of a text, where a comment may end with the text.
* `arranged` — the text of lexemes that are set out with given layout.
* `WellSpaced` — lexemes that are set out so that no two words touch.
* `placedAll` — the tokens of lexemes that are set out.

Principal results
* `WellSpaced.scans` — lexemes that are well spaced are scanned as they are, each at its place;
* `Scans.exists_wellSpaced` — every text is made of its lexemes in this way;
* `tokens_of_any_layout` — layout changes neither the lexemes that are scanned nor the forms that
  are read.
-/

namespace PureContracts.Source

/-! ## Layout -/

/-- Blanks, and comments each with the line feed that ends it. -/
inductive IsLayout : List Char → Prop where
  | nil : IsLayout []
  | blank {c : Char} {rest : List Char} :
      c ∈ blanks → IsLayout rest → IsLayout (c :: rest)
  | comment {body rest : List Char} :
      '\n' ∉ body → IsLayout rest → IsLayout (';' :: (body ++ '\n' :: rest))

/-- Layout at the end of a text, where the last comment may end with the text. -/
inductive IsFinalLayout : List Char → Prop where
  | closed {gap : List Char} : IsLayout gap → IsFinalLayout gap
  | unclosed {gap body : List Char} :
      IsLayout gap → '\n' ∉ body → IsFinalLayout (gap ++ ';' :: body)

theorem IsLayout.append {first second : List Char} (hfirst : IsLayout first)
    (hsecond : IsLayout second) : IsLayout (first ++ second) := by
  induction hfirst with
  | nil => exact hsecond
  | blank hblank _ ih => exact .blank hblank ih
  | comment hbody _ ih =>
    rw [List.cons_append, List.append_assoc]
    exact .comment hbody ih

theorem IsFinalLayout.append {first second : List Char} (hfirst : IsLayout first)
    (hsecond : IsFinalLayout second) : IsFinalLayout (first ++ second) := by
  cases hsecond with
  | closed hgap => exact .closed (hfirst.append hgap)
  | unclosed hgap hbody =>
    rw [← List.append_assoc]
    exact .unclosed (hfirst.append hgap) hbody

/-- A further character of a comment makes it longer, unless it is a line feed. -/
theorem IsLayout.lengthen {c : Char} {gap : List Char} (hc : c ≠ '\n')
    (h : IsLayout (';' :: gap)) : IsLayout (';' :: c :: gap) := by
  cases h with
  | blank hblank _ => exact absurd hblank (by decide)
  | @comment body rest hbody hrest =>
    have hlonger : '\n' ∉ c :: body := by simp [Ne.symm hc, hbody]
    exact .comment hlonger hrest

theorem IsFinalLayout.lengthen {c : Char} {gap : List Char} (hc : c ≠ '\n')
    (h : IsFinalLayout (';' :: gap)) : IsFinalLayout (';' :: c :: gap) := by
  generalize htext : ';' :: gap = text at h
  cases h with
  | closed hgap =>
    rw [← htext] at hgap
    exact .closed (hgap.lengthen hc)
  | @unclosed before body hbefore hbody =>
    cases before with
    | nil =>
      rw [List.nil_append, List.cons.injEq] at htext
      have hlonger : '\n' ∉ c :: gap := by simp [Ne.symm hc, htext.2, hbody]
      exact .unclosed .nil hlonger
    | cons first before =>
      rw [List.cons_append, List.cons.injEq] at htext
      obtain ⟨rfl, rfl⟩ := htext
      exact .unclosed (hbefore.lengthen hc) hbody

/-- Layout delimits what stands in front of it, and no layout leaves that to what follows. -/
theorem IsLayout.delimited {gap rest : List Char} (h : IsLayout gap)
    (hrest : gap = [] → Delimited rest) : Delimited (gap ++ rest) := by
  cases h with
  | nil => exact hrest rfl
  | blank hblank _ => exact delimited_cons (mem_delimiters_of_mem_blanks hblank) _
  | comment _ _ => exact delimited_cons (by decide) _

theorem IsFinalLayout.delimited {gap : List Char} (h : IsFinalLayout gap) : Delimited gap := by
  cases h with
  | closed hgap =>
    have hdelimited : Delimited (gap ++ []) := hgap.delimited fun _ => delimited_nil
    rwa [List.append_nil] at hdelimited
  | unclosed hgap _ => exact hgap.delimited fun _ => delimited_cons (by decide) _

section

variable {p : Position} {rest : List Char} {ts : List Token}

theorem scans_comment {body : List Char} (hbody : '\n' ∉ body)
    (h : Scans true (p.after body) rest ts) : Scans true p (body ++ rest) ts := by
  induction body generalizing p with
  | nil => exact h
  | cons c body ih =>
    rw [List.mem_cons, not_or] at hbody
    have hstays : (c != '\n') = true := bne_iff_ne.mpr (Ne.symm hbody.1)
    refine .commented ?_
    rw [hstays]
    exact ih hbody.2 h

theorem IsLayout.scans {gap : List Char} (hgap : IsLayout gap)
    (h : Scans false (p.after gap) rest ts) : Scans false p (gap ++ rest) ts := by
  induction hgap generalizing p with
  | nil => exact h
  | blank hblank _ ih => exact .blank hblank (ih h)
  | @comment body gap hbody _ ih =>
    rw [Position.after_cons, Position.after_append, Position.after_cons] at h
    have hline : Scans true ((p.step ';').after body) ('\n' :: (gap ++ rest)) ts :=
      .commented (ih h)
    rw [List.cons_append, List.append_assoc]
    exact .comment (scans_comment hbody hline)

theorem IsFinalLayout.scans {gap : List Char} (hgap : IsFinalLayout gap) :
    Scans false p gap [] := by
  cases hgap with
  | closed hgap =>
    have hscans : Scans false p (gap ++ []) [] := hgap.scans .done
    rwa [List.append_nil] at hscans
  | @unclosed gap body hgap hbody =>
    have hcomment : Scans true ((p.after gap).step ';') (body ++ []) [] :=
      scans_comment hbody .done
    rw [List.append_nil] at hcomment
    exact hgap.scans (.comment hcomment)

end

/-! ## Lexemes that are set out -/

/-- The text of lexemes, each with the layout behind it, and the layout in front of all. -/
def arranged (lead : List Char) : List (Lexeme × List Char) → List Char
  | [] => lead
  | (lexeme, gap) :: rest => lead ++ (lexeme.text.toList ++ arranged gap rest)

/-- The tokens of lexemes that are set out from a place on. -/
def placedAll (p : Position) (lead : List Char) : List (Lexeme × List Char) → List Token
  | [] => []
  | (lexeme, gap) :: rest =>
    placed lexeme (p.after lead) ::
      placedAll ((p.after lead).after lexeme.text.toList) gap rest

/-- A parenthesis, or a word. -/
def IsLexeme : Lexeme → Prop
  | .word text => IsWord text
  | _ => True

/-- A word in front of another word has some layout between them. -/
def KeptApart (lexeme : Lexeme) (gap : List Char) (rest : List (Lexeme × List Char)) : Prop :=
  ∀ word next behind more, lexeme = .word word → rest = (.word next, behind) :: more → gap ≠ []

/-- Lexemes that are set out with layout, so that no two words touch. -/
inductive WellSpaced : List Char → List (Lexeme × List Char) → Prop where
  | done {lead : List Char} : IsFinalLayout lead → WellSpaced lead []
  | next {lead gap : List Char} {lexeme : Lexeme} {rest : List (Lexeme × List Char)} :
      IsLayout lead → IsLexeme lexeme → KeptApart lexeme gap rest → WellSpaced gap rest →
      WellSpaced lead ((lexeme, gap) :: rest)

theorem map_lexeme_placedAll (p : Position) (lead : List Char)
    (items : List (Lexeme × List Char)) :
    (placedAll p lead items).map Token.lexeme = items.map Prod.fst := by
  induction items generalizing p lead with
  | nil => rfl
  | cons item rest ih =>
    rw [placedAll, List.map_cons, List.map_cons, ih]
    rfl

theorem arranged_cons (c : Char) (lead : List Char) (items : List (Lexeme × List Char)) :
    arranged (c :: lead) items = c :: arranged lead items := by
  cases items <;> rfl

theorem placedAll_cons (p : Position) (c : Char) (lead : List Char)
    (items : List (Lexeme × List Char)) :
    placedAll p (c :: lead) items = placedAll (p.step c) lead items := by
  cases items <;> rfl

/-- More layout may stand in front. -/
theorem WellSpaced.append {first lead : List Char} {items : List (Lexeme × List Char)}
    (hfirst : IsLayout first) (h : WellSpaced lead items) : WellSpaced (first ++ lead) items := by
  cases h with
  | done hlead => exact .done (hlead.append hfirst)
  | next hlead hlexeme hapart hrest => exact .next (hfirst.append hlead) hlexeme hapart hrest

theorem WellSpaced.lengthen {c : Char} {lead : List Char} {items : List (Lexeme × List Char)}
    (hc : c ≠ '\n') (h : WellSpaced (';' :: lead) items) : WellSpaced (';' :: c :: lead) items := by
  cases h with
  | done hlead => exact .done (hlead.lengthen hc)
  | next hlead hlexeme hapart hrest => exact .next (hlead.lengthen hc) hlexeme hapart hrest

/-! ## Arranged lexemes are scanned -/

/-- What follows a word delimits it. -/
theorem WellSpaced.delimited {word : String} {gap : List Char}
    {rest : List (Lexeme × List Char)} (h : WellSpaced gap rest)
    (hapart : KeptApart (.word word) gap rest) : Delimited (arranged gap rest) := by
  cases h with
  | done hgap => exact hgap.delimited
  | @next _ behind lexeme more hgap hlexeme _ _ =>
    apply hgap.delimited
    intro hnil
    cases lexeme with
    | opening => exact delimited_cons (by decide) _
    | closing => exact delimited_cons (by decide) _
    | word next => exact absurd hnil (hapart word next behind more rfl rfl)

/-- **Lexemes that are well spaced are scanned as they are**, each at its place. -/
theorem WellSpaced.scans {lead : List Char} {items : List (Lexeme × List Char)}
    (h : WellSpaced lead items) (p : Position) :
    Scans false p (arranged lead items) (placedAll p lead items) := by
  induction h generalizing p with
  | done hlead => exact hlead.scans
  | @next lead gap lexeme rest hlead hlexeme hapart hrest ih =>
    apply hlead.scans
    cases lexeme with
    | opening => exact .opening (ih _)
    | closing => exact .closing (ih _)
    | word text => exact .word hlexeme (hrest.delimited hapart) (ih _)

/-! ## Every text is arranged lexemes -/

theorem IsWord.not_delimited {word : String} (hword : IsWord word) (rest : List Char) :
    ¬ Delimited (word.toList ++ rest) := by
  intro hdelimited
  obtain ⟨first, more, htext⟩ := hword.exists_cons
  have hchar := hword.chars first (by simp [htext])
  exact hchar (hdelimited first (by simp [htext]))

/-- A word that is delimited does not touch a word behind it. -/
theorem WellSpaced.keptApart {lead : List Char} {items : List (Lexeme × List Char)}
    (h : WellSpaced lead items) (hdelimited : Delimited (arranged lead items)) (lexeme : Lexeme) :
    KeptApart lexeme lead items := by
  rintro word next behind more - rfl rfl
  cases h with
  | next _ hnext _ _ => exact IsWord.not_delimited hnext _ hdelimited

/-- **Every text is made of its lexemes, set out with layout.** -/
theorem Scans.exists_wellSpaced {comment : Bool} {p : Position} {text : List Char}
    {ts : List Token} (h : Scans comment p text ts) :
    ∃ lead items, text = arranged lead items ∧ ts = placedAll p lead items ∧
      WellSpaced (if comment then ';' :: lead else lead) items := by
  -- Inside a comment, the layout is complete with a semicolon in front of it.
  induction h with
  | @done comment p =>
    refine ⟨[], [], rfl, rfl, .done ?_⟩
    cases comment with
    | false => exact .closed .nil
    | true => exact .unclosed .nil List.not_mem_nil
  | @commented p c cs ts _ ih =>
    obtain ⟨lead, items, rfl, rfl, hspaced⟩ := ih
    refine ⟨c :: lead, items, (arranged_cons c lead items).symm,
      (placedAll_cons p c lead items).symm, ?_⟩
    by_cases hc : c = '\n'
    · subst hc
      exact hspaced.append (IsLayout.comment List.not_mem_nil .nil)
    · rw [bne_iff_ne.mpr hc] at hspaced
      exact hspaced.lengthen hc
  | @blank p c cs ts hblank _ ih =>
    obtain ⟨lead, items, rfl, rfl, hspaced⟩ := ih
    exact ⟨c :: lead, items, (arranged_cons c lead items).symm,
      (placedAll_cons p c lead items).symm, hspaced.append (.blank hblank .nil)⟩
  | @comment p cs ts _ ih =>
    obtain ⟨lead, items, rfl, rfl, hspaced⟩ := ih
    exact ⟨';' :: lead, items, (arranged_cons ';' lead items).symm,
      (placedAll_cons p ';' lead items).symm, hspaced⟩
  | opening _ ih =>
    obtain ⟨lead, items, rfl, rfl, hspaced⟩ := ih
    exact ⟨[], (.opening, lead) :: items, rfl, rfl,
      .next .nil trivial (by rintro _ _ _ _ ⟨⟩) hspaced⟩
  | closing _ ih =>
    obtain ⟨lead, items, rfl, rfl, hspaced⟩ := ih
    exact ⟨[], (.closing, lead) :: items, rfl, rfl,
      .next .nil trivial (by rintro _ _ _ _ ⟨⟩) hspaced⟩
  | @word p text rest ts hword hrest _ ih =>
    obtain ⟨lead, items, rfl, rfl, hspaced⟩ := ih
    exact ⟨[], (.word text, lead) :: items, rfl, rfl,
      .next .nil hword (hspaced.keptApart hrest _) hspaced⟩

/-! ## Layout does not matter -/

theorem tokens_arranged {lead : List Char} {items : List (Lexeme × List Char)}
    (h : WellSpaced lead items) :
    tokens (String.ofList (arranged lead items)) = placedAll .start lead items := by
  rw [tokens_eq_iff_scans, String.toList_ofList]
  exact h.scans .start

/-- What is read depends on the lexemes of a text only. -/
theorem read_of_lexemes_eq {text other : String}
    (h : (tokens text).map Token.lexeme = (tokens other).map Token.lexeme) :
    (∃ forms, Form.read text = .ok forms ∧ Form.read other = .ok forms) ∨
      ∃ e e', Form.read text = .error e ∧ Form.read other = .error e' := by
  have hsame : ∀ forms, Form.read text = .ok forms ↔ Form.read other = .ok forms := by
    intro forms
    rw [Form.read, Form.read, Form.readTokens_eq_ok_iff, Form.readTokens_eq_ok_iff, h]
  cases htext : Form.read text with
  | ok forms => exact .inl ⟨forms, rfl, (hsame forms).mp htext⟩
  | error e =>
    cases hother : Form.read other with
    | ok forms =>
      rw [(hsame forms).mpr hother] at htext
      cases htext
    | error e' => exact .inr ⟨e, e', rfl, rfl⟩

/-- **Layout changes neither the lexemes that are scanned nor the forms that are read.**  Two
arrangements of the same lexemes are read as the same forms, or neither can be read. -/
theorem tokens_of_any_layout {lead : List Char} {items : List (Lexeme × List Char)}
    (h : WellSpaced lead items) :
    (tokens (String.ofList (arranged lead items))).map Token.lexeme = items.map Prod.fst ∧
      ∀ lead' items', WellSpaced lead' items' → items'.map Prod.fst = items.map Prod.fst →
        (∃ forms, Form.read (String.ofList (arranged lead items)) = .ok forms ∧
          Form.read (String.ofList (arranged lead' items')) = .ok forms) ∨
        ∃ e e', Form.read (String.ofList (arranged lead items)) = .error e ∧
          Form.read (String.ofList (arranged lead' items')) = .error e' := by
  have hlexemes : ∀ {lead : List Char} {items : List (Lexeme × List Char)},
      WellSpaced lead items →
      (tokens (String.ofList (arranged lead items))).map Token.lexeme = items.map Prod.fst := by
    intro lead items hspaced
    rw [tokens_arranged hspaced, map_lexeme_placedAll]
  refine ⟨hlexemes h, ?_⟩
  intro lead' items' hspaced hsame
  apply read_of_lexemes_eq
  rw [hlexemes h, hlexemes hspaced, hsame]

/-- The lexemes of `(a b)` with a comment glued to a word and a comment at the end. -/
def commentedItems : List (Lexeme × List Char) :=
  [(.opening, []), (.word "a", ";x;(\n\t".toList), (.word "b", []), (.closing, " ; )".toList)]

/-- The same lexemes with one blank. -/
def plainItems : List (Lexeme × List Char) :=
  [(.opening, []), (.word "a", [' ']), (.word "b", []), (.closing, [])]

theorem wellSpaced_commentedItems : WellSpaced ";(\n".toList commentedItems := by
  have hlead : IsLayout (';' :: (['('] ++ '\n' :: [])) := .comment (by decide) .nil
  have hglued : IsLayout (';' :: (['x', ';', '('] ++ '\n' :: ['\t'])) :=
    .comment (by decide) (.blank (by decide) .nil)
  have hlast : IsFinalLayout ([' '] ++ ';' :: [' ', ')']) :=
    .unclosed (.blank (by decide) .nil) (by decide)
  refine .next hlead trivial (by rintro _ _ _ _ ⟨⟩) ?_
  refine .next .nil (by decide : IsWord "a") (fun _ _ _ _ _ _ => by decide) ?_
  refine .next hglued (by decide : IsWord "b") (by rintro _ _ _ _ _ ⟨⟩) ?_
  exact .next .nil trivial (by rintro _ _ _ _ ⟨⟩) (.done hlast)

theorem wellSpaced_plainItems : WellSpaced [] plainItems := by
  refine .next .nil trivial (by rintro _ _ _ _ ⟨⟩) ?_
  refine .next .nil (by decide : IsWord "a") (fun _ _ _ _ _ _ => by decide) ?_
  refine .next (.blank (by decide) .nil) (by decide : IsWord "b") (by rintro _ _ _ _ _ ⟨⟩) ?_
  exact .next .nil trivial (by rintro _ _ _ _ ⟨⟩) (.done (.closed .nil))

/-- A text full of comments and one without have the lexemes of `(a b)`, and are read alike. -/
theorem tokens_of_any_layout_commented :
    WellSpaced ";(\n".toList commentedItems ∧ WellSpaced [] plainItems ∧
      (tokens (String.ofList (arranged ";(\n".toList commentedItems))).map Token.lexeme =
        [.opening, .word "a", .word "b", .closing] ∧
      ((∃ forms, Form.read (String.ofList (arranged ";(\n".toList commentedItems)) = .ok forms ∧
          Form.read (String.ofList (arranged [] plainItems)) = .ok forms) ∨
        ∃ e e', Form.read (String.ofList (arranged ";(\n".toList commentedItems)) = .error e ∧
          Form.read (String.ofList (arranged [] plainItems)) = .error e') := by
  have hlayout := tokens_of_any_layout wellSpaced_commentedItems
  exact ⟨wellSpaced_commentedItems, wellSpaced_plainItems, hlayout.1,
    hlayout.2 [] plainItems wellSpaced_plainItems rfl⟩

end PureContracts.Source
