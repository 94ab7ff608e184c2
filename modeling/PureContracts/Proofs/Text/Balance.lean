import Mathlib.Data.List.Basic

/-!
# Brackets that keep text together

A mark inside brackets does not separate.  Every character has a weight, one for an opening bracket
and minus one for a closing one, and the weights before a place tell how many brackets are open
there.

* `level` — how many brackets are open behind a text.
* `Balanced` — texts that close what they open, and nothing else.
* `Sealed` — balanced texts in which a mark stands inside brackets only.

Principal results
* `Sealed.cut_unique` — a text is cut at the first mark outside of brackets in one way only;
* `lastGroup_unique` — the last group of brackets of a text starts at one place only;
* `Sealed.intercalate_inj` — pieces that are joined by a mark can be told apart.
-/

namespace PureContracts.Text

/-- How many brackets are open behind a text. -/
def level (weight : Char → Int) : List Char → Int
  | [] => 0
  | c :: text => weight c + level weight text

/-- A text that closes as many brackets as it opens, and no more at any place. -/
structure Balanced (weight : Char → Int) (text : List Char) : Prop where
  level_eq : level weight text = 0
  level_nonneg : ∀ before, before <+: text → 0 ≤ level weight before

/-- A balanced text in which every occurrence of `mark` stands inside brackets. -/
structure Sealed (weight : Char → Int) (mark : Char) (text : List Char) : Prop
    extends Balanced weight text where
  level_before : ∀ before, before ++ [mark] <+: text → 0 < level weight before

variable {weight : Char → Int} {mark : Char}

@[simp] theorem level_nil : level weight [] = 0 := rfl

@[simp] theorem level_cons (c : Char) (text : List Char) :
    level weight (c :: text) = weight c + level weight text := rfl

@[simp] theorem level_append (first second : List Char) :
    level weight (first ++ second) = level weight first + level weight second := by
  induction first with
  | nil => rw [List.nil_append, level_nil, Int.zero_add]
  | cons c first ih => rw [List.cons_append, level_cons, level_cons, ih, Int.add_assoc]

theorem level_of_weightless {text : List Char} (h : ∀ c ∈ text, weight c = 0) :
    level weight text = 0 := by
  induction text with
  | nil => rfl
  | cons c text ih =>
    rw [List.forall_mem_cons] at h
    rw [level_cons, h.1, ih h.2, Int.add_zero]

/-- A text in front of two others stands in front of the first, or reaches into the second. -/
theorem prefix_append_cases {before first second : List Char} (h : before <+: first ++ second) :
    before <+: first ∨ ∃ more, before = first ++ more ∧ more <+: second := by
  obtain ⟨rest, hrest⟩ := h
  rcases List.append_eq_append_iff.mp hrest with ⟨more, rfl, -⟩ | ⟨more, rfl, hsecond⟩
  · exact .inl (List.prefix_append before more)
  · exact .inr ⟨more, rfl, rest, hsecond.symm⟩

/-! ## Balanced texts -/

theorem balanced_of_weightless {text : List Char} (h : ∀ c ∈ text, weight c = 0) :
    Balanced weight text := by
  refine ⟨level_of_weightless h, ?_⟩
  intro before hbefore
  have hzero : level weight before = 0 := level_of_weightless fun c hc => h c (hbefore.subset hc)
  omega

theorem balanced_nil : Balanced weight [] := balanced_of_weightless (by simp)

theorem Balanced.append {first second : List Char} (hfirst : Balanced weight first)
    (hsecond : Balanced weight second) : Balanced weight (first ++ second) := by
  constructor
  · rw [level_append, hfirst.level_eq, hsecond.level_eq, Int.add_zero]
  · intro before hbefore
    rcases prefix_append_cases hbefore with hshort | ⟨more, rfl, hmore⟩
    · exact hfirst.level_nonneg before hshort
    · have hnonneg := hsecond.level_nonneg more hmore
      rw [level_append, hfirst.level_eq]
      omega

theorem Balanced.enclose {inner : List Char} {opening closing : Char}
    (hinner : Balanced weight inner) (hopening : weight opening = 1)
    (hclosing : weight closing = -1) : Balanced weight (opening :: (inner ++ [closing])) := by
  constructor
  · simp [hinner.level_eq, hopening, hclosing]
  · intro before hbefore
    rcases List.prefix_cons_iff.mp hbefore with rfl | ⟨inside, rfl, hinside⟩
    · simp
    · rcases List.prefix_concat_iff.mp hinside with rfl | hshort
      · simp [hinner.level_eq, hopening, hclosing]
      · have hnonneg := hinner.level_nonneg inside hshort
        rw [level_cons, hopening]
        omega

theorem Balanced.intercalate {separator : List Char} {pieces : List (List Char)}
    (hseparator : Balanced weight separator) (h : ∀ piece ∈ pieces, Balanced weight piece) :
    Balanced weight (List.intercalate separator pieces) := by
  induction pieces with
  | nil => exact balanced_nil
  | cons piece rest ih =>
    rw [List.forall_mem_cons] at h
    cases rest with
    | nil => rw [List.intercalate_singleton]; exact h.1
    | cons next rest =>
      rw [List.intercalate_cons_cons]
      exact (h.1.append hseparator).append (ih h.2)

/-! ## Sealed texts -/

theorem sealed_of_notMem {text : List Char} (htext : Balanced weight text) (hmark : mark ∉ text) :
    Sealed weight mark text := by
  refine ⟨htext, ?_⟩
  intro before hbefore
  exact absurd (hbefore.subset (by simp)) hmark

theorem Sealed.append {first second : List Char} (hfirst : Sealed weight mark first)
    (hsecond : Sealed weight mark second) : Sealed weight mark (first ++ second) := by
  refine ⟨hfirst.toBalanced.append hsecond.toBalanced, ?_⟩
  intro before hbefore
  rcases prefix_append_cases hbefore with hshort | ⟨more, hmore, hinto⟩
  · exact hfirst.level_before before hshort
  · -- The mark is the last character of `first`, or it stands in `second`.
    rcases List.eq_nil_or_concat' more with rfl | ⟨inside, last, rfl⟩
    · rw [List.append_nil] at hmore
      exact hfirst.level_before before (hmore ▸ List.prefix_rfl)
    · rw [← List.append_assoc] at hmore
      obtain ⟨rfl, hlast⟩ := List.append_inj' hmore rfl
      cases hlast
      have hpositive := hsecond.level_before inside hinto
      rw [level_append, hfirst.level_eq]
      omega

/-- What stands in brackets is sealed against every mark that is no bracket. -/
theorem Balanced.sealed_enclose {inner : List Char} {opening closing : Char}
    (hinner : Balanced weight inner) (hopening : weight opening = 1)
    (hclosing : weight closing = -1) (hmark : weight mark = 0) :
    Sealed weight mark (opening :: (inner ++ [closing])) := by
  refine ⟨hinner.enclose hopening hclosing, ?_⟩
  intro before hbefore
  cases before with
  | nil =>
    rw [List.nil_append, List.cons_prefix_cons] at hbefore
    rw [hbefore.1, hopening] at hmark
    cases hmark
  | cons c inside =>
    rw [List.cons_append, List.cons_prefix_cons] at hbefore
    obtain ⟨rfl, hinside⟩ := hbefore
    rw [level_cons, hopening]
    rcases List.prefix_concat_iff.mp hinside with hall | hshort
    · obtain ⟨-, hlast⟩ := List.append_inj' hall rfl
      cases hlast
      rw [hmark] at hclosing
      cases hclosing
    · have hnonneg := hinner.level_nonneg inside ((List.prefix_append _ _).trans hshort)
      omega

/-! ## Taking texts apart -/

/-- A sealed text does not go on behind a balanced one with the mark. -/
theorem Sealed.not_continued {first second : List Char} (hfirst : Balanced weight first)
    (hsecond : Sealed weight mark second) : ¬ first ++ [mark] <+: second := by
  intro h
  have hpositive := hsecond.level_before first h
  rw [hfirst.level_eq] at hpositive
  omega

/-- **A text is cut at the first mark outside of brackets in one way only.** -/
theorem Sealed.cut_unique {first second rest later : List Char}
    (hfirst : Sealed weight mark first) (hsecond : Sealed weight mark second)
    (h : first ++ mark :: rest = second ++ mark :: later) : first = second ∧ rest = later := by
  rcases List.append_eq_append_iff.mp h with ⟨more, rfl, hrest⟩ | ⟨more, rfl, hlater⟩
  · cases more with
    | nil => simpa using hrest
    | cons c more =>
      rw [List.cons_append, List.cons.injEq] at hrest
      obtain ⟨rfl, -⟩ := hrest
      exact absurd ⟨more, by simp⟩ (hsecond.not_continued hfirst.toBalanced)
  · cases more with
    | nil => simpa using hlater.symm
    | cons c more =>
      rw [List.cons_append, List.cons.injEq] at hlater
      obtain ⟨rfl, -⟩ := hlater
      exact absurd ⟨more, by simp⟩ (hfirst.not_continued hsecond.toBalanced)

/-- No balanced text ends in a bracket that is still open. -/
theorem Balanced.not_suffix {inner before inside : List Char} {opening : Char}
    (hinner : Balanced weight inner) (hinside : Balanced weight inside)
    (hopening : weight opening = 1) : inner ≠ before ++ opening :: inside := by
  rintro rfl
  have hnonneg := hinner.level_nonneg before (List.prefix_append _ _)
  have htotal := hinner.level_eq
  rw [level_append, level_cons, hopening, hinside.level_eq] at htotal
  omega

/-- **The last group of brackets of a text starts at one place only.** -/
theorem lastGroup_unique {first second inner inside : List Char} {opening other : Char}
    (hopening : weight opening = 1) (hother : weight other = 1) (hinner : Balanced weight inner)
    (hinside : Balanced weight inside) (h : first ++ opening :: inner = second ++ other :: inside) :
    first = second ∧ opening = other ∧ inner = inside := by
  rcases List.append_eq_append_iff.mp h with ⟨more, rfl, hrest⟩ | ⟨more, rfl, hrest⟩
  · cases more with
    | nil => simpa using hrest
    | cons c more =>
      rw [List.cons_append, List.cons.injEq] at hrest
      exact absurd hrest.2 (hinner.not_suffix hinside hother)
  · cases more with
    | nil =>
      rw [List.nil_append, List.cons.injEq] at hrest
      exact ⟨by simp, hrest.1.symm, hrest.2.symm⟩
    | cons c more =>
      rw [List.cons_append, List.cons.injEq] at hrest
      exact absurd hrest.2 (hinside.not_suffix hinner hopening)

/-- **Pieces that are joined by a mark can be told apart**, when the mark stands in none of them
outside of brackets. -/
theorem Sealed.intercalate_inj {separator : List Char} {first second : List (List Char)}
    (hfirst : ∀ piece ∈ first, Sealed weight mark piece)
    (hsecond : ∀ piece ∈ second, Sealed weight mark piece) (hne : first ≠ []) (hne' : second ≠ [])
    (h : List.intercalate (mark :: separator) first =
      List.intercalate (mark :: separator) second) :
    first = second := by
  induction first generalizing second with
  | nil => exact absurd rfl hne
  | cons piece rest ih =>
    cases second with
    | nil => exact absurd rfl hne'
    | cons other more =>
      rw [List.forall_mem_cons] at hfirst hsecond
      cases rest with
      | nil =>
        cases more with
        | nil =>
          rw [List.intercalate_singleton, List.intercalate_singleton] at h
          rw [h]
        | cons next more =>
          -- One piece would hold a mark outside of brackets.
          rw [List.intercalate_singleton, List.intercalate_cons_cons, List.append_assoc,
            List.cons_append] at h
          exact absurd ⟨_, by rw [h, List.append_assoc, List.singleton_append]⟩
            (hfirst.1.not_continued hsecond.1.toBalanced)
      | cons next rest =>
        cases more with
        | nil =>
          rw [List.intercalate_singleton, List.intercalate_cons_cons, List.append_assoc,
            List.cons_append] at h
          exact absurd ⟨_, by rw [← h, List.append_assoc, List.singleton_append]⟩
            (hsecond.1.not_continued hfirst.1.toBalanced)
        | cons next' more =>
          simp only [List.intercalate_cons_cons, List.append_assoc, List.cons_append] at h
          obtain ⟨hpiece, hrest⟩ := hfirst.1.cut_unique hsecond.1 h
          have hpieces := ih hfirst.2 hsecond.2 (List.cons_ne_nil _ _) (List.cons_ne_nil _ _)
            (List.append_cancel_left hrest)
          rw [hpiece, hpieces]

end PureContracts.Text
