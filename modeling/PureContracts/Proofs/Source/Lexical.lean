import PureContracts.Source.Scan

/-!
# The lexical grammar

The scanner works in two strides, a stretch of layout and then a token, and its positions come from
the stretches it has passed.  `Scans` describes the same character by character, or word by word:
blanks and comments leave nothing behind, a parenthesis is a token, and a word is a token when a
delimiter or the end of the text follows it.  All that is later said about the tokens of a text is
proved by induction on `Scans`, and the tokens of a given text are found by deriving it.

* `blanks`, `delimiters` — the characters that separate tokens, and those that end a word.
* `IsWord` — the texts that are scanned as one word.
* `Delimited` — the texts that a word can stand in front of.
* `Scans` — the tokens of a text that starts at some place, inside a comment or not.

Principal results
* `isBlank_iff`, `isWordChar_iff` — the scanner tells characters apart by these lists;
* `tokens_eq_iff_scans` — the scanner finds exactly the tokens of the grammar;
* `Scans.isWord`, `Scans.isInfix_of_word` — every word token holds a word, and a stretch of the
  text.
-/

namespace PureContracts.Source

/-! ## Characters -/

/-- The characters that separate tokens. -/
def blanks : List Char := [' ', '\t', '\r', '\n']

/-- The characters that no word has: blanks, parentheses, and the semicolon of a comment. -/
def delimiters : List Char := [' ', '\t', '\r', '\n', '(', ')', ';']

theorem mem_delimiters_of_mem_blanks {c : Char} (hc : c ∈ blanks) : c ∈ delimiters :=
  List.mem_append_left ['(', ')', ';'] hc

theorem isBlank_iff {c : Char} : isBlank c = true ↔ c ∈ blanks := by
  simp [isBlank, blanks, or_assoc]

theorem isDelimiter_iff {c : Char} : isDelimiter c = true ↔ c ∈ delimiters := by
  simp [isDelimiter, isBlank, delimiters, or_assoc]

theorem isWordChar_iff {c : Char} : isWordChar c = true ↔ c ∉ delimiters := by
  rw [isWordChar, Bool.not_eq_true', ← isDelimiter_iff, Bool.not_eq_true]

/-! ## Words -/

/-- A text that is scanned as one word. -/
structure IsWord (text : String) : Prop where
  ne_empty : text ≠ ""
  chars : ∀ c ∈ text.toList, c ∉ delimiters

theorem isWord_iff {text : String} :
    IsWord text ↔ text ≠ "" ∧ text.toList.all (· ∉ delimiters) = true := by
  rw [List.all_eq_true]
  constructor
  · exact fun h => ⟨h.ne_empty, fun c hc => decide_eq_true (h.chars c hc)⟩
  · exact fun h => ⟨h.1, fun c hc => of_decide_eq_true (h.2 c hc)⟩

instance (text : String) : Decidable (IsWord text) := decidable_of_iff _ isWord_iff.symm

theorem IsWord.exists_cons {text : String} (h : IsWord text) :
    ∃ first more, text.toList = first :: more := by
  apply List.exists_cons_of_ne_nil
  intro hnil
  exact h.ne_empty (String.toList_eq_nil_iff.mp hnil)

/-- A text that a word can stand in front of: it is empty or starts with a delimiter. -/
def Delimited (rest : List Char) : Prop := ∀ c ∈ rest.head?, c ∈ delimiters

theorem delimited_nil : Delimited [] := by
  intro c hc
  cases hc

theorem delimited_cons {c : Char} (hc : c ∈ delimiters) (rest : List Char) :
    Delimited (c :: rest) := by
  intro first hfirst
  cases hfirst
  exact hc

/-! ## Words and what follows them -/

section

variable {word rest : List Char}

theorem isWordChar_of_delimited {c : Char} (h : Delimited (c :: rest)) : isWordChar c = false :=
  Bool.eq_false_iff.mpr fun hc => isWordChar_iff.mp hc (h c rfl)

theorem takeWhile_isWordChar (hword : ∀ c ∈ word, c ∉ delimiters) (hrest : Delimited rest) :
    (word ++ rest).takeWhile isWordChar = word := by
  rw [List.takeWhile_append_of_pos fun c hc => isWordChar_iff.mpr (hword c hc)]
  cases rest with
  | nil => simp
  | cons c rest =>
    simp [isWordChar_of_delimited hrest]

theorem dropWhile_isWordChar (hword : ∀ c ∈ word, c ∉ delimiters) (hrest : Delimited rest) :
    (word ++ rest).dropWhile isWordChar = rest := by
  rw [List.dropWhile_append_of_pos fun c hc => isWordChar_iff.mpr (hword c hc)]
  cases rest with
  | nil => rfl
  | cons c rest =>
    simp [isWordChar_of_delimited hrest]

theorem delimited_dropWhile (text : List Char) : Delimited (text.dropWhile isWordChar) := by
  intro c hc
  have hnot := List.head?_dropWhile_not isWordChar text
  rw [hc] at hnot
  rw [← isDelimiter_iff]
  simpa [isWordChar] using hnot

end

/-! ## The grammar -/

/-- The token of a lexeme that starts at a place. -/
def placed (lexeme : Lexeme) (p : Position) : Token :=
  ⟨lexeme, p, (p.after lexeme.text.toList).line, (p.after lexeme.text.toList).column⟩

/-- Whether a token is a parenthesis. -/
def isParen (token : Token) : Bool :=
  match token.lexeme with
  | .word _ => false
  | _ => true

/-- The tokens of a text that starts at a place, with `true` inside a comment. -/
inductive Scans : Bool → Position → List Char → List Token → Prop where
  | done {comment : Bool} {p : Position} : Scans comment p [] []
  | commented {p : Position} {c : Char} {cs : List Char} {ts : List Token} :
      Scans (c != '\n') (p.step c) cs ts → Scans true p (c :: cs) ts
  | blank {p : Position} {c : Char} {cs : List Char} {ts : List Token} :
      c ∈ blanks → Scans false (p.step c) cs ts → Scans false p (c :: cs) ts
  | comment {p : Position} {cs : List Char} {ts : List Token} :
      Scans true (p.step ';') cs ts → Scans false p (';' :: cs) ts
  | opening {p : Position} {cs : List Char} {ts : List Token} :
      Scans false (p.step '(') cs ts → Scans false p ('(' :: cs) (placed .opening p :: ts)
  | closing {p : Position} {cs : List Char} {ts : List Token} :
      Scans false (p.step ')') cs ts → Scans false p (')' :: cs) (placed .closing p :: ts)
  | word {p : Position} {text : String} {rest : List Char} {ts : List Token} :
      IsWord text → Delimited rest → Scans false (p.after text.toList) rest ts →
      Scans false p (text.toList ++ rest) (placed (.word text) p :: ts)

namespace Scans

theorem eq_nil {comment : Bool} {p : Position} {ts : List Token} (h : Scans comment p [] ts) :
    ts = [] := by
  generalize htext : [] = text at h
  cases h with
  | done => rfl
  | word hword _ _ =>
    obtain ⟨first, more, hcons⟩ := hword.exists_cons
    rw [hcons] at htext
    cases htext
  | commented _ | blank _ _ | comment _ | opening _ | closing _ => cases htext

/-- **Every word token holds a word.** -/
theorem isWord {comment : Bool} {p : Position} {text : List Char} {ts : List Token}
    (h : Scans comment p text ts) {word : String} (hword : .word word ∈ ts.map Token.lexeme) :
    IsWord word := by
  induction h with
  | done => cases hword
  | commented _ ih => exact ih hword
  | blank _ _ ih => exact ih hword
  | comment _ ih => exact ih hword
  | opening _ ih | closing _ ih =>
    rw [List.map_cons, List.mem_cons] at hword
    rcases hword with hword | hword
    · cases hword
    · exact ih hword
  | word hfirst _ _ ih =>
    rw [List.map_cons, List.mem_cons] at hword
    rcases hword with hword | hword
    · cases hword
      exact hfirst
    · exact ih hword

/-- **Every word token is a stretch of the text.** -/
theorem isInfix_of_word {comment : Bool} {p : Position} {text : List Char} {ts : List Token}
    (h : Scans comment p text ts) {word : String} (hword : .word word ∈ ts.map Token.lexeme) :
    word.toList <:+: text := by
  induction h with
  | done => cases hword
  | commented _ ih => exact (ih hword).trans (List.suffix_cons _ _).isInfix
  | blank _ _ ih => exact (ih hword).trans (List.suffix_cons _ _).isInfix
  | comment _ ih => exact (ih hword).trans (List.suffix_cons _ _).isInfix
  | opening _ ih | closing _ ih =>
    rw [List.map_cons, List.mem_cons] at hword
    rcases hword with hword | hword
    · cases hword
    · exact (ih hword).trans (List.suffix_cons _ _).isInfix
  | word _ _ _ ih =>
    rw [List.map_cons, List.mem_cons] at hword
    rcases hword with hword | hword
    · cases hword
      exact (List.prefix_append _ _).isInfix
    · exact (ih hword).trans (List.suffix_append _ _).isInfix

end Scans

/-! ## The scanner follows the grammar -/

theorem splitLayout_blank {c : Char} (hblank : c ∈ blanks) (cs : List Char) :
    splitLayout false (c :: cs) = (c :: (splitLayout false cs).1, (splitLayout false cs).2) := by
  have hsemi : (c == ';') = false := by
    apply beq_false_of_ne
    rintro rfl
    exact absurd hblank (by decide)
  simp [splitLayout, isBlank_iff.mpr hblank, hsemi]

theorem splitLayout_of_not_layout {c : Char} (hblank : c ∉ blanks) (hsemi : c ≠ ';')
    (cs : List Char) : splitLayout false (c :: cs) = ([], c :: cs) := by
  rw [← isBlank_iff, Bool.not_eq_true] at hblank
  simp [splitLayout, hblank, hsemi]

theorem splitLayout_false_rest (comment : Bool) (text : List Char) :
    splitLayout false (splitLayout comment text).2 = ([], (splitLayout comment text).2) := by
  induction text generalizing comment with
  | nil => rfl
  | cons c cs ih =>
    rw [splitLayout]
    split
    · exact ih _
    · rename_i hlayout
      simp only [Bool.or_eq_true, beq_iff_eq, not_or, isBlank_iff] at hlayout
      exact splitLayout_of_not_layout hlayout.1.2 hlayout.2 cs

theorem scans_of_splitLayout {comment : Bool} {p : Position} {text : List Char} {ts : List Token}
    (h : Scans false (p.after (splitLayout comment text).1) (splitLayout comment text).2 ts) :
    Scans comment p text ts := by
  induction text generalizing comment p with
  | nil =>
    rw [h.eq_nil]
    exact .done
  | cons c cs ih =>
    cases comment with
    | true => exact .commented (ih h)
    | false =>
      by_cases hsemi : c = ';'
      · subst hsemi
        exact .comment (ih h)
      · by_cases hblank : c ∈ blanks
        · rw [splitLayout_blank hblank] at h
          exact .blank hblank (ih h)
        · rwa [splitLayout_of_not_layout hblank hsemi] at h

namespace Cursor

theorem notMem_delimiters_of_skipLayout {c : Cursor} {first : Char} {rest : List Char}
    (h : c.skipLayout.rest = first :: rest) (hopen : first ≠ '(') (hclose : first ≠ ')') :
    first ∉ delimiters := by
  have hskipped := splitLayout_false_rest false c.rest
  rw [show (splitLayout false c.rest).2 = first :: rest from h] at hskipped
  have hsemi : first ≠ ';' := by
    rintro rfl
    cases hskipped
  have hblank : first ∉ blanks := by
    intro hfirst
    rw [splitLayout_blank hfirst] at hskipped
    cases hskipped
  change first ∉ blanks ++ ['(', ')', ';']
  simp [hblank, hsemi, hopen, hclose]

/-- **What the scanner finds follows the grammar.** -/
theorem scans_scan (c : Cursor) : Scans false c.position c.rest c.scan.1 := by
  fun_induction scan c with
  | case1 c h =>
    apply scans_of_splitLayout
    have hrest : (splitLayout false c.rest).2 = [] := skipLayout_rest_of_next? h
    rw [hrest]
    exact .done
  | case2 c t after h remaining ih =>
    apply scans_of_splitLayout
    change Scans false c.skipLayout.position c.skipLayout.rest (t :: remaining.1)
    unfold next? at h
    split at h
    · cases h
    · rename_i rest hrest
      cases h
      rw [hrest]
      exact .opening ih
    · rename_i rest hrest
      cases h
      rw [hrest]
      exact .closing ih
    · rename_i first rest hopen hclose hrest
      cases h
      have hfirst := notMem_delimiters_of_skipLayout hrest hopen hclose
      have hword : IsWord (String.ofList (first :: rest.takeWhile isWordChar)) := by
        refine ⟨by simp, ?_⟩
        intro d hd
        rw [String.toList_ofList, List.mem_cons] at hd
        rcases hd with rfl | hd
        · exact hfirst
        · exact isWordChar_iff.mp (List.all_eq_true.mp List.all_takeWhile d hd)
      have hbehind : Scans false
          (c.skipLayout.position.after
            (String.ofList (first :: rest.takeWhile isWordChar)).toList)
          (rest.dropWhile isWordChar) remaining.1 := by
        rw [String.toList_ofList]
        exact ih
      have hscans := Scans.word hword (delimited_dropWhile rest) hbehind
      rw [placed, Lexeme.text, String.toList_ofList, List.cons_append,
        List.takeWhile_append_dropWhile, ← hrest] at hscans
      exact hscans

/-! ## The grammar determines the tokens -/

theorem scan_of_next?_none {c : Cursor} (h : c.next? = none) : c.scan.1 = [] := by
  rw [scan]
  split
  · rfl
  · rename_i hsome
    rw [h] at hsome
    cases hsome

theorem scan_of_next?_some {c after : Cursor} {t : Token} (h : c.next? = some (t, after)) :
    c.scan.1 = t :: after.scan.1 := by
  rw [scan]
  split
  · rename_i hnone
    rw [h] at hnone
    cases hnone
  · rename_i hsome
    rw [h] at hsome
    cases hsome
    rfl

theorem skipLayout_skipLayout (c : Cursor) : c.skipLayout.skipLayout = c.skipLayout := by
  simp [skipLayout, splitLayout_false_rest]

theorem scan_skipLayout (c : Cursor) : c.skipLayout.scan.1 = c.scan.1 := by
  have hnext : c.skipLayout.next? = c.next? := by
    rw [next?, next?, skipLayout_skipLayout]
  cases h : c.next? with
  | none => rw [scan_of_next?_none h, scan_of_next?_none (hnext.trans h)]
  | some found => rw [scan_of_next?_some h, scan_of_next?_some (hnext.trans h)]

theorem splitLayout_word {text : String} (hword : IsWord text) (rest : List Char) :
    splitLayout false (text.toList ++ rest) = ([], text.toList ++ rest) := by
  obtain ⟨first, more, htext⟩ := hword.exists_cons
  have hfirst := hword.chars first (by simp [htext])
  have hsemi : first ≠ ';' := by
    rintro rfl
    exact hfirst (by decide)
  rw [htext]
  exact splitLayout_of_not_layout (fun hblank => hfirst (mem_delimiters_of_mem_blanks hblank))
    hsemi _

theorem next?_word (p : Position) {text : String} {rest : List Char} (hword : IsWord text)
    (hrest : Delimited rest) :
    next? ⟨p, text.toList ++ rest⟩ =
      some (placed (.word text) p, ⟨p.after text.toList, rest⟩) := by
  obtain ⟨first, more, htext⟩ := hword.exists_cons
  have hskip : skipLayout ⟨p, text.toList ++ rest⟩ = ⟨p, text.toList ++ rest⟩ := by
    simp [skipLayout, splitLayout_word hword]
  have hchars := hword.chars
  rw [htext, List.forall_mem_cons] at hchars
  have hofList : String.ofList (first :: more) = text := by rw [← htext, String.ofList_toList]
  rw [next?, hskip, placed, Lexeme.text, htext]
  dsimp only [List.cons_append]
  split
  · rename_i heq
    cases heq
  · rename_i heq
    cases heq
    exact absurd (by decide) hchars.1
  · rename_i heq
    cases heq
    exact absurd (by decide) hchars.1
  · rename_i heq
    cases heq
    rw [takeWhile_isWordChar hchars.2 hrest, dropWhile_isWordChar hchars.2 hrest, hofList]
    rfl

/-- **Tokens that follow the grammar are those that the scanner finds.** -/
theorem scan_eq_of_scans {comment : Bool} {p : Position} {text : List Char} {ts : List Token}
    (h : Scans comment p text ts) :
    (scan ⟨p.after (splitLayout comment text).1, (splitLayout comment text).2⟩).1 = ts := by
  induction h with
  | done => exact scan_of_next?_none rfl
  | commented _ ih => exact ih
  | blank hblank _ ih =>
    rw [splitLayout_blank hblank]
    exact ih
  | comment _ ih => exact ih
  | @opening p cs ts _ ih =>
    have hnext : next? ⟨p, '(' :: cs⟩ = some (placed .opening p, ⟨p.step '(', cs⟩) := rfl
    rw [← ih]
    exact (scan_of_next?_some hnext).trans (congrArg _ (scan_skipLayout _).symm)
  | @closing p cs ts _ ih =>
    have hnext : next? ⟨p, ')' :: cs⟩ = some (placed .closing p, ⟨p.step ')', cs⟩) := rfl
    rw [← ih]
    exact (scan_of_next?_some hnext).trans (congrArg _ (scan_skipLayout _).symm)
  | @word p text rest ts hword hrest _ ih =>
    have hnext := next?_word p hword hrest
    rw [splitLayout_word hword rest, ← ih]
    exact (scan_of_next?_some hnext).trans (congrArg _ (scan_skipLayout _).symm)

end Cursor

/-- **The scanner finds exactly the tokens of the grammar.** -/
theorem tokens_eq_iff_scans {text : String} {ts : List Token} :
    tokens text = ts ↔ Scans false .start text.toList ts := by
  constructor
  · rintro rfl
    exact Cursor.scans_scan (.ofText text)
  · intro h
    rw [← Cursor.scan_eq_of_scans h]
    exact (Cursor.scan_skipLayout (.ofText text)).symm

theorem scans_tokens (text : String) : Scans false .start text.toList (tokens text) :=
  tokens_eq_iff_scans.mp rfl

end PureContracts.Source
