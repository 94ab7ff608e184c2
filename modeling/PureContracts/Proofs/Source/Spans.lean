import PureContracts.Proofs.Source.Arrangement
import PureContracts.Proofs.Source.Parentheses

/-!
# Spans are exact

The scanner finds the place of a token by counting along.  Here the places are read off the text:
a token covers the characters at its offset, and what lies between the tokens is layout and nothing
else.

* `Token.offset`, `Token.stop` — where a token starts and ends, in characters.
* `Before` — tokens in order, without overlap.
* `ExactSpan` — a token that covers its own text, with the line and column that the text before it
  gives.
* `gaps` — what lies before, between and behind tokens.

Principal results
* `exactSpan_placed` — a lexeme is placed exactly;
* `gaps_placedAll` — the gaps between lexemes that are set out are their layout;
* `spans_are_exact` — the tokens of a text are ordered, exact and separated by layout only, and a
  second scan finds nothing more.
-/

namespace PureContracts

/-- The number of characters before a token. -/
def Token.offset (t : Token) : Nat := t.span.start.offset

/-- The number of characters up to the end of a token. -/
def Token.stop (t : Token) : Nat := t.offset + t.lexeme.text.length

namespace Source

/-- A token that covers its own text, with the line and column that the text before it gives. -/
structure ExactSpan (text : List Char) (t : Token) : Prop where
  nonempty : 0 < t.lexeme.text.length
  covers : (text.drop t.offset).take t.lexeme.text.length = t.lexeme.text.toList
  /-- A word ends at a delimiter or with the text. -/
  delimited : ∀ word, t.lexeme = .word word → Delimited (text.drop t.stop)
  line_eq : t.span.start.line = 1 + (text.take t.offset).count '\n'
  column_eq : t.span.start.column = 1 + (lastLine (text.take t.offset)).length
  endLine_eq : t.span.endLine = t.span.start.line
  endColumn_eq : t.span.endColumn = t.span.start.column + t.lexeme.text.length

/-- What lies before, between and behind tokens, from `start` on. -/
def gaps (text : List Char) (start : Nat) : List Token → List (List Char)
  | [] => [text.drop start]
  | t :: ts => (text.drop start).take (t.offset - start) :: gaps text t.stop ts

/-- One token starts before the other, and does not reach into it. -/
def Before (first second : Token) : Prop :=
  first.offset < second.offset ∧ first.stop ≤ second.offset

/-! ## One token -/

theorem after_of_notMem {p : Position} {stretch : List Char} (h : '\n' ∉ stretch) :
    p.after stretch = ⟨p.line, p.column + stretch.length, p.offset + stretch.length⟩ := by
  induction stretch generalizing p with
  | nil => rfl
  | cons c stretch ih =>
    rw [List.mem_cons, not_or] at h
    rw [Position.after_cons, ih h.2, Position.step, if_neg (Ne.symm h.1), List.length_cons]
    simp only [Position.mk.injEq, true_and]
    omega

theorem IsLexeme.newline_notMem {lexeme : Lexeme} (h : IsLexeme lexeme) :
    '\n' ∉ lexeme.text.toList := by
  cases lexeme with
  | opening => decide
  | closing => decide
  | word text =>
    intro hmem
    exact IsWord.chars h '\n' hmem (by decide)

theorem IsLexeme.length_pos {lexeme : Lexeme} (h : IsLexeme lexeme) : 0 < lexeme.text.length := by
  cases lexeme with
  | opening => decide
  | closing => decide
  | word text =>
    obtain ⟨first, more, htext⟩ := IsWord.exists_cons h
    rw [Lexeme.text, ← String.length_toList, htext]
    exact Nat.succ_pos _

theorem offset_placed (lexeme : Lexeme) (before : List Char) :
    (placed lexeme (Position.start.after before)).offset = before.length := by
  rw [Token.offset, placed, start_after]

theorem stop_placed (lexeme : Lexeme) (before : List Char) :
    (placed lexeme (Position.start.after before)).stop =
      (before ++ lexeme.text.toList).length := by
  rw [Token.stop, offset_placed, List.length_append, String.length_toList]
  rfl

/-- **A lexeme is placed exactly.** -/
theorem exactSpan_placed {lexeme : Lexeme} {before behind : List Char} (hlexeme : IsLexeme lexeme)
    (hbehind : ∀ word, lexeme = .word word → Delimited behind) :
    ExactSpan (before ++ (lexeme.text.toList ++ behind))
      (placed lexeme (Position.start.after before)) := by
  have hend := @after_of_notMem (Position.start.after before) _ hlexeme.newline_notMem
  refine ⟨hlexeme.length_pos, ?_, ?_, ?_, ?_, ?_, ?_⟩
  · rw [offset_placed, List.drop_left]
    show List.take lexeme.text.length _ = _
    rw [← String.length_toList, List.take_left]
    rfl
  · intro word hword
    rw [stop_placed, ← List.append_assoc, List.drop_left]
    exact hbehind word hword
  · rw [offset_placed, List.take_left, placed, start_after]
  · rw [offset_placed, List.take_left, placed, start_after]
  · rw [placed, hend]
  · rw [placed, hend, String.length_toList]

/-! ## All tokens -/

/-- The place behind some layout and a lexeme is the one behind all text so far. -/
theorem after_lexeme (before lead : List Char) (lexeme : Lexeme) :
    ((Position.start.after before).after lead).after lexeme.text.toList =
      Position.start.after (before ++ lead ++ lexeme.text.toList) := by
  rw [Position.after_append, Position.after_append]

theorem WellSpaced.exactSpan {lead : List Char} {items : List (Lexeme × List Char)}
    (h : WellSpaced lead items) (before : List Char) :
    ∀ t ∈ placedAll (Position.start.after before) lead items,
      ExactSpan (before ++ arranged lead items) t := by
  -- The text so far grows by the layout and the lexeme that the scanner passes.
  induction h generalizing before with
  | done _ => exact fun t ht => nomatch ht
  | @next lead gap lexeme rest hlead hlexeme hapart hrest ih =>
    rw [placedAll, List.forall_mem_cons, after_lexeme]
    constructor
    · rw [← Position.after_append, arranged, ← List.append_assoc]
      apply exactSpan_placed hlexeme
      rintro word rfl
      exact hrest.delimited hapart
    · have hbehind := ih (before ++ lead ++ lexeme.text.toList)
      simpa only [arranged, List.append_assoc] using hbehind

theorem length_le_offset {before lead : List Char} {items : List (Lexeme × List Char)} {t : Token}
    (h : t ∈ placedAll (Position.start.after before) lead items) : before.length ≤ t.offset := by
  induction items generalizing before lead with
  | nil => cases h
  | cons item rest ih =>
    rw [placedAll, after_lexeme, List.mem_cons] at h
    rcases h with rfl | h
    · rw [← Position.after_append, offset_placed, List.length_append]
      omega
    · have hlonger := ih h
      rw [List.length_append, List.length_append] at hlonger
      omega

theorem WellSpaced.pairwise_before {lead : List Char} {items : List (Lexeme × List Char)}
    (h : WellSpaced lead items) (before : List Char) :
    (placedAll (Position.start.after before) lead items).Pairwise Before := by
  induction h generalizing before with
  | done _ => exact .nil
  | @next lead gap lexeme rest hlead hlexeme _ _ ih =>
    rw [placedAll, after_lexeme, ← Position.after_append]
    refine .cons ?_ (ih _)
    intro t ht
    have hstop := length_le_offset ht
    have hpos := hlexeme.length_pos
    rw [← stop_placed] at hstop
    exact ⟨Nat.lt_of_lt_of_le (Nat.lt_add_of_pos_right hpos) hstop, hstop⟩

/-- **The gaps between lexemes that are set out are their layout.** -/
theorem gaps_placedAll (before lead : List Char) (items : List (Lexeme × List Char)) :
    gaps (before ++ arranged lead items) before.length
        (placedAll (Position.start.after before) lead items) = lead :: items.map Prod.snd := by
  induction items generalizing before lead with
  | nil => rw [placedAll, gaps, arranged, List.drop_left, List.map_nil]
  | cons item rest ih =>
    obtain ⟨lexeme, gap⟩ := item
    have hbehind := ih (before ++ lead ++ lexeme.text.toList) gap
    simp only [List.append_assoc] at hbehind
    rw [placedAll, gaps, after_lexeme, ← Position.after_append, offset_placed, stop_placed,
      arranged, List.drop_left, List.length_append, Nat.add_sub_cancel_left, List.take_left,
      List.append_assoc, hbehind, List.map_cons]

/-- All layout is complete but for the last. -/
theorem WellSpaced.layout {lead : List Char} {items : List (Lexeme × List Char)}
    (h : WellSpaced lead items) :
    ∃ between last, lead :: items.map Prod.snd = between ++ [last] ∧
      (∀ gap ∈ between, IsLayout gap) ∧ IsFinalLayout last := by
  induction h with
  | @done lead hlead => exact ⟨[], lead, rfl, by simp, hlead⟩
  | @next lead gap lexeme rest hlead _ _ _ ih =>
    obtain ⟨between, last, hgaps, hbetween, hlast⟩ := ih
    refine ⟨lead :: between, last, ?_, List.forall_mem_cons.mpr ⟨hlead, hbetween⟩, hlast⟩
    rw [List.map_cons, hgaps]
    rfl

theorem scan_used_up (text : String) : (Cursor.ofText text).scan.2.scan.1 = [] := by
  apply Cursor.scan_of_next?_none
  unfold Cursor.next? Cursor.skipLayout
  rw [Cursor.scan_rest]
  rfl

/-- **The tokens of a text are ordered, exact and separated by layout only**, and a second scan
finds nothing more. -/
theorem spans_are_exact (text : String) :
    (tokens text).Pairwise Before ∧
      (∀ t ∈ tokens text, ExactSpan text.toList t) ∧
      (∃ between last, gaps text.toList 0 (tokens text) = between ++ [last] ∧
        (∀ gap ∈ between, IsLayout gap) ∧ IsFinalLayout last) ∧
      (Cursor.ofText text).scan.2.scan.1 = [] := by
  obtain ⟨lead, items, htext, htokens, hspaced⟩ := (scans_tokens text).exists_wellSpaced
  simp only [Bool.false_eq_true, if_false] at hspaced
  have hgaps : gaps text.toList 0 (tokens text) = lead :: items.map Prod.snd := by
    rw [htext, htokens]
    exact gaps_placedAll [] lead items
  refine ⟨?_, ?_, ?_, scan_used_up text⟩
  · rw [htokens]
    exact hspaced.pairwise_before []
  · rw [htext, htokens]
    exact hspaced.exactSpan []
  · rw [hgaps]
    exact hspaced.layout

end Source

end PureContracts
