import Mathlib.Data.List.DropRight
import PureContracts.Proofs.Source.Lexical

/-!
# The parentheses of a text

Tokens say where they stand because the scanner counts along.  Here a place is read off the text
itself: a parenthesis is known by the text before it, which gives its line and column and tells
whether a comment has started on its line.

* `lastLine` — what a stretch of text has on the line that it ends in.
* `parens` — the parentheses of a text that stand in no comment, in order.
* `nesting` — how many more of them open than close.
* `Balanced`, `Matched` — which parentheses belong together.
* `Unclosed` — the parentheses that are still open behind a stretch, innermost first.

Principal results
* `start_after` — the counted position is the one read off the text;
* `Scans.parens` — the parentheses of the tokens are those of the text;
* `Unclosed.last` — the innermost open parenthesis is the last one without a partner.
-/

namespace PureContracts.Source

/-! ## Places -/

/-- What a stretch of text has on the line that it ends in. -/
def lastLine (before : List Char) : List Char := before.rtakeWhile (· != '\n')

theorem lastLine_concat (before : List Char) (c : Char) :
    lastLine (before ++ [c]) = if c = '\n' then [] else lastLine before ++ [c] := by
  rw [lastLine, List.rtakeWhile_concat]
  by_cases hc : c = '\n'
  · simp [hc]
  · simp [hc, lastLine]

/-- **The counted position is the one read off the text.** -/
theorem start_after (before : List Char) :
    Position.start.after before =
      ⟨1 + before.count '\n', 1 + (lastLine before).length, before.length⟩ := by
  induction before using List.reverseRecOn with
  | nil => rfl
  | append_singleton before c ih =>
    rw [Position.after_append, ih, lastLine_concat, Position.after_cons, Position.after_nil,
      Position.step]
    by_cases hc : c = '\n'
    · subst hc
      simp [List.count_append, Nat.add_assoc]
    · simp [hc, List.count_append, Nat.add_assoc]

/-- A parenthesis of a text: which one it is, and the text before it. -/
structure Paren where
  opens : Bool
  before : List Char
  deriving DecidableEq

namespace Paren

/-- One more than the number of line feeds before the parenthesis. -/
def line (paren : Paren) : Nat := 1 + paren.before.count '\n'

/-- One more than the number of characters before the parenthesis on its line. -/
def column (paren : Paren) : Nat := 1 + (lastLine paren.before).length

/-- Line and column, as messages show them. -/
def place (paren : Paren) : String := paren.line.repr ++ ":" ++ paren.column.repr

/-- Where the scanner places the parenthesis. -/
def position (paren : Paren) : Position := Position.start.after paren.before

theorem render_position (paren : Paren) : paren.position.render = paren.place := by
  rw [position, start_after]
  rfl

/-- The token of the parenthesis. -/
def token (paren : Paren) : Token :=
  placed (if paren.opens then .opening else .closing) paren.position

end Paren

/-! ## The parentheses outside of comments -/

/-- Whether the text behind a stretch continues a comment: a semicolon stands on the same line. -/
def InComment (before : List Char) : Prop := ';' ∈ lastLine before

instance (before : List Char) : Decidable (InComment before) :=
  inferInstanceAs (Decidable (';' ∈ lastLine before))

theorem inComment_concat {before : List Char} {c : Char} :
    InComment (before ++ [c]) ↔ c ≠ '\n' ∧ (InComment before ∨ c = ';') := by
  rw [InComment, InComment, lastLine_concat]
  by_cases hc : c = '\n'
  · simp [hc]
  · simp [hc, eq_comm]

/-- The character behind a stretch as a parenthesis, if it is one and stands in no comment. -/
def paren? (before : List Char) (c : Char) : Option Paren :=
  if InComment before then none
  else if c = '(' then some ⟨true, before⟩
  else if c = ')' then some ⟨false, before⟩
  else none

/-- The parentheses of what follows a stretch. -/
def parensFrom (before : List Char) : List Char → List Paren
  | [] => []
  | c :: rest => (paren? before c).toList ++ parensFrom (before ++ [c]) rest

/-- The parentheses of a text that stand in no comment. -/
def parens (text : String) : List Paren := parensFrom [] text.toList

theorem paren?_of_inComment {before : List Char} (h : InComment before) (c : Char) :
    paren? before c = none := by
  rw [paren?, if_pos h]

theorem paren?_of_ne {c : Char} (hopen : c ≠ '(') (hclose : c ≠ ')') (before : List Char) :
    paren? before c = none := by
  simp [paren?, hopen, hclose]

/-- A word holds no parenthesis and starts no comment. -/
theorem parensFrom_word {word : List Char} (hword : ∀ c ∈ word, c ∉ delimiters)
    (before rest : List Char) :
    parensFrom before (word ++ rest) = parensFrom (before ++ word) rest ∧
      (InComment (before ++ word) ↔ InComment before) := by
  induction word generalizing before with
  | nil => simp
  | cons c word ih =>
    rw [List.forall_mem_cons] at hword
    obtain ⟨hc, hword⟩ := hword
    simp only [delimiters, List.mem_cons, List.not_mem_nil, or_false, not_or] at hc
    obtain ⟨hparens, hcomment⟩ := ih hword (before ++ [c])
    rw [List.append_assoc, List.singleton_append] at hparens hcomment
    rw [List.cons_append, parensFrom, paren?_of_ne hc.2.2.2.2.1 hc.2.2.2.2.2.1, hcomment,
      inComment_concat]
    refine ⟨hparens, ?_⟩
    simp [hc]

theorem step_start (before : List Char) (c : Char) :
    (Position.start.after before).step c = Position.start.after (before ++ [c]) := by
  rw [Position.after_append]
  rfl

theorem outside_concat {before : List Char} {c : Char} (h : false = true ↔ InComment before)
    (hc : c ≠ ';') : false = true ↔ InComment (before ++ [c]) := by
  rw [inComment_concat, ← h]
  simp [hc]

/-- **The parentheses of the tokens are those of the text.** -/
theorem Scans.parens {comment : Bool} {p : Position} {text : List Char} {ts : List Token}
    (h : Scans comment p text ts) (before : List Char) (hp : p = Position.start.after before)
    (hcomment : comment = true ↔ InComment before) :
    ts.filter isParen = (parensFrom before text).map Paren.token := by
  -- The stretch already passed gives the place, and whether a comment is open, at every step.
  induction h generalizing before with
  | done => rfl
  | @commented p c cs ts _ ih =>
    have hinside : InComment before := hcomment.mp rfl
    rw [parensFrom, paren?_of_inComment hinside]
    refine ih (before ++ [c]) (by rw [hp, step_start]) ?_
    rw [inComment_concat]
    simp [hinside]
  | @blank p c cs ts hblank _ ih =>
    have hc : c ≠ '(' ∧ c ≠ ')' ∧ c ≠ ';' := by
      refine ⟨?_, ?_, ?_⟩
      all_goals
        rintro rfl
        exact absurd hblank (by decide)
    rw [parensFrom, paren?_of_ne hc.1 hc.2.1]
    exact ih (before ++ [c]) (by rw [hp, step_start]) (outside_concat hcomment hc.2.2)
  | comment _ ih =>
    rw [parensFrom, paren?_of_ne (by decide) (by decide)]
    refine ih (before ++ [';']) (by rw [hp, step_start]) ?_
    rw [inComment_concat]
    simp
  | opening _ ih =>
    have hrest := ih (before ++ ['(']) (by rw [hp, step_start])
      (outside_concat hcomment (by decide))
    rw [List.filter_cons_of_pos rfl, hrest, parensFrom, paren?,
      if_neg (hcomment.not.mp Bool.false_ne_true), hp]
    rfl
  | closing _ ih =>
    have hrest := ih (before ++ [')']) (by rw [hp, step_start])
      (outside_concat hcomment (by decide))
    rw [List.filter_cons_of_pos rfl, hrest, parensFrom, paren?,
      if_neg (hcomment.not.mp Bool.false_ne_true), hp]
    rfl
  | @word p text rest ts hword _ _ ih =>
    obtain ⟨hparens, hsame⟩ := parensFrom_word hword.chars before rest
    rw [hparens, List.filter_cons_of_neg (by simp [isParen, placed])]
    exact ih (before ++ text.toList) (by rw [hp, Position.after_append]) (hcomment.trans hsame.symm)

/-! ## Nesting and partners -/

/-- How many more parentheses open than close. -/
def nesting (parens : List Paren) : Int :=
  (parens.countP fun paren => paren.opens) - (parens.countP fun paren => !paren.opens)

theorem nesting_nil : nesting [] = 0 := rfl

theorem nesting_append (first second : List Paren) :
    nesting (first ++ second) = nesting first + nesting second := by
  simp only [nesting, List.countP_append]
  omega

theorem nesting_cons_opening {paren : Paren} (h : paren.opens = true) (rest : List Paren) :
    nesting (paren :: rest) = nesting rest + 1 := by
  simp only [nesting, List.countP_cons, h]
  simp
  omega

theorem nesting_cons_closing {paren : Paren} (h : paren.opens = false) (rest : List Paren) :
    nesting (paren :: rest) = nesting rest - 1 := by
  simp only [nesting, List.countP_cons, h]
  simp
  omega

/-- As many parentheses close as open, and never more so far. -/
structure Balanced (parens : List Paren) : Prop where
  nesting_eq : nesting parens = 0
  nesting_take : ∀ count, 0 ≤ nesting (parens.take count)

/-- An opening parenthesis in front of `later` has a partner there: the parentheses between the two
are balanced. -/
def Matched (later : List Paren) : Prop :=
  ∃ inside closing rest, later = inside ++ closing :: rest ∧ closing.opens = false ∧
    Balanced inside

/-- The last opening parenthesis without a partner. -/
def IsLastUnmatched (paren : Paren) (parens : List Paren) : Prop :=
  ∃ seen later, parens = seen ++ paren :: later ∧ paren.opens = true ∧ ¬ Matched later ∧
    ∀ inner other rest, later = inner ++ other :: rest → other.opens = true → Matched rest

theorem balanced_nil : Balanced [] := by
  refine ⟨rfl, fun count => ?_⟩
  simp [nesting_nil]

theorem Balanced.enclose {first inside : List Paren} {opening closing : Paren}
    (hfirst : Balanced first) (hinside : Balanced inside) (hopen : opening.opens = true)
    (hclose : closing.opens = false) : Balanced (first ++ opening :: (inside ++ [closing])) := by
  have hclosing : nesting [closing] = -1 := by rw [nesting_cons_closing hclose, nesting_nil]; rfl
  constructor
  · rw [nesting_append, nesting_cons_opening hopen, nesting_append, hfirst.nesting_eq,
      hinside.nesting_eq, hclosing]
    rfl
  · intro count
    have hbefore := hfirst.nesting_take count
    rw [List.take_append, nesting_append]
    cases count - first.length with
    | zero =>
      rw [List.take_zero, nesting_nil]
      omega
    | succ more =>
      have hwithin := hinside.nesting_take more
      have hlast : -1 ≤ nesting ([closing].take (more - inside.length)) := by
        cases more - inside.length with
        | zero => rw [List.take_zero, nesting_nil]; omega
        | succ _ => simp [hclosing]
      rw [List.take_succ_cons, nesting_cons_opening hopen, List.take_append, nesting_append]
      omega

/-- A stretch of balanced parentheses closes nothing in front of it. -/
theorem Balanced.not_matched {later : List Paren} (h : Balanced later) : ¬ Matched later := by
  rintro ⟨inside, closing, rest, rfl, hclose, hinside⟩
  rw [List.append_cons] at h
  have htake := h.nesting_take (inside ++ [closing]).length
  rw [List.take_left, nesting_append, hinside.nesting_eq, nesting_cons_closing hclose,
    nesting_nil] at htake
  omega

/-- Where more parentheses close than open, the first one too many closes what stands in front. -/
theorem matched_of_nesting_neg {later : List Paren} (h : nesting later < 0) : Matched later := by
  have hsearch : ∀ rest inside, (∀ count, 0 ≤ nesting (inside.take count)) →
      nesting (inside ++ rest) < 0 → Matched (inside ++ rest) := by
    intro rest
    induction rest with
    | nil =>
      intro inside hinside hneg
      have hall := hinside inside.length
      rw [List.take_length] at hall
      rw [List.append_nil] at hneg
      omega
    | cons paren rest ih =>
      intro inside hinside hneg
      have hall := hinside inside.length
      rw [List.take_length] at hall
      by_cases hstays : 0 ≤ nesting (inside ++ [paren])
      · rw [List.append_cons] at hneg ⊢
        refine ih _ (fun count => ?_) hneg
        by_cases hcount : count ≤ inside.length
        · rw [List.take_append_of_le_length hcount]
          exact hinside count
        · rw [List.take_of_length_le (by simp; omega)]
          exact hstays
      · rw [nesting_append] at hstays
        cases hparen : paren.opens with
        | true =>
          rw [nesting_cons_opening hparen, nesting_nil] at hstays
          omega
        | false =>
          rw [nesting_cons_closing hparen, nesting_nil] at hstays
          exact ⟨inside, paren, rest, rfl, hparen, by omega, hinside⟩
  exact hsearch later [] (fun count => by simp [nesting_nil]) h

theorem Balanced.matched_inside {inner rest : List Paren} {opening : Paren}
    (h : Balanced (inner ++ opening :: rest)) (hopen : opening.opens = true) : Matched rest := by
  apply matched_of_nesting_neg
  have hall := h.nesting_eq
  have hinner := h.nesting_take inner.length
  rw [List.take_left] at hinner
  rw [nesting_append, nesting_cons_opening hopen] at hall
  omega

/-! ## Open parentheses -/

/-- The parentheses of a stretch that are open behind it, innermost first: behind each of them the
parentheses are balanced, up to the next one inside. -/
inductive Unclosed : List Paren → List Paren → Prop where
  | none {parens : List Paren} : Balanced parens → Unclosed parens []
  | inside {seen later outer : List Paren} {opening : Paren} :
      Unclosed seen outer → opening.opens = true → Balanced later →
      Unclosed (seen ++ opening :: later) (opening :: outer)

namespace Unclosed

variable {parens outer : List Paren} {paren : Paren}

theorem nesting_eq (h : Unclosed parens outer) : nesting parens = outer.length := by
  induction h with
  | none hbalanced => exact hbalanced.nesting_eq
  | inside _ hopen hlater ih =>
    rw [nesting_append, nesting_cons_opening hopen, ih, hlater.nesting_eq, List.length_cons]
    omega

theorem opening (h : Unclosed parens outer) (hopen : paren.opens = true) :
    Unclosed (parens ++ [paren]) (paren :: outer) :=
  .inside h hopen balanced_nil

theorem closing {innermost : Paren} (h : Unclosed parens (innermost :: outer))
    (hclose : paren.opens = false) : Unclosed (parens ++ [paren]) outer := by
  cases h with
  | @inside seen later _ _ hseen hopen hlater =>
    rw [List.append_assoc, List.cons_append]
    -- The pair joins the balanced parentheses in front of it.
    cases hseen with
    | none hbalanced => exact .none (hbalanced.enclose hlater hopen hclose)
    | inside houter hopen' hbetween =>
      rw [List.append_assoc, List.cons_append]
      exact .inside houter hopen' (hbetween.enclose hlater hopen hclose)

/-- **The innermost open parenthesis is the last one without a partner.** -/
theorem last (h : Unclosed parens (paren :: outer)) : IsLastUnmatched paren parens := by
  cases h with
  | @inside seen later _ _ _ hopen hlater =>
    refine ⟨seen, later, rfl, hopen, hlater.not_matched, ?_⟩
    rintro inner other rest rfl hother
    exact hlater.matched_inside hother

end Unclosed

end PureContracts.Source
