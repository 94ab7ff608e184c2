import PureContracts.Compilation
import PureContracts.Proofs.Form.Fault
import PureContracts.Proofs.Form.Grammar
import PureContracts.Proofs.Source.Parentheses

/-!
# Sources one below the other

A line feed ends every comment and every word, and behind forms that can be read on their own no
node is open.  So a source that stands below such a source is read as if it stood alone, only
further down, and compiled after it.

* `Position.moved`, `Token.moved`, `ReadFault.moved` — the same place, token or fault further down.

Principal results
* `tokens_below` — the tokens of two texts one below the other;
* `read_below_eq_ok`, `read_below_eq_error` — what is read from them, and how reading fails;
* `result_compileForms_append` — forms are compiled one after the other;
* `compile_below` — two sources one below the other are compiled one after the other, and a read
  fault of the lower one is reported further down.
-/

namespace PureContracts

/-! ## Places further down -/

/-- The same column on a later line. -/
def Position.moved (lines chars : Nat) (p : Position) : Position :=
  ⟨p.line + lines, p.column, p.offset + chars⟩

/-- The same token further down. -/
def Token.moved (lines chars : Nat) (token : Token) : Token :=
  ⟨token.lexeme, token.span.start.moved lines chars, token.span.endLine + lines,
    token.span.endColumn⟩

/-- The same fault further down. -/
def ReadFault.moved (lines chars : Nat) : ReadFault → ReadFault
  | .strayClosing p => .strayClosing (p.moved lines chars)
  | .tooDeep limit p => .tooDeep limit (p.moved lines chars)
  | .unclosed p => .unclosed (p.moved lines chars)
  | .described text => .described text

section

variable (lines chars : Nat)

theorem Position.step_moved (p : Position) (c : Char) :
    (p.moved lines chars).step c = (p.step c).moved lines chars := by
  unfold Position.step
  split
  · simp [moved]
    omega
  · simp [moved]
    omega

theorem Position.after_moved (p : Position) (stretch : List Char) :
    (p.moved lines chars).after stretch = (p.after stretch).moved lines chars := by
  induction stretch generalizing p with
  | nil => rfl
  | cons c stretch ih => rw [after_cons, after_cons, step_moved, ih]

theorem placed_moved (lexeme : Lexeme) (p : Position) :
    Source.placed lexeme (p.moved lines chars) = (Source.placed lexeme p).moved lines chars := by
  simp only [Source.placed, Position.after_moved]
  rfl

theorem Token.map_lexeme_moved (tokens : List Token) :
    (tokens.map (moved lines chars)).map lexeme = tokens.map lexeme := by
  rw [List.map_map]
  rfl

/-- Scanning from a place further down finds the same tokens further down. -/
theorem Source.Scans.moved {comment : Bool} {p : Position} {text : List Char} {ts : List Token}
    (h : Scans comment p text ts) :
    Scans comment (p.moved lines chars) text (ts.map (Token.moved lines chars)) := by
  induction h with
  | done => exact .done
  | commented _ ih =>
    rw [← Position.step_moved] at ih
    exact .commented ih
  | blank hblank _ ih =>
    rw [← Position.step_moved] at ih
    exact .blank hblank ih
  | comment _ ih =>
    rw [← Position.step_moved] at ih
    exact .comment ih
  | opening _ ih =>
    rw [← Position.step_moved] at ih
    rw [List.map_cons, ← placed_moved]
    exact .opening ih
  | closing _ ih =>
    rw [← Position.step_moved] at ih
    rw [List.map_cons, ← placed_moved]
    exact .closing ih
  | word hword hrest _ ih =>
    rw [← Position.after_moved] at ih
    rw [List.map_cons, ← placed_moved]
    exact .word hword hrest ih

theorem Form.faultFrom_moved (limit : Nat) (opened : List Position) (tokens : List Token) :
    faultFrom limit (opened.map (Position.moved lines chars))
        (tokens.map (Token.moved lines chars)) =
      (faultFrom limit opened tokens).map (ReadFault.moved lines chars) := by
  induction tokens generalizing opened with
  | nil => cases opened <;> rfl
  | cons token rest ih =>
    obtain ⟨lexeme, span⟩ := token
    cases lexeme with
    | opening =>
      simp only [List.map_cons, Token.moved, faultFrom, List.length_map]
      split
      · rfl
      · exact ih (span.start :: opened)
    | closing =>
      cases opened with
      | nil => rfl
      | cons place outer => exact ih outer
    | word text => exact ih opened

end

/-! ## Scanning and reading -/

namespace Source

theorem Delimited.append_line {rest : List Char} (h : Delimited rest) (below : List Char) :
    Delimited (rest ++ '\n' :: below) := by
  cases rest with
  | nil => exact delimited_cons (by decide) below
  | cons c rest => exact delimited_cons (h c rfl) _

/-- A line feed ends what stands in front of it, be it a comment or a word. -/
theorem Scans.append_line {comment : Bool} {p : Position} {text below : List Char}
    {ts later : List Token} (h : Scans comment p text ts)
    (hbelow : Scans false ((p.after text).step '\n') below later) :
    Scans comment p (text ++ '\n' :: below) (ts ++ later) := by
  induction h with
  | @done comment p =>
    cases comment with
    | true => exact .commented hbelow
    | false => exact .blank (by decide) hbelow
  | commented _ ih => exact .commented (ih hbelow)
  | blank hblank _ ih => exact .blank hblank (ih hbelow)
  | comment _ ih => exact .comment (ih hbelow)
  | opening _ ih => exact .opening (ih hbelow)
  | closing _ ih => exact .closing (ih hbelow)
  | word hword hrest _ ih =>
    rw [Position.after_append] at hbelow
    rw [List.append_assoc]
    exact .word hword (hrest.append_line below) (ih hbelow)

/-- **The tokens of two texts one below the other.** -/
theorem tokens_below (first second : String) :
    tokens (first ++ "\n" ++ second) =
      tokens first ++ (tokens second).map
        (Token.moved (first.toList.count '\n' + 1) (first.toList.length + 1)) := by
  have hplace : (Position.start.after first.toList).step '\n' =
      Position.start.moved (first.toList.count '\n' + 1) (first.toList.length + 1) := by
    rw [start_after]
    simp [Position.step, Position.moved, Position.start]
    omega
  rw [tokens_eq_iff_scans, String.toList_append, String.toList_append, List.append_assoc]
  apply (scans_tokens first).append_line
  rw [hplace]
  exact (scans_tokens second).moved _ _

end Source

namespace Form

theorem read_below_eq_ok {first second : String} {forms others : List Form}
    (hfirst : read first = .ok forms) (hsecond : read second = .ok others) :
    read (first ++ "\n" ++ second) = .ok (forms ++ others) := by
  rw [read, readTokens_eq_ok_iff, depthAll_le_iff] at hfirst hsecond ⊢
  constructor
  · rw [Source.tokens_below, List.map_append, Token.map_lexeme_moved, hfirst.1, hsecond.1,
      lexemesAll_append]
  · intro form hform
    rcases List.mem_append.mp hform with hform | hform
    · exact hfirst.2 form hform
    · exact hsecond.2 form hform

theorem read_below_eq_error {first second : String} {forms : List Form} {fault : ReadFault}
    (hfirst : read first = .ok forms) (hsecond : read second = .error (.unreadable fault)) :
    read (first ++ "\n" ++ second) =
      .error (.unreadable
        (fault.moved (first.toList.count '\n' + 1) (first.toList.length + 1))) := by
  have hnone : faultFrom nestingLimit [] (Source.tokens first) = none := by
    cases hfault : faultFrom nestingLimit [] (Source.tokens first) with
    | none => rfl
    | some other =>
      have herror := readTokens_eq_error_iff.mpr ⟨other, hfault, rfl⟩
      rw [read] at hfirst
      rw [hfirst] at herror
      cases herror
  obtain ⟨_, hfault, hsame⟩ := readTokens_eq_error_iff.mp hsecond
  cases hsame
  refine readTokens_eq_error_iff.mpr ⟨_, ?_, rfl⟩
  rw [Source.tokens_below, faultFrom_append_of_read hnone]
  have hmoved := faultFrom_moved (first.toList.count '\n' + 1) (first.toList.length + 1)
    nestingLimit [] (Source.tokens second)
  rw [hfault] at hmoved
  exact hmoved

end Form

/-! ## Compiling -/

/-- **Forms are compiled one after the other.** -/
theorem result_compileForms_append (table : Table) (forms others : List Form) :
    (compileForms table (forms ++ others)).result = do
      let first ← (compileForms table forms).result
      let second ← (compileForms table others).result
      return first ++ second := by
  induction forms with
  | nil =>
    simp only [List.nil_append, compileForms]
    cases (compileForms table others).result <;> rfl
  | cons form rest ih =>
    simp only [List.cons_append, compileForms, Trace.result_bind, ih, Trace.result_pure]
    cases (compileForm table form).result with
    | error e => rfl
    | ok functions =>
      cases (compileForms table rest).result with
      | error e => rfl
      | ok first =>
        cases (compileForms table others).result with
        | error e => rfl
        | ok second => simp [bind, Except.bind, pure, Except.pure]

/-! ## Messages -/

-- The texts stay variables here: literals would be compared character by character.
theorem append_place (lead front line colon column back : String) :
    lead ++ (front ++ (line ++ colon ++ column) ++ back) =
      lead ++ front ++ line ++ colon ++ column ++ back := by
  simp only [String.append_assoc]

theorem append_last_place (lead front line colon column : String) :
    lead ++ (front ++ (line ++ colon ++ column)) =
      lead ++ front ++ line ++ colon ++ column ++ "" := by
  simp only [String.append_assoc, String.append_empty]

/-- The message of a fault further down differs in the line alone. -/
theorem message_moved {fault : ReadFault} {place : Position} (h : fault.place? = some place)
    (lines chars : Nat) :
    ∃ front back, (Error.unreadable fault).message =
        front ++ place.line.repr ++ ":" ++ place.column.repr ++ back ∧
      (Error.unreadable (fault.moved lines chars)).message =
        front ++ (place.line + lines).repr ++ ":" ++ place.column.repr ++ back := by
  cases fault with
  | strayClosing _ =>
    cases h
    exact ⟨_, _, append_last_place _ _ _ _ _, append_last_place _ _ _ _ _⟩
  | tooDeep _ _ =>
    cases h
    exact ⟨_, _, append_last_place _ _ _ _ _, append_last_place _ _ _ _ _⟩
  | unclosed _ =>
    cases h
    exact ⟨_, _, append_place _ _ _ _ _ _, append_place _ _ _ _ _ _⟩
  | described _ => cases h

/-- **Two sources one below the other are compiled one after the other, and a read fault of the
lower one is reported further down.** -/
theorem compile_below (table : Table) {first second : String} {forms : List Form}
    (hfirst : Form.read first = .ok forms) :
    (∀ others, Form.read second = .ok others →
      (compileText table (first ++ "\n" ++ second)).result = do
        let upper ← (compileText table first).result
        let lower ← (compileText table second).result
        return upper ++ lower) ∧
    ∀ e, Form.read second = .error e →
      ∃ fault place front back, e = .unreadable fault ∧ fault.place? = some place ∧
        e.message = front ++ place.line.repr ++ ":" ++ place.column.repr ++ back ∧
        ∃ later, (compileText table (first ++ "\n" ++ second)).result = .error later ∧
          later.message = front ++ (place.line + (first.toList.count '\n' + 1)).repr ++ ":" ++
            place.column.repr ++ back := by
  constructor
  · intro others hsecond
    simp only [result_compileText, hfirst, hsecond, Form.read_below_eq_ok hfirst hsecond]
    exact result_compileForms_append table forms others
  · intro e hsecond
    obtain ⟨fault, hfault, rfl⟩ := Form.readTokens_eq_error_iff.mp hsecond
    obtain ⟨place, hplace⟩ := Form.faultFrom_place? hfault
    obtain ⟨front, back, hmessage, hmoved⟩ :=
      message_moved hplace (first.toList.count '\n' + 1) (first.toList.length + 1)
    refine ⟨fault, place, front, back, rfl, hplace, hmessage, _, ?_, hmoved⟩
    rw [result_compileText, Form.read_below_eq_error hfirst hsecond]
    rfl

/-- Above, a source that ends inside a comment; below, one that is read, or one that is not. -/
theorem compile_below_comment :
    Form.read "f ; (" = .ok [.atom "f"] ∧
      (Form.read "(g)" = .ok [.node [.atom "g"]] ∧
        (compileText .standard ("f ; (" ++ "\n" ++ "(g)")).result = do
          let upper ← (compileText .standard "f ; (").result
          let lower ← (compileText .standard "(g)").result
          return upper ++ lower) ∧
      Form.read "x\n)" = .error (.unreadable (.strayClosing ⟨2, 1, 2⟩)) ∧
        ∃ later, (compileText .standard ("f ; (" ++ "\n" ++ "x\n)")).result = .error later := by
  have hfirst : Form.read "f ; (" = .ok [.atom "f"] := by
    with_unfolding_all rfl
  have hread : Form.read "(g)" = .ok [.node [.atom "g"]] := by
    with_unfolding_all rfl
  have hfault : Form.read "x\n)" = .error (.unreadable (.strayClosing ⟨2, 1, 2⟩)) := by
    with_unfolding_all rfl
  have hbelow := @compile_below Table.standard "f ; ("
  obtain ⟨_, _, _, _, _, _, _, later, hlater, _⟩ := (hbelow hfirst).2 _ hfault
  exact ⟨hfirst, ⟨hread, (hbelow hfirst).1 _ hread⟩, hfault, later, hlater⟩

end PureContracts
