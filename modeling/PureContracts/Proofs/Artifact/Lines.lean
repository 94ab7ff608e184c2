import Mathlib.Algebra.GroupWithZero.Nat
import PureContracts.Proofs.Artifact.Unambiguous
import PureContracts.Proofs.Text.Balance

/-!
# Source text stays in its place

The words of a source are written into the text of a function as they are.  They hold no line feed
and no parenthesis, so whatever they spell they neither start a line of their own nor close a
parenthesis that the printer opened.

* `Text.ParensMatch` — lines on which every parenthesis has its partner.
* `PureFunction.lineCount` — how many lines a function has.
* `PureFunction.Keeps` — lines that are those of a function, in order and number.

Principal results
* `Expr.Unbroken.balanced` — the text of an unbroken expression closes what it opens;
* `PureFunction.Unbroken.keeps` — the text of an unbroken function has the lines of the function;
* `Artifact.length_splitOn_chars` — how many lines an artifact has;
* `source_stays_in_its_lines` — all of this for the functions of a source.
-/

namespace PureContracts

/-! ## Parentheses -/

namespace Text

/-- Every parenthesis has its partner on the line: none is closed before it was opened, and as many
are closed as opened. -/
structure ParensMatch (line : List Char) : Prop where
  count_eq : line.count '(' = line.count ')'
  count_le : ∀ before, before <+: line → before.count ')' ≤ before.count '('

/-- An opening parenthesis weighs one, a closing one minus one. -/
def parenWeight (c : Char) : Int :=
  if c = '(' then 1 else if c = ')' then -1 else 0

theorem level_parenWeight (text : List Char) :
    level parenWeight text = (text.count '(' : Int) - text.count ')' := by
  induction text with
  | nil => rfl
  | cons c text ih =>
    rw [level_cons, ih, parenWeight]
    by_cases hopening : c = '('
    · subst hopening
      simp
      omega
    · by_cases hclosing : c = ')'
      · subst hclosing
        simp
        omega
      · simp [hopening, hclosing]

theorem Balanced.parensMatch {line : List Char} (h : Balanced parenWeight line) :
    ParensMatch line where
  count_eq := by
    have hlevel := h.level_eq
    rw [level_parenWeight] at hlevel
    omega
  count_le before hbefore := by
    have hlevel := h.level_nonneg before hbefore
    rw [level_parenWeight] at hlevel
    omega

theorem balanced_of_notMem (text : List Char) (hopening : '(' ∉ text) (hclosing : ')' ∉ text) :
    Balanced parenWeight text := by
  apply balanced_of_weightless
  intro c hc
  have hne : c ≠ '(' := ne_of_mem_of_not_mem hc hopening
  have hne' : c ≠ ')' := ne_of_mem_of_not_mem hc hclosing
  rw [parenWeight, if_neg hne, if_neg hne']

theorem Balanced.inParens {inner : List Char} (h : Balanced parenWeight inner) :
    Balanced parenWeight ('(' :: (inner ++ [')'])) :=
  h.enclose rfl rfl

end Text

open Text

theorem Source.Unbroken.balanced {text : String} (h : Unbroken text) :
    Text.Balanced parenWeight text.toList :=
  balanced_of_notMem _ (h.notMem (by decide)) (h.notMem (by decide))

namespace Expr

theorem balanced_comma : Balanced parenWeight comma := balanced_of_notMem _ (by decide) (by decide)

theorem balanced_charsAll {exprs : List Expr}
    (h : ∀ expr ∈ exprs, Balanced parenWeight expr.chars) :
    Balanced parenWeight (List.intercalate comma (charsAll exprs)) := by
  apply balanced_comma.intercalate
  rw [charsAll_eq_map, List.forall_mem_map]
  exact h

theorem balanced_charsBound {bound : Option Expr}
    (h : ∀ expr ∈ bound, Balanced parenWeight expr.chars) :
    Balanced parenWeight (charsBound bound) := by
  cases bound with
  | none => exact balanced_nil
  | some expr => exact h expr rfl

/-- **The text of an unbroken expression closes what it opens.** -/
theorem Unbroken.balanced {expr : Expr} (h : expr.Unbroken) : Balanced parenWeight expr.chars := by
  induction h with
  | literal hsource => exact hsource.balanced
  | unary hoperator _ ih =>
    have hblank := balanced_of_notMem [' '] (by decide) (by decide)
    simpa [chars] using ((hoperator.balanced.append hblank).append ih).inParens
  | binary _ hoperator _ ihl ihr =>
    have hblank := balanced_of_notMem [' '] (by decide) (by decide)
    simpa [chars] using
      ((((ihl.append hblank).append hoperator.balanced).append hblank).append ihr).inParens
  | conditional _ _ _ ihc iht ihf =>
    have hthen := balanced_of_notMem [' ', '?', ' '] (by decide) (by decide)
    have helse := balanced_of_notMem [' ', ':', ' '] (by decide) (by decide)
    exact ((((ihc.append hthen).append iht).append helse).append ihf).inParens
  | sequence htype _ ih =>
    have hopening := balanced_of_notMem ['s', 'e', 'q', '['] (by decide) (by decide)
    have hmiddle := balanced_of_notMem [']', '\x7b'] (by decide) (by decide)
    have hclosing := balanced_of_notMem ['\x7d'] (by decide) (by decide)
    exact (((hopening.append htype.balanced).append hmiddle).append (balanced_charsAll ih)).append
      hclosing
  | slice _ _ _ ihw ihl ihh =>
    have hopening := balanced_of_notMem ['['] (by decide) (by decide)
    have hcolon := balanced_of_notMem [':'] (by decide) (by decide)
    have hclosing := balanced_of_notMem [']'] (by decide) (by decide)
    simpa [chars] using (((((ihw.append hopening).append (balanced_charsBound ihl)).append
      hcolon).append (balanced_charsBound ihh)).append hclosing).inParens
  | call _ _ ihc ih => simpa [chars] using ihc.append (balanced_charsAll ih).inParens

end Expr

/-! ## Lines -/

namespace PureFunction

/-- How many lines a function has: one for each condition, one for the termination measure, and its
own. -/
def lineCount (function : PureFunction) : Nat :=
  function.requires.length + function.preserves.length + function.ensures.length + 2

theorem length_lines (function : PureFunction) : function.lines.length = function.lineCount := by
  simp [lines, lineCount, Nat.add_assoc]

/-- The lines are those of the function: its conditions by kind, the termination measure and the
function itself, and on each of them every parenthesis has its partner. -/
structure Keeps (function : PureFunction) (lines : List (List Char)) : Prop where
  length_eq : lines.length = function.lineCount
  arranged : ∃ requires preserves ensures body,
    lines = requires ++ preserves ++ ensures ++ ["decreases _".toList, body] ∧
    (requires.length = function.requires.length ∧ ∀ line ∈ requires, "requires ".toList <+: line) ∧
    (preserves.length = function.preserves.length ∧
      ∀ line ∈ preserves, "preserves ".toList <+: line) ∧
    (ensures.length = function.ensures.length ∧ ∀ line ∈ ensures, "ensures ".toList <+: line) ∧
    "pure func ".toList <+: body
  parensMatch : ∀ line ∈ lines, ParensMatch line

theorem isPrefix_of_mem_conditionLines {keyword lead : String}
    (hlead : lead.toList = keyword.toList ++ [' ']) {conditions : List Expr} :
    ∀ line ∈ conditions.map (conditionLine keyword), lead.toList <+: line := by
  rw [List.forall_mem_map]
  intro condition _
  exact ⟨condition.chars, by simp [conditionLine, hlead]⟩

theorem balanced_conditionLines {keyword : String} (hkeyword : Source.Unbroken keyword)
    {conditions : List Expr} (h : ∀ condition ∈ conditions, condition.Unbroken) :
    ∀ line ∈ conditions.map (conditionLine keyword), Balanced parenWeight line := by
  have hblank := balanced_of_notMem [' '] (by decide) (by decide)
  rw [List.forall_mem_map]
  intro condition hcondition
  exact hkeyword.balanced.append (hblank.append (h condition hcondition).balanced)

theorem Unbroken.balanced_bodyLine {function : PureFunction} (h : function.Unbroken) :
    Balanced parenWeight function.bodyLine := by
  have hlead := balanced_of_notMem "pure func ".toList (by decide) (by decide)
  have hparams :
      Balanced parenWeight (List.intercalate Expr.comma (function.params.map Param.chars)) :=
    balanced_of_notMem _ (notMem_params (by decide) (by decide) h.params)
      (notMem_params (by decide) (by decide) h.params)
  have hblank := balanced_of_notMem [' '] (by decide) (by decide)
  have hreturn := balanced_of_notMem " \x7b return ".toList (by decide) (by decide)
  have hend := balanced_of_notMem " \x7d".toList (by decide) (by decide)
  have hsignature := (hlead.append h.name.balanced).append hparams.inParens
  have hbody := (((hblank.append h.returnType.balanced).append hreturn).append
    h.result.balanced).append hend
  have hline : function.bodyLine =
      "pure func ".toList ++ function.name.toList ++
        '(' :: (List.intercalate Expr.comma (function.params.map Param.chars) ++ [')']) ++
      ([' '] ++ function.returnType.toList ++ " \x7b return ".toList ++ function.result.chars ++
        " \x7d".toList) := by
    unfold bodyLine
    simp only [List.append_assoc, List.cons_append, List.nil_append]
  rw [hline]
  exact hsignature.append hbody

theorem Unbroken.balanced_lines {function : PureFunction} (h : function.Unbroken) :
    ∀ line ∈ function.lines, Balanced parenWeight line := by
  have hmeasure := balanced_of_notMem "decreases _".toList (by decide) (by decide)
  simp only [lines, List.forall_mem_append, List.forall_mem_cons]
  exact ⟨⟨⟨balanced_conditionLines (by decide) h.requires,
    balanced_conditionLines (by decide) h.preserves⟩,
    balanced_conditionLines (by decide) h.ensures⟩, hmeasure, h.balanced_bodyLine, by simp⟩

/-- **The text of an unbroken function has the lines of the function.** -/
theorem Unbroken.keeps {function : PureFunction} (h : function.Unbroken) :
    function.Keeps (List.splitOn '\n' function.render.toList) := by
  have hne : function.lines ≠ [] := by simp [lines]
  have hlines : List.splitOn '\n' function.render.toList = function.lines := by
    rw [render, String.toList_ofList, chars, List.splitOn_intercalate _ h.newline_notMem_lines hne]
  rw [hlines]
  refine ⟨length_lines function, ⟨_, _, _, function.bodyLine, rfl, ⟨List.length_map _, ?_⟩,
    ⟨List.length_map _, ?_⟩, ⟨List.length_map _, ?_⟩, ?_⟩, fun line hline =>
      (h.balanced_lines line hline).parensMatch⟩
  · exact isPrefix_of_mem_conditionLines (by decide)
  · exact isPrefix_of_mem_conditionLines (by decide)
  · exact isPrefix_of_mem_conditionLines (by decide)
  · rw [bodyLine_eq]
    exact List.prefix_append _ _

end PureFunction

/-! ## Artifacts -/

/-- **How many lines an artifact has**: four of the header, and for every function its own and an
empty one; the last line is there without any function, too. -/
theorem Artifact.length_splitOn_chars {package : String} {functions : List PureFunction}
    (hpackage : '\n' ∉ package.toList) (h : ∀ function ∈ functions, function.Unbroken) :
    (List.splitOn '\n' (chars package functions)).length =
      4 + max 1 (functions.map fun function => function.lineCount + 1).sum := by
  have hlead : "package ".toList.count '\n' = 0 := by decide
  have hmarker : marker.count '\n' = 0 := by decide
  have hblock : ∀ function, (blockLines function).length = function.lineCount + 1 := by
    intro function
    rw [blockLines, List.length_append, PureFunction.length_lines, List.length_singleton]
  have hblocks : (List.intercalate ['\n'] (functions.flatMap blockLines)).count '\n' =
      (functions.map fun function => function.lineCount + 1).sum - 1 := by
    rw [count_intercalate (newline_notMem_blockLines h), List.length_flatMap]
    simp only [hblock]
  rw [length_splitOn, chars_eq]
  simp only [List.count_append, List.count_cons_self, hlead, hmarker, hblocks,
    List.count_eq_zero_of_not_mem hpackage]
  omega

/-- **Source text cannot break out of its place.**  The text of every function of a source has one
line for each condition, by kind and in order, the line of the termination measure and the line of
the function itself, and on each of them every parenthesis has its partner.  So the number of lines
of an artifact follows from the numbers of conditions. -/
theorem source_stays_in_its_lines {text : String} {functions : List PureFunction}
    (h : (compileText .standard text).result = .ok functions) :
    (∀ function ∈ functions, function.Keeps (List.splitOn '\n' function.render.toList)) ∧
    ∀ package : String, '\n' ∉ package.toList →
      (List.splitOn '\n' (Artifact.render package functions).toList).length =
        4 + max 1 (functions.map fun function => function.lineCount + 1).sum := by
  have hunbroken := unbroken_of_compileText Table.unbroken_standard h
  constructor
  · exact fun function hfunction => (hunbroken function hfunction).keeps
  · intro package hpackage
    rw [Artifact.render, String.toList_ofList]
    exact Artifact.length_splitOn_chars hpackage hunbroken

/-- A source whose words look like punctuation. -/
def hostileSource : String :=
  "(define f (begin (args (\x7d \"\x7b)) (returns //) (requires (= \x7d _)) (ensures ,) \x7d))"

/-- What it compiles to. -/
def hostileFunction : PureFunction where
  name := "f"
  params := [⟨"\x7d", "\x7b"⟩]
  returnType := "//"
  result := .literal "\x7d"
  requires := [.binary (.literal "\x7d") "==" (.literal "_")]
  preserves := []
  ensures := [.literal ","]

theorem compileText_hostileSource :
    (compileText .standard hostileSource).result = .ok [hostileFunction] := by
  have hread : Form.read hostileSource = .ok [.node [.atom "define", .atom "f",
      .node [.atom "begin", .node [.atom "args", .node [.atom "\x7d", .atom "\"\x7b"]],
        .node [.atom "returns", .atom "//"],
        .node [.atom "requires", .node [.atom "=", .atom "\x7d", .atom "_"]],
        .node [.atom "ensures", .atom ","], .atom "\x7d"]]] := by
    with_unfolding_all rfl
  rw [result_compileText, hread]
  rfl

/-- Its function has four lines, and the artifact with it nine. -/
theorem source_stays_in_its_lines_hostile :
    (compileText .standard hostileSource).result = .ok [hostileFunction] ∧
    hostileFunction.Keeps (List.splitOn '\n' hostileFunction.render.toList) ∧
    hostileFunction.lineCount = 4 ∧
    '\n' ∉ "main".toList ∧
    (List.splitOn '\n' (Artifact.render "main" [hostileFunction]).toList).length = 9 := by
  have hpackage : '\n' ∉ "main".toList := by decide
  obtain ⟨hkeeps, hartifact⟩ := source_stays_in_its_lines compileText_hostileSource
  exact ⟨compileText_hostileSource, hkeeps _ List.mem_cons_self, rfl, hpackage,
    hartifact "main" hpackage⟩

end PureContracts
