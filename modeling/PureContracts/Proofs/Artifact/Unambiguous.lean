import PureContracts.Artifact
import PureContracts.Proofs.Compilation.Words
import PureContracts.Proofs.Text.Separation

/-!
# An artifact determines its functions

The words of a source go into the artifact as they are, be they commas, braces or keywords.  What
keeps the text readable is what words cannot hold.  No line of a function is empty or holds a line
feed, so an empty line ends a function; the keyword of a condition ends at the first blank; and the
name, the parameters and the return type end at the next parenthesis or blank.

* `PureFunction.Alike` — functions with the same signature whose expressions have the same text.

Principal results
* `params_eq_of_intercalate_eq` — a parameter list can be read off its text;
* `alike_of_lines_eq` — a function can be read off its lines;
* `artifact_determines_functions` — artifacts with one text have one package, and alike functions
  in the same order.
-/

namespace PureContracts

/-! ## Lines -/

theorem Source.Unbroken.newline_notMem {text : String} (h : Unbroken text) : '\n' ∉ text.toList :=
  h.notMem (by decide)

theorem Source.Unbroken.blank_notMem {text : String} (h : Unbroken text) : ' ' ∉ text.toList :=
  h.notMem (by decide)

theorem Expr.newline_notMem_charsAll {exprs : List Expr} (h : ∀ expr ∈ exprs, '\n' ∉ expr.chars) :
    '\n' ∉ List.intercalate comma (charsAll exprs) := by
  apply Text.notMem_intercalate (by decide)
  rw [charsAll_eq_map]
  intro piece hpiece
  obtain ⟨expr, hexpr, rfl⟩ := List.mem_map.mp hpiece
  exact h expr hexpr

theorem Expr.newline_notMem_charsBound {bound : Option Expr}
    (h : ∀ expr ∈ bound, '\n' ∉ expr.chars) : '\n' ∉ charsBound bound := by
  cases bound with
  | none => simp [charsBound]
  | some expr => exact h expr rfl

/-- The text of an unbroken expression is one line. -/
theorem Expr.Unbroken.newline_notMem {expr : Expr} (h : expr.Unbroken) : '\n' ∉ expr.chars := by
  induction h with
  | literal hsource => exact hsource.newline_notMem
  | unary hoperator _ ih => simp [chars, hoperator.newline_notMem, ih]
  | binary _ hoperator _ ihl ihr => simp [chars, hoperator.newline_notMem, ihl, ihr]
  | conditional _ _ _ ihc iht ihf => simp [chars, ihc, iht, ihf]
  | sequence htype _ ih =>
    simp [chars, htype.newline_notMem, newline_notMem_charsAll ih]
  | slice _ _ _ ihw ihl ihh =>
    simp [chars, ihw, newline_notMem_charsBound ihl, newline_notMem_charsBound ihh]
  | call _ _ ihc ih => simp [chars, ihc, newline_notMem_charsAll ih]

namespace PureFunction

/-- The blank is the only delimiter in a list of parameters. -/
theorem notMem_params {params : List Param} {c : Char} (hc : c ∈ Source.delimiters)
    (hcomma : c ∉ Expr.comma) (h : ∀ param ∈ params, param.Unbroken) :
    c ∉ List.intercalate Expr.comma (params.map Param.chars) := by
  apply Text.notMem_intercalate hcomma
  intro piece hpiece
  obtain ⟨param, hparam, rfl⟩ := List.mem_map.mp hpiece
  have hblank : c ≠ ' ' := fun hblank => hcomma (by simp [Expr.comma, hblank])
  obtain ⟨hname, htype⟩ := h param hparam
  simp [Param.chars, hname.notMem hc, htype.notMem hc, hblank]

theorem bodyLine_eq (function : PureFunction) :
    function.bodyLine = "pure func ".toList ++ (function.name.toList ++ '(' ::
      (List.intercalate Expr.comma (function.params.map Param.chars) ++ ')' :: ' ' ::
        (function.returnType.toList ++ ' ' ::
          ("\x7b return ".toList ++ (function.result.chars ++ " \x7d".toList))))) := by
  have hreturn : " \x7b return ".toList = ' ' :: "\x7b return ".toList := by decide
  unfold bodyLine
  rw [hreturn]
  simp only [List.append_assoc, List.cons_append, List.nil_append]

theorem Unbroken.newline_notMem_bodyLine {function : PureFunction} (h : function.Unbroken) :
    '\n' ∉ function.bodyLine := by
  have hlead : '\n' ∉ "pure func ".toList := by decide
  have hparams := notMem_params (c := '\n') (by decide) (by decide) h.params
  have hreturn : '\n' ∉ "\x7b return ".toList := by decide
  have hend : '\n' ∉ " \x7d".toList := by decide
  rw [bodyLine_eq]
  simp only [List.mem_append, List.mem_cons, not_or]
  exact ⟨hlead, h.name.newline_notMem, by decide, hparams, by decide, by decide,
    h.returnType.newline_notMem, by decide, hreturn, h.result.newline_notMem, hend⟩

theorem newline_notMem_conditionLines {keyword : String} (hkeyword : '\n' ∉ keyword.toList)
    {conditions : List Expr} (h : ∀ condition ∈ conditions, condition.Unbroken) :
    ∀ line ∈ conditions.map (conditionLine keyword), '\n' ∉ line := by
  intro line hline
  obtain ⟨condition, hcondition, rfl⟩ := List.mem_map.mp hline
  simp [conditionLine, hkeyword, (h condition hcondition).newline_notMem]

/-- No line of an unbroken function holds a line feed. -/
theorem Unbroken.newline_notMem_lines {function : PureFunction} (h : function.Unbroken) :
    ∀ line ∈ function.lines, '\n' ∉ line := by
  intro line hline
  simp only [lines, List.mem_append, List.mem_cons, List.not_mem_nil, or_false] at hline
  rcases hline with ((hline | hline) | hline) | rfl | rfl
  · exact newline_notMem_conditionLines (by decide) h.requires line hline
  · exact newline_notMem_conditionLines (by decide) h.preserves line hline
  · exact newline_notMem_conditionLines (by decide) h.ensures line hline
  · decide
  · exact h.newline_notMem_bodyLine

/-- No line of a function is empty. -/
theorem ne_nil_of_mem_lines {function : PureFunction} : ∀ line ∈ function.lines, line ≠ [] := by
  intro line hline
  simp only [lines, List.mem_append, List.mem_map, List.mem_cons, List.not_mem_nil,
    or_false] at hline
  rcases hline with ((⟨_, _, rfl⟩ | ⟨_, _, rfl⟩) | ⟨_, _, rfl⟩) | rfl | rfl
  · simp [conditionLine]
  · simp [conditionLine]
  · simp [conditionLine]
  · decide
  · unfold bodyLine
    exact List.append_ne_nil_of_right_ne_nil _ (by decide)

/-! ## Reading a function off its lines -/

/-- Functions with the same signature whose expressions have the same text. -/
structure Alike (first second : PureFunction) : Prop where
  name : first.name = second.name
  params : first.params = second.params
  returnType : first.returnType = second.returnType
  result : first.result.render = second.result.render
  requires : first.requires.map Expr.render = second.requires.map Expr.render
  preserves : first.preserves.map Expr.render = second.preserves.map Expr.render
  ensures : first.ensures.map Expr.render = second.ensures.map Expr.render

theorem intercalate_params_eq_nil_iff {params : List Param} :
    List.intercalate Expr.comma (params.map Param.chars) = [] ↔ params = [] := by
  rcases params with _ | ⟨param, _ | ⟨next, rest⟩⟩
  · simp
  · simp [Param.chars]
  · simp [Param.chars, List.intercalate_cons_cons]

-- The comma stays with the type in front of it: it does not matter whether that type is empty or
-- ends in a comma itself.
theorem flatMap_params_cons (param : Param) (rest : List Param) :
    ((param :: rest).flatMap fun param => param.chars ++ Expr.comma) =
      param.name.toList ++ ' ' :: (param.type.toList ++ [','] ++ ' ' ::
        rest.flatMap fun param => param.chars ++ Expr.comma) := by
  simp [Param.chars, Expr.comma]

theorem params_eq_of_flatMap_eq {first second : List Param}
    (hfirst : ∀ param ∈ first, param.Unbroken) (hsecond : ∀ param ∈ second, param.Unbroken)
    (h : (first.flatMap fun param => param.chars ++ Expr.comma) =
      second.flatMap fun param => param.chars ++ Expr.comma) : first = second := by
  induction first generalizing second with
  | nil =>
    cases second with
    | nil => rfl
    | cons other more => simp [Expr.comma] at h
  | cons param rest ih =>
    cases second with
    | nil => simp [Expr.comma] at h
    | cons other more =>
      rw [List.forall_mem_cons] at hfirst hsecond
      obtain ⟨⟨hname, htype⟩, hrest⟩ := hfirst
      obtain ⟨⟨hname', htype'⟩, hmore⟩ := hsecond
      have hcomma : ' ' ∉ param.type.toList ++ [','] := by simp [htype.blank_notMem]
      have hcomma' : ' ' ∉ other.type.toList ++ [','] := by simp [htype'.blank_notMem]
      rw [flatMap_params_cons, flatMap_params_cons] at h
      obtain ⟨hnames, h⟩ := Text.cut_unique hname.blank_notMem hname'.blank_notMem h
      obtain ⟨htypes, h⟩ := Text.cut_unique hcomma hcomma' h
      have hparam : param = other := by
        obtain ⟨name, type⟩ := param
        rw [Param.mk.injEq]
        exact ⟨String.toList_inj.mp hnames,
          String.toList_inj.mp (List.append_cancel_right htypes)⟩
      rw [hparam, ih hrest hmore h]

/-- A parameter list can be read off its text. -/
theorem params_eq_of_intercalate_eq {first second : List Param}
    (hfirst : ∀ param ∈ first, param.Unbroken) (hsecond : ∀ param ∈ second, param.Unbroken)
    (h : List.intercalate Expr.comma (first.map Param.chars) =
      List.intercalate Expr.comma (second.map Param.chars)) : first = second := by
  have hnil : first = [] ↔ second = [] := by
    rw [← intercalate_params_eq_nil_iff, h, intercalate_params_eq_nil_iff]
  by_cases hempty : first = []
  · rw [hempty, hnil.mp hempty]
  · have hempty' : second ≠ [] := fun hsecond => hempty (hnil.mpr hsecond)
    apply params_eq_of_flatMap_eq hfirst hsecond
    have hterminated := congrArg (· ++ Expr.comma) h
    rw [Text.intercalate_append_separator (by simpa using hempty),
      Text.intercalate_append_separator (by simpa using hempty')] at hterminated
    simpa [List.flatMap_map] using hterminated

theorem bodyLine_inj {first second : PureFunction} (hfirst : first.Unbroken)
    (hsecond : second.Unbroken) (h : first.bodyLine = second.bodyLine) :
    first.name = second.name ∧ first.params = second.params ∧
      first.returnType = second.returnType ∧ first.result.chars = second.result.chars := by
  rw [bodyLine_eq, bodyLine_eq] at h
  obtain ⟨hname, h⟩ := Text.cut_unique (hfirst.name.notMem (by decide))
    (hsecond.name.notMem (by decide)) (List.append_cancel_left h)
  obtain ⟨hparams, h⟩ := Text.cut_unique (notMem_params (by decide) (by decide) hfirst.params)
    (notMem_params (by decide) (by decide) hsecond.params) h
  obtain ⟨htype, h⟩ := Text.cut_unique hfirst.returnType.blank_notMem
    hsecond.returnType.blank_notMem (List.cons.inj h).2
  have hresult := List.append_cancel_right (List.append_cancel_left h)
  exact ⟨String.toList_inj.mp hname,
    params_eq_of_intercalate_eq hfirst.params hsecond.params hparams,
    String.toList_inj.mp htype, hresult⟩

theorem takeWhile_conditionLine {keyword : String} (hkeyword : ' ' ∉ keyword.toList)
    (condition : Expr) :
    (conditionLine keyword condition).takeWhile (· != ' ') = keyword.toList := by
  have hpos : ∀ c ∈ keyword.toList, (c != ' ') = true := by
    intro c hc
    rw [bne_iff_ne]
    exact fun hblank => hkeyword (hblank ▸ hc)
  rw [conditionLine, List.takeWhile_append_of_pos hpos]
  simp

/-- The lines that start with a keyword. -/
def linesWith (keyword : String) (lines : List (List Char)) : List (List Char) :=
  lines.filter fun line => line.takeWhile (· != ' ') == keyword.toList

theorem linesWith_append (keyword : String) (first second : List (List Char)) :
    linesWith keyword (first ++ second) = linesWith keyword first ++ linesWith keyword second :=
  List.filter_append ..

theorem linesWith_conditions {keyword : String} (hkeyword : ' ' ∉ keyword.toList)
    (other : String) (conditions : List Expr) :
    linesWith other (conditions.map (conditionLine keyword)) =
      if keyword = other then conditions.map (conditionLine keyword) else [] := by
  have htake := takeWhile_conditionLine hkeyword
  rw [linesWith, List.filter_map]
  split
  · next heq =>
    subst heq
    simp [Function.comp_def, htake]
  · next hne =>
    have htoList : keyword.toList ≠ other.toList := fun heq => hne (String.toList_inj.mp heq)
    simp [Function.comp_def, htake, htoList]

/-- The lines of the conditions of a function. -/
def conditionLines (function : PureFunction) : List (List Char) :=
  function.requires.map (conditionLine "requires") ++
    function.preserves.map (conditionLine "preserves") ++
    function.ensures.map (conditionLine "ensures")

theorem linesWith_conditionLines (function : PureFunction) (keyword : String) :
    linesWith keyword function.conditionLines =
      (if "requires" = keyword then function.requires.map (conditionLine "requires") else []) ++
      (if "preserves" = keyword then function.preserves.map (conditionLine "preserves") else []) ++
      (if "ensures" = keyword then function.ensures.map (conditionLine "ensures") else []) := by
  rw [conditionLines, linesWith_append, linesWith_append, linesWith_conditions (by decide),
    linesWith_conditions (by decide), linesWith_conditions (by decide)]

theorem map_render_eq_of_lines_eq {keyword : String} {first second : List Expr}
    (h : first.map (conditionLine keyword) = second.map (conditionLine keyword)) :
    first.map Expr.render = second.map Expr.render := by
  have hline : conditionLine keyword = (fun text => keyword.toList ++ ' ' :: text) ∘ Expr.chars :=
    rfl
  have hinj : ∀ text other : List Char,
      keyword.toList ++ ' ' :: text = keyword.toList ++ ' ' :: other → text = other :=
    fun text other htext => (List.cons.inj (List.append_cancel_left htext)).2
  rw [hline, ← List.map_map, ← List.map_map, List.map_inj_right hinj] at h
  have hrender : Expr.render = String.ofList ∘ Expr.chars := rfl
  rw [hrender, ← List.map_map, ← List.map_map, h]

/-- The conditions of a function can be read off their lines. -/
theorem conditions_eq_of_conditionLines_eq {first second : PureFunction}
    (h : first.conditionLines = second.conditionLines) :
    first.requires.map Expr.render = second.requires.map Expr.render ∧
      first.preserves.map Expr.render = second.preserves.map Expr.render ∧
      first.ensures.map Expr.render = second.ensures.map Expr.render := by
  have hlines : ∀ keyword, linesWith keyword first.conditionLines =
      linesWith keyword second.conditionLines := fun keyword => by rw [h]
  refine ⟨?_, ?_, ?_⟩
  · apply @map_render_eq_of_lines_eq "requires"
    simpa [linesWith_conditionLines] using hlines "requires"
  · apply @map_render_eq_of_lines_eq "preserves"
    simpa [linesWith_conditionLines] using hlines "preserves"
  · apply @map_render_eq_of_lines_eq "ensures"
    simpa [linesWith_conditionLines] using hlines "ensures"

theorem lines_eq_conditionLines (function : PureFunction) :
    function.lines = function.conditionLines ++ ["decreases _".toList, function.bodyLine] := rfl

/-- **A function can be read off its lines.** -/
theorem alike_of_lines_eq {first second : PureFunction} (hfirst : first.Unbroken)
    (hsecond : second.Unbroken) (h : first.lines = second.lines) : first.Alike second := by
  rw [lines_eq_conditionLines, lines_eq_conditionLines] at h
  obtain ⟨hconditions, hrest⟩ := List.append_inj' h (by simp)
  have hbody : first.bodyLine = second.bodyLine := by simpa using hrest
  obtain ⟨hrequires, hpreserves, hensures⟩ := conditions_eq_of_conditionLines_eq hconditions
  obtain ⟨hname, hparams, htype, hresult⟩ := bodyLine_inj hfirst hsecond hbody
  exact ⟨hname, hparams, htype, by rw [Expr.render, Expr.render, hresult], hrequires, hpreserves,
    hensures⟩

end PureFunction

/-! ## Reading functions off an artifact -/

namespace Artifact

/-- The lines of a function with the empty line behind them. -/
def blockLines (function : PureFunction) : List (List Char) := function.lines ++ [[]]

theorem intercalate_blockLines (function : PureFunction) :
    List.intercalate ['\n'] (blockLines function) = function.chars ++ ['\n'] := by
  have hne : function.lines ≠ [] := by simp [PureFunction.lines]
  rw [blockLines, Text.intercalate_append hne (List.cons_ne_nil _ _), PureFunction.chars]
  simp

theorem chars_eq (package : String) (functions : List PureFunction) :
    chars package functions = "package ".toList ++ (package.toList ++ '\n' :: '\n' ::
      (marker ++ '\n' :: '\n' :: List.intercalate ['\n'] (functions.flatMap blockLines))) := by
  have hne : ∀ function, blockLines function ≠ [] := by simp [blockLines]
  rw [Text.intercalate_flatMap hne]
  unfold chars
  simp only [intercalate_blockLines, List.append_assoc, List.cons_append, List.nil_append]

/-- An empty line ends a function, so functions can be read off their lines one by one. -/
theorem alike_of_flatMap_eq {first second : List PureFunction}
    (hfirst : ∀ function ∈ first, function.Unbroken)
    (hsecond : ∀ function ∈ second, function.Unbroken)
    (h : first.flatMap blockLines = second.flatMap blockLines) :
    List.Forall₂ PureFunction.Alike first second := by
  induction first generalizing second with
  | nil =>
    cases second with
    | nil => exact .nil
    | cons other more => simp [blockLines] at h
  | cons function rest ih =>
    cases second with
    | nil => simp [blockLines] at h
    | cons other more =>
      rw [List.forall_mem_cons] at hfirst hsecond
      have hnil : ∀ function : PureFunction, [] ∉ function.lines := fun function hmem =>
        PureFunction.ne_nil_of_mem_lines [] hmem rfl
      simp only [List.flatMap_cons, blockLines, List.append_assoc, List.singleton_append] at h
      obtain ⟨hlines, hrest⟩ := Text.cut_unique (hnil function) (hnil other) h
      exact .cons (PureFunction.alike_of_lines_eq hfirst.1 hsecond.1 hlines)
        (ih hfirst.2 hsecond.2 hrest)

theorem flatMap_blockLines_ne (functions : List PureFunction) :
    functions.flatMap blockLines ≠ [[]] := by
  intro h
  cases functions with
  | nil => cases h
  | cons function rest =>
    have hlength := congrArg List.length h
    simp only [List.flatMap_cons, blockLines, PureFunction.lines, List.length_append,
      List.length_cons, List.length_nil] at hlength
    omega

theorem newline_notMem_blockLines {functions : List PureFunction}
    (h : ∀ function ∈ functions, function.Unbroken) :
    ∀ line ∈ functions.flatMap blockLines, '\n' ∉ line := by
  intro line hline
  obtain ⟨function, hfunction, hline⟩ := List.mem_flatMap.mp hline
  rcases List.mem_append.mp hline with hline | hline
  · exact (h function hfunction).newline_notMem_lines line hline
  · rw [List.mem_singleton.mp hline]
    exact List.not_mem_nil

/-- **An artifact determines its package and its functions**, the functions up to the text of their
expressions. -/
theorem alike_of_chars_eq {package other : String} {first second : List PureFunction}
    (hfirst : ∀ function ∈ first, function.Unbroken)
    (hsecond : ∀ function ∈ second, function.Unbroken)
    (hpackage : '\n' ∉ package.toList) (hother : '\n' ∉ other.toList)
    (h : chars package first = chars other second) :
    package = other ∧ List.Forall₂ PureFunction.Alike first second := by
  rw [chars_eq, chars_eq] at h
  obtain ⟨hpackages, h⟩ := Text.cut_unique hpackage hother (List.append_cancel_left h)
  simp only [List.cons.injEq, true_and, List.append_cancel_left_eq] at h
  have hlines := Text.intercalate_inj (newline_notMem_blockLines hfirst)
    (newline_notMem_blockLines hsecond) (flatMap_blockLines_ne first)
    (flatMap_blockLines_ne second) h
  exact ⟨String.toList_inj.mp hpackages, alike_of_flatMap_eq hfirst hsecond hlines⟩

end Artifact

/-- **Sources with one artifact have one package, and alike functions in the same number and
order.** -/
theorem artifact_determines_functions {first second : String}
    {functions others : List PureFunction} {package other : String}
    (hfirst : (compileText .standard first).result = .ok functions)
    (hsecond : (compileText .standard second).result = .ok others)
    (hpackage : '\n' ∉ package.toList) (hother : '\n' ∉ other.toList)
    (h : Artifact.render package functions = Artifact.render other others) :
    package = other ∧ List.Forall₂ PureFunction.Alike functions others := by
  apply Artifact.alike_of_chars_eq (unbroken_of_compileText Table.unbroken_standard hfirst)
    (unbroken_of_compileText Table.unbroken_standard hsecond) hpackage hother
  exact String.ofList_inj.mp h

/-- A function whose parameter names end in commas, with an empty type among the types. -/
def commaFunction (result : Expr) : PureFunction :=
  ⟨"f", [⟨"x,", "int"⟩, ⟨"y,", ""⟩], "int", result, [], [], []⟩

/-- A source of such a function, with a sequence as its result. -/
def sequenceSource : String :=
  "(define f (begin (args (x, \"int\") (y, \"\")) (returns int) (seq \"int\")))"

/-- A source of such a function, with a word as its result that is spelled like a sequence. -/
def wordSource : String :=
  "(define (f) (begin seq[int]\x7b\x7d (returns int) (args (x, int) (y, \"))))"

theorem compileText_sequenceSource : (compileText .standard sequenceSource).result =
    .ok [commaFunction (.sequence "int" [])] := by
  have hread : Form.read sequenceSource = .ok [.node [.atom "define", .atom "f",
      .node [.atom "begin",
        .node [.atom "args", .node [.atom "x,", .atom "\"int\""], .node [.atom "y,", .atom "\"\""]],
        .node [.atom "returns", .atom "int"], .node [.atom "seq", .atom "\"int\""]]]] := by
    with_unfolding_all rfl
  rw [result_compileText, hread]
  rfl

theorem compileText_wordSource : (compileText .standard wordSource).result =
    .ok [commaFunction (.literal "seq[int]\x7b\x7d")] := by
  have hread : Form.read wordSource = .ok [.node [.atom "define", .node [.atom "f"],
      .node [.atom "begin", .atom "seq[int]\x7b\x7d", .node [.atom "returns", .atom "int"],
        .node [.atom "args", .node [.atom "x,", .atom "int"],
          .node [.atom "y,", .atom "\""]]]]] := by
    with_unfolding_all rfl
  rw [result_compileText, hread]
  rfl

/-- Both sources have one artifact, although their results are different expressions. -/
theorem artifact_determines_functions_sequence :
    Artifact.render "main" [commaFunction (.sequence "int" [])] =
      Artifact.render "main" [commaFunction (.literal "seq[int]\x7b\x7d")] ∧
    (compileText .standard sequenceSource).result = .ok [commaFunction (.sequence "int" [])] ∧
    (compileText .standard wordSource).result =
      .ok [commaFunction (.literal "seq[int]\x7b\x7d")] ∧
    List.Forall₂ PureFunction.Alike [commaFunction (.sequence "int" [])]
      [commaFunction (.literal "seq[int]\x7b\x7d")] := by
  have hpackage : '\n' ∉ "main".toList := by decide
  have hrender : Artifact.render "main" [commaFunction (.sequence "int" [])] =
      Artifact.render "main" [commaFunction (.literal "seq[int]\x7b\x7d")] := by decide +kernel
  exact ⟨hrender, compileText_sequenceSource, compileText_wordSource,
    (artifact_determines_functions compileText_sequenceSource compileText_wordSource hpackage
      hpackage hrender).2⟩

end PureContracts
