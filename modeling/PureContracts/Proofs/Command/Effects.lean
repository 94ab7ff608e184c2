import PureContracts.Command.Run
import PureContracts.Proofs.Command.Files
import PureContracts.Proofs.Compilation.Batch

/-!
# What a run leaves behind

A command reads one input, makes something of its text, and may write one file.  Each of these steps
can fail, and nothing is printed or written in front of the last one that can.  So a run that fails
leaves the files as they were, and all that it says is why.

* `Environment.Holds`, `Environment.Unreadable` — the text that stands on an input, and why there is
  none.
* `Command.Rejects`, `Command.Produces` — what a command makes of a text: an error, or a file.
* `Complains` — what a run that fails says: the events of its log, and a message.
* `checkReport` — the report of a check.

Principal results
* `respondTo_responds` — what a command responds to a text;
* `run_ends` — how a run ends, case by case;
* `failing_run_leaves_nothing` — the exit code of a run, its output and the files behind it.
-/

namespace PureContracts

/-! ## Inputs -/

/-- A text stands on an input: there are bytes, and they are those of the text. -/
def Environment.Holds (environment : Environment) : Input → String → Prop
  | .standard, text => environment.standardInput = Text.utf8 text
  | .file path, text => ∃ location, environment.workspace.Leads path location ∧
      environment.workspace.files.get? location = some (Text.utf8 text)

/-- Why an input cannot be read, in the words of the message. -/
inductive Environment.Unreadable (environment : Environment) : Input → String → Prop where
  | undecodable : (∀ text, environment.standardInput ≠ Text.utf8 text) →
      Unreadable environment .standard "stream did not contain valid UTF-8"
  /-- The path leads nowhere. -/
  | lost {path : String} {fault : IoFault} :
      environment.workspace.locate path = .error fault →
      Unreadable environment (.file path) fault.text
  | missing {path : String} {location : Location} :
      environment.workspace.Leads path location →
      environment.workspace.files.get? location = none →
      ¬ environment.workspace.FolderAt location →
      Unreadable environment (.file path) "No such file or directory (os error 2)"
  | folder {path : String} {location : Location} :
      environment.workspace.Leads path location → environment.workspace.FolderAt location →
      Unreadable environment (.file path) "Is a directory (os error 21)"
  | binary {path : String} {location : Location} {bytes : List UInt8} :
      environment.workspace.Leads path location →
      environment.workspace.files.get? location = some bytes → (∀ text, bytes ≠ Text.utf8 text) →
      Unreadable environment (.file path) "stream did not contain valid UTF-8"

theorem decodeInput_eq_ok_iff {bytes : List UInt8} {text : String} :
    decodeInput bytes = .ok text ↔ bytes = Text.utf8 text := by
  rw [← Text.ofUtf8?_eq_some_iff, decodeInput]
  cases Text.ofUtf8? bytes <;> simp

theorem decodeInput_eq_error_iff {bytes : List UInt8} {fault : IoFault} :
    decodeInput bytes = .error fault ↔ (∀ text, bytes ≠ Text.utf8 text) ∧ fault = .notText := by
  simp only [ne_eq, ← Text.ofUtf8?_eq_some_iff, decodeInput]
  cases Text.ofUtf8? bytes <;> simp [eq_comm]

namespace Environment

variable {environment : Environment} {input : Input} {text : String}

theorem fetch_eq_ok_iff : environment.fetch input = .ok text ↔ environment.Holds input text := by
  cases input with
  | standard => exact decodeInput_eq_ok_iff
  | file path =>
    simp only [fetch, Holds, ← Workspace.read_eq_ok_iff, bind, Except.bind]
    cases environment.workspace.read path with
    | error fault => simp
    | ok bytes => simp [decodeInput_eq_ok_iff]

theorem unreadable_of_fetch_error {fault : IoFault} (h : environment.fetch input = .error fault) :
    environment.Unreadable input fault.text := by
  cases input with
  | standard =>
    obtain ⟨hbytes, rfl⟩ := decodeInput_eq_error_iff.mp h
    exact .undecodable hbytes
  | file path =>
    cases hlocate : environment.workspace.locate path with
    | error lost =>
      simp only [fetch, Workspace.read, hlocate, bind, Except.bind, Except.error.injEq] at h
      rw [← h]
      exact .lost hlocate
    | ok location =>
      have hleads := Workspace.locate_eq_ok_iff.mp hlocate
      simp only [fetch, Workspace.read_eq_of_locate hlocate, bind, Except.bind] at h
      cases hread : environment.workspace.readAt location with
      | ok bytes =>
        rw [hread] at h
        obtain ⟨hbytes, rfl⟩ := decodeInput_eq_error_iff.mp h
        exact .binary hleads (Workspace.readAt_eq_ok_iff.mp hread) hbytes
      | error refusal =>
        rw [hread] at h
        cases h
        rcases Workspace.readAt_eq_error hread with ⟨hfile, hfolder, rfl⟩ | ⟨hfolder, rfl⟩
        · exact .missing hleads hfile hfolder
        · exact .folder hleads hfolder

/-- There is a reason exactly when no text stands on the input. -/
theorem exists_unreadable_iff :
    (∃ reason, environment.Unreadable input reason) ↔ ∀ text, ¬ environment.Holds input text := by
  constructor
  · rintro ⟨reason, hreason⟩ text hholds
    cases hreason with
    | undecodable hbytes => exact hbytes text hholds
    | lost hlost =>
      obtain ⟨location, hleads, -⟩ := hholds
      rw [Workspace.locate_eq_ok_iff.mpr hleads] at hlost
      cases hlost
    | missing hleads hfile _ =>
      obtain ⟨location, hleads', hcontent⟩ := hholds
      cases hleads.unique hleads'
      rw [hfile] at hcontent
      cases hcontent
    | folder hleads hfolder =>
      obtain ⟨location, hleads', hcontent⟩ := hholds
      cases hleads.unique hleads'
      rw [hfolder.1] at hcontent
      cases hcontent
    | binary hleads hfile hbytes =>
      obtain ⟨location, hleads', hcontent⟩ := hholds
      cases hleads.unique hleads'
      rw [hfile, Option.some.injEq] at hcontent
      exact hbytes text hcontent
  · intro hnone
    cases hfetch : environment.fetch input with
    | ok text => exact absurd (fetch_eq_ok_iff.mp hfetch) (hnone text)
    | error fault => exact ⟨_, unreadable_of_fetch_error hfetch⟩

/-- At most one text stands on an input. -/
theorem Holds.unique {other : String} (h : environment.Holds input text)
    (hother : environment.Holds input other) : text = other := by
  rw [← fetch_eq_ok_iff] at h hother
  exact Except.ok.inj (h.symm.trans hother)

/-- The word that announces an error, in bold red where output is coloured. -/
def errorWord (environment : Environment) : String :=
  if environment.color then "\x1b[1;31merror:\x1b[0m" else "error:"

theorem errorLine_eq (environment : Environment) (invocation : Invocation) (message : String) :
    (environment.console invocation).errorLine message =
      environment.errorWord ++ " " ++ message ++ "\n" := by
  rw [Console.errorLine, Console.painted, errorWord, console]
  cases environment.color <;> rfl

end Environment

/-! ## Logs -/

/-- The lines that a run shows of some events. -/
def Invocation.log (invocation : Invocation) (environment : Environment) (events : List Event) :
    String :=
  (logFilter environment.logDirectives invocation.verbose).lines events

/-- The filter of a run that is not verbose shows warnings at most, and there are none. -/
theorem LogFilter.standard_shows (event : Event) : (standard false).shows event = false := by
  have htargets : ∀ target ∈ ["pfunc", "pfunc_core::parser", "pfunc_core::parser::tokenizer",
      "pfunc_core::compiler"],
      ((standard false).deciding target).map Directive.detail = some 2 := by
    decide
  have htarget : ((standard false).deciding event.target).map Directive.detail = some 2 := by
    apply htargets
    cases event <;> simp [Event.target]
  obtain ⟨directive, hdirective, hdetail⟩ := Option.map_eq_some_iff.mp htarget
  rw [shows, hdirective]
  simp only [hdetail]
  cases event <;> rfl

/-- Without directives, and when it is not asked to be verbose, a run shows no events. -/
theorem Invocation.log_eq_empty {invocation : Invocation} {environment : Environment}
    (hdirectives : environment.logDirectives = none) (hverbose : invocation.verbose = false)
    (events : List Event) : invocation.log environment events = "" := by
  have hfilter : logFilter environment.logDirectives invocation.verbose = .standard false := by
    rw [hdirectives, hverbose]
    rfl
  have hhidden : events.filter (LogFilter.standard false).shows = [] :=
    List.filter_eq_nil_iff.mpr fun event _ => by simp [LogFilter.standard_shows]
  rw [log, hfilter, LogFilter.lines, hhidden]
  rfl

/-- What a run that fails says on standard error: its log, and on a line of its own the message. -/
def Invocation.complaint (invocation : Invocation) (environment : Environment)
    (events : List Event) (message : String) : String :=
  invocation.log environment events ++ environment.errorWord ++ " " ++ message ++ "\n"

theorem Environment.failure_eq (environment : Environment) (invocation : Invocation)
    (events : List Event) (status : ExitStatus) (message : String) :
    (environment.console invocation).failure events status message =
      ⟨status, "", invocation.complaint environment events message⟩ := by
  rw [Console.failure, errorLine_eq, Invocation.complaint]
  simp only [String.append_assoc]
  rfl

/-! ## Responses -/

/-- The error for which a command does not take a text. -/
def Command.Rejects (command : Command) (text : String) (e : Error) : Prop :=
  match command with
  | .tree _ => Form.read text = .error e
  | .compile .. | .check .. | .hash .. => (compileText .standard text).result = .error e
  | .tokens _ | .version => False

/-- The events up to the error for which a command does not take a text. -/
def Command.eventsOf (command : Command) (text : String) : List Event :=
  match command with
  | .tree _ => (readText text).events
  | _ => (compileText .standard text).events

/-- The file that a command makes of a text: where it goes, and the artifact in it. -/
def Command.Produces (command : Command) (text path content : String) : Prop :=
  ∃ source package functions, command = .compile source package (.file path) ∧
    (compileText .standard text).result = .ok functions ∧
    content = Artifact.render package functions

theorem Command.Produces.not_rejects {command : Command} {text path content : String}
    (h : command.Produces text path content) (e : Error) : ¬ command.Rejects text e := by
  obtain ⟨source, package, functions, rfl, hresult, -⟩ := h
  simp [Rejects, hresult]

/-- A text that is not taken makes no file. -/
theorem Command.Rejects.not_produces {command : Command} {text path content : String} {e : Error}
    (h : command.Rejects text e) : ¬ command.Produces text path content :=
  fun hproduces => hproduces.not_rejects e h

/-- A command makes one file at most. -/
theorem Command.Produces.unique {command : Command} {text path content other body : String}
    (h : command.Produces text path content) (hother : command.Produces text other body) :
    path = other ∧ content = body := by
  obtain ⟨source, package, functions, rfl, hresult, rfl⟩ := h
  obtain ⟨_, _, _, hcommand, hagain, rfl⟩ := hother
  cases hcommand
  cases hresult.symm.trans hagain
  exact ⟨rfl, rfl⟩

/-- The report of a check: the names that are defined, the error, and whether the source is
valid. -/
def checkReport (names : List Json) (error : Json) (valid : Bool) : Json :=
  .object [("definitions", .array names), ("error", error), ("valid", .bool valid)]

/-- What a command responds to a text. -/
inductive Responds (console : Console) (command : Command) (text : String) : Response → Prop where
  | rejected {e : Error} : command.Rejects text e →
      (∀ path, command ≠ .check path true) →
      Responds console command text
        (.done (console.failure (command.eventsOf text) .invalid e.message))
  | reported {path : String} {e : Error} : command = .check path true → command.Rejects text e →
      Responds console command text
        (.done ⟨.invalid, (checkReport [] (.string e.message) false).indented ++ "\n",
          console.filter.lines (compileText .standard text).events⟩)
  | printed {events : List Event} {output : String} : (∀ e, ¬ command.Rejects text e) →
      (∀ path content, ¬ command.Produces text path content) →
      Responds console command text (.done (console.success events output))
  | produced {source : Option String} {package path output : String}
      {functions : List PureFunction} {events : List Event}
      {conclude : Except IoFault Unit → Report} :
      command = .compile source package (.file path) →
      (compileText .standard text).result = .ok functions →
      events = (compileText .standard text).events ++ [.finished functions.length] →
      conclude (.ok ()) = console.success events output →
      (∀ fault, conclude (.error fault) = console.failure events .ioFailure
        ("cannot write " ++ path ++ ": " ++ fault.text)) →
      Responds console command text (.write path (Artifact.render package functions) conclude)

theorem respondTo_responds (invocation : Invocation) (console : Console) (text : String) :
    Responds console invocation.command text (invocation.respondTo console text) := by
  obtain ⟨quiet, verbose, command⟩ := invocation
  cases command with
  | compile source package destination =>
    simp only [Invocation.respondTo, Response.compile]
    cases hresult : (compileText .standard text).result with
    | error e => exact .rejected hresult (by simp)
    | ok functions =>
      have haccepted : ∀ e, ¬ (Command.compile source package destination).Rejects text e := by
        simp [Command.Rejects, hresult]
      cases destination with
      | json => exact .printed haccepted (by simp [Command.Produces])
      | standardOutput => exact .printed haccepted (by simp [Command.Produces])
      | file path => exact .produced rfl hresult rfl rfl fun _ => rfl
  | check path json =>
    cases json with
    | true =>
      simp only [Invocation.respondTo, Response.checkAsJson]
      cases hresult : (compileText .standard text).result with
      | error e => exact .reported rfl hresult
      | ok functions =>
        exact .printed (by simp [Command.Rejects, hresult]) (by simp [Command.Produces])
    | false =>
      simp only [Invocation.respondTo, Response.check]
      cases hresult : (compileText .standard text).result with
      | error e => exact .rejected hresult (by simp)
      | ok functions =>
        exact .printed (by simp [Command.Rejects, hresult]) (by simp [Command.Produces])
  | tokens path => exact .printed (by simp [Command.Rejects]) (by simp [Command.Produces])
  | tree path =>
    simp only [Invocation.respondTo, Response.tree, result_readText]
    cases hresult : Form.read text with
    | error e => exact .rejected hresult (by simp)
    | ok forms =>
      exact .printed (by simp [Command.Rejects, hresult]) (by simp [Command.Produces])
  | hash path package =>
    simp only [Invocation.respondTo, Response.hash]
    cases hresult : (compileText .standard text).result with
    | error e => exact .rejected hresult (by simp)
    | ok functions =>
      exact .printed (by simp [Command.Rejects, hresult]) (by simp [Command.Produces])
  | version => exact .printed (by simp [Command.Rejects]) (by simp [Command.Produces])

/-! ## Runs -/

/-- What a run that fails says: the events of its log, and a message.  The input cannot be read, its
text is not taken, or the output cannot be written. -/
inductive Complains (environment : Environment) (command : Command) :
    Input → List Event → String → Prop where
  | standardInput {reason : String} : environment.Unreadable .standard reason →
      Complains environment command .standard [] ("cannot read stdin: " ++ reason)
  | file {path reason : String} : environment.Unreadable (.file path) reason →
      Complains environment command (.file path) [] ("cannot read " ++ path ++ ": " ++ reason)
  | source {input : Input} {text : String} {e : Error} : environment.Holds input text →
      command.Rejects text e →
      Complains environment command input (command.eventsOf text) e.message
  | output {input : Input} {text package path : String} {source : Option String}
      {functions : List PureFunction} {fault : IoFault} : environment.Holds input text →
      command = .compile source package (.file path) →
      (compileText .standard text).result = .ok functions →
      environment.workspace.write path (Text.utf8 (Artifact.render package functions)) =
        .error fault →
      Complains environment command input
        ((compileText .standard text).events ++ [.finished functions.length])
        ("cannot write " ++ path ++ ": " ++ fault.text)

/-- Streams or files stand in the way of a command: its input cannot be read, or the file that it
makes of its input cannot be written. -/
def Obstructed (environment : Environment) (input : Input) (command : Command) : Prop :=
  (∀ text, ¬ environment.Holds input text) ∨
    ∃ text path content, environment.Holds input text ∧ command.Produces text path content ∧
      ∀ location, ¬ environment.workspace.Accepts path location

/-- How a run with an input ends. -/
inductive Ends (invocation : Invocation) (environment : Environment) (input : Input) :
    Outcome → Prop where
  /-- The input cannot be read. -/
  | unreadable {events : List Event} {message : String} :
      (∀ text, ¬ environment.Holds input text) →
      Complains environment invocation.command input events message →
      Ends invocation environment input
        ⟨⟨.ioFailure, "", invocation.complaint environment events message⟩, environment.workspace⟩
  /-- The text is not taken. -/
  | rejected {text : String} {e : Error} :
      environment.Holds input text → invocation.command.Rejects text e →
      (∀ path, invocation.command ≠ .check path true) →
      Ends invocation environment input
        ⟨⟨.invalid, "", invocation.complaint environment (invocation.command.eventsOf text)
          e.message⟩, environment.workspace⟩
  /-- The text is not taken, and the report says so. -/
  | reported {text path : String} {e : Error} :
      environment.Holds input text → invocation.command = .check path true →
      invocation.command.Rejects text e →
      Ends invocation environment input
        ⟨⟨.invalid, (checkReport [] (.string e.message) false).indented ++ "\n",
          invocation.log environment (compileText .standard text).events⟩, environment.workspace⟩
  /-- The text is taken, and the result is printed. -/
  | printed {text output : String} {events : List Event} :
      environment.Holds input text → (∀ e, ¬ invocation.command.Rejects text e) →
      (∀ path content, ¬ invocation.command.Produces text path content) →
      Ends invocation environment input
        ⟨⟨.success, output, invocation.log environment events⟩, environment.workspace⟩
  /-- The text is taken, and the result cannot be written. -/
  | unwritable {text path content message : String} {events : List Event} :
      environment.Holds input text → invocation.command.Produces text path content →
      (∀ location, ¬ environment.workspace.Accepts path location) →
      Complains environment invocation.command input events message →
      Ends invocation environment input
        ⟨⟨.ioFailure, "", invocation.complaint environment events message⟩, environment.workspace⟩
  /-- The text is taken, and the result is written. -/
  | written {text path content output : String} {events : List Event} {location : Location}
      {workspace : Workspace} :
      environment.Holds input text → invocation.command.Produces text path content →
      environment.workspace.Accepts path location →
      environment.workspace.Wrote workspace location (Text.utf8 content) →
      Ends invocation environment input
        ⟨⟨.success, output, invocation.log environment events⟩, workspace⟩

section

variable {invocation : Invocation} {environment : Environment} {input : Input}

theorem ends_of_responds {text : String} {response : Response}
    (htext : environment.Holds input text)
    (h : Responds (environment.console invocation) invocation.command text response) :
    Ends invocation environment input (response.settle environment.workspace) := by
  cases h with
  | rejected hrejects hcheck =>
    rw [environment.failure_eq]
    exact .rejected htext hrejects hcheck
  | reported hcheck hrejects => exact .reported htext hcheck hrejects
  | printed haccepted hproduces => exact .printed htext haccepted hproduces
  | @produced source package path output functions events conclude hcommand hresult hevents hok
      herror =>
    have hproduces : invocation.command.Produces text path (Artifact.render package functions) :=
      ⟨source, package, functions, hcommand, hresult, rfl⟩
    rw [Response.settle]
    cases hwrite : environment.workspace.write path
        (Text.utf8 (Artifact.render package functions)) with
    | ok written =>
      obtain ⟨location, haccepts, rfl⟩ := Workspace.write_eq_ok_iff.mp hwrite
      simp only [hok]
      exact .written htext hproduces haccepts (Workspace.wrote_put _ _ _)
    | error fault =>
      simp only [herror, environment.failure_eq, hevents]
      exact .unwritable htext hproduces (Workspace.not_accepts_of_write_error hwrite)
        (.output htext hcommand hresult hwrite)

/-- **How a run ends, case by case.** -/
theorem run_ends (hreads : invocation.command.ReadsFrom input) :
    Ends invocation environment input (invocation.run environment) := by
  simp only [Invocation.run, Invocation.respond, Command.readsFrom_iff.mp hreads]
  cases hfetch : environment.fetch input with
  | error fault =>
    have hreason := Environment.unreadable_of_fetch_error hfetch
    have hnone := Environment.exists_unreadable_iff.mp ⟨_, hreason⟩
    simp only [Response.settle, environment.failure_eq]
    cases input with
    | standard => exact .unreadable hnone (.standardInput hreason)
    | file path => exact .unreadable hnone (.file hreason)
  | ok text =>
    exact ends_of_responds (Environment.fetch_eq_ok_iff.mp hfetch) (respondTo_responds _ _ text)

/-! ## What follows from how a run ends -/

variable {outcome : Outcome}

/-- An input that can be read does not obstruct, unless the file made of it cannot be written. -/
theorem not_obstructed {command : Command} {text : String} (htext : environment.Holds input text)
    (h : ∀ path content, command.Produces text path content →
      ∃ location, environment.workspace.Accepts path location) :
    ¬ Obstructed environment input command := by
  rintro (hnone | ⟨other, path, content, hother, hproduces, hrefused⟩)
  · exact hnone text htext
  · cases htext.unique hother
    obtain ⟨location, haccepts⟩ := h path content hproduces
    exact hrefused location haccepts

/-- When the text on an input is taken, no text stands there that is not. -/
theorem not_rejected {command : Command} {text : String} (htext : environment.Holds input text)
    (h : ∀ e, ¬ command.Rejects text e) :
    ¬ ∃ other e, environment.Holds input other ∧ command.Rejects other e := by
  rintro ⟨other, e, hother, hrejects⟩
  cases htext.unique hother
  exact h e hrejects

theorem Ends.code_eq_two_iff (h : Ends invocation environment input outcome) :
    outcome.report.status.code = 2 ↔ Obstructed environment input invocation.command := by
  cases h with
  | unreadable hnone _ => exact iff_of_true rfl (.inl hnone)
  | unwritable htext hproduces hrefused _ =>
    exact iff_of_true rfl (.inr ⟨_, _, _, htext, hproduces, hrefused⟩)
  | rejected htext hrejects _ =>
    exact iff_of_false (show (1 : Nat) ≠ 2 by decide)
      (not_obstructed htext fun path content hproduces => absurd hproduces hrejects.not_produces)
  | reported htext _ hrejects =>
    exact iff_of_false (show (1 : Nat) ≠ 2 by decide)
      (not_obstructed htext fun path content hproduces => absurd hproduces hrejects.not_produces)
  | printed htext _ hnothing =>
    exact iff_of_false (show (0 : Nat) ≠ 2 by decide)
      (not_obstructed htext fun path content hproduces => absurd hproduces (hnothing path content))
  | written htext hproduces haccepts _ =>
    refine iff_of_false (show (0 : Nat) ≠ 2 by decide)
      (not_obstructed htext fun path content hother => ?_)
    rw [(hother.unique hproduces).1]
    exact ⟨_, haccepts⟩

theorem Ends.code_eq_one_iff (h : Ends invocation environment input outcome) :
    outcome.report.status.code = 1 ↔
      ∃ text e, environment.Holds input text ∧ invocation.command.Rejects text e := by
  cases h with
  | unreadable hnone _ =>
    refine iff_of_false (show (2 : Nat) ≠ 1 by decide) ?_
    rintro ⟨text, e, htext, -⟩
    exact hnone text htext
  | rejected htext hrejects _ => exact iff_of_true rfl ⟨_, _, htext, hrejects⟩
  | reported htext _ hrejects => exact iff_of_true rfl ⟨_, _, htext, hrejects⟩
  | printed htext haccepted _ =>
    exact iff_of_false (show (0 : Nat) ≠ 1 by decide) (not_rejected htext haccepted)
  | unwritable htext hproduces _ _ =>
    exact iff_of_false (show (2 : Nat) ≠ 1 by decide) (not_rejected htext hproduces.not_rejects)
  | written htext hproduces _ _ =>
    exact iff_of_false (show (0 : Nat) ≠ 1 by decide) (not_rejected htext hproduces.not_rejects)

theorem Ends.workspace_of_failure (h : Ends invocation environment input outcome)
    (hcode : outcome.report.status.code ≠ 0) : outcome.workspace = environment.workspace := by
  cases h with
  | written _ _ _ _ => exact absurd rfl hcode
  | _ => rfl

/-- A run that fails prints nothing but why, unless it reports on an invalid source. -/
theorem Ends.complains_of_failure (h : Ends invocation environment input outcome)
    (hcode : outcome.report.status.code ≠ 0)
    (hcheck : ∀ path, invocation.command = .check path true → outcome.report.status.code ≠ 1) :
    outcome.report.stdout = "" ∧
      ∃ events message, Complains environment invocation.command input events message ∧
        outcome.report.stderr = invocation.complaint environment events message := by
  cases h with
  | unreadable _ hmessage => exact ⟨rfl, _, _, hmessage, rfl⟩
  | rejected htext hrejects _ => exact ⟨rfl, _, _, .source htext hrejects, rfl⟩
  | reported _ hcommand _ => exact absurd rfl (hcheck _ hcommand)
  | printed _ _ _ => exact absurd rfl hcode
  | unwritable _ _ _ hmessage => exact ⟨rfl, _, _, hmessage, rfl⟩
  | written _ _ _ _ => exact absurd rfl hcode

theorem Ends.report_of_check {path text : String} {e : Error}
    (h : Ends invocation environment input outcome)
    (hcommand : invocation.command = .check path true) (htext : environment.Holds input text)
    (hrejects : invocation.command.Rejects text e) :
    outcome.report.stdout = (checkReport [] (.string e.message) false).indented ++ "\n" ∧
      outcome.report.stderr =
        invocation.log environment (compileText .standard text).events := by
  cases h with
  | unreadable hnone _ => exact absurd htext (hnone text)
  | rejected _ _ hcheck => exact absurd hcommand (hcheck path)
  | reported hother _ hagain =>
    cases htext.unique hother
    rw [hcommand] at hrejects hagain
    cases hrejects.symm.trans hagain
    exact ⟨rfl, rfl⟩
  | printed hother haccepted _ =>
    exact absurd ⟨text, e, htext, hrejects⟩ (not_rejected hother haccepted)
  | unwritable hother hproduces _ _ =>
    exact absurd ⟨text, e, htext, hrejects⟩ (not_rejected hother hproduces.not_rejects)
  | written hother hproduces _ _ =>
    exact absurd ⟨text, e, htext, hrejects⟩ (not_rejected hother hproduces.not_rejects)

/-- A run that succeeds has written the one file that its command produces, or none. -/
theorem Ends.workspace_of_success (h : Ends invocation environment input outcome)
    (hcode : outcome.report.status.code = 0) :
    ∃ text, environment.Holds input text ∧
      ((∃ path content location, invocation.command.Produces text path content ∧
          environment.workspace.Accepts path location ∧
          environment.workspace.Wrote outcome.workspace location (Text.utf8 content)) ∨
        (∀ path content, ¬ invocation.command.Produces text path content) ∧
          outcome.workspace = environment.workspace) := by
  cases h with
  | printed htext _ hnothing => exact ⟨_, htext, .inr ⟨hnothing, rfl⟩⟩
  | written htext hproduces haccepts hwrote =>
    exact ⟨_, htext, .inl ⟨_, _, _, hproduces, haccepts, hwrote⟩⟩
  | _ => cases hcode

end

theorem ExitStatus.code_cases (status : ExitStatus) :
    status.code = 0 ∨ status.code = 1 ∨ status.code = 2 := by
  cases status <;> decide

/-- A folder with one file, the source of a definition. -/
def unitEnvironment : Environment :=
  ⟨false, none, [], ⟨.ofList [(["home", "in"], Text.utf8 unitSource)], [], ["home"]⟩⟩

/-- `compile in --package p -o output` -/
def unitInvocation (output : String) : Invocation :=
  ⟨false, false, .compile (some "in") "p" (.file output)⟩

def unitArtifact : String :=
  "package p\n\n//+gobra\n\ndecreases _\npure func f() t \x7b return 1 \x7d\n"

theorem holds_unitEnvironment : unitEnvironment.Holds (.file "in") unitSource :=
  ⟨["home", "in"], Workspace.locate_eq_ok_iff.mp (by with_unfolding_all rfl),
    by with_unfolding_all rfl⟩

theorem render_unitFunction : Artifact.render "p" [unitFunction] = unitArtifact := by
  with_unfolding_all rfl

theorem produces_unitInvocation (output : String) :
    (unitInvocation output).command.Produces unitSource output unitArtifact :=
  ⟨_, "p", [unitFunction], rfl, compileText_unitSource, render_unitFunction.symm⟩

theorem accepts_unitEnvironment {location : Location} :
    unitEnvironment.workspace.Accepts "out" location ↔ location = ["home", "out"] := by
  have htarget : unitEnvironment.workspace.target "out" = .ok ["home", "out"] := by
    with_unfolding_all rfl
  rw [Workspace.accepts_iff, htarget, Except.ok.injEq]
  constructor
  · exact fun h => h.1.symm
  · rintro rfl
    exact ⟨rfl, nofun⟩

theorem write_unitEnvironment (content : List UInt8) :
    unitEnvironment.workspace.write "no/out" content = .error .notFound := by
  with_unfolding_all rfl

theorem not_accepts_unitEnvironment (location : Location) :
    ¬ unitEnvironment.workspace.Accepts "no/out" location :=
  Workspace.not_accepts_of_write_error (write_unitEnvironment []) location

theorem reads_unitInvocation {output : String} {input : Input}
    (h : (unitInvocation output).command.ReadsFrom input) : input = .file "in" := by
  have hinput := Command.readsFrom_iff.mp h
  cases hinput
  decide

/-- What the run says that is to write into a folder that does not exist. -/
theorem complains_unitInvocation {events : List Event} {message : String}
    (h : Complains unitEnvironment (unitInvocation "no/out").command (.file "in") events message) :
    message = "cannot write no/out: No such file or directory (os error 2)" := by
  cases h with
  | file hreason =>
    exact absurd holds_unitEnvironment (Environment.exists_unreadable_iff.mp ⟨_, hreason⟩ _)
  | source htext hrejects =>
    cases htext.unique holds_unitEnvironment
    exact absurd (produces_unitInvocation "no/out") hrejects.not_produces
  | output htext hcommand _ hwrite =>
    cases hcommand
    rw [write_unitEnvironment] at hwrite
    cases hwrite
    rfl

/-- What the run leaves. -/
def unitOutcome (output : String) : Outcome :=
  (Request.command (unitInvocation output)).run unitEnvironment

/-- A source that cannot be read stands on standard input, and there are no files. -/
def strayEnvironment : Environment := ⟨false, none, Text.utf8 ")", .fresh ["home"]⟩

/-- `check --json -` -/
def strayChecking : Invocation := ⟨false, false, .check "-" true⟩

theorem compileText_stray :
    (compileText .standard ")").result = .error (.unreadable (.strayClosing .start)) := by
  with_unfolding_all rfl

theorem reads_strayChecking {input : Input} (h : strayChecking.command.ReadsFrom input) :
    input = .standard := by
  have hinput := Command.readsFrom_iff.mp h
  cases hinput
  decide

/-- What the run leaves. -/
def strayOutcome : Outcome := (Request.command strayChecking).run strayEnvironment

end PureContracts
