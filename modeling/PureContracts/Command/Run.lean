import PureContracts.Command.Help
import PureContracts.Command.Respond
import PureContracts.Text.Utf8

/-!
# Running commands

A command runs in an environment: what stands on standard input, the files that it sees, and how it
is shown.  It leaves a report and the files as they are afterwards.

* `Environment.fetch` — the text of an input (`read_source`).
* `Request.run` — a request carried out.
-/

namespace PureContracts

/-- The text of some bytes, as a command reads them. -/
def decodeInput (bytes : List UInt8) : Except IoFault String :=
  match Text.ofUtf8? bytes with
  | some text => .ok text
  | none => .error .notText

/-- What a command runs in. -/
structure Environment where
  /-- Whether output is coloured. -/
  color : Bool
  /-- The directives of the log, if there are any. -/
  logDirectives : Option String
  standardInput : List UInt8
  workspace : Workspace

/-- The filter of the log.  Directives that cannot be read count as none. -/
def logFilter (directives : Option String) (verbose : Bool) : LogFilter :=
  (directives.bind LogFilter.ofText?).getD (.standard verbose)

namespace Environment

/-- The text of an input. -/
def fetch (environment : Environment) : Input → Except IoFault String
  | .standard => decodeInput environment.standardInput
  | .file path => do decodeInput (← environment.workspace.read path)

/-- How an invocation is shown. -/
def console (environment : Environment) (invocation : Invocation) : Console :=
  ⟨environment.color, logFilter environment.logDirectives invocation.verbose⟩

end Environment

/-- What a run leaves. -/
structure Outcome where
  report : Report
  workspace : Workspace

/-- Writes the file of a response, if it has one. -/
def Response.settle (response : Response) (workspace : Workspace) : Outcome :=
  match response with
  | .done report => ⟨report, workspace⟩
  | .write path content conclude =>
    match workspace.write path (Text.utf8 content) with
    | .ok written => ⟨conclude (.ok ()), written⟩
    | .error fault => ⟨conclude (.error fault), workspace⟩

/-- A command carried out. -/
def Invocation.run (invocation : Invocation) (environment : Environment) : Outcome :=
  (invocation.respond (environment.console invocation) environment.fetch).settle
    environment.workspace

/-- A request carried out. -/
def Request.run (request : Request) (environment : Environment) : Outcome :=
  match request with
  | .help topic => ⟨⟨.success, topic.text, ""⟩, environment.workspace⟩
  | .version => ⟨⟨.success, programVersion ++ "\n", ""⟩, environment.workspace⟩
  | .command invocation => invocation.run environment

end PureContracts
