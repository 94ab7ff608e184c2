import PureContracts.Artifact
import PureContracts.Command.Basic
import PureContracts.Command.Log
import PureContracts.Command.Workspace
import PureContracts.Compilation
import PureContracts.Json.View

/-!
# Responses of commands

A command responds to the content of its input.  The response is a finished report, or a file that
has to be written first, with the report for either outcome.  Nothing is printed and no file is
written in front of the last failure that can occur.

* `Report` — exit status and what is printed.
* `Response` — a report, or a file to be written and what is reported then: `Response.compile`
  (`cmd_compile`), `Response.check` and `Response.checkAsJson` (`cmd_check`), `Response.tokens`
  (`cmd_tokens`), `Response.tree` (`cmd_tree`) and `Response.hash` (`cmd_hash`).
* `Invocation.respond` — the response of a command.
-/

namespace PureContracts

/-- How a run ends. -/
inductive ExitStatus where
  | success
  /-- The input is no source, or does not compile. -/
  | invalid
  /-- The input cannot be read, or the output cannot be written. -/
  | ioFailure
  deriving DecidableEq, Inhabited

/-- The exit code of a status. -/
def ExitStatus.code : ExitStatus → Nat
  | .success => 0
  | .invalid => 1
  | .ioFailure => 2

/-- Exit status and what is printed. -/
structure Report where
  status : ExitStatus
  stdout : String
  stderr : String
  deriving DecidableEq

/-- A report, or a file to be written and what is reported then. -/
inductive Response where
  | done (report : Report)
  | write (path content : String) (conclude : Except IoFault Unit → Report)

/-- How a run is shown. -/
structure Console where
  /-- Whether the leading word of a message is coloured. -/
  color : Bool
  filter : LogFilter

namespace Console

/-- A word in bold, in the colour of the given code. -/
def painted (console : Console) (code word : String) : String :=
  if console.color then "\x1b[1;" ++ code ++ "m" ++ word ++ "\x1b[0m" else word

/-- A word that announces a success, in green. -/
def good (console : Console) (word : String) : String := console.painted "32" word

/-- The line of an error (`report`); its first word is red. -/
def errorLine (console : Console) (message : String) : String :=
  console.painted "31" "error:" ++ " " ++ message ++ "\n"

/-- The report of a run that succeeds. -/
def success (console : Console) (events : List Event) (output : String) : Report :=
  ⟨.success, output, console.filter.lines events⟩

/-- The report of a run that fails. -/
def failure (console : Console) (events : List Event) (status : ExitStatus) (message : String) :
    Report :=
  ⟨status, "", console.filter.lines events ++ console.errorLine message⟩

end Console

/-- What a command says about a number of definitions. -/
def definitionCount (functions : List PureFunction) : String :=
  functions.length.repr ++ " definition(s)"

/-- The JSON report of a check. -/
def checkJson : Except Error (List PureFunction) → Json
  | .ok functions =>
    .object [("definitions", .array (functions.map fun function => .string function.name)),
      ("error", .null), ("valid", .bool true)]
  | .error e =>
    .object [("definitions", .array []), ("error", .string e.message), ("valid", .bool false)]

namespace Response

/-- Compiles a source and hands the functions over. -/
def compile (console : Console) (quiet : Bool) (package : String) (destination : Destination)
    (text : String) : Response :=
  let run := compileText .standard text
  match run.result with
  | .error e => .done (console.failure run.events .invalid e.message)
  | .ok functions =>
    let events := run.events ++ [.finished functions.length]
    match destination with
    | .json =>
      match definitionsJson functions with
      | .error e => .done (console.failure events .invalid e.message)
      | .ok json => .done (console.success events (json ++ "\n"))
    | .standardOutput => .done (console.success events (Artifact.render package functions))
    | .file path =>
      .write path (Artifact.render package functions) fun
        | .ok _ =>
          console.success events
            (if quiet then ""
             else console.good "compiled" ++ " " ++ definitionCount functions ++ " → " ++ path ++
              "\n")
        | .error fault =>
          console.failure events .ioFailure ("cannot write " ++ path ++ ": " ++ fault.text)

/-- Reports whether a source compiles, and what it defines. -/
def check (console : Console) (quiet : Bool) (path text : String) : Response :=
  let run := compileText .standard text
  match run.result with
  | .error e => .done (console.failure run.events .invalid e.message)
  | .ok functions =>
    .done (console.success run.events
      (if quiet then ""
       else console.good "valid" ++ " " ++ path ++ ": " ++ definitionCount functions ++ "\n" ++
        String.join (functions.map fun function => "  " ++ function.name ++ "\n")))

/-- Reports as JSON whether a source compiles; the error of one that does not is part of the
report. -/
def checkAsJson (console : Console) (text : String) : Response :=
  let run := compileText .standard text
  let output := (checkJson run.result).indented ++ "\n"
  let status := match run.result with
    | .ok _ => ExitStatus.success
    | .error _ => ExitStatus.invalid
  .done ⟨status, output, console.filter.lines run.events⟩

/-- Lists the tokens of a source. -/
def tokens (console : Console) (text : String) : Response :=
  let tokens := Source.tokens text
  .done (console.success [.scanned tokens.length]
    (String.join (tokens.map fun token => token.render ++ "\n")))

/-- Lays out the forms of a source. -/
def tree (console : Console) (text : String) : Response :=
  let run := readText text
  match run.result with
  | .error e => .done (console.failure run.events .invalid e.message)
  | .ok forms => .done (console.success run.events (Form.prettyListing forms))

/-- Prints the digest of the artifact of a source. -/
def hash (console : Console) (package text : String) : Response :=
  let run := compileText .standard text
  match run.result with
  | .error e => .done (console.failure run.events .invalid e.message)
  | .ok functions =>
    .done (console.success run.events
      (Artifact.hash (Artifact.render package functions) ++ "\n"))

end Response

/-- The version that the program prints of itself. -/
def programVersion : String := "pfunc 0.1.0"

/-- The version that the program prints of itself and of its core. -/
def fullVersion : String := programVersion ++ " (pfunc-core 0.1.0)"

/-- The response to an input that can be read. -/
def Invocation.respondTo (invocation : Invocation) (console : Console) (text : String) :
    Response :=
  match invocation.command with
  | .compile _ package destination =>
    .compile console invocation.quiet package destination text
  | .check path false => .check console invocation.quiet path text
  | .check _ true => .checkAsJson console text
  | .tokens _ => .tokens console text
  | .tree _ => .tree console text
  | .hash _ package => .hash console package text
  | .version => .done (console.success [] (fullVersion ++ "\n"))

/-- The response of a command, whose input is read with `fetch`. -/
def Invocation.respond (invocation : Invocation) (console : Console)
    (fetch : Input → Except IoFault String) : Response :=
  match invocation.command.input? with
  | none => invocation.respondTo console ""
  | some input =>
    match fetch input with
    | .ok text => invocation.respondTo console text
    | .error fault =>
      .done (console.failure [] .ioFailure ("cannot read " ++ input.name ++ ": " ++ fault.text))

end PureContracts
