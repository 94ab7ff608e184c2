import PureContracts.Command.Path

/-!
# Commands

What the command line can be asked to do.

* `Command` — the commands with their operands and settings (`Commands`).
* `Invocation` — a command with the switches that every command knows (`Cli`).
* `Input` — where a command reads from.
-/

namespace PureContracts

/-- Where a command reads from. -/
inductive Input where
  | standard
  | file (path : String)
  deriving DecidableEq, Inhabited

/-- What a path operand names: a dash is standard input. -/
def Input.ofPath (path : String) : Input :=
  if Path.isDash path then .standard else .file path

/-- How messages name an input. -/
def Input.name : Input → String
  | .standard => "stdin"
  | .file path => path

/-- Where compiled functions go. -/
inductive Destination where
  /-- The definitions as JSON on standard output. -/
  | json
  /-- The artifact on standard output. -/
  | standardOutput
  /-- The artifact in a file. -/
  | file (path : String)
  deriving DecidableEq, Inhabited

/-- What the command line can be asked to do. -/
inductive Command where
  /-- Compiles a source, by default from standard input. -/
  | compile (path : Option String) (package : String) (destination : Destination)
  /-- Reports whether a source compiles. -/
  | check (path : String) (json : Bool)
  /-- Lists the tokens of a source. -/
  | tokens (path : String)
  /-- Lays out the forms of a source. -/
  | tree (path : String)
  /-- Prints the digest of the artifact of a source. -/
  | hash (path : String) (package : String)
  /-- Prints the version. -/
  | version
  deriving DecidableEq, Inhabited

/-- Where a command reads from, if it reads at all. -/
def Command.input? : Command → Option Input
  | .compile none _ _ => some .standard
  | .compile (some path) _ _ => some (.ofPath path)
  | .check path _ | .tokens path | .tree path | .hash path _ => some (.ofPath path)
  | .version => none

/-- A command with the switches that every command knows. -/
structure Invocation where
  quiet : Bool
  verbose : Bool
  command : Command
  deriving DecidableEq, Inhabited

end PureContracts
