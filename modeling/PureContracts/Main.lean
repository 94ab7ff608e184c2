import PureContracts.Command.Run

/-!
# The program

Reads the arguments, lets the command respond to its input, and prints the report, as `main` does.
Files and streams are touched here and nowhere else.
-/

namespace PureContracts.Program

/-- What is printed when the arguments are no proper use. -/
def usage : String :=
  "usage: pfunc [-q] [-v] compile [FILE] [-o PATH | --stdout] [--package NAME] [--json]\n" ++
  "       pfunc [-q] [-v] check FILE [--json]\n" ++
  "       pfunc [-q] [-v] tokens FILE\n" ++
  "       pfunc [-q] [-v] tree FILE\n" ++
  "       pfunc [-q] [-v] hash FILE [--package NAME]\n" ++
  "       pfunc version\n" ++
  "       pfunc help [COMMAND]\n"

/-- The fault that an error of the system amounts to.  Codes come with either sign: twenty is a path
that leads through a file, thirty-six a name that is too long. -/
def faultOf : IO.Error → IoFault
  | .noFileOrDirectory .. => .notFound
  | .inappropriateType _ code _ =>
    if code = 20 ∨ -code = 20 then .notDirectory else .isDirectory
  | e@(.invalidArgument _ code _) =>
    if code = 36 ∨ -code = 36 then .nameTooLong else .described (toString e)
  | e => .described (toString e)

/-- The bytes of an input. -/
def readInput (input : Input) : IO (Except IoFault (List UInt8)) := do
  try
    let bytes ← match input with
      | .standard => (← IO.getStdin).readBinToEnd
      | .file path => IO.FS.readBinFile path
    return .ok bytes.toList
  catch e => return .error (faultOf e)

/-- Writes a file. -/
def writeOutput (path content : String) : IO (Except IoFault Unit) := do
  try
    IO.FS.writeFile path content
    return .ok ()
  catch e => return .error (faultOf e)

/-- Whether output is coloured: as the environment says, and else on a terminal. -/
def wantsColor : IO Bool := do
  let forced := (← IO.getEnv "CLICOLOR_FORCE").any (· != "0")
  let refused := (← IO.getEnv "NO_COLOR").isSome || (← IO.getEnv "CLICOLOR") == some "0"
  return forced || (!refused && (← (← IO.getStdout).isTty))

/-- Prints a report and gives its exit code. -/
def finish (report : Report) : IO UInt32 := do
  IO.eprint report.stderr
  IO.print report.stdout
  return UInt32.ofNat report.status.code

/-- Carries an invocation out. -/
def carryOut (invocation : Invocation) : IO UInt32 := do
  let console : Console :=
    ⟨← wantsColor, logFilter (← IO.getEnv "RUST_LOG") invocation.verbose⟩
  let content ← match invocation.command.input? with
    | some input => readInput input
    | none => pure (.ok [])
  match invocation.respond console fun _ => content >>= decodeInput with
  | .done report => finish report
  | .write path text conclude => finish (conclude (← writeOutput path text))

end PureContracts.Program

open PureContracts in
def main (arguments : List String) : IO UInt32 := do
  match Request.ofArguments? arguments with
  | none =>
    IO.eprint Program.usage
    return 2
  | some (.help topic) =>
    IO.print topic.text
    return 0
  | some .version =>
    IO.println programVersion
    return 0
  | some (.command invocation) => Program.carryOut invocation
