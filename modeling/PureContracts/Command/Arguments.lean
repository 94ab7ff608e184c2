import PureContracts.Artifact
import PureContracts.Command.Basic

/-!
# Reading the command line

Arguments are options or operands.  A switch takes no value; a setting takes one, either attached
(`--output=x`, `-ox`, `-o=x`) or as the next argument, which then must not look like an option.
Several short options may share one dash.  Behind `--` every argument is an operand.  No option may
be given twice; only the switches that every command knows may stand once in front of the command
and once behind it.  Arguments are read from left to right: what is no proper use is refused where
it stands, and a switch that asks for help or for the version settles the request.  What is read are
the arguments that `Cli` and `Commands` declare.

* `Given.collect` — the options and operands behind a command.
* `Request.ofArguments?` — what the arguments ask for, or nothing when they are no proper use.
-/

namespace PureContracts

/-- Options without a value. -/
inductive Switch where
  | quiet
  | verbose
  | help
  | version
  | json
  | stdout
  deriving DecidableEq, Inhabited

/-- Options with a value. -/
inductive Setting where
  | output
  | package
  deriving DecidableEq, Inhabited

/-- An option of either kind. -/
inductive Flag where
  | switch (switch : Switch)
  | setting (setting : Setting)
  deriving DecidableEq, Inhabited

/-- The long name of an option. -/
def Flag.longName : Flag → String
  | .switch .quiet => "quiet"
  | .switch .verbose => "verbose"
  | .switch .help => "help"
  | .switch .version => "version"
  | .switch .json => "json"
  | .switch .stdout => "stdout"
  | .setting .output => "output"
  | .setting .package => "package"

/-- The letter of an option, if it has one. -/
def Flag.letter? : Flag → Option Char
  | .switch .quiet => some 'q'
  | .switch .verbose => some 'v'
  | .switch .help => some 'h'
  | .switch .version => some 'V'
  | .setting .output => some 'o'
  | _ => none

/-- The names of the commands (`Commands`). -/
inductive CommandName where
  | compile
  | check
  | tokens
  | tree
  | hash
  | version
  deriving DecidableEq, Inhabited

namespace CommandName

/-- The commands in the order in which they are listed. -/
def all : List CommandName := [.compile, .check, .tokens, .tree, .hash, .version]

/-- The name of a command, as it is given. -/
def text : CommandName → String
  | .compile => "compile"
  | .check => "check"
  | .tokens => "tokens"
  | .tree => "tree"
  | .hash => "hash"
  | .version => "version"

/-- The command of a name. -/
def ofText? (name : String) : Option CommandName := all.find? (·.text == name)

/-- The options of a command beside the common ones. -/
def ownFlags : CommandName → List Flag
  | .compile => [.setting .output, .switch .stdout, .setting .package, .switch .json]
  | .check => [.switch .json]
  | .hash => [.setting .package]
  | .tokens | .tree | .version => []

/-- How many operands a command takes at most. -/
def operandLimit : CommandName → Nat
  | .version => 0
  | _ => 1

end CommandName

/-- The options that every command knows. -/
def commonFlags : List Flag := [.switch .quiet, .switch .verbose, .switch .help]

/-- The options in front of a command. -/
def leadingFlags : List Flag := commonFlags ++ [.switch .version]

/-- All options of a command. -/
def CommandName.flags (name : CommandName) : List Flag := name.ownFlags ++ commonFlags

/-- Whether a value will do for a setting.  A path is not empty. -/
def Setting.takes : Setting → String → Bool
  | .output, value => value != ""
  | .package, _ => true

/-- What was given so far. -/
structure Given where
  switches : List Switch
  settings : List (Setting × String)
  operands : List String
  deriving DecidableEq

namespace Given

/-- Nothing was given. -/
def nothing : Given := ⟨[], [], []⟩

/-- Whether a switch was given. -/
def has (given : Given) (switch : Switch) : Bool := given.switches.contains switch

/-- The value of a setting. -/
def value? (given : Given) (setting : Setting) : Option String := given.settings.lookup setting

/-- Gives a switch, unless it was given. -/
def addSwitch? (given : Given) (switch : Switch) : Option Given :=
  if given.has switch then none
  else some { given with switches := switch :: given.switches }

/-- Gives a setting its value, unless it has one or the value will not do. -/
def addSetting? (given : Given) (setting : Setting) (value : String) : Option Given :=
  if (given.value? setting).isSome || !setting.takes value then none
  else some { given with settings := (setting, value) :: given.settings }

/-- Gives further operands, unless they are too many or one of them is empty. -/
def addOperands? (given : Given) (limit : Nat) (operands : List String) : Option Given :=
  if limit < given.operands.length + operands.length || operands.contains "" then none
  else some { given with operands := given.operands ++ operands }

end Given

/-- What one argument with options amounts to. -/
inductive Reading where
  /-- All its options are read. -/
  | given (given : Given)
  /-- The next argument is the value of a setting. -/
  | awaiting (setting : Setting) (given : Given)
  /-- Help is asked for, whatever follows. -/
  | help
  /-- The version is asked for, whatever follows. -/
  | version
  /-- No proper use. -/
  | refused

namespace Reading

/-- Reads a switch. -/
def ofSwitch (given : Given) (switch : Switch) : Reading :=
  match switch with
  | .help => .help
  | .version => .version
  | _ =>
    match given.addSwitch? switch with
    | some given => .given given
    | none => .refused

/-- Reads a setting with its value. -/
def ofSetting (given : Given) (setting : Setting) (value : String) : Reading :=
  match given.addSetting? setting value with
  | some given => .given given
  | none => .refused

/-- Reads a long option: its name, and the value attached to it. -/
def ofLong (flags : List Flag) (given : Given) (name : String) (value : Option String) : Reading :=
  match flags.find? (fun flag => flag.longName == name), value with
  | some (.switch switch), none => ofSwitch given switch
  | some (.setting setting), some value => ofSetting given setting value
  | some (.setting setting), none => .awaiting setting given
  | _, _ => .refused

/-- The value attached to the letter of a setting: an equals sign in front does not count. -/
def attached : List Char → String
  | '=' :: rest => String.ofList rest
  | rest => String.ofList rest

/-- Reads the letters behind a single dash. -/
def ofLetters (flags : List Flag) (given : Given) : List Char → Reading
  | [] => .given given
  | letter :: rest =>
    match flags.find? (fun flag => flag.letter? == some letter) with
    | none => .refused
    | some (.setting setting) =>
      if rest.isEmpty then .awaiting setting given
      else ofSetting given setting (attached rest)
    | some (.switch switch) =>
      match ofSwitch given switch with
      | .given given => ofLetters flags given rest
      | other => other

/-- The name and the attached value of a long option. -/
def splitLong (text : List Char) : String × Option String :=
  let name := String.ofList (text.takeWhile (· != '='))
  match text.dropWhile (· != '=') with
  | [] => (name, none)
  | _ :: value => (name, some (String.ofList value))

/-- Reads an argument that starts with a dash. -/
def ofArgument (flags : List Flag) (given : Given) (argument : String) : Reading :=
  match argument.toList with
  | '-' :: '-' :: text =>
    let split := splitLong text
    ofLong flags given split.1 split.2
  | '-' :: letters => ofLetters flags given letters
  | _ => .refused

end Reading

/-- Whether an argument has to be read as options.  A lone dash is an operand. -/
def looksLikeOption (argument : String) : Bool :=
  argument.toList.head? == some '-' && argument != "-"

/-- What the arguments behind a command amount to. -/
inductive Collected where
  | given (given : Given)
  /-- Help is asked for. -/
  | help

/-- Reads the arguments behind a command.  With `awaiting` set, the next argument is the value of
that setting. -/
def Given.collect (name : CommandName) (awaiting : Option Setting) (given : Given) :
    List String → Option Collected
  | [] => if awaiting.isSome then none else some (.given given)
  | argument :: rest =>
    match awaiting with
    | some setting =>
      if looksLikeOption argument then none
      else
        match given.addSetting? setting argument with
        | some given => collect name none given rest
        | none => none
    | none =>
      if argument = "--" then (given.addOperands? name.operandLimit rest).map .given
      else if looksLikeOption argument then
        match Reading.ofArgument name.flags given argument with
        | .given given => collect name none given rest
        | .awaiting setting given => collect name (some setting) given rest
        | .help => some .help
        | .version | .refused => none
      else
        match given.addOperands? name.operandLimit [argument] with
        | some given => collect name none given rest
        | none => none

/-- The path of an artifact for which none is given. -/
def defaultOutput : String := "res.gobra"

namespace Given

/-- The package that was given, or the default one. -/
def package (given : Given) : String := (given.value? .package).getD Artifact.defaultPackage

/-- The operand that was given; there is one at most. -/
def path? (given : Given) : Option String := given.operands.head?

/-- Where the compiled functions go.  An artifact goes to standard output or to a file, not
both. -/
def destination? (given : Given) : Option Destination :=
  match given.has .stdout, given.value? .output with
  | true, some _ => none
  | true, none => some (if given.has .json then .json else .standardOutput)
  | false, path => some (if given.has .json then .json else .file (path.getD defaultOutput))

/-- The command of a name with what was given. -/
def command? (given : Given) : CommandName → Option Command
  | .compile => do return .compile given.path? given.package (← given.destination?)
  | .check => do return .check (← given.path?) (given.has .json)
  | .tokens => do return .tokens (← given.path?)
  | .tree => do return .tree (← given.path?)
  | .hash => do return .hash (← given.path?) given.package
  | .version => some .version

end Given

/-- What help can be asked for. -/
inductive HelpTopic where
  | program
  | command (name : CommandName)
  /-- The command that gives help. -/
  | help
  deriving DecidableEq

/-- The topic that some words name. -/
def HelpTopic.ofWords? : List String → Option HelpTopic
  | [] => some .program
  | "help" :: rest =>
    match rest with
    | [] | ["help"] => some .help
    | [word] => (CommandName.ofText? word).map .command
    | _ => none
  | [word] => (CommandName.ofText? word).map .command
  | _ => none

/-- What the arguments ask for. -/
inductive Request where
  | help (topic : HelpTopic)
  /-- The version of the program. -/
  | version
  /-- A command. -/
  | command (invocation : Invocation)
  deriving DecidableEq

namespace Request

/-- Reads the command and what follows it, behind the options `leading`. -/
def ofCommand? (leading : Given) (name : String) (arguments : List String) : Option Request := do
  if name = "help" then return .help (← HelpTopic.ofWords? arguments)
  let name ← CommandName.ofText? name
  match ← Given.collect name none .nothing arguments with
  | .help => return .help (.command name)
  | .given given =>
    let command ← given.command? name
    return .command { quiet := leading.has .quiet || given.has .quiet,
                      verbose := leading.has .verbose || given.has .verbose,
                      command }

/-- Reads the options in front of the command, then the command. -/
def ofLeading? (leading : Given) : List String → Option Request
  | [] => none
  | argument :: rest =>
    if looksLikeOption argument then
      match Reading.ofArgument leadingFlags leading argument with
      | .given given => ofLeading? given rest
      | .help => some (.help .program)
      | .version => some .version
      | .awaiting _ _ | .refused => none
    else ofCommand? leading argument rest

/-- What the arguments ask for, or nothing when they are no proper use. -/
def ofArguments? (arguments : List String) : Option Request := ofLeading? .nothing arguments

end Request

end PureContracts
