import PureContracts.Command.Arguments

/-!
# Help

What the program says about itself: what it is for, how it is used, and its commands or options, one
a line, as `Cli` and `Commands` describe them.

* `HelpTopic.text` — the text of a topic.
-/

namespace PureContracts

namespace CommandName

/-- What a command is for. -/
def purpose : CommandName → String
  | .compile => "Compile a source file into a Gobra artifact"
  | .check => "Parse and compile without writing anything"
  | .tokens => "Dump the token stream with source spans"
  | .tree => "Pretty-print the parsed S-expression forest"
  | .hash => "Compute the SHA-256 of the compiled artifact"
  | .version => "Show version information"

/-- The operand of a command, and what it is. -/
def operands : CommandName → List (String × String)
  | .compile => [("[FILE]", "Source file (stdin when omitted or \x60-\x60)")]
  | .version => []
  | _ => [("<FILE>", "Source file")]

end CommandName

/-- What an option is for, in front of the commands or behind one. -/
def Flag.purpose (command : Option CommandName) : Flag → String
  | .switch .quiet => "Suppress informational output"
  | .switch .verbose => "Log compiler decisions to stderr (overridden by RUST_LOG)"
  | .switch .help => "Print help"
  | .switch .version => "Print version"
  | .switch .json =>
    if command = some .compile then
      "Print the compiled definitions as JSON instead of writing an artifact"
    else "Output as JSON"
  | .switch .stdout => "Write the artifact to stdout instead of a file"
  | .setting .output => "Artifact path [default: " ++ defaultOutput ++ "]"
  | .setting .package =>
    "Go package name in the artifact header [default: " ++ Artifact.defaultPackage ++ "]"

/-- An option as it is given: letter, name, and a word for its value. -/
def Flag.usage (flag : Flag) : String :=
  let letter := match flag.letter? with
    | some letter => "-" ++ letter.toString ++ ", "
    | none => "    "
  let value := match flag with
    | .switch _ => ""
    | .setting .output => " <OUTPUT>"
    | .setting .package => " <PACKAGE>"
  letter ++ "--" ++ flag.longName ++ value

namespace HelpTopic

/-- A heading, and under it items with what they are for, which stands in one column. -/
def listing (heading : String) (items : List (String × String)) : String :=
  if items.isEmpty then ""
  else
    let width := items.foldl (fun width item => max width item.1.length) 0
    "\n" ++ heading ++ ":\n" ++ String.join (items.map fun item =>
      "  " ++ item.1 ++ String.ofList (List.replicate (width + 2 - item.1.length) ' ') ++ item.2 ++
        "\n")

/-- Some options with what they are for. -/
def options (command : Option CommandName) (flags : List Flag) : List (String × String) :=
  flags.map fun flag => (flag.usage, flag.purpose command)

/-- The commands with what they are for. -/
def commands : List (String × String) :=
  CommandName.all.map (fun name => (name.text, name.purpose)) ++
    [("help", "Print this message or the help of the given subcommand(s)")]

/-- The text of a topic. -/
def text : HelpTopic → String
  | .program =>
    "S-expression contract definitions to Gobra pure functions - command-line interface\n\n" ++
      "Usage: pfunc [OPTIONS] <COMMAND>\n" ++ listing "Commands" commands ++
      listing "Options" (options none leadingFlags)
  | .command name =>
    name.purpose ++ "\n\nUsage: pfunc " ++ name.text ++ " [OPTIONS]" ++
      String.join (name.operands.map fun operand => " " ++ operand.1) ++ "\n" ++
      listing "Arguments" name.operands ++ listing "Options" (options (some name) name.flags)
  | .help =>
    "Print this message or the help of the given subcommand(s)\n\n" ++
      "Usage: pfunc help [COMMAND]...\n" ++ listing "Commands" commands

end HelpTopic

end PureContracts
