/-!
# Events

What a run reports about itself.  An event has a level, the part of the program that it comes from,
a message and named fields.  Scanning (`tokenize`) and reading (`parse_tokens`) report one event
each; `compile_item` reports the forms it skips, `compile_define` what it drops and what it has
compiled, and `cmd_compile` the end of its compilation.
-/

namespace PureContracts

/-- How important an event is, from the most detailed level on. -/
inductive Level where
  | trace
  | debug
  | info
  | warn
  | error
  deriving DecidableEq, Inhabited

/-- The rank of a level: the more detailed, the higher. -/
def Level.detail : Level → Nat
  | .error => 1
  | .warn => 2
  | .info => 3
  | .debug => 4
  | .trace => 5

/-- The name of a level in a log line. -/
def Level.name : Level → String
  | .trace => "TRACE"
  | .debug => "DEBUG"
  | .info => "INFO"
  | .warn => "WARN"
  | .error => "ERROR"

/-- What a run reports about itself. -/
inductive Event where
  /-- A text was scanned. -/
  | scanned (tokens : Nat)
  /-- The tokens were read as forms. -/
  | read (forms : Nat)
  /-- A top-level form that is no definition was left out. -/
  | skipped (label : String)
  /-- A form of a body that is not its last was lowered and dropped. -/
  | discarded (function form : String)
  /-- A definition was compiled. -/
  | compiled (function : String) (auxiliary : Nat)
  /-- The whole input of a command was compiled. -/
  | finished (definitions : Nat)
  deriving DecidableEq, Inhabited

/-- The value of a field of an event. -/
inductive FieldValue where
  | count (value : Nat)
  /-- A text that a log line shows in quotes. -/
  | quoted (text : String)
  /-- A text that a log line shows as it is. -/
  | plain (text : String)
  deriving DecidableEq, Inhabited

namespace Event

/-- The level of an event. -/
def level : Event → Level
  | .scanned _ => .trace
  | .finished _ => .info
  | _ => .debug

/-- The part of the program that an event comes from. -/
def target : Event → String
  | .scanned _ => "pfunc_core::parser::tokenizer"
  | .read _ => "pfunc_core::parser"
  | .skipped _ | .discarded _ _ | .compiled _ _ => "pfunc_core::compiler"
  | .finished _ => "pfunc"

/-- The message of an event. -/
def message : Event → String
  | .scanned _ => "tokenized input"
  | .read _ => "parsed top-level forms"
  | .skipped _ => "skipping top-level item"
  | .discarded _ _ => "discarding non-final body form"
  | .compiled _ _ => "compiled definition"
  | .finished _ => "compiled input"

/-- The fields of an event, in the order in which a log line shows them. -/
def fields : Event → List (String × FieldValue)
  | .scanned tokens => [("count", .count tokens)]
  | .read forms => [("forms", .count forms)]
  | .skipped label => [("label", .quoted label)]
  | .discarded function form => [("function", .quoted function), ("form", .plain form)]
  | .compiled function auxiliary =>
    [("function", .quoted function), ("auxiliary", .count auxiliary)]
  | .finished definitions => [("definitions", .count definitions)]

end Event

end PureContracts
