import PureContracts.Event
import PureContracts.Text.Split

/-!
# The log

A filter decides which events are shown, and each event that is shown takes one line.  A filter is a
list of directives, each of which sets the most detailed level for the targets that start with its
own; the longest target that fits an event decides, and of equal ones the last.

* `LogFilter.standard` — the filter of a run without directives (`init_tracing`).
* `LogFilter.ofText?` — reads a filter such as `info,pfunc_core=trace`.
* `LogFilter.shows` — whether an event is shown.
* `Event.line` — the line of an event.
-/

namespace PureContracts

/-- The most detailed level for the targets that start with `target`. -/
structure Directive where
  target : String
  /-- The rank of the level; zero shows nothing. -/
  detail : Nat
  deriving DecidableEq, Inhabited

/-- Which events are shown. -/
structure LogFilter where
  directives : List Directive
  deriving DecidableEq, Inhabited

namespace Directive

/-- Whether a directive is about a target. -/
def covers (directive : Directive) (target : String) : Bool :=
  directive.target.toList.isPrefixOf target.toList

/-- The rank of a level by its name or number. -/
def detailOfText? (text : String) : Option Nat :=
  match String.ofList (text.toList.map Char.toLower) with
  | "off" | "0" => some 0
  | "error" | "1" => some Level.error.detail
  | "warn" | "2" => some Level.warn.detail
  | "info" | "3" => some Level.info.detail
  | "debug" | "4" => some Level.debug.detail
  | "trace" | "5" => some Level.trace.detail
  | _ => none

/-- Reads a level, a target, or a target with a level. -/
def ofText? (text : String) : Option Directive :=
  match Text.pieces '=' text with
  | [word] =>
    match detailOfText? word with
    | some detail => some ⟨"", detail⟩
    | none => some ⟨word, Level.trace.detail⟩
  | [target, level] => (detailOfText? level).map (⟨target, ·⟩)
  | _ => none

end Directive

namespace LogFilter

/-- The filter in force when none is given: warnings, or with `verbose` all but the finest
events. -/
def standard (verbose : Bool) : LogFilter :=
  let detail := if verbose then Level.debug.detail else Level.warn.detail
  ⟨[⟨"pfunc", detail⟩, ⟨"pfunc_core", detail⟩]⟩

/-- Reads directives that are separated by commas.  Without any, only errors are shown. -/
def ofText? (text : String) : Option LogFilter :=
  match (Text.pieces ',' text).filter (· != "") with
  | [] => some ⟨[⟨"", Level.error.detail⟩]⟩
  | words => (words.mapM Directive.ofText?).map (⟨·⟩)

/-- The directive that decides about a target: of those that cover it one with the longest target,
and the last of these. -/
def deciding (filter : LogFilter) (target : String) : Option Directive :=
  (filter.directives.filter (·.covers target)).foldl
    (fun best directive =>
      match best with
      | none => some directive
      | some chosen =>
        if chosen.target.length ≤ directive.target.length then some directive else some chosen)
    none

/-- Whether an event is shown. -/
def shows (filter : LogFilter) (event : Event) : Bool :=
  match filter.deciding event.target with
  | none => false
  | some directive => event.level.detail ≤ directive.detail

end LogFilter

/-- A character inside a quoted text of the log. -/
def logEscaped (c : Char) : List Char :=
  if c = '"' then ['\\', '"']
  else if c = '\\' then ['\\', '\\']
  else if c = '\n' then ['\\', 'n']
  else if c = '\r' then ['\\', 'r']
  else if c = '\t' then ['\\', 't']
  else if c = '\x00' then ['\\', '0']
  else if c.toNat < 32 ∨ (127 ≤ c.toNat ∧ c.toNat < 160) then
    ['\\', 'u', '\x7b'] ++ Nat.toDigits 16 c.toNat ++ ['\x7d']
  else [c]

/-- The text of a field in a log line. -/
def FieldValue.text : FieldValue → List Char
  | .count value => value.repr.toList
  | .quoted text => '"' :: (text.toList.flatMap logEscaped ++ ['"'])
  | .plain text => text.toList

/-- The line of an event: level, target, message and fields. -/
def Event.line (event : Event) : String :=
  String.ofList (event.level.name.toList ++ ' ' :: event.target.toList ++ [':', ' '] ++
    List.intercalate [' '] (event.message.toList ::
      event.fields.map fun field => field.1.toList ++ '=' :: field.2.text) ++ ['\n'])

/-- The lines of the events that a filter shows. -/
def LogFilter.lines (filter : LogFilter) (events : List Event) : String :=
  String.join ((events.filter filter.shows).map Event.line)

end PureContracts
