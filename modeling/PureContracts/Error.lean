import PureContracts.Source.Position

/-!
# Errors

An `Error` records the cause of a failure; the wording is given once, by `message`.  Each kind of
error has causes of its own:

* `ReadFault` — why a text is no sequence of forms (`ParseError`).
* `Refusal` — why a form is recognised and yet cannot be lowered (`UnsupportedConstruct`).
* `MissingPart` — what a form lacks (`MissingClause`).
-/

namespace PureContracts

/-- The deepest nesting of parentheses that is read and lowered (`MAX_DEPTH`). -/
def nestingLimit : Nat := 128

/-- Why a text is no sequence of forms. -/
inductive ReadFault where
  /-- A closing parenthesis that closes nothing. -/
  | strayClosing (position : Position)
  /-- An opening parenthesis inside `limit` others. -/
  | tooDeep (limit : Nat) (position : Position)
  /-- The innermost parenthesis that is still open at the end. -/
  | unclosed (position : Position)
  /-- A fault in the words of a caller. -/
  | described (text : String)
  deriving DecidableEq, Inhabited

/-- Why a form is recognised and yet cannot be lowered. -/
inductive Refusal where
  /-- The form needs exactly `expected` children. -/
  | childCount (expected found : Nat)
  /-- The form needs at least `least` children. -/
  | tooFewChildren (least found : Nat)
  /-- The element type of a sequence is not a word. -/
  | elementType
  /-- The form stands inside `limit` others. -/
  | tooDeep (limit : Nat)
  /-- The reason that a rule gives. -/
  | stated (reason : String)
  deriving DecidableEq, Inhabited

/-- What a form lacks. -/
inductive MissingPart where
  /-- An application without anything to apply. -/
  | callee
  | functionName
  | block
  | parameters
  | returnType
  | body
  /-- A parameter, shown as `form`, that is not a name and a type. -/
  | wellFormedParameter (form : String)
  /-- A `returns` clause that is not a single type. -/
  | wellFormedReturnType
  /-- A condition clause that is not a single expression. -/
  | wellFormedCondition (label : String)
  /-- A part in the words of a caller. -/
  | stated (part : String)
  deriving DecidableEq, Inhabited

/-- Why reading, lowering or writing failed. -/
inductive Error where
  | unreadable (fault : ReadFault)
  | unsupported (form : String) (refusal : Refusal)
  | missing (form : String) (part : MissingPart)
  | unserializable (detail : String)
  deriving DecidableEq, Inhabited

/-- The wording of a read fault. -/
def ReadFault.text : ReadFault → String
  | .strayClosing position => "mismatched ) at " ++ position.render
  | .tooDeep limit position =>
    "nesting deeper than " ++ limit.repr ++ " levels at " ++ position.render
  | .unclosed position =>
    "mismatched ( at " ++ position.render ++ ", unterminated at end of input"
  | .described text => text

/-- The wording of a refusal. -/
def Refusal.text : Refusal → String
  | .childCount expected found =>
    "expected " ++ expected.repr ++ " children, found " ++ found.repr
  | .tooFewChildren least found =>
    "expected at least " ++ least.repr ++ " children, found " ++ found.repr
  | .elementType => "element type must be a quoted type name"
  | .tooDeep limit => "nested deeper than " ++ limit.repr ++ " levels"
  | .stated reason => reason

/-- The wording of a missing part. -/
def MissingPart.text : MissingPart → String
  | .callee => "an application needs a callee"
  | .functionName => "function name"
  | .block => "begin"
  | .parameters => "args"
  | .returnType => "returns"
  | .body => "body expression"
  | .wellFormedParameter form => "argument `" ++ form ++ "` must be (name \"Type\")"
  | .wellFormedReturnType => "returns takes one quoted type"
  | .wellFormedCondition label => label ++ " takes exactly one expression"
  | .stated part => part

/-- The wording of an error. -/
def Error.message : Error → String
  | .unreadable fault => "Parse error: " ++ fault.text
  | .unsupported form refusal => "Unsupported construct `" ++ form ++ "`: " ++ refusal.text
  | .missing form part => "Missing clause in `" ++ form ++ "`: " ++ part.text
  | .unserializable detail => "Serialization error: " ++ detail

end PureContracts
