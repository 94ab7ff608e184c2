import PureContracts.Artifact
import PureContracts.Compilation
import PureContracts.Json.View

/-!
# The boundary for callers that pass C strings

Callers hand over pointers to bytes that end at the first zero byte; the null pointer is `none`.
A reply holds a result or an error, never both.  A text with a zero character inside cannot cross
the boundary, and a fixed text goes in its place.

* `Boundary.textAt?` — the text behind a pointer (`cstr_to_str`).
* `Boundary.packageAt` — the package that a pointer names (`package_or_default`).
* `Reply.ofExcept` — the reply of an outcome (`PfuncResult.from_result`, `into_c_string`).
* `Boundary.serve` — the reply to a request (`pfunc_compile`, `pfunc_compile_json`,
  `pfunc_parse_tree`, `pfunc_artifact_hash`).

Principal result: `Reply.ofExcept_exclusive` — exactly one field of a reply is filled.
-/

namespace PureContracts.Boundary

/-- The bytes behind a pointer; `none` is the null pointer. -/
abbrev Pointer := Option (List UInt8)

/-- The text behind a pointer: the bytes in front of the first zero byte, if they are text. -/
def textAt? (pointer : Pointer) : Option String :=
  pointer.bind fun bytes => Text.ofUtf8? (bytes.takeWhile (· != 0))

/-- What callers can ask for. -/
inductive Service where
  /-- The artifact of a source. -/
  | artifact
  /-- The definitions of a source, as JSON. -/
  | definitions
  /-- The forms of a source, laid out. -/
  | tree
  /-- The digest of the artifact of a source, in the default package. -/
  | hash
  deriving DecidableEq, Inhabited

/-- A result or an error. -/
structure Reply where
  result : Option String
  error : Option String
  deriving DecidableEq

/-- The text itself, or `fallback` when a zero character keeps it from crossing. -/
def crossing (fallback text : String) : String :=
  if text.toList.contains '\x00' then fallback else text

namespace Reply

/-- The reply with a result. -/
def success (text : String) : Reply := ⟨some (crossing "" text), none⟩

/-- The reply with an error. -/
def failure (message : String) : Reply := ⟨none, some (crossing "unknown error" message)⟩

/-- The reply of an outcome. -/
def ofExcept : Except Error String → Reply
  | .ok text => success text
  | .error e => failure e.message

theorem ofExcept_exclusive (outcome : Except Error String) :
    (ofExcept outcome).result.isSome = !(ofExcept outcome).error.isSome := by
  cases outcome <;> rfl

end Reply

/-- The package that a pointer names.  The null pointer, the empty text and bytes that are no text
name the default one. -/
def packageAt (pointer : Pointer) : String :=
  match textAt? pointer with
  | none => Artifact.defaultPackage
  | some name => if name = "" then Artifact.defaultPackage else name

/-- What a service makes of a text. -/
def Service.output (service : Service) (package : Pointer) (text : String) : Except Error String :=
  match service with
  | .artifact => (compileText .standard text).result.map (Artifact.render (packageAt package))
  | .definitions => (compileText .standard text).result >>= definitionsJson
  | .tree => (Form.read text).map Form.prettyAll
  | .hash =>
    (compileText .standard text).result.map fun functions =>
      Artifact.hash (Artifact.render Artifact.defaultPackage functions)

/-- The reply to a request.  Only an artifact is written for a package. -/
def serve (service : Service) (text package : Pointer) : Reply :=
  match textAt? text with
  | none => .failure "null or invalid UTF-8 input"
  | some text => .ofExcept (service.output package text)

end PureContracts.Boundary
