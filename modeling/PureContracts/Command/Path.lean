import PureContracts.Text.Split

/-!
# Paths

A path is kept as it was written.  Its segments are the pieces between slashes; empty segments and
single dots name no further step, except for a dot in front.

* `Path.isDash` — whether a path is the dash that stands for standard input (`read_source`).
* `Path.isOverlong`, `Path.isOverlongName` — what no file system takes.
-/

namespace PureContracts.Path

/-- The pieces of a path between slashes. -/
def segments (path : String) : List String := Text.pieces '/' path

/-- Whether a path starts at the root of the file system. -/
def isAbsolute (path : String) : Bool := path.toList.head? == some '/'

/-- Whether a segment names no further step. -/
def isIdle (segment : String) : Bool := segment == "" || segment == "."

/-- Whether a path is a dash, but for slashes and dots behind it. -/
def isDash (path : String) : Bool :=
  match segments path with
  | first :: rest => first == "-" && rest.all isIdle
  | [] => false

/-- Whether a path is too long: it has to have fewer than 4096 bytes. -/
def isOverlong (path : String) : Bool := 4096 ≤ path.utf8ByteSize

/-- Whether a segment is too long for a name, which has at most 255 bytes. -/
def isOverlongName (segment : String) : Bool := 255 < segment.utf8ByteSize

end PureContracts.Path
