import PureContracts.Bindings
import PureContracts.Command.Path

/-!
# Workspaces

The files that a command sees, as a value.  Files and folders are found by their location, the list
of names from the root of the file system down; a folder exists as soon as something stands in it.
Relative paths start from the current folder.  `read_source` reads such files, and `cmd_compile`
writes them.

* `Workspace.read` — the bytes of a file.
* `Workspace.write` — the workspace with a file created or replaced.
* `Workspace.changes` — the files below the current folder that a run has created or changed.

Principal results
* `read_eq_of_locate` — a path is read at the location that it leads to;
* `files_put` — writing a file changes the file at one location and no other.
-/

namespace PureContracts

/-- Why a file cannot be read or written. -/
inductive IoFault where
  | notFound
  | isDirectory
  | notDirectory
  | nameTooLong
  /-- The bytes are no text. -/
  | notText
  /-- A fault in the words of the system. -/
  | described (text : String)
  deriving DecidableEq, Inhabited

/-- The wording of a fault. -/
def IoFault.text : IoFault → String
  | .notFound => "No such file or directory (os error 2)"
  | .isDirectory => "Is a directory (os error 21)"
  | .notDirectory => "Not a directory (os error 20)"
  | .nameTooLong => "File name too long (os error 36)"
  | .notText => "stream did not contain valid UTF-8"
  | .described text => text

/-- The names that lead from the root of the file system to a file or folder. -/
abbrev Location := List String

/-- The files that a command sees, and the folder that it runs in. -/
structure Workspace where
  files : Bindings Location (List UInt8)
  /-- Folders, whether or not something stands in them. -/
  folders : List Location
  /-- The folder that relative paths start from. -/
  current : Location

namespace Workspace

/-- What stands at a location. -/
inductive Entry where
  | file (content : List UInt8)
  | folder

/-- A workspace with nothing in it but the current folder. -/
def fresh (current : Location) : Workspace := ⟨.empty, [], current⟩

/-- Whether a location is a folder: the current folder or one that leads to it, a folder that is
listed, or one that something stands in. -/
def isFolder (workspace : Workspace) (location : Location) : Bool :=
  location.isPrefixOf workspace.current || workspace.folders.any location.isPrefixOf ||
    workspace.files.entries.any fun entry => location.isPrefixOf entry.1 && location != entry.1

/-- What stands at a location. -/
def entry? (workspace : Workspace) (location : Location) : Option Entry :=
  match workspace.files.get? location with
  | some content => some (.file content)
  | none => if workspace.isFolder location then some .folder else none

/-- Follows the segments of a path from a location.  Every segment but the last has to lead to a
folder.  The folder above the root is the root itself. -/
def follow (workspace : Workspace) (location : Location) : List String → Except IoFault Location
  | [] => .ok location
  | segment :: rest =>
    match workspace.entry? location with
    | none => .error .notFound
    | some (.file _) => .error .notDirectory
    | some .folder =>
      if Path.isIdle segment then follow workspace location rest
      else if segment = ".." then follow workspace location.dropLast rest
      else if Path.isOverlongName segment then .error .nameTooLong
      else follow workspace (location ++ [segment]) rest

/-- Where a path starts: at the root of the file system or in the current folder. -/
def origin (workspace : Workspace) (path : String) : Location :=
  if Path.isAbsolute path then [] else workspace.current

/-- The location that a path leads to. -/
def locate (workspace : Workspace) (path : String) : Except IoFault Location :=
  if Path.isOverlong path then .error .nameTooLong
  else workspace.follow (workspace.origin path) (Path.segments path)

/-- The bytes of the file at a location. -/
def readAt (workspace : Workspace) (location : Location) : Except IoFault (List UInt8) :=
  match workspace.entry? location with
  | none => .error .notFound
  | some .folder => .error .isDirectory
  | some (.file content) => .ok content

/-- The bytes of the file that a path leads to. -/
def read (workspace : Workspace) (path : String) : Except IoFault (List UInt8) := do
  let location ← workspace.locate path
  workspace.readAt location

theorem read_eq_of_locate {workspace : Workspace} {path : String} {location : Location}
    (h : workspace.locate path = .ok location) :
    workspace.read path = workspace.readAt location := by
  simp [read, h, bind, Except.bind]

/-- Where a path names a file to be written: inside an existing folder, by a proper name with
nothing behind it. -/
def target (workspace : Workspace) (path : String) : Except IoFault Location :=
  let segments := Path.segments path
  if Path.isOverlong path then .error .nameTooLong
  else
    match segments.reverse.dropWhile (· == "") with
    | [] => .error .isDirectory
    | name :: parents => do
      let folder ← workspace.follow (workspace.origin path) (parents.reverse ++ ["."])
      if name = "." ∨ name = ".." ∨ segments.getLast? = some "" then .error .isDirectory
      else if Path.isOverlongName name then .error .nameTooLong
      else .ok (folder ++ [name])

/-- The workspace with a file created or replaced at a location. -/
def put (workspace : Workspace) (location : Location) (content : List UInt8) : Workspace :=
  { workspace with files := workspace.files.insert location content }

/-- The workspace with the file that a path names created or replaced. -/
def write (workspace : Workspace) (path : String) (content : List UInt8) :
    Except IoFault Workspace := do
  let location ← workspace.target path
  match workspace.entry? location with
  | some .folder => .error .isDirectory
  | _ => .ok (workspace.put location content)

/-- Writing a file changes the file at one location and no other. -/
theorem files_put (workspace : Workspace) (location other : Location) (content : List UInt8) :
    (workspace.put location content).files.get? other =
      if other = location then some content else workspace.files.get? other :=
  Bindings.get?_insert ..

/-- The location of a file relative to the current folder, if it stands below it. -/
def relative? (workspace : Workspace) (location : Location) : Option Location :=
  if workspace.current.isPrefixOf location then
    some (location.drop workspace.current.length)
  else none

/-- The files below the current folder that are new or have other bytes than before, by their
relative locations. -/
def changes (before after : Workspace) : List (Location × List UInt8) :=
  after.files.entries.filterMap fun entry =>
    if before.files.get? entry.1 = some entry.2 then none
    else (before.relative? entry.1).map (·, entry.2)

end Workspace

end PureContracts
