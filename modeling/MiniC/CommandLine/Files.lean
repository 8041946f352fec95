import MiniC.CommandLine.Options
import MiniC.CommandLine.ReadFailure

/-!
# Files and paths

What a command finds when it opens an input: files and directories at their places, and a directory
where relative paths start. A path is walked name by name, and the first name that leads nowhere
decides how the reading fails: a walk goes on only from a directory, a name has a greatest length,
and the place it leads to must be taken.
-/

namespace MiniC.CommandLine

/-- The names on the way from the root to a place; the root itself is `[]`. -/
abbrev Place := List String

/-- What stands at a place. -/
inductive Entry where
  | directory
  | file (bytes : ByteArray)

/-- The files a command can open: what stands at each place, and where a relative path starts. -/
structure Files where
  entries : List (Place × Entry)
  start : Place

namespace Files

/-- The greatest number of bytes in a name. -/
def maxName : Nat := 255

/-- The greatest number of bytes in a path. -/
def maxPath : Nat := 4095

/-- What stands at a place. The root is a directory, whatever else there is. -/
def entry? (files : Files) (place : Place) : Option Entry :=
  if place = [] then some .directory else files.entries.lookup place

/-- The place a name leads to. An empty name and `.` stay, `..` leads one up, and the root is above
    itself. -/
def step (files : Files) (place : Place) (name : String) : Except ReadFailure Place :=
  match files.entry? place with
  | none => .error .notFound
  | some (.file _) => .error .notDirectory
  | some .directory =>
    if name = "" ∨ name = "." then .ok place
    else if name = ".." then .ok place.dropLast
    else if maxName < name.utf8ByteSize then .error .nameTooLong
    else if (files.entry? (place ++ [name])).isSome then .ok (place ++ [name])
    else .error .notFound

/-- The place a path leads to, from the root when it begins with a slash. -/
def locate (files : Files) (path : String) : Except ReadFailure Place :=
  (path.splitOn "/").foldlM files.step (if path.startsWith "/" then [] else files.start)

/-- The bytes of the file a path leads to. The empty path leads nowhere. -/
def read (files : Files) (path : String) : Except ReadFailure ByteArray :=
  if path = "" then .error .notFound
  else if maxPath < path.utf8ByteSize then .error .nameTooLong
  else do
    match files.entry? (← files.locate path) with
    | some (.file bytes) => .ok bytes
    | some .directory => .error .isDirectory
    | none => .error .notFound

end Files

/-- The bytes of an input, given those of the standard input. -/
def Input.bytes (input : Input) (files : Files) (standard : ByteArray) :
    Except ReadFailure ByteArray :=
  match input with
  | .standard => .ok standard
  | .file path => files.read path

end MiniC.CommandLine
