import GoScript.Text.Bytes

/-!
# Files

The files and directories around a working directory, as a value.  Above the working directory there are directories
up to the root, but their names are not known.

* `FileError` — why a file cannot be read or written, in the words of the operating system
* `Place` — where something stands, by the names on the way to it
* `Files` — a tree of files
* `Files.follow`, `Files.locate` — what a path leads to
* `Files.read` — the contents of a file
* `Files.openAt`, `Files.extend` — the tree after a file has been opened for writing, and after it has been written to
-/

namespace GoScript.CommandLine

/-- Why a file cannot be read or written. -/
inductive FileError where
  | notFound
  | notDirectory
  | isDirectory
  | nameTooLong
deriving DecidableEq

/-- The words of the operating system for a failure. -/
def FileError.message : FileError → String
  | notFound => "No such file or directory (os error 2)"
  | notDirectory => "Not a directory (os error 20)"
  | isDirectory => "Is a directory (os error 21)"
  | nameTooLong => "File name too long (os error 36)"

/-- The number of bytes that a path may have. -/
def maxPathSize : Nat := 4095

/-- The number of bytes that a name on a path may have. -/
def maxNameSize : Nat := 255

/-- The parts of a path between its slashes. -/
def pathSteps (path : String) : List String :=
  (path.toList.foldr
    (fun c steps =>
      if c = '/' then [] :: steps
      else match steps with
        | [] => [[c]]
        | step :: rest => (c :: step) :: rest)
    [[]]).map String.ofList

/-- A directory that is always there: the root, or the one some levels above the working directory, which is itself
at level zero. -/
inductive Base where
  | ancestor (levels : Nat)
  | root
deriving DecidableEq

/-- Where something stands: below a directory that is always there, by the names on the way. -/
structure Place where
  base : Base
  names : List String
deriving DecidableEq

namespace Place

/-- The place of something in a directory. -/
def child (place : Place) (name : String) : Place :=
  { place with names := place.names ++ [name] }

/-- The directory around a place.  The root has none but itself. -/
def parent (place : Place) : Place :=
  if place.names.isEmpty then
    match place.base with
    | .ancestor levels => ⟨.ancestor (levels + 1), []⟩
    | .root => place
  else { place with names := place.names.dropLast }

/-- Where a path starts: at the root if it begins with a slash, else at the working directory. -/
def start (path : String) : Place :=
  if path.toList.head? == some '/' then ⟨.root, []⟩ else ⟨.ancestor 0, []⟩

/-- The place after one step of a path.  Nothing between two slashes and a single dot lead nowhere. -/
def step (place : Place) (step : String) : Place :=
  if step = "" ∨ step = "." then place
  else if step = ".." then place.parent
  else place.child step

/-- The place that a path leads to if all its steps can be taken. -/
def ofPath (path : String) : Place :=
  (pathSteps path).foldl step (start path)

end Place

/-- What can stand at a place. -/
inductive Entry where
  | file (contents : ByteArray)
  | directory

/-- The files and directories around a working directory, by their places. -/
structure Files where
  entries : List (Place × Entry)

/-- What a path leads to: a directory on the way, or a name in one, which has to be that of a directory if a slash
follows it. -/
inductive Target where
  | directory (place : Place)
  | name (directory : Place) (name : String) (slash : Bool)

namespace Files

/-- What stands at a place.  A place with something below it is a directory. -/
def entry? (files : Files) (place : Place) : Option Entry :=
  match files.entries.find? (·.1 == place) with
  | some (_, entry) => some entry
  | none =>
    if place.names.isEmpty ||
        files.entries.any (fun (other, _) => place.base == other.base && place.names.isPrefixOf other.names) then
      some .directory
    else none

/-- The tree with another entry at a place. -/
def insert (files : Files) (place : Place) (entry : Entry) : Files :=
  ⟨(place, entry) :: files.entries.filter (·.1 != place)⟩

/-- What stands under a name in a directory. -/
def lookup? (files : Files) (directory : Place) (name : String) : Except FileError (Option Entry) :=
  if maxNameSize < name.utf8ByteSize then .error .nameTooLong else .ok (files.entry? (directory.child name))

/-- What the steps of a path lead to from a directory.  All names but the last have to be those of directories. -/
def follow (files : Files) : (place : Place) → (steps : List String) → Except FileError Target
  | place, [] => .ok (.directory place)
  | place, step :: rest =>
    if step = "" ∨ step = "." ∨ step = ".." then follow files (place.step step) rest
    else if rest.all (·.isEmpty) then .ok (.name place step !rest.isEmpty)
    else
      match files.lookup? place step with
      | .ok (some .directory) => follow files (place.step step) rest
      | .ok (some (.file _)) => .error .notDirectory
      | .ok none => .error .notFound
      | .error error => .error error

/-- What a path leads to. -/
def locate (files : Files) (path : String) : Except FileError Target :=
  if path.isEmpty then .error .notFound
  else if maxPathSize < path.utf8ByteSize then .error .nameTooLong
  else files.follow (Place.start path) (pathSteps path)

/-- The contents of the file at a path. -/
def read (files : Files) (path : String) : Except FileError ByteArray := do
  match ← files.locate path with
  | .directory _ => throw .isDirectory
  | .name directory name slash =>
    match ← files.lookup? directory name with
    | some (.file contents) => if slash then throw .notDirectory else return contents
    | some .directory => throw .isDirectory
    | none => throw .notFound

/-- The place of the file at a path and the tree after it has been opened for writing.  A file that does not exist is
made, and one that does is emptied unless what is written is to be appended. -/
def openAt (files : Files) (path : String) (append : Bool) : Except FileError (Place × Files) := do
  match ← files.locate path with
  | .directory _ | .name _ _ true => throw .isDirectory
  | .name directory name false =>
    let place := directory.child name
    match ← files.lookup? directory name with
    | some (.file contents) =>
      return (place, files.insert place (.file (if append then contents else ByteArray.empty)))
    | some .directory => throw .isDirectory
    | none => return (place, files.insert place (.file ByteArray.empty))

/-- The tree after bytes have been written at the end of the file at a place. -/
def extend (files : Files) (place : Place) (added : ByteArray) : Files :=
  match files.entry? place with
  | some (.file contents) => files.insert place (.file (contents ++ added))
  | _ => files

end Files

end GoScript.CommandLine
