import GoScript.CommandLine.Files

/-!
# Hosts

A run needs little of the world around it, and that little is a `Host`.  The same run then works on real files and on
a tree of files that is a value.

* `Host` — what a run asks of the world
* `World`, `World.host` — a world that is a value
-/

namespace GoScript.CommandLine

/-- What a run asks of the world, where `Handle` stands for an open file.  A failure comes with the words of the
operating system. -/
structure Host (m : Type → Type) (Handle : Type) where
  /-- Opens a file for writing, behind its contents or in their place. -/
  openFile : (path : String) → (append : Bool) → m (Except String Handle)
  /-- Writes bytes to an open file. -/
  writeTo : (file : Handle) → ByteArray → m (Except String Unit)
  /-- The bytes of a file. -/
  read : (path : String) → m (Except String ByteArray)
  /-- Writes bytes to the standard output. -/
  printOut : ByteArray → m Unit
  /-- Writes a text to the standard error output. -/
  printError : String → m Unit

/-- A tree of files and what was written to the two standard outputs. -/
structure World where
  files : Files
  out : ByteArray
  error : String

namespace World

/-- Opens a file of a world. -/
def openFile (path : String) (append : Bool) : StateM World (Except String Place) := do
  let world ← get
  match world.files.openAt path append with
  | .ok (place, files) =>
    set { world with files := files }
    return .ok place
  | .error error => return .error error.message

/-- Writes to an open file of a world.  Nobody else does, so what is written comes at its end. -/
def writeTo (place : Place) (added : ByteArray) : StateM World (Except String Unit) := do
  modify fun world => { world with files := world.files.extend place added }
  return .ok ()

/-- The host that is a world. -/
def host : Host (StateM World) Place where
  openFile := openFile
  writeTo := writeTo
  read path := return (← get).files.read path |>.mapError FileError.message
  printOut bytes := modify fun world => { world with out := world.out ++ bytes }
  printError text := modify fun world => { world with error := world.error ++ text }

end World

end GoScript.CommandLine
