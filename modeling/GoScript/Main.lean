import GoScript.CommandLine.Run

/-!
# The program

The run of the command line on real files.
-/

namespace GoScript.CommandLine

/-- The words of the operating system for a failure. -/
def describeFailure : IO.Error → String
  | .noFileOrDirectory _ 2 _ => FileError.notFound.message
  | .inappropriateType _ 20 _ => FileError.notDirectory.message
  | .inappropriateType _ 21 _ => FileError.isDirectory.message
  | .invalidArgument _ 36 _ => FileError.nameTooLong.message
  | .permissionDenied _ 13 _ => "Permission denied (os error 13)"
  | error => toString error

/-- The outcome of an action on files. -/
def attempt {α : Type} (action : IO α) : IO (Except String α) := do
  match ← action.toBaseIO with
  | .ok value => return .ok value
  | .error error => return .error (describeFailure error)

/-- The real world as a host. -/
def realHost : Host IO IO.FS.Handle where
  openFile path append := attempt (IO.FS.Handle.mk path (if append then .append else .write))
  writeTo handle added := attempt do
    handle.write added
    handle.flush
  read path := attempt do
    let handle ← IO.FS.Handle.mk path .read
    handle.readBinToEnd
  printOut bytes := do
    let out ← IO.getStdout
    out.write bytes
    out.flush
  printError text := do
    let out ← IO.getStderr
    out.putStr text

end GoScript.CommandLine

/-- Runs the command line. -/
def main (arguments : List String) : IO UInt32 :=
  GoScript.CommandLine.run GoScript.CommandLine.realHost arguments
