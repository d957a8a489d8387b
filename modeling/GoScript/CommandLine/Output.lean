import GoScript.CommandLine.Arguments
import GoScript.CommandLine.Host
import GoScript.Emit.Statement

/-!
# Outputs

The emitted text goes to the standard output as it comes, or to a file by way of a buffer.  What is in the buffer gets
to the file when there is no more room, when the emission has come to its end, and in any case when the output is given
up.

* `Buffer` — an open file and the bytes that have not been passed on to it
* `Output` — where the emitted text goes
* `Output.emit` — the emission of a program to an output
-/

namespace GoScript.CommandLine

variable {m : Type → Type} [Monad m] {Handle : Type}

/-- An open file and the bytes that have not been passed on to it yet. -/
structure Buffer (Handle : Type) where
  file : Handle
  pending : ByteArray

namespace Buffer

/-- The number of bytes that a buffer can hold. -/
def capacity : Nat := 8192

/-- Passes on to the file what is pending.  It stays pending if that fails. -/
def flush (host : Host m Handle) (buffer : Buffer Handle) : m (Except String Unit × Buffer Handle) := do
  if buffer.pending.isEmpty then return (.ok (), buffer)
  match ← host.writeTo buffer.file buffer.pending with
  | .ok _ => return (.ok (), { buffer with pending := ByteArray.empty })
  | .error message => return (.error message, buffer)

/-- Makes room for `size` more bytes, if there is too little. -/
def makeRoom (host : Host m Handle) (size : Nat) (buffer : Buffer Handle) : m (Except String Unit × Buffer Handle) :=
  if capacity < buffer.pending.size + size then buffer.flush host else return (.ok (), buffer)

/-- Takes a text.  One that would fill the whole buffer goes to the file directly. -/
def write (host : Host m Handle) (text : String) (buffer : Buffer Handle) :
    m (Except String Unit × Buffer Handle) := do
  let bytes := text.toUTF8
  match ← buffer.makeRoom host bytes.size with
  | (.error message, buffer) => return (.error message, buffer)
  | (.ok _, buffer) =>
    if capacity ≤ bytes.size then return (← host.writeTo buffer.file bytes, buffer)
    else return (.ok (), { buffer with pending := buffer.pending ++ bytes })

end Buffer

/-- Where the emitted text goes: to the standard output, or to a file. -/
inductive Output (Handle : Type) where
  | standard
  | file (buffer : Buffer Handle)

namespace Output

/-- Opens the output that an invocation asks for. -/
def ofInvocation (host : Host m Handle) (invocation : Invocation) : m (Except String (Output Handle)) := do
  match invocation.output with
  | some path => return (← host.openFile path invocation.append).map fun handle => file ⟨handle, ByteArray.empty⟩
  | none => return .ok standard

/-- Takes a text. -/
def write (host : Host m Handle) (text : String) : Output Handle → m (Except String Unit × Output Handle)
  | standard => do
    host.printOut text.toUTF8
    return (.ok (), standard)
  | file buffer => do
    let (outcome, buffer) ← buffer.write host text
    return (outcome, file buffer)

/-- Takes texts one after the other, up to the first one that fails. -/
def writeAll (host : Host m Handle) : List String → Output Handle → m (Except String Unit × Output Handle)
  | [], output => return (.ok (), output)
  | text :: rest, output => do
    match ← output.write host text with
    | (.ok _, output) => writeAll host rest output
    | (.error message, output) => return (.error message, output)

/-- Passes on what is in the buffer. -/
def flush (host : Host m Handle) : Output Handle → m (Except String Unit × Output Handle)
  | standard => return (.ok (), standard)
  | file buffer => do
    let (outcome, buffer) ← buffer.flush host
    return (outcome, file buffer)

/-- Emits a program to an output and gives the output up.  An emission does nothing but write, so its texts can be
known before the first of them is written. -/
def emit (host : Host m Handle) (program : Program) (options : Options) (output : Output Handle) :
    m (Except Error Unit) := do
  let (outcome, texts) := transcript program options
  let (written, output) ← output.writeAll host texts
  let (result, output) ← match written, outcome with
    | .error message, _ => pure (.error (.io message), output)
    | .ok _, .error error => pure (.error error, output)
    | .ok _, .ok _ => do
      let (flushed, output) ← output.flush host
      pure (flushed.mapError Error.io, output)
  -- what is still in the buffer gets to the file now, and nobody asks whether that has failed
  let _ ← output.flush host
  return result

end Output

end GoScript.CommandLine
