import GoScript.CommandLine.Output
import GoScript.Error.Report
import GoScript.TypeScript

/-!
# Runs of the command line

* `Invocation.options?` — the options of emission that an invocation asks for
* `perform` — a run on a file, with the settings of an invocation; it yields the exit code
* `run` — a run with some arguments
-/

namespace GoScript.CommandLine

/-- The name and the version of the program. -/
def versionText : String :=
  "go2ts 0.1.0\n"

/-- How the program is called. -/
def usageText : String :=
  "Usage: go2ts [OPTIONS] <INPUT>\n"

/-- What the program does and how it is called. -/
def helpText : String :=
  "Translate a subset of Go into TypeScript\n\n" ++ usageText ++ "\n" ++
    "Arguments:\n" ++
    "  <INPUT>  Go source file to translate\n\n" ++
    "Options:\n" ++
    "  -o, --output <OUTPUT>  Write the TypeScript here instead of stdout\n" ++
    "      --append           Append to the output file instead of truncating it\n" ++
    "      --call-main        Emit `main();` after the program when it defines `main`\n" ++
    "      --indent <N>       Indent with this many spaces instead of a tab\n" ++
    "      --log-file <PATH>  Append diagnostic log lines to this file instead of stderr\n" ++
    "  -h, --help             Print help\n" ++
    "  -V, --version          Print version\n"

/-- The greatest number of bytes that a text can have. -/
def maxTextSize : Nat := 0x7FFFFFFFFFFFFFFF

/-- The indentation of some width, if there can be a text like that. -/
def spaces? (width : Nat) : Option String :=
  if width ≤ maxTextSize then some (String.ofList (List.replicate width ' ')) else none

/-- The options of emission that an invocation asks for, unless it asks for an indentation that cannot be. -/
def Invocation.options? (invocation : Invocation) : Option Options := do
  let indent ← match invocation.indent with
    | some width => spaces? width
    | none => some "\t"
  return ⟨indent, invocation.callMain⟩

variable {m : Type → Type} [Monad m] {Handle : Type}

/-- Ends a run with an error in `source`. -/
def fail (host : Host m Handle) (error : Error) (source file : String) : m UInt32 := do
  host.printError (error.report source file)
  return 1

/-- Breaks a run off. -/
def breakDown (host : Host m Handle) : m UInt32 := do
  host.printError "capacity overflow\n"
  return 101

/-- Opens the output and emits a program to it. -/
def emit (host : Host m Handle) (program : Program) (invocation : Invocation) (options : Options)
    (source file : String) : m UInt32 := do
  match ← Output.ofInvocation host invocation with
  | .error message => fail host (.io message) source file
  | .ok output =>
    match ← output.emit host program options with
    | .error error => fail host error source file
    | .ok _ => return 0

/-- Reads, cleans up, parses and emits a file.  The output is not touched before the program has been parsed. -/
def transpileFile (host : Host m Handle) (file : String) (invocation : Invocation) : m UInt32 := do
  let contents ← host.read file
  let source? := contents.bind fun bytes =>
    match String.fromUTF8? bytes with
    | some source => .ok source
    | none => .error "stream did not contain valid UTF-8"
  match source? with
  | .error message =>
    host.printError ("Error: " ++ (Error.io message).cause.message ++ " (" ++ file ++ ")\n")
    return 1
  | .ok source =>
    match invocation.options? with
    | none => breakDown host
    | some options =>
      let source := Cleanup.cleanup source
      match parse source file with
      | .error error => fail host error source file
      | .ok program => emit host program invocation options source file

/-- Opens the file for the log, if there is one. -/
def openLog (host : Host m Handle) (invocation : Invocation) : m (Except String Unit) := do
  match invocation.logFile with
  | some path => return (← host.openFile path true).map fun _ => ()
  | none => return .ok ()

/-- Runs the program on a file, with the settings of an invocation, and yields its exit code. -/
def perform (host : Host m Handle) (file : String) (invocation : Invocation) : m UInt32 := do
  match ← openLog host invocation with
  | .error message =>
    host.printError ("Error: " ++ (Error.io message).cause.message ++ "\n")
    return 1
  | .ok _ => transpileFile host file invocation

/-- Runs the program with some arguments and yields its exit code. -/
def run (host : Host m Handle) (arguments : List String) : m UInt32 := do
  match Request.ofArguments arguments with
  | .invalid =>
    host.printError usageText
    return 2
  | .version =>
    host.printOut versionText.toUTF8
    return 0
  | .help =>
    host.printOut helpText.toUTF8
    return 0
  | .run input invocation => perform host input invocation

end GoScript.CommandLine
