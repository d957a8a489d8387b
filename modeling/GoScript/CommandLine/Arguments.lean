import GoScript.Numeral

/-!
# Arguments of the command line

Arguments are read from left to right.  The first one that cannot be right rejects them all, and a request for the
version or for help is answered as soon as it is met; what is missing shows only at the end.

* `Argument`, `Argument.ofString` — what a single argument is by its looks
* `Invocation` — the settings of a run, none of which may be given twice
* `Request`, `Request.ofArguments` — what the arguments ask for
-/

namespace GoScript.CommandLine

/-- A setting that takes a value. -/
inductive Setting where
  | output
  | logFile
  | indent
deriving DecidableEq

/-- A setting that is given or not. -/
inductive Switch where
  | append
  | callMain
deriving DecidableEq

/-- What an argument is by its looks.  A setting may have its value attached. -/
inductive Argument where
  | endOfOptions
  | positional
  | setting (setting : Setting) (attached : Option String)
  | switch (switch : Switch)
  | version
  | help
  | unknown
deriving DecidableEq

namespace Argument

/-- An option that starts with two dashes.  Only a setting can have a value attached with `=`. -/
def ofLong (option : List Char) : Argument :=
  let name := option.takeWhile (· != '=')
  let attached := if option.contains '=' then some (String.ofList (option.drop (name.length + 1))) else none
  match String.ofList name, attached with
  | "output", attached => setting .output attached
  | "log-file", attached => setting .logFile attached
  | "indent", attached => setting .indent attached
  | "append", none => switch .append
  | "call-main", none => switch .callMain
  | "version", none => version
  | "help", none => help
  | _, _ => unknown

/-- An option that starts with one dash.  The value of a setting may follow its letter directly or after `=`. -/
def ofShort : List Char → Argument
  | ['o'] => setting .output none
  | 'o' :: '=' :: value => setting .output (some (String.ofList value))
  | 'o' :: value => setting .output (some (String.ofList value))
  | 'V' :: _ => version
  | 'h' :: _ => help
  | _ => unknown

/-- What an argument is by its looks.  A single dash is an ordinary value. -/
def ofString (argument : String) : Argument :=
  match argument.toList with
  | ['-', '-'] => endOfOptions
  | '-' :: '-' :: option => ofLong option
  | ['-'] => positional
  | '-' :: option => ofShort option
  | _ => positional

end Argument

/-- A number as it is written for a setting: decimal digits, perhaps after a plus sign, within the limit
of sizes. -/
def naturalNumber? (text : String) : Option Nat :=
  let digits := match text.toList with
    | '+' :: digits => digits
    | digits => digits
  if digits.isEmpty || !digits.all Char.isDigit then none
  else Numeral.below? Numeral.sizeLimit (String.ofList digits)

/-- The settings of a run, as far as they have been read. -/
structure Invocation where
  input : Option String := none
  output : Option String := none
  append : Bool := false
  callMain : Bool := false
  indent : Option Nat := none
  logFile : Option String := none
deriving DecidableEq

namespace Invocation

/-- The invocation with its input file, which cannot be given twice and has a name. -/
def setInput? (invocation : Invocation) (path : String) : Option Invocation :=
  if invocation.input.isSome || path.isEmpty then none else some { invocation with input := some path }

/-- The invocation with the value of a setting, if that is new and can be read. -/
def set? (invocation : Invocation) (setting : Setting) (value : String) : Option Invocation :=
  match setting with
  | .output =>
    if invocation.output.isSome || value.isEmpty then none else some { invocation with output := some value }
  | .logFile =>
    if invocation.logFile.isSome || value.isEmpty then none else some { invocation with logFile := some value }
  | .indent =>
    if invocation.indent.isSome then none
    else (naturalNumber? value).map fun width => { invocation with indent := some width }

/-- The invocation with a switch turned on, if it was off. -/
def turnOn? (invocation : Invocation) : Switch → Option Invocation
  | .append => if invocation.append then none else some { invocation with append := true }
  | .callMain => if invocation.callMain then none else some { invocation with callMain := true }

end Invocation

/-- What the arguments ask for. -/
inductive Request where
  | run (input : String) (invocation : Invocation)
  | version
  | help
  | invalid
deriving DecidableEq

namespace Request

/-- The request of a complete invocation: it has an input, and appends only to an output. -/
def ofInvocation (invocation : Invocation) : Request :=
  match invocation.input with
  | some input => if invocation.append && invocation.output.isNone then invalid else run input invocation
  | none => invalid

/-- The request of some arguments after others have set up `invocation`. -/
def ofArgumentsFrom (invocation : Invocation) : List String → Request
  | [] => ofInvocation invocation
  | argument :: rest =>
    match Argument.ofString argument with
    | .endOfOptions =>
      match rest.foldlM Invocation.setInput? invocation with
      | some invocation => ofInvocation invocation
      | none => invalid
    | .positional =>
      match invocation.setInput? argument with
      | some invocation => ofArgumentsFrom invocation rest
      | none => invalid
    | .switch switch =>
      match invocation.turnOn? switch with
      | some invocation => ofArgumentsFrom invocation rest
      | none => invalid
    | .setting setting (some value) =>
      match invocation.set? setting value with
      | some invocation => ofArgumentsFrom invocation rest
      | none => invalid
    | .setting setting none =>
      match rest with
      | [] => invalid
      | value :: rest =>
        if Argument.ofString value = .positional then
          match invocation.set? setting value with
          | some invocation => ofArgumentsFrom invocation rest
          | none => invalid
        else invalid
    | .version => version
    | .help => help
    | .unknown => invalid

/-- What some arguments ask for. -/
def ofArguments (arguments : List String) : Request :=
  ofArgumentsFrom {} arguments

end Request

end GoScript.CommandLine
