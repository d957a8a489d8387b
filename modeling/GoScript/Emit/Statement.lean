import GoScript.Emit.Emitter

/-!
# Emitted statements

* `Node.emit` — a statement as lines of TypeScript
* `emitProgram` — a whole program
* `emitTo`, `emitInto` — a program to a writer, and into a sink
* `transcript` — what is written for a program
-/

namespace GoScript

open EmitM

variable {ω : Type} [Writer ω]

/-- A parameter in the head of a function. -/
def Parameter.target (parameter : Parameter) : String :=
  (if parameter.variadic then "..." else "") ++ parameter.name ++ ": " ++ parameter.type.target

/-- A parameter as a binding. -/
def Parameter.binding (parameter : Parameter) : Binding :=
  ⟨parameter.name, parameter.type, .parameter⟩

/-- The first line of a function. -/
def functionHead (name : String) (parameters : List Parameter) (result : GoType) : String :=
  "function " ++ name ++ "(" ++ ", ".intercalate (parameters.map Parameter.target) ++ "): " ++ result.target ++
    " \x7b"

/-- Stops if a constant is bound to something that is not known beforehand. -/
def requireConstant (declaration : Declaration) : Except Error Unit :=
  let misuse := fun message => ⟨.constantMisuse declaration.name message, declaration.span.start⟩
  match declaration.constant, declaration.value with
  | true, some (.call _ _ _) => .error (misuse "cannot be bound to a function call")
  | true, some (.index _ _ _) => .error (misuse "cannot be bound to an index expression")
  | _, _ => .ok ()

/-- The type of a declared name: the known one, else that of the value. -/
def ScopeTree.declaredType (scopes : ScopeTree) (declaration : Declaration) : Except Error GoType :=
  match declaration.type?, declaration.value with
  | some type, _ => .ok type
  | none, some value => scopes.typeOf value
  | none, none => .error ⟨.emptyDeclaration declaration.name, declaration.span.start⟩

/-- The line of a declaration whose name has type `type`. -/
def Declaration.line (declaration : Declaration) (type : GoType) : Except Error String := do
  let head := (if declaration.constant then "const " else "let ") ++ declaration.name ++ ": " ++ type.target
  match declaration.value with
  | some value => return head ++ " = " ++ (← value.target) ++ ";"
  | none => return head ++ ";"

/-- A declaration of anything but a function.  The name is bound before the line is written. -/
def emitBinding (declaration : Declaration) : EmitTo ω Unit := do
  check (requireConstant declaration)
  let type ← check ((← get).scopes.declaredType declaration)
  let line ← check (declaration.line type)
  declare ⟨declaration.name, type, if declaration.constant then .constant else .mutable⟩
  putLine line

/-- An assignment to a name, which has to be bound and not to a constant. -/
def emitAssignment (name : String) (value : Node) (position : Position) : EmitTo ω Unit := do
  match ← lookup name with
  | none => throw ⟨.undeclared name, position⟩
  | some binding =>
    if binding.isConstant then throw ⟨.assignToConstant name, position⟩
    else
      let text ← check value.target
      putLine (name ++ " = " ++ text ++ ";")

/-- A function whose body is emitted by `body`.  Its name is bound around the body, its parameters inside. -/
def emitFunction (name : String) (parameters : List Parameter) (result : GoType) (body : EmitTo ω Unit) :
    EmitTo ω Unit := do
  declare ⟨name, result, .function⟩
  putLine (functionHead name parameters result)
  indented do
    parameters.forM (declare ·.binding)
    body
  putLine "\x7d"

mutual

/-- A statement as lines of TypeScript. -/
def Node.emit : Node → EmitTo ω Unit
  | .declaration ⟨_, _, _, _, _, some members, _⟩ => Declaration.emitAll members
  | .declaration declaration => declaration.emit
  | .assignment name value span => emitAssignment name value span.start
  | .returning none _ => putLine "return;"
  | .returning (some value) _ => do
    let text ← check value.target
    putLine ("return " ++ text ++ ";")
  | .expression expression _ => do
    let text ← check expression.target
    putLine (text ++ ";")
  | .conditional condition ⟨consequence, _⟩ alternative _ => do
    let text ← check condition.target
    putLine ("if (" ++ text ++ ") \x7b")
    indented (Node.emitAll consequence)
    match alternative with
    | none => pure ()
    | some ⟨statements, _⟩ =>
      putLine "\x7d else \x7b"
      indented (Node.emitAll statements)
    putLine "\x7d"
  | .function ⟨some name, parameters, returns, ⟨body, _⟩, _⟩ =>
    emitFunction name parameters (returns.getD .void) (Node.emitAll body)
  | node => throw node.unsupported

/-- Statements one after the other. -/
def Node.emitAll : List Node → EmitTo ω Unit
  | [] => pure ()
  | node :: rest => do
    node.emit
    Node.emitAll rest

/-- A single declaration.  A function as its value is emitted under the declared name. -/
def Declaration.emit : Declaration → EmitTo ω Unit
  | ⟨name, _, _, _, some (.function ⟨_, parameters, returns, ⟨body, _⟩, _⟩), _, _⟩ =>
    emitFunction name parameters (returns.getD .void) (Node.emitAll body)
  | declaration => emitBinding declaration

/-- Declarations one after the other. -/
def Declaration.emitAll : List Declaration → EmitTo ω Unit
  | [] => pure ()
  | declaration :: rest => do
    declaration.emit
    Declaration.emitAll rest

end

/-- The name of a statement that is a function with a name. -/
def Node.functionName? : Node → Option String
  | .function f => f.name
  | _ => none

/-- The bindings of the functions that some statements define. -/
def functionBindings (body : List Node) : List Binding :=
  body.filterMap fun
    | .function f => f.name.map (⟨·, f.returnType, .function⟩)
    | _ => none

/-- A whole program.  Its functions are bound before anything is emitted, so that calls may come before them. -/
def emitProgram (program : Program) : EmitTo ω Unit := do
  (functionBindings program.body).forM declareGlobal
  Node.emitAll program.body
  if (← get).options.callMain && program.body.any (·.functionName? == some "main") then
    putLine "main();"
  flush

/-- Emits a program to a writer.  The writer that comes back has got what was written, also when there is an error. -/
def emitTo (program : Program) (writer : ω) (options : Options) : Except Error Unit × ω :=
  match emitProgram program (.ofWriter writer options) with
  | .ok _ emitter => (.ok (), emitter.sink)
  | .error error emitter => (.error error, emitter.sink)

/-- Emits a program into a sink.  The sink that comes back holds what was written, also when there is an error. -/
def emitInto (program : Program) (sink : Sink) (options : Options) : Except Error Unit × Sink :=
  emitTo program sink options

/-- The texts that are written for a program one after the other, and how its emission ends. -/
def transcript (program : Program) (options : Options) : Except Error Unit × List String :=
  let (outcome, transcript) := emitTo program (Transcript.mk #[]) options
  (outcome, transcript.texts.toList)

end GoScript
