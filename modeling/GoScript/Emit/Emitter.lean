import GoScript.Emit.Expression
import GoScript.Emit.Writer

/-!
# The emitter

* `Options` — how the emitted text is laid out and ended
* `Emitter` — the sink or other writer, the scopes and the level of indentation
* `EmitTo`, `EmitM` — an emission that succeeds or stops with an error; either way what it wrote stays written
* `putLine`, `declare`, `indented` — the steps that emission is made of
-/

namespace GoScript

/-- One level of indentation, and whether `main` is called at the end of a program that has one. -/
structure Options where
  indent : String := "\t"
  callMain : Bool := false

/-- Where an emission stands: what it writes to, which names it sees and how deep in blocks it is. -/
structure Emitter (ω : Type := Sink) where
  sink : ω
  scopes : ScopeTree
  level : Nat
  options : Options

/-- The scopes in which a program starts: the global one with the builtins. -/
def ScopeTree.initial : ScopeTree :=
  Builtin.table.foldl (fun tree builtin => tree.declareGlobal builtin.binding) .empty

namespace Emitter

variable {ω : Type}

/-- The start of an emission to a writer. -/
def ofWriter (writer : ω) (options : Options) : Emitter ω :=
  ⟨writer, .initial, 0, options⟩

/-- The start of an emission into a sink. -/
def ofSink (sink : Sink) (options : Options) : Emitter :=
  ofWriter sink options

/-- The emitter in a new scope, one level deeper. -/
def enter (emitter : Emitter ω) : Emitter ω :=
  { emitter with scopes := emitter.scopes.enter, level := emitter.level + 1 }

/-- The emitter back in the scope around the current one, one level less deep. -/
def leave (emitter : Emitter ω) : Emitter ω :=
  { emitter with scopes := emitter.scopes.leave, level := emitter.level - 1 }

end Emitter

/-- An emission to a writer: it changes the emitter, and may stop with an error. -/
abbrev EmitTo (ω : Type) := EStateM Error (Emitter ω)

/-- An emission into a sink. -/
abbrev EmitM := EmitTo Sink

namespace EmitM

variable {ω : Type}

/-- A step of the writer alone. -/
def writing (step : EStateM Error ω Unit) : EmitTo ω Unit := fun emitter =>
  match step emitter.sink with
  | .ok value sink => .ok value { emitter with sink := sink }
  | .error error sink => .error error { emitter with sink := sink }

/-- Writes one line at the current level of indentation, however wide that is. -/
def putLine [Writer ω] (line : String) : EmitTo ω Unit := fun emitter =>
  writing (Writer.write (String.join (List.replicate emitter.level emitter.options.indent) ++ line ++ "\n")) emitter

/-- Asks the writer to pass on what it holds. -/
def flush [Writer ω] : EmitTo ω Unit :=
  writing Writer.flush

/-- Moves one level of indentation deeper. -/
def deeper : EmitTo ω Unit :=
  modify fun emitter => { emitter with level := emitter.level + 1 }

/-- Moves one level of indentation back, if there is any. -/
def shallower : EmitTo ω Unit :=
  modify fun emitter => { emitter with level := emitter.level - 1 }

/-- Enters a new scope. -/
def enterScope : EmitTo ω Unit :=
  modify fun emitter => { emitter with scopes := emitter.scopes.enter }

/-- Leaves the current scope. -/
def leaveScope : EmitTo ω Unit :=
  modify fun emitter => { emitter with scopes := emitter.scopes.leave }

/-- Binds a name in the current scope. -/
def declare (binding : Binding) : EmitTo ω Unit :=
  modify fun emitter => { emitter with scopes := emitter.scopes.declare binding }

/-- Binds a name in the global scope. -/
def declareGlobal (binding : Binding) : EmitTo ω Unit :=
  modify fun emitter => { emitter with scopes := emitter.scopes.declareGlobal binding }

/-- The innermost binding of a name. -/
def lookup (name : String) : EmitTo ω (Option Binding) :=
  return (← get).scopes.lookup name

/-- Yields the value of something that writes nothing, or stops with its error. -/
def check {α : Type} : Except Error α → EmitTo ω α
  | .ok value => pure value
  | .error error => throw error

/-- Emits something one level deeper and in a scope of its own, which is left again even after an error. -/
def indented (body : EmitTo ω Unit) : EmitTo ω Unit := fun emitter =>
  match body emitter.enter with
  | .ok value emitter => .ok value emitter.leave
  | .error error emitter => .error error emitter.leave

end EmitM

end GoScript
