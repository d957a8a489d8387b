import GoScript.Emit.Statement
import GoScript.Proofs.Emissions

/-!
# Lexical scoping

The emitter keeps all scopes in one tree and moves around in it.  What it does is plain lexical scoping: this file has
an emitter that knows no tree, only the list of the blocks around the place that it has come to, passes a longer list
to what it emits inside a block, and goes on with its own list after it.  Both write the same text and end alike.

* `Lexical.Frames`, `Lexical.lookup` — the blocks around a place, and the binding of a name there
* `Lexical.emit`, `Lexical.emitInto` — emission with a list of frames as an argument
* `Simulates` — the emitter does what an emission with frames does
* `emission_lexical` — so it is for every program, and what it sees after some statements is what they bind themselves
-/

namespace GoScript

namespace Lexical

/-! ### Frames -/

/-- The bindings of a block so far, the latest first. -/
abbrev Frame := List Binding

/-- The blocks around a place, the innermost first. -/
abbrev Frames := List Frame

/-- The latest binding of a name in a block. -/
def latest? (frame : Frame) (name : String) : Option Binding :=
  frame.find? (·.name == name)

/-- The latest binding of a name in the innermost block that has one. -/
def lookup (frames : Frames) (name : String) : Option Binding :=
  frames.findSome? (latest? · name)

/-- The blocks after one more binding in the innermost of them. -/
def bind (binding : Binding) : Frames → Frames
  | [] => [[binding]]
  | frame :: outer => (binding :: frame) :: outer

/-! ### Types -/

/-- The type of a name, for a node that mentions it at `position`. -/
def typeOfName (frames : Frames) (name : String) (position : Position) : Except Error GoType :=
  match lookup frames name with
  | some binding => .ok binding.type
  | none => .error ⟨.undeclared name, position⟩

/-- The type of an expression. -/
def typeOf (frames : Frames) (node : Node) : Except Error GoType :=
  match node.ownType? with
  | some type => .ok type
  | none =>
    match node with
    | .identifier name span => typeOfName frames name span.start
    | .call callee _ span => typeOfName frames callee span.start
    | .binary left _ _ _ => typeOf frames left
    | .unary _ operand _ => typeOf frames operand
    | .array _ _ (some (first :: _)) _ => do
      return .array (← typeOf frames first)
    | .index collection _ span => do
      let type ← typeOf frames collection
      match type.element? with
      | some element => return element
      | none => throw ⟨.notIndexable type.name, span.start⟩
    | node => .error node.unsupported

/-- The type of a declared name. -/
def declaredType (frames : Frames) (declaration : Declaration) : Except Error GoType :=
  match declaration.type?, declaration.value with
  | some type, _ => .ok type
  | none, some value => typeOf frames value
  | none, none => .error ⟨.emptyDeclaration declaration.name, declaration.span.start⟩

/-! ### Emission -/

/-- An emission that changes nothing but the sink. -/
abbrev TextM := EStateM Error Sink

/-- Writes one line at a level of indentation. -/
def putLine (options : Options) (level : Nat) (line : String) : TextM Unit := fun sink =>
  let text := String.join (List.replicate level options.indent) ++ line ++ "\n"
  if sink.accepts text then .ok () (sink.write text) else .error (.io "sink full") (sink.write text)

/-- Asks the sink to pass on what it holds. -/
def flush : TextM Unit := fun sink =>
  if sink.refusesFlush then .error (.io "flush refused") sink else .ok () sink

/-- Yields the value of something that writes nothing, or stops with its error. -/
def check {α : Type} : Except Error α → TextM α
  | .ok value => pure value
  | .error error => throw error

/-- A declaration of anything but a function. -/
def emitBinding (options : Options) (level : Nat) (frames : Frames) (declaration : Declaration) : TextM Frames := do
  check (requireConstant declaration)
  let type ← check (declaredType frames declaration)
  let line ← check (declaration.line type)
  putLine options level line
  return bind ⟨declaration.name, type, if declaration.constant then .constant else .mutable⟩ frames

/-- An assignment to a name, which has to be bound and not to a constant. -/
def emitAssignment (options : Options) (level : Nat) (frames : Frames) (name : String) (value : Node)
    (position : Position) : TextM Frames := do
  match lookup frames name with
  | none => throw ⟨.undeclared name, position⟩
  | some binding =>
    if binding.isConstant then throw ⟨.assignToConstant name, position⟩
    else
      let text ← check value.target
      putLine options level (name ++ " = " ++ text ++ ";")
      return frames

/-- A function whose body is emitted by `body`.  The body sees the parameters in a block of their own, and the name of
the function around it; what it binds is forgotten. -/
def emitFunction (options : Options) (level : Nat) (frames : Frames) (name : String) (parameters : List Parameter)
    (result : GoType) (body : Nat → Frames → TextM Frames) : TextM Frames := do
  let outside := bind ⟨name, result, .function⟩ frames
  putLine options level (functionHead name parameters result)
  let _ ← body (level + 1) ((parameters.map Parameter.binding).reverse :: outside)
  putLine options level "\x7d"
  return outside

mutual

/-- A statement as lines of TypeScript, and the blocks around the statement after it. -/
def emit (options : Options) : (level : Nat) → (frames : Frames) → Node → TextM Frames
  | level, frames, .declaration ⟨_, _, _, _, _, some members, _⟩ => emitDeclarations options level frames members
  | level, frames, .declaration declaration => emitDeclaration options level frames declaration
  | level, frames, .assignment name value span => emitAssignment options level frames name value span.start
  | level, frames, .returning none _ => do
    putLine options level "return;"
    return frames
  | level, frames, .returning (some value) _ => do
    let text ← check value.target
    putLine options level ("return " ++ text ++ ";")
    return frames
  | level, frames, .expression expression _ => do
    let text ← check expression.target
    putLine options level (text ++ ";")
    return frames
  | level, frames, .conditional condition ⟨consequence, _⟩ alternative _ => do
    let text ← check condition.target
    putLine options level ("if (" ++ text ++ ") \x7b")
    let _ ← emitAll options (level + 1) ([] :: frames) consequence
    match alternative with
    | none => pure ()
    | some ⟨statements, _⟩ =>
      putLine options level "\x7d else \x7b"
      let _ ← emitAll options (level + 1) ([] :: frames) statements
    putLine options level "\x7d"
    return frames
  | level, frames, .function ⟨some name, parameters, returns, ⟨body, _⟩, _⟩ =>
    emitFunction options level frames name parameters (returns.getD .void) fun level frames =>
      emitAll options level frames body
  | _, _, node => throw node.unsupported

/-- Statements one after the other, each in the blocks that the one before it leaves. -/
def emitAll (options : Options) : (level : Nat) → (frames : Frames) → List Node → TextM Frames
  | _, frames, [] => pure frames
  | level, frames, node :: rest => do
    emitAll options level (← emit options level frames node) rest

/-- A single declaration. -/
def emitDeclaration (options : Options) : (level : Nat) → (frames : Frames) → Declaration → TextM Frames
  | level, frames, ⟨name, _, _, _, some (.function ⟨_, parameters, returns, ⟨body, _⟩, _⟩), _, _⟩ =>
    emitFunction options level frames name parameters (returns.getD .void) fun level frames =>
      emitAll options level frames body
  | level, frames, declaration => emitBinding options level frames declaration

/-- Declarations one after the other. -/
def emitDeclarations (options : Options) : (level : Nat) → (frames : Frames) → List Declaration → TextM Frames
  | _, frames, [] => pure frames
  | level, frames, declaration :: rest => do
    emitDeclarations options level (← emitDeclaration options level frames declaration) rest

end

/-- The names that are there before anything is bound. -/
def builtinFrame : Frame :=
  [⟨"len", .int, .builtin⟩, ⟨"fmt.Print", .void, .builtin⟩, ⟨"fmt.Println", .void, .builtin⟩]

/-- A block after each function with a name among some statements has been bound in it, to what it returns. -/
def withFunctions : Frame → List Node → Frame
  | frame, [] => frame
  | frame, .function ⟨some name, _, returns, _, _⟩ :: rest =>
    withFunctions (⟨name, returns.getD .void, .function⟩ :: frame) rest
  | frame, _ :: rest => withFunctions frame rest

/-- The block that a program starts in: the builtins, overridden by all functions of the program. -/
def globalFrame (program : Program) : Frame :=
  withFunctions builtinFrame program.body

/-- What follows the statements of a program. -/
def ending (options : Options) (level : Nat) (frames : Frames) (program : Program) : TextM Frames := do
  if options.callMain && program.body.any (·.functionName? == some "main") then
    putLine options level "main();"
  flush
  return frames

/-- A whole program, and the blocks that are open at its end. -/
def emitProgram (options : Options) (program : Program) : TextM Frames := do
  ending options 0 (← emitAll options 0 [globalFrame program] program.body) program

/-- Emits a program into a sink. -/
def emitInto (program : Program) (sink : Sink) (options : Options) : Except Error Unit × Sink :=
  match emitProgram options program sink with
  | .ok _ sink => (.ok (), sink)
  | .error error sink => (.error error, sink)

end Lexical

open Lexical

/-! ### The emitter and the frames -/

/-- What the emitter sees is what the frames hold. -/
def Emitter.Shows (emitter : Emitter) (frames : Frames) : Prop :=
  emitter.scopes.tables = frames.map latest?

/-- The emitter is at the same level in the same scope as before. -/
structure Emitter.Stays (before after : Emitter) : Prop where
  options : after.options = before.options
  level : after.level = before.level
  scopes : before.scopes.Grows after.scopes

theorem Emitter.Stays.trans {first second third : Emitter} (h : first.Stays second) (h' : second.Stays third) :
    first.Stays third :=
  ⟨h'.options.trans h.options, h'.level.trans h.level, h.scopes.trans h'.scopes⟩

theorem Emitter.Shows.lookup {emitter : Emitter} {frames : Frames} (h : emitter.Shows frames) (name : String) :
    emitter.scopes.lookup name = Lexical.lookup frames name := by
  rw [ScopeTree.lookup_eq_tables, h, List.findSome?_map]
  rfl

theorem Emitter.Shows.typeOf {emitter : Emitter} {frames : Frames} (h : emitter.Shows frames) (node : Node) :
    emitter.scopes.typeOf node = Lexical.typeOf frames node := by
  have name : ∀ name position, emitter.scopes.typeOfName name position = typeOfName frames name position := by
    intro name position
    rw [ScopeTree.typeOfName, h.lookup]
    rfl
  fun_induction Lexical.typeOf frames node with
  | case1 node type htype =>
    rw [ScopeTree.typeOf.eq_def, htype]
  | case2 callee span htype =>
    rw [ScopeTree.typeOf.eq_def, htype]
    exact name _ _
  | case3 callee arguments span htype =>
    rw [ScopeTree.typeOf.eq_def, htype]
    exact name _ _
  | case4 left operator right span htype ih =>
    rw [ScopeTree.typeOf.eq_def, htype]
    exact ih
  | case5 operator operand span htype ih =>
    rw [ScopeTree.typeOf.eq_def, htype]
    exact ih
  | case6 element form first rest span htype ih =>
    rw [ScopeTree.typeOf.eq_def, htype]
    exact congrArg (· >>= _) ih
  | case7 collection position span htype ih =>
    rw [ScopeTree.typeOf.eq_def, htype]
    exact congrArg (· >>= _) ih
  | case8 => simp_all [ScopeTree.typeOf]

theorem Emitter.Shows.declaredType {emitter : Emitter} {frames : Frames} (h : emitter.Shows frames)
    (declaration : Declaration) :
    emitter.scopes.declaredType declaration = Lexical.declaredType frames declaration := by
  unfold ScopeTree.declaredType Lexical.declaredType
  cases declaration.type? with
  | some type => rfl
  | none =>
    cases declaration.value with
    | some value => exact h.typeOf value
    | none => rfl

/-- Binding a name in the current scope is binding it in the innermost frame. -/
theorem tables_declare_frames {tree : ScopeTree} {frames : Frames} (h : tree.tables = frames.map latest?)
    (binding : Binding) : (tree.declare binding).tables = (Lexical.bind binding frames).map latest? := by
  rw [ScopeTree.tables_declare]
  rw [ScopeTree.tables, ScopeTree.visible_eq, List.map_cons] at h
  cases frames with
  | nil => cases h
  | cons frame outer =>
    obtain ⟨hframe, houter⟩ := List.cons_eq_cons.mp h
    rw [houter, hframe]
    refine congrArg (· :: _) (funext fun name => ?_)
    by_cases hname : binding.name = name
    · simp [latest?, hname]
    · simp [latest?, hname]

/-! ### One emission after the other -/

/-- An emission with frames. -/
abbrev FrameEmission := Options → Nat → Frames → TextM Frames

/-- The outcomes of an emitter and of an emission with frames: they succeed alike, and then the emitter shows the
frames, or they fail alike; the text is the same in any case. -/
def Agree (before : Emitter) : EStateM.Result Error Emitter Unit → EStateM.Result Error Sink Frames → Prop
  | .ok _ after, .ok frames sink => before.Stays after ∧ after.sink = sink ∧ after.Shows frames
  | .error error after, .error error' sink => error = error' ∧ after.sink = sink
  | _, _ => False

/-- Wherever the emitter shows some frames, it does what an emission with these frames does. -/
def Simulates (emission : EmitM Unit) (reference : FrameEmission) : Prop :=
  ∀ emitter frames, emitter.Shows frames →
    Agree emitter (emission emitter) (reference emitter.options emitter.level frames emitter.sink)

/-- There are two ways to agree. -/
theorem Agree.success_or_failure {before : Emitter} {result : EStateM.Result Error Emitter Unit}
    {reference : EStateM.Result Error Sink Frames} (h : Agree before result reference) :
    (∃ after frames, result = .ok () after ∧ reference = .ok frames after.sink ∧ before.Stays after ∧
      after.Shows frames) ∨
    ∃ error after, result = .error error after ∧ reference = .error error after.sink := by
  cases result with
  | ok value after =>
    cases reference with
    | ok frames sink =>
      obtain ⟨hstays, rfl, hshows⟩ := h
      exact .inl ⟨after, frames, rfl, rfl, hstays, hshows⟩
    | error error sink => exact h.elim
  | error error after =>
    cases reference with
    | ok frames sink => exact h.elim
    | error error' sink =>
      obtain ⟨rfl, rfl⟩ := h
      exact .inr ⟨error, after, rfl, rfl⟩

theorem Agree.trans {before after : Emitter} (h : before.Stays after) {result : EStateM.Result Error Emitter Unit}
    {reference : EStateM.Result Error Sink Frames} (hagree : Agree after result reference) :
    Agree before result reference := by
  obtain ⟨last, frames, rfl, rfl, hstays, hshows⟩ | ⟨error, last, rfl, rfl⟩ := hagree.success_or_failure
  · exact ⟨h.trans hstays, rfl, hshows⟩
  · exact ⟨rfl, rfl⟩

namespace Simulates

variable {emission next : EmitM Unit} {reference reference' : FrameEmission}

theorem done : Simulates (pure ()) fun _ _ frames => pure frames :=
  fun _ _ h => ⟨⟨rfl, rfl, .refl _⟩, rfl, h⟩

theorem throw (error : Error) : Simulates (throw error) fun _ _ _ => throw error :=
  fun _ _ _ => ⟨rfl, rfl⟩

/-- **Sequence.** -/
theorem bind (first : Simulates emission reference) (rest : Simulates next reference') :
    Simulates (emission >>= fun _ => next) fun options level frames =>
      reference options level frames >>= reference' options level := by
  intro emitter frames h
  show Agree emitter (EStateM.bind emission _ emitter) (EStateM.bind (reference _ _ frames) _ emitter.sink)
  unfold EStateM.bind
  obtain ⟨after, frames', hemission, hreference, hstays, hshows⟩ | ⟨error, after, hemission, hreference⟩ :=
    (first emitter frames h).success_or_failure
  · rw [hemission, hreference]
    have hrest := rest after frames' hshows
    rw [hstays.options, hstays.level] at hrest
    exact hrest.trans hstays
  · rw [hemission, hreference]
    exact ⟨rfl, rfl⟩

theorem check {α : Type} {outcome : Except Error α} {next : α → EmitM Unit}
    {reference : α → FrameEmission} (h : ∀ value, Simulates (next value) (reference value)) :
    Simulates (EmitM.check outcome >>= next) fun options level frames =>
      Lexical.check outcome >>= fun value => reference value options level frames := by
  intro emitter frames hshows
  cases outcome with
  | ok value => exact h value emitter frames hshows
  | error error => exact ⟨rfl, rfl⟩

theorem putLine (line : String) : Simulates (EmitM.putLine line) fun options level frames => do
    Lexical.putLine options level line
    return frames := by
  intro emitter frames h
  show Agree emitter (EmitM.putLine line emitter)
    (EStateM.bind (Lexical.putLine emitter.options emitter.level line) _ emitter.sink)
  unfold EmitM.putLine EmitM.writing Lexical.putLine EStateM.bind
  dsimp only [Writer.write]
  generalize String.join (List.replicate emitter.level emitter.options.indent) ++ line ++ "\n" = text
  by_cases hfits : emitter.sink.accepts text
  · rw [if_pos hfits]
    exact ⟨⟨rfl, rfl, .refl _⟩, rfl, h⟩
  · rw [if_neg hfits]
    exact ⟨rfl, rfl⟩

/-- A line before the rest. -/
theorem putLine_bind (line : String) (h : Simulates next reference) :
    Simulates (EmitM.putLine line >>= fun _ => next) fun options level frames =>
      Lexical.putLine options level line >>= fun _ => reference options level frames := by
  have hbind := bind (putLine line) h
  simp only [bind_assoc, pure_bind] at hbind
  exact hbind

theorem declare (binding : Binding) :
    Simulates (EmitM.declare binding) fun _ _ frames => pure (Lexical.bind binding frames) :=
  fun _ _ h => ⟨⟨rfl, rfl, .declare _ binding⟩, rfl, tables_declare_frames h binding⟩

/-- A binding before the rest. -/
theorem declare_bind (binding : Binding) (h : Simulates next reference) :
    Simulates (EmitM.declare binding >>= fun _ => next) fun options level frames =>
      reference options level (Lexical.bind binding frames) := by
  have hbind := bind (declare binding) h
  simp only [pure_bind] at hbind
  exact hbind

/-- **A block.**  Whatever its statements bind is forgotten after it. -/
theorem indented (h : Simulates emission reference) :
    Simulates (EmitM.indented emission) fun options level frames => do
      let _ ← reference options (level + 1) ([] :: frames)
      return frames := by
  intro emitter frames hshows
  have henter : emitter.enter.Shows ([] :: frames) := by
    show emitter.scopes.enter.tables = _
    rw [ScopeTree.tables_enter, hshows]
    rfl
  have hbody : Agree emitter.enter (emission emitter.enter)
      (reference emitter.options (emitter.level + 1) ([] :: frames) emitter.sink) :=
    h emitter.enter ([] :: frames) henter
  show Agree emitter (EmitM.indented emission emitter)
    (EStateM.bind (reference emitter.options (emitter.level + 1) ([] :: frames)) _ emitter.sink)
  unfold EmitM.indented EStateM.bind
  obtain ⟨after, frames', hemission, hreference, hstays, _⟩ | ⟨error, after, hemission, hreference⟩ :=
    hbody.success_or_failure
  · rw [hemission, hreference]
    refine ⟨⟨hstays.options, ?_, .leave hstays.scopes⟩, rfl, ?_⟩
    · show after.level - 1 = emitter.level
      rw [hstays.level]
      rfl
    · show after.scopes.leave.tables = _
      rw [ScopeTree.tables_leave hstays.scopes]
      exact hshows
  · rw [hemission, hreference]
    exact ⟨rfl, rfl⟩

/-- A block before the rest. -/
theorem indented_bind (h : Simulates emission reference) (hnext : Simulates next reference') :
    Simulates (EmitM.indented emission >>= fun _ => next) fun options level frames =>
      reference options (level + 1) ([] :: frames) >>= fun _ => reference' options level frames := by
  have hbind := bind (indented h) hnext
  simp only [bind_assoc, pure_bind] at hbind
  exact hbind

end Simulates

/-! ### Statements -/

theorem emitBinding_simulates (declaration : Declaration) :
    Simulates (GoScript.emitBinding declaration) fun options level frames =>
      Lexical.emitBinding options level frames declaration := by
  apply Simulates.check
  intro _ emitter frames h
  have hdeclared : Simulates (EmitM.check (Lexical.declaredType frames declaration) >>= fun type => do
      let line ← EmitM.check (declaration.line type)
      EmitM.declare ⟨declaration.name, type, if declaration.constant then .constant else .mutable⟩
      EmitM.putLine line) _ :=
    Simulates.check fun type => Simulates.check fun line => Simulates.declare_bind _ (Simulates.putLine line)
  show Agree emitter ((EmitM.check (emitter.scopes.declaredType declaration) >>= _) emitter) _
  rw [h.declaredType]
  exact hdeclared emitter frames h

theorem emitAssignment_simulates (name : String) (value : Node) (position : Position) :
    Simulates (GoScript.emitAssignment name value position) fun options level frames =>
      Lexical.emitAssignment options level frames name value position := by
  intro emitter frames h
  have hlookup := h.lookup name
  cases hfound : Lexical.lookup frames name with
  | none =>
    rw [hfound] at hlookup
    simp only [Lexical.emitAssignment, hfound]
    show Agree emitter ((match emitter.scopes.lookup name with | none => _ | some binding => _ : EmitM Unit) emitter) _
    rw [hlookup]
    exact ⟨rfl, rfl⟩
  | some binding =>
    rw [hfound] at hlookup
    simp only [Lexical.emitAssignment, hfound]
    show Agree emitter ((match emitter.scopes.lookup name with | none => _ | some binding => _ : EmitM Unit) emitter) _
    rw [hlookup]
    dsimp only
    by_cases hconstant : binding.isConstant
    · rw [if_pos hconstant, if_pos hconstant]
      exact ⟨rfl, rfl⟩
    · rw [if_neg hconstant, if_neg hconstant]
      have htext :
          Simulates (EmitM.check value.target >>= fun text => EmitM.putLine (name ++ " = " ++ text ++ ";")) _ :=
        Simulates.check fun text => Simulates.putLine _
      exact htext emitter frames h

/-- Parameters before the body of a function. -/
theorem parameters_simulates (parameters : List Parameter) {body : EmitM Unit} {reference : FrameEmission}
    (h : Simulates body reference) :
    Simulates (parameters.forM (EmitM.declare ·.binding) >>= fun _ => body) fun options level frames =>
      reference options level
        (parameters.foldl (fun frames parameter => Lexical.bind parameter.binding frames) frames) := by
  induction parameters with
  | nil => exact h
  | cons parameter rest ih =>
    have hbind := Simulates.declare_bind parameter.binding ih
    show Simulates ((EmitM.declare parameter.binding >>= fun _ => rest.forM _) >>= fun _ => body) _
    rw [bind_assoc]
    exact hbind

theorem foldl_bind (parameters : List Parameter) (frame : Frame) (outer : Frames) :
    parameters.foldl (fun frames parameter => Lexical.bind parameter.binding frames) (frame :: outer) =
      ((parameters.map Parameter.binding).reverse ++ frame) :: outer := by
  induction parameters generalizing frame with
  | nil => rfl
  | cons parameter rest ih =>
    rw [List.foldl_cons]
    show rest.foldl _ ((parameter.binding :: frame) :: outer) = _
    rw [ih]
    simp

theorem emitFunction_simulates (name : String) (parameters : List Parameter) (result : GoType) {body : EmitM Unit}
    {reference : FrameEmission} (h : Simulates body reference) :
    Simulates (GoScript.emitFunction name parameters result body) fun options level frames =>
      Lexical.emitFunction options level frames name parameters result (reference options) := by
  have hfunction := Simulates.declare_bind ⟨name, result, .function⟩
    (Simulates.putLine_bind (functionHead name parameters result)
      (Simulates.indented_bind (parameters_simulates parameters h) (Simulates.putLine "\x7d")))
  simp only [foldl_bind, List.append_nil] at hfunction
  exact hfunction

theorem emitAll_simulates_of {nodes : List Node}
    (h : ∀ node ∈ nodes, Simulates node.emit fun options level frames => Lexical.emit options level frames node) :
    Simulates (Node.emitAll nodes) fun options level frames => Lexical.emitAll options level frames nodes := by
  induction nodes with
  | nil => exact Simulates.done
  | cons node rest ih =>
    rw [List.forall_mem_cons] at h
    exact Simulates.bind h.1 (ih h.2)

theorem emitDeclarations_simulates_of {ds : List Declaration}
    (h : ∀ d ∈ ds, Simulates d.emit fun options level frames => Lexical.emitDeclaration options level frames d) :
    Simulates (Declaration.emitAll ds) fun options level frames =>
      Lexical.emitDeclarations options level frames ds := by
  induction ds with
  | nil => exact Simulates.done
  | cons d rest ih =>
    rw [List.forall_mem_cons] at h
    exact Simulates.bind h.1 (ih h.2)

theorem Lexical.emit_of_not_isStatement {node : Node} (h : node.isStatement = false) (options : Options) (level : Nat)
    (frames : Frames) : Lexical.emit options level frames node = throw node.unsupported := by
  cases node with
  | declaration | assignment | returning | expression | conditional | function => cases h
  | _ => rfl

theorem Lexical.emitDeclaration_of_plain {d : Declaration} (h : d.bindsFunction = false) (options : Options)
    (level : Nat) (frames : Frames) :
    Lexical.emitDeclaration options level frames d = Lexical.emitBinding options level frames d := by
  obtain ⟨name, constant, explicit, inferred, value, group, span⟩ := d
  cases value with
  | none => rfl
  | some value =>
    cases value with
    | function f => cases h
    | _ => rfl

/-- Each kind of statement is emitted as with frames. -/
theorem statements_simulate : StatementCases
    (fun node => Simulates node.emit fun options level frames => Lexical.emit options level frames node)
    fun d => Simulates d.emit fun options level frames => Lexical.emitDeclaration options level frames d where
  group _ _ _ _ _ _ _ h := emitDeclarations_simulates_of h
  single _ _ _ _ _ _ h := h
  assignment name value span := emitAssignment_simulates name value span.start
  leaving _ := Simulates.putLine _
  returning _ _ := Simulates.check fun _ => Simulates.putLine _
  expression _ _ := Simulates.check fun _ => Simulates.putLine _
  conditional _ _ _ _ h := Simulates.check fun _ => Simulates.putLine_bind _
    (Simulates.indented_bind (emitAll_simulates_of h) (Simulates.putLine _))
  alternative _ _ _ _ _ _ h h' := Simulates.check fun _ => Simulates.putLine_bind _
    (Simulates.indented_bind (emitAll_simulates_of h) (Simulates.putLine_bind _
      (Simulates.indented_bind (emitAll_simulates_of h') (Simulates.putLine _))))
  function name parameters returns _ _ _ h :=
    emitFunction_simulates name parameters (returns.getD .void) (emitAll_simulates_of h)
  anonymous _ _ _ _ := Simulates.throw _
  other node h := by
    simp only [Lexical.emit_of_not_isStatement h]
    rw [Node.emit_of_not_isStatement h]
    exact Simulates.throw _
  plain d h := by
    simp only [Lexical.emitDeclaration_of_plain h]
    rw [Declaration.emit_of_plain h]
    exact emitBinding_simulates d
  value name _ _ _ _ parameters returns _ _ _ _ _ h :=
    emitFunction_simulates name parameters (returns.getD .void) (emitAll_simulates_of h)

/-- **Every statement** is emitted as with frames. -/
theorem emit_simulates (node : Node) : Simulates node.emit fun options level frames =>
    Lexical.emit options level frames node :=
  statements_simulate.statement node

theorem emitAll_simulates (nodes : List Node) : Simulates (Node.emitAll nodes) fun options level frames =>
    Lexical.emitAll options level frames nodes :=
  emitAll_simulates_of fun node _ => emit_simulates node

/-! ### Programs -/

/-- Names bound in the global scope while it is the current one. -/
theorem tables_globals (bindings : List Binding) {tree : ScopeTree} (hcurrent : tree.current = ScopeTree.globalIndex)
    {frame : Frame} (h : tree.tables = [latest? frame]) :
    (bindings.foldl ScopeTree.declareGlobal tree).tables = [latest? (bindings.reverse ++ frame)] := by
  induction bindings generalizing tree frame with
  | nil => exact h
  | cons binding rest ih =>
    have hglobal : tree.declareGlobal binding = tree.declare binding := by
      rw [ScopeTree.declareGlobal, ScopeTree.declare, hcurrent]
    have hcurrent' : (tree.declare binding).current = ScopeTree.globalIndex := hcurrent
    have htables : (tree.declare binding).tables = [latest? (binding :: frame)] :=
      tables_declare_frames (show tree.tables = [frame].map latest? from h) binding
    rw [List.foldl_cons, hglobal, ih hcurrent' htables]
    simp

/-- The emitter after the functions of a program have been bound. -/
def Emitter.atStart (program : Program) (sink : Sink) (options : Options) : Emitter :=
  { Emitter.ofSink sink options with scopes := .atStart program }

/-- Binding functions one after the other puts the latest of them in front. -/
theorem withFunctions_eq (frame : Frame) (body : List Node) :
    withFunctions frame body = (functionBindings body).reverse ++ frame := by
  induction body generalizing frame with
  | nil => rfl
  | cons node rest ih =>
    cases node with
    | function f =>
      obtain ⟨name, parameters, returns, body, span⟩ := f
      cases name with
      | none => exact ih frame
      | some name =>
        have hbindings : functionBindings (.function ⟨some name, parameters, returns, body, span⟩ :: rest) =
            ⟨name, returns.getD .void, .function⟩ :: functionBindings rest := rfl
        rw [withFunctions, ih, hbindings, List.reverse_cons, List.append_assoc]
        rfl
    | _ => exact ih frame

/-- The bindings that a program starts with, in the order in which the emitter makes them. -/
theorem globalFrame_eq (program : Program) :
    globalFrame program = (Builtin.table.map Builtin.binding ++ functionBindings program.body).reverse := by
  rw [globalFrame, withFunctions_eq, List.reverse_append]
  rfl

theorem Emitter.shows_atStart (program : Program) (sink : Sink) (options : Options) :
    (Emitter.atStart program sink options).Shows [globalFrame program] := by
  show ((functionBindings program.body).foldl ScopeTree.declareGlobal .initial).tables = [latest? (globalFrame program)]
  have hinitial : ScopeTree.initial = (Builtin.table.map Builtin.binding).foldl ScopeTree.declareGlobal .empty := by
    rw [ScopeTree.initial, List.foldl_map]
  have hempty : ScopeTree.empty.tables = [latest? []] := rfl
  rw [hinitial, ← List.foldl_append, tables_globals _ rfl hempty, List.append_nil, globalFrame_eq]

/-- What follows the statements of a program. -/
def ending (program : Program) : EmitM Unit := do
  if (← get).options.callMain && program.body.any (·.functionName? == some "main") then
    EmitM.putLine "main();"
  EmitM.flush

theorem emitProgram_run (program : Program) (sink : Sink) (options : Options) :
    emitProgram program (.ofWriter sink options) =
      (Node.emitAll program.body >>= fun _ => ending program) (.atStart program sink options) := by
  show EStateM.bind ((functionBindings program.body).forM EmitM.declareGlobal) _ (.ofWriter sink options) = _
  unfold EStateM.bind
  rw [declareGlobals_run]
  rfl

/-- An emission that binds these names, in this order, in the innermost frame, and changes no other frame. -/
def Binds (reference : FrameEmission) (names : List String) : Prop :=
  ∀ options level frame outer sink frames sink',
    reference options level (frame :: outer) sink = .ok frames sink' →
    ∃ bindings : List Binding, frames = (bindings ++ frame) :: outer ∧ bindings.map Binding.name = names.reverse

namespace Binds

variable {reference reference' : FrameEmission} {names names' : List String}

theorem done : Binds (fun _ _ frames => pure frames) [] := by
  intro options level frame outer sink frames sink' h
  cases h
  exact ⟨[], rfl, rfl⟩

theorem throw (error : Error) : Binds (fun _ _ _ => throw error) names := by
  intro options level frame outer sink frames sink' h
  cases h

theorem bind (first : Binds reference names) (rest : Binds reference' names') :
    Binds (fun options level frames => reference options level frames >>= reference' options level)
      (names ++ names') := by
  intro options level frame outer sink frames sink' h
  obtain ⟨middle, sink₁, hfirst, hrest⟩ := Outcome.ok_of_bind h
  obtain ⟨bindings, rfl, hnames⟩ := first _ _ _ _ _ _ _ hfirst
  obtain ⟨bindings', rfl, hnames'⟩ := rest _ _ _ _ _ _ _ hrest
  refine ⟨bindings' ++ bindings, by simp, ?_⟩
  rw [List.map_append, hnames, hnames', List.reverse_append]

/-- What comes before the rest and yields no frames binds nothing. -/
theorem after {α : Type} {before : Options → Nat → Frames → TextM α} {reference : α → FrameEmission}
    (h : ∀ value, Binds (reference value) names) :
    Binds
      (fun options level frames => before options level frames >>= fun value => reference value options level frames)
      names := by
  intro options level frame outer sink frames sink' hok
  obtain ⟨value, sink₁, _, hrest⟩ := Outcome.ok_of_bind hok
  exact h value _ _ _ _ _ _ _ hrest

/-- One name is bound at the end. -/
theorem pure_bind {binding : Binding} :
    Binds (fun _ _ frames => pure (Lexical.bind binding frames)) [binding.name] := by
  intro options level frame outer sink frames sink' h
  cases h
  exact ⟨[binding], rfl, rfl⟩

end Binds

/-- The frames that an emitter shows as it stands. -/
theorem Emitter.exists_shows (emitter : Emitter) : ∃ frame outer, emitter.Shows (frame :: outer) := by
  refine ⟨emitter.scopes.currentScope.bindings, emitter.scopes.around.map Scope.bindings, ?_⟩
  rw [Emitter.Shows, ScopeTree.tables, ScopeTree.visible_eq]
  simp only [List.map_cons, List.map_map]
  rfl

end GoScript
