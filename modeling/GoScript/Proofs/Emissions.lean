import GoScript.Emit.Statement
import GoScript.Proofs.Outcomes
import GoScript.Proofs.Parts
import GoScript.Proofs.Visibility

/-!
# What an emission does

Emission writes lines, each at some level of indentation.  Which lines these are depends on the program alone: neither
the indentation nor the writer is looked at.  The writer only decides how many of the lines are written.  Wherever the
emission stops, it is back in the scope and at the level it started from.  All of this is said once, as what an emission
does from a given place, with one rule for each step that emission is made of.

* `Line`, `Line.render` — a line with its level, and its text for a given indentation
* `Emission`, `Emits` — an emission to whatever writer, and the lines it writes and the end it comes to
* `Lays` — what the lines of an emission satisfy if it comes to its end, and its error if it does not
* `StatementCases` — one account of statements, kind by kind, which then holds of all of them
* `Node.Fault` — the errors that a statement can end with
-/

namespace GoScript

open Outcome

/-! ### Lines and writers -/

/-- A line of the emitted text: its level of indentation and what stands on it. -/
structure Line where
  level : Nat
  text : String

/-- The text of a line, with `indent` for one level and the line feed at its end. -/
def Line.render (indent : String) (line : Line) : String :=
  String.join (List.replicate line.level indent) ++ line.text ++ "\n"

namespace Writer

variable {ω : Type} [Writer ω] {writer after : ω} {front : List String}

/-- Writes texts one after the other, up to the first one that is refused. -/
def writeAll : List String → EStateM Error ω Unit
  | [] => pure ()
  | text :: rest => do
    write text
    writeAll rest

theorem writeAll_append (front back : List String) :
    (writeAll (front ++ back) : EStateM Error ω Unit) = writeAll front >>= fun _ => writeAll back := by
  induction front with
  | nil => rfl
  | cons text rest ih =>
    rw [List.cons_append, writeAll, writeAll, ih, bind_assoc]

theorem writeAll_singleton (text : String) : (writeAll [text] : EStateM Error ω Unit) = write text := by
  funext writer
  rw [writeAll, bind_run]
  cases write text writer with
  | ok value after => rfl
  | error error after => rfl

end Writer

open Writer (writeAll)

/-! ### Emissions -/

/-- An emission that can be made to any writer. -/
abbrev Emission := {ω : Type} → [Writer ω] → EmitTo ω Unit

namespace Emitter

variable {ω : Type}

/-- Where an emission with these scopes at this level starts. -/
def place (scopes : ScopeTree) (level : Nat) (callMain : Bool) (indent : String) (writer : ω) : Emitter ω :=
  ⟨writer, scopes, level, ⟨indent, callMain⟩⟩

/-- The outcome of an emission that has ended in success or in an error. -/
def endWith (emitter : Emitter ω) : Except Error Unit → EStateM.Result Error (Emitter ω) Unit
  | .ok _ => .ok () emitter
  | .error error => .error error emitter

end Emitter

/-- To write a line is to write its text. -/
theorem EmitM.putLine_run {ω : Type} [Writer ω] (text : String) (emitter : Emitter ω) :
    EmitM.putLine text emitter =
      EmitM.writing (Writer.write (Line.render emitter.options.indent ⟨emitter.level, text⟩)) emitter := rfl

/-- **What an emission does** from certain scopes at a certain level.  Whatever the indentation and the writer are, the
emission writes these lines and comes to this outcome with these scopes; if the writer refuses a line, it stops there.
In any case only the current scope may have changed. -/
structure Emits (emission : Emission) (scopes : ScopeTree) (level : Nat) (callMain : Bool) (lines : List Line)
    (outcome : Except Error Unit) (scopes' : ScopeTree) : Prop where
  grows : scopes.Grows scopes'
  written : ∀ {ω : Type} [Writer ω] (indent : String) (writer after : ω),
    writeAll (lines.map (Line.render indent)) writer = .ok () after →
    emission (.place scopes level callMain indent writer) =
      (Emitter.place scopes' level callMain indent after).endWith outcome
  refused : ∀ {ω : Type} [Writer ω] (indent : String) (writer after : ω) (error : Error),
    writeAll (lines.map (Line.render indent)) writer = .error error after →
    ∃ middle, scopes.Grows middle ∧
      emission (.place scopes level callMain indent writer) = .error error (.place middle level callMain indent after)

namespace Emits

variable {emission next : Emission} {scopes middle scopes' : ScopeTree} {level : Nat} {callMain : Bool}
  {lines lines' : List Line} {outcome : Except Error Unit} {error : Error}

/-- A step that writes nothing. -/
theorem quiet (hgrows : scopes.Grows middle)
    (h : ∀ {ω : Type} [Writer ω] (indent : String) (writer : ω),
      emission (.place scopes level callMain indent writer) = .ok () (.place middle level callMain indent writer)) :
    Emits emission scopes level callMain [] (.ok ()) middle where
  grows := hgrows
  written := by
    intro ω _ indent writer after hwritten
    cases hwritten
    exact h indent writer
  refused := by
    intro ω _ indent writer after error hrefused
    cases hrefused

theorem throw (error : Error) : Emits (throw error) scopes level callMain [] (.error error) scopes where
  grows := .refl scopes
  written := by
    intro ω _ indent writer after hwritten
    cases hwritten
    rfl
  refused := by
    intro ω _ indent writer after error hrefused
    cases hrefused

theorem putLine (text : String) :
    Emits (EmitM.putLine text) scopes level callMain [⟨level, text⟩] (.ok ()) scopes where
  grows := .refl scopes
  written := by
    intro ω _ indent writer after hwritten
    rw [List.map_singleton, Writer.writeAll_singleton] at hwritten
    exact (EmitM.putLine_run text _).trans (by rw [EmitM.writing, Emitter.place, hwritten]; rfl)
  refused := by
    intro ω _ indent writer after error hrefused
    rw [List.map_singleton, Writer.writeAll_singleton] at hrefused
    refine ⟨scopes, .refl scopes, (EmitM.putLine_run text _).trans ?_⟩
    rw [EmitM.writing, Emitter.place, hrefused]
    rfl

/-- **Sequence.**  The lines of the second emission come after those of the first one. -/
theorem bind (first : Emits emission scopes level callMain lines (.ok ()) middle)
    (rest : Emits next middle level callMain lines' outcome scopes') :
    Emits (emission >>= fun _ => next) scopes level callMain (lines ++ lines') outcome scopes' where
  grows := first.grows.trans rest.grows
  written := by
    intro ω _ indent writer after hwritten
    rw [List.map_append, Writer.writeAll_append] at hwritten
    obtain ⟨_, between, hfront, hback⟩ := ok_of_bind hwritten
    rw [bind_of_ok (first.written indent writer between hfront)]
    exact rest.written indent between after hback
  refused := by
    intro ω _ indent writer after error hrefused
    rw [List.map_append, Writer.writeAll_append] at hrefused
    obtain hfront | ⟨_, between, hfront, hback⟩ := error_of_bind hrefused
    · obtain ⟨inner, hgrows, hrun⟩ := first.refused indent writer after error hfront
      exact ⟨inner, hgrows, bind_of_error hrun⟩
    · obtain ⟨inner, hgrows, hrun⟩ := rest.refused indent between after error hback
      exact ⟨inner, first.grows.trans hgrows, (bind_of_ok (first.written indent writer between hfront)).trans hrun⟩

/-- An emission that fails is the end of the sequence. -/
theorem bind_error (first : Emits emission scopes level callMain lines (.error error) scopes') :
    Emits (emission >>= fun _ => next) scopes level callMain lines (.error error) scopes' where
  grows := first.grows
  written := by
    intro ω _ indent writer after hwritten
    exact bind_of_error (first.written indent writer after hwritten)
  refused := by
    intro ω _ indent writer after error hrefused
    obtain ⟨inner, hgrows, hrun⟩ := first.refused indent writer after error hrefused
    exact ⟨inner, hgrows, bind_of_error hrun⟩

/-- A block writes the lines of its body one level deeper, and is left again after an error, too. -/
theorem indented (h : Emits emission scopes.enter (level + 1) callMain lines outcome scopes') :
    Emits (EmitM.indented emission) scopes level callMain lines outcome scopes'.leave := by
  have henter : ∀ {ω : Type} (indent : String) (writer : ω),
      (Emitter.place scopes level callMain indent writer).enter =
        .place scopes.enter (level + 1) callMain indent writer := fun _ _ => rfl
  refine ⟨h.grows.leave, ?_, ?_⟩
  · intro ω _ indent writer after hwritten
    rw [EmitM.indented, henter, h.written indent writer after hwritten]
    cases outcome with
    | ok value => rfl
    | error error => rfl
  · intro ω _ indent writer after error hrefused
    obtain ⟨inner, hgrows, hrun⟩ := h.refused indent writer after error hrefused
    refine ⟨inner.leave, hgrows.leave, ?_⟩
    rw [EmitM.indented, henter, hrun]
    rfl

/-- What an emission does is determined by what it does from the places that have these scopes and this level. -/
theorem congr (h : Emits emission scopes level callMain lines outcome scopes')
    (hsame : ∀ {ω : Type} [Writer ω] (indent : String) (writer : ω),
      next (.place scopes level callMain indent writer) = emission (.place scopes level callMain indent writer)) :
    Emits next scopes level callMain lines outcome scopes' where
  grows := h.grows
  written := by
    intro ω _ indent writer after hwritten
    rw [hsame]
    exact h.written indent writer after hwritten
  refused := by
    intro ω _ indent writer after error hrefused
    rw [hsame]
    exact h.refused indent writer after error hrefused

end Emits

/-! ### Emissions from everywhere -/

/-- From every place the emission writes its own lines.  If it comes to its end then they are related to the level that
it started at as `Layout` says, and if it does not then its error is as `Fault` says. -/
def Lays (emission : Emission) (Layout : Nat → List Line → Prop) (Fault : Error → Prop) : Prop :=
  ∀ scopes level callMain, ∃ lines outcome scopes', Emits emission scopes level callMain lines outcome scopes' ∧
    match outcome with
    | .ok _ => Layout level lines
    | .error error => Fault error

namespace Lays

variable {α : Type} {emission next : Emission} {Layout Layout' : Nat → List Line → Prop} {Fault Fault' : Error → Prop}

theorem mono (h : Lays emission Layout Fault) (hlayout : ∀ level lines, Layout level lines → Layout' level lines)
    (hfault : ∀ error, Fault error → Fault' error) : Lays emission Layout' Fault' := by
  intro scopes level callMain
  obtain ⟨lines, outcome, scopes', hemits, hend⟩ := h scopes level callMain
  refine ⟨lines, outcome, scopes', hemits, ?_⟩
  cases outcome with
  | ok value => exact hlayout level lines hend
  | error error => exact hfault error hend

/-- The errors stay what they are. -/
theorem relayout (h : Lays emission Layout Fault) (hlayout : ∀ level lines, Layout level lines → Layout' level lines) :
    Lays emission Layout' Fault :=
  h.mono hlayout fun _ hfault => hfault

theorem done : Lays (pure ()) (fun _ lines => lines = []) Fault :=
  fun scopes _ _ => ⟨[], .ok (), scopes, .quiet (.refl scopes) fun _ _ => rfl, rfl⟩

theorem throw {error : Error} (h : Fault error) : Lays (throw error) Layout Fault :=
  fun scopes _ _ => ⟨[], .error error, scopes, .throw error, h⟩

theorem putLine (text : String) : Lays (EmitM.putLine text) (fun level lines => lines = [⟨level, text⟩]) Fault :=
  fun scopes level _ => ⟨[⟨level, text⟩], .ok (), scopes, .putLine text, rfl⟩

/-- **Sequence.** -/
theorem bind (first : Lays emission Layout Fault) (rest : Lays next Layout' Fault) :
    Lays (emission >>= fun _ => next) (fun level lines =>
      ∃ front back, lines = front ++ back ∧ Layout level front ∧ Layout' level back) Fault := by
  intro scopes level callMain
  obtain ⟨front, outcome, middle, hfirst, hend⟩ := first scopes level callMain
  cases outcome with
  | error error => exact ⟨front, .error error, middle, hfirst.bind_error, hend⟩
  | ok value =>
    obtain ⟨back, outcome, scopes', hrest, hend'⟩ := rest middle level callMain
    refine ⟨front ++ back, outcome, scopes', hfirst.bind hrest, ?_⟩
    cases outcome with
    | ok value => exact ⟨front, back, rfl, hend, hend'⟩
    | error error => exact hend'

/-- A binding before the rest. -/
theorem declare_bind (binding : Binding) (h : Lays next Layout Fault) :
    Lays (EmitM.declare binding >>= fun _ => next) Layout Fault := by
  intro scopes level callMain
  obtain ⟨lines, outcome, scopes', hemits, hend⟩ := h (scopes.declare binding) level callMain
  have hdeclare : Emits (EmitM.declare binding) scopes level callMain [] (.ok ()) (scopes.declare binding) :=
    .quiet (.declare scopes binding) fun _ _ => rfl
  exact ⟨lines, outcome, scopes', hdeclare.bind hemits, hend⟩

/-- Parameters before the body of a function. -/
theorem parameters_bind (parameters : List Parameter) (h : Lays next Layout Fault) :
    Lays (parameters.forM (EmitM.declare ·.binding) >>= fun _ => next) Layout Fault := by
  induction parameters with
  | nil => exact h
  | cons parameter rest ih =>
    have hparameter := declare_bind parameter.binding ih
    simp only [← bind_assoc] at hparameter
    exact hparameter

theorem check_bind {outcome : Except Error α} {next : α → Emission}
    (hfault : ∀ error, outcome = .error error → Fault error)
    (h : ∀ value, outcome = .ok value → Lays (next value) Layout Fault) :
    Lays (EmitM.check outcome >>= fun value => next value) Layout Fault := by
  cases outcome with
  | ok value => exact h value rfl
  | error error => exact throw (hfault error rfl)

/-- What is asked of the scopes is the same for every writer and every indentation. -/
theorem scopes_bind (next : ScopeTree → Emission) (h : ∀ scopes, Lays (next scopes) Layout Fault) :
    Lays (get >>= fun emitter => next emitter.scopes) Layout Fault := by
  intro scopes level callMain
  obtain ⟨lines, outcome, scopes', hemits, hend⟩ := h scopes scopes level callMain
  exact ⟨lines, outcome, scopes', hemits.congr fun _ _ => rfl, hend⟩

/-- The same for the option to call `main`. -/
theorem callMain_bind (next : Bool → Emission) (h : ∀ callMain, Lays (next callMain) Layout Fault) :
    Lays (get >>= fun emitter => next emitter.options.callMain) Layout Fault := by
  intro scopes level callMain
  obtain ⟨lines, outcome, scopes', hemits, hend⟩ := h callMain scopes level callMain
  exact ⟨lines, outcome, scopes', hemits.congr fun _ _ => rfl, hend⟩

theorem lookup_bind {name : String} {next : Option Binding → Emission} (h : ∀ found, Lays (next found) Layout Fault) :
    Lays (EmitM.lookup name >>= fun found => next found) Layout Fault :=
  scopes_bind (fun scopes => next (scopes.lookup name)) fun scopes => h (scopes.lookup name)

theorem indented (h : Lays emission Layout Fault) :
    Lays (EmitM.indented emission) (fun level lines => Layout (level + 1) lines) Fault := by
  intro scopes level callMain
  obtain ⟨lines, outcome, scopes', hemits, hend⟩ := h scopes.enter (level + 1) callMain
  exact ⟨lines, outcome, scopes'.leave, hemits.indented, hend⟩

/-- **A block.**  Its first line, its body one level deeper, and what comes after the body. -/
theorem block (head : String) (body : Lays emission Layout Fault) (rest : Lays next Layout' Fault) :
    Lays (EmitM.putLine head >>= fun _ => EmitM.indented emission >>= fun _ => next) (fun level lines =>
      ∃ inner back, lines = ⟨level, head⟩ :: (inner ++ back) ∧ Layout (level + 1) inner ∧ Layout' level back)
      Fault := by
  refine ((putLine head).bind (body.indented.bind rest)).relayout ?_
  rintro level _ ⟨_, _, rfl, rfl, inner, back, rfl, hinner, hback⟩
  exact ⟨inner, back, rfl, hinner, hback⟩

end Lays

/-! ### The start of a program -/

theorem declareGlobals_run {ω : Type} (bindings : List Binding) (emitter : Emitter ω) :
    bindings.forM EmitM.declareGlobal emitter =
      .ok () { emitter with scopes := bindings.foldl ScopeTree.declareGlobal emitter.scopes } := by
  induction bindings generalizing emitter with
  | nil => rfl
  | cons binding rest ih => exact ih _

/-- The scopes after the functions of a program have been bound. -/
def ScopeTree.atStart (program : Program) : ScopeTree :=
  (functionBindings program.body).foldl ScopeTree.declareGlobal .initial

/-! ### Statements, kind by kind -/

/-- Whether a name is declared to be a function. -/
def Declaration.bindsFunction (d : Declaration) : Bool :=
  d.value.any Node.isFunction

theorem Declaration.emit_of_plain {ω : Type} [Writer ω] {d : Declaration} (h : d.bindsFunction = false) :
    (d.emit : EmitTo ω Unit) = emitBinding d := by
  obtain ⟨name, constant, explicit, inferred, value, group, span⟩ := d
  cases value with
  | none => rfl
  | some value =>
    cases value with
    | function f => cases h
    | _ => rfl

theorem Node.emit_single {ω : Type} [Writer ω] {d : Declaration} (h : d.group = none) :
    ((Node.declaration d).emit : EmitTo ω Unit) = d.emit := by
  obtain ⟨name, constant, explicit, inferred, value, group, span⟩ := d
  cases h
  rfl

theorem Node.emit_of_not_isStatement {ω : Type} [Writer ω] {node : Node} (h : node.isStatement = false) :
    (node.emit : EmitTo ω Unit) = throw node.unsupported := by
  cases node with
  | declaration | assignment | returning | expression | conditional | function => cases h
  | _ => rfl

/-- An account of all statements, kind by kind as the emitter tells them apart: what `P` says of a statement, given that
it says it of the statements inside, and what `Q` says of a single declaration. -/
structure StatementCases (P : Node → Prop) (Q : Declaration → Prop) : Prop where
  group : ∀ name constant explicit inferred value {members} span, (∀ member ∈ members, Q member) →
    P (.declaration ⟨name, constant, explicit, inferred, value, some members, span⟩)
  single : ∀ name constant explicit inferred value span, Q ⟨name, constant, explicit, inferred, value, none, span⟩ →
    P (.declaration ⟨name, constant, explicit, inferred, value, none, span⟩)
  assignment : ∀ name value span, P (.assignment name value span)
  leaving : ∀ span, P (.returning none span)
  returning : ∀ value span, P (.returning (some value) span)
  expression : ∀ e span, P (.expression e span)
  conditional : ∀ condition {consequence} inner span, (∀ statement ∈ consequence, P statement) →
    P (.conditional condition ⟨consequence, inner⟩ none span)
  alternative : ∀ condition {consequence alternative} inner inner' span, (∀ statement ∈ consequence, P statement) →
    (∀ statement ∈ alternative, P statement) →
    P (.conditional condition ⟨consequence, inner⟩ (some ⟨alternative, inner'⟩) span)
  function : ∀ name parameters returns {body} inner span, (∀ statement ∈ body, P statement) →
    P (.function ⟨some name, parameters, returns, ⟨body, inner⟩, span⟩)
  anonymous : ∀ parameters returns body span, P (.function ⟨none, parameters, returns, body, span⟩)
  other : ∀ node, node.isStatement = false → P node
  plain : ∀ d, d.bindsFunction = false → Q d
  value : ∀ name constant explicit inferred own parameters returns {body} inner outer group span,
    (∀ statement ∈ body, P statement) →
    Q ⟨name, constant, explicit, inferred, some (.function ⟨own, parameters, returns, ⟨body, inner⟩, outer⟩), group,
      span⟩

namespace StatementCases

variable {P : Node → Prop} {Q : Declaration → Prop}

mutual

/-- **An account of every kind of statement** is one of every statement. -/
theorem statement (cases : StatementCases P Q) : (node : Node) → P node
  | .declaration ⟨_, _, _, _, _, some members, _⟩ => cases.group _ _ _ _ _ _ (cases.declarations members)
  | .declaration ⟨name, constant, explicit, inferred, value, none, span⟩ =>
    cases.single _ _ _ _ _ _ (cases.declaration ⟨name, constant, explicit, inferred, value, none, span⟩)
  | .assignment _ _ _ => cases.assignment _ _ _
  | .returning none _ => cases.leaving _
  | .returning (some _) _ => cases.returning _ _
  | .expression _ _ => cases.expression _ _
  | .conditional _ ⟨consequence, _⟩ none _ => cases.conditional _ _ _ (cases.statements consequence)
  | .conditional _ ⟨consequence, _⟩ (some ⟨alternative, _⟩) _ =>
    cases.alternative _ _ _ _ (cases.statements consequence) (cases.statements alternative)
  | .function ⟨some _, _, _, ⟨body, _⟩, _⟩ => cases.function _ _ _ _ _ (cases.statements body)
  | .function ⟨none, _, _, _, _⟩ => cases.anonymous _ _ _ _
  | .program _ | .block _ | .identifier _ _ | .integer _ _ | .string _ _ | .boolean _ _ | .unary _ _ _
  | .binary _ _ _ _ | .call _ _ _ | .array _ _ _ _ | .index _ _ _ => cases.other _ rfl

theorem statements (cases : StatementCases P Q) : (nodes : List Node) → ∀ node ∈ nodes, P node
  | [] => List.forall_mem_nil _
  | node :: rest => List.forall_mem_cons.mpr ⟨cases.statement node, cases.statements rest⟩

theorem declaration (cases : StatementCases P Q) : (d : Declaration) → Q d
  | ⟨_, _, _, _, none, _, _⟩ => cases.plain _ rfl
  | ⟨_, _, _, _, some value, _, _⟩ =>
    match value with
    | .function ⟨_, _, _, ⟨body, _⟩, _⟩ => cases.value _ _ _ _ _ _ _ _ _ _ _ (cases.statements body)
    | .program _ | .identifier _ _ | .integer _ _ | .string _ _ | .boolean _ _ | .declaration _ | .assignment _ _ _
    | .returning _ _ | .expression _ _ | .block _ | .conditional _ _ _ _ | .unary _ _ _ | .binary _ _ _ _
    | .call _ _ _ | .array _ _ _ _ | .index _ _ _ => cases.plain _ rfl

theorem declarations (cases : StatementCases P Q) : (ds : List Declaration) → ∀ d ∈ ds, Q d
  | [] => List.forall_mem_nil _
  | d :: rest => List.forall_mem_cons.mpr ⟨cases.declaration d, cases.declarations rest⟩

end

end StatementCases

/-! ### How a statement can fail -/

mutual

/-- The errors that the emission of a statement can end with, those of the writer apart. -/
inductive Node.Fault : Node → Error → Prop
  | member {d member : Declaration} {members : List Declaration} {error : Error} : d.group = some members →
    member ∈ members → member.Fault error → Node.Fault (.declaration d) error
  | single {d : Declaration} {error : Error} : d.group = none → d.Fault error → Node.Fault (.declaration d) error
  | undeclared (name : String) (value : Node) (span : Span) :
    Node.Fault (.assignment name value span) ⟨.undeclared name, span.start⟩
  | assignToConstant (name : String) (value : Node) (span : Span) :
    Node.Fault (.assignment name value span) ⟨.assignToConstant name, span.start⟩
  | operand {node operand : Node} {error : Error} : operand ∈ node.operands → operand.target = .error error →
    Node.Fault node error
  | inside {node statement : Node} {error : Error} : statement ∈ node.statements → statement.Fault error →
    Node.Fault node error
  | anonymous {f : Function} : f.name = none → Node.Fault (.function f) (Node.function f).unsupported
  | unsupported {node : Node} : node.isStatement = false → Node.Fault node node.unsupported

/-- The errors that the emission of a single declaration can end with. -/
inductive Declaration.Fault : Declaration → Error → Prop
  | constant {d : Declaration} {error : Error} : d.bindsFunction = false → requireConstant d = .error error →
    Declaration.Fault d error
  | type {d : Declaration} {error : Error} (scopes : ScopeTree) : d.bindsFunction = false →
    scopes.declaredType d = .error error → Declaration.Fault d error
  | line {d : Declaration} {error : Error} (type : GoType) : d.bindsFunction = false → d.line type = .error error →
    Declaration.Fault d error
  | body {d : Declaration} {f : Function} {statement : Node} {error : Error} : d.value = some (.function f) →
    statement ∈ f.body.body → statement.Fault error → Declaration.Fault d error

end

end GoScript
