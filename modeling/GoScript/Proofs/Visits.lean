import GoScript.Proofs.Lines
import GoScript.Proofs.Origins
import GoScript.Proofs.LexicalScoping

/-!
# What an emission comes to

An emission that succeeds has gone through every statement of the program, and when it came to one, its scopes held the
names that are visible there.  A name is recorded as what introduced it, with one exception: a constant whose value is a
function is recorded as a function.

* `emitBinding_ok`, `emitAssignment_ok`, `emitFunction_ok`, `emitConditional_ok` — what an emission that succeeds does
* `Emitter.Enters` — to emit a statement is to emit some statements inside it, from a certain emitter on
* `Emitter.GoesThrough`, `Emitter.ComesTo` — the blocks and the statements that an emission comes to
* `Emitter.Records` — the scopes of an emitter hold the visible names
* `Visited` — what it means for a node of the tree that the emission has come to it
* `visited_of_stands`, `comesTo_declaration` — the emission has come to every node, and to every declaration
-/

namespace GoScript

open Outcome Lexical

/-! ### Steps that succeed -/

namespace Emitter

/-- The emitter after one more binding in its current scope. -/
def bound (emitter : Emitter) (binding : Binding) : Emitter :=
  { emitter with scopes := emitter.scopes.declare binding }

/-- The emitter before the body of a function: the name is bound, the first line is written, and the parameters are
bound in a scope of their own. -/
def inFunction (emitter : Emitter) (name : String) (parameters : List Parameter) (result : GoType) : Emitter :=
  (parameters.map Parameter.binding).foldl bound
    ((emitter.bound ⟨name, result, .function⟩).wrote (functionHead name parameters result)).enter

end Emitter

variable {here there : Emitter}

theorem putLine_ok {line : String} (h : EmitM.putLine line here = .ok () there) : there = here.wrote line := by
  rw [EmitM.putLine_sink] at h
  split at h
  · cases h
    rfl
  · cases h

theorem check_ok {α : Type} {outcome : Except Error α} {value : α} (h : EmitM.check outcome here = .ok value there) :
    outcome = .ok value ∧ here = there := by
  cases outcome with
  | ok value' =>
    cases h
    exact ⟨rfl, rfl⟩
  | error error => cases h

theorem indented_ok {body : EmitM Unit} (h : EmitM.indented body here = .ok () there) :
    ∃ inner, body here.enter = .ok () inner ∧ there = inner.leave := by
  rw [EmitM.indented] at h
  cases hbody : body here.enter with
  | ok value inner =>
    rw [hbody] at h
    cases h
    exact ⟨inner, rfl, rfl⟩
  | error error inner =>
    rw [hbody] at h
    cases h

/-- **A binding** that is emitted: the type is the declared one, under which the name is bound, and the line has it. -/
theorem emitBinding_ok {d : Declaration} (h : emitBinding d here = .ok () there) :
    ∃ type line, here.scopes.declaredType d = .ok type ∧ d.line type = .ok line ∧
      there = (here.bound ⟨d.name, type, if d.constant then .constant else .mutable⟩).wrote line := by
  obtain ⟨_, _, hrequired, h⟩ := ok_of_bind h
  obtain ⟨_, rfl⟩ := check_ok hrequired
  obtain ⟨emitter, _, hget, h⟩ := ok_of_bind h
  cases hget
  obtain ⟨type, _, hdeclared, h⟩ := ok_of_bind h
  obtain ⟨htype, rfl⟩ := check_ok hdeclared
  obtain ⟨line, _, hwritten, h⟩ := ok_of_bind h
  obtain ⟨hline, rfl⟩ := check_ok hwritten
  obtain ⟨_, _, hdeclare, h⟩ := ok_of_bind h
  cases hdeclare
  exact ⟨type, line, htype, hline, putLine_ok h⟩

/-- **An assignment** that is emitted: the name is bound, and not to a constant. -/
theorem emitAssignment_ok {name : String} {value : Node} {position : Position}
    (h : emitAssignment name value position here = .ok () there) :
    ∃ binding text, here.scopes.lookup name = some binding ∧ binding.isConstant = false ∧ value.target = .ok text ∧
      there = here.wrote (name ++ " = " ++ text ++ ";") := by
  obtain ⟨found, _, hlookup, h⟩ := ok_of_bind h
  cases hlookup
  cases hfound : here.scopes.lookup name with
  | none =>
    rw [hfound] at h
    cases h
  | some binding =>
    rw [hfound] at h
    dsimp only at h
    by_cases hconstant : binding.isConstant
    · rw [if_pos hconstant] at h
      cases h
    · rw [if_neg hconstant] at h
      obtain ⟨text, _, hwritten, h⟩ := ok_of_bind h
      obtain ⟨htext, rfl⟩ := check_ok hwritten
      exact ⟨binding, text, rfl, by simpa using hconstant, htext, putLine_ok h⟩

theorem declareAll_run (parameters : List Parameter) (emitter : Emitter) :
    parameters.forM (EmitM.declare ·.binding) emitter =
      .ok () ((parameters.map Parameter.binding).foldl Emitter.bound emitter) := by
  induction parameters generalizing emitter with
  | nil => rfl
  | cons parameter rest ih => exact ih _

/-- **A function** that is emitted: so is its body, from where its name and its parameters are bound. -/
theorem emitFunction_ok {name : String} {parameters : List Parameter} {result : GoType} {body : EmitM Unit}
    (h : emitFunction name parameters result body here = .ok () there) :
    ∃ inner, body (here.inFunction name parameters result) = .ok () inner ∧ there = inner.leave.wrote "\x7d" := by
  obtain ⟨_, _, hdeclare, h⟩ := ok_of_bind h
  cases hdeclare
  obtain ⟨_, _, hhead, h⟩ := ok_of_bind h
  cases putLine_ok hhead
  obtain ⟨_, _, hindented, h⟩ := ok_of_bind h
  obtain ⟨inner, hinner, rfl⟩ := indented_ok hindented
  rw [bind_of_ok (declareAll_run parameters _)] at hinner
  exact ⟨inner, hinner, putLine_ok h⟩

/-- The emitter before the first block of a conditional. -/
def Emitter.inConsequence (emitter : Emitter) (condition : String) : Emitter :=
  (emitter.wrote ("if (" ++ condition ++ ") \x7b")).enter

/-- The emitter before the second block of a conditional, after the first one. -/
def Emitter.inAlternative (emitter : Emitter) : Emitter :=
  (emitter.leave.wrote "\x7d else \x7b").enter

/-- **A conditional** that is emitted: so are its blocks, the second one after the first. -/
theorem emitConditional_ok {condition : Node} {consequence : Block} {alternative : Option Block} {span : Span}
    (h : (Node.conditional condition consequence alternative span).emit here = .ok () there) :
    ∃ text middle, condition.target = .ok text ∧
      Node.emitAll consequence.body (here.inConsequence text) = .ok () middle ∧
      match alternative with
      | none => there = middle.leave.wrote "\x7d"
      | some block => ∃ last, Node.emitAll block.body middle.inAlternative = .ok () last ∧
          there = last.leave.wrote "\x7d" := by
  obtain ⟨consequence, _⟩ := consequence
  rw [Node.emit] at h
  obtain ⟨text, _, hwritten, h⟩ := ok_of_bind h
  obtain ⟨htext, rfl⟩ := check_ok hwritten
  obtain ⟨_, _, hhead, h⟩ := ok_of_bind h
  cases putLine_ok hhead
  obtain ⟨_, _, hindented, h⟩ := ok_of_bind h
  obtain ⟨middle, hmiddle, rfl⟩ := indented_ok hindented
  refine ⟨text, middle, htext, hmiddle, ?_⟩
  cases alternative with
  | none => exact putLine_ok h
  | some block =>
    obtain ⟨statements, _⟩ := block
    obtain ⟨_, _, hotherwise, h⟩ := ok_of_bind h
    cases putLine_ok hotherwise
    obtain ⟨_, _, hindented', h⟩ := ok_of_bind h
    obtain ⟨last, hlast, rfl⟩ := indented_ok hindented'
    exact ⟨last, hlast, putLine_ok h⟩

theorem emitAll_append_ok {front back : List Node} :
    Node.emitAll (front ++ back) here = .ok () there ↔
      ∃ middle, Node.emitAll front here = .ok () middle ∧ Node.emitAll back middle = .ok () there := by
  induction front generalizing here with
  | nil => simp [Node.emitAll, pure, EStateM.pure]
  | cons node rest ih =>
    constructor
    · intro h
      obtain ⟨_, middle, hnode, h⟩ := ok_of_bind h
      obtain ⟨last, hrest, hback⟩ := ih.mp h
      exact ⟨last, (bind_of_ok hnode).trans hrest, hback⟩
    · rintro ⟨last, hfront, hback⟩
      obtain ⟨_, middle, hnode, hrest⟩ := ok_of_bind hfront
      exact (bind_of_ok hnode).trans (ih.mpr ⟨last, hrest, hback⟩)

theorem emitAll_cons_ok {node : Node} {rest : List Node} (h : Node.emitAll (node :: rest) here = .ok () there) :
    ∃ middle, node.emit here = .ok () middle ∧ Node.emitAll rest middle = .ok () there := by
  obtain ⟨_, middle, hnode, hrest⟩ := ok_of_bind h
  exact ⟨middle, hnode, hrest⟩

/-- The members of a group are emitted like statements of their own. -/
theorem Declaration.emitAll_eq {members : List Declaration} (h : ∀ member ∈ members, member.group = none) :
    (Declaration.emitAll members : EmitM Unit) = Node.emitAll (members.map .declaration) := by
  induction members with
  | nil => rfl
  | cons member rest ih =>
    have hrest := ih fun other hother => h other (List.mem_cons_of_mem member hother)
    rw [Declaration.emitAll, List.map_cons, Node.emitAll, hrest, Node.emit_single (h member List.mem_cons_self)]

/-! ### Blocks and statements that are come to -/

namespace Emitter

/-- When the emitter `here` comes to a statement, it goes on with the statements `body` inside it from `inner` on. -/
inductive Enters (here : Emitter) : Node → Emitter → List Node → Prop
  | members {d : Declaration} {members : List Declaration} : d.group = some members →
    Enters here (.declaration d) here (members.map .declaration)
  | value {d : Declaration} {f : Function} : d.group = none → d.value = some (.function f) →
    Enters here (.declaration d) (here.inFunction d.name f.parameters f.returnType) f.body.body
  | function {f : Function} {name : String} : f.name = some name →
    Enters here (.function f) (here.inFunction name f.parameters f.returnType) f.body.body
  | consequence {condition : Node} {consequence : Block} {alternative : Option Block} {span : Span} {text : String} :
    condition.target = .ok text →
    Enters here (.conditional condition consequence alternative span) (here.inConsequence text) consequence.body
  | alternative {condition : Node} {consequence alternative : Block} {span : Span} {text : String} {middle : Emitter} :
    condition.target = .ok text → Node.emitAll consequence.body (here.inConsequence text) = .ok () middle →
    Enters here (.conditional condition consequence (some alternative) span) middle.inAlternative alternative.body

/-- The emission of some statements from `start` on goes through the block `body` from `inner` on. -/
inductive GoesThrough (start : Emitter) (statements : List Node) : Emitter → List Node → Prop
  | self : GoesThrough start statements start statements
  | enter {outer here inner : Emitter} {before rest body : List Node} {node : Node} :
    GoesThrough start statements outer (before ++ node :: rest) → Node.emitAll before outer = .ok () here →
    here.Enters node inner body → GoesThrough start statements inner body

/-- The emission of some statements from `start` on comes to the statement `node` with the emitter `here`. -/
def ComesTo (start : Emitter) (statements : List Node) (here : Emitter) (node : Node) : Prop :=
  ∃ outer before rest, start.GoesThrough statements outer (before ++ node :: rest) ∧
    Node.emitAll before outer = .ok () here

theorem Enters.within {inner : Emitter} {node : Node} {body : List Node} (h : here.Enters node inner body) :
    ∀ statement ∈ body, statement.Within node := by
  intro statement hmem
  cases h with
  | members hgroup => exact .part (List.mem_append_right _ (by rwa [hgroup])) (.self _)
  | @value d f _ hvalue =>
    have hfunction : Node.function f ∈ (Node.declaration d).parts := List.mem_append_left _ (by simp [hvalue])
    exact .part hfunction (.part hmem (.self _))
  | function => exact .part hmem (.self _)
  | consequence => exact .part (List.mem_cons_of_mem _ (List.mem_append_left _ hmem)) (.self _)
  | alternative => exact .part (List.mem_cons_of_mem _ (List.mem_append_right _ hmem)) (.self _)

/-- If a statement is emitted, so is what stands inside it. -/
theorem Enters.ok {inner : Emitter} {node : Node} {body : List Node} (h : here.Enters node inner body)
    (hsound : node.Sound) (hok : node.emit here = .ok () there) : ∃ last, Node.emitAll body inner = .ok () last := by
  cases h with
  | @members d members hgroup =>
    have hformed : d.Formed := hsound _ (.self _)
    obtain ⟨name, constant, explicit, inferred, value, group, span⟩ := d
    obtain rfl : group = some members := hgroup
    refine ⟨there, ?_⟩
    rw [← Declaration.emitAll_eq fun member hmember => (hformed.2.2.2 member hmember).1]
    exact hok
  | @value d f hgroup hvalue =>
    obtain ⟨name, constant, explicit, inferred, value, group, span⟩ := d
    obtain rfl : group = none := hgroup
    obtain rfl : value = some (.function f) := hvalue
    obtain ⟨_, parameters, returns, ⟨body, _⟩, _⟩ := f
    obtain ⟨last, hlast, _⟩ := emitFunction_ok hok
    exact ⟨last, hlast⟩
  | @function f name hname =>
    obtain ⟨_, parameters, returns, ⟨body, _⟩, _⟩ := f
    cases hname
    obtain ⟨last, hlast, _⟩ := emitFunction_ok hok
    exact ⟨last, hlast⟩
  | consequence htext =>
    obtain ⟨text, middle, htext', hmiddle, _⟩ := emitConditional_ok hok
    cases htext.symm.trans htext'
    exact ⟨middle, hmiddle⟩
  | alternative htext hfirst =>
    obtain ⟨text, middle, htext', hmiddle, last, hlast, _⟩ := emitConditional_ok hok
    cases htext.symm.trans htext'
    cases hfirst.symm.trans hmiddle
    exact ⟨last, hlast⟩

variable {start finish outer : Emitter} {statements body : List Node} {node : Node}

theorem GoesThrough.ok (h : start.GoesThrough statements outer body) (hsound : ∀ node ∈ statements, node.Sound)
    (hok : Node.emitAll statements start = .ok () finish) :
    (∀ node ∈ body, node.Sound) ∧ ∃ last, Node.emitAll body outer = .ok () last := by
  induction h with
  | self => exact ⟨hsound, finish, hok⟩
  | enter _ hbefore henters ih =>
    obtain ⟨hsounds, last, hlast⟩ := ih
    have hnode := hsounds _ (List.mem_append_right _ List.mem_cons_self)
    obtain ⟨middle, hmiddle, hlast⟩ := emitAll_append_ok.mp hlast
    cases hmiddle.symm.trans hbefore
    obtain ⟨next, hnext, _⟩ := emitAll_cons_ok hlast
    exact ⟨fun statement hmem => hnode.within (henters.within statement hmem), henters.ok hnode hnext⟩

/-- **What a successful emission comes to, it emits.** -/
theorem ComesTo.ok (h : start.ComesTo statements here node) (hsound : ∀ node ∈ statements, node.Sound)
    (hok : Node.emitAll statements start = .ok () finish) : node.Sound ∧ ∃ next, node.emit here = .ok () next := by
  obtain ⟨outer, before, rest, hthrough, hbefore⟩ := h
  obtain ⟨hsounds, last, hlast⟩ := hthrough.ok hsound hok
  obtain ⟨middle, hmiddle, hlast⟩ := emitAll_append_ok.mp hlast
  cases hmiddle.symm.trans hbefore
  obtain ⟨next, hnext, _⟩ := emitAll_cons_ok hlast
  exact ⟨hsounds _ (List.mem_append_right _ List.mem_cons_self), next, hnext⟩

end Emitter

/-! ### What the scopes hold -/

/-- What a name is recorded as.  A function is one, whatever it was declared as. -/
def Origin.recorded : Origin → BindingKind
  | builtin _ => .builtin
  | function _ => .function
  | parameter _ => .parameter
  | declaration d => if d.bindsFunction then .function else if d.constant then .constant else .mutable

namespace Emitter

/-- The scopes of the emitter hold the visible names, each recorded as what introduced it. -/
def Records (emitter : Emitter) (origins : Origins) : Prop :=
  ∃ frames : Frames, emitter.Shows frames ∧
    frames.map (List.map fun binding => (binding.name, binding.kind)) =
      origins.map (List.map fun origin => (origin.name, origin.recorded))

variable {emitter : Emitter} {origins : Origins}

theorem Records.wrote (h : emitter.Records origins) (line : String) : (emitter.wrote line).Records origins :=
  h

theorem Records.bound (h : emitter.Records origins) {binding : Binding} {origin : Origin}
    (hname : binding.name = origin.name) (hkind : binding.kind = origin.recorded) :
    (emitter.bound binding).Records (origins.bind origin) := by
  obtain ⟨frames, hshows, hframes⟩ := h
  refine ⟨Lexical.bind binding frames, tables_declare_frames hshows binding, ?_⟩
  cases frames with
  | nil =>
    cases origins with
    | nil => simp [Lexical.bind, Origins.bind, hname, hkind]
    | cons => cases hframes
  | cons frame outer =>
    cases origins with
    | nil => cases hframes
    | cons block others =>
      obtain ⟨hframe, houter⟩ := List.cons_eq_cons.mp hframes
      simp only [Lexical.bind, Origins.bind, List.map_cons, hname, hkind, hframe, houter]

theorem Records.enter (h : emitter.Records origins) : emitter.enter.Records ([] :: origins) := by
  obtain ⟨frames, hshows, hframes⟩ := h
  refine ⟨[] :: frames, ?_, congrArg ([] :: ·) hframes⟩
  show emitter.scopes.enter.tables = _
  rw [ScopeTree.tables_enter, hshows]
  rfl

/-- After a block the names are those that were visible before it. -/
theorem Records.leave (h : emitter.Records origins) {inner : Emitter} (hstays : emitter.enter.Stays inner) :
    inner.leave.Records origins := by
  obtain ⟨frames, hshows, hframes⟩ := h
  refine ⟨frames, ?_, hframes⟩
  show inner.scopes.leave.tables = _
  rw [ScopeTree.tables_leave hstays.scopes]
  exact hshows

/-- Parameters are bound one after the other. -/
theorem Records.parameters (parameters : List Parameter) {block : List Origin}
    (h : emitter.Records (block :: origins)) :
    ((parameters.map Parameter.binding).foldl Emitter.bound emitter).Records
      (((parameters.map Origin.parameter).reverse ++ block) :: origins) := by
  induction parameters generalizing emitter block with
  | nil => exact h
  | cons parameter rest ih =>
    have hbound := h.bound (show parameter.binding.name = (Origin.parameter parameter).name from rfl) rfl
    have hrest := ih hbound
    simpa using hrest

theorem Records.inFunction (h : emitter.Records origins) {name : String} {origin : Origin} (hname : name = origin.name)
    (hkind : BindingKind.function = origin.recorded) (parameters : List Parameter) (result : GoType) :
    (emitter.inFunction name parameters result).Records
      ((parameters.map Origin.parameter).reverse :: origins.bind origin) := by
  have hbound : (emitter.bound ⟨name, result, .function⟩).Records (origins.bind origin) := h.bound hname hkind
  have hinside := (hbound.wrote (functionHead name parameters result)).enter.parameters parameters
  rwa [List.append_nil] at hinside

/-- A name is looked up as the origin that is visible. -/
theorem Records.lookup (h : emitter.Records origins) (name : String) :
    (emitter.scopes.lookup name).map Binding.kind = (origins.lookup name).map Origin.recorded := by
  obtain ⟨frames, hshows, hframes⟩ := h
  rw [hshows.lookup]
  have hpairs : ∀ {α : Type} (key : α → String) (kind : α → BindingKind) (lists : List (List α)),
      (lists.findSome? (·.find? (key · == name))).map kind =
        ((lists.map (List.map fun item => (key item, kind item))).findSome? (·.find? (·.1 == name))).map Prod.snd := by
    intro α key kind lists
    induction lists with
    | nil => rfl
    | cons list rest ih =>
      have hfind : (list.map fun item => (key item, kind item)).find? (·.1 == name) =
          (list.find? (key · == name)).map fun item => (key item, kind item) := List.find?_map
      rw [List.map_cons, List.findSome?_cons, List.findSome?_cons, hfind]
      cases list.find? (key · == name) with
      | none => exact ih
      | some item => rfl
  exact (hpairs Binding.name Binding.kind frames).trans
    ((congrArg (fun lists => (lists.findSome? (·.find? (·.1 == name))).map Prod.snd) hframes).trans
      (hpairs Origin.name Origin.recorded origins).symm)

end Emitter

/-! ### Statements keep the record -/

theorem emitAll_stays {nodes : List Node} (h : Node.emitAll nodes here = .ok () there) : here.Stays there := by
  obtain ⟨frame, outer, hshows⟩ := here.exists_shows
  have hagree := (emitAll_simulates nodes here _ hshows).success_or_failure
  rw [h] at hagree
  obtain ⟨_, _, hafter, _, hstays, _⟩ | ⟨_, _, hafter, _⟩ := hagree
  · cases hafter
    exact hstays
  · cases hafter

theorem Emitter.stays_parameters (bindings : List Binding) (emitter : Emitter) :
    emitter.Stays (bindings.foldl Emitter.bound emitter) := by
  induction bindings generalizing emitter with
  | nil => exact ⟨rfl, rfl, .refl _⟩
  | cons binding rest ih =>
    have hbound : emitter.Stays (emitter.bound binding) := ⟨rfl, rfl, .declare _ binding⟩
    exact hbound.trans (ih _)

theorem emitFunction_records {origins : Origins} (h : here.Records origins) {origin : Origin} {name : String}
    (hname : name = origin.name) (hkind : BindingKind.function = origin.recorded) {parameters : List Parameter}
    {result : GoType} {body : List Node}
    (hok : emitFunction name parameters result (Node.emitAll body) here = .ok () there) :
    there.Records (origins.bind origin) := by
  obtain ⟨inner, hinner, rfl⟩ := emitFunction_ok hok
  have hbound : (here.bound ⟨name, result, .function⟩).Records (origins.bind origin) := h.bound hname hkind
  have hhead := hbound.wrote (functionHead name parameters result)
  exact (hhead.leave ((Emitter.stays_parameters _ _).trans (emitAll_stays hinner))).wrote _

theorem emitDeclaration_records {origins : Origins} (h : here.Records origins) {d : Declaration}
    (hok : d.emit here = .ok () there) : there.Records (origins.bind (.declaration d)) := by
  cases hfunction : d.bindsFunction with
  | false =>
    rw [Declaration.emit_of_plain hfunction] at hok
    obtain ⟨type, line, _, _, rfl⟩ := emitBinding_ok hok
    refine (h.bound rfl ?_).wrote _
    rw [Origin.recorded, hfunction]
    rfl
  | true =>
    have hkind : BindingKind.function = (Origin.declaration d).recorded := by
      rw [Origin.recorded, hfunction, if_pos rfl]
    obtain ⟨name, constant, explicit, inferred, value, group, span⟩ := d
    cases value with
    | none => cases hfunction
    | some value =>
      cases value with
      | function f =>
        obtain ⟨_, parameters, returns, ⟨body, _⟩, _⟩ := f
        exact emitFunction_records h rfl hkind hok
      | _ => cases hfunction

theorem emitDeclarations_records {members : List Declaration} {origins : Origins} (h : here.Records origins)
    (hok : Declaration.emitAll members here = .ok () there) :
    there.Records (origins.bindAll (members.map .declaration)) := by
  induction members generalizing here origins with
  | nil =>
    cases hok
    exact h
  | cons member rest ih =>
    obtain ⟨_, middle, hmember, hrest⟩ := ok_of_bind hok
    exact ih (emitDeclaration_records h hmember) hrest

/-- **After a statement** the scopes hold what it introduces too. -/
theorem emit_records {node : Node} {origins : Origins} (h : here.Records origins)
    (hok : node.emit here = .ok () there) : there.Records (origins.bindAll node.introduced) := by
  cases node with
  | declaration d =>
    obtain ⟨name, constant, explicit, inferred, value, group, span⟩ := d
    cases group with
    | some members => exact emitDeclarations_records h hok
    | none => exact emitDeclaration_records h hok
  | assignment name value span =>
    obtain ⟨_, _, _, _, _, rfl⟩ := emitAssignment_ok hok
    exact h.wrote _
  | returning value span =>
    cases value with
    | none =>
      cases putLine_ok hok
      exact h.wrote _
    | some value =>
      obtain ⟨text, _, hwritten, hok⟩ := ok_of_bind hok
      obtain ⟨_, rfl⟩ := check_ok hwritten
      cases putLine_ok hok
      exact h.wrote _
  | expression e span =>
    obtain ⟨text, _, hwritten, hok⟩ := ok_of_bind hok
    obtain ⟨_, rfl⟩ := check_ok hwritten
    cases putLine_ok hok
    exact h.wrote _
  | conditional condition consequence alternative span =>
    obtain ⟨text, middle, _, hmiddle, hlast⟩ := emitConditional_ok hok
    have hfirst : middle.leave.Records origins := (h.wrote _).leave (emitAll_stays hmiddle)
    cases alternative with
    | none =>
      cases hlast
      exact hfirst.wrote _
    | some block =>
      obtain ⟨last, hlast, rfl⟩ := hlast
      exact ((hfirst.wrote _).leave (emitAll_stays hlast)).wrote _
  | function f =>
    obtain ⟨name, parameters, returns, ⟨body, _⟩, span⟩ := f
    cases name with
    | none => cases hok
    | some name => exact emitFunction_records h (show name = (Origin.function name).name from rfl) rfl hok
  | _ => cases hok

theorem emitAll_records {nodes : List Node} {origins : Origins} (h : here.Records origins)
    (hok : Node.emitAll nodes here = .ok () there) :
    there.Records (origins.bindAll (nodes.flatMap Node.introduced)) := by
  induction nodes generalizing here origins with
  | nil =>
    cases hok
    exact h
  | cons node rest ih =>
    obtain ⟨middle, hnode, hrest⟩ := emitAll_cons_ok hok
    rw [List.flatMap_cons, Origins.bindAll_append]
    exact ih (emit_records h hnode) hrest

/-! ### Every node is come to -/

theorem targets_ok {nodes : List Node} {texts : List String} (h : Node.targets nodes = .ok texts) :
    ∀ node ∈ nodes, ∃ text, node.target = .ok text := by
  induction nodes generalizing texts with
  | nil =>
    intro node hmem
    cases hmem
  | cons first rest ih =>
    rw [Node.targets] at h
    obtain ⟨text, hfirst, h⟩ := ok_of_check h
    obtain ⟨texts, hrest, _⟩ := ok_of_check h
    intro node hmem
    rcases List.mem_cons.mp hmem with rfl | hmem
    · exact ⟨text, hfirst⟩
    · exact ih hrest node hmem

/-- If an expression has a text, so have its parts. -/
theorem target_ok_of_mem_parts {node part : Node} {text : String} (h : node.target = .ok text)
    (hmem : part ∈ node.parts) : ∃ text, part.target = .ok text := by
  cases node with
  | unary operator operand span =>
    obtain rfl := List.mem_singleton.mp hmem
    rw [Node.target] at h
    obtain ⟨text, htext, _⟩ := ok_of_check h
    exact ⟨text, htext⟩
  | binary left operator right span =>
    rw [Node.target] at h
    obtain ⟨leftText, hleft, h⟩ := ok_of_check h
    obtain ⟨rightText, hright, _⟩ := ok_of_check h
    obtain rfl | rfl : part = left ∨ part = right := by simpa [Node.parts] using hmem
    · exact ⟨leftText, hleft⟩
    · exact ⟨rightText, hright⟩
  | call callee arguments span =>
    rw [Node.target] at h
    obtain ⟨texts, htexts, _⟩ := ok_of_check h
    exact targets_ok htexts part hmem
  | array element form elements span =>
    cases elements with
    | none => cases hmem
    | some nodes =>
      rw [Node.target] at h
      obtain ⟨texts, htexts, _⟩ := ok_of_check h
      exact targets_ok htexts part hmem
  | index collection position span =>
    rw [Node.target] at h
    obtain ⟨text, hcollection, h⟩ := ok_of_check h
    obtain ⟨positionText, hposition, _⟩ := ok_of_check h
    obtain rfl | rfl : part = collection ∨ part = position := by simpa [Node.parts] using hmem
    · exact ⟨text, hcollection⟩
    · exact ⟨positionText, hposition⟩
  | identifier | integer | string | boolean => cases hmem
  | _ => cases h

/-- The emission of some statements from `start` on has come to a node that sees `origins`: to a statement with scopes
that hold them, to the body of a function likewise, or to an expression, which has a text. -/
inductive Visited (start : Emitter) (statements : List Node) : Origins → Node → Prop
  | statement {here : Emitter} {origins : Origins} {node : Node} : start.ComesTo statements here node →
    here.Records origins → node.isFunction = false → Visited start statements origins node
  | function {inner : Emitter} {origins : Origins} {f : Function} : start.GoesThrough statements inner f.body.body →
    inner.Records ((f.parameters.map Origin.parameter).reverse :: origins) →
    Visited start statements origins (.function f)
  | expression {origins : Origins} {node : Node} {text : String} : node.target = .ok text →
    Visited start statements origins node

section

variable {start finish inner : Emitter} {statements body : List Node} {origins visible : Origins} {node part : Node}
variable (hsound : ∀ node ∈ statements, node.Sound) (hok : Node.emitAll statements start = .ok () finish)
include hsound hok

/-- The emission comes to each statement of a block that it goes through. -/
theorem visited_of_goesThrough (hthrough : start.GoesThrough statements inner body) (hrecords : inner.Records origins)
    (hmem : (visible, node) ∈ origins.inOrder body) : Visited start statements visible node := by
  obtain ⟨before, rest, rfl, rfl⟩ := Origins.mem_inOrder hmem
  obtain ⟨_, last, hlast⟩ := hthrough.ok hsound hok
  obtain ⟨here, hbefore, hlast⟩ := emitAll_append_ok.mp hlast
  obtain ⟨next, hnext, _⟩ := emitAll_cons_ok hlast
  have hhere := emitAll_records hrecords hbefore
  by_cases hfunction : node.isFunction = true
  · cases node with
    | function f =>
      cases hname : f.name with
      | none =>
        obtain ⟨_, parameters, returns, body, span⟩ := f
        cases hname
        cases hnext
      | some name =>
        have hinside := hhere.inFunction (show name = (Origin.function name).name from rfl) rfl f.parameters
          f.returnType
        refine .function (hthrough.enter hbefore (.function hname)) ?_
        rw [if_pos hfunction, Node.introduced, hname]
        exact hinside
    | _ => cases hfunction
  · rw [if_neg hfunction]
    exact .statement ⟨inner, before, rest, hthrough, hbefore⟩ hhere (by simpa using hfunction)

/-- The emission comes to the value of a declaration: to the body of a function, and to anything else as a text. -/
theorem visited_of_value {here : Emitter} {d : Declaration} (hcomes : start.ComesTo statements here (.declaration d))
    (hrecords : here.Records origins) (hgroup : d.group = none)
    (hmem : (visible, part) ∈ (Node.declaration d).under origins) : Visited start statements visible part := by
  obtain ⟨_, next, hnext⟩ := hcomes.ok hsound hok
  obtain ⟨outer, before, rest, hthrough, hbefore⟩ := hcomes
  rw [Node.under_single hgroup, List.mem_map] at hmem
  obtain ⟨value, hvalue, hplace⟩ := hmem
  rw [Option.mem_toList] at hvalue
  obtain ⟨rfl, rfl⟩ := Prod.mk.inj hplace
  cases hfunction : value.isFunction with
  | true =>
    cases value with
    | function f =>
      have hkind : BindingKind.function = (Origin.declaration d).recorded := by
        rw [Origin.recorded, Declaration.bindsFunction, hvalue]
        rfl
      have hinside := hrecords.inFunction (show d.name = (Origin.declaration d).name from rfl) hkind f.parameters
        f.returnType
      exact .function (hthrough.enter hbefore (.value hgroup hvalue)) hinside
    | _ => cases hfunction
  | false =>
    have hplain : d.bindsFunction = false := by rw [Declaration.bindsFunction, hvalue, Option.any_some, hfunction]
    rw [Node.emit_single hgroup, Declaration.emit_of_plain hplain] at hnext
    obtain ⟨type, line, _, hline, _⟩ := emitBinding_ok hnext
    rw [Declaration.line, hvalue] at hline
    obtain ⟨text, htext, _⟩ := ok_of_check hline
    exact .expression htext

/-- **From a node to its parts.** -/
theorem Visited.under (h : Visited start statements origins node) (hmem : (visible, part) ∈ node.under origins) :
    Visited start statements visible part := by
  have hpart : part ∈ node.parts := by
    rw [← Node.map_under origins]
    exact List.mem_map_of_mem hmem
  cases h with
  | expression htext =>
    obtain ⟨text, htext⟩ := target_ok_of_mem_parts htext hpart
    exact .expression htext
  | function hthrough hrecords => exact visited_of_goesThrough hsound hok hthrough hrecords hmem
  | @statement here _ _ hcomes hrecords hfunction =>
    obtain ⟨hnode, next, hnext⟩ := hcomes.ok hsound hok
    obtain ⟨outer, before, rest, hthrough, hbefore⟩ := hcomes
    cases node with
    | declaration d =>
      obtain ⟨name, constant, explicit, inferred, value, group, span⟩ := d
      cases group with
      | some members =>
        have hformed : Declaration.Formed ⟨name, constant, explicit, inferred, value, some members, span⟩ :=
          hnode _ (.self _)
        obtain rfl : value = none := hformed.1
        exact visited_of_goesThrough hsound hok (hthrough.enter hbefore (.members rfl)) hrecords hmem
      | none =>
        exact visited_of_value hsound hok ⟨outer, before, rest, hthrough, hbefore⟩ hrecords rfl hmem
    | assignment name value span =>
      obtain rfl := List.mem_singleton.mp hpart
      obtain ⟨_, _, _, _, htext, _⟩ := emitAssignment_ok hnext
      exact .expression htext
    | returning value span =>
      obtain rfl : value = some part := by simpa [Node.parts] using hpart
      obtain ⟨text, _, hwritten, _⟩ := ok_of_bind hnext
      exact .expression (check_ok hwritten).1
    | expression e span =>
      obtain rfl := List.mem_singleton.mp hpart
      obtain ⟨text, _, hwritten, _⟩ := ok_of_bind hnext
      exact .expression (check_ok hwritten).1
    | conditional condition consequence alternative span =>
      obtain ⟨text, middle, htext, hmiddle, hlast⟩ := emitConditional_ok hnext
      rcases List.mem_cons.mp hmem with hmem | hmem
      · cases hmem
        exact .expression htext
      rcases List.mem_append.mp hmem with hmem | hmem
      · exact visited_of_goesThrough hsound hok (hthrough.enter hbefore (.consequence htext)) (hrecords.wrote _).enter
          hmem
      · cases alternative with
        | none => cases hmem
        | some block =>
          have hfirst : middle.leave.Records origins := (hrecords.wrote _).leave (emitAll_stays hmiddle)
          exact visited_of_goesThrough hsound hok (hthrough.enter hbefore (.alternative htext hmiddle))
            (hfirst.wrote _).enter hmem
    | function f => cases hfunction
    | _ => cases hnext

/-- **From a node to everything that stands in it.** -/
theorem Visited.stands (h : Visited start statements origins node) (hstands : Node.Stands origins node visible part) :
    Visited start statements visible part := by
  induction hstands with
  | self => exact h
  | part hmem _ ih => exact ih (h.under hsound hok hmem)

end

/-! ### Programs -/

variable {program : Program} {sink after : Sink} {options : Options}

/-- At the start of a program the scopes hold the builtins and its functions. -/
theorem Emitter.records_atStart (program : Program) (sink : Sink) (options : Options) :
    (Emitter.atStart program sink options).Records [globalOrigins program] := by
  refine ⟨_, Emitter.shows_atStart program sink options, ?_⟩
  have hfunctions : (functionBindings program.body).map (fun binding => (binding.name, binding.kind)) =
      (program.body.filterMap Node.functionName?).map fun name => (name, BindingKind.function) := by
    rw [functionBindings, List.map_filterMap, List.map_filterMap]
    congr 1
    funext node
    cases node with
    | function f =>
      show Option.map _ (f.name.map _) = Option.map _ f.name
      rw [Option.map_map]
      rfl
    | _ => rfl
  simp only [List.map_cons, List.map_nil, globalFrame_eq, globalOrigins, List.map_reverse, List.map_append, hfunctions,
    List.map_map]
  rfl

/-- If a program is emitted to its end, so are its statements. -/
theorem emitAll_of_emitInto (h : emitInto program sink options = (.ok (), after)) :
    ∃ finish, Node.emitAll program.body (.atStart program sink options) = .ok () finish := by
  rw [emitInto, emitTo, emitProgram_run] at h
  split at h
  · next last hrun =>
    obtain ⟨_, finish, hbody, _⟩ := ok_of_bind hrun
    exact ⟨finish, hbody⟩
  · cases h

/-- **The emission of a program comes to every node.**  If the tree is sound and is emitted to its end, then whatever
stands in it has been come to, with scopes that hold the names that are visible there. -/
theorem visited_of_stands (hsound : (Node.program program).Sound)
    (h : emitInto program sink options = (.ok (), after)) {origins : Origins} {node : Node}
    (hstands : Node.Stands [] (.program program) origins node) (hnode : node ≠ .program program) :
    Visited (.atStart program sink options) program.body origins node := by
  obtain ⟨finish, hok⟩ := emitAll_of_emitInto h
  have hsounds : ∀ statement ∈ program.body, statement.Sound := fun statement hmem =>
    hsound.within (.part hmem (.self _))
  cases hstands with
  | self => exact absurd rfl hnode
  | part hmem hstands =>
    have hrecords := Emitter.records_atStart program sink options
    exact (visited_of_goesThrough hsounds hok .self hrecords hmem).stands hsounds hok hstands

/-- The emission of a program comes to every declaration in it, and emits it there. -/
theorem comesTo_declaration (hsound : (Node.program program).Sound)
    (h : emitInto program sink options = (.ok (), after)) {d : Declaration}
    (within : (Node.declaration d).Within (.program program)) :
    (∃ here, (Emitter.atStart program sink options).ComesTo program.body here (.declaration d)) ∧
      ∀ here, (Emitter.atStart program sink options).ComesTo program.body here (.declaration d) →
        ∃ next, (Node.declaration d).emit here = .ok () next := by
  constructor
  · obtain ⟨origins, hstands⟩ := within.stands []
    cases visited_of_stands hsound h hstands (by simp) with
    | expression htext => cases htext
    | statement hcomes _ _ => exact ⟨_, hcomes⟩
  · intro here hcomes
    obtain ⟨finish, hok⟩ := emitAll_of_emitInto h
    exact (hcomes.ok (fun statement hmem => hsound.within (.part hmem (.self _))) hok).2

end GoScript
