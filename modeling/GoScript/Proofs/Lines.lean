import GoScript.Proofs.Emissions

/-!
# Emission as lines

The lines of an emission that comes to its end form blocks: what is opened at a level is closed at the same level, and
everything between stands one level deeper.  This is what the walk through the statements shows, together with the
errors that they can end with; every other account of the emitter follows from it.

* `Line.Opener`, `Line.Nested` — the lines that open a block, and the lists of lines that are properly nested
* `Sink.put` — a sink after some texts have been written one after the other
* `emit_lays` — every statement lays properly nested lines, or ends with an error of its own
* `emitTo_eq`, `emitInto_put` — what is written of a program and how it ends, for every writer and for every sink
* `emitInto_lines` — every program has its lines, and they are properly nested if it is emitted to its end
-/

namespace GoScript

open Outcome

/-! ### Blocks -/

namespace Line

/-- What stands on a line that opens a block. -/
inductive Opener : String → Prop
  | function (head : String) : Opener ("function " ++ head ++ "\x7b")
  | conditional (condition : String) : Opener ("if (" ++ condition ++ ") \x7b")
  | otherwise : Opener "\x7d else \x7b"

/-- What stands on a line that neither opens nor closes a block. -/
def Plain (text : String) : Prop :=
  ¬ Opener text ∧ text ≠ "\x7d"

/-- Lines that are properly nested, from one level on.  A plain line stands at that level.  The lines of a block stand
one level deeper, between the line that opens the block and the one that closes it; a condition may have a second block
right after the first one. -/
inductive Nested : (level : Nat) → List Line → Prop
  | done (level : Nat) : Nested level []
  | plain {level : Nat} {text : String} {rest : List Line} : Plain text → Nested level rest →
    Nested level (⟨level, text⟩ :: rest)
  | function {level : Nat} (head : String) {body rest : List Line} : Nested (level + 1) body → Nested level rest →
    Nested level (⟨level, "function " ++ head ++ "\x7b"⟩ :: (body ++ ⟨level, "\x7d"⟩ :: rest))
  | conditional {level : Nat} (condition : String) {body rest : List Line} : Nested (level + 1) body →
    Nested level rest →
    Nested level (⟨level, "if (" ++ condition ++ ") \x7b"⟩ :: (body ++ ⟨level, "\x7d"⟩ :: rest))
  | alternative {level : Nat} (condition : String) {body other rest : List Line} : Nested (level + 1) body →
    Nested (level + 1) other → Nested level rest →
    Nested level (⟨level, "if (" ++ condition ++ ") \x7b"⟩ ::
      (body ++ ⟨level, "\x7d else \x7b"⟩ :: (other ++ ⟨level, "\x7d"⟩ :: rest)))

theorem Nested.append {level : Nat} {front back : List Line} (h : Nested level front) (h' : Nested level back) :
    Nested level (front ++ back) := by
  induction h with
  | done => exact h'
  | plain htext _ ih => exact .plain htext (ih h')
  | function head hbody _ _ ih => simpa using Nested.function head hbody (ih h')
  | conditional condition hbody _ _ ih => simpa using Nested.conditional condition hbody (ih h')
  | alternative condition hbody hother _ _ _ ih => simpa using Nested.alternative condition hbody hother (ih h')

/-- Every line that ends in a semicolon is plain. -/
theorem plain_of_semicolon (text : String) : Plain (text ++ ";") := by
  have last : ∀ (front : String) (c : Char), text ++ ";" = front ++ String.singleton c → c = ';' := by
    intro front c h
    have hlist : text.toList ++ [';'] = front.toList ++ [c] := by
      simpa using congrArg String.toList h
    exact (List.cons.inj (List.append_inj' hlist rfl).2).1.symm
  constructor
  · intro h
    generalize htext : text ++ ";" = line at h
    cases h with
    | function head => exact absurd (last ("function " ++ head) '\x7b' htext) (by decide)
    | conditional condition =>
      have hhead : "if (" ++ condition ++ ") \x7b" = "if (" ++ condition ++ ") " ++ String.singleton '\x7b' := by
        have hbrace : ") \x7b" = ") " ++ String.singleton '\x7b' := rfl
        rw [hbrace, ← String.append_assoc]
      exact absurd (last ("if (" ++ condition ++ ") ") '\x7b' (htext.trans hhead)) (by decide)
    | otherwise => exact absurd (last "\x7d else " '\x7b' htext) (by decide)
  · intro h
    exact absurd (last "" '\x7d' h) (by decide)

end Line

/-! ### Writing texts -/

namespace Sink

/-- The sink after texts have been written to it one after the other up to the first one that does not fit, and whether
all of them do. -/
def put : Sink → List String → Bool × Sink
  | sink, [] => (true, sink)
  | sink, text :: rest => if sink.accepts text then (sink.write text).put rest else (false, sink.write text)

/-- A sink without a limit takes the whole of a text. -/
theorem write_of_unlimited {sink : Sink} (h : sink.limit = none) (text : String) :
    sink.write text = { sink with contents := sink.contents ++ text.toUTF8 } := by
  have hwhole : text.toUTF8.extract 0 text.utf8ByteSize = text.toUTF8 := ByteArray.extract_zero_size
  simp only [write, room, h, hwhole]

/-- Two texts one after the other are one text. -/
theorem write_write_of_unlimited {sink : Sink} (h : sink.limit = none) (front back : String) :
    (sink.write front).write back = sink.write (front ++ back) := by
  have hlimit : (sink.write front).limit = none := h
  rw [write_of_unlimited hlimit, write_of_unlimited h, write_of_unlimited h]
  simp [ByteArray.append_assoc]

/-- A sink without a limit takes every text. -/
theorem put_of_unlimited {sink : Sink} (h : sink.limit = none) (texts : List String) :
    sink.put texts = (true, { sink with contents := sink.contents ++ (String.join texts).toUTF8 }) := by
  induction texts generalizing sink with
  | nil => simp [put]
  | cons text rest ih =>
    have haccepts : sink.accepts text = true := by simp [accepts, room, h]
    have hlimit : (sink.write text).limit = none := h
    rw [put, if_pos haccepts, ih hlimit, write_of_unlimited h]
    simp [String.join_cons, ByteArray.append_assoc]

/-- A sink takes texts one after the other as long as they fit. -/
theorem writeAll_eq_put (sink : Sink) (texts : List String) :
    Writer.writeAll texts sink = match sink.put texts with
      | (true, after) => .ok () after
      | (false, after) => .error (.io "sink full") after := by
  induction texts generalizing sink with
  | nil => rfl
  | cons text rest ih =>
    have hwrite : (Writer.write text : EStateM Error Sink Unit) sink =
        if sink.accepts text then .ok () (sink.write text) else .error (.io "sink full") (sink.write text) := rfl
    rw [Writer.writeAll, bind_run, hwrite, put]
    by_cases hfits : sink.accepts text
    · rw [if_pos hfits, if_pos hfits]
      exact ih (sink.write text)
    · rw [if_neg hfits, if_neg hfits]

end Sink

/-- The emitter after one more line. -/
def Emitter.wrote (emitter : Emitter) (line : String) : Emitter :=
  { emitter with sink := emitter.sink.write (Line.render emitter.options.indent ⟨emitter.level, line⟩) }

/-- A line goes into a sink as far as it fits. -/
theorem EmitM.putLine_sink (line : String) (emitter : Emitter) :
    EmitM.putLine line emitter =
      if emitter.sink.accepts (Line.render emitter.options.indent ⟨emitter.level, line⟩) then
        .ok () (emitter.wrote line) else .error (.io "sink full") (emitter.wrote line) := by
  rw [EmitM.putLine_run, EmitM.writing]
  dsimp only [Writer.write]
  by_cases hfits : emitter.sink.accepts (Line.render emitter.options.indent ⟨emitter.level, line⟩)
  · rw [if_pos hfits, if_pos hfits]
    rfl
  · rw [if_neg hfits, if_neg hfits]
    rfl

/-- What an emission does if its lines fit into the sink. -/
theorem Emits.of_fits {emission : Emission} {scopes scopes' : ScopeTree} {level : Nat} {callMain : Bool}
    {lines : List Line} {outcome : Except Error Unit}
    (h : Emits emission scopes level callMain lines outcome scopes') {indent : String} {sink after : Sink}
    (hput : sink.put (lines.map (Line.render indent)) = (true, after)) :
    emission (.place scopes level callMain indent sink) =
      (Emitter.place scopes' level callMain indent after).endWith outcome :=
  h.written indent sink after (by rw [Sink.writeAll_eq_put, hput])

/-- What an emission does if its lines do not fit into the sink. -/
theorem Emits.of_full {emission : Emission} {scopes scopes' : ScopeTree} {level : Nat} {callMain : Bool}
    {lines : List Line} {outcome : Except Error Unit}
    (h : Emits emission scopes level callMain lines outcome scopes') {indent : String} {sink after : Sink}
    (hput : sink.put (lines.map (Line.render indent)) = (false, after)) :
    ∃ middle, scopes.Grows middle ∧ emission (.place scopes level callMain indent sink) =
      .error (.io "sink full") (.place middle level callMain indent after) :=
  h.refused indent sink after _ (by rw [Sink.writeAll_eq_put, hput])

theorem fromUTF8?_toUTF8 (text : String) : String.fromUTF8? text.toUTF8 = some text := by
  have hvalid : text.toUTF8.IsValidUTF8 := text.isValidUTF8
  rw [String.fromUTF8?, dif_pos hvalid]
  rfl

/-- The bytes of a text stand for that text. -/
theorem textOf_toUTF8 (text : String) : textOf text.toUTF8 = text := by
  have hwhole : textWithout? text.toUTF8 0 = some text := by
    rw [textWithout?, Nat.sub_zero, ByteArray.extract_zero_size, fromUTF8?_toUTF8]
    rfl
  rw [textOf, List.findSome?_cons, hwhole]
  rfl

/-! ### Statements -/

open Line (Nested)

section Statements

variable {Fault : Error → Prop}

/-- A line that ends in a semicolon. -/
theorem putLine_lays (text : String) : Lays (EmitM.putLine (text ++ ";")) Nested Fault := by
  refine (Lays.putLine (text ++ ";")).relayout ?_
  rintro level _ rfl
  exact .plain (Line.plain_of_semicolon text) (.done level)

theorem Declaration.line_eq_ok {d : Declaration} {type : GoType} {line : String} (h : d.line type = .ok line) :
    ∃ text, line = text ++ ";" := by
  rw [Declaration.line] at h
  split at h
  · next value _ =>
    cases htarget : value.target with
    | error error =>
      rw [htarget] at h
      cases h
    | ok text =>
      rw [htarget] at h
      cases h
      exact ⟨_, rfl⟩
  · cases h
    exact ⟨_, rfl⟩

theorem emitBinding_lays {d : Declaration} (hplain : d.bindsFunction = false) :
    Lays (emitBinding d) Nested d.Fault := by
  refine .check_bind (fun _ => .constant hplain) fun _ _ => .scopes_bind (fun scopes => do
    let type ← EmitM.check (scopes.declaredType d)
    let line ← EmitM.check (d.line type)
    EmitM.declare ⟨d.name, type, if d.constant then .constant else .mutable⟩
    EmitM.putLine line) fun scopes => ?_
  refine .check_bind (fun _ => .type scopes hplain) fun type _ => .check_bind (fun _ => .line type hplain)
    fun line hline => .declare_bind _ ?_
  obtain ⟨text, rfl⟩ := Declaration.line_eq_ok hline
  exact putLine_lays text

theorem emitAssignment_lays (name : String) (value : Node) (span : Span) :
    Lays (emitAssignment name value span.start) Nested (Node.assignment name value span).Fault := by
  refine .lookup_bind fun found => ?_
  cases found with
  | none => exact .throw (.undeclared name value span)
  | some binding =>
    by_cases hconstant : binding.isConstant
    · simp only [hconstant]
      exact .throw (.assignToConstant name value span)
    · simp only [hconstant]
      exact .check_bind (fun _ => .operand (by simp [Node.operands])) fun text _ => putLine_lays (name ++ " = " ++ text)

theorem emitFunction_lays (name : String) (parameters : List Parameter) (result : GoType) {body : Emission}
    (h : Lays body Nested Fault) : Lays (emitFunction name parameters result body) Nested Fault := by
  have hhead : functionHead name parameters result = "function " ++ (name ++ "(" ++
      ", ".intercalate (parameters.map Parameter.target) ++ "): " ++ result.target ++ " ") ++ "\x7b" := by
    have hbrace : " \x7b" = " " ++ "\x7b" := rfl
    simp only [functionHead, hbrace, String.append_assoc]
  refine .declare_bind _ ((Lays.block _ (.parameters_bind parameters h) (.putLine "\x7d")).relayout ?_)
  rintro level _ ⟨inner, _, rfl, hinner, rfl⟩
  rw [hhead]
  exact .function _ hinner (.done level)

theorem conditional_lays (condition : String) {consequence : Emission} (h : Lays consequence Nested Fault) :
    Lays (do
      EmitM.putLine ("if (" ++ condition ++ ") \x7b")
      EmitM.indented consequence
      EmitM.putLine "\x7d") Nested Fault := by
  refine (Lays.block _ h (.putLine "\x7d")).relayout ?_
  rintro level _ ⟨inner, _, rfl, hinner, rfl⟩
  exact .conditional condition hinner (.done level)

theorem alternative_lays (condition : String) {consequence alternative : Emission} (h : Lays consequence Nested Fault)
    (h' : Lays alternative Nested Fault) :
    Lays (do
      EmitM.putLine ("if (" ++ condition ++ ") \x7b")
      EmitM.indented consequence
      EmitM.putLine "\x7d else \x7b"
      EmitM.indented alternative
      EmitM.putLine "\x7d") Nested Fault := by
  refine (Lays.block _ h (.block _ h' (.putLine "\x7d"))).relayout ?_
  rintro level _ ⟨inner, _, rfl, hinner, other, _, rfl, hother, rfl⟩
  exact .alternative condition hinner hother (.done level)

theorem sequence_lays {emission next : Emission} (first : Lays emission Nested Fault) (rest : Lays next Nested Fault) :
    Lays (emission >>= fun _ => next) Nested Fault := by
  refine (first.bind rest).relayout ?_
  rintro level _ ⟨front, back, rfl, hfront, hback⟩
  exact hfront.append hback

theorem done_lays : Lays (pure ()) Nested Fault := by
  refine Lays.done.relayout ?_
  rintro level _ rfl
  exact .done level

theorem emitAll_lays_of {nodes : List Node} (h : ∀ node ∈ nodes, Lays node.emit Nested node.Fault)
    (hfault : ∀ node ∈ nodes, ∀ error, node.Fault error → Fault error) : Lays (Node.emitAll nodes) Nested Fault := by
  induction nodes with
  | nil => exact done_lays
  | cons node rest ih =>
    rw [List.forall_mem_cons] at h hfault
    exact sequence_lays (h.1.mono (fun _ _ hnested => hnested) hfault.1) (ih h.2 hfault.2)

theorem emitDeclarations_lays_of {ds : List Declaration} (h : ∀ d ∈ ds, Lays d.emit Nested d.Fault)
    (hfault : ∀ d ∈ ds, ∀ error, d.Fault error → Fault error) : Lays (Declaration.emitAll ds) Nested Fault := by
  induction ds with
  | nil => exact done_lays
  | cons d rest ih =>
    rw [List.forall_mem_cons] at h hfault
    exact sequence_lays (h.1.mono (fun _ _ hnested => hnested) hfault.1) (ih h.2 hfault.2)

end Statements

/-- What is laid for each kind of statement. -/
theorem statements_lay : StatementCases (fun node => Lays node.emit Nested node.Fault)
    fun d => Lays d.emit Nested d.Fault where
  group _ _ _ _ _ _ _ h := emitDeclarations_lays_of h fun _ hmem _ => .member rfl hmem
  single _ _ _ _ _ _ h := h.mono (fun _ _ hnested => hnested) fun _ => .single rfl
  assignment := emitAssignment_lays
  leaving _ := putLine_lays "return"
  returning _ _ := .check_bind (fun _ => .operand (by simp [Node.operands])) fun text _ =>
    putLine_lays ("return " ++ text)
  expression _ _ := .check_bind (fun _ => .operand (by simp [Node.operands])) fun text _ => putLine_lays text
  conditional _ _ _ _ h := .check_bind (fun _ => .operand (by simp [Node.operands])) fun text _ =>
    conditional_lays text (emitAll_lays_of h fun _ hmem _ => .inside (by simp [Node.statements, hmem]))
  alternative _ _ _ _ _ _ h h' := .check_bind (fun _ => .operand (by simp [Node.operands])) fun text _ =>
    alternative_lays text (emitAll_lays_of h fun _ hmem _ => .inside (by simp [Node.statements, hmem]))
      (emitAll_lays_of h' fun _ hmem _ => .inside (by simp [Node.statements, hmem]))
  function name parameters returns _ _ _ h :=
    emitFunction_lays name parameters (returns.getD .void) (emitAll_lays_of h fun _ hmem _ => .inside hmem)
  anonymous _ _ _ _ := .throw (.anonymous rfl)
  other node h := by
    simp only [Node.emit_of_not_isStatement h]
    exact .throw (.unsupported h)
  plain d h := by
    simp only [Declaration.emit_of_plain h]
    exact emitBinding_lays h
  value name _ _ _ _ parameters returns _ _ _ _ _ h :=
    emitFunction_lays name parameters (returns.getD .void) (emitAll_lays_of h fun _ hmem _ => .body rfl hmem)

/-- **Every statement** lays properly nested lines, or ends with an error of its own. -/
theorem emit_lays (node : Node) : Lays node.emit Nested node.Fault :=
  statements_lay.statement node

theorem emitAll_lays (nodes : List Node) :
    Lays (Node.emitAll nodes) Nested fun error => ∃ node ∈ nodes, node.Fault error :=
  emitAll_lays_of (fun node _ => emit_lays node) fun node hmem _ h => ⟨node, hmem, h⟩

/-! ### Programs -/

section Programs

variable {ω : Type} [Writer ω]

/-- What is written of a program once its functions are bound. -/
def emitBody (program : Program) : EmitTo ω Unit := do
  Node.emitAll program.body
  if (← get).options.callMain && program.body.any (·.functionName? == some "main") then
    EmitM.putLine "main();"

/-- A program is emitted by binding its functions, writing it and flushing the writer. -/
theorem emitProgram_eq_body (program : Program) (writer : ω) (options : Options) :
    emitProgram program (.ofWriter writer options) =
      (emitBody program >>= fun _ => EmitM.flush)
        (.place (.atStart program) 0 options.callMain options.indent writer) := by
  have hbody : emitProgram program = (functionBindings program.body).forM EmitM.declareGlobal >>= fun _ =>
      emitBody program >>= fun _ => (EmitM.flush : EmitTo ω Unit) := by
    simp only [emitProgram, emitBody, bind_assoc]
    congr 1
    funext _
    congr 1
    funext _
    congr 1
    funext emitter
    split
    · rfl
    · rfl
  rw [hbody, bind_of_ok (declareGlobals_run _ _)]
  rfl

end Programs

theorem emitBody_lays (program : Program) :
    Lays (emitBody program) Nested fun error => ∃ node ∈ program.body, node.Fault error := by
  refine sequence_lays (emitAll_lays program.body) (.callMain_bind (fun callMain => do
    if callMain && program.body.any (·.functionName? == some "main") then EmitM.putLine "main();") fun callMain => ?_)
  split
  · exact putLine_lays "main()"
  · exact done_lays

/-- Writes texts one after the other, and then ends with an error, or by passing on what the writer holds. -/
def Writer.finish {ω : Type} [Writer ω] (texts : List String) : Except Error Unit → EStateM Error ω Unit
  | .ok _ => writeAll texts >>= fun _ => flush
  | .error error => writeAll texts >>= fun _ => throw error

/-- **The lines of a program.**  Every program has lines and an outcome such that to emit it, whatever the indentation
and the writer are, is to write these lines and then to come to that outcome.  If it is a success the lines are
properly nested, and if not then it is an error of one of the statements. -/
theorem emitTo_eq (program : Program) (callMain : Bool) :
    ∃ (lines : List Line) (outcome : Except Error Unit),
      (∀ {ω : Type} [Writer ω] (indent : String) (writer : ω), emitTo program writer ⟨indent, callMain⟩ =
        match Writer.finish (lines.map (Line.render indent)) outcome writer with
        | .ok _ after => (.ok (), after)
        | .error error after => (.error error, after)) ∧
      match outcome with
      | .ok _ => Nested 0 lines
      | .error error => ∃ node ∈ program.body, node.Fault error := by
  obtain ⟨lines, outcome, scopes', hemits, hend⟩ := emitBody_lays program (.atStart program) 0 callMain
  refine ⟨lines, outcome, ?_, hend⟩
  intro ω _ indent writer
  rw [emitTo, emitProgram_eq_body]
  cases hwrite : Writer.writeAll (lines.map (Line.render indent)) writer with
  | error error after =>
    obtain ⟨middle, _, hrun⟩ := hemits.refused indent writer after error hwrite
    rw [bind_of_error hrun]
    cases outcome with
    | ok value => rw [Writer.finish, bind_of_error hwrite]; rfl
    | error error' => rw [Writer.finish, bind_of_error hwrite]; rfl
  | ok value after =>
    have hrun := hemits.written indent writer after hwrite
    cases outcome with
    | error error =>
      rw [bind_of_error hrun, Writer.finish, bind_of_ok hwrite]
      rfl
    | ok value =>
      rw [bind_of_ok hrun, Writer.finish, bind_of_ok hwrite, EmitM.flush, EmitM.writing, Emitter.place]
      cases Writer.flush after with
      | ok value last => rfl
      | error error last => rfl

/-- What flushing a sink comes to. -/
def Sink.flushed (sink : Sink) : Except Error Unit :=
  if sink.refusesFlush then .error (.io "flush refused") else .ok ()

theorem EmitM.flush_sink (emitter : Emitter) : EmitM.flush emitter = emitter.endWith emitter.sink.flushed := by
  rw [EmitM.flush, EmitM.writing, Sink.flushed]
  dsimp only [Writer.flush]
  cases emitter.sink.refusesFlush <;> rfl

/-- The same for a sink: as many of the lines are written as fit.  If all of them do, the sink is flushed unless the
outcome is an error; if not, being full is the error. -/
theorem emitInto_put (program : Program) (callMain : Bool) :
    ∃ (lines : List Line) (outcome : Except Error Unit),
      (∀ indent sink fits after, sink.put (lines.map (Line.render indent)) = (fits, after) →
        emitInto program sink ⟨indent, callMain⟩ =
          (if fits then outcome >>= fun _ => after.flushed else .error (.io "sink full"), after)) ∧
      match outcome with
      | .ok _ => Nested 0 lines
      | .error error => ∃ node ∈ program.body, node.Fault error := by
  obtain ⟨lines, outcome, hemit, hend⟩ := emitTo_eq program callMain
  refine ⟨lines, outcome, ?_, hend⟩
  intro indent sink fits after hput
  have hwrite : Writer.writeAll (lines.map (Line.render indent)) sink = _ := Sink.writeAll_eq_put sink _
  rw [hput] at hwrite
  rw [emitInto, hemit]
  cases fits with
  | false =>
    cases outcome with
    | ok value => rw [Writer.finish, bind_of_error hwrite]; rfl
    | error error => rw [Writer.finish, bind_of_error hwrite]; rfl
  | true =>
    cases outcome with
    | error error =>
      rw [Writer.finish, bind_of_ok hwrite]
      rfl
    | ok value =>
      have hflush : (Writer.flush : EStateM Error Sink Unit) after =
          if after.refusesFlush then .error (.io "flush refused") after else .ok () after := rfl
      rw [Writer.finish, bind_of_ok hwrite, hflush]
      cases hrefuses : after.refusesFlush
      all_goals simp [Sink.flushed, hrefuses, bind, Except.bind]

/-- A program whose emission fails has a statement that fails, or it is the sink that does. -/
theorem error_of_emitInto {program : Program} {sink after : Sink} {options : Options} {error : Error}
    (h : emitInto program sink options = (.error error, after)) :
    (∃ message, error = .io message) ∨ ∃ node ∈ program.body, node.Fault error := by
  obtain ⟨indent, callMain⟩ := options
  obtain ⟨lines, outcome, hemit, hend⟩ := emitInto_put program callMain
  rcases hput : sink.put (lines.map (Line.render indent)) with ⟨_ | _, last⟩
  · rw [hemit indent sink false last hput] at h
    cases h
    exact .inl ⟨_, rfl⟩
  · rw [hemit indent sink true last hput] at h
    cases outcome with
    | error error' =>
      cases h
      exact .inr hend
    | ok value =>
      have hflushed : last.flushed = .error error := congrArg Prod.fst h
      rw [Sink.flushed] at hflushed
      split at hflushed
      · cases hflushed
        exact .inl ⟨_, rfl⟩
      · cases hflushed

/-- **The emitted text has the structure of its blocks.**  Every program has a list of lines and an outcome such that
for every indentation, a sink without a limit gets these lines, and the result is that outcome, or that of the flush
after it.  If the outcome is a success, then the lines are properly nested from level zero on. -/
theorem emitInto_lines (program : Program) (callMain : Bool) :
    ∃ (lines : List Line) (outcome : Except Error Unit),
      (∀ indent sink, sink.limit = none →
        emitInto program sink ⟨indent, callMain⟩ =
          (outcome >>= fun _ => sink.flushed,
            { sink with contents := sink.contents ++ (String.join (lines.map (Line.render indent))).toUTF8 })) ∧
      (outcome = .ok () → Nested 0 lines) := by
  obtain ⟨lines, outcome, hemit, hend⟩ := emitInto_put program callMain
  refine ⟨lines, outcome, ?_, ?_⟩
  · intro indent sink hlimit
    exact hemit indent sink true _ (Sink.put_of_unlimited hlimit _)
  · intro hok
    rw [hok] at hend
    exact hend

theorem emitInto_lines_conditional : ∃ lines, Nested 0 lines ∧ ∀ indent,
    emitInto ⟨[.conditional (.boolean true default) ⟨[.returning none default], default⟩ (some ⟨[], default⟩) default],
      default⟩ .empty ⟨indent, true⟩ = (.ok (), { Sink.empty with
        contents := ByteArray.empty ++ (String.join (lines.map (Line.render indent))).toUTF8 }) := by
  obtain ⟨lines, outcome, hlines, hnested⟩ := emitInto_lines ⟨[.conditional (.boolean true default)
    ⟨[.returning none default], default⟩ (some ⟨[], default⟩) default], default⟩ true
  have houtcome : outcome = .ok () := by
    have hresult := congrArg Prod.fst (hlines "" .empty rfl)
    cases outcome with
    | error error => cases hresult
    | ok value => rfl
  subst houtcome
  exact ⟨lines, hnested rfl, fun indent => hlines indent .empty rfl⟩

end GoScript
