import GoScript.Proofs.Emissions
import GoScript.Proofs.Rereading

/-!
# Layout does not matter

Blanks, line ends and comments decide where the tokens of a source text stand, and nothing else.  So two texts with the
same tokens have the same program up to spans or the same error up to its position; and from programs that differ only
in their spans the same text is emitted, with the same result up to the position of an error.

What is asked of an error may depend on its position after all, as long as a move does not change the answer.  So
everything here is said about a view of errors that is kept by a move; to forget the position is one.

* `Outcome.seen`, `Outcome.unpositioned` — an outcome with a view in place of its error, or with its position forgotten
* `Keeps` — a move does not change what a view shows
* `Node.target_relocate`, `ScopeTree.typeOf_relocate` — expressions do not depend on the spans
* `EmitM.Alike` — two emissions differ only in what a view of errors does not show; one rule for each step
* `statements_alike` — statements do not depend on the spans
* `translation_of_same_tokens` — two source texts with the same tokens
-/

namespace GoScript

namespace Outcome

variable {α β : Type}

/-- The outcome with the position of its error forgotten, so that `unpositioned a = unpositioned b` says that two
outcomes are the same up to the position of an error. -/
def unpositioned (outcome : Except Error α) : Except Cause α :=
  outcome.mapError Error.cause

/-- The outcome with a view in place of its error. -/
def seen {γ : Type} (view : Error → γ) (outcome : Except Error α) : Except γ α :=
  outcome.mapError view

variable {γ : Type} {view : Error → γ}

theorem seen_bind (outcome : Except Error α) (next : α → Except Error β) :
    seen view (outcome >>= next) = seen view outcome >>= fun value => seen view (next value) := by
  cases outcome with
  | ok value => rfl
  | error error => rfl

/-- Two sequences agree if their first parts and what follows them do. -/
theorem seen_bind_congr {first first' : Except Error α} {next next' : α → Except Error β}
    (hfirst : seen view first' = seen view first) (hnext : ∀ value, seen view (next' value) = seen view (next value)) :
    seen view (first' >>= next') = seen view (first >>= next) := by
  rw [seen_bind, seen_bind, hfirst]
  exact congrArg _ (funext hnext)

end Outcome

open Outcome

section Expressions

variable {f : Position → Position} {γ : Type} {view : Error → γ}

/-- A move keeps what a view shows of every error. -/
def Keeps (f : Position → Position) (view : Error → γ) : Prop :=
  ∀ error : Error, view (error.relocate f) = view error

/-! ### Expressions -/

@[simp]
theorem Node.label_relocate (node : Node) : (node.relocate f).label = node.label := by
  cases node <;> rfl

theorem Node.targets_relocateAll (nodes : List Node)
    (h : ∀ node ∈ nodes, seen view (node.relocate f).target = seen view node.target) :
    seen view (Node.targets (Node.relocateAll f nodes)) = seen view (Node.targets nodes) := by
  induction nodes with
  | nil => rfl
  | cons node nodes ih =>
    refine seen_bind_congr (h node List.mem_cons_self) fun text => seen_bind_congr ?_ fun texts => rfl
    exact ih fun other hother => h other (List.mem_cons_of_mem node hother)

variable (hview : Keeps f view)

include hview

theorem Node.unsupported_relocate (node : Node) : view (node.relocate f).unsupported = view node.unsupported := by
  rw [Node.unsupported, Node.label_relocate, Node.span_relocate]
  exact hview node.unsupported

/-- **The text of an expression** does not depend on where the expression stood. -/
theorem Node.target_relocate (node : Node) : seen view (node.relocate f).target = seen view node.target := by
  induction node using Node.partsInduction with
  | step node ih =>
    cases node with
    | unary operator operand span =>
      refine seen_bind_congr (ih operand (by simp [Node.parts])) fun text => ?_
      rw [Node.takesParens_relocate]
      rfl
    | binary left operator right span =>
      refine seen_bind_congr (ih left (by simp [Node.parts])) fun leftText =>
        seen_bind_congr (ih right (by simp [Node.parts])) fun rightText => ?_
      rw [Node.takesParens_relocate, Node.takesParens_relocate]
      rfl
    | call callee arguments span =>
      refine seen_bind_congr (Node.targets_relocateAll arguments ih) fun texts => ?_
      -- a call of `len` is told by its name and by the number of its arguments, neither of which a move changes
      rw [Node.relocateAll_eq_map]
      split
      · next moved text hmoved =>
        obtain ⟨collection, rfl, rfl⟩ := List.map_eq_singleton_iff.mp hmoved
        rw [Node.takesParens_relocate]
        rfl
      · next hother =>
        split
        · next collection text => exact absurd rfl (hother (collection.relocate f) text rfl rfl)
        · rfl
    | array element form elements span =>
      cases elements with
      | none => rfl
      | some nodes => exact seen_bind_congr (Node.targets_relocateAll nodes ih) fun texts => rfl
    | index collection position span =>
      refine seen_bind_congr (ih collection (by simp [Node.parts])) fun text =>
        seen_bind_congr (ih position (by simp [Node.parts])) fun positionText => ?_
      rw [Node.takesParens_relocate]
    | identifier | integer | string | boolean => rfl
    | returning value span => cases value <;> exact congrArg Except.error (Node.unsupported_relocate hview _)
    | program | declaration | assignment | expression | block | conditional | function =>
      exact congrArg Except.error (Node.unsupported_relocate hview _)

variable (scopes : ScopeTree)

theorem ScopeTree.typeOfName_relocate (name : String) (position : Position) :
    seen view (scopes.typeOfName name (f position)) = seen view (scopes.typeOfName name position) := by
  rw [ScopeTree.typeOfName, ScopeTree.typeOfName]
  cases scopes.lookup name with
  | some binding => rfl
  | none => exact congrArg Except.error (hview ⟨.undeclared name, position⟩)

omit hview in
theorem ScopeTree.typeOf_of_ownType {node : Node} {type : GoType} (h : node.ownType? = some type) :
    scopes.typeOf node = .ok type := by
  rw [ScopeTree.typeOf.eq_def, h]

/-- **The type of an expression** does not depend on where the expression stood. -/
theorem ScopeTree.typeOf_relocate (node : Node) :
    seen view (scopes.typeOf (node.relocate f)) = seen view (scopes.typeOf node) := by
  induction node using Node.partsInduction with
  | step node ih =>
    cases htype : node.ownType? with
    | some type =>
      rw [scopes.typeOf_of_ownType htype, scopes.typeOf_of_ownType ((Node.ownType?_relocate f node).trans htype)]
    | none =>
      have hmoved := (Node.ownType?_relocate f node).trans htype
      cases node with
      | identifier name span => exact scopes.typeOfName_relocate hview name _
      | call callee arguments span => exact scopes.typeOfName_relocate hview callee _
      | binary left operator right span =>
        rw [Node.relocate] at hmoved ⊢
        rw [ScopeTree.typeOf, hmoved, ScopeTree.typeOf, htype]
        exact ih left (by simp [Node.parts])
      | unary operator operand span =>
        rw [Node.relocate] at hmoved ⊢
        rw [ScopeTree.typeOf, hmoved, ScopeTree.typeOf, htype]
        exact ih operand (by simp [Node.parts])
      | array element form elements span =>
        cases element with
        | some type => cases htype
        | none =>
          cases elements with
          | none => exact congrArg Except.error (Node.unsupported_relocate hview (.array none form none span))
          | some nodes =>
            cases nodes with
            | nil => exact congrArg Except.error (Node.unsupported_relocate hview (.array none form (some []) span))
            | cons first rest => exact seen_bind_congr (ih first (by simp [Node.parts])) fun type => rfl
      | index collection position span =>
        refine seen_bind_congr (ih collection (by simp [Node.parts])) fun type => ?_
        cases type.element? with
        | some element => rfl
        | none => exact congrArg Except.error (hview ⟨.notIndexable type.name, span.start⟩)
      | declaration d =>
        rw [Node.relocate] at hmoved ⊢
        simp only [ScopeTree.typeOf, hmoved, htype]
        exact congrArg Except.error (Node.unsupported_relocate hview (.declaration d))
      | integer | string | boolean | function => cases htype
      | program | assignment | returning | expression | block | conditional =>
        exact congrArg Except.error (Node.unsupported_relocate hview _)

/-! ### Declarations -/

variable (d : Declaration)

theorem requireConstant_relocate :
    seen view (requireConstant (d.relocate f)) = seen view (requireConstant d) := by
  obtain ⟨name, constant, explicit, inferred, value, group, span⟩ := d
  cases constant with
  | false => rfl
  | true =>
    cases value with
    | none => rfl
    | some value =>
      cases value with
      | call | index => exact congrArg Except.error (hview ⟨.constantMisuse name _, span.start⟩)
      | _ => rfl

theorem ScopeTree.declaredType_relocate :
    seen view (scopes.declaredType (d.relocate f)) = seen view (scopes.declaredType d) := by
  have htype : (d.relocate f).type? = d.type? := by rw [Declaration.relocate_eq]; rfl
  rw [ScopeTree.declaredType, ScopeTree.declaredType, htype, Declaration.relocate_eq]
  cases d.type? with
  | some type => rfl
  | none =>
    cases d.value with
    | none => exact congrArg Except.error (hview ⟨.emptyDeclaration d.name, d.span.start⟩)
    | some value => exact scopes.typeOf_relocate hview value

theorem Declaration.line_relocate (type : GoType) :
    seen view ((d.relocate f).line type) = seen view (d.line type) := by
  obtain ⟨name, constant, explicit, inferred, value, group, span⟩ := d
  cases value with
  | none => rfl
  | some value => exact seen_bind_congr (Node.target_relocate hview value) fun text => rfl

end Expressions

/-! ### Emissions -/

section Emissions

variable {γ : Type}

/-- The outcomes of two emissions whose errors, if there are any, look the same. -/
inductive SameEnd (view : Error → γ) {α : Type} :
    EStateM.Result Error Emitter α → EStateM.Result Error Emitter α → Prop
  | ok (value : α) (emitter : Emitter) : SameEnd view (.ok value emitter) (.ok value emitter)
  | error {error error' : Error} (emitter : Emitter) : view error' = view error →
    SameEnd view (.error error' emitter) (.error error emitter)

/-- Two emissions that do the same from everywhere, as far as their errors are seen. -/
def EmitM.Alike (view : Error → γ) {α : Type} (first second : EmitM α) : Prop :=
  ∀ emitter, SameEnd view (first emitter) (second emitter)

end Emissions

namespace EmitM.Alike

variable {α β γ : Type} {view : Error → γ}

theorem refl (emission : EmitM α) : Alike view emission emission := by
  intro emitter
  cases emission emitter with
  | ok value after => exact .ok value after
  | error error after => exact .error after rfl

theorem throw {error error' : Error} (h : view error' = view error) :
    Alike view (throw error' : EmitM α) (throw error) :=
  fun emitter => .error emitter h

/-- **Sequence.** -/
theorem bind {first first' : EmitM α} {next next' : α → EmitM β} (hfirst : Alike view first' first)
    (hnext : ∀ value, Alike view (next' value) (next value)) : Alike view (first' >>= next') (first >>= next) := by
  intro emitter
  have h := hfirst emitter
  rw [bind_run, bind_run]
  generalize first' emitter = outcome', first emitter = outcome at h
  cases h with
  | ok value after => exact hnext value after
  | error after h => exact .error after h

theorem bind_get {next next' : Emitter → EmitM β} (h : ∀ emitter, Alike view (next' emitter) (next emitter)) :
    Alike view (get >>= next') (get >>= next) :=
  fun emitter => h emitter emitter

theorem check {outcome outcome' : Except Error α} (h : seen view outcome' = seen view outcome) :
    Alike view (EmitM.check outcome') (EmitM.check outcome) := by
  cases outcome' with
  | ok value' =>
    cases outcome with
    | ok value =>
      cases h
      exact refl _
    | error error => cases h
  | error error' =>
    cases outcome with
    | ok value => cases h
    | error error => exact throw (Except.error.inj h)

theorem indented {emission emission' : EmitM Unit} (h : Alike view emission' emission) :
    Alike view (EmitM.indented emission') (EmitM.indented emission) := by
  intro emitter
  have hbody := h emitter.enter
  rw [EmitM.indented, EmitM.indented]
  generalize emission' emitter.enter = outcome', emission emitter.enter = outcome at hbody
  cases hbody with
  | ok value after => exact .ok value after.leave
  | error after h => exact .error after.leave h

end EmitM.Alike

open EmitM (Alike)

/-! ### Statements -/

section Statements

variable {f : Position → Position} {γ : Type} {view : Error → γ}

theorem emitFunction_alike (name : String) (parameters : List Parameter) (result : GoType) {body body' : EmitM Unit}
    (h : Alike view body' body) :
    Alike view (emitFunction name (parameters.map (Parameter.relocate f)) result body')
      (emitFunction name parameters result body) := by
  have hhead : functionHead name (parameters.map (Parameter.relocate f)) result =
      functionHead name parameters result := by
    rw [functionHead, List.map_map]
    rfl
  have hbindings : ((parameters.map (Parameter.relocate f)).forM (EmitM.declare ·.binding) : EmitM Unit) =
      parameters.forM (EmitM.declare ·.binding) := by
    rw [List.forM_eq_forM, List.forM_map]
    rfl
  rw [emitFunction, hhead, hbindings]
  exact .bind (.refl _) fun _ => .bind (.refl _) fun _ =>
    .bind (.indented (.bind (.refl _) fun _ => h)) fun _ => .refl _

theorem emitBinding_alike (hview : Keeps f view) (d : Declaration) :
    Alike view (emitBinding (d.relocate f)) (emitBinding d) := by
  have hname : (d.relocate f).name = d.name := by rw [Declaration.relocate_eq]
  have hconstant : (d.relocate f).constant = d.constant := by rw [Declaration.relocate_eq]
  refine .bind (.check (requireConstant_relocate hview d)) fun _ => .bind_get fun emitter =>
    .bind (.check (ScopeTree.declaredType_relocate hview emitter.scopes d)) fun type =>
      .bind (.check (Declaration.line_relocate hview d type)) fun line => ?_
  rw [hname, hconstant]
  exact .refl _

theorem emitAssignment_alike (hview : Keeps f view) (name : String) (value : Node) (position : Position) :
    Alike view (emitAssignment name (value.relocate f) (f position)) (emitAssignment name value position) := by
  refine .bind (.refl (EmitM.lookup name)) fun found => ?_
  cases found with
  | none => exact .throw (hview ⟨.undeclared name, position⟩)
  | some binding =>
    by_cases hconstant : binding.isConstant
    · simp only [hconstant]
      exact .throw (hview ⟨.assignToConstant name, position⟩)
    · simp only [hconstant]
      exact .bind (.check (Node.target_relocate hview value)) fun _ => .refl _

theorem emitAll_alike_of {nodes : List Node} (h : ∀ node ∈ nodes, Alike view (node.relocate f).emit node.emit) :
    Alike view (Node.emitAll (Node.relocateAll f nodes)) (Node.emitAll nodes) := by
  induction nodes with
  | nil => exact .refl _
  | cons node rest ih =>
    rw [List.forall_mem_cons] at h
    exact .bind h.1 fun _ => ih h.2

theorem emitDeclarations_alike_of {ds : List Declaration} (h : ∀ d ∈ ds, Alike view (d.relocate f).emit d.emit) :
    Alike view (Declaration.emitAll (Declaration.relocateAll f ds)) (Declaration.emitAll ds) := by
  induction ds with
  | nil => exact .refl _
  | cons d rest ih =>
    rw [List.forall_mem_cons] at h
    exact .bind h.1 fun _ => ih h.2

theorem Node.isStatement_relocate (node : Node) : (node.relocate f).isStatement = node.isStatement := by
  cases node <;> rfl

theorem Declaration.bindsFunction_relocate (d : Declaration) : (d.relocate f).bindsFunction = d.bindsFunction := by
  obtain ⟨name, constant, explicit, inferred, value, group, span⟩ := d
  cases value with
  | none => rfl
  | some value => cases value <;> rfl

/-- Each kind of statement is emitted in the same way wherever it stood. -/
theorem statements_alike (hview : Keeps f view) : StatementCases
    (fun node => Alike view (node.relocate f).emit node.emit) fun d => Alike view (d.relocate f).emit d.emit where
  group _ _ _ _ _ _ _ h := emitDeclarations_alike_of h
  single _ _ _ _ _ _ h := h
  assignment name value span := emitAssignment_alike hview name value span.start
  leaving _ := .refl _
  returning value _ := .bind (.check (Node.target_relocate hview value)) fun _ => .refl _
  expression e _ := .bind (.check (Node.target_relocate hview e)) fun _ => .refl _
  conditional condition _ _ _ h := .bind (.check (Node.target_relocate hview condition)) fun _ =>
    .bind (.refl _) fun _ => .bind (.indented (emitAll_alike_of h)) fun _ => .refl _
  alternative condition _ _ _ _ _ h h' := .bind (.check (Node.target_relocate hview condition)) fun _ =>
    .bind (.refl _) fun _ => .bind (.indented (emitAll_alike_of h)) fun _ => .bind (.refl _) fun _ =>
      .bind (.indented (emitAll_alike_of h')) fun _ => .refl _
  function name parameters returns _ _ _ h :=
    emitFunction_alike name parameters (returns.getD .void) (emitAll_alike_of h)
  anonymous parameters returns body span :=
    .throw (Node.unsupported_relocate hview (.function ⟨none, parameters, returns, body, span⟩))
  other node h := by
    rw [Node.emit_of_not_isStatement h, Node.emit_of_not_isStatement ((node.isStatement_relocate).trans h)]
    exact .throw (Node.unsupported_relocate hview node)
  plain d h := by
    rw [Declaration.emit_of_plain h, Declaration.emit_of_plain (d.bindsFunction_relocate.trans h)]
    exact emitBinding_alike hview d
  value name _ _ _ _ parameters returns _ _ _ _ _ h :=
    emitFunction_alike name parameters (returns.getD .void) (emitAll_alike_of h)

/-- **Statements** are emitted in the same way wherever they stood. -/
theorem emitAll_alike (hview : Keeps f view) (nodes : List Node) :
    Alike view (Node.emitAll (Node.relocateAll f nodes)) (Node.emitAll nodes) :=
  emitAll_alike_of fun node _ => (statements_alike hview).statement node

end Statements

/-! ### Programs -/

section Programs

variable {f : Position → Position} {γ : Type} {view : Error → γ}

theorem Node.functionName?_relocate (node : Node) : (node.relocate f).functionName? = node.functionName? := by
  cases node with
  | function g => simp [Node.relocate, Node.functionName?, Function.relocate_eq]
  | _ => rfl

theorem functionBindings_relocate (body : List Node) :
    functionBindings (body.map (Node.relocate f)) = functionBindings body := by
  rw [functionBindings, List.filterMap_map]
  refine congrArg (List.filterMap · body) (funext fun node => ?_)
  cases node with
  | function g => simp [Node.relocate, Function.relocate_eq, Function.returnType]
  | _ => rfl

variable (hview : Keeps f view)

include hview

theorem emitProgram_alike (program : Program) :
    Alike view (emitProgram (program.relocate f)) (emitProgram program) := by
  obtain ⟨body, span⟩ := program
  have hmain : (Node.relocateAll f body).any (·.functionName? == some "main") =
      body.any (·.functionName? == some "main") := by
    rw [Node.relocateAll_eq_map, List.any_map]
    refine congrArg body.any (funext fun node => ?_)
    rw [Function.comp_apply, Node.functionName?_relocate]
  have hbindings : functionBindings (Node.relocateAll f body) = functionBindings body := by
    rw [Node.relocateAll_eq_map, functionBindings_relocate]
  rw [emitProgram, emitProgram, Block.relocate, hbindings, hmain]
  exact .bind (.refl _) fun _ => .bind (emitAll_alike hview body) fun _ => .refl _

/-- **A program that was moved** is emitted in the same way, as far as its error is seen. -/
theorem emitInto_relocate (program : Program) (sink : Sink) (options : Options) :
    seen view (emitInto (program.relocate f) sink options).1 = seen view (emitInto program sink options).1 ∧
      (emitInto (program.relocate f) sink options).2 = (emitInto program sink options).2 := by
  have h := emitProgram_alike hview program (.ofWriter sink options)
  rw [emitInto, emitInto, emitTo, emitTo]
  generalize emitProgram (program.relocate f) (.ofWriter sink options) = outcome',
    emitProgram program (.ofWriter sink options) = outcome at h
  cases h with
  | ok value after => exact ⟨rfl, rfl⟩
  | error after h => exact ⟨congrArg Except.error h, rfl⟩

end Programs

/-- **Programs that differ only in their spans** are emitted in the same way. -/
theorem emitInto_of_unplaced {first second : Program}
    (h : (Node.program first).unplaced = (Node.program second).unplaced) (sink : Sink) (options : Options) :
    unpositioned (emitInto first sink options).1 = unpositioned (emitInto second sink options).1 ∧
      (emitInto first sink options).2 = (emitInto second sink options).2 := by
  have hblock : first.relocate (fun _ => default) = second.relocate (fun _ => default) := Node.program.inj h
  have hcause : Keeps (fun _ => default) Error.cause := fun _ => rfl
  obtain ⟨hresult, hsink⟩ := emitInto_relocate hcause first sink options
  obtain ⟨hresult', hsink'⟩ := emitInto_relocate hcause second sink options
  rw [hblock] at hresult hsink
  exact ⟨hresult.symm.trans hresult', hsink.symm.trans hsink'⟩

/-! ### Source texts -/

/-- The program in a source text, with its positions forgotten, is read from the words of the text. -/
theorem Grammar.parseProgram_words (source file : String) :
    relocate (fun _ => default) (standard.parseProgram (Cursor.ofSource source file)) =
      standard.parseProgram (reading (wordsOf source.toList)) := by
  have h : Follows (fun _ => default) (Cursor.ofSource source file) 0 (program nested) (program nested) :=
    program_tracks (nested_track _ _) fun _ _ => rfl
  rw [parseProgram_eq, ← relocate_ofSource source file]
  exact h.same.symm

theorem wordsOf_of_tokens {first second file file' : String}
    (h : (tokensOf first file).map (fun token => (token.kind, token.value)) =
      (tokensOf second file').map (fun token => (token.kind, token.value))) :
    wordsOf first.toList = wordsOf second.toList := by
  rw [tokensOf, tokensOf, List.map_append, List.map_append, map_scan, map_scan] at h
  exact List.append_cancel_right h

/-- **Translation depends only on the tokens.**  If two source texts have the same tokens, then either both of them
have a program, and these are the same up to spans and are emitted in the same way up to the position of an error, or
both of them have the same error up to its position. -/
theorem translation_of_same_tokens {first second file file' : String}
    (h : (tokensOf first file).map (fun token => (token.kind, token.value)) =
      (tokensOf second file').map (fun token => (token.kind, token.value))) :
    match parse first file, parse second file' with
    | .ok program, .ok program' =>
      (Node.program program).unplaced = (Node.program program').unplaced ∧ ∀ sink options,
        unpositioned (emitInto program sink options).1 = unpositioned (emitInto program' sink options).1 ∧
          (emitInto program sink options).2 = (emitInto program' sink options).2
    | .error error, .error error' => error.cause = error'.cause
    | _, _ => False := by
  have hsame := (Grammar.parseProgram_words first file).trans
    ((congrArg (fun words => Grammar.standard.parseProgram (reading words)) (wordsOf_of_tokens h)).trans
      (Grammar.parseProgram_words second file').symm)
  rw [parse, parse]
  generalize Grammar.standard.parseProgram (Cursor.ofSource first file) = outcome,
    Grammar.standard.parseProgram (Cursor.ofSource second file') = outcome' at hsame
  cases outcome with
  | ok program cursor =>
    cases outcome' with
    | ok program' cursor' =>
      have hunplaced : (Node.program program).unplaced = (Node.program program').unplaced :=
        congrArg Node.program (EStateM.Result.ok.inj hsame).1
      exact ⟨hunplaced, emitInto_of_unplaced hunplaced⟩
    | error error' cursor' => cases hsame
  | error error cursor =>
    cases outcome' with
    | ok program' cursor' => cases hsame
    | error error' cursor' =>
      have hunplaced : error.relocate (fun _ => default) = error'.relocate (fun _ => default) :=
        (EStateM.Result.error.inj hsame).1
      show (error.relocate fun _ => default).cause = (error'.relocate fun _ => default).cause
      rw [hunplaced]

theorem translation_of_same_tokens_comment : ∃ program program',
    parse "return x" "first" = .ok program ∧ parse "return // no\n\tx" "second" = .ok program' ∧
      (Node.program program).unplaced = (Node.program program').unplaced ∧ ∀ sink options,
        unpositioned (emitInto program sink options).1 = unpositioned (emitInto program' sink options).1 ∧
          (emitInto program sink options).2 = (emitInto program' sink options).2 := by
  have htokens := @translation_of_same_tokens "return x" "return // no\n\tx" "first" "second" (by decide +kernel)
  obtain ⟨program, hprogram⟩ : ∃ program, parse "return x" "first" = .ok program := ⟨_, by rfl⟩
  obtain ⟨program', hprogram'⟩ : ∃ program, parse "return // no\n\tx" "second" = .ok program := ⟨_, by rfl⟩
  rw [hprogram, hprogram'] at htokens
  exact ⟨program, program', hprogram, hprogram', htokens⟩

end GoScript
