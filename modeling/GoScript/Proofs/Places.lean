import GoScript.Proofs.Coverage
import GoScript.Proofs.Failures
import GoScript.Proofs.Separators
import GoScript.TypeScript

/-!
# Where errors point

Every position that a parse hands out comes from a token or from the end of the input, and every position that an
emission hands out comes from the tree.  So an error points into the text that was parsed, or belongs to no text at
all because it is a failure of the sink.

The first half needs no walk through the rules: parses move with the positions, and a map that leaves the positions of
a text alone leaves its tokens alone, hence whatever is parsed from them.

* `Position.PointsInto` — a position in a text or at its end
* `position_of_parse_error`, `starts_of_parse` — the positions of a parse
* `Blamed` — what the errors of an emission are blamed on; `emitInto_blamed` — every emission keeps to it
* `position_of_typeScriptOf_error` — the position of any error on the way to TypeScript
-/

namespace GoScript

open ParseM Grammar

/-! ### Positions in a text -/

/-- The position is that of a byte of the source or of its end. -/
def Position.PointsInto (source file : String) (position : Position) : Prop :=
  ∃ offset ≤ source.utf8ByteSize, position = ⟨UInt32.ofNat offset, file⟩

/-- A map of positions leaves those in a text alone. -/
def Fixes (f : Position → Position) (source file : String) : Prop :=
  ∀ position : Position, position.PointsInto source file → f position = position

variable {source file : String}

/-- A position that no map can move without moving one in the text is itself in the text. -/
theorem Position.pointsInto_of_fixed {position : Position}
    (h : ∀ f, Fixes f source file → f position = position) : position.PointsInto source file := by
  classical
  by_cases hposition : position.PointsInto source file
  · exact hposition
  · have hstart := h (fun other => if other.PointsInto source file then other else ⟨0, file⟩) fun other hother =>
      if_pos hother
    rw [if_neg hposition] at hstart
    exact ⟨0, Nat.zero_le _, hstart.symm⟩

/-! ### Tokens -/

theorem Covering.bounds {offset : Nat} {text : List Char} {tokens : List Token} (h : Covering file offset text tokens) :
    ∀ token ∈ tokens, token.kind ≠ .endOfInput ∧ ∃ start stop, start ≤ stop ∧
      stop ≤ offset + Text.byteSize text ∧ token.span = ⟨⟨UInt32.ofNat start, file⟩, ⟨UInt32.ofNat stop, file⟩⟩ := by
  induction h with
  | done => simp
  | @token offset gap rest kind value tokens hgap hend hne htokens ih =>
    intro token htoken
    rw [List.mem_cons] at htoken
    simp only [Text.byteSize_append]
    cases htoken with
    | inl heq =>
      subst heq
      exact ⟨hend, _, _, Nat.le_add_right _ _, by omega, rfl⟩
    | inr hlater =>
      obtain ⟨hkind, start, stop, hle, hstop, hspan⟩ := ih token hlater
      exact ⟨hkind, start, stop, hle, by omega, hspan⟩

theorem bounds_of_mem_scan {token : Token} (h : token ∈ scan file source.toList) :
    token.kind ≠ .endOfInput ∧ token.span.start.PointsInto source file ∧ token.span.stop.PointsInto source file := by
  obtain ⟨hkind, start, stop, hle, hstop, hspan⟩ := (covering_lexemes file source.toList 0).bounds token h
  rw [byteSize_toList] at hstop
  rw [hspan]
  exact ⟨hkind, ⟨start, by omega, rfl⟩, ⟨stop, by omega, rfl⟩⟩

theorem Fixes.relocate_ofSource {f : Position → Position} (hf : Fixes f source file) :
    (Cursor.ofSource source file).relocate f = Cursor.ofSource source file := by
  have htokens : (scan file source.toList).map (Token.relocate f) = scan file source.toList := by
    conv => rhs; rw [← List.map_id (scan file source.toList)]
    refine List.map_congr_left fun token htoken => ?_
    obtain ⟨-, hstart, hstop⟩ := bounds_of_mem_scan htoken
    rw [Token.relocate, Span.relocate, hf _ hstart, hf _ hstop]
    rfl
  have hfinish : f (endPosition file source.toList) = endPosition file source.toList :=
    hf _ ⟨source.utf8ByteSize, Nat.le_refl _, by rw [endPosition, byteSize_toList]⟩
  rw [Cursor.ofSource, Cursor.relocate, htokens, hfinish]

/-! ### Parses -/

/-- The statements up to the end of the input move with the positions. -/
theorem gather_programItem_relocate (f : Position → Position) (cursor : Cursor) :
    gather (programItem nested) (cursor.relocate f) = relocate f (gather (programItem nested) cursor) := by
  have hfollows : Follows f cursor 0 (gather (programItem nested)) (gather (programItem nested)) := by
    apply Tracks.gather
    intro later _
    exact programItem_tracks (nested_track _ (later.rest.length + 1)) (Nat.lt_succ_self _)
  exact hfollows.same

/-- What a source text holds is decided by its statements. -/
theorem parse_eq_gather (source file : String) :
    parse source file = match gather (programItem nested) (Cursor.ofSource source file) with
      | .ok body later => .ok ⟨body, later.spanSince ⟨0, later.finish.file⟩⟩
      | .error error _ => .error error := by
  rw [parse, parseProgram_eq, program, Outcome.bind_run]
  cases gather (programItem nested) (Cursor.ofSource source file) <;> rfl

theorem gather_of_parse {program : Program} (h : parse source file = .ok program) :
    ∃ later, gather (programItem nested) (Cursor.ofSource source file) = .ok program.body later := by
  rw [parse_eq_gather] at h
  cases hgather : gather (programItem nested) (Cursor.ofSource source file) with
  | ok body later =>
    rw [hgather] at h
    cases h
    exact ⟨later, rfl⟩
  | error error later =>
    rw [hgather] at h
    cases h

theorem gather_of_parse_error {error : Error} (h : parse source file = .error error) :
    ∃ later, gather (programItem nested) (Cursor.ofSource source file) = .error error later := by
  rw [parse_eq_gather] at h
  cases hgather : gather (programItem nested) (Cursor.ofSource source file) with
  | ok body later =>
    rw [hgather] at h
    cases h
  | error error' later =>
    rw [hgather] at h
    cases h
    exact ⟨later, rfl⟩

theorem Fixes.relocate_gather {f : Position → Position} (hf : Fixes f source file) :
    relocate f (gather (programItem nested) (Cursor.ofSource source file)) =
      gather (programItem nested) (Cursor.ofSource source file) := by
  rw [← gather_programItem_relocate, hf.relocate_ofSource]

/-- **An error of a parse points into the text.** -/
theorem position_of_parse_error {error : Error} (h : parse source file = .error error) :
    error.position.PointsInto source file := by
  obtain ⟨later, hgather⟩ := gather_of_parse_error h
  refine Position.pointsInto_of_fixed fun f hf => ?_
  have hfixed := hf.relocate_gather
  rw [hgather] at hfixed
  have herror : error.relocate f = error := (EStateM.Result.error.inj hfixed).1
  exact congrArg Error.position herror

/-! ### Trees -/

/-- The parts of a tree move with it. -/
theorem Node.parts_relocate (f : Position → Position) (node : Node) :
    (node.relocate f).parts = node.parts.map (Node.relocate f) := by
  cases node with
  | program block | block block => simp [Node.relocate, Node.parts, Block.relocate_eq]
  | declaration d =>
    obtain ⟨name, constant, explicit, inferred, value, group, span⟩ := d
    cases value <;> cases group <;>
      simp [Node.relocate, Node.parts, Declaration.relocate_eq, Function.comp_def]
  | returning value span => cases value <;> rfl
  | conditional condition consequence alternative span =>
    cases alternative <;> simp [Node.relocate, Node.parts, Block.relocate_eq, Block.relocateOption]
  | function g => simp [Node.relocate, Node.parts, Function.relocate_eq, Block.relocate_eq]
  | call callee arguments span => simp [Node.relocate, Node.parts, Node.relocateAll_eq_map]
  | array element form elements span =>
    cases elements <;> simp [Node.relocate, Node.parts, Node.relocateAllOption, Node.relocateAll_eq_map]
  | _ => rfl

/-- A map that leaves a tree alone leaves everything in it alone. -/
theorem Node.Within.relocate_eq {f : Position → Position} {node root : Node} (within : node.Within root)
    (h : root.relocate f = root) : node.relocate f = node := by
  induction within with
  | self => exact h
  | @part part root hmem within ih =>
    have hparts : root.parts.map (Node.relocate f) = root.parts.map id := by
      rw [← Node.parts_relocate, h, List.map_id]
    exact ih (List.map_inj_left.1 hparts part hmem)

/-- **The nodes of a parsed program start in the text.** -/
theorem starts_of_parse {program : Program} (h : parse source file = .ok program) :
    ∀ node ∈ program.body, node.StartsIn (Position.PointsInto source file) := by
  obtain ⟨later, hgather⟩ := gather_of_parse h
  intro statement hstatement node within
  refine Position.pointsInto_of_fixed fun f hf => ?_
  have hfixed := hf.relocate_gather
  rw [hgather] at hfixed
  have hbody : program.body.map (Node.relocate f) = program.body.map id :=
    (EStateM.Result.ok.inj hfixed).1.trans (List.map_id _).symm
  have hroot : statement.relocate f = statement := List.map_inj_left.1 hbody statement hstatement
  have hspan : node.span.relocate f = node.span := by
    rw [← Node.span_relocate, within.relocate_eq hroot]
  exact congrArg Span.start hspan

/-! ### Emissions -/

/-- The error is a failure of the sink, or it stands at a position of some kind. -/
def Blamed (P : Position → Prop) (error : Error) : Prop :=
  error.cause.category = .resource ∨ P error.position

section Emissions

variable {P : Position → Prop} {node : Node} {error : Error}

theorem Blamed.io (message : String) : Blamed P (.io message) :=
  .inl rfl

theorem Node.StartsIn.blamed (h : node.StartsIn P) (cause : Cause) : Blamed P ⟨cause, node.span.start⟩ :=
  .inr (h node (.self node))

theorem Node.StartsIn.within {inner : Node} (h : node.StartsIn P) (within : inner.Within node) : inner.StartsIn P :=
  fun _ within' => h _ (within'.trans within)

/-- The text of an expression fails at a node in it. -/
theorem target_blamed (hnode : node.StartsIn P) (h : node.target = .error error) : Blamed P error := by
  obtain ⟨inner, hinner, _, rfl⟩ := error_of_target h
  exact (hnode.within hinner.within).blamed _

/-- The type of an expression fails at a node in it. -/
theorem typeOf_blamed {scopes : ScopeTree} (hnode : node.StartsIn P) (h : scopes.typeOf node = .error error) :
    Blamed P error := by
  obtain ⟨inner, hinner, huntyped⟩ := error_of_typeOf h
  refine .inr ?_
  rw [huntyped.position]
  exact hnode inner hinner.within

theorem requireConstant_blamed {d : Declaration} (hd : (Node.declaration d).StartsIn P)
    (h : requireConstant d = .error error) : Blamed P error := by
  rw [requireConstant] at h
  split at h
  · cases h
    exact hd.blamed _
  · cases h
    exact hd.blamed _
  · cases h

theorem declaredType_blamed {d : Declaration} (hd : (Node.declaration d).StartsIn P) {scopes : ScopeTree}
    (h : scopes.declaredType d = .error error) : Blamed P error := by
  rw [ScopeTree.declaredType] at h
  split at h
  · cases h
  · next value _ hsome => exact typeOf_blamed (hd.part (by simp [Node.parts, hsome])) h
  · cases h
    exact hd.blamed _

theorem line_blamed {d : Declaration} (hd : (Node.declaration d).StartsIn P) {type : GoType}
    (h : d.line type = .error error) : Blamed P error := by
  rw [Declaration.line] at h
  split at h
  · next value hsome =>
    obtain h | ⟨text, _, h⟩ := Outcome.error_of_check h
    · exact target_blamed (hd.part (by simp [Node.parts, hsome])) h
    · cases h
  · cases h

mutual

/-- **A statement fails at a node in it.** -/
theorem Node.Fault.blamed : {node : Node} → {error : Error} → node.Fault error → node.StartsIn P → Blamed P error
  | _, _, .member hgroup hmem hfault, h => hfault.blamed (h.part (by simp [Node.parts, hgroup, hmem]))
  | _, _, .single _ hfault, h => hfault.blamed h
  | _, _, .undeclared _ _ _, h | _, _, .assignToConstant _ _ _, h => h.blamed _
  | _, _, .operand hmem herror, h => target_blamed (h.part (Node.mem_parts_of_mem_operands hmem)) herror
  | _, _, .inside hmem hfault, h => hfault.blamed (h.part (Node.mem_parts_of_mem_statements hmem))
  | _, _, .anonymous _, h | _, _, .unsupported _, h => h.blamed _

theorem Declaration.Fault.blamed : {d : Declaration} → {error : Error} → d.Fault error →
    (Node.declaration d).StartsIn P → Blamed P error
  | _, _, .constant _ herror, h => requireConstant_blamed h herror
  | _, _, .type _ _ herror, h => declaredType_blamed h herror
  | _, _, .line _ _ herror, h => line_blamed h herror
  | d, _, .body (f := f) hvalue hmem hfault, h =>
    have hfunction : (Node.function f).StartsIn P := h.part (by simp [Node.parts, hvalue])
    hfault.blamed (hfunction.part hmem)

end

theorem emitInto_blamed {program : Program} (hprogram : ∀ node ∈ program.body, node.StartsIn P) {sink after : Sink}
    {options : Options} (h : emitInto program sink options = (.error error, after)) : Blamed P error := by
  obtain ⟨message, rfl⟩ | ⟨node, hmem, hfault⟩ := error_of_emitInto h
  · exact .io message
  · exact hfault.blamed (hprogram node hmem)

end Emissions

/-- **An error on the way to TypeScript** points into the text that was parsed, or is a failure of the sink. -/
theorem position_of_typeScriptOf_error {options : Options} {error : Error}
    (h : typeScriptOf source options = .error error) :
    Blamed (Position.PointsInto (Cleanup.cleanup source) defaultFile) error := by
  rw [typeScriptOf, typeScriptIn] at h
  obtain h | ⟨program, hparse, h⟩ := Outcome.error_of_check h
  · exact .inr (position_of_parse_error h)
  · split at h
    · cases h
    · next error' sink hemit =>
      cases h
      exact emitInto_blamed (starts_of_parse hparse) hemit

end GoScript
