import GoScript.Proofs.Lines
import GoScript.Proofs.WellFormed

/-!
# How emission can fail

The emitter has an answer for every tree, also for trees that no parse yields: a constant that is bound to a call, a
declaration of nothing, an expression in the place of a statement.  On a tree that was parsed these answers are never
given.  Five kinds of errors are left.

* `Node.OperandIn`, `Node.StatementIn` — the nodes of a tree that stand in it as operands and as statements
* `Function.Misplaced` — a function where none can be emitted
* `Foreseen` — the errors that are left
* `error_of_target`, `error_of_typeOf` — the part of an expression that an error is about
* `Node.Fault.foreseen` — the errors of a statement, of all those that the emitter has, are among them
* `emitInto_foreseen` — the emission of a parsed program fails in no other way
-/

namespace GoScript

open Outcome

/-! ### Places in a tree -/

namespace Node

/-- A node that stands in the tree `root` as an operand. -/
def OperandIn (node root : Node) : Prop :=
  ∃ parent : Node, parent.Within root ∧ node ∈ parent.operands

/-- A node that stands in the tree `root` as a statement. -/
def StatementIn (node root : Node) : Prop :=
  ∃ parent : Node, parent.Within root ∧ node ∈ parent.statements

variable {root node : Node}

theorem OperandIn.within (h : node.OperandIn root) : node.Within root := by
  obtain ⟨parent, within, hmem⟩ := h
  exact within.of_mem_parts (mem_parts_of_mem_operands hmem)

theorem StatementIn.within (h : node.StatementIn root) : node.Within root := by
  obtain ⟨parent, within, hmem⟩ := h
  exact within.of_mem_parts (mem_parts_of_mem_statements hmem)

/-- The operands of a sound tree are expressions. -/
theorem OperandIn.isExpression (hroot : root.Sound) (h : node.OperandIn root) : node.isExpression = true := by
  obtain ⟨parent, within, hmem⟩ := h
  have hformed : parent.Formed := hroot parent within
  cases parent with
  | declaration d =>
    have hvalue : d.value = some node := by simpa using (List.mem_filter.mp hmem).1
    rw [Formed, Declaration.Formed] at hformed
    cases hgroup : d.group with
    | none =>
      rw [hgroup] at hformed
      exact hformed.value node hvalue
    | some members =>
      rw [hgroup] at hformed
      rw [hformed.1] at hvalue
      cases hvalue
  | assignment name value span => exact List.mem_singleton.mp hmem ▸ hformed
  | returning value span => exact hformed node (by simpa [operands] using hmem)
  | expression e span => exact List.mem_singleton.mp hmem ▸ hformed
  | conditional condition consequence alternative span => exact List.mem_singleton.mp hmem ▸ hformed.1
  | unary operator operand span => exact List.mem_singleton.mp hmem ▸ hformed.2.2
  | binary left operator right span =>
    obtain ⟨_, _, hleft, hright⟩ := hformed
    obtain rfl | rfl : node = left ∨ node = right := by simpa [operands] using hmem
    · exact hleft
    · exact hright
  | call callee arguments span => exact hformed.2 node hmem
  | array element form elements span =>
    cases elements with
    | none => cases hmem
    | some nodes => exact hformed.expressions nodes rfl node hmem
  | index collection position span =>
    obtain rfl | rfl : node = collection ∨ node = position := by simpa [operands] using hmem
    · exact hformed.1
    · exact hformed.2
  | program | block | function | identifier | integer | string | boolean => cases hmem

/-- The statements of a sound tree are statements. -/
theorem StatementIn.isStatement (hroot : root.Sound) (h : node.StatementIn root) : node.isStatement = true := by
  obtain ⟨parent, within, hmem⟩ := h
  have hformed : parent.Formed := hroot parent within
  cases parent with
  | program b | block b => exact hformed node hmem
  | function f => exact hformed.body node hmem
  | conditional condition consequence alternative span =>
    rcases List.mem_append.mp hmem with hmem | hmem
    · exact hformed.2.1 node hmem
    · cases alternative with
      | none => cases hmem
      | some b => exact hformed.2.2 b rfl node hmem
  | _ => cases hmem

end Node

/-! ### The errors that are left -/

/-- A function that cannot be emitted where it stands in the tree `root`: inside an expression, or as a statement
without a name. -/
inductive Function.Misplaced (root : Node) (function : Function) : Prop
  | operand : (Node.function function).OperandIn root → function.Misplaced root
  | anonymous : (Node.function function).StatementIn root → function.name = none → function.Misplaced root

/-- The errors that the emission of a parsed tree `root` can end with. -/
inductive Foreseen (root : Node) : Error → Prop
  | undeclared (name : String) (position : Position) : Foreseen root ⟨.undeclared name, position⟩
  | assignToConstant (name : String) (position : Position) : Foreseen root ⟨.assignToConstant name, position⟩
  | notIndexable (type : String) (position : Position) : Foreseen root ⟨.notIndexable type, position⟩
  | misplaced {function : Function} : function.Misplaced root →
    Foreseen root ⟨.unsupportedNode "Function", function.span.start⟩
  | io (message : String) : Foreseen root (.io message)

/-! ### Expressions -/

variable {root node : Node} {error : Error}

/-- An expression is `node` itself or an operand somewhere in it. -/
inductive Node.OperandOf : Node → Node → Prop
  | self (node : Node) : Node.OperandOf node node
  | operand {inner operand node : Node} : operand ∈ node.operands → inner.OperandOf operand → Node.OperandOf inner node

theorem Node.OperandOf.within {inner : Node} (h : inner.OperandOf node) : inner.Within node := by
  induction h with
  | self => exact .self _
  | operand hmem _ ih => exact .part (Node.mem_parts_of_mem_operands hmem) ih

theorem Node.OperandOf.operandIn {inner : Node} (h : inner.OperandOf node) (hnode : node.OperandIn root) :
    inner.OperandIn root := by
  induction h with
  | self => exact hnode
  | operand hmem _ ih => exact ih ⟨_, hnode.within, hmem⟩

theorem error_of_targets {nodes : List Node} (h : Node.targets nodes = .error error) :
    ∃ node ∈ nodes, node.target = .error error := by
  induction nodes with
  | nil => cases h
  | cons node rest ih =>
    rw [Node.targets] at h
    obtain h | ⟨text, _, h⟩ := error_of_check h
    · exact ⟨node, List.mem_cons_self, h⟩
    obtain h | ⟨texts, _, h⟩ := error_of_check h
    · obtain ⟨other, hother, h⟩ := ih h
      exact ⟨other, List.mem_cons_of_mem node hother, h⟩
    · cases h

/-- **The text of an expression** fails only because of something in it that has none. -/
theorem error_of_target (h : node.target = .error error) :
    ∃ inner : Node, inner.OperandOf node ∧ (inner.isExpression = true → inner.isFunction = true) ∧
      error = inner.unsupported := by
  induction node using Node.partsInduction generalizing error with
  | step node ih =>
    have hoperand : ∀ operand ∈ node.operands, operand.target = .error error →
        ∃ inner : Node, inner.OperandOf node ∧ (inner.isExpression = true → inner.isFunction = true) ∧
          error = inner.unsupported := by
      intro operand hmem h
      obtain ⟨inner, hinner, hbare, herror⟩ := ih operand (Node.mem_parts_of_mem_operands hmem) h
      exact ⟨inner, .operand hmem hinner, hbare, herror⟩
    cases node with
    | identifier | integer | string | boolean => simp [Node.target] at h
    | unary operator operand span =>
      rw [Node.target] at h
      obtain h | ⟨text, _, h⟩ := error_of_check h
      · exact hoperand operand (by simp [Node.operands]) h
      · cases h
    | binary left operator right span =>
      rw [Node.target] at h
      obtain h | ⟨leftText, _, h⟩ := error_of_check h
      · exact hoperand left (by simp [Node.operands]) h
      obtain h | ⟨rightText, _, h⟩ := error_of_check h
      · exact hoperand right (by simp [Node.operands]) h
      · cases h
    | call callee arguments span =>
      rw [Node.target] at h
      obtain h | ⟨texts, _, h⟩ := error_of_check h
      · obtain ⟨argument, hmem, h⟩ := error_of_targets h
        exact hoperand argument hmem h
      · split at h <;> cases h
    | array element form elements span =>
      cases elements with
      | none => simp [Node.target] at h
      | some nodes =>
        rw [Node.target] at h
        obtain h | ⟨texts, _, h⟩ := error_of_check h
        · obtain ⟨item, hmem, h⟩ := error_of_targets h
          exact hoperand item hmem h
        · cases h
    | index collection position span =>
      rw [Node.target] at h
      obtain h | ⟨text, _, h⟩ := error_of_check h
      · exact hoperand collection (by simp [Node.operands]) h
      obtain h | ⟨positionText, _, h⟩ := error_of_check h
      · exact hoperand position (by simp [Node.operands]) h
      · cases h
    | program | declaration | assignment | returning | expression | block | conditional | function =>
      cases h
      exact ⟨_, .self _, by simp [Node.isExpression, Node.isFunction], rfl⟩

/-- The errors of an expression whose type is not found, those of its operands apart. -/
inductive Node.Untyped : Node → Error → Prop
  | name (name : String) (span : Span) : Node.Untyped (.identifier name span) ⟨.undeclared name, span.start⟩
  | call (callee : String) (arguments : List Node) (span : Span) :
    Node.Untyped (.call callee arguments span) ⟨.undeclared callee, span.start⟩
  | index (collection position : Node) (type : GoType) (span : Span) :
    Node.Untyped (.index collection position span) ⟨.notIndexable type.name, span.start⟩
  | array (form : ArrayForm) {elements : Option (List Node)} (span : Span) :
    (∀ first rest, elements ≠ some (first :: rest)) →
    Node.Untyped (.array none form elements span) (Node.array none form elements span).unsupported
  | other {node : Node} : node.isExpression = false → Node.Untyped node node.unsupported

theorem Node.Untyped.position (h : node.Untyped error) : error.position = node.span.start := by
  cases h <;> rfl

theorem error_of_typeOfName {scopes : ScopeTree} {name : String} {position : Position}
    (h : scopes.typeOfName name position = .error error) : error = ⟨.undeclared name, position⟩ := by
  rw [ScopeTree.typeOfName] at h
  split at h
  · cases h
  · cases h
    rfl

/-- **The type of an expression** fails only because of a name, an index or something without a type in it. -/
theorem error_of_typeOf {scopes : ScopeTree} (h : scopes.typeOf node = .error error) :
    ∃ inner : Node, inner.OperandOf node ∧ inner.Untyped error := by
  fun_induction ScopeTree.typeOf scopes node generalizing error with
  | case1 => cases h
  | case2 name span => exact ⟨_, .self _, error_of_typeOfName h ▸ .name name span⟩
  | case3 callee arguments span => exact ⟨_, .self _, error_of_typeOfName h ▸ .call callee arguments span⟩
  | case4 left operator right span _ ih =>
    obtain ⟨inner, hinner, huntyped⟩ := ih h
    exact ⟨inner, .operand (by simp [Node.operands]) hinner, huntyped⟩
  | case5 operator operand span _ ih =>
    obtain ⟨inner, hinner, huntyped⟩ := ih h
    exact ⟨inner, .operand (by simp [Node.operands]) hinner, huntyped⟩
  | case6 element form first rest span _ ih =>
    obtain h | ⟨type, _, h⟩ := error_of_check h
    · obtain ⟨inner, hinner, huntyped⟩ := ih h
      exact ⟨inner, .operand (by simp [Node.operands]) hinner, huntyped⟩
    · cases h
  | case7 collection position span _ ih =>
    obtain h | ⟨type, _, h⟩ := error_of_check h
    · obtain ⟨inner, hinner, huntyped⟩ := ih h
      exact ⟨inner, .operand (by simp [Node.operands]) hinner, huntyped⟩
    · split at h
      · cases h
      · cases h
        exact ⟨_, .self _, .index collection position type span⟩
  | case8 node hidentifier hcall hbinary hunary harray hindex htype =>
    cases h
    refine ⟨node, .self node, ?_⟩
    cases node with
    | array element form elements span =>
      cases element with
      | some type => cases htype
      | none => exact .array form span fun first rest hcons => harray none form first rest span (by rw [hcons])
    | identifier name span => exact absurd rfl (hidentifier name span)
    | call callee arguments span => exact absurd rfl (hcall callee arguments span)
    | binary left operator right span => exact absurd rfl (hbinary left operator right span)
    | unary operator operand span => exact absurd rfl (hunary operator operand span)
    | index collection position span => exact absurd rfl (hindex collection position span)
    | integer | string | boolean | function => cases htype
    | program | declaration | assignment | returning | expression | block | conditional => exact .other rfl

/-- In a sound tree what has no text is a function. -/
theorem target_foreseen (hroot : root.Sound) (hnode : node.OperandIn root) (h : node.target = .error error) :
    Foreseen root error := by
  obtain ⟨inner, hinner, hbare, rfl⟩ := error_of_target h
  have hoperand := hinner.operandIn hnode
  have hfunction := hbare (hoperand.isExpression hroot)
  cases inner with
  | function f => exact .misplaced (.operand hoperand)
  | _ => cases hfunction

/-- In a sound tree every expression has a type, up to names and indices. -/
theorem typeOf_foreseen (hroot : root.Sound) {scopes : ScopeTree} (hnode : node.OperandIn root)
    (h : scopes.typeOf node = .error error) : Foreseen root error := by
  obtain ⟨inner, hinner, huntyped⟩ := error_of_typeOf h
  have hoperand := hinner.operandIn hnode
  cases huntyped with
  | name name span => exact .undeclared name span.start
  | call callee arguments span => exact .undeclared callee span.start
  | index collection position type span => exact .notIndexable type.name span.start
  | @array form elements span hempty =>
    have hformed : ArrayFormed none form elements := hroot _ hoperand.within
    by_cases hform : form = .bare
    · obtain ⟨first, rest, rfl, _⟩ := hformed.bare hform
      exact absurd rfl (hempty first rest)
    · obtain ⟨type, htype, _⟩ := hformed.written hform
      cases htype
  | other hnot =>
    rw [hoperand.isExpression hroot] at hnot
    cases hnot

/-! ### Statements -/

theorem single_of_sound (hroot : root.Sound) {d : Declaration} (within : (Node.declaration d).Within root)
    (hgroup : d.group = none) : d.Single := by
  have hformed : d.Formed := hroot _ within
  rwa [Declaration.Formed, hgroup] at hformed

theorem requireConstant_eq_ok {d : Declaration} (h : d.Single) : requireConstant d = .ok () := by
  rw [requireConstant]
  split
  · next callee arguments span hconstant hvalue =>
    obtain ⟨value, hvalue', hcall, _⟩ := h.constant_value hconstant
    cases hvalue.symm.trans hvalue'
    exact absurd rfl (hcall callee arguments span)
  · next collection position span hconstant hvalue =>
    obtain ⟨value, hvalue', _, hindex⟩ := h.constant_value hconstant
    cases hvalue.symm.trans hvalue'
    exact absurd rfl (hindex collection position span)
  · rfl

theorem declaredType_foreseen (hroot : root.Sound) {scopes : ScopeTree} {d : Declaration} (hsingle : d.Single)
    (hvalue : ∀ value, d.value = some value → value.OperandIn root) (h : scopes.declaredType d = .error error) :
    Foreseen root error := by
  rw [ScopeTree.declaredType] at h
  split at h
  · cases h
  · next value _ hsome => exact typeOf_foreseen hroot (hvalue value hsome) h
  · next htype hnone =>
    have hgiven := hsingle.given
    rw [Declaration.type?, Option.or_eq_none_iff] at htype
    simp [hnone, htype] at hgiven

theorem line_foreseen (hroot : root.Sound) {d : Declaration} {type : GoType}
    (hvalue : ∀ value, d.value = some value → value.OperandIn root) (h : d.line type = .error error) :
    Foreseen root error := by
  rw [Declaration.line] at h
  split at h
  · next value hsome =>
    obtain h | ⟨text, _, h⟩ := error_of_check h
    · exact target_foreseen hroot (hvalue value hsome) h
    · cases h
  · cases h

/-- The value of a declared name, if it is no function, stands there as an operand. -/
theorem operandIn_of_plain {d : Declaration} (within : (Node.declaration d).Within root)
    (hplain : d.bindsFunction = false) {value : Node} (hvalue : d.value = some value) : value.OperandIn root := by
  have hfunction : value.isFunction = false := by simpa [Declaration.bindsFunction, hvalue] using hplain
  exact ⟨_, within, by simp [Node.operands, hvalue, hfunction]⟩

mutual

/-- **Every statement** of a sound tree fails only in the ways that are left. -/
theorem Node.Fault.foreseen (hroot : root.Sound) : {node : Node} → {error : Error} → node.Fault error →
    node.StatementIn root → Foreseen root error
  | .declaration d, _, @Node.Fault.member _ member _ _ hgroup hmem hfault, h => by
    have hformed : d.Formed := hroot _ h.within
    rw [Declaration.Formed, hgroup] at hformed
    have hpart : .declaration member ∈ (Node.declaration d).parts := by simp [Node.parts, hgroup, hmem]
    exact hfault.foreseen hroot (h.within.of_mem_parts hpart) (hformed.2.2.2 member hmem).1
  | _, _, .single hgroup hfault, h => hfault.foreseen hroot h.within hgroup
  | _, _, .undeclared name _ _, _ => .undeclared name _
  | _, _, .assignToConstant name _ _, _ => .assignToConstant name _
  | _, _, .operand hmem herror, h => target_foreseen hroot ⟨_, h.within, hmem⟩ herror
  | _, _, .inside hmem hfault, h => hfault.foreseen hroot ⟨_, h.within, hmem⟩
  | _, _, .anonymous hname, h => .misplaced (.anonymous h hname)
  | _, _, .unsupported hnot, h => by
    rw [h.isStatement hroot] at hnot
    cases hnot

theorem Declaration.Fault.foreseen (hroot : root.Sound) : {d : Declaration} → {error : Error} → d.Fault error →
    (Node.declaration d).Within root → d.group = none → Foreseen root error
  | _, _, .constant _ herror, within, hgroup => by
    rw [requireConstant_eq_ok (single_of_sound hroot within hgroup)] at herror
    cases herror
  | _, _, .type _ hplain herror, within, hgroup =>
    declaredType_foreseen hroot (single_of_sound hroot within hgroup) (fun _ => operandIn_of_plain within hplain) herror
  | _, _, .line _ hplain herror, within, _ => line_foreseen hroot (fun _ => operandIn_of_plain within hplain) herror
  | _, _, .body hvalue hmem hfault, within, _ =>
    hfault.foreseen hroot ⟨.function _, within.of_mem_parts (by simp [Node.parts, hvalue]), hmem⟩

end

/-! ### Programs -/

/-- **Emission fails only in five ways.**  If a source parses, then whatever the sink and the options are, the error
that its program ends with, if any, is a name that is not declared, an assignment to a constant, an index into
something that is no array, a function that stands inside an expression or has no name, or a failure of the sink. -/
theorem emitInto_foreseen {source file : String} {program : Program} (hparse : parse source file = .ok program)
    {sink after : Sink} {options : Options} {error : Error}
    (h : emitInto program sink options = (.error error, after)) : Foreseen (.program program) error := by
  obtain ⟨message, rfl⟩ | ⟨node, hmem, hfault⟩ := error_of_emitInto h
  · exact .io message
  · exact hfault.foreseen (sound_of_parse hparse) ⟨_, .self _, hmem⟩

theorem emitInto_foreseen_function : ∃ program error after,
    parse "func f() \x7b return -func() \x7b\x7d \x7d" "shell" = .ok program ∧
      emitInto program .empty {} = (.error error, after) ∧ error.cause = .unsupportedNode "Function" ∧
      Foreseen (.program program) error := by
  have hparse : ∃ program, parse "func f() \x7b return -func() \x7b\x7d \x7d" "shell" = .ok program ∧
      ∃ error after, emitInto program .empty {} = (.error error, after) ∧ error.cause = .unsupportedNode "Function" :=
    ⟨_, by rfl, _, _, by rfl, by rfl⟩
  obtain ⟨program, hparse, error, after, h, hcause⟩ := hparse
  exact ⟨program, error, after, hparse, h, hcause, emitInto_foreseen hparse h⟩

end GoScript
