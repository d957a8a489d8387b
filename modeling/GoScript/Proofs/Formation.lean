import GoScript.Numeral
import GoScript.Precedence
import GoScript.Proofs.Parts
import GoScript.Proofs.Spelling

/-!
# Well-formed trees

A tree that was parsed keeps more rules than its type says: which nodes are expressions and which are statements, what
a declaration has, which types an array literal may hold.  This file states the rules for one node at a time.

* `Node.Formed` — the rules for a node; `Node.Sound` — every node of a tree keeps them
-/

namespace GoScript

/-! ### The rules -/

/-- A type that a program can spell: it has no `void` in it. -/
def GoType.Written : GoType → Prop
  | .int | .string | .bool => True
  | .array element => element.Written
  | .void => False

namespace Node

/-- Whether a node is an expression. -/
def isExpression : Node → Bool
  | identifier _ _ | integer _ _ | string _ _ | boolean _ _ | unary _ _ _ | binary _ _ _ _ | function _ | call _ _ _
  | array _ _ _ _ | index _ _ _ => true
  | _ => false

end Node

/-- The rules for a single declaration. -/
structure Declaration.Single (declaration : Declaration) : Prop where
  /-- It has a value or a type. -/
  given : declaration.value.isSome ∨ declaration.explicit.isSome ∨ declaration.inferred.isSome
  /-- A constant has a value, and that is neither a call nor an index. -/
  constant_value : declaration.constant = true → ∃ value, declaration.value = some value ∧
    (∀ callee arguments span, value ≠ .call callee arguments span) ∧
    ∀ collection position span, value ≠ .index collection position span
  /-- A constant is no array. -/
  constant_type : declaration.constant = true → ∀ type, declaration.type? = some type → type.isArray = false
  explicit : ∀ type, declaration.explicit = some type → type.Written
  value : ∀ value, declaration.value = some value → value.isExpression = true
  /-- The value is no array without elements. -/
  elements : ∀ element form span, declaration.value ≠ some (.array element form none span)
  /-- A function has a name, at least that of the declaration. -/
  named : ∀ function, declaration.value = some (.function function) → function.name.isSome

/-- The rules for a declaration.  A group has nothing but its members, which are single and constant together. -/
def Declaration.Formed (declaration : Declaration) : Prop :=
  match declaration.group with
  | none => declaration.Single
  | some members =>
    declaration.value = none ∧ declaration.explicit = none ∧ declaration.inferred = none ∧
      ∀ member ∈ members, member.group = none ∧ member.constant = declaration.constant

/-- The rules for a function. -/
structure Function.Formed (function : Function) : Prop where
  /-- A variadic parameter comes last and is an array. -/
  variadic : ∀ before parameter after, function.parameters = before ++ parameter :: after →
    parameter.variadic = true → after = [] ∧ parameter.type.isArray = true
  parameters : ∀ parameter ∈ function.parameters, parameter.type.Written
  returns : ∀ type, function.returns = some type → type.Written
  body : ∀ statement ∈ function.body.body, statement.isStatement = true

/-- The rules for an array literal. -/
structure ArrayFormed (element : Option GoType) (form : ArrayForm) (elements : Option (List Node)) : Prop where
  /-- A bare list has elements, and its element type is that of the first one. -/
  bare : form = .bare → ∃ first rest, elements = some (first :: rest) ∧ element = first.ownType?
  /-- In any other form the element type is written. -/
  written : form ≠ .bare → ∃ type, element = some type ∧ type.Written
  size : ∀ count, form = .sized count → count < Numeral.integerLimit
  /-- There are not more elements than the size. -/
  fits : ∀ count nodes, form = .sized count → elements = some nodes → nodes.length ≤ count
  /-- Elements other than functions have the element type, as far as both are known. -/
  typed : ∀ type nodes, element = some type → elements = some nodes →
    ∀ node ∈ nodes, node.isFunction = false → ∀ type', node.ownType? = some type' → type' = type
  expressions : ∀ nodes, elements = some nodes → ∀ node ∈ nodes, node.isExpression = true

/-- The rules for a node, given what its parts are. -/
def Node.Formed : Node → Prop
  | .identifier name _ => Spelled .identifier name
  | .integer value _ => 0 ≤ value ∧ value < Numeral.integerLimit
  | .string value _ => Spelled .string value
  | .boolean _ _ => True
  | .unary operator operand _ =>
    (operator.kind = .dash ∨ operator.kind = .not) ∧ operator.Spelled ∧ operand.isExpression = true
  | .binary left operator right _ =>
    (Precedence.binary? operator.kind).isSome ∧ operator.Spelled ∧ left.isExpression = true ∧ right.isExpression = true
  | .function f => f.Formed
  | .call callee arguments _ => Spelled .identifier callee ∧ ∀ argument ∈ arguments, argument.isExpression = true
  | .array element form elements _ => ArrayFormed element form elements
  | .index collection position _ => collection.isExpression = true ∧ position.isExpression = true
  | .declaration d => d.Formed
  | .assignment _ value _ => value.isExpression = true
  | .returning value _ => ∀ node, value = some node → node.isExpression = true
  | .expression e _ => e.isExpression = true
  | .conditional condition consequence alternative _ =>
    condition.isExpression = true ∧ (∀ statement ∈ consequence.body, statement.isStatement = true) ∧
      ∀ b, alternative = some b → ∀ statement ∈ b.body, statement.isStatement = true
  | .program b | .block b => ∀ statement ∈ b.body, statement.isStatement = true

namespace Node

/-- Every node of the tree keeps the rules. -/
def Sound (root : Node) : Prop :=
  ∀ node, Within node root → node.Formed

theorem Sound.formed {root : Node} (h : root.Sound) : root.Formed :=
  h root (.self root)

theorem Sound.part {root part : Node} (h : root.Sound) (hpart : part ∈ root.parts) : part.Sound :=
  fun node within => h node (.part hpart within)

theorem Sound.within {root node : Node} (h : root.Sound) (within : node.Within root) : node.Sound :=
  fun other within' => h other (within'.trans within)

/-- A tree is sound if its root keeps the rules and its parts are sound. -/
theorem Sound.of_parts {root : Node} (hroot : root.Formed) (hparts : ∀ part ∈ root.parts, part.Sound) :
    root.Sound :=
  forall_within.2 ⟨hroot, hparts⟩

/-- A sound tree that is an expression. -/
structure SoundExpression (node : Node) : Prop where
  expression : node.isExpression = true
  sound : node.Sound

/-- A sound tree that is a statement. -/
structure SoundStatement (node : Node) : Prop where
  statement : node.isStatement = true
  sound : node.Sound

end Node

end GoScript
