import GoScript.Error
import GoScript.Node.Source
import GoScript.Scope

/-!
# Emitted expressions

* `Builtin.table` — the names that are always in scope, with their spelling in the emitted text
* `Node.target` — the TypeScript text of an expression
* `ScopeTree.typeOf` — the type of an expression, names taken from the scopes
-/

namespace GoScript

/-- A name that is always in scope: its spelling in the emitted text and the type of what it returns. -/
structure Builtin where
  name : String
  target : String
  result : GoType

namespace Builtin

/-- The names that are always in scope. -/
def table : List Builtin :=
  [⟨"fmt.Println", "console.log", .void⟩, ⟨"fmt.Print", "console.log", .void⟩, ⟨"len", "len", .int⟩]

/-- The spelling of a builtin in the emitted text; nothing for other names. -/
def target? (name : String) : Option String :=
  (table.find? (·.name == name)).map Builtin.target

/-- A builtin as a binding. -/
def binding (builtin : Builtin) : Binding :=
  ⟨builtin.name, builtin.result, .builtin⟩

end Builtin

/-- The error of a node that cannot be emitted in its place. -/
def Node.unsupported (node : Node) : Error :=
  ⟨.unsupportedNode node.label, node.span.start⟩

mutual

/-- The TypeScript text of an expression.  The length of a collection is a member of it there, so a call of `len` with
one argument becomes one. -/
def Node.target : Node → Except Error String
  | .identifier name _ => .ok ((Builtin.target? name).getD name)
  | .integer value _ => .ok (toString value)
  | .string value _ => .ok ("\"" ++ value ++ "\"")
  | .boolean value _ => .ok (boolText value)
  | .unary operator operand _ => do
    let text ← operand.target
    return operator.value ++ parenthesize (operand.takesParens .unary true) text
  | .binary left operator right _ => do
    let power := (Precedence.binary? operator.kind).getD .lowest
    let leftText ← left.target
    let rightText ← right.target
    return parenthesize (left.takesParens power false) leftText ++ " " ++ operator.value ++ " " ++
      parenthesize (right.takesParens power true) rightText
  | .call callee arguments _ => do
    let texts ← Node.targets arguments
    match callee, arguments, texts with
    | "len", [collection], [text] => return parenthesize (collection.takesParens .call false) text ++ ".length"
    | _, _, _ => return (Builtin.target? callee).getD callee ++ "(" ++ ",".intercalate texts ++ ")"
  | .array _ _ none _ => .ok "[]"
  | .array _ _ (some elements) _ => do
    return "[" ++ ", ".intercalate (← Node.targets elements) ++ "]"
  | .index collection position _ => do
    let text ← collection.target
    let positionText ← position.target
    return parenthesize (collection.takesParens .index false) text ++ "[" ++ positionText ++ "]"
  | node => .error node.unsupported

/-- The TypeScript texts of some expressions, or the first error among them. -/
def Node.targets : List Node → Except Error (List String)
  | [] => .ok []
  | node :: rest => do
    let text ← node.target
    let texts ← Node.targets rest
    return text :: texts

end

namespace ScopeTree

/-- The type of the innermost binding of a name, for a node that mentions it at `position`. -/
def typeOfName (scopes : ScopeTree) (name : String) (position : Position) : Except Error GoType :=
  match scopes.lookup name with
  | some binding => .ok binding.type
  | none => .error ⟨.undeclared name, position⟩

/-- The type of an expression.  What a node does not say itself comes from the scopes; arithmetic has the type of its
left operand. -/
def typeOf (scopes : ScopeTree) (node : Node) : Except Error GoType :=
  match node.ownType? with
  | some type => .ok type
  | none =>
    match node with
    | .identifier name span => scopes.typeOfName name span.start
    | .call callee _ span => scopes.typeOfName callee span.start
    | .binary left _ _ _ => scopes.typeOf left
    | .unary _ operand _ => scopes.typeOf operand
    | .array _ _ (some (first :: _)) _ => do
      return .array (← scopes.typeOf first)
    | .index collection _ span => do
      let type ← scopes.typeOf collection
      match type.element? with
      | some element => return element
      | none => throw ⟨.notIndexable type.name, span.start⟩
    | node => .error node.unsupported

end ScopeTree

end GoScript
