import GoScript.Node.Outline

/-!
# Source text of expressions

An expression is written back as source text with as few parentheses as its operators allow.  A statement has no such
text and shows its outline.

* `Node.source` — the source text of a node
-/

namespace GoScript

/-- How the size and the element type of an array literal are written in front of its elements. -/
def ArrayForm.source (form : ArrayForm) (element : GoType) : String :=
  match form with
  | .sized count => "[" ++ toString count ++ "]" ++ element.name
  | .counted => "[...]" ++ element.name
  | .slice => "[]" ++ element.name
  | .bare => ""

mutual

/-- The source text of a node. -/
def Node.source : Node → String
  | .identifier name _ => name
  | .integer value _ => toString value
  | .string value _ => "\"" ++ value ++ "\""
  | .boolean value _ => boolText value
  | .unary operator operand _ =>
    operator.value ++ parenthesize (operand.takesParens .unary true) operand.source
  | .binary left operator right _ =>
    let power := (Precedence.binary? operator.kind).getD .lowest
    parenthesize (left.takesParens power false) left.source ++ " " ++ operator.value ++ " " ++
      parenthesize (right.takesParens power true) right.source
  | .call callee arguments _ => callee ++ "(" ++ ",".intercalate (Node.sources arguments) ++ ")"
  | .array _ .bare none _ => "[]"
  | .array _ .bare (some elements) _ => "[" ++ ", ".intercalate (Node.sources elements) ++ "]"
  | .array element form none _ => (element.map form.source).getD ""
  | .array element form (some elements) _ =>
    (element.map form.source).getD "" ++ "\x7b" ++ ", ".intercalate (Node.sources elements) ++ "\x7d"
  | .index collection position _ =>
    parenthesize (collection.takesParens .index false) collection.source ++ "[" ++ position.source ++ "]"
  | node => node.outline

/-- The source texts of some nodes. -/
def Node.sources : List Node → List String
  | [] => []
  | node :: rest => node.source :: Node.sources rest

end

end GoScript
