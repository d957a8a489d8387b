import GoScript.Node.Basic

/-!
# Outlines

The outline of a tree names every node and puts its parts in parentheses.  Spans and inferred types are left out, so
two trees of the same shape have the same outline.

* `Node.outline` — the outline of a node
-/

namespace GoScript

/-- The outline of a truth value. -/
def boolText (value : Bool) : String :=
  if value then "true" else "false"

/-- The outline of a parameter.  A variadic one shows the type of one argument. -/
def Parameter.outline (parameter : Parameter) : String :=
  if parameter.variadic then
    parameter.name ++ ": ..." ++ (parameter.type.element?.getD .void).name
  else parameter.name ++ ": " ++ parameter.type.name

mutual

/-- The outline of a node. -/
def Node.outline : Node → String
  | .program ⟨body, _⟩ => "\n".intercalate (Node.outlines body)
  | .identifier name _ => "Identifier(" ++ name ++ ")"
  | .integer value _ => "Integer(" ++ toString value ++ ")"
  | .string value _ => "String(" ++ value ++ ")"
  | .boolean value _ => "Boolean(" ++ boolText value ++ ")"
  | .declaration declaration => declaration.outline
  | .assignment name value _ => "Assignment(Identifier(" ++ name ++ ") = " ++ value.outline ++ ")"
  | .returning none _ => "ReturnStatement(EMPTY)"
  | .returning (some value) _ => "ReturnStatement(" ++ value.outline ++ ")"
  | .expression expression _ => "ExpressionStatement(" ++ expression.outline ++ ")"
  | .block ⟨body, _⟩ => ", ".intercalate (Node.outlines body)
  | .conditional condition ⟨consequence, _⟩ none _ =>
    "IfStatement(Condition(" ++ condition.outline ++ ") Consequence(" ++
      ", ".intercalate (Node.outlines consequence) ++ ") Alternative())"
  | .conditional condition ⟨consequence, _⟩ (some ⟨alternative, _⟩) _ =>
    "IfStatement(Condition(" ++ condition.outline ++ ") Consequence(" ++
      ", ".intercalate (Node.outlines consequence) ++ ") Alternative(" ++
      ", ".intercalate (Node.outlines alternative) ++ "))"
  | .unary operator operand _ => "(" ++ operator.value ++ operand.outline ++ ")"
  | .binary left operator right _ =>
    "(" ++ left.outline ++ " " ++ operator.value ++ " " ++ right.outline ++ ")"
  | .function ⟨name, parameters, returns, ⟨body, _⟩, _⟩ =>
    "Function(Name(" ++ name.getD "" ++ ") Params(" ++
      ", ".intercalate (parameters.map Parameter.outline) ++ ") Returns(" ++
      (returns.map GoType.name).getD "" ++ ") Body(" ++
      ", ".intercalate (Node.outlines body) ++ "))"
  | .call callee arguments _ =>
    "FunctionCall(Identifier(" ++ callee ++ ")(" ++ ", ".intercalate (Node.outlines arguments) ++ "))"
  | .array _ _ none _ => "Array(EMPTY)"
  | .array _ _ (some elements) _ => "Array([" ++ ", ".intercalate (Node.outlines elements) ++ "])"
  | .index collection position _ =>
    "IndexExpression(Left:(" ++ collection.outline ++ ") Right: [" ++ position.outline ++ "])"

/-- The outlines of some nodes. -/
def Node.outlines : List Node → List String
  | [] => []
  | node :: rest => node.outline :: Node.outlines rest

/-- The outline of a declaration. -/
def Declaration.outline : Declaration → String
  | ⟨_, constant, _, _, _, some members, _⟩ =>
    (if constant then "Const" else "Var") ++ "Group(" ++
      ", ".intercalate (Declaration.outlines members) ++ ")"
  | ⟨name, constant, explicit, _, none, none, _⟩ =>
    (if constant then "Const" else "Var") ++ "Node(Identifier(" ++ name ++ ")" ++
      (explicit.map (": " ++ ·.name)).getD "" ++ ")"
  | ⟨name, constant, explicit, _, some value, none, _⟩ =>
    (if constant then "Const" else "Var") ++ "Node(Identifier(" ++ name ++ ")" ++
      (explicit.map (": " ++ ·.name)).getD "" ++ " = " ++ value.outline ++ ")"

/-- The outlines of some declarations. -/
def Declaration.outlines : List Declaration → List String
  | [] => []
  | declaration :: rest => declaration.outline :: Declaration.outlines rest

end

end GoScript
