import GoScript.Precedence
import GoScript.GoType

/-!
# Syntax trees

The tree of a program.  Expressions and statements are nodes of one type, since each may stand wherever the grammar
tables put it; every node remembers its span.

* `Node`, `Block`, `Declaration`, `Function` — the tree, and `Program`, the block of the top-level statements
* `Node.span`, `Node.label` — where a node stands and what it is called in messages
* `Node.ownType?` — the type that a node carries without looking at any scope
* `Node.precedence`, `Node.takesParens` — when an operand has to be written in parentheses
-/

namespace GoScript

/-- How the size of an array literal is written: `[3]`, `[...]`, `[]`, or not at all in a bare list. -/
inductive ArrayForm where
  | sized (count : Nat)
  | counted
  | slice
  | bare
deriving DecidableEq, Inhabited

/-- A parameter of a function.  The type of a variadic one is the array that collects the arguments. -/
structure Parameter where
  name : String
  type : GoType
  variadic : Bool
  span : Span
deriving DecidableEq

mutual

/-- A node of a syntax tree. -/
inductive Node where
  /-- A whole program. -/
  | program (program : Block)
  /-- A name, possibly with dots. -/
  | identifier (name : String) (span : Span)
  /-- An integer literal. -/
  | integer (value : Int) (span : Span)
  /-- A string literal without its quotes. -/
  | string (value : String) (span : Span)
  /-- A truth value. -/
  | boolean (value : Bool) (span : Span)
  /-- A declaration of a variable or constant, or a group of them. -/
  | declaration (declaration : Declaration)
  /-- An assignment to a name. -/
  | assignment (name : String) (value : Node) (span : Span)
  /-- The return from a function, with or without a value. -/
  | returning (value : Option Node) (span : Span)
  /-- An expression as a statement. -/
  | expression (expression : Node) (span : Span)
  /-- A block of statements. -/
  | block (block : Block)
  /-- A condition with what follows if it holds, and what follows otherwise. -/
  | conditional (condition : Node) (consequence : Block) (alternative : Option Block) (span : Span)
  /-- An operator before its operand. -/
  | unary (operator : Token) (operand : Node) (span : Span)
  /-- An operator between its operands. -/
  | binary (left : Node) (operator : Token) (right : Node) (span : Span)
  /-- A function, with or without a name. -/
  | function (function : Function)
  /-- A call of a named function. -/
  | call (callee : String) (arguments : List Node) (span : Span)
  /-- An array literal.  Without elements it stands for its type alone. -/
  | array (element : Option GoType) (form : ArrayForm) (elements : Option (List Node)) (span : Span)
  /-- An element of an array. -/
  | index (collection : Node) (position : Node) (span : Span)

/-- A sequence of statements. -/
structure Block where
  body : List Node
  span : Span

/-- A declaration.  A single one has a name, perhaps a type that is written, perhaps one that follows from its value,
and perhaps a value; a group has its members instead. -/
structure Declaration where
  name : String
  constant : Bool
  explicit : Option GoType
  inferred : Option GoType
  value : Option Node
  group : Option (List Declaration)
  span : Span

/-- A function. -/
structure Function where
  name : Option String
  parameters : List Parameter
  returns : Option GoType
  body : Block
  span : Span

end

/-- A program is the block of its top-level statements. -/
abbrev Program := Block

/-- The type of a declared name, as far as it is known: the written one before the one that follows from the value. -/
def Declaration.type? (declaration : Declaration) : Option GoType :=
  declaration.explicit.or declaration.inferred

/-- The type of the values that a function returns. -/
def Function.returnType (function : Function) : GoType :=
  function.returns.getD .void

namespace Node

/-- Where a node stands. -/
def span : Node → Span
  | program p => p.span
  | identifier _ span => span
  | integer _ span => span
  | string _ span => span
  | boolean _ span => span
  | declaration d => d.span
  | assignment _ _ span => span
  | returning _ span => span
  | expression _ span => span
  | block b => b.span
  | conditional _ _ _ span => span
  | unary _ _ span => span
  | binary _ _ _ span => span
  | function f => f.span
  | call _ _ span => span
  | array _ _ _ span => span
  | index _ _ span => span

/-- The name of the kind of a node. -/
def label : Node → String
  | program _ => "Program"
  | identifier _ _ => "Identifier"
  | integer _ _ => "IntegerLiteral"
  | string _ _ => "StringLiteral"
  | boolean _ _ => "BooleanLiteral"
  | declaration _ => "Declaration"
  | assignment _ _ _ => "Assignment"
  | returning _ _ => "Return"
  | expression _ _ => "ExpressionStatement"
  | block _ => "CodeBlock"
  | conditional _ _ _ _ => "IfElse"
  | unary _ _ _ => "Prefix"
  | binary _ _ _ _ => "Infix"
  | function _ => "Function"
  | call _ _ _ => "FunctionCall"
  | array _ _ _ _ => "Array"
  | index _ _ _ => "Index"

/-- The type that a node carries on its own, without looking at any scope. -/
def ownType? : Node → Option GoType
  | integer _ _ => some .int
  | string _ _ => some .string
  | boolean _ _ => some .bool
  | array element _ _ _ => element.map .array
  | declaration d => d.type?
  | function f => some f.returnType
  | unary operator _ _ => if operator.kind.isBoolean then some .bool else none
  | binary _ operator _ _ => if operator.kind.isBoolean then some .bool else none
  | _ => none

/-- How tightly the outermost operator of a node binds. -/
def precedence : Node → Precedence
  | binary _ operator _ _ => (Precedence.binary? operator.kind).getD .lowest
  | unary _ _ _ => .unary
  | _ => .primary

/-- Whether a node has to be written in parentheses as an operand of an operator that binds like `parent`.  Chains of
equal operators lean to the left, so on the `right` side an equal operator needs them too. -/
def takesParens (child : Node) (parent : Precedence) (right : Bool) : Bool :=
  decide (child.precedence < parent) || (right && child.precedence == parent)

end Node

/-- A text, put in parentheses if they are needed. -/
def parenthesize (needed : Bool) (text : String) : String :=
  if needed then "(" ++ text ++ ")" else text

end GoScript
