import GoScript.Grammar.Cursor
import GoScript.Node.Basic

/-!
# Grammar tables

Which rule reads on is decided by the kind of the current token.  The tables that say so are part of the grammar and
can be changed.

* `Rule`, `Continuation`, `TypeRule` — the rules that a table can name
* `Grammar` — the tables for statements, operands, what may follow an operand, and types
* `Grammar.standard` — the tables of the language
* `Subparsers` — the parses that rules refer to for their parts
-/

namespace GoScript

/-- A rule that reads a statement or an operand. -/
inductive Rule where
  | statement
  | declaration
  | shortDeclaration
  | assignment
  | returning
  | conditional
  | functionDeclaration
  | primary
  | unary
  | grouping
  | array
  | functionLiteral
deriving DecidableEq

/-- A rule that reads on after an operand. -/
inductive Continuation where
  | binary
  | call
  | index
deriving DecidableEq

/-- A rule that reads a type. -/
inductive TypeRule where
  | any
  | primitive
  | array
deriving DecidableEq

/-- The tables that choose a rule by the kind of the current token. -/
structure Grammar where
  /-- The rule of a statement that starts with a token of some kind. -/
  statement : TokenKind → Option Rule
  /-- The rule of an operand that starts with a token of some kind. -/
  operand : TokenKind → Option Rule
  /-- The rule by which a token of some kind continues an operand, and how tightly it binds. -/
  continuation : TokenKind → Option (Precedence × Continuation)
  /-- The rule of a type that starts with a token of some kind. -/
  type : TokenKind → Option TypeRule

namespace Grammar

/-- A table with a new entry for one kind. -/
def setEntry {α : Type} (table : TokenKind → Option α) (kind : TokenKind) (entry : α) : TokenKind → Option α :=
  fun other => if other = kind then some entry else table other

/-- The grammar with another rule for the statements that start with a token of some kind. -/
def setStatement (grammar : Grammar) (kind : TokenKind) (rule : Rule) : Grammar :=
  { grammar with statement := setEntry grammar.statement kind rule }

/-- The grammar with another rule for the operands that start with a token of some kind. -/
def setOperand (grammar : Grammar) (kind : TokenKind) (rule : Rule) : Grammar :=
  { grammar with operand := setEntry grammar.operand kind rule }

/-- The grammar with another way for a token of some kind to continue an operand. -/
def setContinuation (grammar : Grammar) (kind : TokenKind) (power : Precedence) (rule : Continuation) : Grammar :=
  { grammar with continuation := setEntry grammar.continuation kind (power, rule) }

/-- The grammar with another rule for the types that start with a token of some kind. -/
def setType (grammar : Grammar) (kind : TokenKind) (rule : TypeRule) : Grammar :=
  { grammar with type := setEntry grammar.type kind rule }

/-- The tables of the language. -/
def standard : Grammar where
  statement
    | .constWord | .varWord => some .declaration
    | .ifWord => some .conditional
    | .funcWord => some .functionDeclaration
    | .returnWord => some .returning
    | _ => none
  operand
    | .integer | .identifier | .string | .trueWord | .falseWord => some .primary
    | .dash | .not => some .unary
    | .openParen => some .grouping
    | .openBracket => some .array
    | .funcWord => some .functionLiteral
    | _ => none
  continuation
    | .openParen => some (.call, .call)
    | .openBracket => some (.index, .index)
    | kind => (Precedence.binary? kind).map (·, .binary)
  type
    | .intType | .stringType | .boolType => some .primitive
    | .openBracket => some .array
    | _ => none

/-- Whether the current token can start a type. -/
def startsType (grammar : Grammar) : ParseM Bool :=
  return (grammar.type (← ParseM.currentKind)).isSome

end Grammar

/-- The parses that the rules refer to for their parts. -/
structure Subparsers where
  type : ParseM GoType
  expression : Precedence → ParseM Node
  statement : ParseM Node
  block : ParseM Block
  conditional : ParseM Node

end GoScript
