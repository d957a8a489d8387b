import GoScript.Grammar.StatementRules

/-!
# Parsing

The rules refer to each other through the tables.  Here they are tied together: `Grammar.subparsers` gives every rule
the parses for its parts, one level of nesting after the other.

With the standard tables no token lets more than a few rules nest before it is read, so a number of levels in
proportion to the tokens is never used up.  With other tables it can be, and only if the rules call each other without
ever reading a token.

* `Grammar.statementAt`, `Grammar.expressionAt`, `Grammar.ruleAt` — one level of nesting
* `Grammar.subparsers` — all levels
* `Grammar.parseProgram`, `Grammar.parseExpression`, … — the parses of a grammar; `parse` — that of the language
-/

namespace GoScript

namespace Grammar

open ParseM

/-- What a rule for statements and operands reads. -/
def ruleAt (grammar : Grammar) (sub : Subparsers) : Rule → ParseM Node
  | .statement => sub.statement
  | .declaration => declarationStatement grammar sub
  | .shortDeclaration => shortDeclaration sub
  | .assignment => assignment sub
  | .returning => returnStatement sub
  | .conditional => conditionalStatement sub
  | .functionDeclaration => return .function (← functionAt sub)
  | .primary => atom
  | .unary => unaryOperation sub
  | .grouping => parenthesized sub
  | .array => arrayLiteral grammar sub
  | .functionLiteral => return .function (← functionAt sub)

/-- An expression whose operators all bind more tightly than `power`. -/
def expressionAt (grammar : Grammar) (sub : Subparsers) (power : Precedence) : ParseM Node := do
  match grammar.operand (← currentKind) with
  | none => reject none
  | some rule =>
    let operand ← ruleAt grammar sub rule
    loop (continueRound grammar sub power) operand

/-- A statement that starts with a name: before `:=` or `=` that is a declaration or an assignment. -/
def nameStatement (sub : Subparsers) : ParseM Node := do
  match ← nextKind with
  | .declare => shortDeclaration sub
  | .assign => assignment sub
  | _ => expressionStatement sub

/-- A statement without the semicolons after it.  What no table knows is an expression. -/
def plainStatement (grammar : Grammar) (sub : Subparsers) : ParseM Node := do
  let kind ← currentKind
  match grammar.statement kind with
  | some rule => ruleAt grammar sub rule
  | none => if kind = .identifier then nameStatement sub else expressionStatement sub

/-- A statement and the semicolons after it. -/
def statementAt (grammar : Grammar) (sub : Subparsers) : ParseM Node := do
  let statement ← plainStatement grammar sub
  dropSemicolons
  pure statement

/-- The parses of a grammar in which at most `depth` rules nest. -/
def subparsers (grammar : Grammar) : (depth : Nat) → Subparsers
  | 0 => ⟨endless, fun _ => endless, endless, endless, endless⟩
  | depth + 1 =>
    { type := fun cursor => typeAt grammar (subparsers grammar depth) cursor
      expression := fun power cursor => expressionAt grammar (subparsers grammar depth) power cursor
      statement := fun cursor => statementAt grammar (subparsers grammar depth) cursor
      block := fun cursor => blockAt (subparsers grammar depth) cursor
      conditional := fun cursor => conditionalStatement (subparsers grammar depth) cursor }

/-- How many rules may nest before the tokens at a cursor are read. -/
def depthBound (cursor : Cursor) : Nat :=
  16 * (cursor.rest.length + 1)

/-- Runs a parse whose parts may nest as deep as the tokens allow. -/
def run {α : Type} (grammar : Grammar) (parse : Subparsers → ParseM α) : ParseM α := do
  parse (grammar.subparsers (depthBound (← get)))

/-- A whole program. -/
def parseProgram (grammar : Grammar) : ParseM Program :=
  grammar.run program

/-- An expression whose operators all bind more tightly than `power`. -/
def parseExpression (grammar : Grammar) (power : Precedence) : ParseM Node :=
  grammar.run (·.expression power)

/-- A block in braces. -/
def parseBlock (grammar : Grammar) : ParseM Block :=
  grammar.run (·.block)

/-- A statement or an operand, by the rule that is asked for. -/
def parseRule (grammar : Grammar) (rule : Rule) : ParseM Node :=
  grammar.run fun sub => ruleAt grammar sub rule

/-- A type, by the rule that is asked for. -/
def parseType (grammar : Grammar) (rule : TypeRule) : ParseM GoType :=
  grammar.run fun sub => typeRule sub rule

end Grammar

/-- The program in a source text called `file`, or the first error in it. -/
def parse (source : String) (file : String) : Except Error Program :=
  match Grammar.standard.parseProgram (Cursor.ofSource source file) with
  | .ok program _ => .ok program
  | .error error _ => .error error

end GoScript
