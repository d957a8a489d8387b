import GoScript.Grammar.ExpressionRules

/-!
# Statements

* `declared`, `declarationOf` — a declared name with its type and value, and the rules that it has to keep
* `declarationStatement`, `shortDeclaration`, `assignment`, `returnStatement`, `conditionalStatement` — statements
* `parameterList`, `functionAt` — functions, as statements and as operands
* `blockAt`, `program` — sequences of statements
-/

namespace GoScript.Grammar

open ParseM

/-! ### Declarations -/

/-- The value and the type of a name declared as `name`, given what was written as its value.  An array literal
without elements declares its type alone, and a function without a name takes the declared one. -/
def valueAndType (name : String) : Option Node → Option Node × Option GoType
  | some (.array element _ none _) => (none, element.map .array)
  | some (.function function) =>
    (some (.function { function with name := function.name.or (some name) }), some function.returnType)
  | some value => (some value, value.ownType?)
  | none => (none, none)

/-- What is wrong with a constant of some type and value, if anything is. -/
def constantFault? (type : Option GoType) (value : Option Node) : Option String :=
  if type.any GoType.isArray then some "cannot have an array type"
  else match value with
    | none => some "must be given a value"
    | some (.call _ _ _) => some "cannot be bound to a function call"
    | some (.index _ _ _) => some "cannot be bound to an index expression"
    | some _ => none

/-- The declaration of a name, if it keeps the rules: a constant has a value that is known beforehand, a variable has
a value or a type. -/
def declarationOf (name : Token) (constant : Bool) (explicit : Option GoType) (written : Option Node)
    (span : Span) : Except Error Declaration :=
  let (value, inferred) := valueAndType name.value written
  let fault? : Option Cause :=
    if constant then (constantFault? (explicit.or inferred) value).map (.constantMisuse name.value)
    else if value.isNone && explicit.isNone && inferred.isNone then some (.emptyDeclaration name.value)
    else none
  match fault? with
  | some cause => .error ⟨cause, name.span.start⟩
  | none => .ok ⟨name.value, constant, explicit, inferred, value, none, span⟩

/-- The type behind a declared name, if there is one.  A name where the type belongs is taken for one. -/
def writtenType (grammar : Grammar) (sub : Subparsers) : ParseM (Option GoType) := do
  if (← grammar.startsType) || (← currentKind) == .identifier then return some (← sub.type) else return none

/-- The value behind a declared name, if there is one. -/
def writtenValue (sub : Subparsers) : ParseM (Option Node) := do
  if (← currentKind) = .assign then
    let _ ← advance
    return some (← sub.expression .lowest)
  else return none

/-- A name with a type, a value or both, as it stands after `var` or `const`. -/
def declared (grammar : Grammar) (sub : Subparsers) (constant : Bool) (start : Position) : ParseM Declaration := do
  let token ← current
  let name ← takeOr .identifier
    ⟨.misplacedToken token.value "expected identifier during variable declaration", token.span.start⟩
  let explicit ← writtenType grammar sub
  let written ← writtenValue sub
  check (declarationOf name constant explicit written (← spanSince start))

/-- One more member of a group of declarations. -/
def groupItem (grammar : Grammar) (sub : Subparsers) (constant : Bool) : ParseM (Item Declaration) := do
  dropSemicolons
  if (← currentKind) = .closeParen then return .stop
  return .more (← declared grammar sub constant (← position))

/-- A declaration with `var` or `const`: a single one or a group in parentheses. -/
def declarationStatement (grammar : Grammar) (sub : Subparsers) : ParseM Node := do
  let keyword ← advance
  let constant := keyword.kind == .constWord
  if (← currentKind) ≠ .openParen then
    return .declaration (← declared grammar sub constant keyword.span.start)
  else
    let _ ← advance
    let members ← gather (groupItem grammar sub constant)
    let _ ← take .closeParen
    return .declaration ⟨"", constant, none, none, none, some members, ← spanSince keyword.span.start⟩

/-- A declaration with `:=`. -/
def shortDeclaration (sub : Subparsers) : ParseM Node := do
  let name ← advance
  let _ ← take .declare
  let value ← sub.expression .lowest
  return .declaration (← check (declarationOf name false none (some value) (← spanSince name.span.start)))

/-! ### Other simple statements -/

/-- An assignment to a name. -/
def assignment (sub : Subparsers) : ParseM Node := do
  let name ← advance
  let _ ← take .assign
  let value ← sub.expression .lowest
  return .assignment name.value value (← spanSince name.span.start)

/-- The value of a return.  There is one unless a semicolon, a closing brace or the end of the input follows. -/
def returnedValue (sub : Subparsers) : ParseM (Option Node) := do
  match ← currentKind with
  | .semicolon | .closeCurly | .endOfInput => return none
  | _ => return some (← sub.expression .lowest)

/-- A return, with or without a value. -/
def returnStatement (sub : Subparsers) : ParseM Node := do
  let keyword ← advance
  let value ← returnedValue sub
  return .returning value (← spanSince keyword.span.start)

/-- An expression as a statement. -/
def expressionStatement (sub : Subparsers) : ParseM Node := do
  let expression ← sub.expression .lowest
  return .expression expression expression.span

/-! ### Blocks -/

/-- One more statement of a block. -/
def blockItem (sub : Subparsers) : ParseM (Item Node) := do
  dropSemicolons
  match ← currentKind with
  | .closeCurly => return .stop
  | .endOfInput => reject (some "expected \x7d")
  | _ => return .more (← sub.statement)

/-- Statements in braces. -/
def blockAt (sub : Subparsers) : ParseM Block := do
  let brace ← take .openCurly
  let body ← gather (blockItem sub)
  let _ ← take .closeCurly
  return ⟨body, ← spanSince brace.span.start⟩

/-- What follows `else`: a block, or another condition, which then makes up a block of its own. -/
def alternative (sub : Subparsers) : ParseM Block := do
  if (← currentKind) = .ifWord then
    let start ← position
    let inner ← sub.conditional
    return ⟨[inner], ← spanSince start⟩
  else sub.block

/-- The block behind `else`, if there is one. -/
def otherwise (sub : Subparsers) : ParseM (Option Block) := do
  if (← currentKind) = .elseWord then
    let _ ← advance
    return some (← alternative sub)
  else return none

/-- A condition with the blocks that depend on it. -/
def conditionalStatement (sub : Subparsers) : ParseM Node := do
  let keyword ← advance
  let condition ← sub.expression .lowest
  let consequence ← sub.block
  let otherwise ← otherwise sub
  return .conditional condition consequence otherwise (← spanSince keyword.span.start)

/-! ### Functions -/

/-- Stops if a name is left without a type. -/
def requireTyped (pending : List Token) : Except Error Unit :=
  match pending with
  | [] => .ok ()
  | name :: _ => .error ⟨.untypedParameter name.value, name.span.start⟩

/-- The parameters that a type at the end of a run of names gives. -/
def typedParameters (pending : List Token) (name : Token) (type : GoType) (span : Span) : List Parameter :=
  pending.map (fun token => ⟨token.value, type, false, token.span⟩) ++ [⟨name.value, type, false, span⟩]

/-- Reads a comma if one follows. -/
def dropComma : ParseM Unit := do
  if (← currentKind) = .comma then
    let _ ← advance

/-- The parameters after a name that `...` follows.  It has to be the last one, and no name may wait for a type. -/
def variadicParameter (sub : Subparsers) (name : Token) (pending : List Token) (parameters : List Parameter) :
    ParseM (List Parameter) := do
  check (requireTyped pending)
  let _ ← advance
  let element ← sub.type
  let span ← spanSince name.span.start
  dropComma
  if (← currentKind) ≠ .closeParen then reject (some "a variadic parameter must come last")
  else return parameters ++ [⟨name.value, .array element, true, span⟩]

/-- The names that wait for a type and the parameters that have one, after one more name.  A type behind it is that of
all names that wait. -/
def plainParameter (sub : Subparsers) (name : Token) (pending : List Token) (parameters : List Parameter) :
    ParseM (List Token × List Parameter) := do
  let kind ← currentKind
  if kind = .comma ∨ kind = .closeParen then return (pending ++ [name], parameters)
  else
    let type ← sub.type
    return ([], parameters ++ typedParameters pending name type (← spanSince name.span.start))

/-- One more name of a parameter list, given the names that wait for a type and the parameters that have one.  A
variadic parameter ends the list. -/
def parameterRound (sub : Subparsers) :
    List Token × List Parameter → ParseM (Round (List Token × List Parameter) (List Token × List Parameter))
  | (pending, parameters) => do
    let token ← current
    if token.kind = .closeParen then return .done (pending, parameters)
    let name ← takeOr .identifier
      ⟨.misplacedToken token.value "expected parameter name", token.span.start⟩
    if (← currentKind) = .ellipsis then return .done ([], ← variadicParameter sub name pending parameters)
    let state ← plainParameter sub name pending parameters
    if (← currentKind) ≠ .comma then return .done state
    let _ ← advance
    return .again state

/-- The parameters up to the closing parenthesis.  Names without a type wait for the next one in the list. -/
def parameterList (sub : Subparsers) : ParseM (List Parameter) := do
  let (pending, parameters) ← loop (parameterRound sub) ([], [])
  check (requireTyped pending)
  pure parameters

/-- The name of a function, if it has one. -/
def functionName : ParseM (Option String) := do
  if (← currentKind) = .identifier then return some (← advance).value else return none

/-- The type of what a function returns, unless its body follows right away. -/
def resultType (sub : Subparsers) : ParseM (Option GoType) := do
  if (← currentKind) = .openCurly then return none else return some (← sub.type)

/-- A function, with or without a name. -/
def functionAt (sub : Subparsers) : ParseM Function := do
  let keyword ← take .funcWord
  let name ← functionName
  let _ ← take .openParen
  let parameters ← parameterList sub
  let _ ← take .closeParen
  let returns ← resultType sub
  let body ← sub.block
  return ⟨name, parameters, returns, body, ← spanSince keyword.span.start⟩

/-! ### Programs -/

/-- One more top-level statement. -/
def programItem (sub : Subparsers) : ParseM (Item Node) := do
  dropSemicolons
  if (← get).hasMore then return .more (← sub.statement) else return .stop

/-- Statements up to the end of the input. -/
def program (sub : Subparsers) : ParseM Program := do
  let body ← gather (programItem sub)
  return ⟨body, ← spanSince ⟨0, (← get).finish.file⟩⟩

end GoScript.Grammar
