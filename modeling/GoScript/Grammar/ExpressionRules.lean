import GoScript.Grammar.Loop
import GoScript.Grammar.TypeRules
import GoScript.Node.Source

/-!
# Expressions

An expression is an operand and whatever continues it: binary operators, the arguments of a call, an index.

* `atom`, `unaryOperation`, `parenthesized`, `arrayLiteral` — the operands other than functions
* `continueWith` — one step further after an operand
* `arrayNode` — an array literal, if its elements keep the rules
-/

namespace GoScript.Grammar

open ParseM

/-! ### Operands -/

/-- A literal or a name. -/
def atom : ParseM Node := do
  let token ← advance
  match token.kind with
  | .integer =>
    match Numeral.below? Numeral.integerLimit token.value with
    | some value => pure (.integer value token.span)
    | none => throw ⟨.numberTooLarge token.value, token.span.start⟩
  | .identifier => pure (.identifier token.value token.span)
  | .string => pure (.string token.value token.span)
  | .trueWord => pure (.boolean true token.span)
  | .falseWord => pure (.boolean false token.span)
  | _ => throw ⟨.unexpectedToken token.value, token.span.start⟩

/-- An operator and its operand, which binds more tightly than any binary operator. -/
def unaryOperation (sub : Subparsers) : ParseM Node := do
  let operator ← advance
  let operand ← sub.expression .unary
  pure (.unary operator operand ⟨operator.span.start, operand.span.stop⟩)

/-- An expression in parentheses, which leave no trace in the tree. -/
def parenthesized (sub : Subparsers) : ParseM Node := do
  let _ ← advance
  let expression ← sub.expression .lowest
  let _ ← take .closeParen
  pure expression

/-- One more expression of a list that `close` ends. -/
def listItem (sub : Subparsers) (close : TokenKind) (trailingComma : Bool) : ParseM (Item Node) := do
  if (← currentKind) = close then return .stop
  let expression ← sub.expression .lowest
  if (← currentKind) ≠ .comma then return .last expression
  let _ ← advance
  if !trailingComma && (← currentKind) == close then
    reject (some "expected an expression after ','")
  else return .more expression

/-- Expressions with commas between them up to `close`, which is read too. -/
def commaList (sub : Subparsers) (close : TokenKind) (trailingComma : Bool) : ParseM (List Node) := do
  let list ← gather (listItem sub close trailingComma)
  let _ ← take close
  pure list

/-! ### Array literals -/

/-- The type of an element that does not fit into an array of `expected`.  A function stands for what it returns only
when it is called, so it always fits, and so does an element whose type is not known yet. -/
def strayType? (expected : GoType) : Node → Option GoType
  | .function _ => none
  | element => element.ownType?.filter (· != expected)

/-- The error of an array literal at `start` that has more elements than its size. -/
def overflow? (element : GoType) (form : ArrayForm) (elements : List Node) (start : Position) : Option Error :=
  match form with
  | .sized count =>
    if count < elements.length then
      some ⟨.badArrayLiteral (toString elements.length ++ " elements do not fit in [" ++ toString count ++ "]" ++
        element.name), start⟩
    else none
  | _ => none

/-- The error of the first element that does not fit into an array of `element`. -/
def stray? (element : GoType) (elements : List Node) : Option Error :=
  elements.findSome? fun node =>
    (strayType? element node).map fun received => ⟨.typeMismatch element.name received.name, node.span.start⟩

/-- An array literal, if it has no more elements than its size and all of them are of its element type. -/
def arrayNode (element : Option GoType) (form : ArrayForm) (elements : Option (List Node)) (span : Span) :
    Except Error Node :=
  let fault? := match element, elements with
    | some element, some elements => (overflow? element form elements span.start).or (stray? element elements)
    | _, _ => none
  match fault? with
  | some error => .error error
  | none => .ok (.array element form elements span)

/-- The cause of an array literal with neither elements nor an element type. -/
def noElementType : Cause :=
  .badArrayLiteral "an empty array literal needs an element type"

/-- A list in brackets without a written type: that of its first element, if it is known, is the type of them all. -/
def listNode (elements : List Node) (span : Span) : Except Error Node :=
  match elements with
  | [] => .error ⟨noElementType, span.start⟩
  | first :: _ => arrayNode first.ownType? .bare (some elements) span

/-- The elements of an array literal in braces, if a brace follows. -/
def bracedElements (sub : Subparsers) : ParseM (Option (List Node)) := do
  if (← currentKind) = .openCurly then
    let _ ← advance
    return some (← commaList sub .closeCurly true)
  else return none

/-- The rest of an array literal after its element type: its elements in braces, or nothing. -/
def arrayWithElements (sub : Subparsers) (start : Position) (form : ArrayForm) (element : GoType) : ParseM Node := do
  let elements ← bracedElements sub
  check (arrayNode (some element) form elements (← spanSince start))

/-- Whether a number in brackets is the size of an array type: it is a literal with a type behind it. -/
def isSizeOfType (grammar : Grammar) : Node → ParseM Bool
  | .integer _ _ => grammar.startsType
  | _ => pure false

/-- What follows `[size]` and starts with a bracket: the element type, if that is an array, or an index into the list
of the one element `size`.  Only a literal in the second brackets with a type behind it makes it a type. -/
def numberThenBracket (grammar : Grammar) (sub : Subparsers) (start : Position) (size : Nat) (elements : List Node) :
    ParseM Node := do
  let nextKind ← nextKind
  if nextKind = .closeBracket ∨ nextKind = .ellipsis then
    arrayWithElements sub start (.sized size) (← sub.type)
  else
    let listSpan ← spanSince start
    let _ ← advance
    let position ← sub.expression .lowest
    let _ ← take .closeBracket
    if ← isSizeOfType grammar position then arrayWithElements sub start (.sized size) (.array (← sub.type))
    else
      let list ← check (listNode elements listSpan)
      pure (.index list position (← spanSince start))

/-- The size that a list in brackets can be read as: it is a single integer. -/
def writtenSize? : List Node → Option Nat
  | [.integer value _] => some value.toNat
  | _ => none

/-- An array literal in any of its spellings: `[3]int{1, 2, 3}`, `[...]int{1, 2}`, `[]string{"a"}`, `[5]int` and
`[1, 2, 3]`.  A number in brackets is a size if a type follows, and else the one element of a list. -/
def arrayLiteral (grammar : Grammar) (sub : Subparsers) : ParseM Node := do
  let start ← position
  let nextKind ← nextKind
  if nextKind = .closeBracket ∨ nextKind = .ellipsis then
    let form ← sizeBrackets
    if form = .slice ∧ !(← grammar.startsType) then throw ⟨noElementType, start⟩
    else arrayWithElements sub start form (← sub.type)
  else
    let _ ← advance
    let elements ← commaList sub .closeBracket false
    match writtenSize? elements with
    | some size =>
      if (← currentKind) = .openBracket then numberThenBracket grammar sub start size elements
      else if ← grammar.startsType then arrayWithElements sub start (.sized size) (← sub.type)
      else check (listNode elements (← spanSince start))
    | none => check (listNode elements (← spanSince start))

/-! ### What continues an operand -/

/-- A binary operator and its right operand, which binds more tightly than the operator. -/
def binaryOperation (sub : Subparsers) (left : Node) (power : Precedence) : ParseM Node := do
  let operator ← advance
  let right ← sub.expression power
  pure (.binary left operator right ⟨left.span.start, right.span.stop⟩)

/-- The arguments of a call.  Only a name can be called. -/
def callOf (sub : Subparsers) (left : Node) : ParseM Node :=
  match left with
  | .identifier callee span => do
    let _ ← advance
    let arguments ← commaList sub .closeParen false
    pure (.call callee arguments (← spanSince span.start))
  | other => throw ⟨.misplacedToken other.source "only named functions can be called", other.span.start⟩

/-- An index in brackets. -/
def indexInto (sub : Subparsers) (left : Node) : ParseM Node := do
  let _ ← advance
  let position ← sub.expression .lowest
  let _ ← take .closeBracket
  pure (.index left position (← spanSince left.span.start))

/-- What a rule reads after the operand `left`. -/
def continueWith (sub : Subparsers) (rule : Continuation) (left : Node) (power : Precedence) : ParseM Node :=
  match rule with
  | .binary => binaryOperation sub left power
  | .call => callOf sub left
  | .index => indexInto sub left

/-- One more step after an operand, as long as what follows binds more tightly than `power`. -/
def continueRound (grammar : Grammar) (sub : Subparsers) (power : Precedence) (left : Node) :
    ParseM (Round Node Node) := do
  match grammar.continuation (← currentKind) with
  | some (nextPower, rule) =>
    if power < nextPower then return .again (← continueWith sub rule left nextPower)
    else return .done left
  | none => return .done left

end GoScript.Grammar
