import GoScript.Grammar.Rule
import GoScript.Numeral

/-!
# Types

A type is `int`, `string`, `bool`, or a size in brackets followed by the type of the elements.

* `sizeBrackets` — the size in brackets in front of an element type
* `typeAt` — the type at the current token, by the table of types
-/

namespace GoScript.Grammar

open ParseM

/-- One of the types that are a single word. -/
def primitiveType : ParseM GoType := do
  let token ← advance
  match token.kind with
  | .intType => pure .int
  | .stringType => pure .string
  | .boolType => pure .bool
  | _ => throw ⟨.unknownType token.value, token.span.start⟩

/-- The size between the brackets in front of an element type: a number, `...` or nothing. -/
def bracketSize : ParseM ArrayForm := do
  match ← currentKind with
  | .closeBracket => pure .slice
  | .ellipsis =>
    let _ ← advance
    pure .counted
  | .integer =>
    let token ← advance
    match Numeral.below? Numeral.sizeLimit token.value with
    | some size => pure (.sized size)
    | none => throw ⟨.numberTooLarge token.value, token.span.start⟩
  | _ => reject (some "expected an array size")

/-- The size in front of an element type: `[N]`, `[...]` or `[]`. -/
def sizeBrackets : ParseM ArrayForm := do
  let _ ← take .openBracket
  let form ← bracketSize
  let _ ← take .closeBracket
  pure form

/-- A size in brackets and the type of the elements. -/
def arrayType (sub : Subparsers) : ParseM GoType := do
  let _ ← sizeBrackets
  return .array (← sub.type)

/-- The type at the current token.  A name there is an unknown type, anything else is no type at all. -/
def typeAt (grammar : Grammar) (sub : Subparsers) : ParseM GoType := do
  let token ← current
  match grammar.type token.kind with
  | some .any => sub.type
  | some .primitive => primitiveType
  | some .array => arrayType sub
  | none =>
    if token.kind = .identifier then throw ⟨.unknownType token.value, token.span.start⟩
    else reject (some "expected a type")

/-- What a rule for types reads. -/
def typeRule (sub : Subparsers) : TypeRule → ParseM GoType
  | .any => sub.type
  | .primitive => primitiveType
  | .array => arrayType sub

end GoScript.Grammar
