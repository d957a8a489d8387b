import GoScript.Position
import GoScript.Text.Quoted

/-!
# Tokens

* `TokenKind` — what a token is, with its `name` in messages
* `typeWord?`, `reservedWord?` — the words with a meaning of their own; `TokenKind.ofWord` — the kind of any word
* `Token` — a kind, the text it was read from and where that stood
-/

namespace GoScript

/-- What a token is. -/
inductive TokenKind where
  | endOfInput
  | illegal
  | integer
  | string
  | identifier
  | openBracket
  | closeBracket
  | openCurly
  | closeCurly
  | openParen
  | closeParen
  | assign
  | declare
  | equals
  | not
  | notEquals
  | less
  | lessEquals
  | greater
  | greaterEquals
  | or
  | and
  | ellipsis
  | semicolon
  | colon
  | comma
  | plus
  | dash
  | slash
  | star
  | percent
  | funcWord
  | constWord
  | varWord
  | trueWord
  | falseWord
  | ifWord
  | elseWord
  | returnWord
  | intType
  | stringType
  | boolType
deriving DecidableEq, Inhabited

namespace TokenKind

/-- The name of a kind in messages. -/
def name : TokenKind → String
  | endOfInput => "EOF"
  | illegal => "Illegal"
  | integer => "Integer"
  | string => "String"
  | identifier => "Identifier"
  | openBracket => "OpenBracket"
  | closeBracket => "CloseBracket"
  | openCurly => "OpenCurly"
  | closeCurly => "CloseCurly"
  | openParen => "OpenParen"
  | closeParen => "CloseParen"
  | assign => "Assignment"
  | declare => "Declare"
  | equals => "Equals"
  | not => "Not"
  | notEquals => "NotEquals"
  | less => "Less"
  | lessEquals => "LessEquals"
  | greater => "Greater"
  | greaterEquals => "GreaterEquals"
  | or => "Or"
  | and => "And"
  | ellipsis => "Ellipsis"
  | semicolon => "Semicolon"
  | colon => "Colon"
  | comma => "Comma"
  | plus => "Plus"
  | dash => "Dash"
  | slash => "Slash"
  | star => "Star"
  | percent => "Percent"
  | funcWord => "Func"
  | constWord => "Const"
  | varWord => "Var"
  | trueWord => "True"
  | falseWord => "False"
  | ifWord => "If"
  | elseWord => "Else"
  | returnWord => "Return"
  | intType => "IntType"
  | stringType => "StringType"
  | boolType => "BoolType"

/-- Every kind, in order of definition. -/
def all : List TokenKind :=
  [endOfInput, illegal, integer, string, identifier, openBracket, closeBracket, openCurly, closeCurly, openParen,
    closeParen, assign, declare, equals, not, notEquals, less, lessEquals, greater, greaterEquals, or, and, ellipsis,
    semicolon, colon, comma, plus, dash, slash, star, percent, funcWord, constWord, varWord, trueWord, falseWord,
    ifWord, elseWord, returnWord, intType, stringType, boolType]

/-- The kind of a word that names a type. -/
def typeWord? : String → Option TokenKind
  | "int" => some intType
  | "string" => some stringType
  | "bool" => some boolType
  | _ => none

/-- The kind of a reserved word. -/
def reservedWord? : String → Option TokenKind
  | "func" => some funcWord
  | "const" => some constWord
  | "var" => some varWord
  | "true" => some trueWord
  | "false" => some falseWord
  | "if" => some ifWord
  | "else" => some elseWord
  | "return" => some returnWord
  | _ => none

/-- The kind of a word: a type, a reserved word or else an identifier. -/
def ofWord (word : String) : TokenKind :=
  ((typeWord? word).or (reservedWord? word)).getD identifier

/-- Whether an operator yields a truth value whatever its operands are. -/
def isBoolean : TokenKind → Bool
  | equals | notEquals | less | lessEquals | greater | greaterEquals | and | or | not => true
  | _ => false

end TokenKind

/-- A token: its kind, its text and the stretch of source it was read from.  The text of a string leaves out the
quotes, its span does not. -/
structure Token where
  kind : TokenKind
  value : String
  span : Span
deriving DecidableEq, Inhabited

/-- The token that stands at the end of a text, once everything before it has been read. -/
def Token.endOfInput (finish : Position) : Token :=
  ⟨.endOfInput, "", ⟨finish, finish⟩⟩

/-- How a token is shown to a reader. -/
def Token.describe (token : Token) : String :=
  "Token(" ++ token.kind.name ++ ", " ++ Text.quote token.value ++ ")"

end GoScript
