import GoScript.Position
import GoScript.Text.Quoted

/-!
# Errors

An error is a cause and the position it is reported at.

* `Cause` — what can go wrong, from an unknown character to a sink that takes no more text
* `Cause.category`, `Cause.name`, `Cause.message`, `Cause.tip?` — how a cause is filed, called and explained
* `Error` — a cause at a position
-/

namespace GoScript

/-- What went wrong. -/
inductive Cause where
  /-- A character that starts no token. -/
  | unrecognisedToken (token : String)
  /-- A token that does not fit where it stands. -/
  | unexpectedToken (token : String)
  /-- A token that does not fit where it stands, and why. -/
  | misplacedToken (token message : String)
  /-- A number beyond the limit of its kind. -/
  | numberTooLarge (token : String)
  /-- A name where a type belongs. -/
  | unknownType (type : String)
  /-- A declaration with neither a value nor a type. -/
  | emptyDeclaration (name : String)
  /-- A parameter that no type follows. -/
  | untypedParameter (parameter : String)
  /-- An array literal without an element type or with too many elements. -/
  | badArrayLiteral (message : String)
  /-- A name that is not bound in scope. -/
  | undeclared (name : String)
  /-- A node that cannot be emitted in its place. -/
  | unsupportedNode (node : String)
  /-- A constant whose value or type a constant cannot have. -/
  | constantMisuse (constant message : String)
  /-- An index into something that is no array. -/
  | notIndexable (type : String)
  /-- An assignment to a constant. -/
  | assignToConstant (constant : String)
  /-- An element whose type is not that of its array. -/
  | typeMismatch (expected received : String)
  /-- A failure of the outside world. -/
  | io (message : String)
  /-- Grammar rules that call each other without ever reading a token. -/
  | endlessRule
deriving DecidableEq, Inhabited

/-- The four families of causes. -/
inductive Category where
  | lexical
  | syntactic
  | semantic
  | resource
deriving DecidableEq, Inhabited

namespace Cause

/-- The family of a cause. -/
def category : Cause → Category
  | unrecognisedToken _ => .lexical
  | unexpectedToken _ | misplacedToken _ _ | numberTooLarge _ | unknownType _ | emptyDeclaration _
  | untypedParameter _ | badArrayLiteral _ | endlessRule => .syntactic
  | undeclared _ | unsupportedNode _ | constantMisuse _ _ | notIndexable _ | assignToConstant _
  | typeMismatch _ _ => .semantic
  | io _ => .resource

/-- The name of a cause in reports. -/
def name : Cause → String
  | unrecognisedToken _ => "UnrecognisedToken"
  | unexpectedToken _ => "UnexpectedToken"
  | misplacedToken _ _ => "UnexpectedTokenDetailed"
  | numberTooLarge _ => "NumberParseError"
  | unknownType _ => "UnknownType"
  | emptyDeclaration _ => "ExpectedExplicitValue"
  | untypedParameter _ => "MissingParameterType"
  | badArrayLiteral _ => "ArrayLiteralError"
  | undeclared _ => "VariableNotDeclared"
  | unsupportedNode _ => "UnsupportedNode"
  | constantMisuse _ _ => "ConstantMisuse"
  | notIndexable _ => "NotIndexable"
  | assignToConstant _ => "AssignToConstant"
  | typeMismatch _ _ => "TypeMatchError"
  | io _ => "Io"
  | endlessRule => "EndlessRule"

/-- What a cause says, on one line. -/
def message : Cause → String
  | unrecognisedToken token => "unrecognised token: " ++ Text.quote token
  | unexpectedToken token => "unexpected token: " ++ Text.quote token
  | misplacedToken token message => "unexpected token (" ++ message ++ "): " ++ Text.quote token
  | numberTooLarge token => "error parsing number: " ++ Text.quote token
  | unknownType type => "unknown type " ++ Text.quote type ++ " found"
  | emptyDeclaration name =>
    "declaration of " ++ Text.quote name ++ " has neither a value nor a type"
  | untypedParameter parameter => "parameter " ++ Text.quote parameter ++ " has no type"
  | badArrayLiteral message => "invalid array literal: " ++ message
  | undeclared name => Text.quote name ++ " is not declared"
  | unsupportedNode node => "no emitter for " ++ node
  | constantMisuse constant message => "constant " ++ Text.quote constant ++ " " ++ message
  | notIndexable type => "cannot index a value of type " ++ type
  | assignToConstant constant => "cannot assign to constant " ++ Text.quote constant
  | typeMismatch expected received =>
    "types do not match: expected " ++ expected ++ ", received " ++ received
  | io message => "i/o error: " ++ message
  | endlessRule => "the grammar rules call each other without end"

/-- A hint on what to look for, where there is one. -/
def tip? : Cause → Option String
  | unrecognisedToken token => some ("Character `" ++ token ++ "` is not part of the language")
  | unexpectedToken token => some ("Unexpected token: `" ++ token ++ "`")
  | misplacedToken token message => some ("Unexpected token: `" ++ token ++ "`, " ++ message)
  | numberTooLarge token => some ("Invalid number: `" ++ token ++ "`, is it above the integer limit?")
  | unknownType type => some ("Unknown type `" ++ type ++ "` found")
  | emptyDeclaration name => some ("`" ++ name ++ "` needs an initial value or an explicit type")
  | untypedParameter parameter => some ("Parameter `" ++ parameter ++ "` is never given a type")
  | badArrayLiteral message => some message
  | undeclared name => some ("`" ++ name ++ "` is not declared in this scope")
  | unsupportedNode node => some (node ++ " cannot be emitted here")
  | constantMisuse constant message => some ("Constant `" ++ constant ++ "` " ++ message)
  | notIndexable type => some ("Values of type `" ++ type ++ "` cannot be indexed")
  | assignToConstant constant => some ("`" ++ constant ++ "` is a constant and cannot be reassigned")
  | typeMismatch expected received =>
    some ("Expected type `" ++ expected ++ "`, received `" ++ received ++ "`")
  | io _ => none
  | endlessRule => none

end Cause

/-- A cause and the position it is reported at. -/
structure Error where
  cause : Cause
  position : Position
deriving DecidableEq, Inhabited

/-- A failure of the outside world, which has no place in the source. -/
def Error.io (message : String) : Error :=
  ⟨.io message, .nowhere⟩

end GoScript
