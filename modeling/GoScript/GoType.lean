/-!
# Static types

* `GoType` — the types that a program of the subset can have
* `GoType.name`, `GoType.target` — how a type is spelled in the source and in the emitted text
-/

namespace GoScript

/-- The types of the subset.  `void` is the type of what yields no value. -/
inductive GoType where
  | int
  | string
  | bool
  | array (element : GoType)
  | void
deriving DecidableEq, Inhabited

namespace GoType

/-- The spelling of a type in the source and in messages. -/
def name : GoType → String
  | int => "int"
  | string => "string"
  | bool => "bool"
  | array element => "[]" ++ element.name
  | void => "none"

/-- The spelling of a type in the emitted text. -/
def target : GoType → String
  | int => "number"
  | string => "string"
  | bool => "boolean"
  | array element => element.target ++ "[]"
  | void => "void"

/-- Whether a type is an array. -/
def isArray : GoType → Bool
  | array _ => true
  | _ => false

/-- The type of the elements of an array. -/
def element? : GoType → Option GoType
  | array element => some element
  | _ => none

end GoType

end GoScript
