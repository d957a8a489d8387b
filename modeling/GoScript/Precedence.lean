import GoScript.Token

/-!
# Precedence

* `Precedence` — how tightly something binds, from the loosest to the tightest
* `Precedence.binary?` — how tightly a binary operator binds
-/

namespace GoScript

/-- How tightly something binds, in ascending order. -/
inductive Precedence where
  | lowest
  | logicalOr
  | logicalAnd
  | equality
  | relational
  | additive
  | multiplicative
  | unary
  | call
  | index
  | primary
deriving DecidableEq, Inhabited

namespace Precedence

/-- The place of a precedence in the ascending order. -/
def rank : Precedence → Nat
  | lowest => 0
  | logicalOr => 1
  | logicalAnd => 2
  | equality => 3
  | relational => 4
  | additive => 5
  | multiplicative => 6
  | unary => 7
  | call => 8
  | index => 9
  | primary => 10

/-- The looser of two precedences is the smaller one. -/
instance : LT Precedence :=
  ⟨fun a b => a.rank < b.rank⟩

instance (a b : Precedence) : Decidable (a < b) :=
  inferInstanceAs (Decidable (a.rank < b.rank))

/-- How tightly a binary operator binds; nothing for a token that is none. -/
def binary? : TokenKind → Option Precedence
  | .or => some logicalOr
  | .and => some logicalAnd
  | .equals | .notEquals => some equality
  | .less | .lessEquals | .greater | .greaterEquals => some relational
  | .plus | .dash => some additive
  | .star | .slash | .percent => some multiplicative
  | _ => none

end Precedence

end GoScript
