/-!
# Numerals

* `Numeral.value` — the number that a run of decimal digits stands for
* `Numeral.below?` — the same, up to a limit
* `Numeral.integerLimit`, `Numeral.sizeLimit` — the limits of integer literals and of sizes
-/

namespace GoScript.Numeral

/-- The number that a run of decimal digits stands for. -/
def value (digits : String) : Nat :=
  digits.toList.foldl (fun value digit => 10 * value + (digit.toNat - '0'.toNat)) 0

/-- The number that a run of decimal digits stands for, if it is below `limit`. -/
def below? (limit : Nat) (digits : String) : Option Nat :=
  if value digits < limit then some (value digits) else none

/-- Integer literals are signed words of 64 bits. -/
def integerLimit : Nat := 0x8000000000000000

/-- Sizes are words of 64 bits. -/
def sizeLimit : Nat := 0x10000000000000000

end GoScript.Numeral
