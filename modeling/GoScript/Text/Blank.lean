/-!
# Blank characters

The characters with the Unicode property `White_Space`, and the operations that cut runs of them off a text.

* `isBlank` — membership in the property
* `trimStart`, `trimEnd`, `trim` — the text without the blanks at its start, at its end, at both
-/

namespace GoScript.Text

/-- The ranges of code points that have the property `White_Space`. -/
def blankRanges : List (Nat × Nat) :=
  [(0x09, 0x0d), (0x20, 0x20), (0x85, 0x85), (0xa0, 0xa0), (0x1680, 0x1680), (0x2000, 0x200a),
    (0x2028, 0x2029), (0x202f, 0x202f), (0x205f, 0x205f), (0x3000, 0x3000)]

/-- Whether a character is blank. -/
def isBlank (c : Char) : Bool :=
  blankRanges.any fun range => range.1 ≤ c.toNat && c.toNat ≤ range.2

/-- The list without its longest tail of elements that satisfy `p`. -/
def dropEndWhile {α : Type} (p : α → Bool) (list : List α) : List α :=
  (list.reverse.dropWhile p).reverse

/-- The text without the blanks at its start. -/
def trimStart (text : List Char) : List Char :=
  text.dropWhile isBlank

/-- The text without the blanks at its end. -/
def trimEnd (text : List Char) : List Char :=
  dropEndWhile isBlank text

/-- The text without the blanks at either end. -/
def trim (text : List Char) : List Char :=
  trimEnd (trimStart text)

end GoScript.Text
