import GoScript.Text.Blank
import GoScript.Token

/-!
# Patterns

The table of patterns that a token can match.  At each place of a text the first pattern of the table that matches
there decides what is read; a longer spelling stands before every shorter one that it starts with.

* `Pattern` — a class of texts; `Pattern.matchLength?` — how many characters it takes at the start of a text
* `Pattern.table` — the patterns in the order in which they are tried
* `Lexeme`, `Lexeme.atStart` — the stretch of text that is read next
-/

namespace GoScript

/-- A class of texts. -/
inductive Pattern where
  /-- Names of letters, digits and underscores that start with no digit, several of them joined by dots. -/
  | word
  /-- Runs of decimal digits. -/
  | integer
  /-- Runs of blanks. -/
  | blank
  /-- Anything between two double quotes, line feeds included. -/
  | string
  /-- Two slashes and the rest of the line. -/
  | comment
  /-- The text of a sign, and the spelling of its token. -/
  | fixed (kind : TokenKind) (sign spelling : String)
deriving DecidableEq

namespace Pattern

/-- Whether a character can start a name. -/
def isWordStart (c : Char) : Bool :=
  c.isAlpha || c == '_'

/-- Whether a character can continue a name. -/
def isWordPart (c : Char) : Bool :=
  c.isAlphanum || c == '_'

/-- The number of characters that continue a name.  A dot does if the start of a name follows it. -/
def wordTail : List Char → Nat
  | [] => 0
  | [c] => if isWordPart c then 1 else 0
  | c :: d :: rest =>
    if isWordPart c then wordTail (d :: rest) + 1
    else if c = '.' && isWordStart d then wordTail rest + 2
    else 0

/-- The number of characters that satisfy `p` at the start of a text, if there is any. -/
def runLength? (p : Char → Bool) (text : List Char) : Option Nat :=
  match (text.takeWhile p).length with
  | 0 => none
  | count => some count

/-- How many characters a pattern takes at the start of a text, if it matches there. -/
def matchLength? : Pattern → List Char → Option Nat
  | word, c :: rest => if isWordStart c then some (wordTail rest + 1) else none
  | integer, text => runLength? Char.isDigit text
  | blank, text => runLength? Text.isBlank text
  | string, '"' :: rest =>
    if rest.contains '"' then some ((rest.takeWhile (· != '"')).length + 2) else none
  | comment, '/' :: '/' :: rest => some ((rest.takeWhile (· != '\n')).length + 2)
  | fixed _ sign spelling, text =>
    if sign.toList.isPrefixOf text then some spelling.toList.length else none
  | _, _ => none

/-- The patterns in the order in which they are tried. -/
def table : List Pattern :=
  [word, integer, blank, string, comment,
    fixed .ellipsis "..." "...", fixed .openBracket "[" "[", fixed .closeBracket "]" "]",
    fixed .openCurly "\x7b" "\x7b", fixed .closeCurly "\x7d" "\x7d", fixed .openParen "(" "(",
    fixed .closeParen ")" ")", fixed .declare ":=" ":=", fixed .equals "==" "==", fixed .notEquals "!=" "!=",
    fixed .not "!" "!", fixed .assign "=" "=", fixed .lessEquals "<=" "<=", fixed .less "<" "<",
    fixed .greaterEquals ">=" ">=", fixed .greater ">" ">", fixed .or "||" "||", fixed .and "&&" "&&",
    fixed .semicolon ";" ";", fixed .colon ":" ":", fixed .comma "," ",", fixed .plus "+" "+", fixed .dash "-" "-",
    fixed .slash "/" "/", fixed .star "*" "*", fixed .percent "%" "%"]

/-- Whether the token of a sign is spelled as the sign is. -/
def isFaithful : Pattern → Bool
  | fixed _ sign spelling => sign == spelling
  | _ => true

/-- All signs of the table are spelled as they are. -/
theorem sign_eq_spelling {kind : TokenKind} {sign spelling : String} (h : fixed kind sign spelling ∈ table) :
    sign = spelling := by
  have htable : ∀ pattern ∈ table, pattern.isFaithful = true := by decide
  exact beq_iff_eq.mp (htable _ h)

/-- The first pattern of the table that matches at the start of a text, and how many characters it takes. -/
def first? (text : List Char) : Option (Pattern × Nat) :=
  table.findSome? fun pattern => (pattern.matchLength? text).map (pattern, ·)

end Pattern

/-- A stretch of text that is read in one go, and the pattern it matches; none does for an illegal character. -/
structure Lexeme where
  pattern : Option Pattern
  text : List Char
deriving DecidableEq

namespace Lexeme

/-- The lexeme at the start of a text whose first character is `c`. -/
def atStart (c : Char) (rest : List Char) : Lexeme :=
  match Pattern.first? (c :: rest) with
  | some (pattern, count) => ⟨some pattern, (c :: rest).take count⟩
  | none => ⟨none, [c]⟩

/-- The kind and the value of the token that a lexeme stands for.  Blanks and comments stand for none. -/
def token? (lexeme : Lexeme) : Option (TokenKind × String) :=
  let text := String.ofList lexeme.text
  match lexeme.pattern with
  | some .blank | some .comment => none
  | some .word => some (.ofWord text, text)
  | some .integer => some (.integer, text)
  | some .string => some (.string, String.ofList (lexeme.text.tail.dropLast))
  | some (.fixed kind _ spelling) => some (kind, spelling)
  | none => some (.illegal, text)

end Lexeme

end GoScript
