import GoScript.Text.Bytes
import GoScript.Token.Pattern

/-!
# Scanning

A text is the concatenation of its lexemes, and its tokens are those of its lexemes that stand for one.

* `lexemes` — the lexemes of a text
* `scan` — the tokens of a text with their spans; `tokensOf` — the same with the end of the input
* `Scanner` — a scan that can be stopped, moved and asked for one token at a time
-/

namespace GoScript

/-- The name of a source text that was given none. -/
def defaultFile : String := "shell"

/-- The lexemes of a text, the first `skip` characters of which belong to a lexeme that was read already. -/
def lexemesFrom : (skip : Nat) → List Char → List Lexeme
  | _, [] => []
  | skip + 1, _ :: rest => lexemesFrom skip rest
  | 0, c :: rest =>
    let lexeme := Lexeme.atStart c rest
    lexeme :: lexemesFrom (lexeme.text.length - 1) rest

/-- The lexemes of a text. -/
def lexemes (text : List Char) : List Lexeme :=
  lexemesFrom 0 text

/-- The tokens of some lexemes, the first of which starts at byte `offset` of `file`. -/
def placeTokens (file : String) : (offset : Nat) → List Lexeme → List Token
  | _, [] => []
  | offset, lexeme :: rest =>
    let size := Text.byteSize lexeme.text
    let later := placeTokens file (offset + size) rest
    match lexeme.token? with
    | some (kind, value) => ⟨kind, value, Span.ofBytes file offset size⟩ :: later
    | none => later

/-- The tokens of a text. -/
def scan (file : String) (text : List Char) : List Token :=
  placeTokens file 0 (lexemes text)

/-- The position right after a text. -/
def endPosition (file : String) (text : List Char) : Position :=
  ⟨UInt32.ofNat (Text.byteSize text), file⟩

/-- The tokens of a source text, closed by the end of the input. -/
def tokensOf (source : String) (file : String) : List Token :=
  scan file source.toList ++ [.endOfInput (endPosition file source.toList)]

/-- A scan of `text` that stands at byte `offset`.  `finished` says whether the end of the input was reached by
`Scanner.next?`. -/
structure Scanner where
  text : List Char
  file : String
  offset : Nat
  finished : Bool

namespace Scanner

/-- The scan of a source text, at its start. -/
def ofSource (source : String) (file : String) : Scanner :=
  ⟨source.toList, file, 0, false⟩

/-- Whether the scan stands at the end of the text or past it. -/
def atEnd (scanner : Scanner) : Bool :=
  Text.byteSize scanner.text ≤ scanner.offset

/-- The scan, `count` bytes further on. -/
def skip (scanner : Scanner) (count : Nat) : Scanner :=
  { scanner with offset := scanner.offset + count }

/-- The span of the next `count` bytes. -/
def spanOf (scanner : Scanner) (count : Nat) : Span :=
  Span.ofBytes scanner.file scanner.offset count

/-- The text that has not been read; nothing if the scan stands inside a character or past the end. -/
def remainder? (scanner : Scanner) : Option (List Char) :=
  Text.dropBytes? scanner.text scanner.offset

/-- The end of the input, seen from where the scan stands. -/
def endToken (scanner : Scanner) : Token :=
  ⟨.endOfInput, "", scanner.spanOf 0⟩

/-- The first token among some lexemes and the scan after it, or the end of the input after all of them. -/
def takeToken (scanner : Scanner) : List Lexeme → Token × Scanner
  | [] => (scanner.endToken, scanner)
  | lexeme :: rest =>
    let size := Text.byteSize lexeme.text
    match lexeme.token? with
    | some (kind, value) => (⟨kind, value, scanner.spanOf size⟩, scanner.skip size)
    | none => takeToken (scanner.skip size) rest

/-- Reads one token.  At the end and past it that is the end of the input; inside a character it is nothing. -/
def token? (scanner : Scanner) : Option (Token × Scanner) :=
  if scanner.atEnd then some (scanner.endToken, scanner)
  else scanner.remainder?.map fun rest => scanner.takeToken (lexemes rest)

/-- Reads one token unless the end of the input was read before, in which case the inner answer is nothing. -/
def next? (scanner : Scanner) : Option (Option Token × Scanner) :=
  if scanner.finished then some (none, scanner)
  else scanner.token?.map fun (token, scanner) =>
    (some token, { scanner with finished := scanner.finished || token.kind == .endOfInput })

end Scanner

end GoScript
