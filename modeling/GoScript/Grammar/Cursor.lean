import GoScript.Error
import GoScript.Token.Scan

/-!
# The cursor of a parse

A parse reads a list of tokens from the front.  It sees the current token and the one after it; past the last token
there is only the end of the input, over and over.

* `Cursor` — the tokens that have not been read
* `ParseM` — a parse that yields a value or stops with an error; either way the cursor shows how far it came
* `advance`, `take`, `reject`, `dropSemicolons` — the steps that everything else is made of
-/

namespace GoScript

/-- The tokens that have not been read, and the position of the end of the input after them. -/
structure Cursor where
  rest : List Token
  finish : Position

namespace Cursor

/-- The cursor at the start of a source text. -/
def ofSource (source file : String) : Cursor :=
  ⟨scan file source.toList, endPosition file source.toList⟩

/-- The first token that has not been read. -/
def current (cursor : Cursor) : Token :=
  cursor.rest.headD (.endOfInput cursor.finish)

/-- The token after the current one. -/
def next (cursor : Cursor) : Token :=
  cursor.rest.tail.headD (.endOfInput cursor.finish)

/-- The cursor after the current token has been read.  The end of the input stays where it is. -/
def advance (cursor : Cursor) : Cursor :=
  { cursor with rest := cursor.rest.tail }

/-- Where the current token starts. -/
def position (cursor : Cursor) : Position :=
  cursor.current.span.start

/-- The span from a position up to the current token. -/
def spanSince (cursor : Cursor) (start : Position) : Span :=
  ⟨start, cursor.position⟩

/-- Whether anything but the end of the input is left. -/
def hasMore (cursor : Cursor) : Bool :=
  cursor.current.kind != .endOfInput

/-- The cursor after the semicolons that stand in front. -/
def dropSemicolons (cursor : Cursor) : Cursor :=
  { cursor with rest := cursor.rest.dropWhile (·.kind == .semicolon) }

/-- Why the current token does not fit where it stands.  A character that is no token at all says so itself, whatever
was expected. -/
def misfit (cursor : Cursor) (message? : Option String) : Error :=
  let token := cursor.current
  let text := if token.kind = .endOfInput then "end of input" else token.value
  let cause : Cause :=
    if token.kind = .illegal then .unrecognisedToken token.value
    else match message? with
      | some message => .misplacedToken text message
      | none => .unexpectedToken text
  ⟨cause, cursor.position⟩

end Cursor

/-- A parse: it reads from a cursor and yields a value, or stops with an error at the cursor it has reached. -/
abbrev ParseM := EStateM Error Cursor

namespace ParseM

/-- The current token. -/
def current : ParseM Token :=
  return (← get).current

/-- The kind of the current token. -/
def currentKind : ParseM TokenKind :=
  return (← get).current.kind

/-- The kind of the token after the current one. -/
def nextKind : ParseM TokenKind :=
  return (← get).next.kind

/-- Where the current token starts. -/
def position : ParseM Position :=
  return (← get).position

/-- The span from a position up to the current token. -/
def spanSince (start : Position) : ParseM Span :=
  return (← get).spanSince start

/-- Reads the current token. -/
def advance : ParseM Token :=
  modifyGet fun cursor => (cursor.current, cursor.advance)

/-- Stops because the current token does not fit. -/
def reject {α : Type} (message? : Option String) : ParseM α := do
  throw ((← get).misfit message?)

/-- Reads the current token if it is of a kind, and stops with `error` if it is not. -/
def takeOr (kind : TokenKind) (error : Error) : ParseM Token := do
  if (← currentKind) = kind then advance else throw error

/-- Reads the current token if it is of a kind, and stops if it is not. -/
def take (kind : TokenKind) : ParseM Token := do
  if (← currentKind) = kind then advance else reject (some ("expected " ++ kind.name))

/-- Reads the semicolons in front. -/
def dropSemicolons : ParseM Unit :=
  modify Cursor.dropSemicolons

/-- Stops because the rules have gone on for longer than the tokens that are left allow. -/
def endless {α : Type} : ParseM α := do
  throw ⟨.endlessRule, ← position⟩

/-- Yields the value of a check that needs no token, or stops with its error. -/
def check {α : Type} : Except Error α → ParseM α
  | .ok value => pure value
  | .error error => throw error

end ParseM

end GoScript
