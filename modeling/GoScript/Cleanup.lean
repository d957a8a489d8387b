import GoScript.Text.Line

/-!
# Cleanup before reading

The grammar knows no package clauses, imports or comments.  They are blanked out line by line beforehand, so that
whatever is left keeps its line and its column.

* `afterKeyword?` — what follows a keyword at the start of a line
* `cutComment` — a line up to its comment
* `cleanLine` — what is kept of one line, inside or outside an import block
* `cleanup` — the whole text
-/

namespace GoScript.Cleanup

open Text

/-- What follows `keyword` on a line that starts with it as a whole word, without the blanks in between. -/
def afterKeyword? (keyword line : List Char) : Option (List Char) :=
  if keyword.isPrefixOf line then
    match line.drop keyword.length with
    | [] => some []
    | c :: rest => if isBlank c || c == '(' || c == '"' then some (trimStart (c :: rest)) else none
  else none

/-- A line up to the first pair of slashes outside double quotes.  `quoted` says whether the line so far has left a
quote open. -/
def cutCommentFrom (quoted : Bool) : List Char → List Char
  | [] => []
  | c :: rest =>
    if c = '"' then c :: cutCommentFrom (!quoted) rest
    else if c = '/' && !quoted && rest.head? == some '/' then []
    else c :: cutCommentFrom quoted rest

/-- A line up to the first pair of slashes outside double quotes. -/
def cutComment (line : List Char) : List Char :=
  cutCommentFrom false line

/-- What is kept of a line, and whether the next line is inside an import block, given whether this one is. -/
def cleanLine (inImports : Bool) (line : List Char) : List Char × Bool :=
  let trimmed := trim line
  if inImports then ([], trimmed.head? != some ')')
  else if (afterKeyword? "package".toList trimmed).isSome then ([], false)
  else match afterKeyword? "import".toList trimmed with
    | some rest => ([], rest.head? == some '(' && !rest.contains ')')
    | none => (trimEnd (cutComment line), false)

/-- What is kept of each of some lines. -/
def cleanLines : (inImports : Bool) → List (List Char) → List (List Char)
  | _, [] => []
  | inImports, line :: rest =>
    let (kept, inImports) := cleanLine inImports line
    kept :: cleanLines inImports rest

/-- A source text without package clauses, imports and comments.  Each line of it, kept or blanked out, ends in a line
feed. -/
def cleanup (source : String) : String :=
  String.ofList ((cleanLines false (lines source.toList)).flatMap (· ++ ['\n']))

end GoScript.Cleanup
