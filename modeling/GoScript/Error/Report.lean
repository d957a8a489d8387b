import GoScript.Error
import GoScript.Text.Line

/-!
# Reports

An error is reported with the line of the source it points at and a caret under the place:

    Error: UnknownType (Unknown type `float` found)
       unknown type "float" found
    -> main.go
       |
    20 | var a float = 1
       | ------^

A failure of the outside world has nothing to point at and is reported in one line.

* `Error.report` — the report of an error against a source text
-/

namespace GoScript

/-- A text at the right end of `width` characters, the rest of them being `fill`.  A longer text stays as it is.  Every
width is taken as it is, also one that 16 bits do not hold: no line is too long to be pointed at. -/
def padLeft (fill : Char) (width : Nat) (text : String) : String :=
  String.ofList (List.replicate (width - text.length) fill) ++ text

/-- The report of an error in `source`, a text called `file`. -/
def Error.report (error : Error) (source file : String) : String :=
  if error.cause.category = .resource then "Error: " ++ error.cause.message ++ "\n"
  else
    let place := Text.locate source.toList error.position.offset.toNat
    let number := toString place.line
    let bar := padLeft ' ' (number.length + 2) "|"
    let margin := place.text.takeWhile fun c => c == ' ' || c == '\t'
    let text := place.text.drop margin.length
    let heading := match error.cause.tip? with
      | some tip => error.cause.name ++ " (" ++ tip ++ ")"
      | none => error.cause.name
    "Error: " ++ heading ++ "\n" ++
      "   " ++ error.cause.message ++ "\n" ++
      "-> " ++ file ++ "\n" ++
      bar ++ "\n" ++
      number ++ " | " ++ String.ofList (Text.trimEnd text) ++ "\n" ++
      bar ++ " " ++ padLeft '-' (place.column - margin.length + 1) "^" ++ "\n"

end GoScript
