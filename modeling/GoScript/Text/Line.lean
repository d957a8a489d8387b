import GoScript.Text.Blank
import GoScript.Text.Bytes

/-!
# Lines

A line ends with its line feed, and the last line of a text may lack one.

* `pieces` — the lines of a text, each with its line feed
* `lines` — the lines of a text without their ends, where `\r\n` is an end too
* `Place`, `locate` — the line of a byte offset, its number and the column of the offset in it
-/

namespace GoScript.Text

/-- The lines of a text, each with its line feed.  Joined they are the text, and none of them is empty. -/
def pieces (text : List Char) : List (List Char) :=
  text.foldr
    (fun c lines =>
      match lines with
      | [] => [[c]]
      | line :: rest => if c = '\n' then [c] :: line :: rest else (c :: line) :: rest)
    []

/-- A line without the line feed that ends it, and without the carriage return before that.  A carriage return that
no line feed follows belongs to the line. -/
def dropLineEnd (line : List Char) : List Char :=
  match line.reverse with
  | '\n' :: '\r' :: rest => rest.reverse
  | '\n' :: rest => rest.reverse
  | _ => line

/-- The lines of a text without their ends. -/
def lines (text : List Char) : List (List Char) :=
  (pieces text).map dropLineEnd

/-- Where a byte offset stands: the number of its line, counted from 1, the text of that line with its end, and the
number of bytes before the offset on it. -/
structure Place where
  line : Nat
  text : List Char
  column : Nat
deriving DecidableEq

/-- Looks for byte `offset` in `lines`, the first of which has number `number` and starts at byte `start`. -/
def findPlace (offset : Nat) : (number start : Nat) → (lines : List (List Char)) → Option Place
  | _, _, [] => none
  | number, start, line :: rest =>
    if offset < start + byteSize line then some ⟨number, line, offset - start⟩
    else findPlace offset (number + 1) (start + byteSize line) rest

/-- The place of the offset at the very end of a text: it belongs to the last line that holds something, whose text
then takes in all the line feeds that follow. -/
def endPlace (offset : Nat) (text : List Char) : Place :=
  let body := dropEndWhile (· == '\n') text
  let last := (body.reverse.takeWhile (· != '\n')).reverse
  let before := body.take (body.length - last.length)
  let feeds := text.drop body.length
  ⟨before.count '\n' + 1, last ++ feeds, offset - byteSize before⟩

/-- The place of a byte offset.  An offset past the end stands for the end. -/
def locate (text : List Char) (offset : Nat) : Place :=
  let offset := min offset (byteSize text)
  (findPlace offset 1 0 (pieces text)).getD (endPlace offset text)

end GoScript.Text
