import GoScript.Text.Unprintable

/-!
# Quoted text

Messages quote text between double quotes, so that every character of it can be seen.  A quote and a backslash get
a backslash; tab, line feed, carriage return and the null character have their usual letters; every other
character that would not show is written as its code point in hexadecimal.

* `quoteChar` — what one character is written as
* `quote` — the quoted form of a whole text
-/

namespace GoScript.Text

/-- The form `\u{…}` of a character: its code point in lower case hexadecimal without padding. -/
def codePointEscape (c : Char) : List Char :=
  "\\u\x7b".toList ++ Nat.toDigits 16 c.toNat ++ ['\x7d']

/-- What stands for a character inside a quoted text. -/
def quoteChar (c : Char) : List Char :=
  if c = '\x00' then ['\\', '0']
  else if c = '\t' then ['\\', 't']
  else if c = '\r' then ['\\', 'r']
  else if c = '\n' then ['\\', 'n']
  else if c = '\\' then ['\\', '\\']
  else if c = '"' then ['\\', '"']
  else if isUnprintable c then codePointEscape c
  else [c]

/-- A text between double quotes, each of its characters made visible. -/
def quote (text : String) : String :=
  "\"" ++ String.ofList (text.toList.flatMap quoteChar) ++ "\""

end GoScript.Text
