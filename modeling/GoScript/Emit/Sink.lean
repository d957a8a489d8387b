/-!
# Sinks

What is emitted goes to a sink, which may hold only so many bytes.

* `Sink` — the bytes written so far and what the sink will refuse
* `Sink.accepts`, `Sink.write` — whether a text fits, and the sink after as much of it as fits has been written
* `Sink.text` — what was written, as a text
-/

namespace GoScript

/-- A place to write to: the bytes in it, the number of bytes it can hold if that is limited, and whether it refuses
to be flushed. -/
structure Sink where
  contents : ByteArray
  limit : Option Nat
  refusesFlush : Bool

namespace Sink

/-- A sink without limits that holds nothing. -/
def empty : Sink :=
  ⟨ByteArray.empty, none, false⟩

/-- The number of bytes of `size` more that fit into a sink. -/
def room (sink : Sink) (size : Nat) : Nat :=
  match sink.limit with
  | none => size
  | some limit => min size (limit - sink.contents.size)

/-- Whether the whole of a text fits into a sink. -/
def accepts (sink : Sink) (text : String) : Bool :=
  sink.room text.utf8ByteSize == text.utf8ByteSize

/-- The sink after as many bytes of a text as fit have been written to it.  The last character may be cut off. -/
def write (sink : Sink) (text : String) : Sink :=
  { sink with contents := sink.contents ++ text.toUTF8.extract 0 (sink.room text.utf8ByteSize) }

end Sink

/-- The text that some bytes stand for, without the last `cut` of them.  If any are cut, a replacement character
stands for them. -/
def textWithout? (bytes : ByteArray) (cut : Nat) : Option String :=
  (String.fromUTF8? (bytes.extract 0 (bytes.size - cut))).map fun text =>
    if cut = 0 then text else text ++ "�"

/-- The text that some bytes stand for, if only the last character of it may be incomplete.  A replacement character
stands for an incomplete one. -/
def textOf (bytes : ByteArray) : String :=
  ([0, 1, 2, 3].findSome? (textWithout? bytes)).getD ""

/-- What was written to a sink, as a text. -/
def Sink.text (sink : Sink) : String :=
  textOf sink.contents

end GoScript
