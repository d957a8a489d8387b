/-!
# Positions and spans

Everything that is read from a source text remembers where it stood there.

* `Position` — a byte offset together with the name of the text it points into
* `Span` — a start and an end, both of them positions
-/

namespace GoScript

/-- A byte offset into the text called `file`.  Offsets are 32-bit words, so a longer text wraps around. -/
structure Position where
  offset : UInt32
  file : String
deriving DecidableEq, Inhabited

/-- Where an error stands that belongs to no text at all. -/
def Position.nowhere : Position :=
  ⟨0, "<null>"⟩

/-- A stretch of text, from `start` up to but not including `stop`. -/
structure Span where
  start : Position
  stop : Position
deriving DecidableEq, Inhabited

/-- The span of `size` bytes that starts at byte `offset` of the text called `file`. -/
def Span.ofBytes (file : String) (offset size : Nat) : Span :=
  ⟨⟨UInt32.ofNat offset, file⟩, ⟨UInt32.ofNat (offset + size), file⟩⟩

end GoScript
