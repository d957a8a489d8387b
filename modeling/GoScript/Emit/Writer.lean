import GoScript.Emit.Sink
import GoScript.Error

/-!
# Writers

An emission writes one text after the other.  Where they go is left open: to a sink, or to anything else that takes
texts.

* `Writer` — what can be written to
* `Transcript` — a writer that takes down the texts
-/

namespace GoScript

/-- What can be written to.  Writing changes it and may fail. -/
class Writer (ω : Type) where
  /-- Writes a text. -/
  write : (text : String) → EStateM Error ω Unit
  /-- Passes on what is held back. -/
  flush : EStateM Error ω Unit

/-- A sink takes as much of a text as fits. -/
instance : Writer Sink where
  write text := fun sink =>
    if sink.accepts text then .ok () (sink.write text) else .error (.io "sink full") (sink.write text)
  flush := fun sink => if sink.refusesFlush then .error (.io "flush refused") sink else .ok () sink

/-- The texts that were written, one after the other. -/
structure Transcript where
  texts : Array String

/-- Whatever is written is taken down. -/
instance : Writer Transcript where
  write text := fun transcript => .ok () ⟨transcript.texts.push text⟩
  flush := pure ()

end GoScript
