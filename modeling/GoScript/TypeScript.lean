import GoScript.Cleanup
import GoScript.Emit.Statement
import GoScript.Grammar.Parse

/-!
# From Go to TypeScript

* `typeScriptIn` — the TypeScript text of a Go source in a file, or the first error on the way
* `typeScriptOf` — the same for a source that is in no file
-/

namespace GoScript

/-- The TypeScript text of a Go source text in a file: it is cleaned up, parsed and emitted. -/
def typeScriptIn (file source : String) (options : Options) : Except Error String := do
  let program ← parse (Cleanup.cleanup source) file
  match emitInto program .empty options with
  | (.ok _, sink) => return sink.text
  | (.error error, _) => throw error

/-- The TypeScript text of a Go source text. -/
def typeScriptOf (source : String) (options : Options) : Except Error String :=
  typeScriptIn defaultFile source options

end GoScript
