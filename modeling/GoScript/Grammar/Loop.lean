import GoScript.Grammar.Cursor

/-!
# Repetition

A rule that repeats reads at least one token in every round, so the number of tokens that are left bounds the number
of rounds.  Rules that break this are stopped by `ParseM.endless`.

* `loop` — rounds that pass a value on until one of them is done
* `gather` — rounds that add one item each to a list
-/

namespace GoScript.ParseM

/-- What a round of a loop decides: to go on from a new value, or to end with a result. -/
inductive Round (σ α : Type) where
  | again (value : σ)
  | done (result : α)

/-- At most `bound` rounds, from `value` on. -/
def loopFor {σ α : Type} (round : σ → ParseM (Round σ α)) : (bound : Nat) → (value : σ) → ParseM α
  | 0, _ => endless
  | bound + 1, value => do
    match ← round value with
    | .again value => loopFor round bound value
    | .done result => pure result

/-- Rounds until one is done, from `value` on. -/
def loop {σ α : Type} (round : σ → ParseM (Round σ α)) (value : σ) : ParseM α := do
  loopFor round ((← get).rest.length + 1) value

/-- What a round of a list yields: nothing, so that the list ends, its last item, or an item that others may
follow. -/
inductive Item (α : Type) where
  | stop
  | last (value : α)
  | more (value : α)

/-- The items of at most `bound` rounds. -/
def gatherFor {α : Type} (item : ParseM (Item α)) : (bound : Nat) → ParseM (List α)
  | 0 => endless
  | bound + 1 => do
    match ← item with
    | .stop => pure []
    | .last value => pure [value]
    | .more value => return value :: (← gatherFor item bound)

/-- The items of all rounds up to the end of the list. -/
def gather {α : Type} (item : ParseM (Item α)) : ParseM (List α) := do
  gatherFor item ((← get).rest.length + 1)

end GoScript.ParseM
