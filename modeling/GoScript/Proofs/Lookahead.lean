import GoScript.Proofs.Views

/-!
# More tokens behind a parse

A parse that stops in front of the end of the input has not seen the end, so that it does the same with more tokens
there.  If it comes to the end, it depends on what it does with the token that it finds instead.

* `Cursor.followedBy` — the tokens at one cursor with those at another behind them
* `View.followedBy` — a parse that sees more tokens where the input ends
* `Tracks.followed` — where a parse succeeds, it does the same with more tokens behind
-/

namespace GoScript

/-! ### More tokens behind a cursor -/

namespace Cursor

variable {cursor more : Cursor}

/-- The tokens at a cursor with those at `more` behind them. -/
def followedBy (cursor more : Cursor) : Cursor :=
  ⟨cursor.rest ++ more.rest, more.finish⟩

/-- The tokens at `more` start with a semicolon, in the place of an end of the input at `finish`. -/
structure StopsAt (more : Cursor) (finish : Position) : Prop where
  kind : more.current.kind = .semicolon
  position : more.position = finish

theorem followedBy_of_nil (h : cursor.rest = []) : cursor.followedBy more = more := by
  simp [followedBy, h]

theorem length_le_followedBy : cursor.rest.length ≤ (cursor.followedBy more).rest.length := by
  simp [followedBy]

theorem current_followedBy (h : cursor.rest ≠ []) : (cursor.followedBy more).current = cursor.current := by
  obtain ⟨token, rest, hrest⟩ := List.exists_cons_of_ne_nil h
  simp [followedBy, current, hrest]

theorem advance_followedBy (h : cursor.rest ≠ []) :
    (cursor.followedBy more).advance = cursor.advance.followedBy more := by
  obtain ⟨token, rest, hrest⟩ := List.exists_cons_of_ne_nil h
  simp [followedBy, advance, hrest]

/-- Tokens where the input would end do not change where the current token starts. -/
theorem position_followedBy (h : more.position = cursor.finish) :
    (cursor.followedBy more).position = cursor.position := by
  by_cases hrest : cursor.rest = []
  · rw [followedBy_of_nil hrest, h, Cursor.position, current_of_nil hrest]
    rfl
  · rw [Cursor.position, current_followedBy hrest, Cursor.position]

theorem spanSince_followedBy (h : more.position = cursor.finish) (start : Position) :
    (cursor.followedBy more).spanSince start = cursor.spanSince start := by
  rw [Cursor.spanSince, position_followedBy h, Cursor.spanSince]

theorem dropSemicolons_followedBy (h : cursor.dropSemicolons.rest ≠ []) :
    (cursor.followedBy more).dropSemicolons = cursor.dropSemicolons.followedBy more := by
  have hne : (cursor.rest.dropWhile (·.kind == .semicolon)).isEmpty = false := by
    simpa [dropSemicolons] using h
  simp [followedBy, dropSemicolons, List.dropWhile_append, hne]

theorem dropSemicolons_followedBy_of_nil (h : cursor.dropSemicolons.rest = []) :
    (cursor.followedBy more).dropSemicolons = more.dropSemicolons := by
  have hempty : (cursor.rest.dropWhile (·.kind == .semicolon)).isEmpty = true := by
    simpa [dropSemicolons] using h
  simp [followedBy, dropSemicolons, List.dropWhile_append, hempty]

@[simp]
theorem dropSemicolons_dropSemicolons : cursor.dropSemicolons.dropSemicolons = cursor.dropSemicolons := by
  obtain ⟨rest, finish⟩ := cursor
  induction rest with
  | nil => rfl
  | cons token rest ih =>
    by_cases hkind : token.kind = .semicolon
    · simpa [dropSemicolons, hkind] using ih
    · simp [dropSemicolons, hkind]

/-- Only semicolons in front are dropped. -/
theorem dropSemicolons_of_kind (h : cursor.current.kind ≠ .semicolon) : cursor.dropSemicolons = cursor := by
  obtain ⟨⟨⟩ | ⟨token, rest⟩, finish⟩ := cursor
  · rfl
  · have hkind : (token.kind == .semicolon) = false := by
      simpa [current] using h
    simp [dropSemicolons, hkind]

/-- Semicolons are dropped alike, unless one stands where the input ends. -/
theorem dropSemicolons_followedBy_of_kind (h : cursor.dropSemicolons.rest = [] → more.current.kind ≠ .semicolon) :
    (cursor.followedBy more).dropSemicolons = cursor.dropSemicolons.followedBy more := by
  by_cases hnil : cursor.dropSemicolons.rest = []
  · rw [dropSemicolons_followedBy_of_nil hnil, followedBy_of_nil hnil, dropSemicolons_of_kind (h hnil)]
  · exact dropSemicolons_followedBy hnil

end Cursor

@[simp]
theorem ParseM.dropSemicolons_bind_run {α : Type} {cursor : Cursor} (next : Unit → ParseM α) :
    (dropSemicolons >>= next) cursor = next () cursor.dropSemicolons := rfl

/-! ### The view -/

/-- The view in which the tokens at `more` stand where the input ends.  Nothing is said about what fails without
them. -/
def View.followedBy (more : Cursor) : View where
  image cursor := cursor.followedBy more
  move := id
  tames := false
  behind := more.current.kind
  Fits finish := more.position = finish
  Strict := False
  Fault _ _ _ _ := False
  length_le _ := Cursor.length_le_followedBy
  length_eq := False.elim
  behind_eq := False.elim
  current cursor hrest := (Cursor.current_followedBy hrest).trans cursor.current.relocate_id.symm
  advance _ := Cursor.advance_followedBy
  kind_behind cursor hrest := by rw [Cursor.followedBy_of_nil hrest]
  position_behind cursor hfits hrest := by
    rw [Cursor.followedBy_of_nil hrest]
    exact hfits
  current_behind := False.elim
  dropSemicolons _ := Cursor.dropSemicolons_followedBy_of_kind
  misfit _ _ _ _ := False.elim
  thrown _ _ := False.elim

namespace Tracks

variable {α : Type} [Relocatable α] {more cursor later : Cursor} {ends : TokenKind → Prop} {n : Nat}
  {parse other : ParseM α} {value : α}

/-- **Where a parse succeeds, it does the same with more tokens behind.** -/
theorem followed (h : Tracks (.followedBy more) ends cursor n parse other) (hplace : more.position = cursor.finish)
    (hok : parse cursor = .ok value later) (hends : later.rest = [] → ends more.current.kind) :
    other (cursor.followedBy more) = .ok value (later.followedBy more) := by
  have hother := h.ok hplace value later hok fun hnil => .inr (hends hnil)
  have hvalue : relocate (View.followedBy more).move value = value := Relocatable.relocate_id value
  rwa [hvalue] at hother

/-- A parse that comes to the end of the input goes on with the tokens behind. -/
theorem followed_of_nil (h : Tracks (.followedBy more) ends cursor n parse other)
    (hplace : more.position = cursor.finish) (hok : parse cursor = .ok value later) (hnil : later.rest = [])
    (hends : ends more.current.kind) : other (cursor.followedBy more) = .ok value more := by
  have hother := h.followed hplace hok fun _ => hends
  rwa [Cursor.followedBy_of_nil hnil] at hother

end Tracks

end GoScript
