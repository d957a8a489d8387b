import GoScript.Proofs.Rules

/-!
# The depth of nesting

The rules are tied together by a number of levels that the tokens bound.  With the tables of the language the number
is never used up: a rule reads a token before it refers to another one, except that a statement may be an expression.
So the levels can be forgotten, and the parses of the language satisfy the equations that their rules spell out.

* `subparsers_track` — from two levels for each token on, all depths give the same parses, in any view
* `nested` — the parses of the language, each with all the levels that it can use
* `nested_expression`, `nested_statement`, … — a parse is its rule applied to the parses themselves
* `nested_track` — the parses do the same in every view and read a token each
-/

namespace GoScript.Grammar

open ParseM Outcome

variable {view : View} {ends : TokenKind → Prop} {cursor : Cursor}

/-! ### Enough levels -/

/-- **All depths from two levels for each token on are alike.**  The induction is on the tokens that are left.  One
level goes to a statement and one to the expression that it may start with, and then a token has been read. -/
theorem subparsers_track (n : Nat) {m k : Nat} (hm : 2 * n ≤ m) (hk : 2 * n ≤ k) :
    (standard.subparsers m).Track view n (standard.subparsers k) := by
  induction n generalizing m k with
  | zero => constructor <;> intros <;> omega
  | succ n ih =>
    obtain ⟨m, rfl⟩ : ∃ i, m = i + 2 := ⟨m - 2, by omega⟩
    obtain ⟨k, rfl⟩ : ∃ i, k = i + 2 := ⟨k - 2, by omega⟩
    have outer : (standard.subparsers (m + 1)).Track view n (standard.subparsers (k + 1)) := ih (by omega) (by omega)
    have inner : (standard.subparsers m).Track view n (standard.subparsers k) := ih (by omega) (by omega)
    constructor
    case type =>
      intro cursor hcursor
      exact typeAt_tracks (outer.mono (by omega))
    case expression =>
      intro power _ cursor hcursor
      exact expressionAt_tracks (outer.mono (by omega)) power
    case statement =>
      intro cursor hcursor
      exact statementAt_tracks (outer.mono (by omega)) (expressionAt_tracks (inner.mono (by omega)) .lowest)
    case block =>
      intro cursor hcursor
      exact blockAt_tracks (outer.mono (by omega))
    case conditional =>
      intro cursor hcursor hkind
      exact conditional_tracks (outer.mono (by omega)) (Cursor.readable_of_kind hkind (by decide))

/-! ### The parses without levels -/

/-- The parses of the language, each with all the levels of nesting that its tokens can use. -/
def nested : Subparsers where
  type := standard.run (·.type)
  expression power := standard.run (·.expression power)
  statement := standard.run (·.statement)
  block := standard.run (·.block)
  conditional := standard.run (·.conditional)

/-- A parse with the levels that the second cursor asks for, wherever any sufficient number of levels will do. -/
theorem run_tracks {α : Type} [Relocatable α] {n : Nat} {parse : ParseM α} (other : Subparsers → ParseM α)
    (h : Tracks view ends cursor n parse (other (standard.subparsers (depthBound (view.image cursor))))) :
    Tracks view ends cursor n parse (standard.run other) :=
  ⟨h.reaches, h.ok, h.error⟩

theorem depthBound_ge (cursor : Cursor) : 2 * (cursor.rest.length + 1) ≤ depthBound cursor := by
  unfold depthBound
  omega

theorem subparsers_track_nested (n : Nat) {m : Nat} (hm : 2 * n ≤ m) :
    (standard.subparsers m).Track view n nested := by
  have here : ∀ cursor : Cursor, cursor.rest.length < n → (standard.subparsers m).Track view (cursor.rest.length + 1)
      (standard.subparsers (depthBound (view.image cursor))) := by
    intro cursor hcursor
    have hlevels := depthBound_ge (view.image cursor)
    have hlength := view.length_le cursor
    exact subparsers_track (cursor.rest.length + 1) (by omega) (by omega)
  constructor
  case type =>
    intro cursor hcursor
    exact run_tracks (·.type) ((here cursor hcursor).type cursor (Nat.lt_succ_self _))
  case expression =>
    intro power hpower cursor hcursor
    exact run_tracks (·.expression power) ((here cursor hcursor).expression power hpower cursor (Nat.lt_succ_self _))
  case statement =>
    intro cursor hcursor
    exact run_tracks (·.statement) ((here cursor hcursor).statement cursor (Nat.lt_succ_self _))
  case block =>
    intro cursor hcursor
    exact run_tracks (·.block) ((here cursor hcursor).block cursor (Nat.lt_succ_self _))
  case conditional =>
    intro cursor hcursor hkind
    exact run_tracks (·.conditional) ((here cursor hcursor).conditional cursor (Nat.lt_succ_self _) hkind)

/-- **A parse is its rule applied to the parses themselves**, wherever the rule does the same with enough levels. -/
theorem run_eq {α : Type} [Relocatable α] {n : Nat} (parse rule : Subparsers → ParseM α)
    (hunfold : ∀ depth, parse (standard.subparsers (depth + 1)) = rule (standard.subparsers depth))
    (hrule : ∀ depth, 2 * cursor.rest.length + 1 ≤ depth →
      Tracks (.moved id) ends cursor n (rule (standard.subparsers depth)) (rule nested)) :
    standard.run parse cursor = rule nested cursor := by
  have hge := depthBound_ge cursor
  obtain ⟨depth, hdepth⟩ : ∃ depth, depthBound cursor = depth + 1 := ⟨depthBound cursor - 1, by omega⟩
  show parse (standard.subparsers (depthBound cursor)) cursor = _
  rw [hdepth, hunfold]
  exact (hrule depth (by omega)).eq_of_id.symm

theorem nested_type : nested.type = typeAt standard nested := by
  funext cursor
  apply run_eq (·.type) (typeAt standard) (fun _ => rfl)
  intro depth hdepth
  exact typeAt_tracks (subparsers_track_nested _ (by omega))

theorem nested_expression (power : Precedence) : nested.expression power = expressionAt standard nested power := by
  funext cursor
  apply run_eq (·.expression power) (expressionAt standard · power) (fun _ => rfl)
  intro depth hdepth
  exact expressionAt_tracks (subparsers_track_nested _ (by omega)) power

/-- The expression that a statement starts with still has enough levels. -/
theorem expression_tracks_nested (depth : Nat) (hdepth : 2 * cursor.rest.length + 1 ≤ depth) :
    Tracks view Closes cursor 1 ((standard.subparsers depth).expression .lowest) (nested.expression .lowest) := by
  obtain ⟨depth, rfl⟩ : ∃ i, depth = i + 1 := ⟨depth - 1, by omega⟩
  rw [nested_expression]
  exact expressionAt_tracks (subparsers_track_nested _ (by omega)) .lowest

theorem nested_statement : nested.statement = statementAt standard nested := by
  funext cursor
  apply run_eq (·.statement) (statementAt standard) (fun _ => rfl)
  intro depth hdepth
  exact statementAt_tracks (subparsers_track_nested _ (by omega)) (expression_tracks_nested depth hdepth)

theorem nested_block : nested.block = blockAt nested := by
  funext cursor
  apply run_eq (·.block) blockAt (fun _ => rfl)
  intro depth hdepth
  exact blockAt_tracks (subparsers_track_nested _ (by omega))

/-- A condition starts with its word. -/
theorem nested_conditional (hkind : cursor.current.kind = .ifWord) :
    nested.conditional cursor = conditionalStatement nested cursor := by
  apply run_eq (·.conditional) conditionalStatement (fun _ => rfl)
  intro depth hdepth
  exact conditional_tracks (subparsers_track_nested _ (by omega)) (Cursor.readable_of_kind hkind (by decide))

/-- A program is read by the parses of the language. -/
theorem parseProgram_eq : standard.parseProgram = program nested := by
  funext cursor
  have hrule : Follows id cursor 0 (program (standard.subparsers (depthBound cursor))) (program nested) :=
    program_tracks (subparsers_track_nested _ (depthBound_ge cursor)) fun _ _ => rfl
  exact hrule.eq_of_id.symm

/-! ### Views and progress -/

/-- **The parses of the language do the same in every view, and each of them reads a token.** -/
theorem nested_track (view : View) (n : Nat) : nested.Track view n nested := by
  have here : ∀ cursor : Cursor,
      (standard.subparsers (depthBound cursor)).Track view (cursor.rest.length + 1) nested :=
    fun cursor => subparsers_track_nested _ (depthBound_ge cursor)
  constructor
  case type =>
    intro cursor _
    have h := (here cursor).type cursor (Nat.lt_succ_self _)
    exact ⟨h.reaches, h.ok, h.error⟩
  case expression =>
    intro power hpower cursor _
    have h := (here cursor).expression power hpower cursor (Nat.lt_succ_self _)
    exact ⟨h.reaches, h.ok, h.error⟩
  case statement =>
    intro cursor _
    have h := (here cursor).statement cursor (Nat.lt_succ_self _)
    exact ⟨h.reaches, h.ok, h.error⟩
  case block =>
    intro cursor _
    have h := (here cursor).block cursor (Nat.lt_succ_self _)
    exact ⟨h.reaches, h.ok, h.error⟩
  case conditional =>
    intro cursor _ hkind
    have h := (here cursor).conditional cursor (Nat.lt_succ_self _) hkind
    exact ⟨h.reaches, h.ok, h.error⟩

/-- An expression reads a token, whatever its power is. -/
theorem nested_expression_tracks (view : View) (power : Precedence) :
    Tracks view Closes cursor 1 (nested.expression power) (nested.expression power) := by
  rw [nested_expression]
  exact expressionAt_tracks (nested_track view _) power

/-- A step after an operand reads a token. -/
theorem continueWith_reads {rule : Continuation} {left node : Node} {power : Precedence} {later : Cursor}
    (hentry : standard.continuation cursor.current.kind = some (power, rule))
    (h : continueWith nested rule left power cursor = .ok node later) : cursor.Reaches 1 later :=
  (continueWith_tracks (nested_track (.moved id) _) hentry left).reaches node later h

/-- An expression reads a token. -/
theorem expression_reads {power : Precedence} {node : Node} {later : Cursor}
    (h : nested.expression power cursor = .ok node later) : cursor.Reaches 1 later :=
  (nested_expression_tracks (.moved id) power).reaches node later h

/-- Every element of a list but the last one reads a token. -/
theorem listItem_advances (close : TokenKind) (trailingComma : Bool) :
    Advances (listItem nested close trailingComma) := by
  intro cursor value later h
  rw [listItem, currentKind_bind_run] at h
  by_cases hclose : cursor.current.kind = close
  · rw [if_pos hclose] at h
    cases h
  · rw [if_neg hclose] at h
    obtain ⟨expression, middle, hexpression, h⟩ := ok_of_bind h
    have hreads := (expression_reads hexpression).length_le
    rw [currentKind_bind_run] at h
    by_cases hcomma : middle.current.kind ≠ .comma
    · rw [if_pos hcomma] at h
      cases h
    · rw [if_neg hcomma, advance_bind_run, currentKind_bind_run] at h
      have hadvance : middle.advance.rest.length ≤ middle.rest.length := by simp [Cursor.advance]
      split at h
      · cases h
      · cases h
        omega

/-- Every further step after an operand reads a token. -/
theorem continueRound_progresses (power : Precedence) : Progresses (continueRound standard nested power) := by
  intro left cursor node later h
  rw [continueRound, currentKind_bind_run] at h
  cases hentry : standard.continuation cursor.current.kind with
  | none =>
    rw [hentry] at h
    cases h
  | some entry =>
    obtain ⟨nextPower, rule⟩ := entry
    simp only [hentry] at h
    by_cases hpower : power < nextPower
    · rw [if_pos hpower] at h
      obtain ⟨next, last, hstep, hpure⟩ := ok_of_bind h
      cases hpure
      have hlength := (continueWith_reads hentry hstep).length_le
      omega
    · rw [if_neg hpower] at h
      cases h

/-! ### Operands and what continues them -/

/-- The operand that an expression of the language starts with. -/
def firstOperand : ParseM Node := do
  match standard.operand (← currentKind) with
  | none => reject none
  | some rule => ruleAt standard nested rule

/-- Everything that continues an operand and binds more tightly than `power`. -/
def continued (power : Precedence) (left : Node) : ParseM Node :=
  loop (continueRound standard nested power) left

/-- A token of this kind continues the operands in an expression of some power. -/
def Continues (power : Precedence) (kind : TokenKind) : Prop :=
  ∃ entry ∈ standard.continuation kind, power < entry.1

instance (power : Precedence) (kind : TokenKind) : Decidable (Continues power kind) :=
  inferInstanceAs (Decidable (∃ entry ∈ standard.continuation kind, power < entry.1))

theorem nested_expression_eq (power : Precedence) : nested.expression power = firstOperand >>= continued power := by
  rw [nested_expression]
  funext cursor
  rw [expressionAt, firstOperand, currentKind_bind_run, bind_run, currentKind_bind_run]
  cases standard.operand cursor.current.kind with
  | none => rfl
  | some rule => exact bind_run _ _

/-- Where nothing continues it, an operand stays as it is. -/
theorem continued_stop {power : Precedence} (left : Node) (h : ¬ Continues power cursor.current.kind) :
    continued power left cursor = .ok left cursor := by
  have hround : continueRound standard nested power left cursor = .ok (.done left) cursor := by
    rw [continueRound, currentKind_bind_run]
    cases hentry : standard.continuation cursor.current.kind with
    | none => rfl
    | some entry =>
      have hpower : ¬ power < entry.1 := fun hpower => h ⟨entry, hentry, hpower⟩
      show (if power < entry.1 then _ else _ : ParseM (Round Node Node)) cursor = _
      rw [if_neg hpower]
      rfl
  rw [continued, loop_eq (continueRound_progresses power), bind_of_ok hround]
  rfl

/-- One step after an operand, and then the others. -/
theorem continued_step {power nextPower : Precedence} {rule : Continuation} (left : Node)
    (hentry : standard.continuation cursor.current.kind = some (nextPower, rule)) (hpower : power < nextPower) :
    continued power left cursor = (continueWith nested rule left nextPower >>= continued power) cursor := by
  have hround : continueRound standard nested power left cursor =
      (continueWith nested rule left nextPower >>= fun node => pure (.again node)) cursor := by
    rw [continueRound, currentKind_bind_run, hentry]
    show (if power < nextPower then _ else _ : ParseM (Round Node Node)) cursor = _
    rw [if_pos hpower]
  rw [continued, loop_eq (continueRound_progresses power), bind_run, hround, bind_run, bind_run]
  cases continueWith nested rule left nextPower cursor <;> rfl

/-- After an expression there is nothing that would continue it. -/
theorem not_continues_of_continued {power : Precedence} {left node : Node} {later : Cursor}
    (h : continued power left cursor = .ok node later) : ¬ Continues power later.current.kind := by
  induction hlength : cursor.rest.length using Nat.strongRecOn generalizing cursor left with
  | ind length ih =>
    by_cases hcontinues : Continues power cursor.current.kind
    · obtain ⟨⟨nextPower, rule⟩, hentry, hpower⟩ := hcontinues
      rw [continued_step left hentry hpower] at h
      obtain ⟨next, middle, hstep, hrest⟩ := ok_of_bind h
      have hreads := (continueWith_reads hentry hstep).length_le
      exact ih middle.rest.length (by omega) hrest rfl
    · rw [continued_stop left hcontinues] at h
      cases h
      exact hcontinues

theorem not_continues_of_expression {power : Precedence} {node : Node} {later : Cursor}
    (h : nested.expression power cursor = .ok node later) : ¬ Continues power later.current.kind := by
  rw [nested_expression_eq] at h
  obtain ⟨left, middle, _, hcontinued⟩ := ok_of_bind h
  exact not_continues_of_continued hcontinued

end GoScript.Grammar
