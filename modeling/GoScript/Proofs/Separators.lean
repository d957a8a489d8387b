import GoScript.Proofs.Lookahead
import GoScript.Proofs.Nesting

/-!
# Statements in front of a semicolon

No rule of the language takes a semicolon for a part of what it reads, and every rule that may end with the input may
end with a semicolon as well: a return without a value, a condition without `else`, a type in brackets without elements,
a declaration without a value.  So the statements in front of a semicolon are read as if the input ended there.

* `statement_followedBy` — a statement with a semicolon and more tokens behind it
* `gather_programItem_followedBy` — the statements of two texts with a semicolon in between
-/

namespace GoScript

open ParseM

namespace Grammar

variable {more : Cursor} {sub : Subparsers} {cursor : Cursor}

/-- A statement reads a token. -/
theorem statement_reads {statement : Node} {later : Cursor} (h : nested.statement cursor = .ok statement later) :
    cursor.Reaches 1 later :=
  ((nested_track (.moved id) (cursor.rest.length + 1)).statement cursor (Nat.lt_succ_self _)).reaches statement later h

/-- A statement is read in the same way when a semicolon and more tokens follow.  Then the semicolons behind it are
dropped. -/
theorem statement_followedBy (hstop : more.StopsAt cursor.finish) {statement : Node} {later : Cursor}
    (hok : nested.statement cursor = .ok statement later) :
    nested.statement (cursor.followedBy more) = .ok statement (later.followedBy more).dropSemicolons := by
  rw [nested_statement] at hok ⊢
  obtain ⟨plain, middle, hplain, hdrop⟩ := Outcome.ok_of_bind hok
  cases hdrop
  have htracks := plainStatement_tracks (nested_track (.followedBy more) cursor.rest.length)
    (nested_expression_tracks (.followedBy more) .lowest)
  have hplain' := htracks.followed hstop.position hplain fun _ => .inl hstop.kind
  rw [statementAt, Outcome.bind_of_ok hplain']
  show EStateM.Result.ok statement (middle.followedBy more).dropSemicolons = _
  by_cases hrest : middle.dropSemicolons.rest = []
  · rw [Cursor.dropSemicolons_followedBy_of_nil hrest, Cursor.followedBy_of_nil hrest]
  · rw [← Cursor.dropSemicolons_followedBy hrest, Cursor.dropSemicolons_dropSemicolons]

/-! ### Programs -/

theorem programItem_dropSemicolons (cursor : Cursor) :
    programItem sub cursor.dropSemicolons = programItem sub cursor := by
  rw [programItem, dropSemicolons_bind_run, dropSemicolons_bind_run, Cursor.dropSemicolons_dropSemicolons]

/-- One more statement is read exactly where something is left behind the semicolons in front. -/
theorem programItem_run : programItem sub cursor =
    if cursor.dropSemicolons.hasMore then (do return Item.more (← sub.statement)) cursor.dropSemicolons
    else .ok .stop cursor.dropSemicolons := by
  show (if cursor.dropSemicolons.hasMore = true then _ else _ : ParseM (Item Node)) cursor.dropSemicolons = _
  by_cases hmore : cursor.dropSemicolons.hasMore = true
  · rw [if_pos hmore, if_pos hmore]
  · rw [if_neg hmore, if_neg hmore]
    rfl

theorem programItem_more_iff {statement : Node} {later : Cursor} :
    programItem sub cursor = .ok (.more statement) later ↔
      cursor.dropSemicolons.hasMore = true ∧ sub.statement cursor.dropSemicolons = .ok statement later := by
  rw [programItem_run]
  by_cases hmore : cursor.dropSemicolons.hasMore = true
  · rw [if_pos hmore]
    constructor
    · intro hok
      obtain ⟨node, middle, hstatement, hpure⟩ := Outcome.ok_of_bind hok
      cases hpure
      exact ⟨hmore, hstatement⟩
    · intro hok
      exact Outcome.bind_of_ok hok.2
  · rw [if_neg hmore]
    simp [hmore]

theorem programItem_advances : Advances (programItem nested) := by
  intro cursor statement later hok
  have hdrop := (Cursor.reaches_dropSemicolons cursor).length_le
  have hreads := (statement_reads (programItem_more_iff.1 hok).2).length_le
  omega

/-- One more statement is read in the same way when a semicolon and more tokens follow. -/
theorem programItem_more_followedBy (hstop : more.StopsAt cursor.finish) {statement : Node} {later : Cursor}
    (hok : programItem nested cursor = .ok (.more statement) later) :
    cursor.Reaches 1 later ∧
      programItem nested (cursor.followedBy more) = .ok (.more statement) (later.followedBy more).dropSemicolons := by
  obtain ⟨hmore, hstatement⟩ := programItem_more_iff.1 hok
  have hrest : cursor.dropSemicolons.rest ≠ [] := Cursor.rest_ne_nil_of_kind (by simpa [Cursor.hasMore] using hmore)
  have hreads := (Cursor.reaches_dropSemicolons cursor).trans (statement_reads hstatement)
  have hstop' : more.StopsAt cursor.dropSemicolons.finish := hstop
  refine ⟨hreads.mono (by omega), programItem_more_iff.2 ?_⟩
  rw [Cursor.dropSemicolons_followedBy hrest]
  refine ⟨?_, statement_followedBy hstop' hstatement⟩
  rw [Cursor.hasMore, Cursor.current_followedBy hrest]
  exact hmore

/-- Where no token stands for the end of the input, the statements stop only with the tokens. -/
theorem rest_of_programItem_stop (hsome : ∀ token ∈ cursor.rest, token.kind ≠ .endOfInput) {later : Cursor}
    (hok : programItem sub cursor = .ok .stop later) : cursor.dropSemicolons.rest = [] := by
  by_cases hnil : cursor.dropSemicolons.rest = []
  · exact hnil
  · obtain ⟨token, rest, hcons⟩ := List.exists_cons_of_ne_nil hnil
    have htoken : token ∈ cursor.rest := by
      have hsuffix := List.dropWhile_suffix (l := cursor.rest) (·.kind == TokenKind.semicolon)
      apply hsuffix.subset
      show token ∈ cursor.dropSemicolons.rest
      simp [hcons]
    have hmore : cursor.dropSemicolons.hasMore = true := by
      simpa [Cursor.hasMore, Cursor.current, hcons] using hsome token htoken
    rw [programItem_run, if_pos hmore] at hok
    obtain ⟨node, middle, -, hpure⟩ := Outcome.ok_of_bind hok
    cases hpure

theorem gather_programItem_congr {other : Cursor} (h : programItem nested cursor = programItem nested other) :
    gather (programItem nested) cursor = gather (programItem nested) other := by
  rw [gather_eq programItem_advances, Outcome.bind_run, Outcome.bind_run, h]

/-- **The statements of two texts with a semicolon in between** are those of the first one and those of the second
one.  The induction is on the tokens of the first text; its last round is the one that meets the semicolon. -/
theorem gather_programItem_followedBy (hstop : more.StopsAt cursor.finish)
    (hsome : ∀ token ∈ cursor.rest, token.kind ≠ .endOfInput) {body : List Node} {later : Cursor}
    (hok : gather (programItem nested) cursor = .ok body later) :
    (∀ token ∈ cursor.rest, token.kind ≠ .illegal) ∧
      gather (programItem nested) (cursor.followedBy more) =
        (do return body ++ (← gather (programItem nested))) more := by
  induction hlength : cursor.rest.length using Nat.strongRecOn generalizing cursor body with
  | ind length ih =>
    rw [gather_eq programItem_advances] at hok
    obtain ⟨item, middle, hitem, hrest⟩ := Outcome.ok_of_bind hok
    cases item with
    | stop =>
      cases hrest
      have hnil := rest_of_programItem_stop hsome hitem
      obtain ⟨⟨semicolons, hsplit, -, hlegal⟩, -⟩ := Cursor.reaches_dropSemicolons cursor
      rw [hnil, List.append_nil] at hsplit
      have hsame : programItem nested (cursor.followedBy more) = programItem nested more := by
        rw [← programItem_dropSemicolons, Cursor.dropSemicolons_followedBy_of_nil hnil, programItem_dropSemicolons]
      refine ⟨hsplit ▸ hlegal, ?_⟩
      rw [gather_programItem_congr hsame, Outcome.bind_run]
      cases gather (programItem nested) more <;> rfl
    | last statement =>
      rw [programItem_run] at hitem
      split at hitem
      · obtain ⟨node, after, -, hpure⟩ := Outcome.ok_of_bind hitem
        cases hpure
      · cases hitem
    | more statement =>
      obtain ⟨others, last, hothers, hbody⟩ := Outcome.ok_of_bind hrest
      cases hbody
      obtain ⟨⟨⟨tokens, hsplit, hcount, hlegal⟩, hfinish⟩, hitem'⟩ := programItem_more_followedBy hstop hitem
      have hshorter : middle.rest.length < length := by
        rw [← hlength, hsplit, List.length_append]
        omega
      obtain ⟨hlegal', hgather⟩ := ih middle.rest.length hshorter (hfinish ▸ hstop)
        (fun token htoken => hsome token (by simp [hsplit, htoken])) hothers rfl
      constructor
      · intro token htoken
        rw [hsplit, List.mem_append] at htoken
        cases htoken with
        | inl hfirst => exact hlegal token hfirst
        | inr hsecond => exact hlegal' token hsecond
      · have hunfold := congrFun (gather_eq programItem_advances) (cursor.followedBy more)
        rw [hunfold, Outcome.bind_of_ok hitem']
        show (gather (programItem nested) >>= fun rest => pure (statement :: rest)) _ = _
        rw [Outcome.bind_run, gather_programItem_congr (programItem_dropSemicolons _), hgather, Outcome.bind_run,
          Outcome.bind_run]
        cases gather (programItem nested) more <;> rfl

end Grammar

end GoScript
