import GoScript.Proofs.Lookahead

/-!
# What a parse reads, and what it complains about

A parse that succeeds has read some tokens, one after the other, and opened and closed some brackets on the way.  A
parse that fails complains about a token.

* `awaitedAfter`, `Balanced` — the brackets that wait to be closed after some tokens; tokens after which none does
* `Cursor.Reads` — reading tokens one after the other; `Cursor.Consumes` — reading tokens with their brackets
* `StartOf`, `Complaint` — where tokens that can be read start, and what an error of a parse is about
-/

namespace GoScript

/-! ### Brackets -/

namespace TokenKind

/-- The kind that closes a bracket of this kind. -/
def closer? : TokenKind → Option TokenKind
  | openParen => some closeParen
  | openBracket => some closeBracket
  | openCurly => some closeCurly
  | _ => none

/-- Whether a kind closes a bracket. -/
def isCloser : TokenKind → Bool
  | closeParen | closeBracket | closeCurly => true
  | _ => false

end TokenKind

/-- The brackets that wait to be closed after a token of some kind, the innermost first, given those that wait before
it.  Nothing if the token closes a bracket other than the innermost. -/
def awaitedAfter (awaited : List TokenKind) (kind : TokenKind) : Option (List TokenKind) :=
  match kind.closer? with
  | some closer => some (closer :: awaited)
  | none =>
    if kind.isCloser then
      match awaited with
      | [] => none
      | innermost :: outer => if innermost = kind then some outer else none
    else some awaited

/-- Brackets are properly nested: each closing one closes the innermost that is open, and none stays open. -/
def Balanced (kinds : List TokenKind) : Prop :=
  kinds.foldlM awaitedAfter [] = some []

instance (kinds : List TokenKind) : Decidable (Balanced kinds) :=
  inferInstanceAs (Decidable (_ = _))

namespace TokenKind

/-- A token of this kind can be read while the brackets `before` wait to be closed, and then `after` do. -/
def Turns (before : List TokenKind) (kind : TokenKind) (after : List TokenKind) : Prop :=
  kind.Usable ∧ awaitedAfter before kind = some after

/-- The kinds that are neither brackets nor unusable. -/
def Plain (kind : TokenKind) : Prop :=
  kind.Usable ∧ kind.closer? = none ∧ kind.isCloser = false

instance (kind : TokenKind) : Decidable kind.Plain :=
  inferInstanceAs (Decidable (_ ∧ _))

theorem Plain.turns {kind : TokenKind} (h : kind.Plain) (awaited : List TokenKind) : kind.Turns awaited awaited := by
  obtain ⟨husable, hopen, hclose⟩ := h
  exact ⟨husable, by simp [awaitedAfter, hopen, hclose]⟩

theorem turns_of_isCloser {kind : TokenKind} (h : kind.isCloser = true) (awaited : List TokenKind) :
    kind.Turns (kind :: awaited) awaited := by
  cases kind <;> cases h <;> exact ⟨by decide, rfl⟩

end TokenKind

/-! ### Reading tokens -/

/-- Reading tokens one after the other, from one cursor to another.  The end of the input is never read. -/
inductive Cursor.Reads : Cursor → List Token → Cursor → Prop
  | done (cursor : Cursor) : Reads cursor [] cursor
  | next {cursor later : Cursor} {tokens : List Token} : cursor.rest ≠ [] → Reads cursor.advance tokens later →
    Reads cursor (cursor.current :: tokens) later

/-- All tokens at the cursor, the end of the input among them. -/
def Cursor.tokens (cursor : Cursor) : List Token :=
  cursor.rest ++ [.endOfInput cursor.finish]

namespace Cursor

variable {cursor middle later : Cursor} {tokens front back : List Token}

theorem Reads.trans (h : cursor.Reads front middle) (h' : middle.Reads back later) :
    cursor.Reads (front ++ back) later := by
  induction h with
  | done => exact h'
  | next hrest _ ih => exact .next hrest (ih h')

/-- What was read and what is left are all tokens there were. -/
theorem Reads.rest_eq (h : cursor.Reads tokens later) : cursor.rest = tokens ++ later.rest := by
  induction h with
  | done => rfl
  | @next cursor later tokens hrest _ ih =>
    obtain ⟨token, rest, hcons⟩ := List.exists_cons_of_ne_nil hrest
    have hadvance : cursor.advance.rest = rest := by simp [advance, hcons]
    have hcurrent : cursor.current = token := by simp [current, hcons]
    rw [hcons, hcurrent, List.cons_append, ← ih, hadvance]

theorem Reads.finish_eq (h : cursor.Reads tokens later) : later.finish = cursor.finish := by
  induction h with
  | done => rfl
  | next _ _ ih => exact ih

/-- What stays true as a token is read stays true as tokens are read. -/
theorem Reads.preserves {P : Cursor → Prop} (hadvance : ∀ cursor : Cursor, P cursor → P cursor.advance)
    (h : cursor.Reads tokens later) (hcursor : P cursor) : P later := by
  induction h with
  | done => exact hcursor
  | next _ _ ih => exact ih (hadvance _ hcursor)

/-- Semicolons in front are read one after the other. -/
theorem reads_dropSemicolons (cursor : Cursor) : ∃ tokens, cursor.Reads tokens cursor.dropSemicolons ∧
    ∀ token ∈ tokens, token.kind = .semicolon := by
  obtain ⟨rest, finish⟩ := cursor
  induction rest with
  | nil => exact ⟨[], .done _, by simp⟩
  | cons token rest ih =>
    by_cases hkind : token.kind = .semicolon
    · obtain ⟨tokens, hreads, hsemicolons⟩ := ih
      have hdrop : (Cursor.mk (token :: rest) finish).dropSemicolons = (Cursor.mk rest finish).dropSemicolons := by
        simp [dropSemicolons, hkind]
      exact ⟨token :: tokens, hdrop ▸ .next (List.cons_ne_nil token rest) hreads,
        List.forall_mem_cons.2 ⟨hkind, hsemicolons⟩⟩
    · have hdrop : (Cursor.mk (token :: rest) finish).dropSemicolons = ⟨token :: rest, finish⟩ :=
        dropSemicolons_of_kind hkind
      rw [hdrop]
      exact ⟨[], .done _, by simp⟩

/-- Reading usable tokens from one cursor to another, with `before` waiting to be closed at the first one and `after` at
the second one. -/
def Consumes (cursor : Cursor) (before : List TokenKind) (later : Cursor) (after : List TokenKind) : Prop :=
  ∃ tokens, cursor.Reads tokens later ∧ (∀ token ∈ tokens, token.kind.Usable) ∧
    (tokens.map Token.kind).foldlM awaitedAfter before = some after

variable {before between after awaited : List TokenKind}

theorem Consumes.refl (cursor : Cursor) (awaited : List TokenKind) : cursor.Consumes awaited cursor awaited :=
  ⟨[], .done cursor, by simp, rfl⟩

theorem Consumes.trans (h : cursor.Consumes before middle between) (h' : middle.Consumes between later after) :
    cursor.Consumes before later after := by
  obtain ⟨front, hfront, husable, hbetween⟩ := h
  obtain ⟨back, hback, husable', hafter⟩ := h'
  refine ⟨front ++ back, hfront.trans hback, ?_, ?_⟩
  · intro token htoken
    cases List.mem_append.1 htoken with
    | inl hmem => exact husable token hmem
    | inr hmem => exact husable' token hmem
  · rw [List.map_append, List.foldlM_append, hbetween]
    exact hafter

theorem consumes_advance (h : cursor.current.kind.Turns before after) :
    cursor.Consumes before cursor.advance after := by
  refine ⟨[cursor.current], .next (rest_ne_nil_of_kind h.1.1) (.done _), by simpa using h.1, ?_⟩
  rw [List.map_singleton, List.foldlM_cons, h.2]
  rfl

theorem consumes_dropSemicolons (cursor : Cursor) (awaited : List TokenKind) :
    cursor.Consumes awaited cursor.dropSemicolons awaited := by
  obtain ⟨tokens, hreads, hsemicolons⟩ := reads_dropSemicolons cursor
  refine ⟨tokens, hreads, fun token htoken => hsemicolons token htoken ▸ by decide, ?_⟩
  clear hreads
  induction tokens with
  | nil => rfl
  | cons token rest ih =>
    obtain ⟨hkind, hrest⟩ := List.forall_mem_cons.1 hsemicolons
    rw [List.map_cons, List.foldlM_cons, hkind]
    exact ih hrest

/-- Reading usable tokens that close every bracket that they open, and no other. -/
def Balances (cursor later : Cursor) : Prop :=
  ∀ awaited, cursor.Consumes awaited later awaited

theorem Balances.refl (cursor : Cursor) : cursor.Balances cursor :=
  fun awaited => .refl cursor awaited

theorem Balances.trans (h : cursor.Balances middle) (h' : middle.Balances later) : cursor.Balances later :=
  fun awaited => (h awaited).trans (h' awaited)

theorem balances_dropSemicolons (cursor : Cursor) : cursor.Balances cursor.dropSemicolons :=
  consumes_dropSemicolons cursor

/-- All tokens at the cursor belong to some list. -/
def Among (tokens : List Token) (cursor : Cursor) : Prop :=
  (∀ token ∈ cursor.rest, token ∈ tokens) ∧ .endOfInput cursor.finish ∈ tokens

theorem Among.current (h : cursor.Among tokens) : cursor.current ∈ tokens := by
  cases hrest : cursor.rest with
  | nil =>
    rw [current_of_nil hrest]
    exact h.2
  | cons token rest =>
    have hcurrent : cursor.current = token := by simp [Cursor.current, hrest]
    exact hcurrent ▸ h.1 token (by simp [hrest])

theorem among_tokens (cursor : Cursor) : cursor.Among cursor.tokens :=
  ⟨fun _ htoken => List.mem_append_left _ htoken, List.mem_append_right _ List.mem_cons_self⟩

theorem Among.advance (h : cursor.Among tokens) : cursor.advance.Among tokens :=
  ⟨fun token htoken => h.1 token (List.mem_of_mem_tail htoken), h.2⟩

end Cursor

/-! ### Complaints -/

/-- The position is the start of a token that can be read. -/
def StartOf (tokens : List Token) (position : Position) : Prop :=
  ∃ token ∈ tokens, token.kind.Usable ∧ token.span.start = position

/-- The causes that lie in a text, and neither in the outside world nor in the rules of the grammar. -/
def Cause.inText : Cause → Bool
  | .io _ | .endlessRule => false
  | _ => true

/-- Misfits lie in the text. -/
theorem Cursor.inText_misfit (cursor : Cursor) (message? : Option String) :
    (cursor.misfit message?).cause.inText = true := by
  simp only [misfit]
  split
  · rfl
  · cases message? <;> rfl

/-- What an error of a parse is about: something that starts with a token that can be read, the token at a cursor that
does not fit there, or the token in the place of a name. -/
inductive Complaint (tokens : List Token) : Error → Prop
  | read {error : Error} : StartOf tokens error.position → error.cause.inText = true → Complaint tokens error
  | misfit {cursor : Cursor} (message? : Option String) : cursor.Among tokens →
    Complaint tokens (cursor.misfit message?)
  | misplaced {cursor : Cursor} {message : String} : message ∈ nameMessages → cursor.Among tokens →
    Complaint tokens ⟨.misplacedToken cursor.current.value message, cursor.position⟩

namespace Complaint

variable {tokens : List Token} {error : Error}

/-- **Every complaint points at a token.** -/
theorem position (h : Complaint tokens error) : ∃ token ∈ tokens, error.position = token.span.start := by
  cases h with
  | read hstart _ =>
    obtain ⟨token, htoken, -, hposition⟩ := hstart
    exact ⟨token, htoken, hposition.symm⟩
  | misfit message? hcursor => exact ⟨_, hcursor.current, rfl⟩
  | misplaced _ hcursor => exact ⟨_, hcursor.current, rfl⟩

/-- **Every complaint lies in the text.** -/
theorem inText (h : Complaint tokens error) : error.cause.inText = true := by
  cases h with
  | read _ hcause => exact hcause
  | misfit message? _ => exact Cursor.inText_misfit _ message?
  | misplaced _ _ => rfl

end Complaint

end GoScript
