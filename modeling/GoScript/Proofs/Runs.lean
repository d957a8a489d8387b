import GoScript.Proofs.Outcomes
import GoScript.Proofs.Relocation

/-!
# Runs of a parse

A parse goes from one cursor to another, further on in the same tokens.  This file says what the steps that everything
else is made of do to a cursor, and unfolds repetitions.

* `Cursor.Reaches` — a cursor further on in the same tokens
* `Cursor.relocate` — a cursor with all of its positions moved
* `loop_eq`, `gather_eq` — a repetition whose rounds read a token each is its first round followed by the others
-/

namespace GoScript

/-! ### Cursors -/

namespace Cursor

/-- The cursor with all of its positions moved. -/
def relocate (f : Position → Position) (cursor : Cursor) : Cursor :=
  ⟨cursor.rest.map (Token.relocate f), f cursor.finish⟩

/-- The cursor `later` is reached by reading at least `count` tokens, none of them a stray character. -/
structure Reaches (cursor : Cursor) (count : Nat) (later : Cursor) : Prop where
  read : ∃ tokens : List Token, cursor.rest = tokens ++ later.rest ∧ count ≤ tokens.length ∧
    ∀ token ∈ tokens, token.kind ≠ .illegal
  finish : later.finish = cursor.finish

theorem Reaches.refl (cursor : Cursor) : cursor.Reaches 0 cursor :=
  ⟨⟨[], rfl, Nat.le_refl 0, nofun⟩, rfl⟩

theorem Reaches.trans {first second third : Cursor} {m n : Nat} (h : first.Reaches m second)
    (h' : second.Reaches n third) : first.Reaches (m + n) third := by
  obtain ⟨⟨tokens, hrest, hcount, hlegal⟩, hfinish⟩ := h
  obtain ⟨⟨tokens', hrest', hcount', hlegal'⟩, hfinish'⟩ := h'
  refine ⟨⟨tokens ++ tokens', ?_, ?_, ?_⟩, hfinish'.trans hfinish⟩
  · rw [hrest, hrest', List.append_assoc]
  · rw [List.length_append]
    omega
  · intro token htoken
    cases List.mem_append.1 htoken with
    | inl hfirst => exact hlegal token hfirst
    | inr hsecond => exact hlegal' token hsecond

theorem Reaches.mono {first second : Cursor} {m n : Nat} (h : first.Reaches n second) (hmn : m ≤ n) :
    first.Reaches m second := by
  obtain ⟨⟨tokens, hrest, hcount, hlegal⟩, hfinish⟩ := h
  exact ⟨⟨tokens, hrest, Nat.le_trans hmn hcount, hlegal⟩, hfinish⟩

theorem Reaches.length_le {first second : Cursor} {n : Nat} (h : first.Reaches n second) :
    second.rest.length + n ≤ first.rest.length := by
  obtain ⟨⟨tokens, hrest, hcount, -⟩, -⟩ := h
  rw [hrest, List.length_append]
  omega

theorem reaches_dropSemicolons (cursor : Cursor) : cursor.Reaches 0 cursor.dropSemicolons := by
  refine ⟨⟨cursor.rest.takeWhile (·.kind == .semicolon), List.takeWhile_append_dropWhile.symm, Nat.zero_le _, ?_⟩, rfl⟩
  intro token htoken
  have hkind := List.all_takeWhile (p := (·.kind == TokenKind.semicolon)) (l := cursor.rest)
  rw [beq_iff_eq.1 (List.all_eq_true.1 hkind token htoken)]
  decide

/-- Where no token is left, none is read. -/
theorem Reaches.rest_eq_nil {cursor later : Cursor} {n : Nat} (h : cursor.Reaches n later) (hrest : cursor.rest = []) :
    later.rest = [] ∧ n = 0 := by
  have hlength := h.length_le
  rw [hrest, List.length_nil] at hlength
  exact ⟨List.eq_nil_of_length_eq_zero (by omega), by omega⟩

/-- Where one token is left, two cannot be read. -/
theorem Reaches.not_advance_nil {cursor later : Cursor} {n : Nat} (h : cursor.Reaches (n + 2) later) :
    cursor.advance.rest ≠ [] := by
  intro htail
  have hlength := h.length_le
  have htail' := congrArg List.length htail
  rw [advance, List.length_tail, List.length_nil] at htail'
  omega

theorem current_of_nil {cursor : Cursor} (h : cursor.rest = []) : cursor.current = .endOfInput cursor.finish := by
  simp [current, h]

/-- Only at the end of the input are there no tokens left. -/
theorem rest_ne_nil_of_kind {cursor : Cursor} (h : cursor.current.kind ≠ .endOfInput) : cursor.rest ≠ [] := by
  intro hnil
  apply h
  simp [current, hnil, Token.endOfInput]

/-- The current token is one of the language. -/
def Readable (cursor : Cursor) : Prop :=
  cursor.current.kind ≠ .endOfInput ∧ cursor.current.kind ≠ .illegal

theorem Readable.rest_ne_nil {cursor : Cursor} (h : cursor.Readable) : cursor.rest ≠ [] :=
  rest_ne_nil_of_kind h.1

theorem Readable.reaches_advance {cursor : Cursor} (h : cursor.Readable) : cursor.Reaches 1 cursor.advance := by
  obtain ⟨token, rest, hrest⟩ := List.exists_cons_of_ne_nil h.rest_ne_nil
  refine ⟨⟨[token], by simp [advance, hrest], Nat.le_refl 1, ?_⟩, rfl⟩
  have hcurrent : cursor.current = token := by simp [current, hrest]
  simpa [hcurrent] using h.2

theorem readable_of_kind {cursor : Cursor} {kind : TokenKind} (h : cursor.current.kind = kind)
    (hkind : kind ≠ .endOfInput ∧ kind ≠ .illegal) : cursor.Readable :=
  ⟨h ▸ hkind.1, h ▸ hkind.2⟩

variable (f : Position → Position) (cursor : Cursor)

@[simp]
theorem length_rest_relocate : (cursor.relocate f).rest.length = cursor.rest.length := by
  simp [relocate]

@[simp]
theorem current_relocate : (cursor.relocate f).current = cursor.current.relocate f := by
  obtain ⟨rest, finish⟩ := cursor
  cases rest <;> rfl

@[simp]
theorem next_relocate : (cursor.relocate f).next = cursor.next.relocate f := by
  obtain ⟨rest, finish⟩ := cursor
  rcases rest with _ | ⟨_, _ | _⟩ <;> rfl

@[simp]
theorem advance_relocate : (cursor.relocate f).advance = cursor.advance.relocate f := by
  simp [relocate, advance]

@[simp]
theorem position_relocate : (cursor.relocate f).position = f cursor.position := by
  simp [position, Token.relocate, Span.relocate]

@[simp]
theorem hasMore_relocate : (cursor.relocate f).hasMore = cursor.hasMore := by
  simp [hasMore, Token.relocate]

@[simp]
theorem dropSemicolons_relocate : (cursor.relocate f).dropSemicolons = cursor.dropSemicolons.relocate f := by
  simp only [relocate, dropSemicolons, List.dropWhile_map]
  rfl

@[simp]
theorem misfit_relocate (message? : Option String) :
    (cursor.relocate f).misfit message? = (cursor.misfit message?).relocate f := by
  simp [misfit, Token.relocate, Error.relocate]

end Cursor

instance : Relocatable Cursor where
  relocate := Cursor.relocate
  relocate_id cursor := by
    obtain ⟨rest, finish⟩ := cursor
    simp [Cursor.relocate, List.map_id'' Token.relocate_id]

/-- The outcome of a parse with all of its positions moved. -/
instance {α : Type} [Relocatable α] : Relocatable (EStateM.Result Error Cursor α) where
  relocate f
    | .ok value cursor => .ok (relocate f value) (relocate f cursor)
    | .error error cursor => .error (relocate f error) (relocate f cursor)
  relocate_id outcome := by cases outcome <;> simp [Relocatable.relocate_id]

/-! ### Running a parse -/

namespace ParseM

variable {α β : Type} {cursor later : Cursor}

@[simp]
theorem currentKind_bind_run (next : TokenKind → ParseM α) :
    (currentKind >>= next) cursor = next cursor.current.kind cursor := rfl

@[simp]
theorem nextKind_bind_run (next : TokenKind → ParseM α) :
    (nextKind >>= next) cursor = next cursor.next.kind cursor := rfl

@[simp]
theorem position_bind_run (next : Position → ParseM α) : (position >>= next) cursor = next cursor.position cursor := rfl

@[simp]
theorem spanSince_bind_run (start : Position) (next : Span → ParseM α) :
    (spanSince start >>= next) cursor = next (cursor.spanSince start) cursor := rfl

@[simp]
theorem advance_bind_run (next : Token → ParseM α) :
    (advance >>= next) cursor = next cursor.current cursor.advance := rfl

theorem take_run {kind : TokenKind} (h : cursor.current.kind = kind) :
    take kind cursor = .ok cursor.current cursor.advance := by
  rw [take, currentKind_bind_run, if_pos h]
  rfl

end ParseM

/-! ### Unfolding repetitions -/

namespace ParseM

variable {α σ : Type}

/-- Every round that asks for another one has read a token. -/
def Progresses (round : σ → ParseM (Round σ α)) : Prop :=
  ∀ value cursor next later, round value cursor = .ok (.again next) later → later.rest.length < cursor.rest.length

/-- Any bound above the number of tokens that are left is as good as another. -/
theorem loopFor_eq_of_lt {round : σ → ParseM (Round σ α)} (h : Progresses round) {m n : Nat} {cursor : Cursor}
    (value : σ) (hm : cursor.rest.length < m) (hn : cursor.rest.length < n) :
    loopFor round m value cursor = loopFor round n value cursor := by
  induction m generalizing n cursor value with
  | zero => omega
  | succ m ih =>
    obtain ⟨n, rfl⟩ : ∃ k, n = k + 1 := ⟨n - 1, by omega⟩
    show EStateM.bind (round value) _ cursor = EStateM.bind (round value) _ cursor
    simp only [EStateM.bind]
    cases hround : round value cursor with
    | error error later => rfl
    | ok outcome later =>
      cases outcome with
      | done result => rfl
      | again next =>
        have hlater := h value cursor next later hround
        exact ih next (by omega) (by omega)

/-- **A loop is its first round followed by the others.** -/
theorem loop_eq {round : σ → ParseM (Round σ α)} (h : Progresses round) (value : σ) :
    loop round value = (do
      match ← round value with
      | .again next => loop round next
      | .done result => pure result) := by
  funext cursor
  show EStateM.bind (round value) _ cursor = EStateM.bind (round value) _ cursor
  simp only [EStateM.bind]
  cases hround : round value cursor with
  | error error later => rfl
  | ok outcome later =>
    cases outcome with
    | done result => rfl
    | again next =>
      have hlater := h value cursor next later hround
      exact loopFor_eq_of_lt h next hlater (Nat.lt_succ_self _)

/-- Every round that expects another item has read a token. -/
def Advances (item : ParseM (Item α)) : Prop :=
  ∀ cursor value later, item cursor = .ok (.more value) later → later.rest.length < cursor.rest.length

theorem gatherFor_eq_of_lt {item : ParseM (Item α)} (h : Advances item) {m n : Nat} {cursor : Cursor}
    (hm : cursor.rest.length < m) (hn : cursor.rest.length < n) :
    gatherFor item m cursor = gatherFor item n cursor := by
  induction m generalizing n cursor with
  | zero => omega
  | succ m ih =>
    obtain ⟨n, rfl⟩ : ∃ k, n = k + 1 := ⟨n - 1, by omega⟩
    show EStateM.bind item _ cursor = EStateM.bind item _ cursor
    simp only [EStateM.bind]
    cases hitem : item cursor with
    | error error later => rfl
    | ok outcome later =>
      cases outcome with
      | stop => rfl
      | last value => rfl
      | more value =>
        have hlater := h cursor value later hitem
        show EStateM.bind (gatherFor item m) _ later = EStateM.bind (gatherFor item n) _ later
        simp only [EStateM.bind]
        rw [ih (n := n) (by omega) (by omega)]

/-- **A list is its first item followed by the others.** -/
theorem gather_eq {item : ParseM (Item α)} (h : Advances item) :
    gather item = (do
      match ← item with
      | .stop => pure []
      | .last value => pure [value]
      | .more value => return value :: (← gather item)) := by
  funext cursor
  show EStateM.bind item _ cursor = EStateM.bind item _ cursor
  simp only [EStateM.bind]
  cases hitem : item cursor with
  | error error later => rfl
  | ok outcome later =>
    cases outcome with
    | stop => rfl
    | last value => rfl
    | more value =>
      have hlater := h cursor value later hitem
      show EStateM.bind (gatherFor item _) _ later = EStateM.bind (gather item) _ later
      simp only [EStateM.bind]
      rw [gatherFor_eq_of_lt h hlater (Nat.lt_succ_self _)]
      rfl

end ParseM

end GoScript
