import GoScript.Proofs.Runs

/-!
# Two parses side by side

A rule of the grammar is a parse made of other parses.  To know what another version of a rule does, or the same rule on
other tokens, it is enough to know that of its parts.  This file compares two parses.  The first one stands at some
cursor, and the second one at what a view makes of it: all positions may be moved, stray characters may look like
colons, and more tokens may stand where the input ends.

The tokens that are read on success are counted, so that loops and nested rules can be followed to their end.  Where the
first parse comes to the end of the input, the second one may see another token instead.  Then a condition on the kind
of that token says whether the second parse still does the same.

* `View` — what a second parse sees of the tokens of a first one
* `Tracks` — the second parse does at its cursor what the first one does
* `Tracks.bind_of`, `Tracks.loop`, `Tracks.gather` — the comparison passes through sequences and repetitions
* `View.strict` — views in which the input ends at the same place for both parses
* `View.moved`, `Follows` — all positions are moved, and nothing else is different
-/

namespace GoScript

/-- The kinds of the tokens that programs are made of: no stray characters, and no colons, which the language does not
use. -/
def TokenKind.Usable (kind : TokenKind) : Prop :=
  kind ≠ endOfInput ∧ kind ≠ illegal ∧ kind ≠ colon

instance (kind : TokenKind) : Decidable kind.Usable :=
  inferInstanceAs (Decidable (_ ∧ _))

theorem Cursor.readable_of_usable {cursor : Cursor} (h : cursor.current.kind.Usable) : cursor.Readable :=
  ⟨h.1, h.2.1⟩

/-- What the errors for a missing name say. -/
def nameMessages : List String :=
  ["expected identifier during variable declaration", "expected parameter name"]

theorem TokenKind.name_not_mem_nameMessages (kind : TokenKind) : "expected " ++ kind.name ∉ nameMessages := by
  cases kind <;> decide

/-! ### Views -/

/-- The token at another place, and if `tame` says so, a colon in the place of a stray character. -/
def Token.seenAs (move : Position → Position) (tame : Bool) (token : Token) : Token :=
  { token.relocate move with kind := if tame && token.kind == .illegal then .colon else token.kind }

theorem Token.seenAs_cases (move : Position → Position) (tame : Bool) (token : Token) :
    token.seenAs move tame = token.relocate move ∨
      token.kind = .illegal ∧ token.seenAs move tame = { token.relocate move with kind := .colon } := by
  rw [seenAs]
  split
  · next htame => exact .inr ⟨by simpa using (Bool.and_eq_true_iff.mp htame).2, rfl⟩
  · exact .inl rfl

theorem Token.seenAs_endOfInput (move : Position → Position) (tame : Bool) (position : Position) :
    (Token.endOfInput position).seenAs move tame = .endOfInput (move position) := by
  cases tame <;> rfl

/-- **What a second parse sees of the tokens of a first one.** -/
structure View where
  /-- The cursor of the second parse. -/
  image : Cursor → Cursor
  /-- What a position of the first parse is for the second one. -/
  move : Position → Position
  /-- Whether stray characters look like colons. -/
  tames : Bool
  /-- The kind that the second parse sees where the first one has come to the end of the input. -/
  behind : TokenKind
  /-- The ends of the input that the view is made for. -/
  Fits : Position → Prop
  /-- Whether the input ends for both parses at the same place, so that the second one fails wherever the first one
  does. -/
  Strict : Prop
  /-- The errors of the two parses, and the cursors where they stop. -/
  Fault : Error → Cursor → Error → Cursor → Prop
  length_le : ∀ cursor, cursor.rest.length ≤ (image cursor).rest.length
  length_eq : Strict → ∀ cursor, (image cursor).rest.length = cursor.rest.length
  behind_eq : Strict → behind = .endOfInput
  current : ∀ cursor, cursor.rest ≠ [] → (image cursor).current = cursor.current.seenAs move tames
  advance : ∀ cursor, cursor.rest ≠ [] → (image cursor).advance = image cursor.advance
  kind_behind : ∀ cursor, cursor.rest = [] → (image cursor).current.kind = behind
  position_behind : ∀ cursor, Fits cursor.finish → cursor.rest = [] → (image cursor).position = move cursor.finish
  current_behind : Strict → ∀ cursor, Fits cursor.finish → cursor.rest = [] →
    (image cursor).current = .endOfInput (move cursor.finish)
  dropSemicolons : ∀ cursor, (cursor.dropSemicolons.rest = [] → behind ≠ .semicolon) →
    (image cursor).dropSemicolons = image cursor.dropSemicolons
  misfit : ∀ cursor message?, Fits cursor.finish → (∀ message ∈ message?, message ∉ nameMessages) →
    Strict → Fault (cursor.misfit message?) cursor ((image cursor).misfit message?) (image cursor)
  thrown : ∀ error cursor, Strict → Fault error cursor (error.relocate move) (image cursor)

namespace View

variable (view : View) {cursor : Cursor}

theorem position (hfits : view.Fits cursor.finish) : (view.image cursor).position = view.move cursor.position := by
  by_cases hrest : cursor.rest = []
  · rw [view.position_behind cursor hfits hrest, Cursor.position, Cursor.current_of_nil hrest]
    rfl
  · rw [Cursor.position, view.current cursor hrest]
    rfl

/-- Tokens of the language look alike. -/
theorem current_of_readable (h : cursor.Readable) :
    (view.image cursor).current = relocate view.move cursor.current := by
  rw [view.current cursor h.rest_ne_nil]
  rcases Token.seenAs_cases view.move view.tames cursor.current with hsame | ⟨hkind, -⟩
  · exact hsame
  · exact absurd hkind h.2

/-- A decision that tells no stray character from a colon does not depend on the view, as long as tokens are left. -/
theorem apply_kind {α : Type} {next : TokenKind → α} (hcolon : next .colon = next .illegal) (hrest : cursor.rest ≠ []) :
    next (view.image cursor).current.kind = next cursor.current.kind := by
  rw [view.current cursor hrest]
  rcases Token.seenAs_cases view.move view.tames cursor.current with hsame | ⟨hkind, hcolon'⟩
  · rw [hsame]
    rfl
  · rw [hcolon', hkind]
    exact hcolon

end View

/-! ### Comparing two parses -/

variable {α β σ : Type} [Relocatable α] [Relocatable β] [Relocatable σ]

/-- **The second parse does at its cursor what the first one does.**  If the first one succeeds, it has read at least
`count` tokens, and the second one comes to the same result.  But if the first one has come to the end of the input and
the view is not strict, that is said only if `ends` holds of the kind that the second one sees there.  In a strict view
the second one fails if the first one does. -/
structure Tracks (view : View) (ends : TokenKind → Prop) (cursor : Cursor) (count : Nat) (parse other : ParseM α) :
    Prop where
  reaches : ∀ value later, parse cursor = .ok value later → cursor.Reaches count later
  ok : view.Fits cursor.finish → ∀ value later, parse cursor = .ok value later →
    (later.rest = [] → view.Strict ∨ ends view.behind) →
      other (view.image cursor) = .ok (relocate view.move value) (view.image later)
  error : view.Fits cursor.finish → view.Strict → ∀ error later, parse cursor = .error error later →
    ∃ error' later', other (view.image cursor) = .error error' later' ∧ view.Fault error later error' later'

namespace Tracks

open Outcome

variable {view : View} {ends inner : TokenKind → Prop} {cursor : Cursor} {m n : Nat} {parse other : ParseM α}

theorem mono (h : Tracks view ends cursor n parse other) (hmn : m ≤ n) : Tracks view ends cursor m parse other :=
  ⟨fun value later hok => (h.reaches value later hok).mono hmn, h.ok, h.error⟩

theorem weaken (h : Tracks view inner cursor n parse other) (hends : ∀ kind, ends kind → inner kind) :
    Tracks view ends cursor n parse other :=
  ⟨h.reaches, fun hfits value later hok hend => h.ok hfits value later hok fun hnil => (hend hnil).imp_right (hends _),
    h.error⟩

/-- What does the same at the end of the input does so under any condition. -/
theorem always (h : Tracks view (fun _ => True) cursor n parse other) : Tracks view ends cursor n parse other :=
  h.weaken fun _ _ => trivial

/-- What does the same under some condition does so in front of the end of the input. -/
theorem inside (h : Tracks view ends cursor n parse other) : Tracks view (fun _ => False) cursor n parse other :=
  h.weaken fun _ => False.elim

/-- With a strict view the second parse fails where the first one does, and otherwise the outcome is the same. -/
theorem ok_of_strict (h : Tracks view ends cursor n parse other) (hstrict : view.Strict)
    (hfits : view.Fits cursor.finish) {value : α} {later : Cursor} (hok : parse cursor = .ok value later) :
    other (view.image cursor) = .ok (relocate view.move value) (view.image later) :=
  h.ok hfits value later hok fun _ => .inl hstrict

/-! Outcomes that need no token. -/

theorem pure_of_eq {value value' : α} (h : value' = relocate view.move value) :
    Tracks view ends cursor 0 (Pure.pure value) (Pure.pure value') := by
  subst h
  refine ⟨fun _ _ hok => ?_, fun _ _ _ hok _ => ?_, fun _ _ _ _ herror => ?_⟩
  · cases hok
    exact .refl cursor
  · cases hok
    rfl
  · cases herror

theorem pure (value : α) : Tracks view ends cursor 0 (Pure.pure value) (Pure.pure (relocate view.move value)) :=
  pure_of_eq rfl

theorem throw (error : Error) :
    Tracks view ends cursor n (throw error : ParseM α) (throw (relocate view.move error)) := by
  refine ⟨fun _ _ hok => ?_, fun _ _ _ hok _ => ?_, fun _ hstrict _ _ herror => ?_⟩
  · cases hok
  · cases hok
  · cases herror
    exact ⟨_, _, rfl, view.thrown _ _ hstrict⟩

theorem reject {message? : Option String} (h : ∀ message ∈ message?, message ∉ nameMessages) :
    Tracks view ends cursor n (ParseM.reject message? : ParseM α) (ParseM.reject message?) := by
  refine ⟨fun _ _ hok => ?_, fun _ _ _ hok _ => ?_, fun hfits hstrict _ _ herror => ?_⟩
  · cases hok
  · cases hok
  · cases herror
    exact ⟨_, _, rfl, view.misfit cursor message? hfits h hstrict⟩

theorem endless (hother : view.Strict → other = ParseM.endless) :
    Tracks view ends cursor n ParseM.endless other := by
  refine ⟨fun _ _ hok => ?_, fun _ _ _ hok _ => ?_, fun hfits hstrict _ _ herror => ?_⟩
  · cases hok
  · cases hok
  · cases herror
    rw [hother hstrict]
    refine ⟨_, _, rfl, ?_⟩
    rw [view.position hfits]
    exact view.thrown ⟨.endlessRule, cursor.position⟩ cursor hstrict

/-! ### Sequences -/

/-- **Sequences.**  If the second part reads a token, the first one has not come to the end of the input. -/
theorem bind_of {next next' : α → ParseM β} (first : Tracks view inner cursor m parse other)
    (hends : n = 0 → ∀ kind, ends kind → inner kind)
    (second : ∀ value later, cursor.Reaches m later →
      Tracks view ends later n (next value) (next' (relocate view.move value))) :
    Tracks view ends cursor (m + n) (parse >>= next) (other >>= next') := by
  constructor
  case reaches =>
    intro result last hok
    obtain ⟨value, later, hparse, hnext⟩ := ok_of_bind hok
    have hlater := first.reaches value later hparse
    exact hlater.trans ((second value later hlater).reaches result last hnext)
  case ok =>
    intro hfits result last hok hend
    obtain ⟨value, later, hparse, hnext⟩ := ok_of_bind hok
    have hlater := first.reaches value later hparse
    have hsecond := second value later hlater
    have hinner : later.rest = [] → view.Strict ∨ inner view.behind := by
      intro hnil
      obtain ⟨hnil', hn⟩ := (hsecond.reaches result last hnext).rest_eq_nil hnil
      exact (hend hnil').imp_right (hends hn _)
    rw [bind_of_ok (first.ok hfits value later hparse hinner)]
    exact hsecond.ok (hlater.finish ▸ hfits) result last hnext hend
  case error =>
    intro hfits hstrict error last herror
    rcases error_of_bind herror with hparse | ⟨value, later, hparse, hnext⟩
    · obtain ⟨error', later', hother, hfault⟩ := first.error hfits hstrict error last hparse
      exact ⟨error', later', bind_of_error hother, hfault⟩
    · have hlater := first.reaches value later hparse
      rw [bind_of_ok (first.ok_of_strict hstrict hfits hparse)]
      exact (second value later hlater).error (hlater.finish ▸ hfits) hstrict error last hnext

/-- A sequence reads as many tokens as its first part does. -/
theorem bind {next next' : α → ParseM β} (first : Tracks view ends cursor n parse other)
    (second : ∀ value later, cursor.Reaches n later →
      Tracks view ends later 0 (next value) (next' (relocate view.move value))) :
    Tracks view ends cursor n (parse >>= next) (other >>= next') :=
  bind_of first (fun _ _ h => h) second

/-- What comes after a parse that reads a token may read nothing at all. -/
theorem bind_reading {next next' : α → ParseM β} (first : Tracks view ends cursor 1 parse other)
    (second : ∀ value later, cursor.Reaches 1 later →
      Tracks view ends later 0 (next value) (next' (relocate view.move value))) :
    Tracks view ends cursor 0 (parse >>= next) (other >>= next') :=
  (bind first second).mono (Nat.zero_le 1)

/-- What stands in front of a parse that reads a token needs no condition. -/
theorem bind_add {next next' : α → ParseM β} (first : Tracks view (fun _ => False) cursor m parse other)
    (second : ∀ value later, cursor.Reaches m later →
      Tracks view ends later (n + 1) (next value) (next' (relocate view.move value))) :
    Tracks view ends cursor (m + (n + 1)) (parse >>= next) (other >>= next') :=
  bind_of first nofun second

theorem bind_inner {next next' : α → ParseM β} (first : Tracks view (fun _ => False) cursor m parse other)
    (second : ∀ value later, cursor.Reaches m later →
      Tracks view ends later (n + 1) (next value) (next' (relocate view.move value))) :
    Tracks view ends cursor (n + 1) (parse >>= next) (other >>= next') :=
  (bind_add first second).mono (by omega)

/-- Both parses decide in the same way, since no decision looks at a position. -/
theorem ite {condition : Prop} [Decidable condition] {parse' other' : ParseM α}
    (htrue : condition → Tracks view ends cursor n parse other)
    (hfalse : ¬ condition → Tracks view ends cursor n parse' other') :
    Tracks view ends cursor n (if condition then parse else parse') (if condition then other else other') := by
  by_cases h : condition
  · rw [if_pos h, if_pos h]
    exact htrue h
  · rw [if_neg h, if_neg h]
    exact hfalse h

/-! ### Looking at the cursor

What comes after a look is compared at the same cursor.  The second parse may see another token than the first one does:
a colon in the place of a stray character, or some token where the input ends.  So the decisions that follow must not
tell them apart. -/

section Looking

/-- The first parse may be another one with the same outcome at the cursor, and so may the second one.  The outcomes of
the second parses have to be the same only as far as they matter. -/
theorem congr {parse' other' : ParseM α} (h : Tracks view ends cursor n parse other)
    (hparse : parse' cursor = parse cursor)
    (hother : view.Fits cursor.finish → (view.Strict ∨ ∃ value later, parse cursor = .ok value later ∧
        (later.rest = [] → ends view.behind)) → other' (view.image cursor) = other (view.image cursor)) :
    Tracks view ends cursor n parse' other' := by
  refine ⟨fun value later hok => ?_, fun hfits value later hok hend => ?_, fun hfits hstrict error later herror => ?_⟩
  · exact h.reaches value later (hparse ▸ hok)
  · rw [hparse] at hok
    have hmatters : view.Strict ∨ ∃ value later, parse cursor = .ok value later ∧
        (later.rest = [] → ends view.behind) := by
      by_cases hstrict : view.Strict
      · exact .inl hstrict
      · exact .inr ⟨value, later, hok, fun hnil => (hend hnil).resolve_left hstrict⟩
    rw [hother hfits hmatters]
    exact h.ok hfits value later hok hend
  · rw [hother hfits (.inl hstrict)]
    exact h.error hfits hstrict error later (hparse ▸ herror)

/-- Where the input ends, either the second parse sees the end as well, or nothing has been read. -/
theorem behind_of_nil (h : Tracks view ends cursor n parse other) (hrest : cursor.rest = [])
    (hmatters : view.Strict ∨ ∃ value later, parse cursor = .ok value later ∧
      (later.rest = [] → ends view.behind)) : view.Strict ∨ n = 0 ∧ ends view.behind := by
  refine hmatters.imp_right ?_
  rintro ⟨value, later, hok, hend⟩
  obtain ⟨hnil, hn⟩ := (h.reaches value later hok).rest_eq_nil hrest
  exact ⟨hn, hend hnil⟩

theorem bind_currentKind {next next' : TokenKind → ParseM α} (hcolon : next' .colon = next' .illegal)
    (hend : n = 0 → ∀ kind, ends kind → next' kind = next' .endOfInput)
    (h : Tracks view ends cursor n (next cursor.current.kind) (next' cursor.current.kind)) :
    Tracks view ends cursor n (ParseM.currentKind >>= next) (ParseM.currentKind >>= next') := by
  refine h.congr rfl fun _ hmatters => ?_
  show next' (view.image cursor).current.kind (view.image cursor) = _
  by_cases hrest : cursor.rest = []
  · rw [view.kind_behind cursor hrest, Cursor.current_of_nil hrest]
    rcases h.behind_of_nil hrest hmatters with hstrict | ⟨hn, hends⟩
    · rw [view.behind_eq hstrict]
      rfl
    · rw [hend hn _ hends]
      rfl
  · rw [view.apply_kind hcolon hrest]

/-- The token after the current one lies behind the end of the input only if the current one is the last, and then
that one has been read. -/
theorem bind_nextKind {next next' : TokenKind → ParseM α} (hrest : cursor.rest ≠ [])
    (hcolon : next' .colon = next' .illegal)
    (hend : cursor.advance.rest = [] → ∀ value later, next .endOfInput cursor = .ok value later →
      ∀ kind, ends kind → next' kind = next' .endOfInput)
    (h : Tracks view ends cursor (n + 1) (next cursor.next.kind) (next' cursor.next.kind)) :
    Tracks view ends cursor (n + 1) (ParseM.nextKind >>= next) (ParseM.nextKind >>= next') := by
  refine h.congr rfl fun _ hmatters => ?_
  have hnext : (view.image cursor).next = (view.image cursor.advance).current := by
    rw [← view.advance cursor hrest]
    rfl
  show next' (view.image cursor).next.kind (view.image cursor) = next' cursor.advance.current.kind _
  rw [hnext]
  by_cases htail : cursor.advance.rest = []
  · have hkind : cursor.next.kind = .endOfInput := by
      show cursor.advance.current.kind = _
      rw [Cursor.current_of_nil htail]
      rfl
    rw [view.kind_behind _ htail, Cursor.current_of_nil htail]
    rcases hmatters with hstrict | ⟨value, later, hok, hlater⟩
    · rw [view.behind_eq hstrict]
      rfl
    · have hnil : later.rest = [] := by
        have hlength := (h.reaches value later hok).length_le
        have htail' := congrArg List.length htail
        rw [Cursor.advance, List.length_tail, List.length_nil] at htail'
        exact List.eq_nil_of_length_eq_zero (by omega)
      rw [hend htail value later (hkind ▸ hok) _ (hlater hnil)]
      rfl
  · rw [view.apply_kind hcolon htail]

theorem bind_current {next next' : Token → ParseM α}
    (hcolon : cursor.current.kind = .illegal →
      next' { relocate view.move cursor.current with kind := .colon } = next' (relocate view.move cursor.current))
    (hend : n = 0 → ∀ kind, ¬ ends kind)
    (h : Tracks view ends cursor n (next cursor.current) (next' (relocate view.move cursor.current))) :
    Tracks view ends cursor n (ParseM.current >>= next) (ParseM.current >>= next') := by
  refine h.congr rfl fun hfits hmatters => ?_
  show next' (view.image cursor).current (view.image cursor) = _
  by_cases hrest : cursor.rest = []
  · rcases h.behind_of_nil hrest hmatters with hstrict | ⟨hn, hends⟩
    · rw [view.current_behind hstrict cursor hfits hrest, Cursor.current_of_nil hrest]
      rfl
    · exact absurd hends (hend hn _)
  · rw [view.current cursor hrest]
    rcases Token.seenAs_cases view.move view.tames cursor.current with hsame | ⟨hkind, hcolon'⟩
    · rw [hsame]
      rfl
    · rw [hcolon']
      exact congrFun (hcolon hkind) _

theorem bind_position {next next' : Position → ParseM α}
    (h : Tracks view ends cursor n (next cursor.position) (next' (view.move cursor.position))) :
    Tracks view ends cursor n (ParseM.position >>= next) (ParseM.position >>= next') := by
  refine h.congr rfl fun hfits _ => ?_
  show next' (view.image cursor).position (view.image cursor) = _
  rw [view.position hfits]

theorem bind_spanSince {start : Position} {next next' : Span → ParseM α}
    (h : Tracks view ends cursor n (next (cursor.spanSince start))
      (next' (relocate view.move (cursor.spanSince start)))) :
    Tracks view ends cursor n (ParseM.spanSince start >>= next)
      (ParseM.spanSince (view.move start) >>= next') := by
  refine h.congr rfl fun hfits _ => ?_
  show next' ⟨view.move start, (view.image cursor).position⟩ (view.image cursor) = _
  rw [view.position hfits]
  rfl

end Looking

/-! ### Single tokens -/

theorem advance (h : cursor.Readable) : Tracks view ends cursor 1 ParseM.advance ParseM.advance := by
  refine ⟨fun _ _ hok => ?_, fun _ _ _ hok _ => ?_, fun _ _ _ _ herror => ?_⟩
  · cases hok
    exact h.reaches_advance
  · cases hok
    show EStateM.Result.ok (view.image cursor).current (view.image cursor).advance = _
    rw [view.current_of_readable h, view.advance cursor h.rest_ne_nil]
  · cases herror

/-- Semicolons are dropped alike, unless one is seen where the input ends. -/
theorem dropSemicolons :
    Tracks view (· ≠ .semicolon) cursor 0 ParseM.dropSemicolons ParseM.dropSemicolons := by
  refine ⟨fun _ _ hok => ?_, fun _ _ _ hok hend => ?_, fun _ _ _ _ herror => ?_⟩
  · cases hok
    exact Cursor.reaches_dropSemicolons cursor
  · cases hok
    have hbehind : cursor.dropSemicolons.rest = [] → view.behind ≠ .semicolon := by
      intro hnil
      rcases hend hnil with hstrict | hbehind
      · rw [view.behind_eq hstrict]
        decide
      · exact hbehind
    show EStateM.Result.ok () (view.image cursor).dropSemicolons = _
    rw [view.dropSemicolons cursor hbehind]
  · cases herror

/-- A kind that a rule asks for is one of the language, so taking it reads a token. -/
theorem takeOr {kind : TokenKind} (hkind : kind.Usable) (error : Error) :
    Tracks view ends cursor 1 (ParseM.takeOr kind error) (ParseM.takeOr kind (relocate view.move error)) := by
  refine bind_currentKind ?_ nofun (ite (fun h => advance (Cursor.readable_of_kind h ⟨hkind.1, hkind.2.1⟩)) fun _ => ?_)
  · rw [if_neg (Ne.symm hkind.2.2), if_neg (Ne.symm hkind.2.1)]
  · exact throw error

theorem take {kind : TokenKind} (hkind : kind.Usable) :
    Tracks view ends cursor 1 (ParseM.take kind) (ParseM.take kind) := by
  refine bind_currentKind ?_ nofun (ite (fun h => advance (Cursor.readable_of_kind h ⟨hkind.1, hkind.2.1⟩)) fun _ => ?_)
  · rw [if_neg (Ne.symm hkind.2.2), if_neg (Ne.symm hkind.2.1)]
  · refine reject ?_
    rintro _ ⟨⟩
    exact kind.name_not_mem_nameMessages

theorem check (outcome : Except Error α) :
    Tracks view ends cursor 0 (ParseM.check outcome) (ParseM.check (relocate view.move outcome)) := by
  cases outcome with
  | ok value => exact pure value
  | error error => exact throw error

/-- A check does not move the cursor. -/
theorem bind_check {outcome : Except Error α} {next next' : α → ParseM β}
    (h : ∀ value, Tracks view ends cursor n (next value) (next' (relocate view.move value))) :
    Tracks view ends cursor n (ParseM.check outcome >>= next)
      (ParseM.check (relocate view.move outcome) >>= next') := by
  cases outcome with
  | ok value => exact h value
  | error error => exact throw error

/-! ### Repetitions -/

/-- The second loop may have more rounds to spare, since more tokens may follow. -/
theorem loopFor {round round' : σ → ParseM (ParseM.Round σ α)} (hmn : m ≤ n) (hstrict : view.Strict → m = n) (value : σ)
    (h : ∀ value later, cursor.Reaches 0 later →
      Tracks view ends later 0 (round value) (round' (relocate view.move value))) :
    Tracks view ends cursor 0 (ParseM.loopFor round m value) (ParseM.loopFor round' n (relocate view.move value)) := by
  induction m generalizing cursor value n with
  | zero =>
    apply endless
    intro hs
    cases hstrict hs
    rfl
  | succ m ih =>
    obtain ⟨n, rfl⟩ : ∃ k, n = k + 1 := ⟨n - 1, by omega⟩
    apply bind (h value cursor (.refl cursor))
    intro outcome later hlater
    cases outcome with
    | again value =>
      exact ih (by omega) (fun hs => by have := hstrict hs; omega) value fun value last hlast =>
        h value last (hlater.trans hlast)
    | done result => exact pure result

theorem loop {round round' : σ → ParseM (ParseM.Round σ α)} (value : σ)
    (h : ∀ value later, cursor.Reaches 0 later →
      Tracks view ends later 0 (round value) (round' (relocate view.move value))) :
    Tracks view ends cursor 0 (ParseM.loop round value) (ParseM.loop round' (relocate view.move value)) := by
  have hbound := loopFor (Nat.add_le_add_right (view.length_le cursor) 1)
    (fun hs => by rw [view.length_eq hs]) value h
  exact ⟨hbound.reaches, hbound.ok, hbound.error⟩

theorem gatherFor {item item' : ParseM (ParseM.Item α)} (hmn : m ≤ n) (hstrict : view.Strict → m = n)
    (h : ∀ later, cursor.Reaches 0 later → Tracks view ends later 0 item item') :
    Tracks view ends cursor 0 (ParseM.gatherFor item m) (ParseM.gatherFor item' n) := by
  induction m generalizing cursor n with
  | zero =>
    apply endless
    intro hs
    cases hstrict hs
    rfl
  | succ m ih =>
    obtain ⟨n, rfl⟩ : ∃ k, n = k + 1 := ⟨n - 1, by omega⟩
    apply bind (h cursor (.refl cursor))
    intro outcome later hlater
    cases outcome with
    | stop => exact pure []
    | last value => exact pure [value]
    | more value =>
      apply bind (ih (by omega) (fun hs => by have := hstrict hs; omega) fun last hlast => h last (hlater.trans hlast))
      intro values last hlast
      exact pure (value :: values)

theorem gather {item item' : ParseM (ParseM.Item α)}
    (h : ∀ later, cursor.Reaches 0 later → Tracks view ends later 0 item item') :
    Tracks view ends cursor 0 (ParseM.gather item) (ParseM.gather item') := by
  have hbound := gatherFor (Nat.add_le_add_right (view.length_le cursor) 1) (fun hs => by rw [view.length_eq hs]) h
  exact ⟨hbound.reaches, hbound.ok, hbound.error⟩

end Tracks

/-! ### Views that end together -/

namespace View

/-- A view in which the second parse sees one token for each one of the first: its input ends at the same place. -/
def strict (image : Cursor → Cursor) (move : Position → Position) (tames : Bool)
    (Fault : Error → Cursor → Error → Cursor → Prop)
    (length : ∀ cursor, (image cursor).rest.length = cursor.rest.length)
    (current : ∀ cursor, (image cursor).current = cursor.current.seenAs move tames)
    (advance : ∀ cursor, (image cursor).advance = image cursor.advance)
    (dropSemicolons : ∀ cursor, (image cursor).dropSemicolons = image cursor.dropSemicolons)
    (misfit : ∀ cursor message?, (∀ message ∈ message?, message ∉ nameMessages) →
      Fault (cursor.misfit message?) cursor ((image cursor).misfit message?) (image cursor))
    (thrown : ∀ error cursor, Fault error cursor (error.relocate move) (image cursor)) : View where
  image := image
  move := move
  tames := tames
  behind := .endOfInput
  Fits _ := True
  Strict := True
  Fault := Fault
  length_le cursor := Nat.le_of_eq (length cursor).symm
  length_eq _ := length
  behind_eq _ := rfl
  current cursor _ := current cursor
  advance cursor _ := advance cursor
  kind_behind cursor hrest := by
    rw [current, Cursor.current_of_nil hrest, Token.seenAs_endOfInput]
    rfl
  position_behind cursor _ hrest := by
    rw [Cursor.position, current, Cursor.current_of_nil hrest]
    rfl
  current_behind _ cursor _ hrest := by
    rw [current, Cursor.current_of_nil hrest, Token.seenAs_endOfInput]
  dropSemicolons cursor _ := dropSemicolons cursor
  misfit cursor message? _ hmessage _ := misfit cursor message? hmessage
  thrown error cursor _ := thrown error cursor

/-- The view in which all positions are moved, and nothing else is different. -/
def moved (f : Position → Position) : View :=
  strict (Cursor.relocate f) f false
    (fun error cursor error' cursor' => error' = error.relocate f ∧ cursor' = cursor.relocate f)
    (Cursor.length_rest_relocate f) (Cursor.current_relocate f) (Cursor.advance_relocate f)
    (Cursor.dropSemicolons_relocate f) (fun cursor message? _ => ⟨cursor.misfit_relocate f message?, rfl⟩)
    (fun _ _ => ⟨rfl, rfl⟩)

end View

namespace Tracks

variable {f : Position → Position} {ends inner : TokenKind → Prop} {cursor : Cursor} {n : Nat} {parse other : ParseM α}

/-- Both parses see the end of the input, so no condition is needed there. -/
theorem under (h : Tracks (.moved f) inner cursor n parse other) : Tracks (.moved f) ends cursor n parse other :=
  ⟨h.reaches, fun hfits value later hok _ => h.ok hfits value later hok fun _ => .inl trivial, h.error⟩

theorem same (h : Tracks (.moved f) ends cursor n parse other) :
    other (cursor.relocate f) = relocate f (parse cursor) := by
  cases hparse : parse cursor with
  | ok value later => exact h.ok_of_strict trivial trivial hparse
  | error error later =>
    obtain ⟨error', later', hother, rfl, rfl⟩ := h.error trivial trivial error later hparse
    exact hother

/-- With no position moved, the two parses are the same at the cursor. -/
theorem eq_of_id (h : Tracks (.moved id) ends cursor n parse other) : other cursor = parse cursor := by
  have hcursor : cursor.relocate id = cursor := Relocatable.relocate_id cursor
  have hsame := h.same
  rwa [hcursor, Relocatable.relocate_id] at hsame

end Tracks

/-- At the cursor with its positions moved `other` does what `parse` does at the cursor itself; and `parse` reads at
least `count` tokens if it succeeds. -/
abbrev Follows (f : Position → Position) (cursor : Cursor) (count : Nat) (parse other : ParseM α) : Prop :=
  Tracks (.moved f) (fun _ => False) cursor count parse other

end GoScript
