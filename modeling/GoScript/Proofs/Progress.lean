import GoScript.Proofs.Acceptance
import GoScript.Proofs.MaximalMunch
import GoScript.Proofs.ParameterLists
import Mathlib.Logic.Function.Iterate

/-!
# Progress

A parse sees two tokens of its text at a time and moves on by one token at a time.  What it sees are the tokens in the
order in which a scan gives them, and then the end of the input over and over.  Every parse of the language that
succeeds has moved on, and never past the end of the input, so every repetition and every nesting of rules comes to an
end.

To tell whether a parse moves past the end of the input, the end is written out behind the tokens of a cursor, as often
as one likes.  The parse sees the same tokens then, but now moving past an end is reading a token.

* `tokenAt` — the tokens of a text, and the end of the input behind them; `Scanner.pulled` — the same from a scan
* `Cursor.withEnds` — a cursor with the end of the input written out
* `Ends`, `MakesProgress` — a parse comes to an end; it reads a token, and no end of the input, where it succeeds
* `Grammar.ProgressAt` — the parses of the language make progress at a cursor
* `Grammar.RepetitionsEnd` — the repetitions of the grammar come to an end, whatever bound they are given
* `parse_progresses` — all of this for every text
-/

namespace GoScript

/-! ### The tokens in sight -/

/-- The tokens of a text by their number, counted from 0, and the end of the input for all numbers behind them. -/
def tokenAt (source file : String) (n : Nat) : Token :=
  (tokensOf source file).getD n (.endOfInput (endPosition file source.toList))

/-- Filling up a list with the default changes no look-up. -/
theorem getD_append_replicate {α : Type} (list : List α) (count n : Nat) (default : α) :
    (list ++ List.replicate count default).getD n default = list.getD n default := by
  rw [List.getD_eq_getElem?_getD, List.getD_eq_getElem?_getD, List.getElem?_append]
  split
  · rfl
  · next hlength =>
    rw [List.getElem?_eq_none (Nat.le_of_not_lt hlength), List.getElem?_replicate]
    split <;> rfl

theorem tokenAt_eq (source file : String) (n : Nat) :
    tokenAt source file n = (scan file source.toList).getD n (.endOfInput (endPosition file source.toList)) :=
  getD_append_replicate _ 1 n _

theorem kind_tokenAt_succ {source file : String} {n : Nat} (h : (tokenAt source file n).kind = .endOfInput) :
    (tokenAt source file (n + 1)).kind = .endOfInput := by
  rw [tokenAt_eq, List.getD_eq_getElem?_getD] at h ⊢
  cases htoken : (scan file source.toList)[n]? with
  | none =>
    have hlength := List.getElem?_eq_none_iff.mp htoken
    rw [List.getElem?_eq_none (by omega)]
    rfl
  | some token =>
    rw [htoken] at h
    exact absurd h (bounds_of_mem_scan (List.mem_of_getElem? htoken)).1

namespace Scanner

/-- The token that a scan gives when it is asked for one after `n` others. -/
def pulled (scanner : Scanner) : (n : Nat) → Option Token
  | 0 => scanner.token?.map Prod.fst
  | n + 1 => scanner.token?.bind fun (_, later) => later.pulled n

/-- The tokens that are left at a scan in front of `text`. -/
def tokensOn (scanner : Scanner) (text : List Char) : List Token :=
  placeTokens scanner.file scanner.offset (lexemes text)

/-- **One token of a scan** is the first of those that are left, and the others are left behind it.  Without any it is
the end of the input, and the scan has come to its end. -/
theorem token?_tokensOn {scanner : Scanner} {text : List Char} (h : scanner.remainder? = some text) :
    ∃ token later rest, scanner.token? = some (token, later) ∧ later.remainder? = some rest ∧
      later.file = scanner.file ∧ later.offset + Text.byteSize rest = scanner.offset + Text.byteSize text ∧
      (scanner.tokensOn text = token :: later.tokensOn rest ∨
        scanner.tokensOn text = [] ∧ later.tokensOn rest = [] ∧
          token = .endOfInput ⟨UInt32.ofNat (scanner.offset + Text.byteSize text), scanner.file⟩) := by
  induction text using lexemesInduction generalizing scanner with
  | nil => exact ⟨_, scanner, [], token?_of_remainder? h, h, rfl, rfl, .inr ⟨rfl, rfl, rfl⟩⟩
  | lexeme c rest after htext hne _ _ hlexemes ih =>
    have hstep := steps_atStart h
    have hafter := remainder?_skip (htext ▸ h)
    have hsize : Text.byteSize (c :: rest) = Text.byteSize (Lexeme.atStart c rest).text + Text.byteSize after := by
      rw [htext, Text.byteSize_append]
    rw [Steps] at hstep
    cases hword : (Lexeme.atStart c rest).token? with
    | some word =>
      rw [hword] at hstep
      refine ⟨_, _, after, hstep, hafter, rfl, ?_, .inl ?_⟩
      · show scanner.offset + _ + _ = _
        omega
      · rw [tokensOn, hlexemes, placeTokens, hword]
        rfl
    | none =>
      rw [hword] at hstep
      obtain ⟨token, later, text', htoken, hlater, hfile, hoffset, hcases⟩ := ih hafter
      have hsame : scanner.tokensOn (c :: rest) =
          (scanner.skip (Text.byteSize (Lexeme.atStart c rest).text)).tokensOn after := by
        rw [tokensOn, hlexemes, placeTokens, hword]
        rfl
      have hend : (scanner.skip (Text.byteSize (Lexeme.atStart c rest).text)).offset + Text.byteSize after =
          scanner.offset + Text.byteSize (c :: rest) := by
        show scanner.offset + _ + _ = _
        omega
      rw [hend] at hoffset hcases
      rw [hsame]
      exact ⟨token, later, text', hstep.trans htoken, hlater, hfile, hoffset, hcases⟩

/-- **A scan gives the tokens of its text one after the other**, and then the end of the input. -/
theorem pulled_eq {scanner : Scanner} {text : List Char} (h : scanner.remainder? = some text) (n : Nat) :
    scanner.pulled n = some ((scanner.tokensOn text).getD n
      (.endOfInput ⟨UInt32.ofNat (scanner.offset + Text.byteSize text), scanner.file⟩)) := by
  induction n generalizing scanner text with
  | zero =>
    obtain ⟨token, later, rest, htoken, -, -, -, hcons | ⟨hnil, -, rfl⟩⟩ := token?_tokensOn h
    · rw [pulled, htoken, hcons]
      rfl
    · rw [pulled, htoken, hnil]
      rfl
  | succ n ih =>
    obtain ⟨token, later, rest, htoken, hlater, hfile, hoffset, hcases⟩ := token?_tokensOn h
    have hpulled : scanner.pulled (n + 1) = later.pulled n := by rw [pulled, htoken]; rfl
    rw [hpulled, ih hlater, hoffset, hfile]
    rcases hcases with hcons | ⟨hnil, hnil', -⟩
    · rw [hcons, List.getD_cons_succ]
    · rw [hnil, hnil']
      rfl

theorem pulled_ofSource (source file : String) (n : Nat) :
    (ofSource source file).pulled n = some (tokenAt source file n) := by
  have hrest : (ofSource source file).remainder? = some source.toList := by
    show Text.dropBytes? source.toList 0 = some source.toList
    cases source.toList <;> rfl
  rw [pulled_eq hrest, tokenAt_eq]
  show some (List.getD (placeTokens file 0 (lexemes source.toList)) n
    (.endOfInput ⟨UInt32.ofNat (0 + Text.byteSize source.toList), file⟩)) = _
  rw [Nat.zero_add]
  rfl

end Scanner

namespace Cursor

/-- The cursor with the end of the input written out `count` times behind its tokens. -/
def withEnds (cursor : Cursor) (count : Nat) : Cursor :=
  { cursor with rest := cursor.rest ++ List.replicate count (.endOfInput cursor.finish) }

theorem iterate_advance (n : Nat) (cursor : Cursor) : advance^[n] cursor = ⟨cursor.rest.drop n, cursor.finish⟩ := by
  induction n generalizing cursor with
  | zero => rfl
  | succ n ih =>
    rw [Function.iterate_succ_apply, ih, advance, List.drop_tail]

/-- The current token after some others have been read. -/
theorem current_iterate_advance (n : Nat) (cursor : Cursor) :
    (advance^[n] cursor).current = cursor.rest.getD n (.endOfInput cursor.finish) := by
  rw [iterate_advance, current, List.getD_eq_getElem?_getD, List.headD_eq_head?_getD, List.head?_drop]

/-- **The window follows the tokens of the text**, however often the end of the input is written out. -/
theorem window_ofSource (source file : String) (ends n : Nat) :
    (advance^[n] ((ofSource source file).withEnds ends)).current = tokenAt source file n ∧
      (advance^[n] ((ofSource source file).withEnds ends)).next = tokenAt source file (n + 1) := by
  have hcurrent : ∀ n, (advance^[n] ((ofSource source file).withEnds ends)).current = tokenAt source file n := by
    intro n
    rw [current_iterate_advance, tokenAt_eq]
    exact getD_append_replicate _ ends n _
  refine ⟨hcurrent n, ?_⟩
  rw [← hcurrent, Function.iterate_succ_apply']
  rfl

/-! ### Reading on -/

/-- At least one token is read from one cursor to another, and no end of the input. -/
def ReadsOn (cursor later : Cursor) : Prop :=
  ∃ tokens, tokens ≠ [] ∧ cursor.Reads tokens later ∧ ∀ token ∈ tokens, token.kind ≠ .endOfInput

variable {cursor middle later : Cursor}

theorem ReadsOn.trans (h : cursor.ReadsOn middle) (h' : middle.ReadsOn later) : cursor.ReadsOn later := by
  obtain ⟨front, hne, hfront, hkinds⟩ := h
  obtain ⟨back, -, hback, hkinds'⟩ := h'
  refine ⟨front ++ back, List.append_ne_nil_of_left_ne_nil hne back, hfront.trans hback, ?_⟩
  intro token htoken
  rcases List.mem_append.mp htoken with hmem | hmem
  · exact hkinds token hmem
  · exact hkinds' token hmem

theorem ReadsOn.kind (h : cursor.ReadsOn later) : cursor.current.kind ≠ .endOfInput := by
  obtain ⟨tokens, hne, hreads, hkinds⟩ := h
  cases hreads with
  | done => exact absurd rfl hne
  | next => exact hkinds _ List.mem_cons_self

theorem readsOn_advance (h : cursor.current.kind ≠ .endOfInput) : cursor.ReadsOn cursor.advance :=
  ⟨[cursor.current], List.cons_ne_nil _ _, .next (rest_ne_nil_of_kind h) (.done _), by simpa using h⟩

/-- Where only ends of the input follow an end of the input, whoever reads on behind the current token has read it. -/
theorem ReadsOn.of_advance (hclosed : cursor.current.kind = .endOfInput → cursor.advance.current.kind = .endOfInput)
    (h : cursor.advance.ReadsOn later) : cursor.ReadsOn later :=
  (readsOn_advance fun hend => h.kind (hclosed hend)).trans h

/-- What is read is read on, if it is anything. -/
theorem Consumes.readsOn {before after : List TokenKind} (h : cursor.Consumes before later after)
    (hlength : later.rest.length < cursor.rest.length) : cursor.ReadsOn later := by
  obtain ⟨tokens, hreads, husable, -⟩ := h
  refine ⟨tokens, ?_, hreads, fun token htoken => (husable token htoken).1⟩
  rintro rfl
  rw [hreads.rest_eq, List.nil_append] at hlength
  exact absurd hlength (Nat.lt_irrefl _)

end Cursor

/-! ### Coming to an end -/

section Ends

open ParseM Outcome

variable {α β σ : Type} {cursor : Cursor}

/-- A parse comes to an end: it does not stop for having gone on longer than its tokens allow. -/
def Ends (cursor : Cursor) (parse : ParseM α) : Prop :=
  ∀ error later, parse cursor = .error error later → error.cause ≠ .endlessRule

/-- A cause that lies in the text is not that the rules went on for too long. -/
theorem Cause.ne_endlessRule {cause : Cause} (h : cause.inText = true) : cause ≠ .endlessRule := by
  rintro rfl
  cases h

namespace Ends

variable {parse : ParseM α}

theorem pure (value : α) : Ends cursor (Pure.pure value) :=
  fun _ _ h => nomatch h

theorem throw {error : Error} (h : error.cause.inText = true) : Ends cursor (throw error : ParseM α) := by
  intro error' later herror
  cases herror
  exact Cause.ne_endlessRule h

theorem reject (message? : Option String) : Ends cursor (ParseM.reject message? : ParseM α) :=
  throw (cursor.inText_misfit message?)

theorem bind {next : α → ParseM β} (first : Ends cursor parse)
    (rest : ∀ value later, parse cursor = .ok value later → Ends later (next value)) :
    Ends cursor (parse >>= next) := by
  intro error last h
  rcases error_of_bind h with hfirst | ⟨value, middle, hfirst, hrest⟩
  · exact first error last hfirst
  · exact rest value middle hfirst error last hrest

theorem bind_advance {next : Token → ParseM β} (h : Ends cursor.advance (next cursor.current)) :
    Ends cursor (advance >>= next) := h

theorem ite {condition : Prop} [Decidable condition] {other : ParseM α} (hthen : Ends cursor parse)
    (helse : Ends cursor other) : Ends cursor (if condition then parse else other) := by
  split
  · exact hthen
  · exact helse

theorem takeOr (kind : TokenKind) {error : Error} (h : error.cause.inText = true) :
    Ends cursor (takeOr kind error) :=
  ite (pure _) (throw h)

/-- What a parse with a derivation complains about lies in the text. -/
theorem of_yields {tokens : List Token} {k : Knowledge tokens} {P : α → Cursor → Prop} (h : Yields k cursor parse P)
    (hcursor : k.Holds cursor) : Ends cursor parse :=
  fun _ _ herror => Cause.ne_endlessRule (h.of_error hcursor herror).inText

/-- A loop comes to an end if each of its rounds does and those that go on read a token. -/
theorem loop {round : σ → ParseM (Round σ α)} (hprogresses : Progresses round)
    (hround : ∀ value cursor, Ends cursor (round value)) (value : σ) : Ends cursor (loop round value) := by
  induction hlength : cursor.rest.length using Nat.strongRecOn generalizing cursor value with
  | ind length ih =>
    rw [loop_eq hprogresses]
    refine bind (hround value cursor) fun outcome later houtcome => ?_
    cases outcome with
    | again next => exact ih _ (hlength ▸ hprogresses _ _ _ _ houtcome) next rfl
    | done result => exact pure result

end Ends

/-- A parse makes progress: it comes to an end, and where it succeeds, at least one token has been read and no end of
the input. -/
structure MakesProgress (cursor : Cursor) (parse : ParseM α) : Prop where
  ends : Ends cursor parse
  reads : ∀ value later, parse cursor = .ok value later → cursor.ReadsOn later

/-- Progress goes on: a parse that makes progress may be followed by another one. -/
theorem MakesProgress.bind {parse : ParseM α} {next : α → ParseM β} (first : MakesProgress cursor parse)
    (rest : ∀ value later, MakesProgress later (next value)) : MakesProgress cursor (parse >>= next) := by
  refine ⟨first.ends.bind fun value later _ => (rest value later).ends, fun result last h => ?_⟩
  obtain ⟨value, middle, hfirst, hrest⟩ := ok_of_bind h
  exact (first.reads value middle hfirst).trans ((rest value middle).reads result last hrest)

/-- Progress stays: what only puts a result together may follow. -/
theorem MakesProgress.bind_ok {parse : ParseM α} {next : α → ParseM β} (first : MakesProgress cursor parse)
    (rest : ∀ value later, ∃ result, next value later = .ok result later) : MakesProgress cursor (parse >>= next) := by
  constructor
  case ends =>
    refine first.ends.bind fun value later _ error last hrest => ?_
    obtain ⟨result, hok⟩ := rest value later
    cases hok.symm.trans hrest
  case reads =>
    intro result last h
    obtain ⟨value, middle, hfirst, hrest⟩ := ok_of_bind h
    obtain ⟨result', hok⟩ := rest value middle
    cases hok.symm.trans hrest
    exact first.reads value _ hfirst

/-- A token that is read for certain counts as progress only together with what follows it: it may be an end of the
input, but then nothing but ends of the input follows. -/
theorem MakesProgress.advance_bind {next : Token → ParseM α}
    (hclosed : cursor.current.kind = .endOfInput → cursor.advance.current.kind = .endOfInput)
    (rest : ∀ token, MakesProgress cursor.advance (next token)) : MakesProgress cursor (advance >>= next) := by
  constructor
  case ends => exact (rest cursor.current).ends
  case reads =>
    intro value later hok
    exact .of_advance hclosed ((rest cursor.current).reads value later hok)

theorem take_makesProgress {kind : TokenKind} (hkind : kind ≠ .endOfInput) : MakesProgress cursor (take kind) := by
  refine ⟨.ite (.pure _) (.reject _), fun token later h => ?_⟩
  by_cases hcurrent : cursor.current.kind = kind
  · cases (take_run hcurrent).symm.trans h
    exact Cursor.readsOn_advance (hcurrent ▸ hkind)
  · rw [take, currentKind_bind_run, if_neg hcurrent] at h
    cases h

/-- However many rounds are allowed beyond the number of tokens, a list is the same, and it comes to an end. -/
def GatheringEnds (item : ParseM (Item α)) : Prop :=
  ∀ cursor : Cursor, Ends cursor (gather item) ∧
    ∀ bound, cursor.rest.length < bound → gatherFor item bound cursor = gather item cursor

/-- However many rounds are allowed beyond the number of tokens, a loop does the same, and it comes to an end. -/
def LoopingEnds (round : σ → ParseM (Round σ α)) : Prop :=
  ∀ value (cursor : Cursor), Ends cursor (loop round value) ∧
    ∀ bound, cursor.rest.length < bound → loopFor round bound value cursor = loop round value cursor

theorem gatheringEnds {item : ParseM (Item α)} {Listing : List Token → Cursor → List α → Cursor → Prop}
    (h : ∀ tokens cursor, Yields (.bare tokens) cursor item (Item.Extends (Listing tokens) cursor)) :
    GatheringEnds item := by
  have hadvances : Advances item := by
    intro cursor value later hok
    exact ((h cursor.tokens cursor).of_ok cursor.among_tokens hok).2.2.1
  intro cursor
  refine ⟨.of_yields (.gather fun later _ => h cursor.tokens later) cursor.among_tokens, fun bound hbound => ?_⟩
  exact gatherFor_eq_of_lt hadvances hbound (Nat.lt_succ_self _)

theorem loopingEnds {round : σ → ParseM (Round σ α)} (hprogresses : Progresses round)
    (hround : ∀ value cursor, Ends cursor (round value)) : LoopingEnds round :=
  fun value _ => ⟨.loop hprogresses hround value, fun _ hbound =>
    loopFor_eq_of_lt hprogresses value hbound (Nat.lt_succ_self _)⟩

end Ends

/-! ### The parses of the language -/

namespace Grammar

open ParseM Outcome

variable {cursor : Cursor}

/-- The parses of the language have derivations wherever they start. -/
theorem nested_yield_bare (cursor : Cursor) : nested.Yield (.bare cursor.tokens) (cursor.rest.length + 1) :=
  nested_yield _ _

/-- A parse that moves on and reads usable tokens only makes progress. -/
theorem makesProgress_of_yields {α : Type} {parse : ParseM α} {before after : List TokenKind} {P : α → Cursor → Prop}
    (h : Yields (.bare cursor.tokens) cursor parse P)
    (hconsumes : ∀ value later, P value later → cursor.Consumes before later after)
    (hreads : ∀ value later, parse cursor = .ok value later → cursor.Reaches 1 later) : MakesProgress cursor parse := by
  refine ⟨.of_yields h cursor.among_tokens, fun value later hok => ?_⟩
  obtain ⟨-, -, hvalue⟩ := h.of_ok cursor.among_tokens hok
  exact (hconsumes value later hvalue).readsOn (hreads value later hok).length_le

theorem expression_makesProgress (power : Precedence) : MakesProgress cursor (nested.expression power) :=
  makesProgress_of_yields ((nested_yield_bare cursor).expression power cursor (Nat.lt_succ_self _))
    (fun _ _ h => h.balances []) fun _ _ => expression_reads

/-- A list of expressions makes progress even without an expression: what closes it is read. -/
theorem commaList_makesProgress {close : TokenKind} (hcloses : awaitedAfter [close] close = some [])
    (hclose : close.Usable) (trailingComma : Bool) : MakesProgress cursor (commaList nested close trailingComma) := by
  have hyields := commaList_yields (nested_yield_bare cursor) (Nat.lt_succ_self _) hclose trailingComma
  have htracks := commaList_tracks (nested_track (.moved id) (cursor.rest.length + 1)) (Nat.lt_succ_self _) hclose
    trailingComma
  refine ⟨.of_yields hyields cursor.among_tokens, fun nodes later hok => ?_⟩
  obtain ⟨-, -, middle, closing, hnodes, hclosing⟩ := hyields.of_ok cursor.among_tokens hok
  have hconsumes := (hnodes.balances [close]).trans (hclosing.turns hcloses)
  exact hconsumes.readsOn (htracks.reaches nodes later hok).length_le

theorem continueWith_makesProgress
    (hclosed : cursor.current.kind = .endOfInput → cursor.advance.current.kind = .endOfInput) (rule : Continuation)
    (left : Node) (power : Precedence) : MakesProgress cursor (continueWith nested rule left power) := by
  cases rule with
  | binary =>
    refine .advance_bind hclosed fun operator => ?_
    exact (expression_makesProgress power).bind_ok fun right later => ⟨_, rfl⟩
  | call =>
    rw [continueWith, callOf.eq_def]
    split
    · refine .advance_bind hclosed fun _ => ?_
      exact (commaList_makesProgress rfl (by decide) false).bind_ok fun arguments later => ⟨_, rfl⟩
    · refine ⟨fun error later h => ?_, fun value later h => ?_⟩
      · cases h
        exact nofun
      · cases h
  | index =>
    refine .advance_bind hclosed fun _ => ?_
    refine (expression_makesProgress .lowest).bind fun position later => ?_
    exact (take_makesProgress (by decide)).bind_ok fun _ later => ⟨_, rfl⟩

/-- The parses of the language make progress at a cursor: of a type, an expression, a statement, a block, and of what
continues an operand. -/
structure ProgressAt (cursor : Cursor) : Prop where
  type : MakesProgress cursor nested.type
  expression : ∀ power, MakesProgress cursor (nested.expression power)
  statement : MakesProgress cursor nested.statement
  block : MakesProgress cursor nested.block
  continuation : ∀ rule left power, MakesProgress cursor (continueWith nested rule left power)

theorem progressAt (hclosed : cursor.current.kind = .endOfInput → cursor.advance.current.kind = .endOfInput) :
    ProgressAt cursor where
  type := makesProgress_of_yields ((nested_yield_bare cursor).type cursor (Nat.lt_succ_self _))
    (fun _ _ h => h.balances []) ((nested_track (.moved id) _).type cursor (Nat.lt_succ_self _)).reaches
  expression := expression_makesProgress
  statement := makesProgress_of_yields ((nested_yield_bare cursor).statement cursor (Nat.lt_succ_self _))
    (fun _ _ h => h.2.balances []) fun _ _ => statement_reads
  block := makesProgress_of_yields ((nested_yield_bare cursor).block cursor (Nat.lt_succ_self _))
    (fun _ _ h => h.balances []) ((nested_track (.moved id) _).block cursor (Nat.lt_succ_self _)).reaches
  continuation := continueWith_makesProgress hclosed

/-- The repetitions of the grammar come to an end: the statements of a program and of a block, the members of a group,
the expressions of a list, the names of a parameter list and what continues an operand. -/
structure RepetitionsEnd (sub : Subparsers) : Prop where
  program : GatheringEnds (programItem sub)
  block : GatheringEnds (blockItem sub)
  group : ∀ constant, GatheringEnds (groupItem standard sub constant)
  list : ∀ close trailingComma, close.Usable → GatheringEnds (listItem sub close trailingComma)
  parameters : LoopingEnds (parameterRound sub)
  continuation : ∀ power, LoopingEnds (continueRound standard sub power)

/-- A round of a parameter list comes to an end, whatever names wait and whatever parameters there are. -/
theorem parameterRound_ends (state : List Token × List Parameter) (cursor : Cursor) :
    Ends cursor (parameterRound nested state) := by
  have type : ∀ cursor : Cursor, Ends cursor nested.type := fun cursor =>
    .of_yields ((nested_yield_bare cursor).type cursor (Nat.lt_succ_self _)) cursor.among_tokens
  obtain ⟨pending, parameters⟩ := state
  refine .ite (.pure _) (.bind (.takeOr _ rfl) fun name c₁ _ => .ite (.bind ?_ fun _ _ _ => .pure _) ?_)
  · refine .bind ?_ fun _ c₂ _ => .bind_advance (.bind (type _) fun element c₃ _ => ?_)
    · cases pending with
      | nil => exact .pure ()
      | cons waiting _ => exact .throw rfl
    · show Ends c₃ (dropComma >>= _)
      exact .bind (.ite (.pure _) (.pure _)) fun _ c₄ _ => .ite (.reject _) (.pure _)
  · refine .bind (.ite (.pure _) (.bind (type c₁) fun _ _ _ => .pure _)) fun state c₂ _ => ?_
    exact .ite (.pure _) (.pure _)

/-- A step after an operand comes to an end, whatever the operand is. -/
theorem continueRound_ends (power : Precedence) (left : Node) (cursor : Cursor) :
    Ends cursor (continueRound standard nested power left) := by
  have step : ∀ nextPower rule, standard.continuation cursor.current.kind = some (nextPower, rule) →
      Ends cursor (continueWith nested rule left nextPower) := by
    intro nextPower rule hentry
    refine (continueWith_makesProgress (fun hend => ?_) rule left nextPower).ends
    rw [hend] at hentry
    cases hentry
  refine .bind (.pure _) fun kind later hkind => ?_
  cases hkind
  split
  · next nextPower rule hentry => exact .ite (.bind (step nextPower rule hentry) fun _ _ _ => .pure _) (.pure _)
  · exact .pure _

theorem nested_repetitionsEnd : RepetitionsEnd nested where
  program := gatheringEnds fun _ _ => programItem_yields
  block := gatheringEnds fun _ _ => blockItem_yields (nested_yield _ _) (Nat.lt_succ_self _)
  group constant := gatheringEnds fun _ _ => groupItem_yields (nested_yield _ _) (Nat.le_refl _) constant
  list close trailingComma _ := gatheringEnds fun _ _ =>
    listItem_yields (nested_yield _ _) (Nat.lt_succ_self _) close trailingComma
  parameters := loopingEnds parameterRound_progresses parameterRound_ends
  continuation power := loopingEnds (continueRound_progresses power) (continueRound_ends power)

/-- However many levels of nesting are allowed beyond the bound, a program is the same. -/
theorem program_subparsers {depth : Nat} (hdepth : depthBound cursor ≤ depth) :
    program (standard.subparsers depth) cursor = standard.parseProgram cursor := by
  have hlevels : 2 * (cursor.rest.length + 1) ≤ depth := (depthBound_ge cursor).trans hdepth
  have hfollows : Follows id cursor 0 (program (standard.subparsers depth)) (program nested) :=
    program_tracks (subparsers_track_nested _ hlevels) fun _ _ => rfl
  rw [parseProgram_eq, hfollows.eq_of_id]

end Grammar

/-- **A parse makes progress and comes to an end on every text.**  The scan gives the tokens of the text one after the
other, and then the end of the input; and after any number of steps the parse has the next two of them in sight.
Wherever in the text a type, an expression, a statement, a block or what continues an operand is read with success, at
least one token has been read and no end of the input.  So all repetitions come to an end, with any bound above the
number of tokens that are left, and so does the whole parse, with any bound on the nesting that is large enough. -/
theorem parse_progresses (source file : String) :
    (∀ n, (Scanner.ofSource source file).pulled n = some (tokenAt source file n)) ∧
    (∀ ends n, let cursor := Cursor.advance^[n] ((Cursor.ofSource source file).withEnds ends)
      cursor.current = tokenAt source file n ∧ cursor.next = tokenAt source file (n + 1) ∧
        Grammar.ProgressAt cursor) ∧
    Grammar.RepetitionsEnd Grammar.nested ∧
    (∀ depth, let cursor := Cursor.ofSource source file
      Grammar.depthBound cursor ≤ depth →
        Grammar.program (Grammar.standard.subparsers depth) cursor = Grammar.standard.parseProgram cursor) ∧
    ∀ error, parse source file = .error error → error.cause ≠ .endlessRule := by
  refine ⟨Scanner.pulled_ofSource source file, fun ends n => ?_, Grammar.nested_repetitionsEnd,
    fun depth => Grammar.program_subparsers, fun error herror => ?_⟩
  · obtain ⟨hcurrent, hnext⟩ := Cursor.window_ofSource source file ends n
    refine ⟨hcurrent, hnext, Grammar.progressAt fun hend => ?_⟩
    rw [hcurrent] at hend
    exact (congrArg Token.kind hnext).trans (kind_tokenAt_succ hend)
  · exact Cause.ne_endlessRule (inText_of_parse_error herror)

/-- A call whose parenthesis ends the text is read up to the first of two ends of the input, which stays unread. -/
theorem parse_progresses_call : ∃ node later,
    Grammar.continueWith Grammar.nested .call (.identifier "f" default) .call
        (Cursor.advance^[1] ((Cursor.ofSource "f(x)" "shell").withEnds 2)) = .ok node later ∧
      (Cursor.advance^[1] ((Cursor.ofSource "f(x)" "shell").withEnds 2)).ReadsOn later ∧
      later.rest.map Token.kind = [.endOfInput, .endOfInput] := by
  have hcall : ∃ node later, Grammar.continueWith Grammar.nested .call (.identifier "f" default) .call
      (Cursor.advance^[1] ((Cursor.ofSource "f(x)" "shell").withEnds 2)) = .ok node later ∧
      later.rest.map Token.kind = [.endOfInput, .endOfInput] := ⟨_, _, by rfl, by rfl⟩
  obtain ⟨node, later, hok, hrest⟩ := hcall
  obtain ⟨-, -, hprogress⟩ := (parse_progresses "f(x)" "shell").2.1 2 1
  exact ⟨node, later, hok, (hprogress.continuation .call _ .call).reads node later hok, hrest⟩

end GoScript
