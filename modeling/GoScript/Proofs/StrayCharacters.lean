import GoScript.Proofs.Acceptance
import Mathlib.Data.List.Nodup

/-!
# Stray characters

A character that starts no token is a token of its own, of a kind that no rule accepts.  A colon is a token that no rule
accepts either.  So a parse does the same if colons stand in the place of the stray characters, up to what it says about
the token that it stops at.

* `Token.tamed`, `Cursor.tamed`, `View.tamed` — colons in the place of stray characters
* `Alike` — two errors that differ only in what they say about a stray character
* `stray_character_cause` — what is said about a stray character
-/

namespace GoScript

/-! ### Colons in the place of stray characters -/

/-- The kind that a token has once stray characters are taken for colons. -/
def TokenKind.tamed : TokenKind → TokenKind
  | illegal => colon
  | kind => kind

theorem TokenKind.tamed_beq {other : TokenKind} (hillegal : other ≠ .illegal) (hcolon : other ≠ .colon)
    (kind : TokenKind) : (kind.tamed == other) = (kind == other) := by
  cases kind
  case illegal => rw [tamed, beq_eq_false_iff_ne.mpr hcolon.symm, beq_eq_false_iff_ne.mpr hillegal.symm]
  all_goals rfl

/-- The token, a colon if it is a stray character. -/
def Token.tamed (token : Token) : Token :=
  { token with kind := token.kind.tamed }

theorem Token.seenAs_tamed (token : Token) : token.seenAs id true = token.tamed := by
  obtain ⟨kind, value, span⟩ := token
  cases kind <;> rfl

namespace Cursor

/-- The cursor with colons in the place of stray characters. -/
def tamed (cursor : Cursor) : Cursor :=
  { cursor with rest := cursor.rest.map Token.tamed }

variable (cursor : Cursor)

theorem length_rest_tamed : cursor.tamed.rest.length = cursor.rest.length :=
  List.length_map _

theorem current_tamed : cursor.tamed.current = cursor.current.seenAs id true := by
  rw [Token.seenAs_tamed]
  obtain ⟨rest, finish⟩ := cursor
  cases rest <;> rfl

theorem advance_tamed : cursor.tamed.advance = cursor.advance.tamed := by
  simp [tamed, advance]

theorem dropSemicolons_tamed : cursor.tamed.dropSemicolons = cursor.dropSemicolons.tamed := by
  have hkind : (fun token : Token => token.tamed.kind == .semicolon) = fun token => token.kind == .semicolon :=
    funext fun token => TokenKind.tamed_beq (by decide) (by decide) token.kind
  simp only [tamed, dropSemicolons, List.dropWhile_map]
  exact congrArg (fun test => Cursor.mk ((cursor.rest.dropWhile test).map Token.tamed) cursor.finish) hkind

end Cursor

/-- **Errors that differ only in what they say about a stray character**: they are the same, or one token does not fit,
and is called a stray character in the first and a colon in the second. -/
inductive Alike : Error → Error → Prop
  | same {error : Error} : Alike error error
  | misfit (cursor : Cursor) {message? : Option String} : (∀ message ∈ message?, message ∉ nameMessages) →
    Alike (cursor.misfit message?) (cursor.tamed.misfit message?)

theorem Alike.of_relocate_id (error : Error) : Alike error (error.relocate id) :=
  .same

/-- The view in which colons stand in the place of stray characters. -/
def View.tamed : View :=
  .strict Cursor.tamed id true (fun error _ error' _ => Alike error error') Cursor.length_rest_tamed
    Cursor.current_tamed Cursor.advance_tamed Cursor.dropSemicolons_tamed (fun cursor _ h => .misfit cursor h)
    fun error _ => .of_relocate_id error

/-- **A program is parsed alike.** -/
theorem Grammar.parseProgram_tamed (cursor : Cursor) :
    Tracks .tamed (fun _ => False) cursor 0 standard.parseProgram standard.parseProgram := by
  rw [parseProgram_eq]
  exact program_tracks (nested_track .tamed _) fun _ _ => rfl

/-! ### Texts -/

section Texts

variable {source file : String} {error : Error}

/-- The parse of a text and that of the text with colons in the place of stray characters fail together. -/
theorem alike_of_parse_error (h : parse source file = .error error) : ∃ error' later',
    Grammar.standard.parseProgram (Cursor.ofSource source file).tamed = .error error' later' ∧ Alike error error' := by
  rw [parse] at h
  split at h
  · cases h
  · next later hrun =>
    cases h
    exact (Grammar.parseProgram_tamed _).error trivial trivial _ later hrun

/-- Tokens start one after the other. -/
theorem starts_increase (hsize : source.utf8ByteSize < UInt32.size) (file : String) :
    (tokensOf source file).Pairwise fun earlier later => earlier.start < later.start := by
  have hcovers : Covers source file 0 (scan file source.toList) :=
    (covering_lexemes file source.toList 0).covers hsize [] rfl rfl
  have hfinish : (Token.endOfInput (endPosition file source.toList)).start = source.utf8ByteSize := by
    show (UInt32.ofNat (Text.byteSize source.toList)).toNat = _
    rw [byteSize_toList]
    exact UInt32.toNat_ofNat_of_lt' hsize
  refine List.pairwise_append.2 ⟨?_, List.pairwise_singleton _ _, ?_⟩
  · refine hcovers.ordered.imp_of_mem fun {earlier later} hearlier _ hordered => ?_
    have := (hcovers.spans earlier hearlier).start_lt_stop
    omega
  · intro token htoken last hlast
    rw [List.mem_singleton.1 hlast, hfinish]
    have hlt := (hcovers.spans token htoken).start_lt_stop
    have hle : token.stop ≤ source.utf8ByteSize := (hcovers.spans token htoken).isValid_stop.le_utf8ByteSize
    omega

/-- A token is known by its start. -/
theorem eq_of_start (hsize : source.utf8ByteSize < UInt32.size) {token other : Token}
    (htoken : token ∈ tokensOf source file) (hother : other ∈ tokensOf source file)
    (hstart : token.span.start = other.span.start) : token = other := by
  have hnodup : ((tokensOf source file).map Token.start).Nodup :=
    List.pairwise_map.2 ((starts_increase hsize file).imp fun h => Nat.ne_of_lt h)
  refine List.inj_on_of_nodup_map hnodup htoken hother ?_
  rw [Token.start, hstart, Token.start]

/-- With colons in the place of stray characters, the parse stops for want of a name. -/
def Cursor.WantsName (cursor : Cursor) : Prop :=
  ∃ message ∈ nameMessages, ∃ value position later,
    Grammar.standard.parseProgram cursor.tamed = .error ⟨.misplacedToken value message, position⟩ later

/-- A token that does not fit is not reported for want of a name. -/
theorem Cursor.misfit_ne_misplaced {cursor : Cursor} {message? : Option String}
    (hmessage : ∀ message ∈ message?, message ∉ nameMessages) {message : String} (hname : message ∈ nameMessages)
    (value : String) : (cursor.misfit message?).cause ≠ .misplacedToken value message := by
  simp only [misfit]
  intro hcause
  split at hcause
  · cases hcause
  · cases message? with
    | none => cases hcause
    | some other =>
      cases hcause
      exact hmessage _ rfl hname

/-- **A name is wanted** if and only if the error for the text as it is says so. -/
theorem wantsName_iff (h : parse source file = .error error) : (Cursor.ofSource source file).WantsName ↔
    ∃ message ∈ nameMessages, ∃ value, error.cause = .misplacedToken value message := by
  obtain ⟨error', later', hrun, halike⟩ := alike_of_parse_error h
  rw [Cursor.WantsName, hrun]
  cases halike with
  | same =>
    constructor
    · rintro ⟨message, hmessage, value, position, later, hsame⟩
      cases hsame
      exact ⟨message, hmessage, value, rfl⟩
    · rintro ⟨message, hmessage, value, hcause⟩
      exact ⟨message, hmessage, value, error.position, later', by rw [← hcause]⟩
  | misfit cursor hother =>
    constructor
    · rintro ⟨message, hmessage, value, position, later, hsame⟩
      injection hsame with herror
      exact absurd (congrArg Error.cause herror) (Cursor.misfit_ne_misplaced hother hmessage value)
    · rintro ⟨message, hmessage, value, hcause⟩
      exact absurd hcause (Cursor.misfit_ne_misplaced hother hmessage value)

/-- An error at a stray character is about that character: it is not recognised, or it stands where a name belongs. -/
theorem cause_at_stray {token : Token} (hsize : source.utf8ByteSize < UInt32.size)
    (h : parse source file = .error error) (htoken : token ∈ tokensOf source file) (hkind : token.kind = .illegal)
    (hposition : error.position = token.span.start) :
    error.cause = .unrecognisedToken token.value ∨
      ∃ message ∈ nameMessages, error.cause = .misplacedToken token.value message := by
  have hcomplaint := complaint_of_parse_error h
  cases hcomplaint with
  | read hstart _ =>
    obtain ⟨other, hother, husable, hstart⟩ := hstart
    cases eq_of_start hsize hother htoken (hstart.trans hposition)
    exact absurd hkind husable.2.1
  | @misfit cursor message? hcursor =>
    cases eq_of_start hsize hcursor.current htoken hposition
    left
    simp only [Cursor.misfit]
    rw [if_pos hkind]
  | @misplaced cursor message hmessage hcursor =>
    cases eq_of_start hsize hcursor.current htoken hposition
    exact .inr ⟨message, hmessage, rfl⟩

/-- **Stray characters are reported as such, unless a name is missing.**  An error at a stray character says that it is
not recognised and what it is, which is a lexical error, if and only if a colon in its place would not be reported for
want of a name.  Otherwise the error says that a name was expected. -/
theorem stray_character_cause {token : Token} (hsize : source.utf8ByteSize < UInt32.size)
    (h : parse source file = .error error) (htoken : token ∈ tokensOf source file) (hkind : token.kind = .illegal)
    (hposition : error.position = token.span.start) :
    (error.cause = .unrecognisedToken token.value ∧ error.cause.category = .lexical ↔
        ¬ (Cursor.ofSource source file).WantsName) ∧
      ((Cursor.ofSource source file).WantsName ↔
        ∃ message ∈ nameMessages, error.cause = .misplacedToken token.value message) := by
  rw [wantsName_iff h]
  rcases cause_at_stray hsize h htoken hkind hposition with hcause | ⟨message, hmessage, hcause⟩
  · rw [hcause]
    simp [Cause.category]
  · rw [hcause]
    refine ⟨iff_of_false nofun fun hnot => hnot ⟨message, hmessage, _, rfl⟩, iff_of_true ?_ ?_⟩
    · exact ⟨message, hmessage, _, rfl⟩
    · exact ⟨message, hmessage, rfl⟩

/-- A stray character where an operand belongs, and one where a parameter does. -/
theorem stray_character_cause_operand :
    (parse "x := @" "shell" = .error ⟨.unrecognisedToken "@", ⟨5, "shell"⟩⟩ ∧
        ¬ (Cursor.ofSource "x := @" "shell").WantsName) ∧
      parse "func f(@" "shell" = .error ⟨.misplacedToken "@" "expected parameter name", ⟨7, "shell"⟩⟩ ∧
        (Cursor.ofSource "func f(@" "shell").WantsName := by
  have hoperand : parse "x := @" "shell" = .error ⟨.unrecognisedToken "@", ⟨5, "shell"⟩⟩ := by rfl
  have hparameter : parse "func f(@" "shell" =
      .error ⟨.misplacedToken "@" "expected parameter name", ⟨7, "shell"⟩⟩ := by rfl
  have hfirst : (⟨.illegal, "@", Span.ofBytes "shell" 5 1⟩ : Token) ∈ tokensOf "x := @" "shell" := by decide
  have hsecond : (⟨.illegal, "@", Span.ofBytes "shell" 7 1⟩ : Token) ∈ tokensOf "func f(@" "shell" := by decide
  refine ⟨⟨hoperand, ?_⟩, hparameter, ?_⟩
  · exact (stray_character_cause (by decide) hoperand hfirst rfl rfl).1.mp ⟨rfl, rfl⟩
  · exact (stray_character_cause (by decide) hparameter hsecond rfl rfl).2.mpr ⟨_, by decide, rfl⟩

/-- In the place of a declared name a stray character is not reported as one. -/
theorem stray_character_as_name :
    (⟨.illegal, "@", Span.ofBytes "shell" 4 1⟩ : Token) ∈ tokensOf "var @" "shell" ∧
      parse "var @" "shell" =
        .error ⟨.misplacedToken "@" "expected identifier during variable declaration", ⟨4, "shell"⟩⟩ := by
  exact ⟨by decide, by rfl⟩

end Texts

end GoScript
