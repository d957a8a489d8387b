import GoScript.Proofs.Derivability
import GoScript.Proofs.Places

/-!
# Accepted texts, and tokens to blame

A text with a program in it is read to the end, and the derivation of its statements says how.  An error in a text is a
complaint about one of its tokens.

* `accepted_tokens` — the tokens of a text with a program in it
* `error_at_token` — every error in a text is at one of its tokens
-/

namespace GoScript

open ParseM

namespace Grammar

variable {sub : Subparsers} {cursor : Cursor}

/-- The statements of a program go on for as long as anything is left. -/
theorem hasMore_of_gatherFor {bound : Nat} {body : List Node} {later : Cursor}
    (h : gatherFor (programItem sub) bound cursor = .ok body later) : later.hasMore = false := by
  induction bound generalizing cursor body with
  | zero => cases h
  | succ bound ih =>
    obtain ⟨item, middle, hitem, hrest⟩ := Outcome.ok_of_bind h
    rw [programItem_run] at hitem
    by_cases hmore : cursor.dropSemicolons.hasMore = true
    · rw [if_pos hmore] at hitem
      obtain ⟨statement, _, _, hpure⟩ := Outcome.ok_of_bind hitem
      cases hpure
      obtain ⟨others, _, hothers, hpure⟩ := Outcome.ok_of_bind hrest
      cases hpure
      exact ih hothers
    · rw [if_neg hmore] at hitem
      cases hitem
      cases hrest
      simpa using hmore

theorem hasMore_of_parseProgram {program : Program} {later : Cursor}
    (h : standard.parseProgram cursor = .ok program later) : later.hasMore = false := by
  have hrun : Grammar.program (standard.subparsers (depthBound cursor)) cursor = .ok program later := h
  obtain ⟨body, middle, hgather, hpure⟩ := Outcome.ok_of_bind hrun
  cases hpure
  exact hasMore_of_gatherFor hgather

end Grammar

/-! ### Texts -/

section Texts

variable {source file : String}

theorem Cursor.among_tokensOf (source file : String) : (Cursor.ofSource source file).Among (tokensOf source file) :=
  Cursor.among_tokens _

/-- What is known of the parse of a text. -/
theorem parse_yields (source file : String) :
    Yields (.bare (tokensOf source file)) (Cursor.ofSource source file) Grammar.standard.parseProgram
      fun program later => Derives (.bare (tokensOf source file)) .statements (Cursor.ofSource source file)
        program.body later ∧ program.span = later.spanSince ⟨0, later.finish.file⟩ :=
  Grammar.parseProgram_yields _ _

theorem file_of_mem_tokensOf {token : Token} (h : token ∈ tokensOf source file) : token.span.start.file = file := by
  cases List.mem_append.1 h with
  | inl hscan =>
    obtain ⟨-, ⟨offset, -, hstart⟩, -⟩ := bounds_of_mem_scan hscan
    rw [hstart]
  | inr hend =>
    rw [List.mem_singleton.1 hend]
    rfl

/-- Reading all tokens of a text leaves nothing but the end of the input. -/
theorem Cursor.Reads.tokensOf_eq {read : List Token} {later : Cursor}
    (h : (Cursor.ofSource source file).Reads read later) (hmore : later.hasMore = false) :
    tokensOf source file = read ++ [later.current] := by
  have hrest : later.rest = [] := by
    cases hcons : later.rest with
    | nil => rfl
    | cons token rest =>
      have htoken : token ∈ scan file source.toList := by
        show token ∈ (Cursor.ofSource source file).rest
        simp [h.rest_eq, hcons]
      have hkind := (bounds_of_mem_scan htoken).1
      simp [Cursor.hasMore, Cursor.current, hcons, hkind] at hmore
  have hread : scan file source.toList = read ++ later.rest := h.rest_eq
  have hfinish : later.finish = endPosition file source.toList := h.finish_eq
  rw [tokensOf, hread, hrest, List.append_nil, Cursor.current_of_nil hrest, hfinish]

theorem run_of_parse {program : Program} (h : parse source file = .ok program) :
    ∃ later, Grammar.standard.parseProgram (Cursor.ofSource source file) = .ok program later := by
  rw [parse] at h
  split at h
  · next later hrun =>
    cases h
    exact ⟨later, hrun⟩
  · cases h

/-- **Only texts with balanced brackets and usable tokens are accepted, and they are read to the end.**  A parse that
succeeds stands at the end of the input and has read every other token once. -/
theorem accepted_tokens {program : Program} (h : parse source file = .ok program) :
    (∀ token ∈ tokensOf source file, token.kind ≠ .illegal ∧ token.kind ≠ .colon) ∧
      Balanced ((tokensOf source file).map Token.kind) ∧
      ∃ read later, Grammar.standard.parseProgram (Cursor.ofSource source file) = .ok program later ∧
        (Cursor.ofSource source file).Reads read later ∧ later.current.kind = .endOfInput ∧
        tokensOf source file = read ++ [later.current] := by
  obtain ⟨later, hrun⟩ := run_of_parse h
  obtain ⟨-, -, hderives, -⟩ := (parse_yields source file).of_ok (Cursor.among_tokensOf source file) hrun
  obtain ⟨read, hreads, husable, hawaited⟩ := hderives.balances []
  have hmore := Grammar.hasMore_of_parseProgram hrun
  have hkind : later.current.kind = .endOfInput := by simpa [Cursor.hasMore] using hmore
  have htokens := hreads.tokensOf_eq hmore
  refine ⟨?_, ?_, read, later, hrun, hreads, hkind, htokens⟩
  · intro token htoken
    rw [htokens] at htoken
    cases List.mem_append.1 htoken with
    | inl hread => exact (husable token hread).2
    | inr hend =>
      rw [List.mem_singleton.1 hend, hkind]
      decide
  · -- the end of the input opens and closes nothing
    rw [Balanced, htokens, List.map_append, List.foldlM_append, hawaited, List.map_singleton, hkind]
    rfl

theorem accepted_tokens_brackets : ∃ program,
    parse "if (a) \x7b b = [2][]int\x7b[1], c[0]\x7d \x7d;" "shell" = .ok program ∧
      ∃ read later, Grammar.standard.parseProgram
          (Cursor.ofSource "if (a) \x7b b = [2][]int\x7b[1], c[0]\x7d \x7d;" "shell") = .ok program later ∧
        (Cursor.ofSource "if (a) \x7b b = [2][]int\x7b[1], c[0]\x7d \x7d;" "shell").Reads read later ∧
        later.current.kind = .endOfInput ∧
        tokensOf "if (a) \x7b b = [2][]int\x7b[1], c[0]\x7d \x7d;" "shell" = read ++ [later.current] := by
  have h : ∃ program, parse "if (a) \x7b b = [2][]int\x7b[1], c[0]\x7d \x7d;" "shell" = .ok program := ⟨_, by rfl⟩
  obtain ⟨program, h⟩ := h
  exact ⟨program, h, (accepted_tokens h).2.2⟩

example : ¬ Balanced ((tokensOf "a = [(1]);" "shell").map Token.kind) ∧
    (parse "a = [(1]);" "shell").isOk = false := by
  decide +kernel

/-- The error is reported where a token of the text starts, the end of the input included. -/
def Error.AtToken (source file : String) (error : Error) : Prop :=
  ∃ token ∈ tokensOf source file, error.position.offset = token.span.start.offset ∧ error.position.file = file

theorem Error.atToken_of_start {error : Error}
    (h : ∃ token ∈ tokensOf source file, error.position = token.span.start) : error.AtToken source file := by
  obtain ⟨token, htoken, hposition⟩ := h
  refine ⟨token, htoken, ?_, ?_⟩
  · rw [hposition]
  · rw [hposition, file_of_mem_tokensOf htoken]

theorem anchored_of_parse {program : Program} (h : parse source file = .ok program) :
    ∀ statement ∈ program.body, statement.Anchored (tokensOf source file) := by
  obtain ⟨later, hrun⟩ := run_of_parse h
  obtain ⟨-, -, hderives, -⟩ := (parse_yields source file).of_ok (Cursor.among_tokensOf source file) hrun
  exact hderives.anchored

theorem complaint_of_parse_error {error : Error} (h : parse source file = .error error) :
    Complaint (tokensOf source file) error := by
  rw [parse] at h
  split at h
  · cases h
  · next later hrun =>
    cases h
    exact (parse_yields source file).of_error (Cursor.among_tokensOf source file) hrun

/-- **Every error of a parse lies in the text**: the rules of the language never go on without end. -/
theorem inText_of_parse_error {error : Error} (h : parse source file = .error error) : error.cause.inText = true :=
  (complaint_of_parse_error h).inText

theorem cause_of_resource {cause : Cause} (h : cause.category = .resource) : ∃ message, cause = .io message := by
  cases cause <;> cases h
  exact ⟨_, rfl⟩

/-- **Every error is at a token of the text**: every error of its parse, and every error of an emission of its program
that is not a failure of the sink. -/
theorem error_at_token (source file : String) :
    (∀ error, parse source file = .error error → error.AtToken source file) ∧
      ∀ program, parse source file = .ok program → ∀ sink options error after,
        emitInto program sink options = (.error error, after) → (∀ message, error.cause ≠ .io message) →
        error.AtToken source file := by
  constructor
  · intro error h
    exact Error.atToken_of_start (complaint_of_parse_error h).position
  · intro program h sink options error after hemit hcause
    cases emitInto_blamed (anchored_of_parse h) hemit with
    | inl hresource =>
      obtain ⟨message, hio⟩ := cause_of_resource hresource
      exact absurd hio (hcause message)
    | inr hstart =>
      obtain ⟨token, htoken, -, hposition⟩ := hstart
      exact Error.atToken_of_start ⟨token, htoken, hposition.symm⟩

theorem error_at_token_undeclared :
    (∃ error, parse "f(1, @)" "shell" = .error error ∧ error.AtToken "f(1, @)" "shell") ∧
      ∃ program error after, parse "y := 1; x = y" "shell" = .ok program ∧
        emitInto program ⟨ByteArray.empty, none, false⟩ {} = (.error error, after) ∧
        error.cause = .undeclared "x" ∧ error.AtToken "y := 1; x = y" "shell" := by
  have hparse : ∃ error, parse "f(1, @)" "shell" = .error error := ⟨_, by rfl⟩
  have hemit : ∃ program after, parse "y := 1; x = y" "shell" = .ok program ∧
      emitInto program ⟨ByteArray.empty, none, false⟩ {} = (.error ⟨.undeclared "x", ⟨8, "shell"⟩⟩, after) :=
    ⟨_, _, by rfl, by rfl⟩
  obtain ⟨error, herror⟩ := hparse
  obtain ⟨program, after, hprogram, hafter⟩ := hemit
  refine ⟨⟨error, herror, (error_at_token _ _).1 error herror⟩, program, _, after, hprogram, hafter, rfl, ?_⟩
  exact (error_at_token _ _).2 program hprogram _ _ _ after hafter (by simp)

end Texts

end GoScript
