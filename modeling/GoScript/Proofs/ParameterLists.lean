import GoScript.Proofs.Rereading
import GoScript.Proofs.Lookahead

/-!
# Parameter lists

In a parameter list a type may stand behind several names and is then the type of them all.  The list is read name by
name: a name without a type waits, and the next type goes to all names that wait.  So every name gets the type of its
group, in the order in which the names are written, and a name that is still waiting at the end, or in front of a
variadic parameter, is an error.

* `WrittenType`, `ParameterGroup`, `VariadicText`, `ParameterText` — a parameter list as it is written
* `CommaSeparated` — entries with commas between them and perhaps one behind them
* `ParameterEntry` — a name with or without a type; `ParameterEntry.add` — what it adds to the names that wait and to
  the parameters that have a type
* `loop_entry`, `loop_entries` — one round of the list, and all rounds in front of a variadic parameter
* `parameterList_written` — what is read from a parameter list
-/

namespace GoScript

open ParseM Outcome Grammar

/-! ### Parameter lists as they are written -/

/-- The name of a parameter. -/
abbrev NameToken := { token : Token // token.kind = .identifier }

/-- Tokens that are read as a type to their end, wherever the input ends behind them. -/
structure WrittenType where
  tokens : List Token
  type : GoType
  reads : ∀ finish, standard.parseType .any ⟨tokens, finish⟩ = .ok type ⟨[], finish⟩

/-- Names with one type behind the last of them. -/
structure ParameterGroup where
  earlier : List NameToken
  last : NameToken
  type : WrittenType

/-- A variadic parameter: a name, `...` and the type of the arguments that it collects. -/
structure VariadicText where
  name : NameToken
  ellipsis : { token : Token // token.kind = .ellipsis }
  element : WrittenType

/-- A parameter list: groups of names, then names without a type, and perhaps a variadic parameter at the end. -/
structure ParameterText where
  groups : List ParameterGroup
  untyped : List NameToken
  variadic : Option VariadicText

/-- Entries with a comma between each two of them.  There may be a comma behind the last one. -/
inductive CommaSeparated : List (List Token) → List Token → Prop
  | none : CommaSeparated [] []
  | last (entry : List Token) : CommaSeparated [entry] entry
  | comma {entry tokens : List Token} {others : List (List Token)} {comma : Token} : comma.kind = .comma →
    CommaSeparated others tokens → CommaSeparated (entry :: others) (entry ++ comma :: tokens)

/-- A parameter without its place: its name, its type and whether it is variadic. -/
def Parameter.shape (parameter : Parameter) : String × GoType × Bool :=
  (parameter.name, parameter.type, parameter.variadic)

/-- A name in a parameter list, with the type behind it if there is one. -/
structure ParameterEntry where
  name : NameToken
  type? : Option WrittenType

namespace ParameterEntry

def tokens (entry : ParameterEntry) : List Token :=
  entry.name.val :: (entry.type?.map WrittenType.tokens).getD []

/-- The names that wait for a type and the parameters that have one, after one more entry. -/
def add (state : List Token × List (String × GoType × Bool)) (entry : ParameterEntry) :
    List Token × List (String × GoType × Bool) :=
  match entry.type? with
  | none => (state.1 ++ [entry.name.val], state.2)
  | some written => ([], state.2 ++ (state.1 ++ [entry.name.val]).map (·.value, written.type, false))

end ParameterEntry

namespace ParameterGroup

def entries (group : ParameterGroup) : List ParameterEntry :=
  group.earlier.map (⟨·, none⟩) ++ [⟨group.last, some group.type⟩]

/-- One parameter for each name, with the type of the group. -/
def parameters (group : ParameterGroup) : List (String × GoType × Bool) :=
  (group.earlier ++ [group.last]).map (·.val.value, group.type.type, false)

end ParameterGroup

namespace VariadicText

def tokens (variadic : VariadicText) : List Token :=
  variadic.name.val :: variadic.ellipsis.val :: variadic.element.tokens

/-- The parameter that collects the arguments. -/
def parameter (variadic : VariadicText) : String × GoType × Bool :=
  (variadic.name.val.value, .array variadic.element.type, true)

end VariadicText

namespace ParameterText

/-- The entries in front of a variadic parameter. -/
def plain (text : ParameterText) : List ParameterEntry :=
  text.groups.flatMap ParameterGroup.entries ++ text.untyped.map (⟨·, none⟩)

/-- The tokens are those of the list, with commas between the entries and perhaps one behind them. -/
def Spells (text : ParameterText) (tokens : List Token) : Prop :=
  CommaSeparated (text.plain.map ParameterEntry.tokens ++ text.variadic.toList.map VariadicText.tokens) tokens

/-- One parameter for each name that has a type, in the order in which they are written. -/
def parameters (text : ParameterText) : List (String × GoType × Bool) :=
  text.groups.flatMap ParameterGroup.parameters ++ text.variadic.toList.map VariadicText.parameter

end ParameterText

/-! ### Types -/

namespace WrittenType

variable (written : WrittenType)

/-- A type starts with a token that can start one. -/
theorem type_current (more : Cursor) :
    standard.type (Cursor.mk (written.tokens ++ more.rest) more.finish).current.kind ≠ none := by
  have hread : nested.type ⟨written.tokens, default⟩ = .ok written.type ⟨[], default⟩ := written.reads default
  have hstart : standard.type (Cursor.mk written.tokens default).current.kind ≠ none := by
    intro hnone
    rw [nested_type] at hread
    obtain ⟨token, middle, hcurrent, hread⟩ := ok_of_bind hread
    cases hcurrent
    rw [hnone] at hread
    dsimp only at hread
    split at hread <;> cases hread
  cases htokens : written.tokens with
  | nil =>
    rw [htokens] at hstart
    exact absurd rfl hstart
  | cons first rest => rwa [htokens] at hstart

/-- A type is read in front of any other tokens. -/
theorem type_run (more : Cursor) :
    nested.type ⟨written.tokens ++ more.rest, more.finish⟩ = .ok written.type more :=
  ((nested_track (.followedBy more) _).type ⟨written.tokens, more.position⟩ (Nat.lt_succ_self _)).followed_of_nil rfl
    (written.reads more.position) rfl trivial

end WrittenType

/-! ### One round -/

theorem takeOr_reads {kind : TokenKind} (hkind : kind.Usable) {error : Error} {cursor later : Cursor} {token : Token}
    (h : takeOr kind error cursor = .ok token later) : cursor.Reaches 1 later := by
  have htracks : Follows id cursor 1 (takeOr kind error) _ := .takeOr hkind error
  exact htracks.reaches token later h

theorem parameterRound_progresses : Progresses (parameterRound nested) := by
  rintro ⟨pending, parameters⟩ cursor next later h
  change (if cursor.current.kind = .closeParen then pure (.done (pending, parameters)) else _ :
    ParseM (Round _ _)) cursor = _ at h
  split at h
  · cases h
  · obtain ⟨name, middle, htake, hname⟩ := ok_of_bind h
    have hread := (takeOr_reads (by decide) htake).length_le
    change (if middle.current.kind = .ellipsis then _ else _ : ParseM (Round _ _)) middle = _ at hname
    split at hname
    · obtain ⟨_, _, _, hpure⟩ := ok_of_bind hname
      cases hpure
    · obtain ⟨state, last, hplain, hstate⟩ := ok_of_bind hname
      have hfollows : Follows id middle 0 (plainParameter nested name pending parameters) _ :=
        plainParameter_tracks (nested_track _ _) (Nat.lt_succ_self _) name pending parameters
      have hlast := (hfollows.reaches state last hplain).length_le
      change (if last.current.kind ≠ .comma then _ else _ : ParseM (Round _ _)) last = _ at hstate
      split at hstate
      · cases hstate
      · cases hstate
        have hadvance : last.advance.rest.length ≤ last.rest.length := by simp [Cursor.advance]
        omega

/-- A name and the type behind it, if there is one, in front of a comma or the closing parenthesis. -/
theorem plainParameter_entry (entry : ParameterEntry) (pending : List Token) (parameters : List Parameter)
    (more : Cursor) : ∃ parameters',
    parameters'.map Parameter.shape = (entry.add (pending, parameters.map Parameter.shape)).2 ∧
      (more.current.kind = .comma ∨ more.current.kind = .closeParen →
        plainParameter nested entry.name.val pending parameters
          ⟨(entry.type?.map WrittenType.tokens).getD [] ++ more.rest, more.finish⟩ =
            .ok ((entry.add (pending, parameters.map Parameter.shape)).1, parameters') more) := by
  obtain ⟨name, type?⟩ := entry
  cases type? with
  | none =>
    refine ⟨parameters, rfl, fun hmore => ?_⟩
    rw [plainParameter, Option.map_none, Option.getD_none, List.nil_append, currentKind_bind_run, if_pos hmore]
    rfl
  | some written =>
    refine ⟨parameters ++ typedParameters pending name.val written.type (more.spanSince name.val.span.start), ?_,
      fun _ => ?_⟩
    · simp [ParameterEntry.add, typedParameters, Parameter.shape]
    · have hkind : ¬ ((Cursor.mk (written.tokens ++ more.rest) more.finish).current.kind = .comma ∨
          (Cursor.mk (written.tokens ++ more.rest) more.finish).current.kind = .closeParen) := by
        rintro (hkind | hkind) <;> exact written.type_current more (by rw [hkind]; rfl)
      rw [plainParameter, Option.map_some, Option.getD_some, currentKind_bind_run, if_neg hkind]
      exact bind_of_ok (written.type_run more)

/-- The rest of a round, behind a name. -/
theorem parameterRound_name (state : List Token × List Parameter) (name : NameToken) (later : Cursor) :
    parameterRound nested state ⟨name.val :: later.rest, later.finish⟩ =
      (if later.current.kind = .ellipsis then
        variadicParameter nested name.val state.1 state.2 >>= fun parameters => pure (.done ([], parameters))
      else do
        let state ← plainParameter nested name.val state.1 state.2
        if (← currentKind) ≠ .comma then return .done state
        let _ ← advance
        return .again state : ParseM (Round (List Token × List Parameter) _)) later := by
  have htake : ∀ error, takeOr .identifier error ⟨name.val :: later.rest, later.finish⟩ = .ok name.val later := by
    intro error
    have hkind : (Cursor.mk (name.val :: later.rest) later.finish).current.kind = .identifier := name.property
    rw [takeOr, currentKind_bind_run, if_pos hkind]
    rfl
  have hclose : name.val.kind ≠ .closeParen := by
    rw [name.property]
    decide
  obtain ⟨pending, parameters⟩ := state
  show (if name.val.kind = .closeParen then _ else _ : ParseM (Round _ _)) _ = _
  rw [if_neg hclose]
  exact bind_of_ok (htake _)

/-- **One round.**  An entry is added, and a comma behind it asks for another one. -/
theorem parameterRound_entry (entry : ParameterEntry) (pending : List Token) (parameters : List Parameter)
    (more : Cursor) : ∃ parameters',
    parameters'.map Parameter.shape = (entry.add (pending, parameters.map Parameter.shape)).2 ∧
      (more.current.kind = .comma →
        parameterRound nested (pending, parameters) ⟨entry.tokens ++ more.rest, more.finish⟩ =
          .ok (.again ((entry.add (pending, parameters.map Parameter.shape)).1, parameters')) more.advance) ∧
      (more.current.kind = .closeParen →
        parameterRound nested (pending, parameters) ⟨entry.tokens ++ more.rest, more.finish⟩ =
          .ok (.done ((entry.add (pending, parameters.map Parameter.shape)).1, parameters')) more) := by
  obtain ⟨parameters', hshapes, hplain⟩ := plainParameter_entry entry pending parameters more
  have hround := parameterRound_name (pending, parameters) entry.name
    ⟨(entry.type?.map WrittenType.tokens).getD [] ++ more.rest, more.finish⟩
  have hellipsis : more.current.kind = .comma ∨ more.current.kind = .closeParen →
      (Cursor.mk ((entry.type?.map WrittenType.tokens).getD [] ++ more.rest) more.finish).current.kind ≠ .ellipsis := by
    intro hmore
    cases entry.type? with
    | none => rcases hmore with hmore | hmore <;> exact hmore ▸ by decide
    | some written => exact fun hkind => written.type_current more (congrArg standard.type hkind)
  refine ⟨parameters', hshapes, fun hcomma => ?_, fun hclose => ?_⟩
  · rw [if_neg (hellipsis (.inl hcomma))] at hround
    refine hround.trans ((bind_of_ok (hplain (.inl hcomma))).trans ?_)
    rw [currentKind_bind_run, if_neg (by simpa using hcomma)]
    rfl
  · rw [if_neg (hellipsis (.inr hclose))] at hround
    refine hround.trans ((bind_of_ok (hplain (.inr hclose))).trans ?_)
    rw [currentKind_bind_run, if_pos (by rw [hclose]; decide)]
    rfl

/-! ### All rounds -/

section Rounds

variable {close : Token} (hclose : close.kind = .closeParen) (rest : List Token) (finish : Position)
include hclose

/-- In front of the closing parenthesis the list ends. -/
theorem loop_close (state : List Token × List Parameter) :
    loop (parameterRound nested) state ⟨close :: rest, finish⟩ = .ok state ⟨close :: rest, finish⟩ := by
  have hround : parameterRound nested state ⟨close :: rest, finish⟩ = .ok (.done state) ⟨close :: rest, finish⟩ := by
    show (if close.kind = .closeParen then pure (.done state) else _ : ParseM (Round _ _)) _ = _
    rw [if_pos hclose]
    rfl
  rw [loop_eq parameterRound_progresses, bind_of_ok hround]
  rfl

/-- **One entry.**  Whether or not a comma follows, the list goes on behind it. -/
theorem loop_entry {entry : ParameterEntry} {others : List (List Token)} {tokens : List Token}
    (h : CommaSeparated (entry.tokens :: others) tokens) (pending : List Token) (parameters : List Parameter) :
    ∃ tokens' parameters', CommaSeparated others tokens' ∧
      parameters'.map Parameter.shape = (entry.add (pending, parameters.map Parameter.shape)).2 ∧
      loop (parameterRound nested) (pending, parameters) ⟨tokens ++ close :: rest, finish⟩ =
        loop (parameterRound nested) ((entry.add (pending, parameters.map Parameter.shape)).1, parameters')
          ⟨tokens' ++ close :: rest, finish⟩ := by
  generalize hentry : entry.tokens = entryTokens at h
  cases h with
  | last =>
    subst hentry
    obtain ⟨parameters', hshapes, -, hround⟩ :=
      parameterRound_entry entry pending parameters ⟨close :: rest, finish⟩
    refine ⟨[], parameters', .none, hshapes, ?_⟩
    rw [loop_eq parameterRound_progresses, bind_of_ok (hround hclose)]
    exact (loop_close hclose rest finish _).symm
  | @comma _ tokens' _ comma hcomma hothers =>
    subst hentry
    obtain ⟨parameters', hshapes, hround, -⟩ :=
      parameterRound_entry entry pending parameters ⟨comma :: (tokens' ++ close :: rest), finish⟩
    refine ⟨tokens', parameters', hothers, hshapes, ?_⟩
    rw [List.append_assoc, List.cons_append, loop_eq parameterRound_progresses, bind_of_ok (hround hcomma)]
    rfl

/-- **All entries in front of others.**  The induction is on the entries. -/
theorem loop_entries (entries : List ParameterEntry) {others : List (List Token)} {tokens : List Token}
    (h : CommaSeparated (entries.map ParameterEntry.tokens ++ others) tokens) (pending : List Token)
    (parameters : List Parameter) :
    ∃ tokens' parameters', CommaSeparated others tokens' ∧
      parameters'.map Parameter.shape =
        (entries.foldl ParameterEntry.add (pending, parameters.map Parameter.shape)).2 ∧
      loop (parameterRound nested) (pending, parameters) ⟨tokens ++ close :: rest, finish⟩ =
        loop (parameterRound nested)
          ((entries.foldl ParameterEntry.add (pending, parameters.map Parameter.shape)).1, parameters')
          ⟨tokens' ++ close :: rest, finish⟩ := by
  induction entries generalizing tokens pending parameters with
  | nil => exact ⟨tokens, parameters, h, rfl, rfl⟩
  | cons entry entries ih =>
    obtain ⟨tokens₁, parameters₁, hrest, hshapes₁, hloop₁⟩ := loop_entry hclose rest finish h pending parameters
    obtain ⟨tokens₂, parameters₂, hothers, hshapes₂, hloop₂⟩ := ih hrest _ parameters₁
    rw [hshapes₁] at hshapes₂ hloop₂
    exact ⟨tokens₂, parameters₂, hothers, hshapes₂, hloop₁.trans hloop₂⟩

/-- Behind the type of a variadic parameter there is at most a comma in front of the closing parenthesis. -/
theorem VariadicText.exists_more (variadic : VariadicText) {tokens : List Token}
    (h : CommaSeparated [variadic.tokens] tokens) : ∃ more : Cursor,
    (⟨tokens ++ close :: rest, finish⟩ : Cursor) = ⟨variadic.tokens ++ more.rest, more.finish⟩ ∧
      dropComma more = .ok () ⟨close :: rest, finish⟩ := by
  generalize variadic.tokens = entry at h
  cases h with
  | last =>
    refine ⟨⟨close :: rest, finish⟩, rfl, ?_⟩
    show (if close.kind = .comma then _ else _ : ParseM Unit) _ = _
    rw [if_neg (by rw [hclose]; decide)]
    rfl
  | @comma _ _ _ comma hcomma hothers =>
    cases hothers
    refine ⟨⟨comma :: close :: rest, finish⟩, by simp, ?_⟩
    show (if comma.kind = .comma then _ else _ : ParseM Unit) _ = _
    rw [if_pos hcomma]
    rfl

/-- A variadic parameter that no name waits in front of. -/
theorem variadicParameter_run (variadic : VariadicText) (parameters : List Parameter) {more : Cursor}
    (hmore : dropComma more = .ok () ⟨close :: rest, finish⟩) :
    variadicParameter nested variadic.name.val [] parameters
        ⟨variadic.ellipsis.val :: (variadic.element.tokens ++ more.rest), more.finish⟩ =
      .ok (parameters ++ [⟨variadic.name.val.value, .array variadic.element.type, true,
        more.spanSince variadic.name.val.span.start⟩]) ⟨close :: rest, finish⟩ := by
  refine (bind_of_ok (variadic.element.type_run more)).trans ((bind_of_ok hmore).trans ?_)
  show (if close.kind ≠ .closeParen then _ else _ : ParseM (List Parameter)) _ = _
  rw [if_neg (not_not_intro hclose)]
  rfl

/-- **A variadic parameter ends the list**, with or without a comma behind it, unless a name waits for a type. -/
theorem loop_variadic (variadic : VariadicText) {tokens : List Token} (h : CommaSeparated [variadic.tokens] tokens)
    (pending : List Token) (parameters : List Parameter) :
    match pending with
    | [] => ∃ span, loop (parameterRound nested) ([], parameters) ⟨tokens ++ close :: rest, finish⟩ =
        .ok ([], parameters ++ [⟨variadic.name.val.value, .array variadic.element.type, true, span⟩])
          ⟨close :: rest, finish⟩
    | waiting :: _ => ∃ later, loop (parameterRound nested) (pending, parameters) ⟨tokens ++ close :: rest, finish⟩ =
        .error ⟨.untypedParameter waiting.value, waiting.span.start⟩ later := by
  obtain ⟨more, htokens, hmore⟩ := variadic.exists_more hclose rest finish h
  have hround := parameterRound_name (pending, parameters) variadic.name
    ⟨variadic.ellipsis.val :: (variadic.element.tokens ++ more.rest), more.finish⟩
  have hellipsis : (Cursor.mk (variadic.ellipsis.val :: (variadic.element.tokens ++ more.rest))
      more.finish).current.kind = .ellipsis := variadic.ellipsis.property
  rw [if_pos hellipsis] at hround
  rw [htokens]
  cases pending with
  | nil =>
    have hdone := hround.trans (bind_of_ok (variadicParameter_run hclose rest finish variadic parameters hmore))
    refine ⟨more.spanSince variadic.name.val.span.start, ?_⟩
    rw [loop_eq parameterRound_progresses]
    exact bind_of_ok hdone
  | cons waiting others =>
    refine ⟨⟨variadic.ellipsis.val :: (variadic.element.tokens ++ more.rest), more.finish⟩, ?_⟩
    rw [loop_eq parameterRound_progresses]
    exact bind_of_error (hround.trans (bind_of_error rfl))

end Rounds

/-! ### Groups -/

theorem foldl_untyped (names : List NameToken) (pending : List Token) (shapes : List (String × GoType × Bool)) :
    (names.map (⟨·, none⟩)).foldl ParameterEntry.add (pending, shapes) =
      (pending ++ names.map Subtype.val, shapes) := by
  induction names generalizing pending with
  | nil => simp
  | cons name names ih =>
    rw [List.map_cons, List.foldl_cons, ParameterEntry.add, ih]
    simp

/-- **All names of a group get its type**, and none waits behind it. -/
theorem ParameterGroup.foldl_entries (group : ParameterGroup) (shapes : List (String × GoType × Bool)) :
    group.entries.foldl ParameterEntry.add ([], shapes) = ([], shapes ++ group.parameters) := by
  rw [entries, List.foldl_append, foldl_untyped]
  simp [ParameterEntry.add, parameters]

theorem foldl_groups (groups : List ParameterGroup) (shapes : List (String × GoType × Bool)) :
    (groups.flatMap ParameterGroup.entries).foldl ParameterEntry.add ([], shapes) =
      ([], shapes ++ groups.flatMap ParameterGroup.parameters) := by
  induction groups generalizing shapes with
  | nil => simp
  | cons group groups ih =>
    rw [List.flatMap_cons, List.foldl_append, group.foldl_entries, ih, List.flatMap_cons, List.append_assoc]

theorem ParameterText.foldl_plain (text : ParameterText) :
    text.plain.foldl ParameterEntry.add ([], []) =
      (text.untyped.map Subtype.val, text.groups.flatMap ParameterGroup.parameters) := by
  rw [plain, List.foldl_append, foldl_groups, foldl_untyped]
  simp

/-! ### Parameter lists -/

theorem parameterList_run (cursor : Cursor) : standard.run parameterList cursor = parameterList nested cursor := by
  have hfollows : Follows id cursor 0 (parameterList (standard.subparsers (depthBound cursor)))
      (parameterList nested) :=
    parameterList_tracks (subparsers_track_nested _ (depthBound_ge cursor)) (Nat.lt_succ_self _)
  exact hfollows.eq_of_id.symm

/-- **Types go to the names of their groups.**  From a parameter list in front of a closing parenthesis one parameter is
read for each name, in the order of the names, each with the type of its group; a variadic one is the last one, and its
type is the array of what is written.  If there are names without a type at the end, or in front of the variadic
parameter, the list is rejected because of the first of them. -/
theorem parameterList_written (text : ParameterText) {tokens : List Token} (h : text.Spells tokens) {close : Token}
    (hclose : close.kind = .closeParen) (rest : List Token) (finish : Position) :
    match text.untyped with
    | [] => ∃ parameters, standard.run parameterList ⟨tokens ++ close :: rest, finish⟩ =
        .ok parameters ⟨close :: rest, finish⟩ ∧ parameters.map Parameter.shape = text.parameters
    | name :: _ => ∃ later, standard.run parameterList ⟨tokens ++ close :: rest, finish⟩ =
        .error ⟨.untypedParameter name.val.value, name.val.span.start⟩ later := by
  obtain ⟨tokens', parameters, hvariadic, hshapes, hloop⟩ := loop_entries hclose rest finish text.plain h [] []
  rw [List.map_nil, text.foldl_plain] at hshapes hloop
  rw [parameterList_run, ParameterText.parameters]
  generalize text.untyped = untyped at hloop ⊢
  cases htext : text.variadic with
  | none =>
    rw [htext] at hvariadic
    cases hvariadic
    rw [List.nil_append, loop_close hclose] at hloop
    cases untyped with
    | nil => exact ⟨parameters, bind_of_ok hloop, by simpa using hshapes⟩
    | cons name names => exact ⟨_, bind_of_ok hloop⟩
  | some variadic =>
    rw [htext] at hvariadic
    have hend := loop_variadic hclose rest finish variadic hvariadic (untyped.map Subtype.val) parameters
    cases untyped with
    | nil =>
      obtain ⟨span, hend⟩ := hend
      refine ⟨_, bind_of_ok (hloop.trans hend), ?_⟩
      rw [List.map_append, hshapes]
      rfl
    | cons name names =>
      obtain ⟨later, hend⟩ := hend
      exact ⟨later, bind_of_error (hloop.trans hend)⟩

/-- `x, y []int, z ...string,` is read; in `x, y []int, z, v ...string` the name `z` is without a type. -/
theorem parameterList_written_variadic :
    let group : List Word := [(.identifier, "x"), (.comma, ","), (.identifier, "y"), (.openBracket, "["),
      (.closeBracket, "]"), (.intType, "int"), (.comma, ","), (.identifier, "z")]
    let typed : List Word := group ++ [(.ellipsis, "..."), (.stringType, "string"), (.comma, ",")]
    let untyped : List Word := group ++ [(.comma, ","), (.identifier, "v"), (.ellipsis, "..."), (.stringType, "string")]
    let close : Token := Word.token (.closeParen, ")")
    (∃ text : ParameterText, text.untyped = [] ∧ text.Spells (typed.map Word.token) ∧
      ∃ parameters, standard.run parameterList ⟨typed.map Word.token ++ [close], default⟩ =
          .ok parameters ⟨[close], default⟩ ∧
        parameters.map Parameter.shape =
          [("x", .array .int, false), ("y", .array .int, false), ("z", .array .string, true)]) ∧
    ∃ text : ParameterText, text.untyped.map (·.val.value) = ["z"] ∧ text.Spells (untyped.map Word.token) ∧
      ∃ position later, standard.run parameterList ⟨untyped.map Word.token ++ [close], default⟩ =
        .error ⟨.untypedParameter "z", position⟩ later := by
  intro group typed untyped close
  let name (text : String) : NameToken := ⟨Word.token (.identifier, text), rfl⟩
  let ints : WrittenType :=
    ⟨List.map Word.token [(.openBracket, "["), (.closeBracket, "]"), (.intType, "int")], .array .int, fun _ => rfl⟩
  let strings : WrittenType := ⟨[Word.token (.stringType, "string")], .string, fun _ => rfl⟩
  let ellipsis : { token : Token // token.kind = .ellipsis } := ⟨Word.token (.ellipsis, "..."), rfl⟩
  constructor
  · let text : ParameterText := ⟨[⟨[name "x"], name "y", ints⟩], [], some ⟨name "z", ellipsis, strings⟩⟩
    have hspells : text.Spells (typed.map Word.token) :=
      @CommaSeparated.comma [_] _ _ _ rfl (@CommaSeparated.comma [_, _, _, _] _ _ _ rfl
        (@CommaSeparated.comma [_, _, _] _ _ _ rfl .none))
    exact ⟨text, rfl, hspells, parameterList_written text hspells rfl [] default⟩
  · let text : ParameterText := ⟨[⟨[name "x"], name "y", ints⟩], [name "z"], some ⟨name "v", ellipsis, strings⟩⟩
    have hspells : text.Spells (untyped.map Word.token) :=
      @CommaSeparated.comma [_] _ _ _ rfl (@CommaSeparated.comma [_, _, _, _] _ _ _ rfl
        (@CommaSeparated.comma [_] _ _ _ rfl (.last _)))
    exact ⟨text, rfl, hspells, _, parameterList_written text hspells rfl [] default⟩

end GoScript
