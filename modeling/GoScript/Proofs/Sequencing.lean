import GoScript.Proofs.LineBreaks
import GoScript.Proofs.Places

/-!
# Two texts in one

A text that can be parsed, then a semicolon on a line of its own, then another text: what is parsed from that is what
is parsed from the first text, followed by what is parsed from the second one.  If the second text cannot be parsed,
the whole cannot be parsed for the same reason, and the error is where it was, as many bytes further on.

The line feed keeps the tokens of the two texts apart, and the semicolon keeps their statements apart.

* `joined` — the two texts with the semicolon in between
* `Cursor.ofSource_joined` — the tokens of both
* `gather_joined` — the statements of both, with positions moved so that the semicolon stands at the end of the first
* `parse_joined` — the programs
-/

namespace GoScript

open ParseM Grammar

/-- Two texts with a semicolon on a line of its own in between. -/
def joined (first second : String) : String :=
  first ++ "\n;\n" ++ second

/-- Where the second of two joined texts starts. -/
def secondStart (first : String) : Nat :=
  first.utf8ByteSize + 3

theorem utf8ByteSize_joined (first second : String) :
    (joined first second).utf8ByteSize = secondStart first + second.utf8ByteSize := by
  rw [joined, String.utf8ByteSize_append, String.utf8ByteSize_append]
  rfl

theorem toList_joined (first second : String) :
    (joined first second).toList = first.toList ++ '\n' :: ';' :: '\n' :: second.toList := by
  simp [joined, String.toList_append]

/-! ### Tokens -/

/-- The semicolon between two joined texts. -/
def separator (first file : String) : Token :=
  ⟨.semicolon, ";", Span.ofBytes file (first.utf8ByteSize + 1) 1⟩

theorem placeTokens_separator (file : String) (offset : Nat) (rest : List Char) :
    placeTokens file offset (lexemes (';' :: '\n' :: rest)) =
      ⟨.semicolon, ";", Span.ofBytes file offset 1⟩ :: placeTokens file (2 + offset) (lexemes rest) := by
  have hfirst : Pattern.first? ([';'] ++ '\n' :: rest) = some (.fixed .semicolon ";" ";", 1) := rfl
  have hlexemes := lexemes_of_first? (List.cons_ne_nil ';' []) hfirst
  rw [List.singleton_append] at hlexemes
  rw [hlexemes]
  show ⟨.semicolon, ";", Span.ofBytes file offset 1⟩ :: placeTokens file (offset + 1) (lexemes ('\n' :: rest)) = _
  rw [placeTokens_blank file (offset + 1) (by decide), Nat.add_comm 2]
  rfl

/-- The cursor with one more token in front. -/
def Cursor.push (token : Token) (cursor : Cursor) : Cursor :=
  ⟨token :: cursor.rest, cursor.finish⟩

variable {first second file : String}

/-- **The tokens of two joined texts** are those of the first one, the semicolon and those of the second one. -/
theorem Cursor.ofSource_joined (hlegal : ∀ token ∈ (Cursor.ofSource first file).rest, token.kind ≠ .illegal) :
    Cursor.ofSource (joined first second) file = (Cursor.ofSource first file).followedBy
      (((Cursor.ofSource second file).relocate (Position.forward (secondStart first))).push
        (separator first file)) := by
  have hwords : ∀ word ∈ wordsOf first.toList, word.1 ≠ .illegal := by
    intro word hword
    rw [← map_scan file] at hword
    obtain ⟨token, htoken, rfl⟩ := List.mem_map.1 hword
    exact hlegal token htoken
  have htokens : scan file (joined first second).toList = scan file first.toList ++ separator first file ::
      (scan file second.toList).map (Token.relocate (Position.forward (secondStart first))) := by
    have hstart : 2 + (0 + Text.byteSize first.toList + 1) = secondStart first + 0 := by
      rw [byteSize_toList, secondStart]
      omega
    rw [scan, toList_joined, placeTokens_lineFeed file 0 hwords, placeTokens_separator, hstart, placeTokens_add,
      separator, byteSize_toList, Nat.zero_add]
    rfl
  have hfinish : endPosition file (joined first second).toList =
      (endPosition file second.toList).forward (secondStart first) := by
    rw [endPosition, endPosition, Position.forward_ofNat, byteSize_toList, byteSize_toList, utf8ByteSize_joined]
  rw [Cursor.ofSource, htokens, hfinish]
  rfl

/-! ### Statements -/

theorem Cursor.relocate_relocate (f g : Position → Position) (cursor : Cursor) :
    (cursor.relocate g).relocate f = cursor.relocate (f ∘ g) := by
  simp only [Cursor.relocate, List.map_map]
  rfl

theorem Cursor.relocate_followedBy (f : Position → Position) (cursor more : Cursor) :
    (cursor.followedBy more).relocate f = (cursor.relocate f).followedBy (more.relocate f) := by
  simp [Cursor.relocate, Cursor.followedBy]

theorem Cursor.relocate_push (f : Position → Position) (token : Token) (cursor : Cursor) :
    (cursor.push token).relocate f = (cursor.relocate f).push (token.relocate f) := rfl

theorem programItem_push {sub : Subparsers} {token : Token} (h : token.kind = .semicolon) (cursor : Cursor) :
    programItem sub (cursor.push token) = programItem sub cursor := by
  have hdrop : (cursor.push token).dropSemicolons = cursor.dropSemicolons := by
    simp [Cursor.push, Cursor.dropSemicolons, h]
  rw [← programItem_dropSemicolons, hdrop, programItem_dropSemicolons]

section Statements

variable {body : List Node} {later : Cursor}

/-- A text whose statements can be read has no stray character. -/
theorem legal_of_gather (hok : gather (programItem nested) (Cursor.ofSource first file) = .ok body later) :
    ∀ token ∈ (Cursor.ofSource first file).rest, token.kind ≠ .illegal := by
  let semicolon : Token := ⟨.semicolon, ";", ⟨(Cursor.ofSource first file).finish, default⟩⟩
  have hstop : (Cursor.push semicolon ⟨[], default⟩).StopsAt (Cursor.ofSource first file).finish := ⟨rfl, rfl⟩
  exact (gather_programItem_followedBy hstop (fun token htoken => (bounds_of_mem_scan htoken).1) hok).1

/-- **The statements of two joined texts**, with positions moved so that the semicolon stands where the first text
ends.  The second text is read as if it stood alone, further on. -/
theorem gather_joined (second : String)
    (hok : gather (programItem nested) (Cursor.ofSource first file) = .ok body later)
    {f : Position → Position} (hf : f (separator first file).span.start = f (Cursor.ofSource first file).finish) :
    relocate f (gather (programItem nested) (Cursor.ofSource (joined first second) file)) =
      (do return body.map (Node.relocate f) ++ (← gather (programItem nested)))
        ((Cursor.ofSource second file).relocate (f ∘ Position.forward (secondStart first))) := by
  have hok' : gather (programItem nested) ((Cursor.ofSource first file).relocate f) =
      .ok (body.map (Node.relocate f)) (later.relocate f) := by
    rw [gather_programItem_relocate, hok]
    rfl
  have hsome : ∀ token ∈ ((Cursor.ofSource first file).relocate f).rest, token.kind ≠ .endOfInput := by
    intro token htoken
    obtain ⟨original, horiginal, rfl⟩ := List.mem_map.1 htoken
    exact (bounds_of_mem_scan horiginal).1
  have hsecond : ((Cursor.ofSource second file).relocate (Position.forward (secondStart first))).relocate f =
      (Cursor.ofSource second file).relocate (f ∘ Position.forward (secondStart first)) :=
    Cursor.relocate_relocate f _ _
  rw [← gather_programItem_relocate, Cursor.ofSource_joined (legal_of_gather hok), Cursor.relocate_followedBy,
    Cursor.relocate_push, hsecond]
  generalize (Cursor.ofSource second file).relocate (f ∘ Position.forward (secondStart first)) = more
  have hstop : (more.push ((separator first file).relocate f)).StopsAt
      ((Cursor.ofSource first file).relocate f).finish := ⟨rfl, hf⟩
  have hitem : programItem nested (more.push ((separator first file).relocate f)) = programItem nested more :=
    programItem_push rfl more
  rw [(gather_programItem_followedBy hstop hsome hok').2, Outcome.bind_run, Outcome.bind_run,
    gather_programItem_congr hitem]

end Statements

/-! ### Programs -/

section Programs

variable {program : Program}

/-- Two texts that can be parsed can be parsed together, to the statements of both. -/
theorem parse_joined_ok {program' : Program} (h : parse first file = .ok program)
    (h' : parse second file = .ok program') :
    ∃ whole, parse (joined first second) file = .ok whole ∧
      whole.body.map Node.unplaced = program.body.map Node.unplaced ++ program'.body.map Node.unplaced := by
  obtain ⟨later, hgather⟩ := gather_of_parse h
  obtain ⟨later', hgather'⟩ := gather_of_parse h'
  have hjoined := gather_joined second (f := fun _ => default) hgather rfl
  rw [Outcome.bind_run, gather_programItem_relocate, hgather'] at hjoined
  rw [parse_eq_gather]
  cases houtcome : gather (programItem nested) (Cursor.ofSource (joined first second) file) with
  | error error last =>
    rw [houtcome] at hjoined
    cases hjoined
  | ok body last =>
    rw [houtcome] at hjoined
    exact ⟨_, rfl, (EStateM.Result.ok.inj hjoined).1⟩

/-- Offsets that do not wrap around are told apart. -/
theorem Position.ofNat_ne {m n : Nat} (hm : m < UInt32.size) (hn : n < UInt32.size) (hmn : m ≠ n) (file : String) :
    (⟨UInt32.ofNat m, file⟩ : Position) ≠ ⟨UInt32.ofNat n, file⟩ := by
  intro heq
  have hoffset := congrArg (fun position => position.offset.toNat) heq
  simp only [UInt32.toNat_ofNat_of_lt' hm, UInt32.toNat_ofNat_of_lt' hn] at hoffset
  exact hmn hoffset

/-- If the second text cannot be parsed, the whole cannot be parsed for the same reason.  The error moves along with
the second text. -/
theorem parse_joined_error {error : Error} (h : parse first file = .ok program)
    (h' : parse second file = .error error) :
    ∃ error', parse (joined first second) file = .error error' ∧ error'.cause = error.cause ∧
      ((joined first second).utf8ByteSize < UInt32.size → error'.position.file = error.position.file ∧
        error'.position.offset.toNat = error.position.offset.toNat + secondStart first) := by
  obtain ⟨later, hgather⟩ := gather_of_parse h
  obtain ⟨later', hgather'⟩ := gather_of_parse_error h'
  -- a map that tells all positions apart but the two that have to meet
  let meet : Position → Position := fun position =>
    if position = (separator first file).span.start then (Cursor.ofSource first file).finish else position
  have hmeet : meet (separator first file).span.start = meet (Cursor.ofSource first file).finish := by
    simp [meet]
  have hjoined := gather_joined second hgather hmeet
  rw [Outcome.bind_run, gather_programItem_relocate, hgather'] at hjoined
  rw [parse_eq_gather]
  cases houtcome : gather (programItem nested) (Cursor.ofSource (joined first second) file) with
  | ok body last =>
    rw [houtcome] at hjoined
    cases hjoined
  | error error' last =>
    rw [houtcome] at hjoined
    have herror : error'.relocate meet = error.relocate (meet ∘ Position.forward (secondStart first)) :=
      (EStateM.Result.error.inj hjoined).1
    have hcause : (error'.relocate meet).cause = error.cause := by
      rw [herror]
      rfl
    refine ⟨error', rfl, hcause, fun hsize => ?_⟩
    have hposition : meet error'.position = meet (error.position.forward (secondStart first)) :=
      congrArg Error.position herror
    obtain ⟨offset, hoffset, hpoints⟩ := position_of_parse_error h'
    rw [utf8ByteSize_joined] at hsize
    rw [hpoints, Position.forward_ofNat] at hposition
    have hstart : secondStart first = first.utf8ByteSize + 3 := rfl
    have hbehind : (⟨UInt32.ofNat (secondStart first + offset), file⟩ : Position) ≠
        (separator first file).span.start := Position.ofNat_ne (by omega) (by omega) (by omega) file
    have hbehind' : (⟨UInt32.ofNat (secondStart first + offset), file⟩ : Position) ≠
        (Cursor.ofSource first file).finish := by
      show _ ≠ (⟨UInt32.ofNat (Text.byteSize first.toList), file⟩ : Position)
      rw [byteSize_toList]
      exact Position.ofNat_ne (by omega) (by omega) (by omega) file
    simp only [meet, if_neg hbehind] at hposition
    split at hposition
    · exact absurd hposition.symm hbehind'
    · rw [hposition, hpoints]
      refine ⟨rfl, ?_⟩
      simp only [UInt32.toNat_ofNat_of_lt' (show secondStart first + offset < UInt32.size by omega),
        UInt32.toNat_ofNat_of_lt' (show offset < UInt32.size by omega)]
      omega

end Programs

/-- **Parsing is compositional over `;`.**  Behind a text that can be parsed and a semicolon on a line of its own, any
other text is read as if it stood alone: its statements follow those of the first text, up to spans, or its error is
the error of the whole, as many bytes further on as the second text is. -/
theorem parse_joined {program : Program} (h : parse first file = .ok program) (second : String) :
    match parse second file with
    | .ok program' => ∃ whole, parse (first ++ "\n;\n" ++ second) file = .ok whole ∧
        whole.body.map Node.unplaced = program.body.map Node.unplaced ++ program'.body.map Node.unplaced
    | .error error => ∃ error', parse (first ++ "\n;\n" ++ second) file = .error error' ∧
        error'.cause = error.cause ∧
        ((first ++ "\n;\n" ++ second).utf8ByteSize < UInt32.size →
          error'.position.file = error.position.file ∧
          error'.position.offset.toNat = error.position.offset.toNat + (first.utf8ByteSize + 3)) := by
  cases hsecond : parse second file with
  | ok program' => exact parse_joined_ok h hsecond
  | error error => exact parse_joined_error h hsecond

theorem parse_joined_return : ∃ program error, parse "if ok \x7b return \x7d // done" "shell" = .ok program ∧
    parse "if ok \x7b return \x7d // done\n;\nx := @" "shell" = .error error ∧
      error.cause = .unrecognisedToken "@" ∧ error.position.file = "shell" ∧ error.position.offset.toNat = 32 := by
  obtain ⟨program, hprogram⟩ : ∃ program, parse "if ok \x7b return \x7d // done" "shell" = .ok program := ⟨_, by rfl⟩
  have hsecond : parse "x := @" "shell" = .error ⟨.unrecognisedToken "@", 5, "shell"⟩ := by rfl
  have hjoined := parse_joined hprogram "x := @"
  rw [hsecond] at hjoined
  obtain ⟨error, herror, hcause, hposition⟩ := hjoined
  obtain ⟨hfile, hoffset⟩ := hposition (by decide)
  exact ⟨program, error, hprogram, herror, hcause, hfile, hoffset⟩

end GoScript
