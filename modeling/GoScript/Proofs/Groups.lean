import GoScript.Proofs.Layout
import GoScript.Proofs.Sequencing
import GoScript.Proofs.Visits
import Mathlib.Data.List.Forall2

/-!
# Groups of declarations

A group in parentheses writes its keyword once.  Apart from that it is the sequence of its members: with the keyword in
front of each of them, and the parentheses gone, the same declarations are read, and wherever that is done in a program
the same text is emitted, with the same result up to the position of an error.

Positions play no part in this, so the parses are followed on words.  A member of a group stands in front of a
semicolon, where on its own it would stand at the end of the input.

* `singleText`, `groupText`, `separated` — how declarations, groups and programs are written
* `MemberWords` — the words of a member, and the declaration that is read from them
* `gather_members` — the members of a group are those of its texts, in order
* `emitProgram_group` — a group is emitted as the sequence of its members
* `translation_of_group` — groups in programs
-/

namespace GoScript

open ParseM Grammar Outcome

/-! ### Texts -/

/-- The keyword in front of a constant or a variable. -/
def keywordText (constant : Bool) : String :=
  if constant then "const" else "var"

/-- One declaration. -/
def singleText (constant : Bool) (binding : String) : String :=
  keywordText constant ++ " " ++ binding

/-- A group of declarations, each of them with a semicolon on a line of its own behind it. -/
def groupText (constant : Bool) (bindings : List String) : String :=
  keywordText constant ++ " (" ++ String.join (bindings.map (· ++ "\n;\n")) ++ ")"

/-- Statements with semicolons on lines of their own in between. -/
def separated (texts : List String) : String :=
  "\n;\n".intercalate texts

/-- A text is parsed to some statements, up to spans. -/
def HoldsStatements (text file : String) (body : List Node) : Prop :=
  ∃ program, parse text file = .ok program ∧ program.body.map Node.unplaced = body

/-- A text is parsed to one declaration, which is no group. -/
def HoldsDeclaration (text file : String) : Prop :=
  ∃ d span, parse text file = .ok ⟨[.declaration d], span⟩ ∧ d.group = none

variable {constant : Bool} {file : String}

/-- What the texts of a program hold is what the whole of them holds. -/
theorem HoldsStatements.separated {texts : List String} {bodies : List (List Node)}
    (h : List.Forall₂ (HoldsStatements · file) texts bodies) :
    HoldsStatements (separated texts) file bodies.flatten := by
  induction h with
  | nil => exact ⟨_, rfl, rfl⟩
  | @cons text body texts bodies htext htexts ih =>
    cases htexts with
    | nil =>
      rw [GoScript.separated, String.intercalate_singleton]
      simpa using htext
    | cons hsecond hothers =>
      obtain ⟨program, hparse, rfl⟩ := htext
      obtain ⟨others, hparse', hothers⟩ := ih
      obtain ⟨whole, hwhole, hbody⟩ := parse_joined_ok hparse hparse'
      rw [GoScript.separated, String.intercalate_cons_cons]
      refine ⟨whole, hwhole, ?_⟩
      rw [hbody, hothers]
      rfl

/-! ### Words -/

/-- The word of the keyword. -/
def keywordOf (constant : Bool) : Word :=
  if constant then (.constWord, "const") else (.varWord, "var")

theorem keywordOf_kind (constant : Bool) :
    (keywordOf constant).1 ≠ .endOfInput ∧ (keywordOf constant).1 ≠ .semicolon := by
  cases constant <;> decide

theorem wordsOf_keyword (constant : Bool) (rest : List Char) :
    wordsOf ((keywordText constant).toList ++ ' ' :: rest) = keywordOf constant :: wordsOf rest := by
  have hrest : Boundary (' ' :: rest) := .of_mem (by decide)
  have hblank : wordsOf (' ' :: rest) = wordsOf rest := wordsOf_blank (by decide) rest
  cases constant with
  | true => exact (wordsOf_word 'c' "onst".toList (by decide) (by decide) hrest).trans (congrArg _ hblank)
  | false => exact (wordsOf_word 'v' "ar".toList (by decide) (by decide) hrest).trans (congrArg _ hblank)

theorem wordsOf_single (constant : Bool) (binding : String) :
    wordsOf (singleText constant binding).toList = keywordOf constant :: wordsOf binding.toList := by
  rw [singleText, String.toList_append, String.toList_append, List.append_assoc]
  exact wordsOf_keyword constant binding.toList

/-- The words of a text without stray characters in front of a semicolon on a line of its own. -/
theorem wordsOf_separator {first : List Char} (hlegal : ∀ word ∈ wordsOf first, word.1 ≠ .illegal)
    (rest : List Char) :
    wordsOf (first ++ '\n' :: ';' :: '\n' :: rest) = wordsOf first ++ (.semicolon, ";") :: wordsOf rest := by
  rw [wordsOf, ← map_placeTokens "" 0, placeTokens_lineFeed "" 0 hlegal, placeTokens_separator, List.map_append,
    List.map_cons, map_placeTokens, map_placeTokens]
  rfl

/-- The words of a group. -/
def groupWords (constant : Bool) (members : List (List Word)) : List Word :=
  keywordOf constant :: (.openParen, "(") :: (members.flatMap (· ++ [(.semicolon, ";")]) ++ [(.closeParen, ")")])

theorem wordsOf_group {bindings : List String}
    (hlegal : ∀ binding ∈ bindings, ∀ word ∈ wordsOf binding.toList, word.1 ≠ .illegal) :
    wordsOf (groupText constant bindings).toList =
      groupWords constant (bindings.map fun binding => wordsOf binding.toList) := by
  have hmembers : wordsOf ((String.join (bindings.map (· ++ "\n;\n"))).toList ++ [')']) =
      (bindings.map fun binding => wordsOf binding.toList).flatMap (· ++ [(.semicolon, ";")]) ++
        [(.closeParen, ")")] := by
    induction bindings with
    | nil => exact wordsOf_bracket .closeParen ')' [] (by decide)
    | cons binding bindings ih =>
      have hrest := ih fun other hother => hlegal other (List.mem_cons_of_mem _ hother)
      have hsplit : (String.join ((binding :: bindings).map (· ++ "\n;\n"))).toList ++ [')'] =
          binding.toList ++ '\n' :: ';' :: '\n' :: ((String.join (bindings.map (· ++ "\n;\n"))).toList ++ [')']) := by
        simp [String.join_cons, String.toList_append]
      rw [hsplit, wordsOf_separator (hlegal binding List.mem_cons_self), hrest]
      simp
  have hopen : ∀ rest, wordsOf ('(' :: rest) = (.openParen, "(") :: wordsOf rest :=
    fun rest => wordsOf_bracket .openParen '(' rest (by decide)
  rw [groupText, groupWords, ← hmembers, ← hopen, ← wordsOf_keyword]
  simp [String.toList_append]

/-! ### Programs from words -/

theorem gather_words_of_parse {text : String} {program : Program} (h : parse text file = .ok program) :
    ∃ later, gather (programItem nested) (reading (wordsOf text.toList)) =
      .ok (program.body.map Node.unplaced) later := by
  obtain ⟨later, hgather⟩ := gather_of_parse h
  refine ⟨later.relocate fun _ => default, ?_⟩
  rw [← relocate_ofSource text file, gather_programItem_relocate, hgather]
  rfl

theorem HoldsStatements.of_words {text : String} {body : List Node} {later : Cursor}
    (h : gather (programItem nested) (reading (wordsOf text.toList)) = .ok body later) :
    HoldsStatements text file body := by
  rw [← relocate_ofSource text file, gather_programItem_relocate] at h
  rw [HoldsStatements, parse_eq_gather]
  cases hgather : gather (programItem nested) (Cursor.ofSource text file) with
  | ok placed last =>
    rw [hgather] at h
    exact ⟨_, rfl, (EStateM.Result.ok.inj h).1⟩
  | error error last =>
    rw [hgather] at h
    cases h

/-- A text that holds one statement: the statement, and then nothing but semicolons. -/
theorem statement_of_gather {cursor later : Cursor} {statement : Node}
    (hsome : ∀ token ∈ cursor.rest, token.kind ≠ .endOfInput)
    (h : gather (programItem nested) cursor = .ok [statement] later) :
    ∃ middle, nested.statement cursor.dropSemicolons = .ok statement middle ∧ middle.dropSemicolons.rest = [] := by
  rw [gather_eq programItem_advances] at h
  obtain ⟨item, middle, hitem, hrest⟩ := ok_of_bind h
  cases item with
  | stop => cases hrest
  | last node =>
    rw [programItem_run] at hitem
    split at hitem
    · obtain ⟨other, after, -, hpure⟩ := ok_of_bind hitem
      cases hpure
    · cases hitem
  | more node =>
    obtain ⟨others, last, hothers, hpure⟩ := ok_of_bind hrest
    cases hpure
    have hstatement := (programItem_more_iff.1 hitem).2
    refine ⟨middle, hstatement, ?_⟩
    obtain ⟨tokens, hsplit, -⟩ := (statement_reads hstatement).read
    obtain ⟨⟨semicolons, hdrop, -⟩, -⟩ := Cursor.reaches_dropSemicolons cursor
    have hsome' : ∀ token ∈ middle.rest, token.kind ≠ .endOfInput := by
      intro token htoken
      exact hsome token (by simp [hdrop, hsplit, htoken])
    rw [gather_eq programItem_advances] at hothers
    obtain ⟨item, after, hstop, hnil⟩ := ok_of_bind hothers
    cases item with
    | stop => exact rest_of_programItem_stop hsome' hstop
    | last node => cases hnil
    | more node =>
      obtain ⟨others, final, -, hcons⟩ := ok_of_bind hnil
      cases hcons

theorem gather_of_statement {cursor middle : Cursor} {statement : Node} (hmore : cursor.hasMore = true)
    (hdrop : cursor.dropSemicolons = cursor) (h : nested.statement cursor = .ok statement middle)
    (hrest : middle.rest = []) : gather (programItem nested) cursor = .ok [statement] middle := by
  have hitem : programItem nested cursor = .ok (.more statement) middle :=
    programItem_more_iff.2 (by rw [hdrop]; exact ⟨hmore, h⟩)
  have hstop : programItem nested middle = .ok .stop middle := by
    obtain ⟨rest, finish⟩ := middle
    subst hrest
    rfl
  have hothers : gather (programItem nested) middle = .ok [] middle := by
    rw [gather_eq programItem_advances]
    exact bind_of_ok hstop
  rw [gather_eq programItem_advances]
  exact (bind_of_ok hitem).trans (bind_of_ok hothers)

/-! ### Members -/

/-- The words of a member: a declaration, and nothing but semicolons behind it. -/
def MemberWords (constant : Bool) (words : List Word) (d : Declaration) : Prop :=
  ∃ later, declared standard nested constant default (reading words) = .ok d later ∧ later.dropSemicolons.rest = []

section Members

variable {words : List Word} {d : Declaration}

/-- A declaration statement is a single one, unless a parenthesis follows its keyword. -/
theorem plainStatement_keyword (constant : Bool) (words : List Word) :
    plainStatement standard nested (reading (keywordOf constant :: words)) =
      if (reading words).current.kind ≠ .openParen then
        (do return Node.declaration (← declared standard nested constant default)) (reading words)
      else (do
        let _ ← advance
        let members ← gather (groupItem standard nested constant)
        let _ ← take .closeParen
        return Node.declaration ⟨"", constant, none, none, none, some members, ← spanSince default⟩)
          (reading words) := by
  cases constant with
  | true =>
    show (if (reading words).current.kind ≠ .openParen then _ else _ : ParseM Node) (reading words) = _
    split <;> rfl
  | false =>
    show (if (reading words).current.kind ≠ .openParen then _ else _ : ParseM Node) (reading words) = _
    split <;> rfl

/-- A statement that is no group has a member behind its keyword. -/
theorem memberWords_of_gather {later : Cursor} (hsome : ∀ word ∈ words, word.1 ≠ .endOfInput)
    (h : gather (programItem nested) (reading (keywordOf constant :: words)) = .ok [.declaration d] later)
    (hd : d.group = none) : MemberWords constant words d := by
  have htokens : ∀ token ∈ (reading (keywordOf constant :: words)).rest, token.kind ≠ .endOfInput := by
    intro token htoken
    obtain ⟨word, hword, rfl⟩ := List.mem_map.1 htoken
    cases hword with
    | head => exact (keywordOf_kind constant).1
    | tail _ hword => exact hsome word hword
  obtain ⟨middle, hstatement, hmiddle⟩ := statement_of_gather htokens h
  rw [Cursor.dropSemicolons_of_kind (by exact (keywordOf_kind constant).2), nested_statement] at hstatement
  obtain ⟨statement, last, hplain, hlast⟩ := ok_of_bind hstatement
  cases hlast
  rw [plainStatement_keyword] at hplain
  split at hplain
  · obtain ⟨single, final, hdeclared, hpure⟩ := ok_of_bind hplain
    cases hpure
    exact ⟨_, hdeclared, by simpa using hmiddle⟩
  · -- a group would have members
    obtain ⟨_, first, -, hplain⟩ := ok_of_bind hplain
    obtain ⟨members, second, -, hplain⟩ := ok_of_bind hplain
    obtain ⟨_, third, -, hplain⟩ := ok_of_bind hplain
    obtain ⟨span, fourth, -, hpure⟩ := ok_of_bind hplain
    cases hpure
    cases hd

theorem groupItem_run {cursor : Cursor} : groupItem standard nested constant cursor =
    if cursor.dropSemicolons.current.kind = .closeParen then .ok .stop cursor.dropSemicolons
    else (do return Item.more (← declared standard nested constant cursor.dropSemicolons.position))
      cursor.dropSemicolons := by
  show (if cursor.dropSemicolons.current.kind = .closeParen then _ else _ : ParseM (Item Declaration))
    cursor.dropSemicolons = _
  split <;> rfl

theorem groupItem_advances : Advances (groupItem standard nested constant) := by
  intro cursor d later hok
  have hdrop := (Cursor.reaches_dropSemicolons cursor).length_le
  rw [groupItem_run] at hok
  split at hok
  · cases hok
  · obtain ⟨declaration, middle, hdeclared, hpure⟩ := ok_of_bind hok
    cases hpure
    have htracks := declared_tracks (nested_track (.moved id) (cursor.dropSemicolons.rest.length + 1))
      (Nat.lt_succ_self _) constant cursor.dropSemicolons.position
    have hlength := (htracks.reaches _ _ hdeclared).length_le
    omega

/-- A declaration starts with a name. -/
theorem current_of_declared {start : Position} {cursor later : Cursor}
    (h : declared standard nested constant start cursor = .ok d later) : cursor.current.kind = .identifier := by
  obtain ⟨token, first, hcurrent, h⟩ := ok_of_bind h
  cases hcurrent
  obtain ⟨name, middle, htake, -⟩ := ok_of_bind h
  change (if cursor.current.kind = .identifier then _ else _ : ParseM Token) cursor = _ at htake
  split at htake
  · assumption
  · cases htake

/-- One member of a group: with a semicolon behind it, it is read as at the end of the input. -/
theorem MemberWords.groupItem (h : MemberWords constant words d) (rest : List Word) :
    ∃ later, Grammar.groupItem standard nested constant (reading (words ++ (.semicolon, ";") :: rest)) =
      .ok (.more d) later ∧ later.dropSemicolons = (reading rest).dropSemicolons := by
  obtain ⟨later, hdeclared, hlater⟩ := h
  have htracks := declared_tracks (nested_track (.followedBy (reading ((.semicolon, ";") :: rest)))
    ((reading words).rest.length + 1)) (Nat.lt_succ_self _) constant default
  have hextended := htracks.followed rfl hdeclared fun _ => .inl rfl
  have hreading : (reading words).followedBy (reading ((.semicolon, ";") :: rest)) =
      reading (words ++ (.semicolon, ";") :: rest) := by
    simp [Cursor.followedBy, reading]
  rw [hreading] at hextended
  have hname := current_of_declared hextended
  refine ⟨later.followedBy (reading ((.semicolon, ";") :: rest)), ?_, ?_⟩
  · rw [groupItem_run, Cursor.dropSemicolons_of_kind (by simp [hname]), if_neg (by simp [hname]), position_reading]
    exact bind_of_ok hextended
  · rw [Cursor.dropSemicolons_followedBy_of_nil hlater]
    rfl

end Members

section Groups

variable {texts : List (List Word)} {members : List Declaration}

/-- **The members of a group** are those of its texts, in order. -/
theorem gather_members (h : List.Forall₂ (MemberWords constant) texts members) :
    gather (groupItem standard nested constant)
      (reading (texts.flatMap (· ++ [(.semicolon, ";")]) ++ [(.closeParen, ")")])) =
        .ok members (reading [(.closeParen, ")")]) := by
  induction h with
  | nil =>
    rw [gather_eq groupItem_advances]
    exact bind_of_ok rfl
  | @cons words d texts members hfirst _ ih =>
    obtain ⟨later, hitem, hlater⟩ :=
      hfirst.groupItem (texts.flatMap (· ++ [(.semicolon, ";")]) ++ [(.closeParen, ")")])
    have hothers : gather (groupItem standard nested constant) later = .ok members (reading [(.closeParen, ")")]) := by
      rw [gather_eq groupItem_advances, bind_run, groupItem_run, hlater, ← groupItem_run, ← bind_run,
        ← gather_eq groupItem_advances, ih]
    have hsplit : (words :: texts).flatMap (· ++ [(.semicolon, ";")]) ++ [(.closeParen, ")")] =
        words ++ (.semicolon, ";") :: (texts.flatMap (· ++ [(.semicolon, ";")]) ++ [(.closeParen, ")")]) := by
      simp
    rw [hsplit, gather_eq groupItem_advances]
    exact (bind_of_ok hitem).trans (bind_of_ok hothers)

/-- The declaration that holds some members. -/
def groupOf (constant : Bool) (members : List Declaration) : Declaration :=
  ⟨"", constant, none, none, none, some members, default⟩

/-- A group is parsed to one declaration, which holds its members. -/
theorem gather_group (h : List.Forall₂ (MemberWords constant) texts members) :
    gather (programItem nested) (reading (groupWords constant texts)) =
      .ok [.declaration (groupOf constant members)] (reading []) := by
  apply gather_of_statement
  · simpa [Cursor.hasMore, groupWords] using (keywordOf_kind constant).1
  · exact Cursor.dropSemicolons_of_kind (by exact (keywordOf_kind constant).2)
  · have hplain : plainStatement standard nested (reading (groupWords constant texts)) =
        .ok (.declaration (groupOf constant members)) (reading []) := by
      rw [groupWords, plainStatement_keyword, if_neg (by exact not_not_intro rfl)]
      exact bind_of_ok (gather_members h)
    rw [nested_statement]
    exact bind_of_ok hplain
  · rfl

/-! ### Emission -/

theorem emitAll_append (front back : List Node) :
    (Node.emitAll (front ++ back) : EmitM Unit) = (do Node.emitAll front; Node.emitAll back) := by
  induction front with
  | nil => simp [Node.emitAll]
  | cons node front ih => simp [Node.emitAll, ih]

theorem functionBindings_declarations (ds : List Declaration) : functionBindings (ds.map .declaration) = [] := by
  rw [functionBindings, List.filterMap_map]
  exact List.filterMap_eq_nil_iff.2 fun _ _ => rfl

/-- **A group is emitted as the sequence of its members**, and a program does not tell the two apart. -/
theorem emitProgram_group (h : ∀ d ∈ members, d.group = none) (before after : List Node) (span : Span) :
    (emitProgram ⟨before ++ [.declaration (groupOf constant members)] ++ after, span⟩ : EmitM Unit) =
      emitProgram ⟨before ++ members.map .declaration ++ after, span⟩ := by
  have hbindings : functionBindings (before ++ [.declaration (groupOf constant members)] ++ after) =
      functionBindings (before ++ members.map .declaration ++ after) := by
    have hmembers := functionBindings_declarations members
    rw [functionBindings] at hmembers ⊢
    rw [functionBindings, List.filterMap_append, List.filterMap_append, List.filterMap_append, List.filterMap_append,
      hmembers]
    rfl
  have hmain : (before ++ [Node.declaration (groupOf constant members)] ++ after).any
        (·.functionName? == some "main") =
      (before ++ members.map Node.declaration ++ after).any (·.functionName? == some "main") := by
    have hmembers : (members.map Node.declaration).any (·.functionName? == some "main") = false := by
      simp [Node.functionName?]
    rw [List.any_append, List.any_append, List.any_append, List.any_append, hmembers]
    rfl
  have hgroup : (Node.emitAll [.declaration (groupOf constant members)] : EmitM Unit) =
      Node.emitAll (members.map .declaration) := by
    rw [← Declaration.emitAll_eq h]
    simp [Node.emitAll, groupOf, Node.emit]
  have hemit : (Node.emitAll (before ++ [.declaration (groupOf constant members)] ++ after) : EmitM Unit) =
      Node.emitAll (before ++ members.map .declaration ++ after) := by
    rw [emitAll_append, emitAll_append, hgroup, emitAll_append, emitAll_append]
  rw [emitProgram, emitProgram]
  simp only [hbindings, hmain, hemit]

end Groups

/-! ### Programs -/

/-- A text behind the keyword, and the declaration that it stands for. -/
structure Member (constant : Bool) (file binding : String) (d : Declaration) : Prop where
  holds : HoldsStatements (singleText constant binding) file [.declaration d]
  single : d.group = none
  legal : ∀ word ∈ wordsOf binding.toList, word.1 ≠ .illegal
  words : MemberWords constant (wordsOf binding.toList) d

theorem HoldsDeclaration.member {binding : String} (h : HoldsDeclaration (singleText constant binding) file) :
    ∃ d, Member constant file binding d := by
  obtain ⟨d, span, hparse, hgroup⟩ := h
  have hwords : ∀ word ∈ wordsOf binding.toList, word.1 ≠ .illegal ∧ word.1 ≠ .endOfInput := by
    intro word hword
    obtain ⟨later, hgather⟩ := gather_of_parse hparse
    have hmem : word ∈ wordsOf (singleText constant binding).toList := by
      rw [wordsOf_single]
      exact List.mem_cons_of_mem _ hword
    rw [← map_scan file] at hmem
    obtain ⟨token, htoken, rfl⟩ := List.mem_map.1 hmem
    exact ⟨legal_of_gather hgather token htoken, (bounds_of_mem_scan htoken).1⟩
  obtain ⟨later, hgather⟩ := gather_words_of_parse hparse
  rw [wordsOf_single] at hgather
  have hsingle : (d.relocate fun _ => default).group = none := by
    rw [Declaration.relocate_eq, hgroup]
    rfl
  exact ⟨d.relocate fun _ => default, ⟨_, hparse, rfl⟩, hsingle, fun word hword => (hwords word hword).1,
    memberWords_of_gather (fun word hword => (hwords word hword).2) hgather hsingle⟩

/-- What is emitted for a program is decided by its statements, up to spans. -/
theorem emitInto_of_body {program : Program} {body : List Node} (h : program.body.map Node.unplaced = body)
    (sink : Sink) (options : Options) :
    unpositioned (emitInto program sink options).1 = unpositioned (emitInto ⟨body, default⟩ sink options).1 ∧
      (emitInto program sink options).2 = (emitInto ⟨body, default⟩ sink options).2 := by
  have hcause : Keeps (fun _ => default) Error.cause := fun _ => rfl
  have hprogram : program.relocate (fun _ => default) = ⟨body, default⟩ := by
    rw [← h]
    exact Block.relocate_eq _ program
  obtain ⟨hresult, hsink⟩ := emitInto_relocate hcause program sink options
  rw [hprogram] at hresult hsink
  exact ⟨hresult.symm, hsink.symm⟩

/-- What there is for each of some things can be put in a row. -/
theorem exists_forall₂ {α β : Type} {R : α → β → Prop} {values : List α}
    (h : ∀ value ∈ values, ∃ image, R value image) : ∃ images, List.Forall₂ R values images := by
  induction values with
  | nil => exact ⟨[], .nil⟩
  | cons value values ih =>
    obtain ⟨image, himage⟩ := h value List.mem_cons_self
    obtain ⟨images, himages⟩ := ih fun other hother => h other (List.mem_cons_of_mem value hother)
    exact ⟨image :: images, .cons himage himages⟩

/-- The text of a group is parsed to the members that its bindings stand for. -/
theorem HoldsStatements.group {bindings : List String} {members : List Declaration}
    (h : List.Forall₂ (Member constant file) bindings members) :
    HoldsStatements (groupText constant bindings) file [.declaration (groupOf constant members)] := by
  have hboth : List.Forall₂ (fun binding d => (∀ word ∈ wordsOf binding.toList, word.1 ≠ .illegal) ∧
      MemberWords constant (wordsOf binding.toList) d) bindings members :=
    h.imp fun _ _ hmember => ⟨hmember.legal, hmember.words⟩
  obtain ⟨hlegal, hmembers⟩ := (List.forall₂_and_left _ _).1 hboth
  have hgather := gather_group (List.forall₂_map_left_iff.2 hmembers)
  rw [← wordsOf_group hlegal] at hgather
  exact .of_words hgather

/-- **A group of declarations is the sequence of its members.**  If each of some texts makes one declaration with a
keyword in front of it, then all of them in one group make a group of those declarations; and in the middle of any
statements the group and the single declarations have the same emitted text, and the same result up to the position of
an error. -/
theorem translation_of_group {bindings before after : List String}
    (hbindings : ∀ binding ∈ bindings, HoldsDeclaration (singleText constant binding) file)
    (hothers : ∀ text ∈ before ++ after, ∃ program, parse text file = .ok program) :
    (∃ members, HoldsStatements (groupText constant bindings) file [.declaration (groupOf constant members)] ∧
      List.Forall₂ (fun binding d => HoldsStatements (singleText constant binding) file [.declaration d])
        bindings members) ∧
      ∃ grouped single, parse (separated (before ++ [groupText constant bindings] ++ after)) file = .ok grouped ∧
        parse (separated (before ++ bindings.map (singleText constant) ++ after)) file = .ok single ∧
        ∀ sink options,
          unpositioned (emitInto grouped sink options).1 = unpositioned (emitInto single sink options).1 ∧
            (emitInto grouped sink options).2 = (emitInto single sink options).2 := by
  obtain ⟨members, hmembers⟩ := exists_forall₂ fun binding hbinding => (hbindings binding hbinding).member
  have hgroup := HoldsStatements.group hmembers
  have hholds := hmembers.imp fun _ _ hmember => hmember.holds
  refine ⟨⟨members, hgroup, hholds⟩, ?_⟩
  have hbodies : ∀ text ∈ before ++ after, ∃ body, HoldsStatements text file body := by
    intro text htext
    obtain ⟨program, hparse⟩ := hothers text htext
    exact ⟨_, program, hparse, rfl⟩
  obtain ⟨bodies, hbefore⟩ := exists_forall₂ fun text htext => hbodies text (List.mem_append_left after htext)
  obtain ⟨bodies', hafter⟩ := exists_forall₂ fun text htext => hbodies text (List.mem_append_right before htext)
  have hsingles : List.Forall₂ (HoldsStatements · file) (bindings.map (singleText constant))
      (members.map fun d => [.declaration d]) := by
    rw [List.forall₂_map_left_iff, List.forall₂_map_right_iff]
    exact hholds
  obtain ⟨grouped, hgrouped, hbody⟩ :=
    HoldsStatements.separated (List.rel_append (List.rel_append hbefore (.cons hgroup .nil)) hafter)
  obtain ⟨single, hsingle, hbody'⟩ :=
    HoldsStatements.separated (List.rel_append (List.rel_append hbefore hsingles) hafter)
  have hnone : ∀ d ∈ members, d.group = none := by
    have hflip : List.Forall₂ (fun d binding => d.group = none ∧ Member constant file binding d) members bindings :=
      List.Forall₂.flip (hmembers.imp fun _ _ hmember => ⟨hmember.single, hmember⟩)
    exact ((List.forall₂_and_left _ _).1 hflip).1
  have hgroupedBody : grouped.body.map Node.unplaced =
      bodies.flatten ++ [.declaration (groupOf constant members)] ++ bodies'.flatten := by
    rw [hbody]
    simp
  have hsingleBody : single.body.map Node.unplaced =
      bodies.flatten ++ members.map .declaration ++ bodies'.flatten := by
    rw [hbody', List.flatten_append, List.flatten_append, ← List.flatMap_def, ← List.map_eq_flatMap]
  refine ⟨grouped, single, hgrouped, hsingle, fun sink options => ?_⟩
  obtain ⟨hresult, hsink⟩ := emitInto_of_body hgroupedBody sink options
  obtain ⟨hresult', hsink'⟩ := emitInto_of_body hsingleBody sink options
  rw [hresult, hsink, hresult', hsink', emitInto, emitTo, emitProgram_group hnone, ← emitTo, ← emitInto]
  exact ⟨rfl, rfl⟩

theorem translation_of_group_function : ∃ grouped single,
    parse (separated ["y := 2", groupText false ["x = y", "f = func() int \x7b return x \x7d;"], "x = f() - z"])
        "shell" = .ok grouped ∧
      parse (separated ["y := 2", "var x = y", "var f = func() int \x7b return x \x7d;", "x = f() - z"]) "shell" =
        .ok single ∧
      ∀ sink options,
        unpositioned (emitInto grouped sink options).1 = unpositioned (emitInto single sink options).1 ∧
          (emitInto grouped sink options).2 = (emitInto single sink options).2 := by
  have hbindings : ∀ binding ∈ ["x = y", "f = func() int \x7b return x \x7d;"],
      HoldsDeclaration (singleText false binding) "shell" := by
    simp only [List.forall_mem_cons, List.not_mem_nil, false_imp_iff, implies_true, and_true]
    exact ⟨⟨_, _, by rfl, rfl⟩, ⟨_, _, by rfl, rfl⟩⟩
  have hothers : ∀ text ∈ ["y := 2"] ++ ["x = f() - z"], ∃ program, parse text "shell" = .ok program := by
    simp only [List.cons_append, List.nil_append, List.forall_mem_cons, List.not_mem_nil, false_imp_iff, implies_true,
      and_true]
    exact ⟨⟨_, by rfl⟩, ⟨_, by rfl⟩⟩
  exact (translation_of_group hbindings hothers).2

end GoScript
