import GoScript.Grammar.Parse
import GoScript.Proofs.Views

/-!
# Rules and their parts

Every rule of the grammar reads a token before it refers to a parse for one of its parts; only a statement may start
with an expression right away.  So what a rule does at a cursor is determined by what its parts do at cursors with
fewer tokens left.  This file walks through the rules once and compares what they do for two families of parts and any
view of the tokens.

Where a rule may end with the input, it depends on the token that is seen there instead.  Brackets and what they enclose
need nothing: the closing one has been read.  An expression must not be continued by the token behind it, and a
statement has to be followed by a semicolon or a closing brace.

* `Subparsers.Track` — two families of parses do the same wherever fewer than `bound` tokens are left
* `Closes`, `Stops` — the tokens behind an expression and behind a statement
* `typeAt_tracks`, `expressionAt_tracks`, `blockAt_tracks`, `statementAt_tracks`, `conditional_tracks` — one level of
  nesting does the same wherever the parts do
* `program_tracks` — so does a whole program
-/

namespace GoScript

open ParseM

namespace Grammar

/-! ### Where the input may end -/

/-- A token of this kind neither starts nor continues an expression, and it does not make a type of a list. -/
structure Closes (kind : TokenKind) : Prop where
  operand : standard.operand kind = none
  continuation : standard.continuation kind = none
  type : standard.type kind = none
  curly : kind ≠ .openCurly

instance (kind : TokenKind) : Decidable (Closes kind) :=
  decidable_of_iff (standard.operand kind = none ∧ standard.continuation kind = none ∧ standard.type kind = none ∧
    kind ≠ .openCurly) ⟨fun ⟨operand, continuation, type, curly⟩ => ⟨operand, continuation, type, curly⟩,
      fun h => ⟨h.operand, h.continuation, h.type, h.curly⟩⟩

/-- A token of this kind ends a statement. -/
def Stops (kind : TokenKind) : Prop :=
  kind = .semicolon ∨ kind = .closeCurly

theorem Stops.closes {kind : TokenKind} (h : Stops kind) : Closes kind := by
  rcases h with rfl | rfl <;> decide

end Grammar

open Grammar in
/-- Two families of parses do the same wherever fewer than `bound` tokens are left, and read a token each time.  A
condition is looked for only at the word that starts one. -/
structure Subparsers.Track (view : View) (bound : Nat) (sub other : Subparsers) : Prop where
  type : ∀ cursor : Cursor, cursor.rest.length < bound → Tracks view (fun _ => True) cursor 1 sub.type other.type
  expression : ∀ power : Precedence, ¬ .unary < power → ∀ cursor : Cursor, cursor.rest.length < bound →
    Tracks view Closes cursor 1 (sub.expression power) (other.expression power)
  statement : ∀ cursor : Cursor, cursor.rest.length < bound →
    Tracks view (· = .closeCurly) cursor 1 sub.statement other.statement
  block : ∀ cursor : Cursor, cursor.rest.length < bound → Tracks view (fun _ => True) cursor 1 sub.block other.block
  conditional : ∀ cursor : Cursor, cursor.rest.length < bound → cursor.current.kind = .ifWord →
    Tracks view Stops cursor 1 sub.conditional other.conditional

theorem Subparsers.Track.mono {view : View} {m n : Nat} {sub other : Subparsers} (h : sub.Track view n other)
    (hmn : m ≤ n) : sub.Track view m other where
  type cursor hc := h.type cursor (by omega)
  expression power hpower cursor hc := h.expression power hpower cursor (by omega)
  statement cursor hc := h.statement cursor (by omega)
  block cursor hc := h.block cursor (by omega)
  conditional cursor hc := h.conditional cursor (by omega)

namespace Grammar

variable {view : View} {ends : TokenKind → Prop} {bound n : Nat} {sub other : Subparsers} {cursor : Cursor}

theorem bind_startsType_tracks {α : Type} [Relocatable α] {next next' : Bool → ParseM α}
    (hend : n = 0 → ∀ kind, ends kind → standard.type kind = none)
    (h : Tracks view ends cursor n (next (standard.type cursor.current.kind).isSome)
      (next' (standard.type cursor.current.kind).isSome)) :
    Tracks view ends cursor n (standard.startsType >>= next) (standard.startsType >>= next') := by
  have hkind : Tracks view ends cursor n (currentKind >>= fun kind => next (standard.type kind).isSome)
      (currentKind >>= fun kind => next' (standard.type kind).isSome) := by
    refine .bind_currentKind rfl (fun hn kind hends => ?_) h
    rw [hend hn kind hends]
    rfl
  exact hkind

/-- A decision within a statement treats a semicolon and a closing brace like the end of the input. -/
theorem bind_currentKind_stops {α : Type} [Relocatable α] {next next' : TokenKind → ParseM α}
    (hcolon : next' .colon = next' .illegal) (hsemicolon : next' .semicolon = next' .endOfInput)
    (hcurly : next' .closeCurly = next' .endOfInput)
    (h : Tracks view Stops cursor n (next cursor.current.kind) (next' cursor.current.kind)) :
    Tracks view Stops cursor n (currentKind >>= next) (currentKind >>= next') := by
  refine .bind_currentKind hcolon (fun _ kind hstops => ?_) h
  rcases hstops with rfl | rfl
  · exact hsemicolon
  · exact hcurly

/-! ### Types -/

theorem standard_type_kind {kind : TokenKind} {rule : TypeRule} (h : standard.type kind = some rule) :
    kind.Usable ∧ rule ≠ .any := by
  cases kind <;> cases h <;> decide

theorem primitiveType_tracks (h : cursor.Readable) :
    Tracks view (fun _ => True) cursor 1 primitiveType primitiveType := by
  refine .bind (.advance h) fun token later _ => ?_
  simp only [Token.kind_relocate]
  split
  · exact .pure _
  · exact .pure _
  · exact .pure _
  · exact .throw _

theorem bracketSize_tracks : Tracks view (fun _ => False) cursor 0 bracketSize bracketSize := by
  refine .bind_currentKind rfl nofun ?_
  split
  · exact .pure _
  · next hkind =>
    refine .bind_reading (.advance (Cursor.readable_of_kind hkind (by decide))) fun _ later _ => ?_
    exact .pure _
  · next hkind =>
    refine .bind_reading (.advance (Cursor.readable_of_kind hkind (by decide))) fun token later _ => ?_
    simp only [Token.value_relocate]
    split
    · exact .pure _
    · exact .throw _
  · exact .reject (by decide)

theorem sizeBrackets_tracks : Tracks view (fun _ => True) cursor 2 sizeBrackets sizeBrackets := by
  refine Tracks.bind_add (m := 1) (n := 0) (.take (by decide)) fun _ _ _ => ?_
  refine .bind_inner bracketSize_tracks fun form _ _ => ?_
  exact .bind (.take (by decide)) fun _ _ _ => .pure form

theorem arrayType_tracks (h : sub.Track view cursor.rest.length other) :
    Tracks view (fun _ => True) cursor 1 (arrayType sub) (arrayType other) := by
  refine .bind_inner sizeBrackets_tracks.inside fun form later hlater => ?_
  have hlength := hlater.length_le
  refine .bind (h.type later (by omega)) fun element last _ => ?_
  exact .pure (GoType.array element)

/-- A type, wherever the types with fewer tokens left do the same. -/
theorem typeAt_tracks (h : sub.Track view cursor.rest.length other) :
    Tracks view (fun _ => True) cursor 1 (typeAt standard sub) (typeAt standard other) := by
  refine .bind_current (fun hkind => ?_) nofun ?_
  · simp only [Token.kind_relocate, hkind]
    rfl
  · simp only [Token.kind_relocate, Token.value_relocate]
    split
    · next htype => exact absurd rfl (standard_type_kind htype).2
    · next htype =>
      have husable := (standard_type_kind htype).1
      exact primitiveType_tracks ⟨husable.1, husable.2.1⟩
    · exact arrayType_tracks h
    · exact .ite (fun _ => .throw _) fun _ => .reject (by decide)

/-! ### Operands -/

theorem atom_tracks (h : cursor.Readable) : Tracks view (fun _ => True) cursor 1 atom atom := by
  refine .bind (.advance h) fun token later _ => ?_
  simp only [Token.kind_relocate, Token.value_relocate]
  split
  · split
    · exact .pure _
    · exact .throw _
  · exact .pure _
  · exact .pure _
  · exact .pure _
  · exact .pure _
  · exact .throw _

theorem unaryOperation_tracks (h : sub.Track view cursor.rest.length other) (hread : cursor.Readable) :
    Tracks view Closes cursor 1 (unaryOperation sub) (unaryOperation other) := by
  refine .bind_inner (.advance hread) fun operator later hlater => ?_
  have hlength := hlater.length_le
  refine .bind (h.expression .unary (by decide) later (by omega)) fun operand last _ => ?_
  simp only [relocate_node, Node.span_relocate]
  exact .pure _

theorem parenthesized_tracks (h : sub.Track view cursor.rest.length other) (hread : cursor.Readable) :
    Tracks view (fun _ => True) cursor 1 (parenthesized sub) (parenthesized other) := by
  refine .bind_inner (.advance hread) fun _ later hlater => ?_
  have hlength := hlater.length_le
  refine .bind_inner (h.expression .lowest (by decide) later (by omega)).inside fun expression last _ => ?_
  exact .bind (.take (by decide)) fun _ _ _ => .pure expression

theorem listItem_tracks (h : sub.Track view bound other) (hcursor : cursor.rest.length < bound) {close : TokenKind}
    (hclose : close.Usable) (trailingComma : Bool) :
    Tracks view (fun _ => False) cursor 0 (listItem sub close trailingComma) (listItem other close trailingComma) := by
  obtain ⟨-, hillegal, hcolon⟩ := hclose
  refine .bind_currentKind ?_ nofun (.ite (fun _ => .pure _) fun _ => ?_)
  · rw [if_neg hcolon.symm, if_neg hillegal.symm]
  · refine .bind_reading (h.expression .lowest (by decide) cursor hcursor).inside fun expression later _ => ?_
    refine .bind_currentKind rfl nofun (.ite (fun _ => .pure _) fun hcomma => ?_)
    have hkind : later.current.kind = .comma := by simpa using hcomma
    refine .bind_reading (.advance (Cursor.readable_of_kind hkind (by decide))) fun _ last _ => ?_
    refine .bind_currentKind ?_ nofun (.ite (fun _ => .reject (by decide)) fun _ => .pure _)
    rw [beq_eq_false_iff_ne.mpr hcolon.symm, beq_eq_false_iff_ne.mpr hillegal.symm]

theorem commaList_tracks (h : sub.Track view bound other) (hcursor : cursor.rest.length < bound) {close : TokenKind}
    (hclose : close.Usable) (trailingComma : Bool) :
    Tracks view (fun _ => True) cursor 1 (commaList sub close trailingComma) (commaList other close trailingComma) := by
  have hitems : Tracks view (fun _ => False) cursor 0 (gather (listItem sub close trailingComma))
      (gather (listItem other close trailingComma)) := by
    refine .gather fun later hlater => ?_
    have hlength := hlater.length_le
    exact listItem_tracks h (by omega) hclose trailingComma
  exact .bind_inner hitems fun nodes later _ => .bind (.take hclose) fun _ _ _ => .pure nodes

/-! ### Array literals -/

theorem strayType?_relocate (expected : GoType) (node : Node) :
    strayType? expected (node.relocate f) = strayType? expected node := by
  have hown := Node.ownType?_relocate f node
  cases node <;> simp_all [strayType?, Node.relocate]

theorem stray?_relocate (element : GoType) (nodes : List Node) :
    stray? element (nodes.map (Node.relocate f)) = (stray? element nodes).map (Error.relocate f) := by
  induction nodes with
  | nil => rfl
  | cons node nodes ih =>
    unfold stray? at ih ⊢
    rw [List.map_cons, List.findSome?_cons, List.findSome?_cons, strayType?_relocate, ih]
    cases strayType? element node with
    | none => rfl
    | some received =>
      simp only [Option.map_some, Node.span_relocate]
      rfl

theorem overflow?_relocate (element : GoType) (form : ArrayForm) (nodes : List Node) (start : Position) :
    overflow? element form (nodes.map (Node.relocate f)) (f start) =
      (overflow? element form nodes start).map (Error.relocate f) := by
  cases form with
  | sized count =>
    by_cases h : count < nodes.length <;> simp [overflow?, h, Error.relocate]
  | counted | slice | bare => rfl

theorem arrayNode_relocate (element : Option GoType) (form : ArrayForm) (elements : Option (List Node)) (span : Span) :
    arrayNode element form (relocate f elements) (relocate f span) =
      relocate f (arrayNode element form elements span) := by
  have hspan : (relocate f span).start = f span.start := rfl
  cases elements with
  | none => cases element <;> rfl
  | some nodes =>
    have hnodes : relocate f (some nodes) = some (nodes.map (Node.relocate f)) := rfl
    have hnode : relocate f (Node.array element form (some nodes) span) =
        .array element form (some (nodes.map (Node.relocate f))) (relocate f span) := by
      show Node.array element form (Node.relocateAllOption f (some nodes)) (span.relocate f) = _
      rw [Node.relocateAllOption_eq_map]
      rfl
    cases element with
    | none =>
      show Except.ok _ = Except.ok (relocate f _)
      rw [hnode, hnodes]
    | some element =>
      simp only [arrayNode, hnodes, hspan, overflow?_relocate, stray?_relocate]
      cases overflow? element form nodes span.start with
      | some error => rfl
      | none =>
        cases stray? element nodes with
        | some error => rfl
        | none =>
          show Except.ok _ = Except.ok (relocate f _)
          rw [hnode]

theorem listNode_relocate (elements : List Node) (span : Span) :
    listNode (relocate f elements) (relocate f span) = relocate f (listNode elements span) := by
  cases elements with
  | nil => rfl
  | cons first rest =>
    show arrayNode (first.relocate f).ownType? .bare (relocate f (some (first :: rest))) (relocate f span) = _
    rw [Node.ownType?_relocate, arrayNode_relocate]
    rfl

theorem writtenSize?_relocate (elements : List Node) : writtenSize? (relocate f elements) = writtenSize? elements := by
  show writtenSize? (elements.map (Node.relocate f)) = _
  rcases elements with _ | ⟨first, _ | ⟨second, rest⟩⟩
  · rfl
  · cases first <;> simp [Node.relocate, writtenSize?]
  · simp [writtenSize?]

/-- A brace behind an array type would be a part of it. -/
theorem bracedElements_tracks (h : sub.Track view bound other) (hcursor : cursor.rest.length ≤ bound) :
    Tracks view (· ≠ .openCurly) cursor 0 (bracedElements sub) (bracedElements other) := by
  refine .bind_currentKind rfl (fun _ kind hcurly => ?_) (.ite (fun hkind => ?_) fun _ => .pure _)
  · rw [if_neg hcurly, if_neg (by decide)]
  · refine .bind_reading (.advance (Cursor.readable_of_kind hkind (by decide))) fun _ later hlater => ?_
    have hlength := hlater.length_le
    exact .bind_reading (commaList_tracks h (by omega) (by decide) true).always fun nodes _ _ => .pure _

theorem arrayWithElements_tracks (h : sub.Track view bound other) (hcursor : cursor.rest.length ≤ bound)
    (start : Position) (form : ArrayForm) (element : GoType) :
    Tracks view (· ≠ .openCurly) cursor 0 (arrayWithElements sub start form element)
      (arrayWithElements other (view.move start) form element) := by
  refine .bind (bracedElements_tracks h hcursor) fun elements later _ => .bind_spanSince ?_
  rw [arrayNode_relocate]
  exact .check _

/-- An element type and the elements behind it. -/
theorem typedArray_tracks (h : sub.Track view bound other) (hcursor : cursor.rest.length < bound) (start : Position)
    (form : ArrayForm) (wrap : GoType → GoType) :
    Tracks view (· ≠ .openCurly) cursor 1 (sub.type >>= fun element => arrayWithElements sub start form (wrap element))
      (other.type >>= fun element => arrayWithElements other (view.move start) form (wrap element)) := by
  refine .bind (h.type cursor hcursor).always fun element later hlater => ?_
  have hlength := hlater.length_le
  exact arrayWithElements_tracks h (by omega) start form (wrap element)

theorem isSizeOfType_tracks (position : Node) :
    Tracks view (standard.type · = none) cursor 0 (isSizeOfType standard position)
      (isSizeOfType standard (relocate view.move position)) := by
  cases position with
  | integer value span => exact bind_startsType_tracks (fun _ _ h => h) (.pure _)
  | _ => exact .pure false

/-- What follows `[size]` and starts with a bracket around an expression. -/
theorem indexOrSize_tracks (h : sub.Track view bound other) (hcursor : cursor.rest.length < bound)
    (hread : cursor.Readable) (start : Position) (size : Nat) (elements : List Node) :
    Tracks view Closes cursor 2
      (do
        let listSpan ← spanSince start
        let _ ← advance
        let position ← sub.expression .lowest
        let _ ← take .closeBracket
        if ← isSizeOfType standard position then arrayWithElements sub start (.sized size) (.array (← sub.type))
        else
          let list ← check (listNode elements listSpan)
          pure (.index list position (← spanSince start)))
      (do
        let listSpan ← spanSince (view.move start)
        let _ ← advance
        let position ← other.expression .lowest
        let _ ← take .closeBracket
        if ← isSizeOfType standard position then
          arrayWithElements other (view.move start) (.sized size) (.array (← other.type))
        else
          let list ← check (listNode (relocate view.move elements) listSpan)
          pure (.index list position (← spanSince (view.move start)))) := by
  refine .bind_spanSince (Tracks.bind_add (m := 1) (n := 0) (.advance hread) fun _ later hlater => ?_)
  have hlength := hlater.length_le
  refine .bind_inner (h.expression .lowest (by decide) later (by omega)).inside fun position last hlast => ?_
  have hlength' := hlast.length_le
  refine .bind (.take (by decide)) fun _ final hfinal => ?_
  have hlength'' := hfinal.length_le
  refine .bind ((isSizeOfType_tracks position).weaken fun _ hcloses => hcloses.type) fun isSize rest hrest => ?_
  have hlength''' := hrest.length_le
  refine .ite (fun _ => ?_) fun _ => ?_
  · have htyped : Tracks view (· ≠ .openCurly) rest 1 _ _ := typedArray_tracks h (by omega) start (.sized size) .array
    exact (htyped.weaken fun _ hcloses => hcloses.curly).mono (Nat.zero_le 1)
  · rw [listNode_relocate]
    exact .bind_check fun list => .bind_spanSince (.pure _)

theorem numberThenBracket_tracks (h : sub.Track view bound other) (hcursor : cursor.rest.length < bound)
    (hread : cursor.Readable) (start : Position) (size : Nat) (elements : List Node) :
    Tracks view Closes cursor 1 (numberThenBracket standard sub start size elements)
      (numberThenBracket standard other (view.move start) size (relocate view.move elements)) := by
  have hindex := indexOrSize_tracks h hcursor hread start size elements
  refine .bind_nextKind hread.rest_ne_nil rfl (fun htail value later hok => ?_) (.ite (fun _ => ?_) fun _ => ?_)
  · -- with one token left there is no index
    rw [if_neg (by decide)] at hok
    exact ((hindex.reaches value later hok).not_advance_nil htail).elim
  · exact (typedArray_tracks h hcursor start _ id).weaken fun _ hcloses => hcloses.curly
  · exact hindex.mono (by omega)

/-- An array literal that starts with `[]` or `[...]`. -/
theorem unsizedArray_tracks (h : sub.Track view cursor.rest.length other) (start : Position) :
    Tracks view (· ≠ .openCurly) cursor 3
      (do
        let form ← sizeBrackets
        if form = .slice ∧ !(← standard.startsType) then throw ⟨noElementType, start⟩
        else arrayWithElements sub start form (← sub.type))
      (do
        let form ← sizeBrackets
        if form = .slice ∧ !(← standard.startsType) then throw ⟨noElementType, view.move start⟩
        else arrayWithElements other (view.move start) form (← other.type)) := by
  refine Tracks.bind_add (n := 0) sizeBrackets_tracks.inside fun form later hlater => ?_
  have hlength := hlater.length_le
  refine bind_startsType_tracks nofun (.ite (fun _ => .throw _) fun _ => ?_)
  exact typedArray_tracks h (by omega) start form id

/-- An array literal that starts with a list in brackets, which may turn out to be the size of a type. -/
theorem listLiteral_tracks (h : sub.Track view cursor.rest.length other) (hread : cursor.Readable) (start : Position) :
    Tracks view Closes cursor 2
      (do
        let _ ← advance
        let elements ← commaList sub .closeBracket false
        match writtenSize? elements with
        | some size =>
          if (← currentKind) = .openBracket then numberThenBracket standard sub start size elements
          else if ← standard.startsType then arrayWithElements sub start (.sized size) (← sub.type)
          else check (listNode elements (← spanSince start))
        | none => check (listNode elements (← spanSince start)))
      (do
        let _ ← advance
        let elements ← commaList other .closeBracket false
        match writtenSize? elements with
        | some size =>
          if (← currentKind) = .openBracket then numberThenBracket standard other (view.move start) size elements
          else if ← standard.startsType then arrayWithElements other (view.move start) (.sized size) (← other.type)
          else check (listNode elements (← spanSince (view.move start)))
        | none => check (listNode elements (← spanSince (view.move start)))) := by
  refine Tracks.bind_add (m := 1) (n := 0) (.advance hread) fun _ later hlater => ?_
  have hlength := hlater.length_le
  refine .bind (commaList_tracks h (by omega) (by decide) false).always fun elements last hlast => ?_
  have hlength' := hlast.length_le
  have listed : Tracks view Closes last 0 (spanSince start >>= fun span => check (listNode elements span))
      (spanSince (view.move start) >>= fun span => check (listNode (relocate view.move elements) span)) := by
    refine .bind_spanSince ?_
    rw [listNode_relocate]
    exact .check _
  rw [writtenSize?_relocate]
  split
  · next size _ =>
    refine .bind_currentKind rfl (fun _ kind hcloses => ?_) (.ite (fun hbracket => ?_) fun _ => ?_)
    · have hbracket : kind ≠ .openBracket := by
        rintro rfl
        cases hcloses.type
      rw [if_neg hbracket, if_neg (by decide)]
    · have hnumber := numberThenBracket_tracks h (by omega) (Cursor.readable_of_kind hbracket (by decide))
      exact (hnumber _ _ _).mono (Nat.zero_le 1)
    · refine bind_startsType_tracks (fun _ _ hcloses => hcloses.type) (.ite (fun _ => ?_) fun _ => listed)
      have htyped : Tracks view (· ≠ .openCurly) last 1 _ _ := typedArray_tracks h (by omega) start (.sized size) id
      exact (htyped.weaken fun _ hcloses => hcloses.curly).mono (Nat.zero_le 1)
  · exact listed

theorem arrayLiteral_tracks (h : sub.Track view cursor.rest.length other) (hread : cursor.Readable) :
    Tracks view Closes cursor 1 (arrayLiteral standard sub) (arrayLiteral standard other) := by
  have hlisted := listLiteral_tracks h hread cursor.position
  refine .bind_position (.bind_nextKind hread.rest_ne_nil rfl (fun htail value later hok => ?_) ?_)
  · -- with one token left there is no list
    rw [if_neg (by decide)] at hok
    exact ((hlisted.reaches value later hok).not_advance_nil htail).elim
  · refine .ite (fun _ => ?_) fun _ => hlisted.mono (by omega)
    exact ((unsizedArray_tracks h cursor.position).weaken fun _ hcloses => hcloses.curly).mono (by omega)

/-! ### What continues an operand -/

theorem binaryOperation_tracks (h : sub.Track view cursor.rest.length other) (hread : cursor.Readable) (left : Node)
    {power : Precedence} (hpower : ¬ .unary < power) :
    Tracks view Closes cursor 1 (binaryOperation sub left power)
      (binaryOperation other (relocate view.move left) power) := by
  refine .bind_inner (.advance hread) fun operator later hlater => ?_
  have hlength := hlater.length_le
  refine .bind (h.expression power hpower later (by omega)) fun right last _ => ?_
  simp only [relocate_node, Node.span_relocate]
  exact .pure _

theorem callOf_tracks (h : sub.Track view cursor.rest.length other) (hread : cursor.Readable) (left : Node) :
    Tracks view (fun _ => True) cursor 1 (callOf sub left) (callOf other (relocate view.move left)) := by
  have refused : ∀ node : Node, Tracks view (fun _ => True) cursor 1
      (throw ⟨.misplacedToken node.source "only named functions can be called", node.span.start⟩ : ParseM Node)
      (throw ⟨.misplacedToken (relocate view.move node).source "only named functions can be called",
        (relocate view.move node).span.start⟩) := by
    intro node
    simp only [relocate_node, Node.source_relocate, Node.span_relocate]
    exact .throw _
  cases left with
  | identifier callee span =>
    refine .bind_inner (.advance hread) fun _ later hlater => ?_
    have hlength := hlater.length_le
    refine .bind (commaList_tracks h (by omega) (by decide) false) fun arguments last _ => ?_
    refine .bind_spanSince (.pure_of_eq ?_)
    exact congrArg (Node.call callee · _) (Node.relocateAll_eq_map view.move arguments).symm
  | _ => exact refused _

theorem indexInto_tracks (h : sub.Track view cursor.rest.length other) (hread : cursor.Readable) (left : Node) :
    Tracks view (fun _ => True) cursor 1 (indexInto sub left) (indexInto other (relocate view.move left)) := by
  refine .bind_inner (.advance hread) fun _ later hlater => ?_
  have hlength := hlater.length_le
  refine .bind_inner (h.expression .lowest (by decide) later (by omega)).inside fun position last _ => ?_
  refine .bind (.take (by decide)) fun _ final _ => ?_
  simp only [relocate_node, Node.span_relocate]
  exact .bind_spanSince (.pure _)

theorem standard_continuation_kind {kind : TokenKind} {entry : Precedence × Continuation}
    (h : standard.continuation kind = some entry) : kind.Usable := by
  cases kind <;> first | decide | simp [standard, Precedence.binary?] at h

/-- A prefix binds more tightly than any binary operator. -/
theorem standard_continuation_binary {kind : TokenKind} {power : Precedence}
    (h : standard.continuation kind = some (power, .binary)) : ¬ .unary < power := by
  cases kind <;> simp [standard, Precedence.binary?] at h <;> subst h <;> decide

/-- Calls and indexes end with a bracket of their own. -/
theorem continueWith_tracks (h : sub.Track view cursor.rest.length other) {rule : Continuation} {power : Precedence}
    (hentry : standard.continuation cursor.current.kind = some (power, rule)) (left : Node) :
    Tracks view (rule = .binary → Closes ·) cursor 1 (continueWith sub rule left power)
      (continueWith other rule (relocate view.move left) power) := by
  have hread : cursor.Readable := Cursor.readable_of_usable (standard_continuation_kind hentry)
  cases rule with
  | binary =>
    exact (binaryOperation_tracks h hread left (standard_continuation_binary hentry)).weaken fun _ hcloses =>
      hcloses rfl
  | call => exact (callOf_tracks h hread left).always
  | index => exact (indexInto_tracks h hread left).always

theorem continueRound_tracks (h : sub.Track view cursor.rest.length other) (power : Precedence) (left : Node) :
    Tracks view Closes cursor 0 (continueRound standard sub power left)
      (continueRound standard other power (relocate view.move left)) := by
  refine .bind_currentKind rfl (fun _ kind hcloses => ?_) ?_
  · rw [hcloses.continuation]
    rfl
  · split
    · next nextPower rule hentry =>
      refine .ite (fun _ => ?_) fun _ => .pure _
      have hstep := (continueWith_tracks h hentry left).weaken fun _ hcloses _ => hcloses
      exact .bind_reading hstep fun node _ _ => .pure _
    · exact .pure _

/-! ### Declarations -/

theorem valueAndType_relocate (name : String) (written : Option Node) :
    valueAndType name (relocate f written) = relocate f (valueAndType name written) := by
  show valueAndType name (written.map (Node.relocate f)) =
    ((valueAndType name written).1.map (Node.relocate f), (valueAndType name written).2.map id)
  cases written with
  | none => rfl
  | some node =>
    have hown := Node.ownType?_relocate f node
    cases node with
    | array element form elements span => cases elements <;> simp_all [valueAndType, Node.relocate]
    | function g => simp_all [valueAndType, Node.relocate, Function.relocate_eq, Function.returnType]
    | _ => simp_all [valueAndType, Node.relocate]

theorem constantFault?_relocate (type : Option GoType) (value : Option Node) :
    constantFault? type (value.map (Node.relocate f)) = constantFault? type value := by
  cases value with
  | none => rfl
  | some node => cases node <;> simp [constantFault?, Node.relocate]

theorem declarationOf_relocate (name : Token) (constant : Bool) (explicit : Option GoType) (written : Option Node)
    (span : Span) :
    declarationOf (relocate f name) constant explicit (relocate f written) (relocate f span) =
      relocate f (declarationOf name constant explicit written span) := by
  unfold declarationOf
  rw [Token.value_relocate, valueAndType_relocate]
  obtain ⟨value, inferred⟩ := valueAndType name.value written
  have hinferred : relocate f inferred = inferred := congrFun Option.map_id inferred
  have hpair : relocate f (value, inferred) = (value.map (Node.relocate f), inferred) :=
    Prod.ext rfl hinferred
  have hok : ∀ inferred : Option GoType, relocate f
      (Declaration.mk name.value constant explicit inferred value none span) =
      ⟨name.value, constant, explicit, inferred, value.map (Node.relocate f), none, relocate f span⟩ := by
    intro inferred
    exact Declaration.relocate_eq f _
  rw [hpair]
  dsimp only
  rw [constantFault?_relocate, Option.isNone_map, ← hok]
  split
  · rfl
  · rfl

theorem writtenType_tracks (h : sub.Track view bound other) (hcursor : cursor.rest.length < bound) :
    Tracks view Stops cursor 0 (writtenType standard sub) (writtenType standard other) := by
  refine bind_startsType_tracks (fun _ _ hstops => hstops.closes.type) ?_
  refine bind_currentKind_stops rfl rfl rfl (.ite (fun _ => ?_) fun _ => .pure _)
  exact .bind_reading (h.type cursor hcursor).always fun type _ _ => .pure _

theorem writtenValue_tracks (h : sub.Track view bound other) (hcursor : cursor.rest.length < bound) :
    Tracks view Stops cursor 0 (writtenValue sub) (writtenValue other) := by
  refine bind_currentKind_stops rfl rfl rfl (.ite (fun hkind => ?_) fun _ => .pure _)
  refine .bind_reading (.advance (Cursor.readable_of_kind hkind (by decide))) fun _ later hlater => ?_
  have hlength := hlater.length_le
  have hvalue := (h.expression .lowest (by decide) later (by omega)).weaken fun _ => Stops.closes
  exact .bind_reading hvalue fun node _ _ => .pure _

theorem declared_tracks (h : sub.Track view bound other) (hcursor : cursor.rest.length < bound) (constant : Bool)
    (start : Position) :
    Tracks view Stops cursor 1 (declared standard sub constant start)
      (declared standard other constant (view.move start)) := by
  refine .bind_current (fun _ => rfl) nofun ?_
  refine .bind (.takeOr (by decide) _) fun name later hlater => ?_
  have hlength := hlater.length_le
  refine .bind (writtenType_tracks h (by omega)) fun explicit last hlast => ?_
  have hlength' := hlast.length_le
  refine .bind (writtenValue_tracks h (by omega)) fun written final _ => .bind_spanSince ?_
  have hexplicit : relocate view.move explicit = explicit := congrFun Option.map_id explicit
  rw [hexplicit, declarationOf_relocate]
  exact .check _

theorem groupItem_tracks (h : sub.Track view bound other) (hcursor : cursor.rest.length < bound) (constant : Bool) :
    Tracks view (fun _ => False) cursor 0 (groupItem standard sub constant) (groupItem standard other constant) := by
  refine .bind Tracks.dropSemicolons.inside fun _ later hlater => ?_
  have hlength := hlater.length_le
  refine .bind_currentKind rfl nofun (.ite (fun _ => .pure _) fun _ => .bind_position ?_)
  exact .bind_reading (declared_tracks h (by omega) constant _).inside fun declaration _ _ => .pure _

theorem declarationStatement_tracks (h : sub.Track view cursor.rest.length other) (hread : cursor.Readable) :
    Tracks view Stops cursor 1 (declarationStatement standard sub) (declarationStatement standard other) := by
  refine .bind (.advance hread) fun keyword later hlater => ?_
  have hlength := hlater.length_le
  refine bind_currentKind_stops rfl rfl rfl (.ite (fun _ => ?_) fun hparen => ?_)
  · exact .bind_reading (declared_tracks h (by omega) _ _) fun declaration _ _ => .pure _
  · have hkind : later.current.kind = .openParen := by simpa using hparen
    refine .bind_reading (.advance (Cursor.readable_of_kind hkind (by decide))) fun _ last hlast => ?_
    have hlength' := hlast.length_le
    have hmembers : Tracks view (fun _ => False) last 0 (gather (groupItem standard sub (keyword.kind == .constWord)))
        (gather (groupItem standard other (keyword.kind == .constWord))) := by
      refine .gather fun inner hinner => ?_
      have hlength'' := hinner.length_le
      exact groupItem_tracks h (by omega) _
    refine Tracks.mono (n := 1) (.bind_inner hmembers fun members final _ => ?_) (Nat.zero_le 1)
    refine .bind (.take (by decide)) fun _ final _ => .bind_spanSince (.pure_of_eq ?_)
    exact congrArg Node.declaration
      (Declaration.relocate_eq view.move ⟨"", keyword.kind == .constWord, none, none, none, some members, _⟩).symm

theorem shortDeclaration_tracks (h : sub.Track view cursor.rest.length other) (hread : cursor.Readable) :
    Tracks view Stops cursor 1 (shortDeclaration sub) (shortDeclaration other) := by
  refine .bind_inner (.advance hread) fun name later hlater => ?_
  have hlength := hlater.length_le
  refine .bind_inner (.take (by decide)) fun _ last hlast => ?_
  have hlength' := hlast.length_le
  have hvalue := (h.expression .lowest (by decide) last (by omega)).weaken fun _ => Stops.closes
  refine .bind hvalue fun value final _ => .bind_spanSince ?_
  have hdeclaration := declarationOf_relocate (f := view.move) name false none (some value)
    (final.spanSince name.span.start)
  refine .bind (hdeclaration ▸ Tracks.check _) fun declaration _ _ => ?_
  exact .pure _

/-! ### Other simple statements -/

theorem assignment_tracks (h : sub.Track view cursor.rest.length other) (hread : cursor.Readable) :
    Tracks view Stops cursor 1 (assignment sub) (assignment other) := by
  refine .bind_inner (.advance hread) fun name later hlater => ?_
  have hlength := hlater.length_le
  refine .bind_inner (.take (by decide)) fun _ last hlast => ?_
  have hlength' := hlast.length_le
  have hvalue := (h.expression .lowest (by decide) last (by omega)).weaken fun _ => Stops.closes
  exact .bind hvalue fun value final _ => .bind_spanSince (.pure _)

/-- A return without a value may end with the input. -/
theorem returnedValue_tracks (h : sub.Track view bound other) (hcursor : cursor.rest.length < bound) :
    Tracks view Stops cursor 0 (returnedValue sub) (returnedValue other) := by
  refine bind_currentKind_stops rfl rfl rfl ?_
  split
  · exact .pure _
  · exact .pure _
  · exact .pure _
  · have hvalue := (h.expression .lowest (by decide) cursor hcursor).weaken fun _ => Stops.closes
    exact .bind_reading hvalue fun value _ _ => .pure _

theorem returnStatement_tracks (h : sub.Track view cursor.rest.length other) (hread : cursor.Readable) :
    Tracks view Stops cursor 1 (returnStatement sub) (returnStatement other) := by
  refine .bind (.advance hread) fun keyword later hlater => ?_
  have hlength := hlater.length_le
  refine .bind (returnedValue_tracks h (by omega)) fun value last _ => .bind_spanSince (.pure_of_eq ?_)
  exact congrArg (Node.returning · _) (Node.relocateOption_eq_map view.move value).symm

/-- An expression as a statement starts right at the cursor, so the expressions have to do the same there too. -/
theorem expressionStatement_tracks
    (hexpression : Tracks view Closes cursor 1 (sub.expression .lowest) (other.expression .lowest)) :
    Tracks view Stops cursor 1 (expressionStatement sub) (expressionStatement other) := by
  refine .bind (hexpression.weaken fun _ => Stops.closes) fun expression later _ => ?_
  simp only [relocate_node, Node.span_relocate]
  exact .pure _

/-! ### Blocks -/

theorem blockItem_tracks (h : sub.Track view bound other) (hcursor : cursor.rest.length < bound) :
    Tracks view (fun _ => False) cursor 0 (blockItem sub) (blockItem other) := by
  refine .bind Tracks.dropSemicolons.inside fun _ later hlater => ?_
  have hlength := hlater.length_le
  refine .bind_currentKind rfl nofun ?_
  split
  · exact .pure _
  · exact .reject (by decide)
  · exact .bind_reading (h.statement later (by omega)).inside fun statement _ _ => .pure _

/-- A block, wherever the statements with fewer tokens left do the same. -/
theorem blockAt_tracks (h : sub.Track view cursor.rest.length other) :
    Tracks view (fun _ => True) cursor 1 (blockAt sub) (blockAt other) := by
  refine .bind_inner (.take (by decide)) fun brace later hlater => ?_
  have hlength := hlater.length_le
  have hbody : Tracks view (fun _ => False) later 0 (gather (blockItem sub)) (gather (blockItem other)) := by
    refine .gather fun inner hinner => ?_
    have hlength' := hinner.length_le
    exact blockItem_tracks h (by omega)
  refine .bind_inner hbody fun body last _ => ?_
  refine .bind (.take (by decide)) fun _ final _ => .bind_spanSince (.pure_of_eq ?_)
  exact (Block.relocate_eq view.move ⟨body, _⟩).symm

theorem alternative_tracks (h : sub.Track view bound other) (hcursor : cursor.rest.length < bound) :
    Tracks view Stops cursor 1 (alternative sub) (alternative other) := by
  refine .bind_currentKind rfl nofun (.ite (fun hkind => .bind_position ?_) fun _ => ?_)
  · refine .bind (h.conditional cursor hcursor hkind) fun inner later _ => .bind_spanSince (.pure_of_eq ?_)
    exact (Block.relocate_eq view.move ⟨[inner], _⟩).symm
  · exact (h.block cursor hcursor).always

/-- A condition without `else` may end with the input. -/
theorem otherwise_tracks (h : sub.Track view bound other) (hcursor : cursor.rest.length < bound) :
    Tracks view Stops cursor 0 (otherwise sub) (otherwise other) := by
  refine bind_currentKind_stops rfl rfl rfl (.ite (fun hkind => ?_) fun _ => .pure _)
  refine .bind_reading (.advance (Cursor.readable_of_kind hkind (by decide))) fun _ later hlater => ?_
  have hlength := hlater.length_le
  exact .bind_reading (alternative_tracks h (by omega)) fun block _ _ => .pure _

theorem conditional_tracks (h : sub.Track view cursor.rest.length other) (hread : cursor.Readable) :
    Tracks view Stops cursor 1 (conditionalStatement sub) (conditionalStatement other) := by
  refine .bind_inner (.advance hread) fun keyword later hlater => ?_
  have hlength := hlater.length_le
  refine .bind_inner (h.expression .lowest (by decide) later (by omega)).inside fun condition last hlast => ?_
  have hlength' := hlast.length_le
  refine .bind (h.block last (by omega)).always fun consequence final hfinal => ?_
  have hlength'' := hfinal.length_le
  refine .bind (otherwise_tracks h (by omega)) fun block _ _ => .bind_spanSince (.pure_of_eq ?_)
  exact congrArg (Node.conditional _ _ · _) (Block.relocateOption_eq_map view.move block).symm

/-! ### Functions -/

theorem requireTyped_relocate (pending : List Token) :
    requireTyped (relocate f pending) = relocate f (requireTyped pending) := by
  cases pending <;> rfl

theorem typedParameters_relocate (pending : List Token) (name : Token) (type : GoType) (span : Span) :
    typedParameters (relocate f pending) (relocate f name) type (relocate f span) =
      relocate f (typedParameters pending name type span) := by
  show (pending.map (Token.relocate f)).map _ ++ [_] = (pending.map _ ++ [_]).map (Parameter.relocate f)
  simp only [List.map_append, List.map_map]
  rfl

theorem dropComma_tracks : Tracks view (fun _ => False) cursor 0 dropComma dropComma := by
  refine .bind_currentKind rfl nofun (.ite (fun hkind => ?_) fun _ => .pure ())
  exact .bind_reading (.advance (Cursor.readable_of_kind hkind (by decide))) fun _ _ _ => .pure ()

theorem variadicParameter_tracks (h : sub.Track view bound other) (hcursor : cursor.rest.length < bound)
    (hread : cursor.Readable) (name : Token) (pending : List Token) (parameters : List Parameter) :
    Tracks view (fun _ => False) cursor 0 (variadicParameter sub name pending parameters)
      (variadicParameter other (relocate view.move name) (relocate view.move pending)
        (relocate view.move parameters)) := by
  unfold variadicParameter
  rw [requireTyped_relocate]
  refine .bind_check fun _ => ?_
  refine .bind_reading (.advance hread) fun _ later hlater => ?_
  have hlength := hlater.length_le
  refine .bind_reading (h.type later (by omega)).always fun element last _ => .bind_spanSince ?_
  refine .bind dropComma_tracks fun _ final _ => ?_
  refine .bind_currentKind rfl nofun (.ite (fun _ => .reject (by decide)) fun _ => .pure_of_eq ?_)
  exact (relocate_append view.move parameters [⟨name.value, .array element, true, _⟩]).symm

theorem plainParameter_tracks (h : sub.Track view bound other) (hcursor : cursor.rest.length < bound)
    (name : Token) (pending : List Token) (parameters : List Parameter) :
    Tracks view (fun _ => False) cursor 0 (plainParameter sub name pending parameters)
      (plainParameter other (relocate view.move name) (relocate view.move pending)
        (relocate view.move parameters)) := by
  refine .bind_currentKind rfl nofun (.ite (fun _ => .pure_of_eq ?_) fun _ => ?_)
  · exact Prod.ext (relocate_append view.move pending [name]).symm rfl
  · refine .bind_reading (h.type cursor hcursor).always fun type later _ => .bind_spanSince (.pure_of_eq ?_)
    rw [typedParameters_relocate]
    exact Prod.ext rfl (relocate_append view.move parameters _).symm

theorem parameterRound_tracks (h : sub.Track view bound other) (hcursor : cursor.rest.length < bound)
    (state : List Token × List Parameter) :
    Tracks view (fun _ => False) cursor 0 (parameterRound sub state)
      (parameterRound other (relocate view.move state)) := by
  obtain ⟨pending, parameters⟩ := state
  refine .bind_current (fun hkind => ?_) (fun _ _ => id) (.ite (fun _ => .pure _) fun _ => ?_)
  · simp only [Token.kind_relocate, hkind]
    rfl
  · refine .bind_reading (.takeOr (by decide) _) fun name later hlater => ?_
    have hlength := hlater.length_le
    refine .bind_currentKind rfl nofun (.ite (fun hkind => ?_) fun _ => ?_)
    · have hread : later.Readable := Cursor.readable_of_kind hkind (by decide)
      exact .bind (variadicParameter_tracks h (by omega) hread name pending parameters) fun _ _ _ => .pure _
    · refine .bind (plainParameter_tracks h (by omega) name pending parameters) fun state last _ => ?_
      refine .bind_currentKind rfl nofun (.ite (fun _ => .pure _) fun hcomma => ?_)
      have hkind : last.current.kind = .comma := by simpa using hcomma
      exact .bind_reading (.advance (Cursor.readable_of_kind hkind (by decide))) fun _ _ _ => .pure _

theorem parameterList_tracks (h : sub.Track view bound other) (hcursor : cursor.rest.length < bound) :
    Tracks view (fun _ => False) cursor 0 (parameterList sub) (parameterList other) := by
  have hrounds : Tracks view (fun _ => False) cursor 0 (loop (parameterRound sub) ([], []))
      (loop (parameterRound other) ([], [])) := by
    refine .loop (([], []) : List Token × List Parameter) fun state later hlater => ?_
    have hlength := hlater.length_le
    exact parameterRound_tracks h (by omega) state
  refine .bind hrounds fun state later _ => ?_
  obtain ⟨pending, parameters⟩ := state
  show Tracks view _ later 0 (check (requireTyped pending) >>= fun _ => pure parameters)
    (check (requireTyped (relocate view.move pending)) >>= fun _ => pure (relocate view.move parameters))
  rw [requireTyped_relocate]
  exact .bind_check fun _ => .pure _

theorem functionName_tracks : Tracks view (fun _ => False) cursor 0 functionName functionName := by
  refine .bind_currentKind rfl nofun (.ite (fun hkind => ?_) fun _ => .pure _)
  exact .bind_reading (.advance (Cursor.readable_of_kind hkind (by decide))) fun _ _ _ => .pure _

theorem resultType_tracks (h : sub.Track view bound other) (hcursor : cursor.rest.length < bound) :
    Tracks view (fun _ => False) cursor 0 (resultType sub) (resultType other) := by
  refine .bind_currentKind rfl nofun (.ite (fun _ => .pure _) fun _ => ?_)
  exact .bind_reading (h.type cursor hcursor).always fun type _ _ => .pure _

/-- A function ends with the brace that closes its body. -/
theorem functionAt_tracks (h : sub.Track view cursor.rest.length other) :
    Tracks view (fun _ => True) cursor 1 (functionAt sub) (functionAt other) := by
  refine .bind_inner (.take (by decide)) fun keyword c₁ h₁ => ?_
  have l₁ := h₁.length_le
  refine .bind_inner functionName_tracks fun name c₂ h₂ => ?_
  have l₂ := h₂.length_le
  refine .bind_inner (.take (by decide)) fun _ c₃ h₃ => ?_
  have l₃ := h₃.length_le
  refine .bind_inner (parameterList_tracks h (by omega)) fun parameters c₄ h₄ => ?_
  have l₄ := h₄.length_le
  refine .bind_inner (.take (by decide)) fun _ c₅ h₅ => ?_
  have l₅ := h₅.length_le
  refine .bind_inner (resultType_tracks h (by omega)) fun returns c₆ h₆ => ?_
  have l₆ := h₆.length_le
  refine .bind (h.block c₆ (by omega)) fun body c₇ _ => .bind_spanSince (.pure_of_eq ?_)
  have hname : relocate view.move name = name := congrFun Option.map_id name
  have hreturns : relocate view.move returns = returns := congrFun Option.map_id returns
  rw [hname, hreturns]
  rfl

/-! ### One level of nesting -/

/-- The operands of the language start with a token and are read by one of five rules. -/
theorem standard_operand_kind {kind : TokenKind} {rule : Rule} (h : standard.operand kind = some rule) :
    kind.Usable ∧
      (rule = .primary ∨ rule = .unary ∨ rule = .grouping ∨ rule = .array ∨ rule = .functionLiteral) := by
  cases kind <;> cases h <;> decide

/-- The statements of the language with a rule of their own start with a token and are read by one of four rules. -/
theorem standard_statement_kind {kind : TokenKind} {rule : Rule} (h : standard.statement kind = some rule) :
    kind.Usable ∧
      (rule = .declaration ∨ rule = .conditional ∨ rule = .functionDeclaration ∨ rule = .returning) := by
  cases kind <;> cases h <;> decide

/-- The operands other than array literals and those with an operator in front end with a token of their own. -/
theorem operand_tracks (h : sub.Track view cursor.rest.length other) {rule : Rule}
    (hrule : standard.operand cursor.current.kind = some rule) :
    Tracks view (rule = .unary ∨ rule = .array → Closes ·) cursor 1 (ruleAt standard sub rule)
      (ruleAt standard other rule) := by
  obtain ⟨husable, hcases⟩ := standard_operand_kind hrule
  have hread : cursor.Readable := Cursor.readable_of_usable husable
  rcases hcases with rfl | rfl | rfl | rfl | rfl
  · exact (atom_tracks hread).always
  · exact (unaryOperation_tracks h hread).weaken fun _ hcloses => hcloses (.inl rfl)
  · exact (parenthesized_tracks h hread).always
  · exact (arrayLiteral_tracks h hread).weaken fun _ hcloses => hcloses (.inr rfl)
  · exact .bind (functionAt_tracks h).always fun function _ _ => .pure _

/-- An expression, wherever all parses with fewer tokens left do the same. -/
theorem expressionAt_tracks (h : sub.Track view cursor.rest.length other) (power : Precedence) :
    Tracks view Closes cursor 1 (expressionAt standard sub power) (expressionAt standard other power) := by
  refine .bind_currentKind rfl nofun ?_
  split
  · exact .reject (by decide)
  · next rule hrule =>
    refine .bind ((operand_tracks h hrule).weaken fun _ hcloses _ => hcloses) fun operand later hlater => ?_
    have hlength := hlater.length_le
    refine .loop operand fun left last hlast => ?_
    have hlength' := hlast.length_le
    exact continueRound_tracks (h.mono (by omega)) power left

theorem nameStatement_tracks (h : sub.Track view cursor.rest.length other) (hread : cursor.Readable)
    (hexpression : Tracks view Closes cursor 1 (sub.expression .lowest) (other.expression .lowest)) :
    Tracks view Stops cursor 1 (nameStatement sub) (nameStatement other) := by
  refine .bind_nextKind hread.rest_ne_nil rfl (fun _ _ _ _ _ hstops => ?_) ?_
  · rcases hstops with rfl | rfl <;> rfl
  split
  · exact shortDeclaration_tracks h hread
  · exact assignment_tracks h hread
  · exact expressionStatement_tracks hexpression

theorem plainStatement_tracks (h : sub.Track view cursor.rest.length other)
    (hexpression : Tracks view Closes cursor 1 (sub.expression .lowest) (other.expression .lowest)) :
    Tracks view Stops cursor 1 (plainStatement standard sub) (plainStatement standard other) := by
  refine .bind_currentKind rfl nofun ?_
  split
  · next rule hrule =>
    obtain ⟨husable, hcases⟩ := standard_statement_kind hrule
    have hread : cursor.Readable := Cursor.readable_of_usable husable
    rcases hcases with rfl | rfl | rfl | rfl
    · exact declarationStatement_tracks h hread
    · exact conditional_tracks h hread
    · exact .bind (functionAt_tracks h).always fun function _ _ => .pure _
    · exact returnStatement_tracks h hread
  · refine .ite (fun hkind => ?_) fun _ => expressionStatement_tracks hexpression
    exact nameStatement_tracks h (Cursor.readable_of_kind hkind (by decide)) hexpression

/-- A statement and the semicolons after it.  They would not be the same if another one stood where the input ends. -/
theorem statementAt_tracks (h : sub.Track view cursor.rest.length other)
    (hexpression : Tracks view Closes cursor 1 (sub.expression .lowest) (other.expression .lowest)) :
    Tracks view (· = .closeCurly) cursor 1 (statementAt standard sub) (statementAt standard other) := by
  have hplain := (plainStatement_tracks h hexpression).weaken fun _ => Or.inr
  refine .bind hplain fun statement later _ => ?_
  refine .bind (Tracks.dropSemicolons.weaken ?_) fun _ _ _ => .pure statement
  rintro _ rfl
  decide

/-! ### Programs -/

theorem programItem_tracks (h : sub.Track view bound other) (hcursor : cursor.rest.length < bound) :
    Tracks view (fun _ => False) cursor 0 (programItem sub) (programItem other) := by
  refine .bind Tracks.dropSemicolons.inside fun _ later hlater => ?_
  have hlength := hlater.length_le
  have hmore : Tracks view (fun _ => False) later 0
      (currentKind >>= fun kind => if kind != .endOfInput then Item.more <$> sub.statement else return .stop)
      (currentKind >>= fun kind => if kind != .endOfInput then Item.more <$> other.statement else return .stop) := by
    refine .bind_currentKind rfl nofun (.ite (fun _ => ?_) fun _ => .pure _)
    exact .bind_reading (h.statement later (by omega)).inside fun statement _ _ => .pure _
  exact hmore

/-- A program, wherever all statements do the same and its start is moved as a position in the same text. -/
theorem program_tracks (h : sub.Track view (cursor.rest.length + 1) other)
    (hstart : ∀ later, cursor.Reaches 0 later →
      view.move ⟨0, later.finish.file⟩ = ⟨0, (view.image later).finish.file⟩) :
    Tracks view (fun _ => False) cursor 0 (program sub) (program other) := by
  have hbody : Tracks view (fun _ => False) cursor 0 (gather (programItem sub)) (gather (programItem other)) := by
    refine .gather fun later hlater => ?_
    have hlength := hlater.length_le
    exact programItem_tracks h (by omega)
  refine .bind hbody fun body later hlater => ?_
  have hspan : Tracks view (fun _ => False) later 0
      (spanSince ⟨0, later.finish.file⟩ >>= fun span => pure (Block.mk body span))
      (spanSince (view.move ⟨0, later.finish.file⟩) >>= fun span => pure (Block.mk (relocate view.move body) span)) :=
    .bind_spanSince (.pure_of_eq (Block.relocate_eq view.move ⟨body, _⟩).symm)
  refine hspan.congr rfl fun _ _ => ?_
  rw [hstart later hlater]
  rfl

end Grammar

end GoScript
