import GoScript.Proofs.RoundTrip
import GoScript.Proofs.Lookahead

/-!
# Indexing composes

Behind an operand, an index in brackets is read as such, and the operand becomes the collection.  The operand may be
followed by other steps first, and it may be an array literal that ends with the input; all of that is read in the same
way with the index behind.  There is one exception.  In `[1][2]` both numbers could be sizes, and a third bracket is
taken for the start of the type that would follow them.

* `continued_followedBy` — the steps behind an operand, with more tokens behind
* `inBrackets` — an expression in brackets; `type_of_inBrackets` — it does not start a type at the end of the input
* `arrayLiteral_number` — a list of one number is read as such only if no bracket follows
* `ReadsOn`, `arrayLiteral_readsOn` — an array literal at the end of the input, with brackets behind
* `expression_index` — an operand of the highest precedence, with brackets behind
* `parseExpression_index` — an expression, and an index in brackets behind it
-/

namespace GoScript

open ParseM Outcome

namespace Grammar

variable {cursor more later : Cursor} {left node : Node}

/-! ### Steps behind an operand -/

/-- Only a parenthesis and a bracket continue an operand without an operator. -/
theorem standard_continuation_rule {kind : TokenKind} {power : Precedence} {rule : Continuation}
    (h : standard.continuation kind = some (power, rule)) (hparen : kind ≠ .openParen)
    (hbracket : kind ≠ .openBracket) : rule = .binary := by
  cases kind with
  | openParen => exact absurd rfl hparen
  | openBracket => exact absurd rfl hbracket
  | _ => cases h <;> rfl

theorem precedence_binary_ne (left : Node) (operator : Token) (right : Node) (span : Span) :
    (Node.binary left operator right span).precedence ≠ .primary := by
  rw [Node.precedence]
  cases operator.kind <;> decide

/-- An operation has read all calls and indexes behind it: they belong to its right operand. -/
theorem binaryOperation_ok {power : Precedence}
    (hentry : standard.continuation cursor.current.kind = some (power, .binary))
    (h : binaryOperation nested left power cursor = .ok node later) :
    (∃ operator right span, node = .binary left operator right span) ∧
      later.current.kind ≠ .openParen ∧ later.current.kind ≠ .openBracket := by
  rw [binaryOperation, advance_bind_run] at h
  obtain ⟨right, middle, hright, hpure⟩ := ok_of_bind h
  cases hpure
  have hstop := not_continues_of_expression hright
  have hloose := Nat.not_lt.mp (standard_continuation_binary hentry)
  refine ⟨⟨_, _, _, rfl⟩, fun hparen => hstop ?_, fun hbracket => hstop ?_⟩
  · rw [hparen]
    exact ⟨(.call, .call), rfl, Nat.lt_of_le_of_lt hloose (by decide)⟩
  · rw [hbracket]
    exact ⟨(.index, .index), rfl, Nat.lt_of_le_of_lt hloose (by decide)⟩

/-- So nothing but operators follows an operation, and it stays one. -/
theorem precedence_ne_of_operation (hleft : left.precedence ≠ .primary) (hparen : cursor.current.kind ≠ .openParen)
    (hbracket : cursor.current.kind ≠ .openBracket) (h : continued .lowest left cursor = .ok node later) :
    node.precedence ≠ .primary := by
  induction hlength : cursor.rest.length using Nat.strongRecOn generalizing cursor left with
  | ind length ih =>
    by_cases hcontinues : Continues .lowest cursor.current.kind
    · obtain ⟨⟨power, rule⟩, hentry, hpower⟩ := hcontinues
      obtain rfl := standard_continuation_rule hentry hparen hbracket
      rw [continued_step left hentry hpower] at h
      obtain ⟨next, middle, hstep, hrest⟩ := ok_of_bind h
      have hreads := (continueWith_reads hentry hstep).length_le
      obtain ⟨⟨operator, right, span, rfl⟩, hparen', hbracket'⟩ := binaryOperation_ok hentry hstep
      exact ih middle.rest.length (by omega) (precedence_binary_ne left operator right span) hparen' hbracket' hrest rfl
    · rw [continued_stop left hcontinues] at h
      cases h
      exact hleft

/-- **The steps behind an operand**, if they come to the end of the input and are calls and indexes alone, are the same
with more tokens behind. -/
theorem continued_followedBy (hplace : more.position = cursor.finish)
    (h : continued .lowest left cursor = .ok node later) (hend : later.rest = [])
    (hprimary : node.precedence = .primary) :
    continued .lowest left (cursor.followedBy more) = continued .lowest node more := by
  induction hlength : cursor.rest.length using Nat.strongRecOn generalizing cursor left with
  | ind length ih =>
    by_cases hcontinues : Continues .lowest cursor.current.kind
    · obtain ⟨⟨power, rule⟩, hentry, hpower⟩ := hcontinues
      have hrest := Cursor.rest_ne_nil_of_kind (standard_continuation_kind hentry).1
      have hentry' : standard.continuation (cursor.followedBy more).current.kind = some (power, rule) := by
        rw [Cursor.current_followedBy hrest]
        exact hentry
      rw [continued_step left hentry hpower] at h
      obtain ⟨next, middle, hstep, hsteps⟩ := ok_of_bind h
      have htracks := continueWith_tracks (nested_track (.followedBy more) _) hentry left
      have hreads := htracks.reaches next middle hstep
      have hrule : rule ≠ .binary := by
        rintro rfl
        obtain ⟨⟨operator, right, span, rfl⟩, hparen, hbracket⟩ := binaryOperation_ok hentry hstep
        exact precedence_ne_of_operation (precedence_binary_ne left operator right span) hparen hbracket hsteps hprimary
      have hstep' := htracks.followed hplace hstep fun _ hbinary => absurd hbinary hrule
      have hleft : relocate (View.followedBy more).move left = left := Relocatable.relocate_id left
      have hlength' := hreads.length_le
      rw [continued_step left hentry' hpower, ← hleft, bind_of_ok hstep']
      exact ih middle.rest.length (by omega) (hplace.trans hreads.finish.symm) hsteps rfl
    · rw [continued_stop left hcontinues] at h
      cases h
      rw [Cursor.followedBy_of_nil hend]

/-- No step makes a list, and one that makes an index of a list of one number starts with a bracket behind the list. -/
theorem continueWith_number {power : Precedence} {rule : Continuation}
    (hentry : standard.continuation cursor.current.kind = some (power, rule))
    (h : continueWith nested rule left power cursor = .ok node later) :
    node.isNumberList = false ∧
      (node.isNumberIndex = true → left.isNumberList = true ∧ cursor.current.kind = .openBracket) := by
  cases rule with
  | binary =>
    obtain ⟨⟨operator, right, span, rfl⟩, _⟩ := binaryOperation_ok hentry h
    exact ⟨rfl, nofun⟩
  | call =>
    cases left with
    | identifier callee span =>
      obtain ⟨arguments, middle, _, hpure⟩ := ok_of_bind (show (commaList nested .closeParen false >>= _) _ = _ from h)
      cases hpure
      exact ⟨rfl, nofun⟩
    | _ => cases h
  | index =>
    have hkind : cursor.current.kind = .openBracket := by
      generalize cursor.current.kind = kind at hentry
      cases kind <;> cases hentry
      rfl
    obtain ⟨position, middle, _, hrest⟩ := ok_of_bind (show (nested.expression .lowest >>= _) _ = _ from h)
    obtain ⟨_, last, _, hpure⟩ := ok_of_bind hrest
    cases hpure
    refine ⟨rfl, fun hindex => ⟨?_, hkind⟩⟩
    rw [Node.isNumberIndex, Bool.and_eq_true] at hindex
    exact hindex.1

/-- An expression is an index of a list of one number only if its first operand is, or is the list. -/
theorem isNumberIndex_of_continued (h : continued .lowest left cursor = .ok node later)
    (hnumber : node.isNumberIndex = true) :
    node = left ∧ later = cursor ∨ left.isNumberList = true ∧ cursor.current.kind = .openBracket := by
  induction hlength : cursor.rest.length using Nat.strongRecOn generalizing cursor left with
  | ind length ih =>
    by_cases hcontinues : Continues .lowest cursor.current.kind
    · obtain ⟨⟨power, rule⟩, hentry, hpower⟩ := hcontinues
      rw [continued_step left hentry hpower] at h
      obtain ⟨next, middle, hstep, hsteps⟩ := ok_of_bind h
      have hreads := (continueWith_reads hentry hstep).length_le
      obtain ⟨hlist, hindex⟩ := continueWith_number hentry hstep
      rcases ih middle.rest.length (by omega) hsteps rfl with ⟨rfl, _⟩ | ⟨hlist', _⟩
      · exact .inr (hindex hnumber)
      · rw [hlist] at hlist'
        cases hlist'
    · rw [continued_stop left hcontinues] at h
      cases h
      exact .inl ⟨rfl, rfl⟩

/-! ### Sizes in brackets -/

theorem take_ok {kind : TokenKind} {token : Token} (h : take kind cursor = .ok token later) :
    cursor.current.kind = kind ∧ later = cursor.advance := by
  rw [take, currentKind_bind_run] at h
  by_cases hkind : cursor.current.kind = kind
  · rw [if_pos hkind] at h
    cases h
    exact ⟨hkind, rfl⟩
  · rw [if_neg hkind] at h
    cases h

theorem bracketSize_ok {form : ArrayForm} (h : bracketSize cursor = .ok form later) :
    form ≠ .bare ∧ (cursor.current.kind = .closeBracket ∨ cursor.current.kind = .ellipsis ∨
      cursor.current.kind = .integer ∧ later = cursor.advance) := by
  rw [bracketSize, currentKind_bind_run] at h
  generalize hkind : cursor.current.kind = kind at h
  cases kind with
  | closeBracket =>
    cases h
    exact ⟨by simp, .inl rfl⟩
  | ellipsis =>
    cases h
    exact ⟨by simp, .inr (.inl rfl)⟩
  | integer =>
    obtain ⟨_, _, hadvance, hsize⟩ := ok_of_bind (show (advance >>= _) cursor = _ from h)
    cases hadvance
    cases hvalue : Numeral.below? Numeral.sizeLimit cursor.current.value with
    | some size =>
      simp only [hvalue] at hsize
      cases hsize
      exact ⟨by simp, .inr (.inr ⟨rfl, rfl⟩)⟩
    | none =>
      simp only [hvalue] at hsize
      cases hsize
  | _ => cases h

/-- The size in front of an element type is `[]`, `[...]` or a number. -/
theorem sizeBrackets_ok {form : ArrayForm} (h : sizeBrackets cursor = .ok form later) :
    form ≠ .bare ∧ (cursor.next.kind = .closeBracket ∨ cursor.next.kind = .ellipsis ∨
      cursor.next.kind = .integer ∧ cursor.advance.advance.current.kind = .closeBracket ∧
        later = cursor.advance.advance.advance) := by
  obtain ⟨_, _, hopen, hrest⟩ := ok_of_bind h
  obtain ⟨-, rfl⟩ := take_ok hopen
  obtain ⟨size, middle, hsize, hrest⟩ := ok_of_bind hrest
  obtain ⟨_, _, hclose, hpure⟩ := ok_of_bind hrest
  obtain ⟨hkind, rfl⟩ := take_ok hclose
  cases hpure
  obtain ⟨hform, hclosed | hcounted | ⟨hnumber, rfl⟩⟩ := bracketSize_ok hsize
  · exact ⟨hform, .inl hclosed⟩
  · exact ⟨hform, .inr (.inl hcounted)⟩
  · exact ⟨hform, .inr (.inr ⟨hnumber, hkind, rfl⟩)⟩

/-- A number that nothing continues is an expression of one token. -/
theorem expression_of_integer {power : Precedence} (hkind : cursor.current.kind = .integer)
    (hstop : ¬ Continues power cursor.advance.current.kind) (h : nested.expression power cursor = .ok node later) :
    later = cursor.advance := by
  rw [nested_expression_eq] at h
  obtain ⟨first, middle, hfirst, hcontinued⟩ := ok_of_bind h
  rw [firstOperand, currentKind_bind_run, hkind] at hfirst
  obtain ⟨_, _, hadvance, hatom⟩ := ok_of_bind (show atom cursor = _ from hfirst)
  cases hadvance
  cases hvalue : Numeral.below? Numeral.integerLimit cursor.current.value <;> simp only [hkind, hvalue] at hatom <;>
    cases hatom
  rw [continued_stop _ hstop] at hcontinued
  cases hcontinued
  rfl

/-- A type reads a token. -/
theorem rest_ne_nil_of_type {type : GoType} (h : nested.type cursor = .ok type later) : cursor.rest ≠ [] := by
  intro hnil
  have hreads := ((nested_track (.moved id) _).type cursor (Nat.lt_succ_self _)).reaches type later h
  cases (hreads.rest_eq_nil hnil).2

theorem type_of_openBracket (hkind : cursor.current.kind = .openBracket) :
    nested.type cursor = arrayType nested cursor := by
  have hrule : standard.type cursor.current.kind = some .array := by
    rw [hkind]
    rfl
  have hcurrent : current cursor = .ok cursor.current cursor := rfl
  rw [nested_type, typeAt, bind_of_ok hcurrent, hrule]

/-! ### An index in brackets -/

/-- An expression in brackets. -/
def inBrackets : ParseM Node := do
  let _ ← advance
  let position ← nested.expression .lowest
  let _ ← take .closeBracket
  pure position

theorem indexInto_eq (left : Node) : indexInto nested left = (do
    let position ← inBrackets
    pure (.index left position (← spanSince left.span.start))) := by
  simp only [indexInto, inBrackets, bind_assoc, pure_bind]

theorem inBrackets_tracks {view : View} (hread : cursor.Readable) :
    Tracks view (fun _ => True) cursor 3 inBrackets inBrackets := by
  refine Tracks.bind_add (m := 1) (n := 1) (.advance hread) fun _ later _ => ?_
  refine Tracks.bind_add (m := 1) (n := 0) (nested_expression_tracks view .lowest).inside fun position _ _ => ?_
  exact .bind (.take (by decide)) fun _ _ _ => .pure position

variable {index : Node} {last : Cursor}

theorem inBrackets_ok (h : inBrackets cursor = .ok index last) :
    ∃ middle, nested.expression .lowest cursor.advance = .ok index middle ∧ middle.current.kind = .closeBracket ∧
      last = middle.advance := by
  rw [inBrackets, advance_bind_run] at h
  obtain ⟨position, middle, hposition, hrest⟩ := ok_of_bind h
  obtain ⟨_, _, hclose, hpure⟩ := ok_of_bind hrest
  obtain ⟨hkind, rfl⟩ := take_ok hclose
  cases hpure
  exact ⟨middle, hposition, hkind, rfl⟩

/-- Brackets with an expression in them are neither `[]` nor `[...]`. -/
theorem next_of_inBrackets (h : inBrackets cursor = .ok index last) :
    ¬ (cursor.next.kind = .closeBracket ∨ cursor.next.kind = .ellipsis) := by
  obtain ⟨middle, hindex, _⟩ := inBrackets_ok h
  have hoperand : (standard.operand cursor.next.kind).isSome := operand_of_expression hindex
  rintro (hkind | hkind) <;> rw [hkind] at hoperand <;> cases hoperand

/-- If nothing stands behind them, they do not start a type. -/
theorem type_of_inBrackets (hkind : cursor.current.kind = .openBracket) (h : inBrackets cursor = .ok index last)
    (hlast : last.rest = []) (type : GoType) (stop : Cursor) : nested.type cursor ≠ .ok type stop := by
  rw [type_of_openBracket hkind]
  intro htype
  obtain ⟨form, behind, hbrackets, helement⟩ := ok_of_bind htype
  obtain ⟨element, _, helement, _⟩ := ok_of_bind helement
  have hnext := next_of_inBrackets h
  obtain ⟨-, hclosed | hcounted | ⟨hnumber, hclose, rfl⟩⟩ := sizeBrackets_ok hbrackets
  · exact hnext (.inl hclosed)
  · exact hnext (.inr hcounted)
  · obtain ⟨middle, hindex, -, rfl⟩ := inBrackets_ok h
    have hstop : ¬ Continues .lowest cursor.advance.advance.current.kind := by
      rw [hclose]
      decide
    obtain rfl := expression_of_integer (show cursor.advance.current.kind = .integer from hnumber) hstop hindex
    exact rest_ne_nil_of_type helement hlast

/-! ### Array literals and numbers -/

theorem check_ok {α : Type} {outcome : Except Error α} {value : α} (h : check outcome cursor = .ok value later) :
    outcome = .ok value ∧ later = cursor := by
  cases outcome with
  | ok =>
    cases h
    exact ⟨rfl, rfl⟩
  | error => cases h

theorem listNode_number {elements : List Node} {span : Span} (h : listNode elements span = .ok node) :
    node.isNumberList = (writtenSize? elements).isSome ∧ node.isNumberIndex = false ∧ node.span = span := by
  cases elements with
  | nil => cases h
  | cons first others =>
    obtain ⟨rfl, -⟩ := arrayNode_eq_ok h
    exact ⟨isNumberList_eq _ _ _, rfl, rfl⟩

theorem typedArray_number {start : Position} {form : ArrayForm} (wrap : GoType → GoType)
    (h : (nested.type >>= fun element => arrayWithElements nested start form (wrap element)) cursor = .ok node later)
    (hform : form ≠ .bare) : node.isNumberList = false ∧ node.isNumberIndex = false := by
  obtain ⟨element, _, _, helements⟩ := ok_of_bind h
  obtain ⟨elements, _, _, hcheck⟩ := ok_of_bind helements
  obtain ⟨hnode, -⟩ := check_ok (show check _ _ = _ from hcheck)
  obtain ⟨rfl, -⟩ := arrayNode_eq_ok hnode
  cases form with
  | bare => exact absurd rfl hform
  | sized | counted | slice => exact ⟨rfl, rfl⟩

theorem isSizeOfType_run (position : Node) : isSizeOfType standard position cursor =
    .ok (position.isInteger && (standard.type cursor.current.kind).isSome) cursor := by
  cases position <;> rfl

section Parts

variable (start : Position) (size : Nat) (elements : List Node)

/-- What follows the index behind a list of one number: a type makes sizes of both. -/
def afterIndex (listSpan : Span) (position : Node) : ParseM Node := do
  if ← isSizeOfType standard position then arrayWithElements nested start (.sized size) (.array (← nested.type))
  else
    let list ← check (listNode elements listSpan)
    pure (.index list position (← spanSince start))

/-- What follows the elements of a list. -/
def afterList : ParseM Node :=
  match writtenSize? elements with
  | some size => do
    if (← currentKind) = .openBracket then numberThenBracket standard nested start size elements
    else if ← standard.startsType then arrayWithElements nested start (.sized size) (← nested.type)
    else check (listNode elements (← spanSince start))
  | none => do check (listNode elements (← spanSince start))

/-- An array literal that starts with `[]` or `[...]`. -/
def unsizedArray : ParseM Node := do
  let form ← sizeBrackets
  if form = .slice ∧ !(← standard.startsType) then throw ⟨noElementType, start⟩
  else arrayWithElements nested start form (← nested.type)

theorem numberThenBracket_run : numberThenBracket standard nested start size elements cursor =
    if cursor.next.kind = .closeBracket ∨ cursor.next.kind = .ellipsis then
      (nested.type >>= fun element => arrayWithElements nested start (.sized size) element) cursor
    else (inBrackets >>= afterIndex start size elements (cursor.spanSince start)) cursor := by
  rw [numberThenBracket, nextKind_bind_run]
  by_cases hnext : cursor.next.kind = .closeBracket ∨ cursor.next.kind = .ellipsis
  · rw [if_pos hnext, if_pos hnext]
  · rw [if_neg hnext, if_neg hnext, spanSince_bind_run]
    simp only [inBrackets, bind_assoc, pure_bind]
    rfl

theorem afterList_run_of_none (h : writtenSize? elements = none) :
    afterList start elements cursor = check (listNode elements (cursor.spanSince start)) cursor := by
  rw [afterList, h]
  rfl

variable {size elements} in
theorem afterList_run_of_some (h : writtenSize? elements = some size) : afterList start elements cursor =
    if cursor.current.kind = .openBracket then numberThenBracket standard nested start size elements cursor
    else if (standard.type cursor.current.kind).isSome then
      (nested.type >>= fun element => arrayWithElements nested start (.sized size) element) cursor
    else check (listNode elements (cursor.spanSince start)) cursor := by
  rw [afterList, h]
  simp only
  rw [currentKind_bind_run]
  by_cases hbracket : cursor.current.kind = .openBracket
  · rw [if_pos hbracket, if_pos hbracket]
  · rw [if_neg hbracket, if_neg hbracket, startsType_bind_run]
    split <;> rfl

end Parts

theorem arrayLiteral_run : arrayLiteral standard nested cursor =
    if cursor.next.kind = .closeBracket ∨ cursor.next.kind = .ellipsis then unsizedArray cursor.position cursor
    else (commaList nested .closeBracket false >>= afterList cursor.position) cursor.advance := by
  rw [arrayLiteral, position_bind_run, nextKind_bind_run]
  by_cases hnext : cursor.next.kind = .closeBracket ∨ cursor.next.kind = .ellipsis
  · rw [if_pos hnext, if_pos hnext]
    rfl
  · rw [if_neg hnext, if_neg hnext]
    rfl

theorem numberThenBracket_number {start : Position} {size : Nat} {elements : List Node}
    (h : numberThenBracket standard nested start size elements cursor = .ok node later) :
    node.isNumberList = false := by
  rw [numberThenBracket_run] at h
  by_cases hnext : cursor.next.kind = .closeBracket ∨ cursor.next.kind = .ellipsis
  · rw [if_pos hnext] at h
    exact (typedArray_number id h nofun).1
  · rw [if_neg hnext] at h
    obtain ⟨position, middle, _, hrest⟩ := ok_of_bind h
    rw [afterIndex, bind_of_ok (isSizeOfType_run position)] at hrest
    split at hrest
    · exact (typedArray_number .array hrest nofun).1
    · obtain ⟨list, _, _, hpure⟩ := ok_of_bind hrest
      cases hpure
      rfl

theorem unsizedArray_number {start : Position} (h : unsizedArray start cursor = .ok node later) :
    node.isNumberList = false ∧ node.isNumberIndex = false := by
  obtain ⟨form, middle, hform, hrest⟩ := ok_of_bind h
  rw [startsType_bind_run] at hrest
  split at hrest
  · cases hrest
  · exact typedArray_number id hrest (sizeBrackets_ok hform).1

/-- A list of one number is read as such only if no type can follow. -/
theorem arrayLiteral_number (h : arrayLiteral standard nested cursor = .ok node later)
    (hnumber : node.isNumberList = true) : later.current.kind ≠ .openBracket := by
  rw [arrayLiteral_run] at h
  by_cases hnext : cursor.next.kind = .closeBracket ∨ cursor.next.kind = .ellipsis
  · rw [if_pos hnext] at h
    rw [(unsizedArray_number h).1] at hnumber
    cases hnumber
  · rw [if_neg hnext] at h
    obtain ⟨elements, middle, _, hrest⟩ := ok_of_bind h
    cases hsize : writtenSize? elements with
    | none =>
      rw [afterList_run_of_none _ _ hsize] at hrest
      rw [(listNode_number (check_ok hrest).1).1, hsize] at hnumber
      cases hnumber
    | some size =>
      rw [afterList_run_of_some _ hsize] at hrest
      by_cases hbracket : middle.current.kind = .openBracket
      · rw [if_pos hbracket] at hrest
        rw [numberThenBracket_number hrest] at hnumber
        cases hnumber
      rw [if_neg hbracket] at hrest
      split at hrest
      · rw [(typedArray_number id hrest nofun).1] at hnumber
        cases hnumber
      · obtain ⟨_, rfl⟩ := check_ok hrest
        exact hbracket

/-! ### Array literals at the end of the input -/

/-- With the tokens at `more` behind, which start with brackets, an operand is the same node, or the brackets are read
as an index with it.  But an index of a list of one number is not read at all. -/
structure ReadsOn (more : Cursor) (node : Node) (cursor : Cursor) (parse : ParseM Node) : Prop where
  reads : node.isNumberIndex = false → parse (cursor.followedBy more) = .ok node more ∨
    ∃ index last, inBrackets more = .ok index last ∧
      parse (cursor.followedBy more) = .ok (.index node index (last.spanSince node.span.start)) last
  fails : node.isNumberIndex = true → ∀ value later, parse (cursor.followedBy more) ≠ .ok value later

theorem ReadsOn.same {parse : ParseM Node} (hnumber : node.isNumberIndex = false)
    (h : parse (cursor.followedBy more) = .ok node more) : ReadsOn more node cursor parse where
  reads _ := .inl h
  fails hindex := by
    rw [hnumber] at hindex
    cases hindex

theorem ReadsOn.of_eq {middle : Cursor} {parse rest : ParseM Node} (h : ReadsOn more node middle rest)
    (heq : parse (cursor.followedBy more) = rest (middle.followedBy more)) : ReadsOn more node cursor parse where
  reads := by
    rw [heq]
    exact h.reads
  fails := by
    rw [heq]
    exact h.fails

theorem next_followedBy_of_advance (h : cursor.advance.rest ≠ []) : (cursor.followedBy more).next = cursor.next := by
  have hrest : cursor.rest ≠ [] := fun hnil => h (by rw [Cursor.advance, hnil]; rfl)
  show (cursor.followedBy more).advance.current = cursor.advance.current
  rw [Cursor.advance_followedBy hrest, Cursor.current_followedBy h]

section Behind

variable (hkind : more.current.kind = .openBracket)
include hkind

theorem typedArray_readsOn {start : Position} {form : ArrayForm} (wrap : GoType → GoType)
    (hplace : more.position = cursor.finish)
    (h : (nested.type >>= fun element => arrayWithElements nested start form (wrap element)) cursor = .ok node later)
    (hend : later.rest = []) (hform : form ≠ .bare) :
    ReadsOn more node cursor (nested.type >>= fun element => arrayWithElements nested start form (wrap element)) := by
  have hcurly : more.current.kind ≠ .openCurly := by
    rw [hkind]
    decide
  exact .same (typedArray_number wrap h hform).2
    ((typedArray_tracks (nested_track _ _) (Nat.lt_succ_self _) start form wrap).followed_of_nil hplace h hend hcurly)

variable (hindex : inBrackets more = .ok index last) (hlast : last.rest = [])
include hindex hlast

/-- An index into a list of one number.  If it is a number, the bracket behind makes the start of a type of it. -/
theorem afterIndex_readsOn {start : Position} {size : Nat} {elements : List Node}
    (hsize : writtenSize? elements = some size) {listSpan : Span} {position : Node}
    (hplace : more.position = cursor.finish)
    (h : afterIndex start size elements listSpan position cursor = .ok node later) (hend : later.rest = []) :
    ReadsOn more node cursor (afterIndex start size elements listSpan position) := by
  rw [afterIndex, bind_of_ok (isSizeOfType_run position)] at h
  by_cases htype : (position.isInteger && (standard.type cursor.current.kind).isSome) = true
  · rw [if_pos htype] at h
    obtain ⟨_, _, helement, _⟩ := ok_of_bind h
    have hrest := rest_ne_nil_of_type helement
    refine (typedArray_readsOn hkind .array hplace h hend nofun).of_eq ?_
    rw [afterIndex, bind_of_ok (isSizeOfType_run position), Cursor.current_followedBy hrest, if_pos htype]
  · rw [if_neg htype] at h
    obtain ⟨list, _, hcheck, hpure⟩ := ok_of_bind h
    obtain ⟨hlist, hmiddle⟩ := check_ok hcheck
    rw [hmiddle] at hpure
    cases hpure
    have hbehind : cursor.followedBy more = more := Cursor.followedBy_of_nil hend
    have hspan := Cursor.spanSince_followedBy hplace start
    rw [hbehind] at hspan
    have hnumber : (Node.index list position (cursor.spanSince start)).isNumberIndex = position.isInteger := by
      rw [Node.isNumberIndex, (listNode_number hlist).1, hsize]
      rfl
    constructor
    · intro hfalse
      rw [hnumber] at hfalse
      left
      rw [hbehind, afterIndex, bind_of_ok (isSizeOfType_run position), hfalse, Bool.false_and, if_neg (by decide),
        hlist, ← hspan]
      rfl
    · intro htrue value stop hok
      rw [hnumber] at htrue
      rw [hbehind, afterIndex, bind_of_ok (isSizeOfType_run position), htrue, hkind] at hok
      obtain ⟨type, _, htype, _⟩ := ok_of_bind (show (nested.type >>= _) more = _ from hok)
      exact type_of_inBrackets hkind hindex hlast type _ htype

theorem numberThenBracket_readsOn {start : Position} {size : Nat} {elements : List Node}
    (hsize : writtenSize? elements = some size) (hplace : more.position = cursor.finish)
    (hbracket : cursor.current.kind = .openBracket)
    (h : numberThenBracket standard nested start size elements cursor = .ok node later) (hend : later.rest = []) :
    ReadsOn more node cursor (numberThenBracket standard nested start size elements) := by
  rw [numberThenBracket_run] at h
  by_cases hnext : cursor.next.kind = .closeBracket ∨ cursor.next.kind = .ellipsis
  · rw [if_pos hnext] at h
    have hrest : cursor.advance.rest ≠ [] := by
      refine Cursor.rest_ne_nil_of_kind ?_
      show cursor.next.kind ≠ .endOfInput
      rcases hnext with hnext | hnext <;> rw [hnext] <;> decide
    refine (typedArray_readsOn hkind id hplace h hend nofun).of_eq ?_
    rw [numberThenBracket_run, next_followedBy_of_advance hrest, if_pos hnext]
    rfl
  · rw [if_neg hnext] at h
    obtain ⟨position, middle, hposition, hrest⟩ := ok_of_bind h
    have htracks : Tracks (.followedBy more) _ cursor 3 inBrackets inBrackets :=
      inBrackets_tracks (Cursor.readable_of_kind hbracket (by decide))
    have hreads := htracks.reaches position middle hposition
    have hposition' := htracks.followed hplace hposition fun _ => trivial
    refine (afterIndex_readsOn hkind hindex hlast hsize (hplace.trans hreads.finish.symm) hrest hend).of_eq ?_
    rw [numberThenBracket_run, next_followedBy_of_advance hreads.not_advance_nil, if_neg hnext,
      bind_of_ok hposition', Cursor.spanSince_followedBy hplace]

omit hkind in
/-- The bracket behind a list of one number is read with it, as an index. -/
theorem numberThenBracket_index {start : Position} {size : Nat} {elements : List Node} {list : Node}
    (hlist : listNode elements (more.spanSince start) = .ok list) :
    numberThenBracket standard nested start size elements more =
      .ok (.index list index (last.spanSince start)) last := by
  have htype : ¬ (index.isInteger && (standard.type last.current.kind).isSome) = true := by
    rw [Cursor.current_of_nil hlast]
    simp [Token.endOfInput, standard]
  rw [numberThenBracket_run, if_neg (next_of_inBrackets hindex), bind_of_ok hindex, afterIndex,
    bind_of_ok (isSizeOfType_run index), if_neg htype, hlist]
  rfl

theorem afterList_readsOn {start : Position} {elements : List Node} (hplace : more.position = cursor.finish)
    (h : afterList start elements cursor = .ok node later) (hend : later.rest = []) :
    ReadsOn more node cursor (afterList start elements) := by
  have hspan := Cursor.spanSince_followedBy hplace start
  cases hsize : writtenSize? elements with
  | none =>
    rw [afterList_run_of_none _ _ hsize] at h
    obtain ⟨hnode, rfl⟩ := check_ok h
    refine .same (listNode_number hnode).2.1 ?_
    rw [afterList_run_of_none _ _ hsize, hspan, hnode, Cursor.followedBy_of_nil hend]
    rfl
  | some size =>
    rw [afterList_run_of_some _ hsize] at h
    by_cases hbracket : cursor.current.kind = .openBracket
    · rw [if_pos hbracket] at h
      have hrest := (Cursor.readable_of_kind hbracket (by decide)).rest_ne_nil
      refine (numberThenBracket_readsOn hkind hindex hlast hsize hplace hbracket h hend).of_eq ?_
      rw [afterList_run_of_some _ hsize, Cursor.current_followedBy hrest, if_pos hbracket]
    rw [if_neg hbracket] at h
    by_cases htype : (standard.type cursor.current.kind).isSome
    · rw [if_pos htype] at h
      obtain ⟨_, _, helement, _⟩ := ok_of_bind h
      have hrest := rest_ne_nil_of_type helement
      refine (typedArray_readsOn hkind id hplace h hend nofun).of_eq ?_
      rw [afterList_run_of_some _ hsize, Cursor.current_followedBy hrest, if_neg hbracket, if_pos htype]
      rfl
    · rw [if_neg htype] at h
      obtain ⟨hnode, rfl⟩ := check_ok h
      have hbehind : later.followedBy more = more := Cursor.followedBy_of_nil hend
      rw [← hspan, hbehind] at hnode
      obtain ⟨-, hnumber, hnodeSpan⟩ := listNode_number hnode
      refine ⟨fun _ => .inr ⟨index, last, hindex, ?_⟩, fun htrue => ?_⟩
      · rw [hbehind, afterList_run_of_some _ hsize, if_pos hkind, hnodeSpan]
        exact numberThenBracket_index hindex hlast hnode
      · rw [hnumber] at htrue
        cases htrue

/-- **An array literal at the end of the input**, with brackets behind. -/
theorem arrayLiteral_readsOn (hplace : more.position = cursor.finish) (hne : cursor.current.kind ≠ .endOfInput)
    (h : arrayLiteral standard nested cursor = .ok node later) (hend : later.rest = []) :
    ReadsOn more node cursor (arrayLiteral standard nested) := by
  have hposition := Cursor.position_followedBy hplace
  rw [arrayLiteral_run] at h
  by_cases hnext : cursor.next.kind = .closeBracket ∨ cursor.next.kind = .ellipsis
  · rw [if_pos hnext] at h
    have hcurly : more.current.kind ≠ .openCurly := by
      rw [hkind]
      decide
    have htracks := unsizedArray_tracks (nested_track (.followedBy more) cursor.rest.length) cursor.position
    have hadvance := (htracks.reaches node later h).not_advance_nil
    refine .same (unsizedArray_number h).2 ?_
    rw [arrayLiteral_run, next_followedBy_of_advance hadvance, if_pos hnext, hposition]
    exact htracks.followed_of_nil hplace h hend hcurly
  · rw [if_neg hnext] at h
    obtain ⟨elements, middle, helements, hrest⟩ := ok_of_bind h
    have hcursor := Cursor.rest_ne_nil_of_kind hne
    have htracks : Tracks (.followedBy more) (fun _ => True) cursor.advance 1
        (commaList nested .closeBracket false) _ :=
      commaList_tracks (nested_track _ _) (Nat.lt_succ_self _) (by decide) false
    have hreads := htracks.reaches elements middle helements
    have helements' := htracks.followed hplace helements fun _ => trivial
    have hadvance : cursor.advance.rest ≠ [] := by
      intro hnil
      cases (hreads.rest_eq_nil hnil).2
    refine (afterList_readsOn hkind hindex hlast (hplace.trans hreads.finish.symm) hrest hend).of_eq ?_
    rw [arrayLiteral_run, next_followedBy_of_advance hadvance, if_neg hnext, hposition,
      Cursor.advance_followedBy hcursor, bind_of_ok helements']

/-! ### Expressions -/

omit hkind hindex in
theorem not_continues_of_nil (power : Precedence) : ¬ Continues power last.current.kind := by
  rw [Cursor.current_of_nil hlast]
  rintro ⟨entry, hentry, _⟩
  cases hentry

/-- Behind an operand, brackets are an index. -/
theorem continued_index (left : Node) :
    continued .lowest left more = .ok (.index left index (last.spanSince left.span.start)) last := by
  have hentry : standard.continuation more.current.kind = some (.index, .index) := by
    rw [hkind]
    rfl
  have hstep : continueWith nested .index left .index more =
      .ok (.index left index (last.spanSince left.span.start)) last := by
    show indexInto nested left more = _
    rw [indexInto_eq, bind_of_ok hindex]
    rfl
  rw [continued_step left hentry (by decide), bind_of_ok hstep]
  exact continued_stop _ (not_continues_of_nil hlast .lowest)

end Behind

theorem firstOperand_of_openBracket (h : cursor.current.kind = .openBracket) :
    firstOperand cursor = arrayLiteral standard nested cursor := by
  rw [firstOperand, currentKind_bind_run, h]
  rfl

/-- An operand that is no array literal, or that does not come to the end of the input, is the same with more tokens
behind, and so are the steps behind it. -/
theorem expression_followedBy {middle : Cursor} {operand : Node} (hplace : more.position = cursor.finish)
    (hfirst : firstOperand cursor = .ok operand middle) (hsteps : continued .lowest operand middle = .ok node later)
    (hend : later.rest = []) (hprimary : node.precedence = .primary)
    (hoperand : middle.rest = [] → cursor.current.kind ≠ .openBracket) :
    nested.expression .lowest (cursor.followedBy more) = continued .lowest node more := by
  rw [firstOperand, currentKind_bind_run] at hfirst
  cases hrule : standard.operand cursor.current.kind with
  | none =>
    rw [hrule] at hfirst
    cases hfirst
  | some rule =>
    rw [hrule] at hfirst
    have hcursor := Cursor.rest_ne_nil_of_kind (standard_operand_kind hrule).1.1
    have htracks := operand_tracks (nested_track (.followedBy more) _) hrule
    have hreads := htracks.reaches operand middle hfirst
    -- at the end of the input, an operation would be all there is, and an array literal is excluded
    have hends : middle.rest = [] → rule = .unary ∨ rule = .array → Closes more.current.kind := by
      rintro hnil (rfl | rfl)
      · rw [continued_stop operand (not_continues_of_nil hnil .lowest)] at hsteps
        cases hsteps
        obtain ⟨_, _, _, hoperand⟩ := ok_of_bind (show unaryOperation nested cursor = _ from hfirst)
        obtain ⟨_, _, _, hpure⟩ := ok_of_bind hoperand
        cases hpure
        cases hprimary
      · refine absurd ?_ (hoperand hnil)
        generalize cursor.current.kind = kind at hrule
        cases kind <;> cases hrule
        rfl
    have hfirst'' : firstOperand (cursor.followedBy more) = .ok operand (middle.followedBy more) := by
      rw [firstOperand, currentKind_bind_run, Cursor.current_followedBy hcursor, hrule]
      exact htracks.followed hplace hfirst hends
    rw [nested_expression_eq, bind_of_ok hfirst'']
    exact continued_followedBy (hplace.trans hreads.finish.symm) hsteps hend hprimary

section Brackets

variable (hplace : more.position = cursor.finish) (hkind : more.current.kind = .openBracket)
  (hindex : inBrackets more = .ok index last) (hlast : last.rest = [])
include hplace hkind hindex hlast

/-- An array literal that is the whole expression, with brackets behind. -/
theorem literal_index (hopen : cursor.current.kind = .openBracket)
    (h : arrayLiteral standard nested cursor = .ok node later) (hend : later.rest = []) :
    (node.isNumberIndex = true →
        ∀ value stop, nested.expression .lowest (cursor.followedBy more) ≠ .ok value stop) ∧
      (node.isNumberIndex = false → nested.expression .lowest (cursor.followedBy more) =
        .ok (.index node index (last.spanSince node.span.start)) last) := by
  have hne : cursor.current.kind ≠ .endOfInput :=
    (Cursor.readable_of_kind hopen (by decide)).1
  have hreads := arrayLiteral_readsOn hkind hindex hlast hplace hne h hend
  have hopen' : (cursor.followedBy more).current.kind = .openBracket := by
    rw [Cursor.current_followedBy (Cursor.rest_ne_nil_of_kind hne), hopen]
  rw [nested_expression_eq, bind_run, firstOperand_of_openBracket hopen', ← bind_run]
  constructor
  · intro hnumber value stop hok
    obtain ⟨_, _, hliteral, _⟩ := ok_of_bind hok
    exact hreads.fails hnumber _ _ hliteral
  · intro hnumber
    rcases hreads.reads hnumber with hsame | ⟨_, _, hindex', hread⟩
    · exact (bind_of_ok hsame).trans (continued_index hkind hindex hlast node)
    · rw [hindex] at hindex'
      cases hindex'
      exact (bind_of_ok hread).trans (continued_stop _ (not_continues_of_nil hlast .lowest))

/-- **An operand with brackets behind** is their collection, unless it starts with a bracket and is an index of a list
of one number.  Then nothing is read. -/
theorem expression_index (h : nested.expression .lowest cursor = .ok node later) (hend : later.rest = [])
    (hprimary : node.precedence = .primary) :
    (cursor.current.kind = .openBracket ∧ node.isNumberIndex = true →
        ∀ value stop, nested.expression .lowest (cursor.followedBy more) ≠ .ok value stop) ∧
      (¬ (cursor.current.kind = .openBracket ∧ node.isNumberIndex = true) →
        nested.expression .lowest (cursor.followedBy more) =
          .ok (.index node index (last.spanSince node.span.start)) last) := by
  rw [nested_expression_eq] at h
  obtain ⟨operand, middle, hfirst, hsteps⟩ := ok_of_bind h
  -- only to an array literal that ends with the input can the brackets behind make a difference
  by_cases hliteral : cursor.current.kind = .openBracket ∧ middle.rest = []
  · obtain ⟨hopen, hnil⟩ := hliteral
    rw [continued_stop operand (not_continues_of_nil hnil .lowest)] at hsteps
    cases hsteps
    rw [firstOperand_of_openBracket hopen] at hfirst
    obtain ⟨hfails, hreads⟩ := literal_index hplace hkind hindex hlast hopen hfirst hend
    refine ⟨fun hbad => hfails hbad.2, fun hgood => hreads ?_⟩
    exact Bool.eq_false_iff.mpr fun hnumber => hgood ⟨hopen, hnumber⟩
  · have hrun := expression_followedBy hplace hfirst hsteps hend hprimary fun hnil hopen => hliteral ⟨hopen, hnil⟩
    have hnumber : ¬ (cursor.current.kind = .openBracket ∧ node.isNumberIndex = true) := by
      rintro ⟨hopen, hnumber⟩
      rw [firstOperand_of_openBracket hopen] at hfirst
      rcases isNumberIndex_of_continued hsteps hnumber with ⟨-, rfl⟩ | ⟨hlist, hbracket⟩
      · exact hliteral ⟨hopen, hend⟩
      · exact arrayLiteral_number hfirst hlist hbracket
    exact ⟨fun hbad => absurd hbad hnumber, fun _ => hrun.trans (continued_index hkind hindex hlast node)⟩

end Brackets

/-! ### Words -/

theorem followedBy_reading (front back : List Word) :
    (reading front).followedBy (reading back) = reading (front ++ back) := by
  simp [reading, Cursor.followedBy]

/-- An expression that is read to its end can be put in brackets. -/
theorem inBrackets_reading {words : List Word} (h : nested.expression .lowest (reading words) = .ok node (reading []))
    (opening closing : String) :
    inBrackets (reading ((.openBracket, opening) :: (words ++ [(.closeBracket, closing)]))) =
      .ok node (reading []) := by
  have htracks : Tracks (.followedBy (reading [(.closeBracket, closing)])) Closes (reading words) 1 _ _ :=
    nested_expression_tracks _ .lowest
  have hinside := htracks.followed_of_nil (position_reading _) h rfl (show Closes .closeBracket by decide)
  rw [followedBy_reading] at hinside
  rw [inBrackets, advance_bind_run, advance_reading, bind_of_ok hinside, bind_of_ok (take_reading _ _ _)]
  rfl

end Grammar

/-! ### Tokens -/

theorem Node.isNumberList_relocate (f : Position → Position) (node : Node) :
    (node.relocate f).isNumberList = node.isNumberList := by
  cases node with
  | array element form elements span =>
    rcases form with _ | _ | _ | _ <;> try rfl
    cases elements with
    | none => rfl
    | some nodes =>
      rw [Grammar.isNumberList_eq, ← Grammar.writtenSize?_relocate (f := f), relocate, relocateAllOption,
        relocateAll_eq_map]
      exact Grammar.isNumberList_eq _ _ _
  | _ => rfl

theorem Node.isNumberIndex_unplaced (node : Node) : node.unplaced.isNumberIndex = node.isNumberIndex := by
  cases node with
  | index collection position span =>
    have hposition : (position.relocate fun _ => default).isInteger = position.isInteger := by cases position <;> rfl
    show ((collection.relocate _).isNumberList && (position.relocate _).isInteger) = _
    rw [Node.isNumberList_relocate, hposition]
    rfl
  | _ => rfl

open Grammar

/-- A token without its place. -/
def Token.word (token : Token) : Word :=
  (token.kind, token.value)

theorem relocate_tokens (tokens : List Token) (finish : Position) :
    (⟨tokens, finish⟩ : Cursor).relocate (fun _ => default) = reading (tokens.map Token.word) := by
  rw [reading, List.map_map]
  rfl

theorem current_tokens (tokens : List Token) : (reading (tokens.map Token.word)).current.kind = .openBracket ↔
    tokens.head?.map Token.kind = some .openBracket := by
  cases tokens with
  | nil => exact ⟨nofun, nofun⟩
  | cons token rest => simp [Token.word]

/-- **Indexing composes, with one exception.**  Some tokens are read to their end as an expression that is no
operation, and some others as any expression.  Then the first ones, and behind them the others in brackets, are read to
their end as an index, up to spans.  If the first ones start with a bracket and are a list of one number with a number
as index, the whole is rejected instead: both numbers are taken for sizes, and the brackets for the start of a type. -/
theorem parseExpression_index {front inside : List Token} {opening closing : Token} {collection index : Node}
    {frontEnd insideEnd : Position} {later later' : Cursor}
    (hfront : standard.parseExpression .lowest ⟨front, frontEnd⟩ = .ok collection later) (hend : later.rest = [])
    (hprimary : collection.precedence = .primary)
    (hinside : standard.parseExpression .lowest ⟨inside, insideEnd⟩ = .ok index later') (hend' : later'.rest = [])
    (hopening : opening.kind = .openBracket) (hclosing : closing.kind = .closeBracket) (finish : Position) :
    (front.head?.map Token.kind = some .openBracket ∧ collection.isNumberIndex = true →
        ∃ error stop, standard.parseExpression .lowest ⟨front ++ opening :: (inside ++ [closing]), finish⟩ =
          .error error stop) ∧
      (¬ (front.head?.map Token.kind = some .openBracket ∧ collection.isNumberIndex = true) →
        ∃ node last, standard.parseExpression .lowest ⟨front ++ opening :: (inside ++ [closing]), finish⟩ =
          .ok node last ∧ last.rest = [] ∧ node.unplaced = (Node.index collection index default).unplaced) := by
  have hfront' := parses_iff_unplaced.mp ⟨collection, later, hfront, hend, rfl⟩
  have hinside' := parses_iff_unplaced.mp ⟨index, later', hinside, hend', rfl⟩
  rw [relocate_tokens] at hfront' hinside'
  have hwords : (front ++ opening :: (inside ++ [closing])).map Token.word = front.map Token.word ++
      (.openBracket, opening.value) :: (inside.map Token.word ++ [(.closeBracket, closing.value)]) := by
    simp [Token.word, hopening, hclosing]
  have hbrackets := inBrackets_reading hinside' opening.value closing.value
  obtain ⟨hfails, hreads⟩ := expression_index (position_reading _) rfl hbrackets rfl hfront' rfl
    ((Node.precedence_relocate _ collection).trans hprimary)
  rw [current_tokens, Node.isNumberIndex_unplaced, followedBy_reading, ← hwords] at hfails hreads
  rw [← relocate_tokens (front ++ opening :: (inside ++ [closing])) finish] at hfails hreads
  constructor
  · intro hbad
    show ∃ error stop, nested.expression .lowest ⟨front ++ opening :: (inside ++ [closing]), finish⟩ = _
    cases hrun : nested.expression .lowest ⟨front ++ opening :: (inside ++ [closing]), finish⟩ with
    | error error stop => exact ⟨error, stop, rfl⟩
    | ok node stop =>
      rw [expression_unplaced, hrun] at hfails
      exact absurd rfl (hfails hbad _ _)
  · intro hgood
    have hspan : (reading []).spanSince collection.unplaced.span.start = default := by
      rw [Node.unplaced, Node.span_relocate]
      exact spanSince_reading []
    rw [hspan] at hreads
    exact parses_iff_unplaced.mpr (hreads hgood)

theorem parseExpression_index_parenthesized : ∃ collection index later later' node last,
    standard.parseExpression .lowest (Cursor.ofSource "([5])[0]" "shell") = .ok collection later ∧ later.rest = [] ∧
      collection.precedence = .primary ∧ collection.isNumberIndex = true ∧
      standard.parseExpression .lowest (Cursor.ofSource "x + 1" "shell") = .ok index later' ∧ later'.rest = [] ∧
      standard.parseExpression .lowest ⟨scan "shell" "([5])[0]".toList ++ ⟨.openBracket, "[", default⟩ ::
        (scan "shell" "x + 1".toList ++ [⟨.closeBracket, "]", default⟩]), default⟩ = .ok node last ∧
      last.rest = [] ∧ node.unplaced = (Node.index collection index default).unplaced := by
  obtain ⟨collection, later, hfront, hend, hprimary, hnumber⟩ : ∃ collection later,
      standard.parseExpression .lowest (Cursor.ofSource "([5])[0]" "shell") = .ok collection later ∧
        later.rest = [] ∧ collection.precedence = .primary ∧ collection.isNumberIndex = true :=
    ⟨_, _, by rfl, by rfl, by rfl, by rfl⟩
  obtain ⟨index, later', hinside, hend'⟩ : ∃ index later',
      standard.parseExpression .lowest (Cursor.ofSource "x + 1" "shell") = .ok index later' ∧ later'.rest = [] :=
    ⟨_, _, by rfl, by rfl⟩
  -- the list is the one that the exception speaks of, but the tokens start with a parenthesis
  have hstart : (scan "shell" "([5])[0]".toList).head?.map Token.kind ≠ some .openBracket := by decide
  have hopening : Token.kind ⟨.openBracket, "[", default⟩ = .openBracket := rfl
  have hclosing : Token.kind ⟨.closeBracket, "]", default⟩ = .closeBracket := rfl
  obtain ⟨node, last, hparse, hlast, hnode⟩ :=
    (parseExpression_index hfront hend hprimary hinside hend' hopening hclosing default).2 fun hbad => hstart hbad.1
  exact ⟨collection, index, later, later', node, last, hfront, hend, hprimary, hnumber, hinside, hend', hparse, hlast,
    hnode⟩

/-- Without the last index, a list of one number is read with a number as index. -/
theorem second_index_rejected :
    (∃ node later, standard.parseExpression .lowest (Cursor.ofSource "[5][0]" "shell") = .ok node later ∧
        later.rest = [] ∧ node.precedence = .primary) ∧
      (∃ node later, standard.parseExpression .lowest (Cursor.ofSource "1" "shell") = .ok node later ∧
        later.rest = []) ∧
      ∃ error stop, standard.parseExpression .lowest (Cursor.ofSource "[5][0][1]" "shell") = .error error stop :=
  ⟨⟨_, _, by rfl, by rfl, by rfl⟩, ⟨_, _, by rfl, by rfl⟩, ⟨_, _, by rfl⟩⟩

end GoScript
