import GoScript.Proofs.Rereading

/-!
# Reading a printed expression back

The text of an expression is parsed to the same expression, up to spans.  For each kind of expression, its words are
parsed to it if those of its parts are; the parentheses that were printed are the ones that the parse needs.

* `restored_of_legible` — the words of an expression that can be read back are parsed to it
* `Node.Parsed` — the nodes that a parse can produce
* `parses_iff_unplaced` — the positions of the tokens play no part in what they are parsed to
* `ReadsAs` — the whole of a text is parsed to an expression; `readsAs_iff_words` — its words decide that
* `parseExpression_source` — the text of such an expression is parsed to it, up to spans
-/

namespace GoScript

open ParseM Outcome

namespace Grammar

/-! ### Expressions -/

/-- Where it is not followed by a type, a number in brackets is a list. -/
theorem Allowed.type {node : Node} {kind : TokenKind} (h : Allowed node kind)
    (hnode : node.isNumberList = true ∨ node.isNumberIndex = true) : standard.type kind = none := by
  have houtside := h.outside
  have hbracket := h.bracket hnode
  cases kind <;> first | rfl | exact absurd rfl hbracket | exact absurd (by decide) houtside

theorem restored_unary {operator : Token} {operand : Node} {span : Span}
    (hkind : operator.kind = .dash ∨ operator.kind = .not) (hrestored : Restored operand)
    (henclosed : Enclosed operand) : Restored (.unary operator operand span) := by
  intro power rest _ _ hallowed
  have hstop : ¬ Continues .unary (reading rest).current.kind := hallowed.stop
  have hoperand := hrestored.rightOperand henclosed (by decide) hallowed.outside hstop
  have hrule : standard.operand operator.kind = some .unary := by
    rcases hkind with hkind | hkind <;> rw [hkind] <;> rfl
  rw [Node.words, List.cons_append]
  refine expression_of_rule power hrule ?_
  show unaryOperation nested _ = _
  rw [unaryOperation, advance_bind_run, advance_reading, bind_of_ok hoperand, Node.unplaced, Node.span_relocate]
  rfl

theorem restored_binary {left right : Node} {operator : Token} {span : Span}
    (hkind : (Precedence.binary? operator.kind).isSome) (hleft : Restored left) (hleft' : Enclosed left)
    (hright : Restored right) (hright' : Enclosed right) : Restored (.binary left operator right span) := by
  intro power rest hunary hpower hallowed
  obtain ⟨own, hown⟩ := Option.isSome_iff_exists.mp hkind
  have hprecedence : (Node.binary left operator right span).precedence = own := by
    rw [Node.precedence, hown]
    rfl
  have hstop := hallowed.stop
  rw [hprecedence] at hpower hstop
  have hloose : ¬ .unary < own := (binary?_range hown).2
  have hentry := continuation_of_binary? hown
  have hoperator : operator.kind ≠ .openBracket := by
    intro hbracket
    rw [hbracket] at hown
    cases hown
  have hafter := hright.rightOperand hright' hloose hallowed.outside hstop
  rw [Node.words, hown, Option.getD_some, List.append_assoc, List.cons_append,
    hleft.leftOperand hleft' hunary hentry hpower fun _ => hoperator]
  refine continued_of_rule power hentry hpower ?_
  show binaryOperation nested left.unplaced own _ = _
  rw [binaryOperation, advance_bind_run, advance_reading, bind_of_ok hafter, Node.unplaced, Node.span_relocate,
    Node.unplaced, Node.span_relocate]
  rfl

theorem restored_call {callee : String} {arguments : List Node} {span : Span}
    (henclosed : ∀ argument ∈ arguments, Enclosed argument) : Restored (.call callee arguments span) := by
  intro power rest hunary _ _
  have hlist := commaList_words (show Closes .closeParen by decide) (by decide) false henclosed ")" rest
  have hwords : (Node.call callee arguments span).words ++ rest =
      (.identifier, callee) :: (.openParen, "(") :: (Node.listWords arguments ++ (.closeParen, ")") :: rest) := by
    simp [Node.words]
  have hcallee : nested.expression power (reading ((Node.call callee arguments span).words ++ rest)) =
      continued power (.identifier callee default)
        (reading ((.openParen, "(") :: (Node.listWords arguments ++ (.closeParen, ")") :: rest))) := by
    rw [hwords]
    exact expression_of_rule power rfl rfl
  have hentry : standard.continuation .openParen = some (.call, .call) := rfl
  rw [hcallee]
  refine continued_of_rule power hentry (Nat.lt_of_le_of_lt (Nat.not_lt.mp hunary) (by decide)) ?_
  show callOf nested (.identifier callee default) _ = _
  rw [callOf, advance_bind_run, advance_reading, bind_of_ok hlist, spanSince_bind_run]
  show EStateM.Result.ok (Node.call callee _ ((reading rest).spanSince default)) (reading rest) = _
  rw [spanSince_reading, Node.unplaced, Node.relocate, Node.relocateAll_eq_map]
  rfl

theorem restored_index {collection position : Node} {span : Span} (hcollection : Restored collection)
    (hcollection' : Enclosed collection) (hposition : Enclosed position) (hlist : collection.isNumberList = false)
    (hindex : collection.isNumberIndex = false) : Restored (.index collection position span) := by
  intro power rest hunary _ _
  have hpower : power < .index := Nat.lt_of_le_of_lt (Nat.not_lt.mp hunary) (by decide)
  have hwords : (Node.index collection position span).words ++ rest =
      parenthesizeWords (collection.takesParens .index false) collection.words ++
        (.openBracket, "[") :: (position.words ++ (.closeBracket, "]") :: rest) := by
    simp [Node.words]
  have hentry : standard.continuation .openBracket = some (.index, .index) := rfl
  rw [hwords, hcollection.leftOperand hcollection' hunary hentry hpower (by simp [hlist, hindex])]
  refine continued_of_rule power hentry hpower ?_
  show indexInto nested _ _ = _
  rw [indexInto, advance_bind_run, advance_reading, bind_of_ok (hposition _ rest (by decide)),
    bind_of_ok (take_reading _ _ _), spanSince_bind_run, Node.unplaced, Node.span_relocate]
  show EStateM.Result.ok (Node.index _ _ ((reading rest).spanSince default)) (reading rest) = _
  rw [spanSince_reading]
  rfl

theorem isNumberList_eq (element : Option GoType) (nodes : List Node) (span : Span) :
    (Node.array element .bare (some nodes) span).isNumberList = (writtenSize? nodes).isSome := by
  rcases nodes with _ | ⟨first, _ | ⟨second, others⟩⟩
  · rfl
  · cases first <;> rfl
  · cases first <;> rfl

theorem exists_of_isNumberList {node : Node} (h : node.isNumberList = true) :
    ∃ element value valueSpan span, node = .array element .bare (some [.integer value valueSpan]) span := by
  unfold Node.isNumberList at h
  split at h
  · exact ⟨_, _, _, _, rfl⟩
  · cases h

theorem restored_array {element : Option GoType} {form : ArrayForm} {elements : Option (List Node)} {span : Span}
    (h : ArrayFormed element form elements)
    (hfunctions : ∀ nodes, elements = some nodes → ∀ node ∈ nodes, node.isFunction = false)
    (henclosed : ∀ nodes, elements = some nodes → ∀ node ∈ nodes, Enclosed node) :
    Restored (.array element form elements span) := by
  intro power rest _ _ hallowed
  by_cases hform : form = .bare
  · subst hform
    obtain ⟨first, others, rfl, rfl⟩ := h.bare rfl
    have hliteral := arrayLiteral_bare h (hfunctions _ rfl) (henclosed _ rfl) span fun hsize =>
      hallowed.type (.inl ((isNumberList_eq _ _ span).trans hsize))
    have hwords : (Node.array first.ownType? .bare (some (first :: others)) span).words ++ rest =
        (.openBracket, "[") :: (Node.listWords (first :: others) ++ (.closeBracket, "]") :: rest) := by
      simp [Node.words]
    rw [hwords]
    exact expression_of_rule power rfl hliteral
  · obtain ⟨type, rfl, _⟩ := h.written hform
    have hcurly : (reading rest).current.kind ≠ .openCurly := fun hkind => hallowed.outside (by simp [hkind])
    have hliteral := arrayLiteral_written h hfunctions henclosed span hcurly hform
    rw [words_array hform, List.append_assoc, List.append_assoc]
    cases form with
    | bare => exact absurd rfl hform
    | sized | counted | slice => exact expression_of_rule power rfl hliteral

theorem restored_indexOfList {element : Option GoType} {value : Int} {valueSpan listSpan span : Span} {position : Node}
    (h : ArrayFormed element .bare (some [.integer value valueSpan])) (hvalue : (Node.integer value valueSpan).Formed)
    (hposition : Enclosed position) :
    Restored (.index (.array element .bare (some [.integer value valueSpan]) listSpan) position span) := by
  intro power rest _ _ hallowed
  have hliteral := arrayLiteral_indexed h ((restored_integer hvalue).enclosed hvalue) hposition listSpan span
    fun hinteger => hallowed.type (.inr (by simp [Node.isNumberIndex, Node.isNumberList, hinteger]))
  have hparens :
      (Node.array element .bare (some [.integer value valueSpan]) listSpan).takesParens .index false = false := rfl
  have hwords : (Node.index (.array element .bare (some [.integer value valueSpan]) listSpan) position span).words ++
      rest = (.openBracket, "[") :: (Node.listWords [.integer value valueSpan] ++
        (.closeBracket, "]") :: (.openBracket, "[") :: (position.words ++ (.closeBracket, "]") :: rest)) := by
    simp [Node.words, parenthesizeWords, hparens]
  rw [hwords]
  exact expression_of_rule power rfl hliteral

/-- **The words of a legible expression are parsed to the expression.** -/
theorem restored_of_legible (node : Node) (h : node.Legible) : Restored node := by
  induction node using Node.partsInduction with
  | step node ih =>
    have hformed := h.sound.formed
    have hrestored : ∀ part ∈ node.parts, Restored part := fun part hpart => ih part hpart (h.part hpart)
    have henclosed : ∀ part ∈ node.parts, Enclosed part :=
      fun part hpart => (hrestored part hpart).enclosed (h.part hpart).sound.formed
    cases node with
    | identifier name span => exact restored_of_atom (.identifier, name) rfl rfl fun _ => rfl
    | integer value span => exact restored_integer hformed
    | string value span => exact restored_of_atom (.string, value) rfl rfl fun _ => rfl
    | boolean value span =>
      cases value with
      | true => exact restored_of_atom (.trueWord, "true") rfl rfl fun _ => rfl
      | false => exact restored_of_atom (.falseWord, "false") rfl rfl fun _ => rfl
    | unary operator operand span =>
      exact restored_unary hformed.1 (hrestored operand (by simp [Node.parts]))
        (henclosed operand (by simp [Node.parts]))
    | binary left operator right span =>
      exact restored_binary hformed.1 (hrestored left (by simp [Node.parts])) (henclosed left (by simp [Node.parts]))
        (hrestored right (by simp [Node.parts])) (henclosed right (by simp [Node.parts]))
    | call callee arguments span => exact restored_call henclosed
    | array element form elements span =>
      refine restored_array hformed ?_ ?_
      · rintro nodes rfl node hnode
        exact (h.part hnode).functions node (.self node)
      · rintro nodes rfl node hnode
        exact henclosed node hnode
    | index collection position span =>
      have hcollection : collection.Legible := h.part (by simp [Node.parts])
      have hposition := henclosed position (by simp [Node.parts])
      cases hlist : collection.isNumberList with
      | false =>
        exact restored_index (hrestored collection (by simp [Node.parts])) (henclosed collection (by simp [Node.parts]))
          hposition hlist (h.indexes _ (.self _))
      | true =>
        -- the list is not read as an operand of its own: the index is read together with it
        obtain ⟨element, value, valueSpan, listSpan, rfl⟩ := exists_of_isNumberList hlist
        have hvalue : (Node.integer value valueSpan).Formed :=
          hcollection.sound _ (.part (by simp [Node.parts]) (.self _))
        exact restored_indexOfList hcollection.sound.formed hvalue hposition
    | function f => exact absurd (h.functions _ (.self _)) (by simp [Node.isFunction])
    | program | declaration | assignment | returning | expression | block | conditional =>
      exact absurd h.expression (by simp [Node.isExpression])

end Grammar

/-! ### Texts -/

open Grammar

/-- A node that a parse of some source text can produce: it lies in a program, or in an expression that is read from
some token of the text on. -/
inductive Node.Parsed (node : Node) : Prop
  | program {source file : String} {program : Program} :
    parse source file = .ok program → node.Within (.program program) → node.Parsed
  | expression {source file : String} {cursor later : Cursor} {power : Precedence} {root : Node} :
    cursor.rest <:+ scan file source.toList → standard.parseExpression power cursor = .ok root later →
      node.Within root → node.Parsed

/-- What a parse produces is sound. -/
theorem Node.Parsed.sound {node : Node} (h : node.Parsed) : node.Sound := by
  cases h with
  | program hparse within => exact (sound_of_parse hparse).within within
  | expression hsuffix hparse within =>
    have hspelled : Cursor.Spelled _ := fun token htoken => spelled_of_mem_scan (hsuffix.subset htoken)
    exact (sound_of_parseExpression hspelled hparse).sound.within within

/-- A legible expression is read back from its words, with nothing left. -/
theorem expression_words {node : Node} (h : node.Legible) :
    nested.expression .lowest (reading node.words) = .ok node.unplaced (reading []) := by
  have hrestored := restored_of_legible node h .lowest [] (by decide) (lowest_lt_precedence h.sound.formed)
    (Closes.allowed (by decide) node)
  rw [List.append_nil] at hrestored
  rw [hrestored]
  exact continued_stop _ (by decide)

/-- The whole of a text is parsed to an expression, up to spans. -/
def ReadsAs (text : String) (node : Node) : Prop :=
  ∀ file, ∃ again later, standard.parseExpression .lowest (Cursor.ofSource text file) = .ok again later ∧
    later.rest = [] ∧ again.unplaced = node.unplaced

/-- An expression is read alike when all positions are forgotten. -/
theorem expression_unplaced (cursor : Cursor) : nested.expression .lowest (cursor.relocate fun _ => default) =
    relocate (fun _ => default) (nested.expression .lowest cursor) :=
  (nested_expression_tracks (.moved fun _ => default) .lowest).same

/-- Whether all of the tokens are parsed to an expression, up to spans, does not depend on their positions. -/
theorem parses_iff_unplaced {cursor : Cursor} {node : Node} :
    (∃ again later, standard.parseExpression .lowest cursor = .ok again later ∧ later.rest = [] ∧
        again.unplaced = node.unplaced) ↔
      nested.expression .lowest (cursor.relocate fun _ => default) = .ok node.unplaced (reading []) := by
  show (∃ again later, nested.expression .lowest cursor = .ok again later ∧ _) ↔ _
  rw [expression_unplaced]
  constructor
  · rintro ⟨again, later, hparse, hrest, hagain⟩
    have hlater : later.relocate (fun _ => default) = reading [] := by rw [Cursor.relocate, hrest]; rfl
    rw [hparse, ← hagain, ← hlater]
    rfl
  · intro h
    cases hparse : nested.expression .lowest cursor with
    | error error later =>
      rw [hparse] at h
      cases h
    | ok again later =>
      rw [hparse] at h
      injection h with hagain hlater
      exact ⟨again, later, rfl, List.map_eq_nil_iff.mp (congrArg Cursor.rest hlater), hagain⟩

/-- What a text is parsed to is decided by its words. -/
theorem readsAs_iff_words {text : String} {node : Node} :
    ReadsAs text node ↔
      nested.expression .lowest (reading (wordsOf text.toList)) = .ok node.unplaced (reading []) := by
  constructor
  · intro h
    rw [← relocate_ofSource text ""]
    exact parses_iff_unplaced.mp (h "")
  · intro h file
    rw [← relocate_ofSource text file] at h
    exact parses_iff_unplaced.mpr h

/-- The text of a legible expression is parsed to the expression. -/
theorem readsAs_source {node : Node} (h : node.Legible) : ReadsAs node.source node := by
  have hwords := wordsOf_source node h [] trivial
  rw [List.append_nil, show wordsOf [] = [] from rfl, List.append_nil] at hwords
  rw [readsAs_iff_words, hwords]
  exact expression_words h

/-- **Printing an expression and parsing the text again gives the same expression, up to spans.**  All of the text is
read.  The expression has no function in it, which is printed as an outline, and no index of `[1][2]`, whose third
bracket would make a type of the first two. -/
theorem parseExpression_source {node : Node} (hparsed : node.Parsed) (hexpression : node.isExpression = true)
    (hfunctions : ∀ part : Node, part.Within node → part.isFunction = false)
    (hindexes : ∀ part : Node, part.Within node → part.isIndexOfNumberIndex = false) (file : String) :
    ∃ again later, standard.parseExpression .lowest (Cursor.ofSource node.source file) = .ok again later ∧
      later.rest = [] ∧ again.unplaced = node.unplaced := by
  have hlegible : node.Legible := ⟨hexpression, hparsed.sound, hfunctions, hindexes⟩
  have hwords : wordsOf node.source.toList = node.words := by
    have hreads := wordsOf_source node hlegible [] trivial
    rwa [List.append_nil, show wordsOf [] = [] from rfl, List.append_nil] at hreads
  -- the positions are forgotten, and what the parse does then is what it does with them
  have hrun := expression_words hlegible
  have hmoved := expression_unplaced (Cursor.ofSource node.source file)
  rw [relocate_ofSource, hwords, hrun] at hmoved
  show ∃ again later, nested.expression .lowest (Cursor.ofSource node.source file) = .ok again later ∧ _
  cases hparse : nested.expression .lowest (Cursor.ofSource node.source file) with
  | error error later =>
    rw [hparse] at hmoved
    cases hmoved
  | ok again later =>
    rw [hparse] at hmoved
    injection hmoved with hnode hlater
    have hrest : later.rest.map (Token.relocate fun _ => default) = [] := (congrArg Cursor.rest hlater).symm
    exact ⟨again, later, rfl, List.map_eq_nil_iff.mp hrest, hnode.symm⟩

theorem parseExpression_source_negation : ∃ node : Node, node.source = "-(a + 1)" ∧ ∃ again later,
    standard.parseExpression .lowest (Cursor.ofSource node.source "shell") = .ok again later ∧
      later.rest = [] ∧ again.unplaced = node.unplaced := by
  obtain ⟨minus, name, plus, one, inner, outer, later, h⟩ : ∃ minus name plus one inner outer later,
      standard.parseExpression .lowest (Cursor.ofSource "-(a + 1)" "shell") =
        .ok (.unary ⟨.dash, "-", minus⟩
          (.binary (.identifier "a" name) ⟨.plus, "+", plus⟩ (.integer 1 one) inner) outer) later :=
    ⟨_, _, _, _, _, _, _, by rfl⟩
  refine ⟨_, by rfl, parseExpression_source (.expression List.suffix_rfl h (.self _)) rfl ?_ ?_ "shell"⟩
  all_goals
    intro part within
    rcases within with _ | ⟨hpart, within⟩
    · rfl
    obtain rfl := List.mem_singleton.mp hpart
    rcases within with _ | ⟨hpart, within⟩
    · rfl
    simp only [Node.parts, List.mem_cons, List.not_mem_nil, or_false] at hpart
    rcases hpart with rfl | rfl <;> rcases within with _ | ⟨hpart, _⟩ <;> first | rfl | cases hpart

end GoScript
