import GoScript.Proofs.PrintedWords
import GoScript.Proofs.WellFormed

/-!
# Parsing printed words

Positions play no part in what a parse does, so it can be followed on words alone.  After the words of an expression it
stands where it would after that expression as an operand.  This file has what is needed for one expression at a time:
where its words end, and how numbers, types, lists and array literals are read back from theirs.

* `reading` — the cursor in front of some words
* `Allowed` — the tokens that may stand after an expression without becoming a part of it
* `Restored` — the words of an expression are parsed to it, and then the parse continues
* `commaList_words`, `arrayLiteral_written`, `arrayLiteral_bare`, `arrayLiteral_indexed` — lists and array literals
-/

namespace GoScript

open ParseM Outcome

/-! ### Words as tokens -/

/-- The token of a word, at no place. -/
def Word.token (word : Word) : Token :=
  ⟨word.1, word.2, default⟩

/-- The cursor in front of some words. -/
def reading (words : List Word) : Cursor :=
  ⟨words.map Word.token, default⟩

section Reading

variable (word : Word) (words : List Word)

@[simp]
theorem current_reading : (reading (word :: words)).current = word.token := rfl

@[simp]
theorem advance_reading : (reading (word :: words)).advance = reading words := rfl

@[simp]
theorem next_reading : (reading (word :: words)).next = (reading words).current := rfl

@[simp]
theorem position_reading : (reading words).position = default := by
  cases words <;> rfl

@[simp]
theorem spanSince_reading : (reading words).spanSince default = default := by
  rw [Cursor.spanSince, position_reading]
  rfl

@[simp]
theorem Word.token_kind : word.token.kind = word.1 := rfl

theorem take_reading (kind : TokenKind) (text : String) :
    take kind (reading ((kind, text) :: words)) = .ok (Word.token (kind, text)) (reading words) :=
  take_run rfl

end Reading

/-- A source text, with its positions forgotten, is its words. -/
theorem relocate_ofSource (text file : String) :
    (Cursor.ofSource text file).relocate (fun _ => default) = reading (wordsOf text.toList) := by
  rw [← map_scan file, reading, List.map_map]
  rfl

namespace Grammar

/-! ### Numbers and types -/

theorem numeral_value_toString (n : Nat) : Numeral.value (toString n) = n := by
  rw [Numeral.value, Nat.toString_eq_repr, Nat.toList_repr, ← Nat.ofDigitChars_eq_foldl]
  exact Nat.ofDigitChars_ten_toDigits

theorem below?_toString {n limit : Nat} (h : n < limit) : Numeral.below? limit (toString n) = some n := by
  rw [Numeral.below?, numeral_value_toString, if_pos h]

theorem startsType_words {type : GoType} (h : type.Written) (rest : List Word) :
    (standard.type (reading (type.words ++ rest)).current.kind).isSome = true := by
  cases type with
  | void => exact h.elim
  | int | string | bool | array => rfl

/-- The words of a type are parsed to the type. -/
theorem type_words {type : GoType} (h : type.Written) (rest : List Word) :
    nested.type (reading (type.words ++ rest)) = .ok type (reading rest) := by
  induction type with
  | int | string | bool =>
    rw [nested_type]
    rfl
  | array element ih =>
    rw [nested_type]
    show (nested.type >>= fun element => pure (GoType.array element)) (reading (element.words ++ rest)) = _
    rw [bind_of_ok (ih h)]
    rfl
  | void => exact h.elim

/-! ### Where an expression ends -/

/-- A token of this kind may stand after an expression without becoming a part of it. -/
structure Allowed (node : Node) (kind : TokenKind) : Prop where
  outside : kind ∉ [.openCurly, .intType, .stringType, .boolType]
  bracket : node.isNumberList = true ∨ node.isNumberIndex = true → kind ≠ .openBracket
  stop : ¬ Continues node.precedence kind

theorem Closes.allowed {kind : TokenKind} (h : Closes kind) (node : Node) : Allowed node kind where
  outside hkind := by
    have htype := h.type
    simp only [List.mem_cons, List.not_mem_nil, or_false] at hkind
    rcases hkind with rfl | rfl | rfl | rfl
    · exact h.curly rfl
    all_goals cases htype
  bracket _ hkind := by
    have htype := h.type
    rw [hkind] at htype
    cases htype
  stop hcontinues := by
    obtain ⟨entry, hentry, _⟩ := hcontinues
    rw [h.continuation] at hentry
    cases hentry

/-- An operator may stand after an operand that it does not bind more tightly than. -/
theorem Allowed.of_continuation {node : Node} {kind : TokenKind} {power : Precedence} {rule : Continuation}
    (hentry : standard.continuation kind = some (power, rule)) (hnode : ¬ node.precedence < power)
    (hbracket : node.isNumberList = true ∨ node.isNumberIndex = true → kind ≠ .openBracket) : Allowed node kind where
  outside hkind := by
    simp only [List.mem_cons, List.not_mem_nil, or_false] at hkind
    rcases hkind with rfl | rfl | rfl | rfl <;> cases hentry
  bracket := hbracket
  stop hcontinues := by
    obtain ⟨entry, hentry', hlt⟩ := hcontinues
    rw [hentry] at hentry'
    cases hentry'
    exact hnode hlt

/-- What may stand after an operation may stand after its last operand. -/
theorem Allowed.operand {kind : TokenKind} {power : Precedence} {node : Node}
    (houtside : kind ∉ [.openCurly, .intType, .stringType, .boolType]) (hstop : ¬ Continues power kind)
    (hpower : power < node.precedence) (hunary : ¬ .unary < power) : Allowed node kind where
  outside := houtside
  bracket _ hkind := by
    subst hkind
    have hindex : power < .index := Nat.lt_of_le_of_lt (Nat.not_lt.mp hunary) (by decide)
    exact hstop ⟨(.index, .index), rfl, hindex⟩
  stop hcontinues := by
    obtain ⟨entry, hentry, hlt⟩ := hcontinues
    exact hstop ⟨entry, hentry, Nat.lt_trans hpower hlt⟩

/-- The words of an expression are parsed to the expression, and what follows continues it. -/
def Restored (node : Node) : Prop :=
  ∀ power rest, ¬ .unary < power → power < node.precedence → Allowed node (reading rest).current.kind →
    nested.expression power (reading (node.words ++ rest)) = continued power node.unplaced (reading rest)

/-- The words of an expression in front of a token that ends it are parsed to the expression. -/
def Enclosed (node : Node) : Prop :=
  ∀ word rest, Closes word.1 → nested.expression .lowest (reading (node.words ++ word :: rest)) =
    .ok node.unplaced (reading (word :: rest))

/-- Binary operators bind more tightly than nothing, and no more tightly than unary ones. -/
theorem binary?_range {kind : TokenKind} {power : Precedence} (h : Precedence.binary? kind = some power) :
    .lowest < power ∧ ¬ .unary < power := by
  revert h
  cases kind <;> simp [Precedence.binary?] <;> rintro rfl <;> decide

/-- A binary operator continues an operand. -/
theorem continuation_of_binary? {kind : TokenKind} {power : Precedence} (h : Precedence.binary? kind = some power) :
    standard.continuation kind = some (power, .binary) := by
  revert h
  cases kind <;> simp [Precedence.binary?, standard]

theorem lowest_lt_precedence {node : Node} (h : node.Formed) : .lowest < node.precedence := by
  cases node with
  | binary left operator right span =>
    obtain ⟨power, hpower⟩ := Option.isSome_iff_exists.mp h.1
    rw [Node.precedence, hpower]
    exact (binary?_range hpower).1
  | unary => exact (by decide : Precedence.lowest < .unary)
  | _ => exact (by decide : Precedence.lowest < .primary)

theorem Restored.enclosed {node : Node} (h : Restored node) (hformed : node.Formed) : Enclosed node := by
  intro word rest hword
  have hstop : ¬ Continues .lowest (reading (word :: rest)).current.kind := by
    rintro ⟨entry, hentry, _⟩
    rw [current_reading, Word.token_kind, hword.continuation] at hentry
    cases hentry
  rw [h .lowest (word :: rest) (by decide) (lowest_lt_precedence hformed) (hword.allowed node)]
  exact continued_stop _ hstop

/-! ### Operands -/

theorem startsType_bind_run {α : Type} {cursor : Cursor} (next : Bool → ParseM α) :
    (standard.startsType >>= next) cursor = next (standard.type cursor.current.kind).isSome cursor := rfl

section Steps

variable {word : Word} {words : List Word} {node : Node} {later : Cursor} (power : Precedence)

/-- The operand that an expression starts with is read by the rule of its first word. -/
theorem expression_of_rule {rule : Rule} (hrule : standard.operand word.1 = some rule)
    (h : ruleAt standard nested rule (reading (word :: words)) = .ok node later) :
    nested.expression power (reading (word :: words)) = continued power node later := by
  have hfirst : firstOperand (reading (word :: words)) = .ok node later := by
    rw [firstOperand, currentKind_bind_run, current_reading, Word.token_kind, hrule]
    exact h
  rw [nested_expression_eq, bind_of_ok hfirst]

/-- What continues an operand is read by the rule of the word after it. -/
theorem continued_of_rule {left : Node} {nextPower : Precedence} {rule : Continuation}
    (hentry : standard.continuation word.1 = some (nextPower, rule)) (hpower : power < nextPower)
    (h : continueWith nested rule left nextPower (reading (word :: words)) = .ok node later) :
    continued power left (reading (word :: words)) = continued power node later := by
  rw [← Word.token_kind, ← current_reading word words] at hentry
  rw [continued_step left hentry hpower, bind_of_ok h]

end Steps

/-- An expression starts with an operand. -/
theorem operand_of_expression {power : Precedence} {cursor later : Cursor} {node : Node}
    (h : nested.expression power cursor = .ok node later) : (standard.operand cursor.current.kind).isSome := by
  rw [nested_expression, expressionAt, currentKind_bind_run] at h
  cases hrule : standard.operand cursor.current.kind with
  | some rule => rfl
  | none =>
    rw [hrule] at h
    cases h

/-- So it does not start with a token that ends one. -/
theorem Enclosed.current_ne {node : Node} (h : Enclosed node) {word : Word} (hword : Closes word.1) (rest : List Word)
    {kind : TokenKind} (hkind : standard.operand kind = none) :
    (reading (node.words ++ word :: rest)).current.kind ≠ kind := by
  intro hcurrent
  have hoperand := operand_of_expression (h word rest hword)
  rw [hcurrent, hkind] at hoperand
  cases hoperand

/-- An operand, with or without parentheses. -/
theorem Restored.parenthesize {node : Node} (h : Restored node) (henclosed : Enclosed node) (needed : Bool)
    {power : Precedence} (hunary : ¬ .unary < power) {rest : List Word}
    (hbare : needed = false → power < node.precedence ∧ Allowed node (reading rest).current.kind) :
    nested.expression power (reading (parenthesizeWords needed node.words ++ rest)) =
      continued power node.unplaced (reading rest) := by
  cases needed with
  | false => exact h power rest hunary (hbare rfl).1 (hbare rfl).2
  | true =>
    have hwords : parenthesizeWords true node.words ++ rest =
        (.openParen, "(") :: (node.words ++ (.closeParen, ")") :: rest) := by
      simp [parenthesizeWords]
    rw [hwords]
    apply expression_of_rule power rfl
    show parenthesized nested _ = _
    rw [parenthesized, advance_bind_run, advance_reading, bind_of_ok (henclosed _ rest (by decide)),
      bind_of_ok (take_reading _ _ _)]
    rfl

/-! ### Lists -/

section Lists

variable {close : TokenKind} (hclose : Closes close) (hcomma : close ≠ .comma) (trailingComma : Bool)
include hclose

theorem listItem_more {node : Node} (h : Enclosed node) {rest : List Word}
    (hnext : (reading rest).current.kind ≠ close) :
    listItem nested close trailingComma (reading (node.words ++ (.comma, ",") :: rest)) =
      .ok (.more node.unplaced) (reading rest) := by
  have hgoOn : ¬ (!trailingComma && (reading rest).current.kind == close) = true := by simp [hnext]
  rw [listItem, currentKind_bind_run, if_neg (h.current_ne (by decide) rest hclose.operand),
    bind_of_ok (h _ rest (by decide)), currentKind_bind_run, if_neg (by simp), advance_bind_run, currentKind_bind_run,
    advance_reading, if_neg hgoOn]
  rfl

/-- A list starts with an operand, too. -/
theorem current_list_ne {node : Node} (h : Enclosed node) (nodes : List Node) (text : String) (rest : List Word)
    {kind : TokenKind} (hkind : standard.operand kind = none) :
    (reading (Node.listWords (node :: nodes) ++ (close, text) :: rest)).current.kind ≠ kind := by
  cases nodes with
  | nil => exact h.current_ne hclose rest hkind
  | cons next nodes =>
    rw [Node.listWords, List.append_assoc]
    · exact h.current_ne (by decide) _ hkind
    · simp

include hcomma

theorem listItem_last {node : Node} (h : Enclosed node) (text : String) (rest : List Word) :
    listItem nested close trailingComma (reading (node.words ++ (close, text) :: rest)) =
      .ok (.last node.unplaced) (reading ((close, text) :: rest)) := by
  rw [listItem, currentKind_bind_run, if_neg (h.current_ne hclose rest hclose.operand), bind_of_ok (h _ rest hclose),
    currentKind_bind_run, current_reading, Word.token_kind, if_pos hcomma]
  rfl

/-- The expressions of a list are read one after the other. -/
theorem gather_words {nodes : List Node} (h : ∀ node ∈ nodes, Enclosed node) (text : String) (rest : List Word) :
    gather (listItem nested close trailingComma) (reading (Node.listWords nodes ++ (close, text) :: rest)) =
      .ok (nodes.map Node.unplaced) (reading ((close, text) :: rest)) := by
  induction nodes with
  | nil =>
    have hstop : listItem nested close trailingComma (reading ((close, text) :: rest)) =
        .ok .stop (reading ((close, text) :: rest)) := by
      rw [listItem, currentKind_bind_run, current_reading, Word.token_kind, if_pos rfl]
      rfl
    rw [gather_eq (listItem_advances close trailingComma)]
    exact bind_of_ok hstop
  | cons node nodes ih =>
    have hnode := h node List.mem_cons_self
    rw [gather_eq (listItem_advances close trailingComma)]
    cases nodes with
    | nil => exact bind_of_ok (listItem_last hclose hcomma trailingComma hnode text rest)
    | cons next nodes =>
      have hnodes := ih fun other hother => h other (List.mem_cons_of_mem node hother)
      have hnext : (reading (Node.listWords (next :: nodes) ++ (close, text) :: rest)).current.kind ≠ close :=
        current_list_ne hclose (h next (by simp)) nodes text rest hclose.operand
      have hwords : Node.listWords (node :: next :: nodes) ++ (close, text) :: rest =
          node.words ++ (.comma, ",") :: (Node.listWords (next :: nodes) ++ (close, text) :: rest) := by
        rw [Node.listWords, List.append_assoc, List.cons_append]
        simp
      rw [hwords, bind_of_ok (listItem_more hclose trailingComma hnode hnext)]
      show (gather _ >>= _) _ = _
      rw [bind_of_ok hnodes]
      rfl

theorem commaList_words {nodes : List Node} (h : ∀ node ∈ nodes, Enclosed node) (text : String) (rest : List Word) :
    commaList nested close trailingComma (reading (Node.listWords nodes ++ (close, text) :: rest)) =
      .ok (nodes.map Node.unplaced) (reading rest) := by
  rw [commaList, bind_of_ok (gather_words hclose hcomma trailingComma h text rest), bind_of_ok (take_reading _ _ _)]
  rfl

end Lists

/-- The right operand of an operator stands without parentheses only if it binds more tightly. -/
theorem lt_of_takesParens_right {child : Node} {parent : Precedence} (h : child.takesParens parent true = false) :
    parent < child.precedence := by
  have hrank : ∀ a b : Precedence, a.rank = b.rank → a = b := by
    intro a b hab
    cases a <;> cases b <;> first | rfl | cases hab
  simp only [Node.takesParens, Bool.true_and, Bool.or_eq_false_iff, decide_eq_false_iff_not, beq_eq_false_iff_ne] at h
  have hne : child.precedence.rank ≠ parent.rank := fun heq => h.2 (hrank _ _ heq)
  have hle : ¬ child.precedence.rank < parent.rank := h.1
  show parent.rank < child.precedence.rank
  omega

theorem not_lt_of_takesParens_left {child : Node} {parent : Precedence} (h : child.takesParens parent false = false) :
    ¬ child.precedence < parent := by
  simpa [Node.takesParens] using h

/-- An operand on the right of an operator is read to its end. -/
theorem Restored.rightOperand {node : Node} (h : Restored node) (henclosed : Enclosed node) {power : Precedence}
    (hunary : ¬ .unary < power) {rest : List Word}
    (houtside : (reading rest).current.kind ∉ [.openCurly, .intType, .stringType, .boolType])
    (hstop : ¬ Continues power (reading rest).current.kind) :
    nested.expression power (reading (parenthesizeWords (node.takesParens power true) node.words ++ rest)) =
      .ok node.unplaced (reading rest) := by
  rw [h.parenthesize henclosed _ hunary, continued_stop _ hstop]
  intro hbare
  have hpower := lt_of_takesParens_right hbare
  exact ⟨hpower, .operand houtside hstop hpower hunary⟩

/-- An operand on the left of an operator is read up to the operator. -/
theorem Restored.leftOperand {node : Node} (h : Restored node) (henclosed : Enclosed node) {power own : Precedence}
    {rule : Continuation} {word : Word} {rest : List Word} (hunary : ¬ .unary < power)
    (hentry : standard.continuation word.1 = some (own, rule)) (hpower : power < own)
    (hbracket : node.isNumberList = true ∨ node.isNumberIndex = true → word.1 ≠ .openBracket) :
    nested.expression power (reading (parenthesizeWords (node.takesParens own false) node.words ++ word :: rest)) =
      continued power node.unplaced (reading (word :: rest)) := by
  apply h.parenthesize henclosed _ hunary
  intro hbare
  have hnode := not_lt_of_takesParens_left hbare
  exact ⟨Nat.lt_of_lt_of_le hpower (Nat.not_lt.mp hnode), .of_continuation hentry hnode hbracket⟩

/-! ### Literals and names -/

/-- A literal or a name is one word. -/
theorem restored_of_atom {node : Node} (word : Word) (hwords : node.words = [word])
    (hrule : standard.operand word.1 = some .primary)
    (h : ∀ rest, atom (reading (word :: rest)) = .ok node.unplaced (reading rest)) : Restored node := by
  intro power rest _ _ _
  rw [hwords]
  exact expression_of_rule power hrule (h rest)

theorem restored_integer {value : Int} {span : Span} (h : (Node.integer value span).Formed) :
    Restored (.integer value span) := by
  obtain ⟨n, rfl⟩ := Int.eq_ofNat_of_zero_le h.1
  have hlimit : n < Numeral.integerLimit := Int.ofNat_lt.mp h.2
  refine restored_of_atom (.integer, toString n) rfl rfl ?_
  intro rest
  rw [atom, advance_bind_run]
  simp only [current_reading, Word.token, below?_toString hlimit]
  rfl

/-! ### Array literals -/

/-- An array literal that keeps the rules passes the checks. -/
theorem arrayNode_of_formed {element : Option GoType} {form : ArrayForm} {elements : Option (List Node)}
    (h : ArrayFormed element form elements)
    (hfunctions : ∀ nodes, elements = some nodes → ∀ node ∈ nodes, node.isFunction = false) (span : Span) :
    arrayNode element form elements span = .ok (.array element form elements span) := by
  rcases element with _ | type
  · rfl
  rcases elements with _ | nodes
  · rfl
  have hoverflow : overflow? type form nodes span.start = none := by
    cases form with
    | sized count =>
      have hfits := h.fits count nodes rfl rfl
      rw [overflow?, if_neg (by omega)]
    | counted | slice | bare => rfl
  have hstray : stray? type nodes = none := by
    apply List.findSome?_eq_none_iff.mpr
    intro node hnode
    have hfunction := hfunctions nodes rfl node hnode
    rw [strayType?_eq type hfunction]
    cases htype : node.ownType? with
    | none => rfl
    | some type' => simp [h.typed type nodes rfl rfl node hnode hfunction type' htype]
  rw [arrayNode]
  simp only [hoverflow, hstray, Option.or_none]

/-- The same for its unplaced elements. -/
theorem arrayNode_unplaced {element : Option GoType} {form : ArrayForm} {elements : Option (List Node)}
    (h : ArrayFormed element form elements)
    (hfunctions : ∀ nodes, elements = some nodes → ∀ node ∈ nodes, node.isFunction = false) (span : Span) :
    arrayNode element form (elements.map (List.map Node.unplaced)) default =
      .ok (Node.array element form elements span).unplaced := by
  have hplaced := arrayNode_relocate (f := fun _ => default) element form elements span
  rw [arrayNode_of_formed h hfunctions span] at hplaced
  exact hplaced

theorem listNode_unplaced {element : Option GoType} {nodes : List Node} (h : ArrayFormed element .bare (some nodes))
    (hfunctions : ∀ node ∈ nodes, node.isFunction = false) (span : Span) :
    listNode (nodes.map Node.unplaced) default = .ok (Node.array element .bare (some nodes) span).unplaced := by
  obtain ⟨first, rest, hnodes, rfl⟩ := h.bare rfl
  cases hnodes
  have hplaced := arrayNode_unplaced h (fun _ hnodes => by cases hnodes; exact hfunctions) span
  show arrayNode first.unplaced.ownType? .bare _ _ = _
  rw [Node.unplaced, Node.ownType?_relocate]
  exact hplaced

/-- The words of the elements of an array literal in braces. -/
def bracedWords : Option (List Node) → List Word
  | none => []
  | some nodes => (.openCurly, "\x7b") :: (Node.listWords nodes ++ [(.closeCurly, "\x7d")])

theorem words_array {type : GoType} {form : ArrayForm} (hform : form ≠ .bare) (elements : Option (List Node))
    (span : Span) :
    (Node.array (some type) form elements span).words = form.words ++ (type.words ++ bracedWords elements) := by
  cases elements with
  | none =>
    rw [Node.words, bracedWords, List.append_nil]
    rfl
  | some nodes =>
    rw [Node.words, bracedWords, List.append_assoc]
    · rfl
    · exact hform

section Arrays

variable {type : GoType} {form : ArrayForm} {elements : Option (List Node)} (h : ArrayFormed (some type) form elements)
  (hfunctions : ∀ nodes, elements = some nodes → ∀ node ∈ nodes, node.isFunction = false)
  (henclosed : ∀ nodes, elements = some nodes → ∀ node ∈ nodes, Enclosed node) (span : Span) {rest : List Word}
  (hrest : (reading rest).current.kind ≠ .openCurly)
include h hfunctions henclosed hrest

theorem arrayWithElements_words : arrayWithElements nested default form type (reading (bracedWords elements ++ rest)) =
    .ok (Node.array (some type) form elements span).unplaced (reading rest) := by
  have helements : bracedElements nested (reading (bracedWords elements ++ rest)) =
      .ok (elements.map (List.map Node.unplaced)) (reading rest) := by
    cases elements with
    | none =>
      rw [bracedElements, currentKind_bind_run]
      exact congrFun (if_neg hrest) _
    | some nodes =>
      have hlist :=
        commaList_words (show Closes .closeCurly by decide) (by decide) true (henclosed nodes rfl) "\x7d" rest
      have hwords : bracedWords (some nodes) ++ rest =
          (.openCurly, "\x7b") :: (Node.listWords nodes ++ (.closeCurly, "\x7d") :: rest) := by
        simp [bracedWords]
      rw [hwords, bracedElements, currentKind_bind_run, current_reading, Word.token_kind, if_pos rfl, advance_bind_run,
        advance_reading, bind_of_ok hlist]
      rfl
  rw [arrayWithElements, bind_of_ok helements, spanSince_bind_run, spanSince_reading,
    arrayNode_unplaced h hfunctions span]
  rfl

/-- An array literal with its element type written in front. -/
theorem arrayLiteral_written (hform : form ≠ .bare) :
    arrayLiteral standard nested (reading (form.words ++ (type.words ++ (bracedWords elements ++ rest)))) =
      .ok (Node.array (some type) form elements span).unplaced (reading rest) := by
  obtain ⟨_, htype, hwritten⟩ := h.written hform
  cases htype
  have htyped : (nested.type >>= fun element => arrayWithElements nested default form element)
      (reading (type.words ++ (bracedWords elements ++ rest))) =
        .ok (Node.array (some type) form elements span).unplaced (reading rest) := by
    rw [bind_of_ok (type_words hwritten _)]
    exact arrayWithElements_words h hfunctions henclosed span hrest
  have hstarts := startsType_words hwritten (bracedWords elements ++ rest)
  have hbracket : (reading (type.words ++ (bracedWords elements ++ rest))).current.kind = .openBracket →
      (reading (type.words ++ (bracedWords elements ++ rest))).next.kind = .closeBracket := by
    intro hkind
    cases type with
    | array element => rfl
    | void => exact hwritten.elim
    | int | string | bool => cases hkind
  rw [arrayLiteral, position_bind_run, position_reading, nextKind_bind_run]
  generalize type.words ++ (bracedWords elements ++ rest) = tail at htyped hstarts hbracket ⊢
  cases form with
  | bare => exact absurd rfl hform
  | slice =>
    have hbrackets : sizeBrackets (reading (ArrayForm.slice.words ++ tail)) = .ok .slice (reading tail) := rfl
    rw [if_pos (.inl rfl), bind_of_ok hbrackets, startsType_bind_run, hstarts]
    exact htyped
  | counted =>
    have hbrackets : sizeBrackets (reading (ArrayForm.counted.words ++ tail)) = .ok .counted (reading tail) := rfl
    rw [if_pos (.inr rfl), bind_of_ok hbrackets, startsType_bind_run, hstarts]
    exact htyped
  | sized count =>
    -- the size is read as a list of one number, and what follows decides that it is none
    have hsize : ∀ node ∈ [Node.integer count default], Enclosed node := by
      intro node hnode
      obtain rfl := List.mem_singleton.mp hnode
      have hcount : (Node.integer count default).Formed :=
        ⟨Int.natCast_nonneg count, Int.ofNat_lt.mpr (h.size count rfl)⟩
      exact (restored_integer hcount).enclosed hcount
    have hlist := commaList_words (show Closes .closeBracket by decide) (by decide) false hsize "]" tail
    have hwords : (ArrayForm.sized count).words ++ tail =
        (.openBracket, "[") :: (Node.listWords [.integer count default] ++ (.closeBracket, "]") :: tail) := rfl
    have hsized : writtenSize? ([.integer count default].map Node.unplaced) = some count := rfl
    rw [hwords, next_reading, if_neg (by rintro (hkind | hkind) <;> cases hkind), advance_bind_run, advance_reading,
      bind_of_ok hlist]
    simp only [hsized]
    rw [currentKind_bind_run]
    by_cases hkind : (reading tail).current.kind = .openBracket
    · rw [if_pos hkind, numberThenBracket, nextKind_bind_run, if_pos (.inl (hbracket hkind))]
      exact htyped
    · rw [if_neg hkind, startsType_bind_run, if_pos hstarts]
      exact htyped

end Arrays

/-- A list in brackets, unless it is a number in front of a type. -/
theorem arrayLiteral_bare {element : Option GoType} {nodes : List Node} (h : ArrayFormed element .bare (some nodes))
    (hfunctions : ∀ node ∈ nodes, node.isFunction = false) (henclosed : ∀ node ∈ nodes, Enclosed node) (span : Span)
    {rest : List Word}
    (hrest : (writtenSize? nodes).isSome = true → standard.type (reading rest).current.kind = none) :
    arrayLiteral standard nested
        (reading ((.openBracket, "[") :: (Node.listWords nodes ++ (.closeBracket, "]") :: rest))) =
      .ok (Node.array element .bare (some nodes) span).unplaced (reading rest) := by
  have hlist := commaList_words (show Closes .closeBracket by decide) (by decide) false henclosed "]" rest
  have hcheck : (spanSince default >>= fun span => check (listNode (nodes.map Node.unplaced) span)) (reading rest) =
      .ok (Node.array element .bare (some nodes) span).unplaced (reading rest) := by
    rw [spanSince_bind_run, spanSince_reading, listNode_unplaced h hfunctions span]
    rfl
  have hnext : ¬ ((reading (Node.listWords nodes ++ (.closeBracket, "]") :: rest)).current.kind = .closeBracket ∨
      (reading (Node.listWords nodes ++ (.closeBracket, "]") :: rest)).current.kind = .ellipsis) := by
    obtain ⟨first, others, hnodes, _⟩ := h.bare rfl
    cases hnodes
    have hfirst := henclosed first List.mem_cons_self
    rintro (hkind | hkind)
    · exact current_list_ne (by decide) hfirst others "]" rest rfl hkind
    · exact current_list_ne (by decide) hfirst others "]" rest rfl hkind
  have hsize : writtenSize? (nodes.map Node.unplaced) = writtenSize? nodes := writtenSize?_relocate nodes
  rw [arrayLiteral, position_bind_run, position_reading, nextKind_bind_run, next_reading, if_neg hnext,
    advance_bind_run, advance_reading, bind_of_ok hlist]
  simp only [hsize]
  cases hwritten : writtenSize? nodes with
  | none => exact hcheck
  | some size =>
    have htype := hrest (by rw [hwritten]; rfl)
    have hbracket : (reading rest).current.kind ≠ .openBracket := fun hkind => by
      rw [hkind] at htype
      cases htype
    show (currentKind >>= _) (reading rest) = _
    rw [currentKind_bind_run, if_neg hbracket, startsType_bind_run, htype]
    exact hcheck

/-- An index into a list of one number, unless it is a number, too, and a type follows. -/
theorem arrayLiteral_indexed {element : Option GoType} {value : Int} {valueSpan : Span}
    (h : ArrayFormed element .bare (some [.integer value valueSpan])) (hvalue : Enclosed (.integer value valueSpan))
    {position : Node} (hposition : Enclosed position) (listSpan span : Span) {rest : List Word}
    (hrest : position.isInteger = true → standard.type (reading rest).current.kind = none) :
    arrayLiteral standard nested (reading ((.openBracket, "[") :: (Node.listWords [.integer value valueSpan] ++
        (.closeBracket, "]") :: (.openBracket, "[") :: (position.words ++ (.closeBracket, "]") :: rest)))) =
      .ok (Node.index (.array element .bare (some [.integer value valueSpan]) listSpan) position span).unplaced
        (reading rest) := by
  have hvalues : ∀ node ∈ [Node.integer value valueSpan], Enclosed node := by
    intro node hnode
    obtain rfl := List.mem_singleton.mp hnode
    exact hvalue
  have hlist := commaList_words (show Closes .closeBracket by decide) (by decide) false hvalues "]"
    ((.openBracket, "[") :: (position.words ++ (.closeBracket, "]") :: rest))
  have hnode := listNode_unplaced h (by simp [Node.isFunction]) listSpan
  have hnotSize : isSizeOfType standard position.unplaced (reading rest) = .ok false (reading rest) := by
    cases position with
    | integer =>
      show EStateM.Result.ok (standard.type (reading rest).current.kind).isSome _ = _
      rw [hrest rfl]
      rfl
    | _ => rfl
  have hstart : ¬ ((reading (position.words ++ (.closeBracket, "]") :: rest)).current.kind = .closeBracket ∨
      (reading (position.words ++ (.closeBracket, "]") :: rest)).current.kind = .ellipsis) := by
    rintro (hkind | hkind)
    · exact hposition.current_ne (by decide) rest rfl hkind
    · exact hposition.current_ne (by decide) rest rfl hkind
  rw [arrayLiteral, position_bind_run, position_reading, nextKind_bind_run, next_reading,
    if_neg (by rintro (hkind | hkind) <;> cases hkind), advance_bind_run, advance_reading, bind_of_ok hlist]
  show (currentKind >>= _) _ = _
  rw [currentKind_bind_run, current_reading, Word.token_kind, if_pos rfl, numberThenBracket, nextKind_bind_run,
    next_reading, if_neg hstart, spanSince_bind_run, spanSince_reading, advance_bind_run, advance_reading,
    bind_of_ok (hposition _ rest (by decide)), bind_of_ok (take_reading _ _ _), bind_of_ok hnotSize,
    if_neg (by decide), hnode]
  show EStateM.Result.ok (Node.index _ _ ((reading rest).spanSince default)) (reading rest) = _
  rw [spanSince_reading]
  rfl

end Grammar

end GoScript
