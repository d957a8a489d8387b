import GoScript.Node.Source
import GoScript.Proofs.Formation
import GoScript.Proofs.Lexing

/-!
# The tokens of a printed expression

An expression that was parsed is printed as a text whose tokens can be told from the tree: those of its parts, with
operators, commas and brackets between them.

* `Node.Legible` — the expressions that are printed so that they can be read back
* `Node.Simple` — the expressions without arrays and functions, all of them legible
* `Node.words` — the tokens of the text of an expression
* `wordsOf_source` — scanning the text gives these tokens
-/

namespace GoScript

/-! ### Legible expressions -/

namespace Node

/-- Whether a node is a list of one number, in brackets and without a type. -/
def isNumberList : Node → Bool
  | array _ .bare (some [integer _ _]) _ => true
  | _ => false

/-- Whether a node is an integer literal. -/
def isInteger : Node → Bool
  | integer _ _ => true
  | _ => false

/-- Whether a node is a list of one number with a number as index.  Before a type, both would be sizes. -/
def isNumberIndex : Node → Bool
  | index collection position _ => collection.isNumberList && position.isInteger
  | _ => false

/-- Whether a node is an index into a list of one number with a number as index. -/
def isIndexOfNumberIndex : Node → Bool
  | index collection _ _ => collection.isNumberIndex
  | _ => false

/-- A sound expression with no function in it, and with no index whose text would be taken for a type. -/
structure Legible (root : Node) : Prop where
  expression : root.isExpression = true
  sound : root.Sound
  functions : ∀ node : Node, node.Within root → node.isFunction = false
  indexes : ∀ node : Node, node.Within root → node.isIndexOfNumberIndex = false

/-- The parts of an expression are expressions, unless it is a function. -/
theorem isExpression_of_mem_parts {root part : Node} (hroot : root.isExpression = true)
    (hfunction : root.isFunction = false) (hformed : root.Formed) (hpart : part ∈ root.parts) :
    part.isExpression = true := by
  cases root with
  | unary operator operand span =>
    obtain rfl := List.mem_singleton.mp hpart
    exact hformed.2.2
  | binary left operator right span =>
    obtain ⟨_, _, hleft, hright⟩ := hformed
    simp only [parts, List.mem_cons, List.not_mem_nil, or_false] at hpart
    rcases hpart with rfl | rfl
    · exact hleft
    · exact hright
  | call callee arguments span => exact hformed.2 part hpart
  | array element form elements span =>
    cases elements with
    | none => cases hpart
    | some nodes => exact hformed.expressions nodes rfl part hpart
  | index collection position span =>
    simp only [parts, List.mem_cons, List.not_mem_nil, or_false] at hpart
    rcases hpart with rfl | rfl
    · exact hformed.1
    · exact hformed.2
  | function => cases hfunction
  | identifier | integer | string | boolean => cases hpart
  | program | declaration | assignment | returning | expression | block | conditional => cases hroot

theorem Legible.part {root part : Node} (h : root.Legible) (hpart : part ∈ root.parts) : part.Legible where
  expression := isExpression_of_mem_parts h.expression (h.functions root (.self root)) h.sound.formed hpart
  sound := h.sound.part hpart
  functions node within := h.functions node (.part hpart within)
  indexes node within := h.indexes node (.part hpart within)

/-- Whether a node is an array literal. -/
def isArray : Node → Bool
  | array _ _ _ _ => true
  | _ => false

/-- A sound expression with neither an array literal nor a function in it. -/
structure Simple (root : Node) : Prop where
  expression : root.isExpression = true
  sound : root.Sound
  functions : ∀ node : Node, node.Within root → node.isFunction = false
  arrays : ∀ node : Node, node.Within root → node.isArray = false

theorem Simple.part {root part : Node} (h : root.Simple) (hpart : part ∈ root.parts) : part.Simple where
  expression := isExpression_of_mem_parts h.expression (h.functions root (.self root)) h.sound.formed hpart
  sound := h.sound.part hpart
  functions node within := h.functions node (.part hpart within)
  arrays node within := h.arrays node (.part hpart within)

theorem isNumberList_of_isArray {node : Node} (h : node.isArray = false) : node.isNumberList = false := by
  cases node with
  | array => cases h
  | _ => rfl

/-- Without arrays there is nothing that could be taken for the size of one. -/
theorem isNumberIndex_of_parts {node : Node} (h : ∀ part ∈ node.parts, part.isArray = false) :
    node.isNumberIndex = false := by
  cases node with
  | index collection position span =>
    have hcollection := h collection List.mem_cons_self
    simp [isNumberIndex, isNumberList_of_isArray hcollection]
  | _ => rfl

theorem Simple.legible {root : Node} (h : root.Simple) : root.Legible where
  expression := h.expression
  sound := h.sound
  functions := h.functions
  indexes node within := by
    cases node with
    | index collection position span =>
      have hcollection : collection.Within root := within.of_mem_parts List.mem_cons_self
      exact isNumberIndex_of_parts fun part hpart => h.arrays part (hcollection.of_mem_parts hpart)
    | _ => rfl

end Node

/-! ### Words -/

def GoType.words : GoType → List Word
  | .int => [(.intType, "int")]
  | .string => [(.stringType, "string")]
  | .bool => [(.boolType, "bool")]
  | .array element => (.openBracket, "[") :: (.closeBracket, "]") :: element.words
  | .void => []

def ArrayForm.words : ArrayForm → List Word
  | .sized count => [(.openBracket, "["), (.integer, toString count), (.closeBracket, "]")]
  | .counted => [(.openBracket, "["), (.ellipsis, "..."), (.closeBracket, "]")]
  | .slice => [(.openBracket, "["), (.closeBracket, "]")]
  | .bare => []

/-- Words, put in parentheses if they are needed. -/
def parenthesizeWords (needed : Bool) (words : List Word) : List Word :=
  if needed then (.openParen, "(") :: (words ++ [(.closeParen, ")")]) else words

mutual

/-- The words of the text of an expression. -/
def Node.words : Node → List Word
  | .identifier name _ => [(.identifier, name)]
  | .integer value _ => [(.integer, toString value)]
  | .string value _ => [(.string, value)]
  | .boolean value _ => [(if value then .trueWord else .falseWord, boolText value)]
  | .unary operator operand _ =>
    (operator.kind, operator.value) :: parenthesizeWords (operand.takesParens .unary true) operand.words
  | .binary left operator right _ =>
    let power := (Precedence.binary? operator.kind).getD .lowest
    parenthesizeWords (left.takesParens power false) left.words ++ (operator.kind, operator.value) ::
      parenthesizeWords (right.takesParens power true) right.words
  | .call callee arguments _ =>
    (.identifier, callee) :: (.openParen, "(") :: (Node.listWords arguments ++ [(.closeParen, ")")])
  | .array _ .bare (some elements) _ => (.openBracket, "[") :: (Node.listWords elements ++ [(.closeBracket, "]")])
  | .array element form none _ => form.words ++ (element.map GoType.words).getD []
  | .array element form (some elements) _ =>
    form.words ++ (element.map GoType.words).getD [] ++
      (.openCurly, "\x7b") :: (Node.listWords elements ++ [(.closeCurly, "\x7d")])
  | .index collection position _ =>
    parenthesizeWords (collection.takesParens .index false) collection.words ++
      (.openBracket, "[") :: (position.words ++ [(.closeBracket, "]")])
  | _ => []

/-- The words of some expressions with commas between them. -/
def Node.listWords : List Node → List Word
  | [] => []
  | [node] => node.words
  | node :: rest => node.words ++ (.comma, ",") :: Node.listWords rest

end

/-! ### How a text starts -/

/-- The text starts with a character that is no blank and does not make a longer sign of the one before it. -/
def StartsVisibly (text : List Char) : Prop :=
  ∃ c rest, text = c :: rest ∧ 0x21 ≤ c.toNat ∧ c.toNat ≤ 0x7e ∧ c ≠ '='

theorem StartsVisibly.append {text : List Char} (h : StartsVisibly text) (rest : List Char) :
    StartsVisibly (text ++ rest) := by
  obtain ⟨c, tail, rfl, hvisible⟩ := h
  exact ⟨c, tail ++ rest, rfl, hvisible⟩

theorem wordsOf_space_of_starts {text : List Char} (h : StartsVisibly text) :
    wordsOf (' ' :: text) = wordsOf text := by
  obtain ⟨c, rest, rfl, hlow, hhigh, _⟩ := h
  apply wordsOf_space
  simp [Text.isBlank, Text.blankRanges]
  omega

theorem startsVisibly_of_range {c : Char} {rest : List Char} (hlow : 0x21 ≤ c.toNat) (hhigh : c.toNat ≤ 0x7e)
    (hequals : c.toNat ≠ 0x3d) : StartsVisibly (c :: rest) :=
  ⟨c, rest, rfl, hlow, hhigh, fun hc => hequals (by rw [hc]; rfl)⟩

theorem startsVisibly_word {c : Char} {rest : List Char} (h : Pattern.isWordStart c = true) :
    StartsVisibly (c :: rest) := by
  rcases range_of_isWordStart h with (hletter | hletter) | rfl
  · exact startsVisibly_of_range (by omega) (by omega) (by omega)
  · exact startsVisibly_of_range (by omega) (by omega) (by omega)
  · exact startsVisibly_of_range (by decide) (by decide) (by decide)

theorem startsVisibly_digit {c : Char} {rest : List Char} (h : c.isDigit = true) : StartsVisibly (c :: rest) := by
  have hdigit := range_of_isDigit h
  exact startsVisibly_of_range (by omega) (by omega) (by omega)

theorem startsVisibly_identifier {name : String} (h : Spelled .identifier name) : StartsVisibly name.toList := by
  obtain ⟨c, tail, rfl, hstart, _⟩ := exists_of_spelled_identifier h
  rw [String.toList_ofList]
  exact startsVisibly_word hstart

theorem startsVisibly_parenthesize (needed : Bool) {text : String} (h : StartsVisibly text.toList) :
    StartsVisibly (parenthesize needed text).toList := by
  cases needed with
  | false => exact h
  | true => exact ⟨'(', _, by simp [parenthesize]; rfl, by decide⟩

theorem startsVisibly_form {form : ArrayForm} (h : form ≠ .bare) (element : GoType) :
    StartsVisibly (form.source element).toList := by
  cases form with
  | bare => exact absurd rfl h
  | sized | counted | slice => exact ⟨'[', _, by simp [ArrayForm.source]; rfl, by decide⟩

/-- A number that is not negative is written with digits. -/
theorem toList_toString_int {value : Int} (h : 0 ≤ value) : (toString value).toList = Nat.toDigits 10 value.toNat := by
  obtain ⟨n, rfl⟩ := Int.eq_ofNat_of_zero_le h
  exact Nat.toList_repr

theorem startsVisibly_toDigits (n : Nat) : StartsVisibly (Nat.toDigits 10 n) := by
  cases hdigits : Nat.toDigits 10 n with
  | nil => exact absurd hdigits Nat.toDigits_ne_nil
  | cons digit digits =>
    apply startsVisibly_digit
    exact Nat.isDigit_of_mem_toDigits (by decide) (by decide) (hdigits ▸ List.mem_cons_self)

/-- An operator starts visibly, unless it starts with an equals sign. -/
theorem startsVisibly_unary {operator : Token} (hspelled : operator.Spelled)
    (hkind : operator.kind = .dash ∨ operator.kind = .not) : StartsVisibly operator.value.toList := by
  have hfixed := fixed_of_spelled hspelled (by rcases hkind with h | h <;> simp [h, Precedence.binary?])
  rcases hkind with h | h
  · have hvalue : operator.value = "-" := by simpa [Pattern.table, h] using hfixed
    rw [hvalue]
    exact ⟨'-', [], rfl, by decide⟩
  · have hvalue : operator.value = "!" := by simpa [Pattern.table, h] using hfixed
    rw [hvalue]
    exact ⟨'!', [], rfl, by decide⟩

/-- The text of an expression starts visibly. -/
theorem startsVisibly_source (node : Node) (h : node.Legible) : StartsVisibly node.source.toList := by
  induction node using Node.partsInduction with
  | step node ih =>
    have hformed := h.sound.formed
    have hparts : ∀ part ∈ node.parts, StartsVisibly part.source.toList :=
      fun part hpart => ih part hpart (h.part hpart)
    cases node with
    | identifier name span => exact startsVisibly_identifier hformed
    | integer value span =>
      rw [Node.source, toList_toString_int hformed.1]
      exact startsVisibly_toDigits _
    | string value span => exact ⟨'"', _, by simp [Node.source]; rfl, by decide⟩
    | boolean value span =>
      rw [Node.source]
      cases value with
      | true => exact ⟨'t', "rue".toList, rfl, by decide⟩
      | false => exact ⟨'f', "alse".toList, rfl, by decide⟩
    | unary operator operand span =>
      rw [Node.source, String.toList_append]
      exact (startsVisibly_unary hformed.2.1 hformed.1).append _
    | binary left operator right span =>
      have hleft := hparts left (by simp [Node.parts])
      rw [Node.source]
      simp only [String.toList_append, List.append_assoc]
      exact (startsVisibly_parenthesize _ hleft).append _
    | call callee arguments span =>
      rw [Node.source]
      simp only [String.toList_append, List.append_assoc]
      exact (startsVisibly_identifier hformed.1).append _
    | array element form elements span =>
      by_cases hform : form = .bare
      · subst hform
        obtain ⟨first, rest, rfl, _⟩ := hformed.bare rfl
        exact ⟨'[', _, by simp [Node.source]; rfl, by decide⟩
      · obtain ⟨type, rfl, _⟩ := hformed.written hform
        have hstart := startsVisibly_form hform type
        cases elements with
        | none =>
          rw [Node.source]
          · exact hstart
          · exact hform
        | some nodes =>
          rw [Node.source]
          · simp only [String.toList_append, List.append_assoc]
            exact hstart.append _
          · exact hform
    | index collection position span =>
      have hcollection := hparts collection (by simp [Node.parts])
      rw [Node.source]
      simp only [String.toList_append, List.append_assoc]
      exact (startsVisibly_parenthesize _ hcollection).append _
    | function f => exact absurd (h.functions _ (.self _)) (by simp [Node.isFunction])
    | program | declaration | assignment | returning | expression | block | conditional =>
      exact absurd h.expression (by simp [Node.isExpression])

/-! ### The words of a text -/

theorem wordsOf_toDigits (n : Nat) {rest : List Char} (hrest : Boundary rest) :
    wordsOf (Nat.toDigits 10 n ++ rest) = (.integer, toString n) :: wordsOf rest := by
  rw [wordsOf_integer Nat.toDigits_ne_nil
    (fun _ hdigit => Nat.isDigit_of_mem_toDigits (by decide) (by decide) hdigit) hrest,
    Nat.toString_eq_ofList_toDigits]

/-- A type in front of a text. -/
theorem wordsOf_type {type : GoType} (h : type.Written) {rest : List Char} (hrest : Boundary rest) :
    wordsOf (type.name.toList ++ rest) = type.words ++ wordsOf rest := by
  induction type with
  | int => exact wordsOf_word 'i' "nt".toList rfl rfl hrest
  | string => exact wordsOf_word 's' "tring".toList rfl rfl hrest
  | bool => exact wordsOf_word 'b' "ool".toList rfl rfl hrest
  | array element ih =>
    rw [GoType.name, String.toList_append, List.append_assoc]
    show wordsOf ('[' :: ']' :: (element.name.toList ++ rest)) = _
    rw [wordsOf_bracket .openBracket '[' _ (by decide), wordsOf_bracket .closeBracket ']' _ (by decide), ih h]
    rfl
  | void => exact h.elim

/-- The size of an array literal and its element type in front of a text. -/
theorem wordsOf_form {form : ArrayForm} (hform : form ≠ .bare) {type : GoType} (h : type.Written) {rest : List Char}
    (hrest : Boundary rest) :
    wordsOf ((form.source type).toList ++ rest) = form.words ++ type.words ++ wordsOf rest := by
  cases form with
  | bare => exact absurd rfl hform
  | sized count =>
    simp only [ArrayForm.source, String.toList_append, List.append_assoc]
    show wordsOf ('[' :: ((toString count).toList ++ (']' :: (type.name.toList ++ rest)))) = _
    rw [wordsOf_bracket .openBracket '[' _ (by decide), Nat.toString_eq_repr, Nat.toList_repr,
      wordsOf_toDigits count (.of_mem (by decide)), wordsOf_bracket .closeBracket ']' _ (by decide),
      wordsOf_type h hrest]
    rfl
  | counted =>
    simp only [ArrayForm.source, String.toList_append, List.append_assoc]
    show wordsOf ('[' :: ("...".toList ++ (']' :: (type.name.toList ++ rest)))) = _
    rw [wordsOf_bracket .openBracket '[' _ (by decide), wordsOf_ellipsis,
      wordsOf_bracket .closeBracket ']' _ (by decide), wordsOf_type h hrest]
    rfl
  | slice =>
    simp only [ArrayForm.source, String.toList_append, List.append_assoc]
    show wordsOf ('[' :: (']' :: (type.name.toList ++ rest))) = _
    rw [wordsOf_bracket .openBracket '[' _ (by decide), wordsOf_bracket .closeBracket ']' _ (by decide),
      wordsOf_type h hrest]
    rfl

/-- The text of a node in front of another text has the words of the node. -/
def Reads (node : Node) : Prop :=
  ∀ rest, Boundary rest → wordsOf (node.source.toList ++ rest) = node.words ++ wordsOf rest

theorem Reads.parenthesize {node : Node} (h : Reads node) (needed : Bool) {rest : List Char} (hrest : Boundary rest) :
    wordsOf ((parenthesize needed node.source).toList ++ rest) =
      parenthesizeWords needed node.words ++ wordsOf rest := by
  cases needed with
  | false => exact h rest hrest
  | true =>
    simp only [GoScript.parenthesize, if_true, String.toList_append, List.append_assoc]
    show wordsOf ('(' :: (node.source.toList ++ (')' :: rest))) = _
    rw [wordsOf_bracket .openParen '(' _ (by decide), h _ (.of_mem (by decide)),
      wordsOf_bracket .closeParen ')' _ (by decide)]
    simp [parenthesizeWords]

/-- Expressions with commas between them in front of a text. -/
theorem wordsOf_list {separator : String} (hseparator : separator = "," ∨ separator = ", ") (nodes : List Node)
    (hreads : ∀ node ∈ nodes, Reads node) (hstarts : ∀ node ∈ nodes, StartsVisibly node.source.toList)
    {rest : List Char} (hrest : Boundary rest) :
    wordsOf ((separator.intercalate (Node.sources nodes)).toList ++ rest) = Node.listWords nodes ++ wordsOf rest := by
  rw [String.toList_intercalate]
  induction nodes with
  | nil => rfl
  | cons node nodes ih =>
    have hnode := hreads node List.mem_cons_self
    have hlist := ih (fun other hother => hreads other (List.mem_cons_of_mem _ hother))
      (fun other hother => hstarts other (List.mem_cons_of_mem _ hother))
    cases nodes with
    | nil =>
      have htext : separator.toList.intercalate ((Node.sources [node]).map String.toList) = node.source.toList := by
        simp [Node.sources, List.intercalate]
      rw [htext, Node.listWords]
      exact hnode rest hrest
    | cons next nodes =>
      have htext : separator.toList.intercalate ((Node.sources (node :: next :: nodes)).map String.toList) =
          node.source.toList ++ (separator.toList ++
            separator.toList.intercalate ((Node.sources (next :: nodes)).map String.toList)) := by
        simp [Node.sources, List.intercalate]
      -- after the comma there is a space or nothing, and then the next expression
      have hstart : StartsVisibly
          (separator.toList.intercalate ((Node.sources (next :: nodes)).map String.toList) ++ rest) := by
        have hnext := hstarts next (by simp)
        cases nodes with
        | nil => simpa [Node.sources, List.intercalate] using hnext.append rest
        | cons third nodes =>
          simp only [Node.sources, List.map_cons, List.intercalate, List.intersperse, List.flatten_cons,
            List.append_assoc]
          exact hnext.append _
      rw [htext, Node.listWords, List.append_assoc, List.append_assoc]
      · rcases hseparator with rfl | rfl
        · show wordsOf (node.source.toList ++ (',' :: (_ ++ rest))) = _
          rw [hnode _ (.of_mem (by decide)), wordsOf_bracket .comma ',' _ (by decide), hlist]
          simp
        · show wordsOf (node.source.toList ++ (',' :: ' ' :: (_ ++ rest))) = _
          rw [hnode _ (.of_mem (by decide)), wordsOf_bracket .comma ',' _ (by decide), wordsOf_space_of_starts hstart,
            hlist]
          simp
      · simp

/-- Whether a sign is empty or starts with a blank. -/
def Pattern.startsBlank : Pattern → Bool
  | .fixed _ _ spelling => (spelling.toList.head?.map Text.isBlank).getD true
  | _ => false

/-- A binary operator between two spaces. -/
theorem wordsOf_space_operator {kind : TokenKind} {value : String} (hspelled : Spelled kind value)
    (hkind : (Precedence.binary? kind).isSome) (rest : List Char) :
    wordsOf (' ' :: (value.toList ++ ' ' :: rest)) = (kind, value) :: wordsOf (' ' :: rest) := by
  have hfixed := fixed_of_spelled hspelled (.inr hkind)
  rw [← wordsOf_fixed hfixed]
  have hsigns : ∀ pattern ∈ Pattern.table, pattern.startsBlank = false := by decide
  have hsign := hsigns _ hfixed
  cases htext : value.toList with
  | nil => simp [Pattern.startsBlank, htext] at hsign
  | cons c text => exact wordsOf_space (by simpa [Pattern.startsBlank, htext] using hsign)

/-- A string has no quotation mark in it. -/
theorem not_mem_of_spelled_string {value : String} (h : Spelled .string value) : '"' ∉ value.toList := by
  generalize hkind : TokenKind.string = kind at h
  cases h with
  | string hquote => simpa using hquote
  | word => exact absurd (hkind ▸ ofWord_mem _) (by decide)
  | fixed hmem =>
    subst hkind
    simp [Pattern.table] at hmem
  | integer | illegal | endOfInput => cases hkind

/-! ### Expressions -/

theorem reads_unary {operator : Token} {operand : Node} {span : Span}
    (hkind : operator.kind = .dash ∨ operator.kind = .not) (hspelled : operator.Spelled) (hreads : Reads operand)
    (hstarts : StartsVisibly operand.source.toList) : Reads (.unary operator operand span) := by
  intro rest hrest
  have hfixed := fixed_of_spelled hspelled (by rcases hkind with h | h <;> simp [h, Precedence.binary?])
  obtain ⟨c, text, htext, _, _, hequals⟩ :=
    (startsVisibly_parenthesize (operand.takesParens .unary true) hstarts).append rest
  rw [Node.source, Node.words, String.toList_append, List.append_assoc, htext, wordsOf_unary hfixed hkind hequals,
    ← htext, hreads.parenthesize _ hrest, List.cons_append]

/-- A binary operation in front of a text, with parentheses around any of its operands. -/
theorem wordsOf_operation {left right : Node} {operator : Token} (hkind : (Precedence.binary? operator.kind).isSome)
    (hspelled : operator.Spelled) (hleft : Reads left) (hright : Reads right)
    (hstarts : StartsVisibly right.source.toList) (needed needed' : Bool) {rest : List Char} (hrest : Boundary rest) :
    wordsOf ((parenthesize needed left.source ++ " " ++ operator.value ++ " " ++
        parenthesize needed' right.source).toList ++ rest) =
      parenthesizeWords needed left.words ++ (operator.kind, operator.value) ::
        parenthesizeWords needed' right.words ++ wordsOf rest := by
  simp only [String.toList_append, List.append_assoc]
  show wordsOf (_ ++ (' ' :: (operator.value.toList ++ (' ' :: (_ ++ rest))))) = _
  rw [hleft.parenthesize _ (.of_mem (by decide)), wordsOf_space_operator hspelled hkind,
    wordsOf_space_of_starts ((startsVisibly_parenthesize _ hstarts).append rest), hright.parenthesize _ hrest]
  rfl

theorem reads_binary {left right : Node} {operator : Token} {span : Span}
    (hkind : (Precedence.binary? operator.kind).isSome) (hspelled : operator.Spelled) (hleft : Reads left)
    (hright : Reads right) (hstarts : StartsVisibly right.source.toList) :
    Reads (.binary left operator right span) := by
  intro rest hrest
  rw [Node.source, Node.words, wordsOf_operation hkind hspelled hleft hright hstarts _ _ hrest]

theorem reads_call {callee : String} {arguments : List Node} {span : Span} (hcallee : Spelled .identifier callee)
    (hreads : ∀ node ∈ arguments, Reads node) (hstarts : ∀ node ∈ arguments, StartsVisibly node.source.toList) :
    Reads (.call callee arguments span) := by
  intro rest hrest
  rw [Node.source, Node.words]
  simp only [String.toList_append, List.append_assoc]
  show wordsOf (callee.toList ++ ('(' :: (_ ++ (')' :: rest)))) = _
  rw [wordsOf_identifier hcallee (.of_mem (by decide)), wordsOf_bracket .openParen '(' _ (by decide),
    wordsOf_list (.inl rfl) arguments hreads hstarts (.of_mem (by decide)),
    wordsOf_bracket .closeParen ')' _ (by decide)]
  simp

/-- A list in brackets. -/
theorem reads_bare {element : Option GoType} {nodes : List Node} {span : Span} (hreads : ∀ node ∈ nodes, Reads node)
    (hstarts : ∀ node ∈ nodes, StartsVisibly node.source.toList) : Reads (.array element .bare (some nodes) span) := by
  intro rest hrest
  rw [Node.source, Node.words]
  simp only [String.toList_append, List.append_assoc]
  show wordsOf ('[' :: (_ ++ (']' :: rest))) = _
  rw [wordsOf_bracket .openBracket '[' _ (by decide),
    wordsOf_list (.inr rfl) nodes hreads hstarts (.of_mem (by decide)), wordsOf_bracket .closeBracket ']' _ (by decide)]
  simp

/-- An array literal with its element type written in front. -/
theorem reads_written {type : GoType} {form : ArrayForm} {elements : Option (List Node)} {span : Span}
    (hform : form ≠ .bare) (hwritten : type.Written) (hreads : ∀ node ∈ elements.getD [], Reads node)
    (hstarts : ∀ node ∈ elements.getD [], StartsVisibly node.source.toList) :
    Reads (.array (some type) form elements span) := by
  intro rest hrest
  cases elements with
  | none =>
    rw [Node.source, Node.words]
    · exact wordsOf_form hform hwritten hrest
    · exact hform
  | some nodes =>
    rw [Node.source, Node.words]
    · simp only [String.toList_append, List.append_assoc]
      show wordsOf ((form.source type).toList ++ ('\x7b' :: (_ ++ ('\x7d' :: rest)))) = _
      rw [wordsOf_form hform hwritten (.of_mem (by decide)), wordsOf_bracket .openCurly '\x7b' _ (by decide),
        wordsOf_list (.inr rfl) nodes hreads hstarts (.of_mem (by decide)),
        wordsOf_bracket .closeCurly '\x7d' _ (by decide)]
      simp
    · exact hform
    · exact hform

/-- An index in front of a text, with or without parentheses around its collection. -/
theorem wordsOf_indexing {collection position : Node} (hcollection : Reads collection) (hposition : Reads position)
    (needed : Bool) (rest : List Char) :
    wordsOf ((parenthesize needed collection.source ++ "[" ++ position.source ++ "]").toList ++ rest) =
      parenthesizeWords needed collection.words ++ (.openBracket, "[") ::
        (position.words ++ [(.closeBracket, "]")]) ++ wordsOf rest := by
  simp only [String.toList_append, List.append_assoc]
  show wordsOf (_ ++ ('[' :: (_ ++ (']' :: rest)))) = _
  rw [hcollection.parenthesize _ (.of_mem (by decide)), wordsOf_bracket .openBracket '[' _ (by decide),
    hposition _ (.of_mem (by decide)), wordsOf_bracket .closeBracket ']' _ (by decide)]
  simp

theorem reads_index {collection position : Node} {span : Span} (hcollection : Reads collection)
    (hposition : Reads position) : Reads (.index collection position span) := by
  intro rest _
  rw [Node.source, Node.words, wordsOf_indexing hcollection hposition]

/-- **Scanning the text of an expression gives the words of the expression.** -/
theorem wordsOf_source (node : Node) (h : node.Legible) : Reads node := by
  induction node using Node.partsInduction with
  | step node ih =>
    have hformed := h.sound.formed
    have hreads : ∀ part ∈ node.parts, Reads part := fun part hpart => ih part hpart (h.part hpart)
    have hstarts : ∀ part ∈ node.parts, StartsVisibly part.source.toList :=
      fun part hpart => startsVisibly_source part (h.part hpart)
    cases node with
    | identifier name span => exact fun rest hrest => wordsOf_identifier hformed hrest
    | integer value span =>
      intro rest hrest
      obtain ⟨n, rfl⟩ := Int.eq_ofNat_of_zero_le hformed.1
      rw [Node.source, toList_toString_int hformed.1, wordsOf_toDigits _ hrest, Node.words]
      rfl
    | string value span =>
      intro rest hrest
      rw [Node.source, Node.words]
      simp only [String.toList_append, List.append_assoc]
      show wordsOf ('"' :: value.toList ++ '"' :: rest) = _
      rw [wordsOf_string (not_mem_of_spelled_string hformed), String.ofList_toList]
      rfl
    | boolean value span =>
      intro rest hrest
      rw [Node.source, Node.words]
      cases value with
      | true => exact wordsOf_word 't' "rue".toList rfl rfl hrest
      | false => exact wordsOf_word 'f' "alse".toList rfl rfl hrest
    | unary operator operand span =>
      exact reads_unary hformed.1 hformed.2.1 (hreads operand (by simp [Node.parts]))
        (hstarts operand (by simp [Node.parts]))
    | binary left operator right span =>
      exact reads_binary hformed.1 hformed.2.1 (hreads left (by simp [Node.parts]))
        (hreads right (by simp [Node.parts])) (hstarts right (by simp [Node.parts]))
    | call callee arguments span => exact reads_call hformed.1 hreads hstarts
    | array element form elements span =>
      by_cases hform : form = .bare
      · subst hform
        obtain ⟨first, others, rfl, _⟩ := hformed.bare rfl
        exact reads_bare hreads hstarts
      · obtain ⟨type, rfl, hwritten⟩ := hformed.written hform
        exact reads_written hform hwritten hreads hstarts
    | index collection position span =>
      exact reads_index (hreads collection (by simp [Node.parts])) (hreads position (by simp [Node.parts]))
    | function f => exact absurd (h.functions _ (.self _)) (by simp [Node.isFunction])
    | program | declaration | assignment | returning | expression | block | conditional =>
      exact absurd h.expression (by simp [Node.isExpression])

end GoScript
