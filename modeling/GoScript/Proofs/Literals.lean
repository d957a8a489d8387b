import GoScript.Proofs.Groups
import GoScript.Proofs.Indexing

/-!
# Literals

A text that is one literal, and nothing else, is a program of one statement, and the literal prints as it was written.
Numbers are the exception, because what is printed is their value: zeros in front are lost, and a number that is too
large for a word of 64 bits is rejected.

* `Numeral.Padded` — a zero stands in front of other digits
* `Numeral.toString_value_eq_iff` — digits are those of their value exactly if they are not padded
* `parse_literal` — what is read from a literal, and how that prints
* `leading_zeros_dropped` — a number that does not print as it was written
-/

namespace GoScript

/-! ### Digits -/

namespace Numeral

/-- A zero stands in front of other digits. -/
def Padded (digits : String) : Prop :=
  ∃ digit rest, digits.toList = '0' :: digit :: rest

theorem digit_lt_ten {c : Char} (h : c.isDigit = true) : c.toNat - '0'.toNat < 10 := by
  obtain ⟨hlow, hhigh⟩ := range_of_isDigit h
  show c.toNat - 48 < 10
  omega

theorem digitChar_of_isDigit {c : Char} (h : c.isDigit = true) : Nat.digitChar (c.toNat - '0'.toNat) = c := by
  have hlow := (range_of_isDigit h).1
  apply Char.toNat_inj.mp
  rw [Nat.toNat_digitChar_of_lt_ten (digit_lt_ten h)]
  exact Nat.add_sub_of_le hlow

/-- Digits that are read behind a number are also written behind it, unless the number is zero. -/
theorem toDigits_ofDigitChars {digits : List Char} (hdigits : ∀ c ∈ digits, c.isDigit = true) {n : Nat} (hn : 0 < n) :
    Nat.toDigits 10 (Nat.ofDigitChars 10 digits n) = Nat.toDigits 10 n ++ digits := by
  induction digits generalizing n with
  | nil => exact (List.append_nil _).symm
  | cons c rest ih =>
    have hdigit := hdigits c List.mem_cons_self
    have hone : Nat.toDigits 10 (10 * n + (c.toNat - '0'.toNat)) = Nat.toDigits 10 n ++ [c] := by
      rw [← Nat.toDigits_append_toDigits (by decide) hn (digit_lt_ten hdigit),
        Nat.toDigits_of_lt_base (digit_lt_ten hdigit), digitChar_of_isDigit hdigit]
    rw [Nat.ofDigitChars_cons, ih (fun d hd => hdigits d (List.mem_cons_of_mem c hd)) (by omega), hone,
      List.append_assoc, List.singleton_append]

/-- **Digits are those of their value with zeros in front.**  The induction takes the zeros away one by one. -/
theorem exists_zeros {digits : List Char} (hne : digits ≠ []) (hdigits : ∀ c ∈ digits, c.isDigit = true) :
    ∃ count, digits = List.replicate count '0' ++ Nat.toDigits 10 (Nat.ofDigitChars 10 digits 0) := by
  induction digits with
  | nil => exact absurd rfl hne
  | cons c rest ih =>
    have hrest : ∀ d ∈ rest, d.isDigit = true := fun d hd => hdigits d (List.mem_cons_of_mem c hd)
    by_cases hzero : c = '0'
    · subst hzero
      cases rest with
      | nil => exact ⟨0, rfl⟩
      | cons d rest =>
        obtain ⟨count, hcount⟩ := ih (List.cons_ne_nil d rest) hrest
        exact ⟨count + 1, congrArg ('0' :: ·) hcount⟩
    · have hdigit := hdigits c List.mem_cons_self
      have hcode : '0'.toNat ≠ c.toNat := fun hcode => hzero (Char.toNat_inj.mp hcode.symm)
      have hpositive : 0 < c.toNat - '0'.toNat :=
        Nat.sub_pos_of_lt (Nat.lt_of_le_of_ne (range_of_isDigit hdigit).1 hcode)
      refine ⟨0, ?_⟩
      rw [Nat.ofDigitChars_cons, Nat.mul_zero, Nat.zero_add, toDigits_ofDigitChars hrest hpositive,
        Nat.toDigits_of_lt_base (digit_lt_ten hdigit), digitChar_of_isDigit hdigit]
      rfl

theorem toList_toString_value (digits : String) :
    (toString (value digits)).toList = Nat.toDigits 10 (Nat.ofDigitChars 10 digits.toList 0) := by
  rw [Nat.toString_eq_repr, Nat.toList_repr, value, ← Nat.ofDigitChars_eq_foldl]

section

variable {digits : String} (hne : digits.toList ≠ []) (hdigits : ∀ c ∈ digits.toList, c.isDigit = true)

include hne hdigits

/-- **Digits are printed as they were written exactly if they are not padded.** -/
theorem toString_value_eq_iff : toString (value digits) = digits ↔ ¬ Padded digits := by
  rw [← String.toList_inj, toList_toString_value]
  constructor
  · rintro hsame ⟨digit, rest, hpadded⟩
    -- without the zero the digits have the same value, but there are fewer of them than are printed
    rw [hpadded] at hsame hdigits
    obtain ⟨count, hcount⟩ :=
      exists_zeros (List.cons_ne_nil digit rest) fun d hd => hdigits d (List.mem_cons_of_mem _ hd)
    have hvalue : Nat.ofDigitChars 10 ('0' :: digit :: rest) 0 = Nat.ofDigitChars 10 (digit :: rest) 0 := rfl
    rw [← hvalue, hsame] at hcount
    have hlength := congrArg List.length hcount
    simp only [List.length_append, List.length_cons, List.length_replicate] at hlength
    omega
  · intro hplain
    obtain ⟨count, hcount⟩ := exists_zeros hne hdigits
    cases count with
    | zero => exact hcount.symm
    | succ count =>
      have hrest : List.replicate count '0' ++ Nat.toDigits 10 (Nat.ofDigitChars 10 digits.toList 0) ≠ [] :=
        List.append_ne_nil_of_right_ne_nil _ Nat.toDigits_ne_nil
      obtain ⟨digit, rest, hcons⟩ := List.exists_cons_of_ne_nil hrest
      rw [List.replicate_succ, List.cons_append, hcons] at hcount
      exact absurd ⟨digit, rest, hcount⟩ hplain

end

theorem not_padded_toString (n : Nat) : ¬ Padded (toString n) := by
  have hdigits : (toString n).toList = Nat.toDigits 10 n := by rw [Nat.toString_eq_repr, Nat.toList_repr]
  have hne : (toString n).toList ≠ [] := hdigits ▸ Nat.toDigits_ne_nil
  refine (toString_value_eq_iff hne fun c hc => ?_).mp (congrArg toString (Grammar.numeral_value_toString n))
  rw [hdigits] at hc
  exact Nat.isDigit_of_mem_toDigits (by decide) (by decide) hc

end Numeral

/-! ### Texts of one token -/

theorem lexemes_eq_nil {text : List Char} (h : lexemes text = []) : text = [] := by
  cases text with
  | nil => rfl
  | cons c rest =>
    obtain ⟨after, hsplit, hne, -⟩ := Lexeme.exists_atStart c rest
    rw [lexemes_cons hsplit hne] at h
    cases h

section OneToken

variable {source : String} {kind : TokenKind} {value : String}
  (hone : (lexemes source.toList).map Lexeme.token? = [some (kind, value)])

include hone

/-- A text that is one token is the spelling of that token. -/
theorem eq_spelling_of_lexemes : source = spelling kind value := by
  apply String.toList_inj.mp
  cases htext : source.toList with
  | nil =>
    rw [htext] at hone
    cases hone
  | cons c rest =>
    obtain ⟨after, hsplit, hne, hread⟩ := Lexeme.exists_atStart c rest
    rw [htext, lexemes_cons hsplit hne, List.map_cons] at hone
    obtain ⟨htoken, hafter⟩ := List.cons.inj hone
    rw [hsplit, lexemes_eq_nil (List.map_eq_nil_iff.mp hafter), List.append_nil]
    exact hread.text_eq htoken

/-- The only token of such a text starts where the text does. -/
theorem scan_of_lexemes (file : String) :
    ∃ size, scan file source.toList = [⟨kind, value, Span.ofBytes file 0 size⟩] := by
  obtain ⟨lexeme, hlexemes, htoken⟩ := List.map_eq_singleton_iff.mp hone
  refine ⟨Text.byteSize lexeme.text, ?_⟩
  rw [scan, hlexemes, placeTokens, htoken]
  rfl

end OneToken

/-! ### What literals are read as -/

/-- The kinds of the tokens that are literals. -/
def TokenKind.isLiteral : TokenKind → Bool
  | .integer | .string | .trueWord | .falseWord => true
  | _ => false

theorem TokenKind.cases_of_isLiteral {kind : TokenKind} (h : kind.isLiteral = true) :
    kind = .integer ∨ kind = .string ∨ ∃ truth : Bool, kind = if truth then .trueWord else .falseWord := by
  revert h
  cases kind <;> decide

/-- The node prints as `text` does without the zeros in front of its digits, so as `text` itself if there are none. -/
def Node.PrintsUnpadded (text : String) (node : Node) : Prop :=
  (node.source = text ↔ ¬ Numeral.Padded text) ∧ ¬ Numeral.Padded node.source ∧
    ∃ count, text.toList = List.replicate count '0' ++ node.source.toList

theorem Node.PrintsUnpadded.of_eq {text : String} {node : Node} (h : node.source = text)
    (hplain : ¬ Numeral.Padded text) : node.PrintsUnpadded text :=
  ⟨⟨fun _ => hplain, fun _ => h⟩, h ▸ hplain, 0, by rw [h]; rfl⟩

theorem printsUnpadded_integer {digits : String} (hne : digits.toList ≠ [])
    (hdigits : ∀ c ∈ digits.toList, c.isDigit = true) (span : Span) :
    (Node.integer (Numeral.value digits) span).PrintsUnpadded digits := by
  have hsource : (Node.integer (Numeral.value digits) span).source = toString (Numeral.value digits) := by
    rw [Node.source]
    rfl
  refine ⟨?_, ?_, ?_⟩
  · rw [hsource]
    exact Numeral.toString_value_eq_iff hne hdigits
  · rw [hsource]
    exact Numeral.not_padded_toString _
  · rw [hsource, Numeral.toList_toString_value]
    exact Numeral.exists_zeros hne hdigits

theorem eq_boolText_of_ofWord {word : String} {truth : Bool}
    (h : TokenKind.ofWord word = if truth then .trueWord else .falseWord) : word = boolText truth := by
  unfold TokenKind.ofWord at h
  cases htype : TokenKind.typeWord? word with
  | some kind =>
    rw [htype] at h
    unfold TokenKind.typeWord? at htype
    split at htype <;> cases htype <;> cases truth <;> cases h
  | none =>
    rw [htype] at h
    cases hreserved : TokenKind.reservedWord? word with
    | some kind =>
      rw [hreserved] at h
      unfold TokenKind.reservedWord? at hreserved
      split at hreserved <;> cases hreserved <;> cases truth <;> cases h <;> rfl
    | none =>
      rw [hreserved] at h
      cases truth <;> cases h

/-- A truth value has one spelling. -/
theorem eq_boolText_of_spelled (truth : Bool) {value : String}
    (h : Spelled (if truth then .trueWord else .falseWord) value) : value = boolText truth := by
  generalize hkind : (if truth then TokenKind.trueWord else .falseWord) = kind at h
  cases h with
  | word => exact eq_boolText_of_ofWord hkind.symm
  | fixed hmem =>
    have hsign := Lexeme.holds_of_mem_table (fun kind _ => kind != .trueWord && kind != .falseWord) (by decide) hmem
    subst hkind
    cases truth <;> cases hsign
  | integer | string | illegal | endOfInput => cases truth <;> cases hkind

theorem digits_of_spelled {value : String} (h : Spelled .integer value) :
    value.toList ≠ [] ∧ ∀ c ∈ value.toList, c.isDigit = true := by
  generalize hkind : TokenKind.integer = kind at h
  cases h with
  | integer hne hdigits =>
    rw [String.toList_ofList]
    exact ⟨hne, hdigits⟩
  | @word c rest =>
    have hmem := ofWord_mem (String.ofList (c :: rest))
    rw [← hkind] at hmem
    exact absurd hmem (by decide)
  | fixed hmem =>
    have hsign := Lexeme.holds_of_mem_table (fun kind _ => kind != .integer) (by decide) hmem
    subst hkind
    cases hsign
  | string | illegal | endOfInput => cases hkind

theorem printsUnpadded_string (value : String) (span : Span) :
    (Node.string value span).PrintsUnpadded (spelling .string value) := by
  refine .of_eq (by rw [Node.source]; rfl) ?_
  rintro ⟨digit, rest, htext⟩
  simp [spelling] at htext

theorem printsUnpadded_boolean (truth : Bool) (span : Span) :
    (Node.boolean truth span).PrintsUnpadded (boolText truth) := by
  refine .of_eq (by rw [Node.source]) ?_
  rintro ⟨digit, rest, htext⟩
  cases truth <;> simp [boolText] at htext

namespace Grammar

open ParseM Outcome

variable {cursor : Cursor}

/-- **What is read from the token of a literal**: the literal, unless it is a number above the limit. -/
theorem atom_literal (hliteral : cursor.current.kind.isLiteral = true) (hspelled : cursor.current.Spelled) :
    (cursor.current.kind = .integer ∧ 0x7FFFFFFFFFFFFFFF < Numeral.value cursor.current.value →
      atom cursor = .error ⟨.numberTooLarge cursor.current.value, cursor.current.span.start⟩ cursor.advance) ∧
    (¬ (cursor.current.kind = .integer ∧ 0x7FFFFFFFFFFFFFFF < Numeral.value cursor.current.value) →
      ∃ node, atom cursor = .ok node cursor.advance ∧
        node.PrintsUnpadded (spelling cursor.current.kind cursor.current.value)) := by
  rw [atom, advance_bind_run]
  generalize cursor.current = token at hliteral hspelled
  obtain ⟨kind, value, span⟩ := token
  obtain rfl | rfl | ⟨truth, rfl⟩ := TokenKind.cases_of_isLiteral hliteral
  case inl =>
    obtain ⟨hne, hdigits⟩ := digits_of_spelled hspelled
    have hlimit : Numeral.integerLimit = 0x7FFFFFFFFFFFFFFF + 1 := rfl
    constructor
    · rintro ⟨-, hlarge⟩
      have hnone : Numeral.below? Numeral.integerLimit value = none := by
        rw [Numeral.below?, hlimit, if_neg (Nat.not_lt.mpr hlarge)]
      simp only [hnone]
      rfl
    · intro hsmall
      have hvalue : Numeral.below? Numeral.integerLimit value = some (Numeral.value value) := by
        rw [Numeral.below?, hlimit, if_pos (Nat.not_le.mp fun hlarge => hsmall ⟨rfl, hlarge⟩)]
      simp only [hvalue]
      exact ⟨_, rfl, printsUnpadded_integer hne hdigits span⟩
  case inr.inl =>
    refine ⟨fun hnumber => ?_, fun _ => ⟨_, rfl, printsUnpadded_string value span⟩⟩
    cases hnumber.1
  case inr.inr =>
    obtain rfl := eq_boolText_of_spelled truth hspelled
    cases truth with
    | true =>
      refine ⟨fun hnumber => ?_, fun _ => ⟨_, rfl, printsUnpadded_boolean true span⟩⟩
      cases hnumber.1
    | false =>
      refine ⟨fun hnumber => ?_, fun _ => ⟨_, rfl, printsUnpadded_boolean false span⟩⟩
      cases hnumber.1

theorem standard_literal {kind : TokenKind} (h : kind.isLiteral = true) :
    standard.operand kind = some .primary ∧ standard.statement kind = none ∧ kind ≠ .identifier ∧
      kind ≠ .semicolon ∧ kind ≠ .endOfInput := by
  revert h
  cases kind <;> decide

/-- A statement that starts with a literal is an expression that starts with it. -/
theorem statement_of_literal (hliteral : cursor.current.kind.isLiteral = true) :
    nested.statement cursor = (atom >>= fun operand => continued .lowest operand >>= fun node =>
      dropSemicolons >>= fun _ => pure (.expression node node.span)) cursor := by
  obtain ⟨hoperand, hstatement, hname, -, -⟩ := standard_literal hliteral
  have hexpression : nested.expression .lowest cursor = (atom >>= continued .lowest) cursor := by
    rw [nested_expression_eq, bind_run, bind_run, firstOperand, currentKind_bind_run, hoperand]
    rfl
  have hplain : plainStatement standard nested cursor = expressionStatement nested cursor := by
    rw [plainStatement, currentKind_bind_run, hstatement]
    exact congrFun (if_neg hname) cursor
  rw [nested_statement, statementAt, bind_run, hplain, expressionStatement, bind_run, hexpression, bind_run, bind_run]
  cases atom cursor with
  | error error later => rfl
  | ok operand later =>
    simp only [bind_run]
    cases continued .lowest operand later <;> rfl

/-- A literal at the end of the tokens is the only statement of its program. -/
theorem parse_of_atom {source file : String} {node : Node} {later : Cursor}
    (hliteral : (Cursor.ofSource source file).current.kind.isLiteral = true)
    (hatom : atom (Cursor.ofSource source file) = .ok node later) (hrest : later.rest = []) :
    parse source file = .ok ⟨[.expression node node.span], later.spanSince ⟨0, later.finish.file⟩⟩ := by
  obtain ⟨-, -, -, hsemicolon, hend⟩ := standard_literal hliteral
  have hstatement : nested.statement (Cursor.ofSource source file) = .ok (.expression node node.span) later := by
    have hkind : later.current.kind ≠ .semicolon := by
      rw [Cursor.current_of_nil hrest]
      exact nofun
    rw [statement_of_literal hliteral, bind_of_ok hatom,
      bind_of_ok (continued_stop node (not_continues_of_nil hrest .lowest))]
    show EStateM.Result.ok _ later.dropSemicolons = _
    rw [Cursor.dropSemicolons_of_kind hkind]
  have hgather := gather_of_statement (by simpa [Cursor.hasMore] using hend)
    (Cursor.dropSemicolons_of_kind hsemicolon) hstatement hrest
  rw [parse_eq_gather, hgather]

theorem parse_of_atom_error {source file : String} {error : Error} {later : Cursor}
    (hliteral : (Cursor.ofSource source file).current.kind.isLiteral = true)
    (hatom : atom (Cursor.ofSource source file) = .error error later) : parse source file = .error error := by
  obtain ⟨-, -, -, hsemicolon, hend⟩ := standard_literal hliteral
  have hstatement : nested.statement (Cursor.ofSource source file) = .error error later := by
    rw [statement_of_literal hliteral, bind_of_error hatom]
  have hitem : programItem nested (Cursor.ofSource source file) = .error error later := by
    rw [programItem_run, Cursor.dropSemicolons_of_kind hsemicolon, if_pos (by simpa [Cursor.hasMore] using hend)]
    exact bind_of_error hstatement
  have hgather : gather (programItem nested) (Cursor.ofSource source file) = .error error later := by
    rw [gather_eq programItem_advances]
    exact bind_of_error hitem
  rw [parse_eq_gather, hgather]

end Grammar

/-- **Literals print as they were written, but for zeros in front of a number.**  A text that is one literal is rejected
exactly if it is a number above 2^63 - 1.  Otherwise it is one statement, and the expression in it prints as the text
does without the zeros in front of other digits. -/
theorem parse_literal {source : String} (file : String) {kind : TokenKind} {value : String}
    (hone : (lexemes source.toList).map Lexeme.token? = [some (kind, value)]) (hliteral : kind.isLiteral = true) :
    (kind = .integer ∧ 0x7FFFFFFFFFFFFFFF < Numeral.value source →
      parse source file = .error ⟨.numberTooLarge source, ⟨0, file⟩⟩) ∧
    (¬ (kind = .integer ∧ 0x7FFFFFFFFFFFFFFF < Numeral.value source) → ∃ expression span whole,
      parse source file = .ok ⟨[.expression expression span], whole⟩ ∧ expression.PrintsUnpadded source) := by
  obtain ⟨size, hscan⟩ := scan_of_lexemes hone file
  have hsource := eq_spelling_of_lexemes hone
  have hrest : (Cursor.ofSource source file).rest = [⟨kind, value, Span.ofBytes file 0 size⟩] := hscan
  have hcurrent : (Cursor.ofSource source file).current = ⟨kind, value, Span.ofBytes file 0 size⟩ := by
    rw [Cursor.current, hrest]
    rfl
  have hspelled := (Cursor.spelled_ofSource source file).current
  have hkind : (Cursor.ofSource source file).current.kind.isLiteral = true := by
    rw [hcurrent]
    exact hliteral
  obtain ⟨hlarge, hsmall⟩ := Grammar.atom_literal hkind hspelled
  rw [hcurrent] at hlarge hsmall
  have hvalue : kind = .integer → value = source := by
    rintro rfl
    exact hsource.symm
  constructor
  · rintro ⟨rfl, hlimit⟩
    obtain rfl := hvalue rfl
    exact Grammar.parse_of_atom_error hkind (hlarge ⟨rfl, hlimit⟩)
  · intro hlimit
    obtain ⟨node, hatom, hprints⟩ := hsmall fun habove => hlimit ⟨habove.1, hvalue habove.1 ▸ habove.2⟩
    have hend : (Cursor.ofSource source file).advance.rest = [] := by
      rw [Cursor.advance, hrest]
      rfl
    exact ⟨node, _, _, Grammar.parse_of_atom hkind hatom hend, hsource ▸ hprints⟩

/-- The largest number prints as it was written, and the next one is rejected. -/
theorem parse_literal_largest :
    (∃ expression span whole, parse "9223372036854775807" "shell" = .ok ⟨[.expression expression span], whole⟩ ∧
        expression.source = "9223372036854775807") ∧
      parse "9223372036854775808" "shell" = .error ⟨.numberTooLarge "9223372036854775808", ⟨0, "shell"⟩⟩ := by
  have hlargest : (lexemes "9223372036854775807".toList).map Lexeme.token? =
      [some (.integer, "9223372036854775807")] := by rfl
  have hnext : (lexemes "9223372036854775808".toList).map Lexeme.token? =
      [some (.integer, "9223372036854775808")] := by rfl
  have hplain : ¬ Numeral.Padded "9223372036854775807" := by
    rintro ⟨digit, rest, htext⟩
    simp at htext
  constructor
  · obtain ⟨expression, span, whole, hparse, hprints⟩ := (parse_literal "shell" hlargest rfl).2 (by decide)
    exact ⟨expression, span, whole, hparse, hprints.1.mpr hplain⟩
  · exact (parse_literal "shell" hnext rfl).1 (by decide)

/-- A number that does not print as it was written: its zeros in front are gone. -/
theorem leading_zeros_dropped :
    (lexemes "007".toList).map Lexeme.token? = [some (.integer, "007")] ∧ Numeral.value "007" ≤ 0x7FFFFFFFFFFFFFFF ∧
      ∃ expression span whole, parse "007" "shell" = .ok ⟨[.expression expression span], whole⟩ ∧
        expression.source = "7" ∧ expression.source ≠ "007" :=
  ⟨by rfl, by decide, _, _, _, by rfl, by rfl, by decide⟩

end GoScript
