import GoScript.Precedence
import GoScript.Proofs.Spelling

/-!
# Reading tokens back

A token that is written out and followed by something that cannot be taken for a part of it is read back as itself.
So a text that is put together from spellings has the tokens that it was put together from.

* `wordsOf` — the tokens of a text, without their places
* `lexemes_cons`, `lexemes_of_first?` — the first lexeme of a text, and then those of the rest
* `wordsOf_word`, `wordsOf_integer`, `wordsOf_string`, `wordsOf_fixed`, … — one token in front of a text
* `Boundary` — a text that continues no name and no number
-/

namespace GoScript

/-- A token without its place. -/
abbrev Word := TokenKind × String

/-- The tokens of a text, without their places. -/
def wordsOf (text : List Char) : List Word :=
  (lexemes text).filterMap Lexeme.token?

theorem map_placeTokens (file : String) (offset : Nat) (lexemes : List Lexeme) :
    (placeTokens file offset lexemes).map (fun token => (token.kind, token.value)) =
      lexemes.filterMap Lexeme.token? := by
  induction lexemes generalizing offset with
  | nil => rfl
  | cons lexeme rest ih =>
    rw [placeTokens]
    cases htoken : lexeme.token? with
    | none => rw [List.filterMap_cons_none htoken, ← ih]
    | some word =>
      rw [List.filterMap_cons_some htoken, ← ih]
      rfl

/-- The tokens of a scan are those of the text. -/
theorem map_scan (file : String) (text : List Char) :
    (scan file text).map (fun token => (token.kind, token.value)) = wordsOf text :=
  map_placeTokens file 0 (lexemes text)

/-! ### The first lexeme -/

theorem lexemesFrom_eq_drop (skip : Nat) (text : List Char) : lexemesFrom skip text = lexemes (text.drop skip) := by
  induction skip generalizing text with
  | zero => rfl
  | succ skip ih =>
    cases text with
    | nil => rfl
    | cons c rest => exact ih rest

/-- The lexemes of a text are the next one and those of what follows it. -/
theorem lexemes_cons {c : Char} {rest after : List Char} (h : c :: rest = (Lexeme.atStart c rest).text ++ after)
    (hne : (Lexeme.atStart c rest).text ≠ []) :
    lexemes (c :: rest) = Lexeme.atStart c rest :: lexemes after := by
  show Lexeme.atStart c rest :: lexemesFrom ((Lexeme.atStart c rest).text.length - 1) rest = _
  obtain ⟨first, tail, htext⟩ := List.exists_cons_of_ne_nil hne
  rw [htext, List.cons_append] at h
  obtain ⟨_, rfl⟩ := List.cons.inj h
  rw [lexemesFrom_eq_drop, htext]
  simp

/-- The lexeme that the first matching pattern takes, and then those of the rest. -/
theorem lexemes_of_first? {front rest : List Char} {pattern : Pattern} (hfront : front ≠ [])
    (h : Pattern.first? (front ++ rest) = some (pattern, front.length)) :
    lexemes (front ++ rest) = ⟨some pattern, front⟩ :: lexemes rest := by
  cases front with
  | nil => exact absurd rfl hfront
  | cons c front =>
    have hlexeme : Lexeme.atStart c (front ++ rest) = ⟨some pattern, c :: front⟩ := by
      rw [Lexeme.atStart, ← List.cons_append, h]
      simp
    have htext : c :: (front ++ rest) = (Lexeme.atStart c (front ++ rest)).text ++ rest := by rw [hlexeme]; rfl
    rw [List.cons_append, lexemes_cons htext (by rw [hlexeme]; exact hfront), hlexeme]

/-- One token in front of a text. -/
theorem wordsOf_of_first? {front rest : List Char} {pattern : Pattern} {word : Word} (hfront : front ≠ [])
    (h : Pattern.first? (front ++ rest) = some (pattern, front.length))
    (hword : (Lexeme.mk (some pattern) front).token? = some word) :
    wordsOf (front ++ rest) = word :: wordsOf rest := by
  rw [wordsOf, lexemes_of_first? hfront h, List.filterMap_cons_some hword, wordsOf]

/-- The first pattern that matches, given the place where it stands in the table. -/
theorem first?_of_table (before : List Pattern) {after : List Pattern} {pattern : Pattern} {text : List Char}
    {count : Nat} (htable : Pattern.table = before ++ pattern :: after)
    (hbefore : ∀ other ∈ before, other.matchLength? text = none) (h : pattern.matchLength? text = some count) :
    Pattern.first? text = some (pattern, count) := by
  have hnone : before.findSome? (fun pattern => (pattern.matchLength? text).map (pattern, ·)) = none := by
    rw [List.findSome?_eq_none_iff]
    intro other hother
    rw [hbefore other hother, Option.map_none]
  rw [Pattern.first?, htable, List.findSome?_append, hnone, Option.none_or, List.findSome?_cons, h]
  rfl

/-! ### Names, numbers and strings -/

/-- A run of characters ends where the next one does not belong to it. -/
theorem takeWhile_append_of_head {p : Char → Bool} {run rest : List Char} (hrun : ∀ c ∈ run, p c = true)
    (hrest : ∀ next ∈ rest.head?, p next = false) : (run ++ rest).takeWhile p = run := by
  rw [List.takeWhile_append_of_pos hrun]
  cases rest with
  | nil => simp
  | cons c rest => rw [List.takeWhile_cons_of_neg (by simp [hrest c rfl]), List.append_nil]

/-- A text that continues no name and no number: it is empty or starts with a space, a comma or a bracket. -/
def Boundary : List Char → Prop
  | [] => True
  | c :: _ => c ∈ [' ', ',', '(', ')', '[', ']', '\x7b', '\x7d']

theorem Boundary.of_mem {c : Char} {rest : List Char} (h : c ∈ [' ', ',', '(', ')', '[', ']', '\x7b', '\x7d']) :
    Boundary (c :: rest) := h

theorem Boundary.not_part {c : Char} {rest : List Char} (h : Boundary (c :: rest)) :
    Pattern.isWordPart c = false ∧ c ≠ '.' ∧ c.isDigit = false := by
  simp only [Boundary, List.mem_cons, List.not_mem_nil, or_false] at h
  rcases h with rfl | rfl | rfl | rfl | rfl | rfl | rfl | rfl <;> decide

theorem wordTail_boundary {rest : List Char} (hrest : Boundary rest) : Pattern.wordTail rest = 0 := by
  match rest, hrest with
  | [], _ => rfl
  | [c], h => simp [Pattern.wordTail, h.not_part.1]
  | c :: d :: rest, h => simp [Pattern.wordTail, h.not_part.1, h.not_part.2.1]

theorem wordTail_append {tail rest : List Char} (htail : Pattern.wordTail tail = tail.length) (hrest : Boundary rest) :
    Pattern.wordTail (tail ++ rest) = tail.length := by
  fun_induction Pattern.wordTail tail with
  | case1 => exact wordTail_boundary hrest
  | case2 c hpart =>
    cases rest with
    | nil => simp [Pattern.wordTail, hpart]
    | cons d rest => simp [Pattern.wordTail, hpart, wordTail_boundary hrest]
  | case3 c hpart => cases htail
  | case4 c d tail hpart ih =>
    have htail' : Pattern.wordTail (d :: tail) = (d :: tail).length := Nat.succ.inj htail
    show Pattern.wordTail (c :: d :: (tail ++ rest)) = _
    rw [Pattern.wordTail, if_pos hpart]
    exact congrArg (· + 1) (ih htail')
  | case5 c d tail hpart hdot ih =>
    have htail' : Pattern.wordTail tail = tail.length := Nat.succ.inj (Nat.succ.inj htail)
    show Pattern.wordTail (c :: d :: (tail ++ rest)) = _
    rw [Pattern.wordTail, if_neg hpart, if_pos hdot, ih htail']
    rfl
  | case6 c d tail hpart hdot => cases htail

/-- A word in front of a text. -/
theorem wordsOf_word (c : Char) (tail : List Char) {rest : List Char} (hstart : Pattern.isWordStart c = true)
    (htail : Pattern.wordTail tail = tail.length) (hrest : Boundary rest) :
    wordsOf (c :: tail ++ rest) =
      (.ofWord (String.ofList (c :: tail)), String.ofList (c :: tail)) :: wordsOf rest := by
  have hmatch : Pattern.word.matchLength? (c :: tail ++ rest) = some (tail.length + 1) := by
    simp [Pattern.matchLength?, hstart, wordTail_append htail hrest]
  exact wordsOf_of_first? (List.cons_ne_nil c tail)
    (first?_of_table [] rfl (fun _ hother => by cases hother) hmatch) rfl

/-- The codes of digits. -/
theorem range_of_isDigit {c : Char} (h : c.isDigit = true) : 48 ≤ c.toNat ∧ c.toNat ≤ 57 := by
  delta Char.isDigit at h
  simp only [Bool.and_eq_true, decide_eq_true_eq, ge_iff_le, UInt32.le_iff_toNat_le] at h
  exact h

/-- The codes of letters and of the underscore. -/
theorem range_of_isWordStart {c : Char} (h : Pattern.isWordStart c = true) :
    (65 ≤ c.toNat ∧ c.toNat ≤ 90 ∨ 97 ≤ c.toNat ∧ c.toNat ≤ 122) ∨ c = '_' := by
  delta Pattern.isWordStart Char.isAlpha Char.isUpper Char.isLower at h
  simp only [Bool.or_eq_true, Bool.and_eq_true, decide_eq_true_eq, beq_iff_eq, ge_iff_le,
    UInt32.le_iff_toNat_le] at h
  exact h

theorem isWordStart_of_isDigit {c : Char} (h : c.isDigit = true) : Pattern.isWordStart c = false := by
  have hdigit := range_of_isDigit h
  cases hstart : Pattern.isWordStart c with
  | false => rfl
  | true =>
    rcases range_of_isWordStart hstart with (hletter | hletter) | rfl
    · omega
    · omega
    · exact absurd h (by decide)

/-- A number in front of a text. -/
theorem wordsOf_integer {digits rest : List Char} (hne : digits ≠ []) (hdigits : ∀ digit ∈ digits, digit.isDigit = true)
    (hrest : Boundary rest) : wordsOf (digits ++ rest) = (.integer, String.ofList digits) :: wordsOf rest := by
  have htake : (digits ++ rest).takeWhile Char.isDigit = digits := by
    refine takeWhile_append_of_head hdigits fun next hnext => ?_
    obtain ⟨behind, rfl⟩ := List.head?_eq_some_iff.mp hnext
    exact hrest.not_part.2.2
  have hword : Pattern.word.matchLength? (digits ++ rest) = none := by
    cases digits with
    | nil => exact absurd rfl hne
    | cons digit digits => simp [Pattern.matchLength?, isWordStart_of_isDigit (hdigits digit List.mem_cons_self)]
  have hmatch : Pattern.integer.matchLength? (digits ++ rest) = some digits.length := by
    rw [Pattern.matchLength?, Pattern.runLength?, htake]
    cases digits with
    | nil => exact absurd rfl hne
    | cons digit digits => rfl
  refine wordsOf_of_first? hne (first?_of_table [.word] rfl ?_ hmatch) rfl
  intro other hother
  obtain rfl := List.mem_singleton.mp hother
  exact hword

/-- A string in front of a text. -/
theorem wordsOf_string {content rest : List Char} (h : '"' ∉ content) :
    wordsOf ('"' :: content ++ '"' :: rest) = (.string, String.ofList content) :: wordsOf rest := by
  have htake : (content ++ '"' :: rest).takeWhile (· != '"') = content := by
    refine takeWhile_append_of_head (fun c hc => ?_) (by simp)
    exact bne_iff_ne.mpr fun heq => h (heq ▸ hc)
  have hmatch : Pattern.string.matchLength? (('"' :: (content ++ ['"'])) ++ rest) =
      some ('"' :: (content ++ ['"'])).length := by
    have htext : ('"' :: (content ++ ['"'])) ++ rest = '"' :: (content ++ '"' :: rest) := by simp
    rw [htext, Pattern.matchLength?, if_pos (by simp), htake]
    simp
  have hfirst := first?_of_table [.word, .integer, .blank] rfl (by
    intro other hother
    simp only [List.mem_cons, List.not_mem_nil, or_false] at hother
    rcases hother with rfl | rfl | rfl <;> rfl) hmatch
  have hwords := wordsOf_of_first? (List.cons_ne_nil _ _) hfirst rfl
  simpa using hwords

/-! ### Signs -/

/-- A space in front of a text that starts with none. -/
theorem wordsOf_space {c : Char} {rest : List Char} (hc : Text.isBlank c = false) :
    wordsOf (' ' :: c :: rest) = wordsOf (c :: rest) := by
  have hmatch : Pattern.blank.matchLength? ([' '] ++ c :: rest) = some 1 := by
    have htake : (' ' :: c :: rest).takeWhile Text.isBlank = [' '] := by
      rw [List.takeWhile_cons_of_pos (by decide), List.takeWhile_cons_of_neg (by simp [hc])]
    show Pattern.runLength? Text.isBlank (' ' :: c :: rest) = some 1
    rw [Pattern.runLength?, htake]
    rfl
  have hfirst := first?_of_table [.word, .integer] rfl (by
    intro other hother
    simp only [List.mem_cons, List.not_mem_nil, or_false] at hother
    rcases hother with rfl | rfl <;> rfl) hmatch
  rw [wordsOf, ← List.singleton_append, lexemes_of_first? (List.cons_ne_nil ' ' []) hfirst,
    List.filterMap_cons_none rfl, wordsOf]

/-- A comma or a bracket in front of a text. -/
theorem wordsOf_bracket (kind : TokenKind) (c : Char) (rest : List Char)
    (h : (kind, c) ∈ [(TokenKind.comma, ','), (.openParen, '('), (.closeParen, ')'), (.openBracket, '['),
      (.closeBracket, ']'), (.openCurly, '\x7b'), (.closeCurly, '\x7d')]) :
    wordsOf (c :: rest) = (kind, String.ofList [c]) :: wordsOf rest := by
  have hfirst : Pattern.first? ([c] ++ rest) =
      some (.fixed kind (String.ofList [c]) (String.ofList [c]), [c].length) := by
    simp only [List.mem_cons, List.not_mem_nil, or_false, Prod.mk.injEq] at h
    rcases h with ⟨rfl, rfl⟩ | ⟨rfl, rfl⟩ | ⟨rfl, rfl⟩ | ⟨rfl, rfl⟩ | ⟨rfl, rfl⟩ | ⟨rfl, rfl⟩ | ⟨rfl, rfl⟩ <;> rfl
  exact wordsOf_of_first? (List.cons_ne_nil c []) hfirst rfl

theorem wordsOf_ellipsis (rest : List Char) : wordsOf ("...".toList ++ rest) = (.ellipsis, "...") :: wordsOf rest :=
  have hfirst : Pattern.first? ("...".toList ++ rest) = some (.fixed .ellipsis "..." "...", 3) := rfl
  wordsOf_of_first? (by simp) hfirst rfl

/-- A sign of the table and a space in front of a text. -/
theorem wordsOf_fixed {kind : TokenKind} {spelling : String}
    (h : Pattern.fixed kind spelling spelling ∈ Pattern.table) (rest : List Char) :
    wordsOf (spelling.toList ++ ' ' :: rest) = (kind, spelling) :: wordsOf (' ' :: rest) := by
  have hfirst : spelling.toList ≠ [] ∧ Pattern.first? (spelling.toList ++ ' ' :: rest) =
      some (.fixed kind spelling spelling, spelling.toList.length) := by
    simp only [Pattern.table, List.mem_cons, List.not_mem_nil, or_false, Pattern.fixed.injEq, reduceCtorEq,
      false_or] at h
    -- one case for each sign of the table, and in each of them the table can be run
    repeat
      rcases h with ⟨rfl, rfl, -⟩ | h
      · exact ⟨by simp, rfl⟩
    obtain ⟨rfl, rfl, -⟩ := h
    exact ⟨by simp, rfl⟩
  exact wordsOf_of_first? hfirst.1 hfirst.2 rfl

/-- A minus or an exclamation mark in front of a text that does not start with an equals sign. -/
theorem wordsOf_unary {kind : TokenKind} {spelling : String}
    (h : Pattern.fixed kind spelling spelling ∈ Pattern.table) (hkind : kind = .dash ∨ kind = .not) {c : Char}
    (hc : c ≠ '=') (rest : List Char) :
    wordsOf (spelling.toList ++ c :: rest) = (kind, spelling) :: wordsOf (c :: rest) := by
  rcases hkind with rfl | rfl
  · obtain rfl : spelling = "-" := by simpa [Pattern.table] using h
    have hfirst : Pattern.first? ("-".toList ++ c :: rest) = some (.fixed .dash "-" "-", 1) := rfl
    exact wordsOf_of_first? (by simp) hfirst rfl
  · obtain rfl : spelling = "!" := by simpa [Pattern.table] using h
    have hnone : (Pattern.fixed .notEquals "!=" "!=").matchLength? ('!' :: c :: rest) = none := by
      have hprefix : "!=".toList.isPrefixOf ('!' :: c :: rest) = false := by
        simp [List.isPrefixOf, Ne.symm hc]
      rw [Pattern.matchLength?, hprefix]
      rfl
    have hfirst : Pattern.first? ("!".toList ++ c :: rest) = some (.fixed .not "!" "!", 1) := by
      -- the table tries the longer sign first, and all patterns before that one fail at the first character
      refine first?_of_table (Pattern.table.take 15) rfl ?_ rfl
      intro other hother
      simp only [Pattern.table, List.take_succ_cons, List.take_zero, List.mem_cons, List.not_mem_nil,
        or_false] at hother
      rcases hother with rfl | rfl | rfl | rfl | rfl | rfl | rfl | rfl | rfl | rfl | rfl | rfl | rfl | rfl | rfl <;>
        first | rfl | exact hnone
    exact wordsOf_of_first? (by simp) hfirst rfl

/-! ### Spellings by kind -/

/-- A word is a name, a type or a reserved word. -/
theorem ofWord_mem (word : String) :
    TokenKind.ofWord word ∈ [.identifier, .intType, .stringType, .boolType, .funcWord, .constWord, .varWord, .trueWord,
      .falseWord, .ifWord, .elseWord, .returnWord] := by
  unfold TokenKind.ofWord
  cases htype : TokenKind.typeWord? word with
  | some kind =>
    unfold TokenKind.typeWord? at htype
    split at htype <;> cases htype <;> decide
  | none =>
    cases hreserved : TokenKind.reservedWord? word with
    | some kind =>
      unfold TokenKind.reservedWord? at hreserved
      split at hreserved <;> cases hreserved <;> decide
    | none => decide

/-- An operator has the spelling that the table gives its kind. -/
theorem fixed_of_spelled {kind : TokenKind} {value : String} (h : Spelled kind value)
    (hkind : kind = .not ∨ (Precedence.binary? kind).isSome) : Pattern.fixed kind value value ∈ Pattern.table := by
  cases h with
  | fixed hmem => exact hmem
  | word hstart htail =>
    have hnone : ∀ kind ∈ [TokenKind.identifier, .intType, .stringType, .boolType, .funcWord, .constWord, .varWord,
        .trueWord, .falseWord, .ifWord, .elseWord, .returnWord],
        ¬ (kind = .not ∨ (Precedence.binary? kind).isSome) := by decide
    exact absurd hkind (hnone _ (ofWord_mem _))
  | integer | string | illegal | endOfInput => simp [Precedence.binary?] at hkind

/-- A name is a word that is neither a type nor reserved. -/
theorem exists_of_spelled_identifier {name : String} (h : Spelled .identifier name) :
    ∃ c tail, name = String.ofList (c :: tail) ∧ Pattern.isWordStart c = true ∧
      Pattern.wordTail tail = tail.length ∧ TokenKind.ofWord name = .identifier := by
  generalize hkind : TokenKind.identifier = kind at h
  cases h with
  | word hstart htail => exact ⟨_, _, rfl, hstart, htail, rfl⟩
  | fixed hmem =>
    subst hkind
    simp [Pattern.table] at hmem
  | integer | string | illegal | endOfInput => cases hkind

/-- A name in front of a text. -/
theorem wordsOf_identifier {name : String} (h : Spelled .identifier name) {rest : List Char} (hrest : Boundary rest) :
    wordsOf (name.toList ++ rest) = (.identifier, name) :: wordsOf rest := by
  obtain ⟨c, tail, rfl, hstart, htail, hkind⟩ := exists_of_spelled_identifier h
  rw [String.toList_ofList, wordsOf_word c tail hstart htail hrest, hkind]

end GoScript
