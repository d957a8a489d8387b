import GoScript.Grammar.Cursor

/-!
# Spellings

A token that was scanned has a kind and a value that fit together: names are words, numbers are digits, strings have
no quotes in them and every other kind has one spelling.  What a parse builds from tokens can rely on that.

* `Spelled` — the values that tokens of a kind can have
* `spelled_of_mem_scan` — every token of a scan is spelled
-/

namespace GoScript

open Pattern

/-- The values that tokens of a kind can have. -/
inductive Spelled : TokenKind → String → Prop
  | word {c : Char} {rest : List Char} : isWordStart c → wordTail rest = rest.length →
    Spelled (.ofWord (String.ofList (c :: rest))) (String.ofList (c :: rest))
  | integer {digits : List Char} : digits ≠ [] → (∀ digit ∈ digits, digit.isDigit) →
    Spelled .integer (String.ofList digits)
  | string {content : List Char} : '"' ∉ content → Spelled .string (String.ofList content)
  | fixed {kind : TokenKind} {spelling : String} : fixed kind spelling spelling ∈ table → Spelled kind spelling
  | illegal (c : Char) : Spelled .illegal (String.ofList [c])
  | endOfInput : Spelled .endOfInput ""

/-- A token whose value its kind can have. -/
def Token.Spelled (token : Token) : Prop :=
  GoScript.Spelled token.kind token.value

/-- A cursor in front of such tokens. -/
def Cursor.Spelled (cursor : Cursor) : Prop :=
  ∀ token ∈ cursor.rest, token.Spelled

namespace Pattern

/-! ### What a pattern takes -/

theorem wordTail_le (text : List Char) : wordTail text ≤ text.length := by
  fun_induction wordTail text with
  | case1 | case2 | case3 | case6 => simp
  | case4 c d rest h ih => exact Nat.succ_le_succ ih
  | case5 c d rest h hdot ih => exact Nat.succ_le_succ (Nat.succ_le_succ ih)

/-- The tail of a name is the tail of a name. -/
theorem wordTail_take (text : List Char) : wordTail (text.take (wordTail text)) = wordTail text := by
  fun_induction wordTail text with
  | case1 => rfl
  | case2 c h => simp [wordTail, h]
  | case3 c h => rfl
  | case4 c d rest h ih =>
    rw [List.take_succ_cons]
    cases htail : (d :: rest).take (wordTail (d :: rest)) with
    | nil =>
      rw [htail] at ih
      simp [wordTail, h, ← ih]
    | cons e tail =>
      rw [htail] at ih
      rw [wordTail, if_pos h, ih]
  | case5 c d rest h hdot ih =>
    rw [List.take_succ_cons, List.take_succ_cons, wordTail, if_neg h, if_pos hdot, ih]
  | case6 c d rest h hdot => rfl

theorem runLength?_eq_some {p : Char → Bool} {text : List Char} {count : Nat} (h : runLength? p text = some count) :
    text.take count = text.takeWhile p ∧ text.takeWhile p ≠ [] := by
  unfold runLength? at h
  split at h
  · cases h
  · next hne =>
    cases h
    refine ⟨?_, fun hnil => hne (by simp [hnil])⟩
    exact List.prefix_iff_eq_take.mp (List.takeWhile_prefix p) |>.symm

theorem matchLength?_string {text : List Char} {count : Nat} (h : string.matchLength? text = some count) :
    ∃ rest, text = '"' :: rest ∧ '"' ∈ rest ∧ count = (rest.takeWhile (· != '"')).length + 2 := by
  unfold matchLength? at h
  split at h <;> simp_all

theorem matchLength?_comment {text : List Char} {count : Nat} (h : comment.matchLength? text = some count) :
    ∃ rest, text = '/' :: '/' :: rest ∧ count = (rest.takeWhile (· != '\n')).length + 2 := by
  unfold matchLength? at h
  split at h <;> simp_all

/-- A text with a quote in it is what stands before the first one, the quote and the rest. -/
theorem exists_after_quote {text : List Char} (h : '"' ∈ text) :
    ∃ after, text = text.takeWhile (· != '"') ++ '"' :: after := by
  induction text with
  | nil => cases h
  | cons c text ih =>
    by_cases hc : c = '"'
    · subst hc
      exact ⟨text, rfl⟩
    · obtain ⟨after, hafter⟩ := ih ((List.mem_cons.mp h).resolve_left fun heq => hc heq.symm)
      refine ⟨after, ?_⟩
      rw [List.takeWhile_cons_of_pos (by simpa using hc), List.cons_append, ← hafter]

/-- What is taken for a string: what stands between the quotes, and the quotes. -/
theorem take_string {rest : List Char} (h : '"' ∈ rest) :
    ('"' :: rest).take ((rest.takeWhile (· != '"')).length + 2) = '"' :: (rest.takeWhile (· != '"') ++ ['"']) := by
  obtain ⟨after, hafter⟩ := exists_after_quote h
  rw [List.take_succ_cons]
  conv => lhs; arg 2; arg 2; rw [hafter]
  simp [List.take_append, List.take_of_length_le]

theorem first?_eq_some {text : List Char} {pattern : Pattern} {count : Nat} (h : first? text = some (pattern, count)) :
    pattern ∈ table ∧ pattern.matchLength? text = some count := by
  obtain ⟨found, hmem, hfound⟩ := List.exists_of_findSome?_eq_some h
  cases hmatch : found.matchLength? text with
  | none => simp [hmatch] at hfound
  | some length =>
    simp only [hmatch, Option.map_some, Option.some.injEq, Prod.mk.injEq] at hfound
    obtain ⟨rfl, rfl⟩ := hfound
    exact ⟨hmem, hmatch⟩

end Pattern

/-! ### Tokens of a scan -/

/-- What a pattern of the table takes is a token that is spelled. -/
theorem spelled_of_token? {pattern : Pattern} (hpattern : pattern ∈ table) {text : List Char} {count : Nat}
    (hmatch : pattern.matchLength? text = some count) {kind : TokenKind} {value : String}
    (htoken : (Lexeme.mk (some pattern) (text.take count)).token? = some (kind, value)) : Spelled kind value := by
  cases pattern with
  | blank | comment => simp [Lexeme.token?] at htoken
  | word =>
    cases text with
    | nil => simp [matchLength?] at hmatch
    | cons c rest =>
      simp only [matchLength?] at hmatch
      split at hmatch
      · next hstart =>
        cases hmatch
        cases htoken
        rw [List.take_succ_cons]
        refine .word hstart ?_
        rw [wordTail_take, List.length_take, Nat.min_eq_left (wordTail_le rest)]
      · cases hmatch
  | integer =>
    cases htoken
    simp only [matchLength?] at hmatch
    obtain ⟨htake, hne⟩ := runLength?_eq_some hmatch
    rw [htake]
    exact .integer hne (List.all_eq_true.mp List.all_takeWhile)
  | string =>
    cases htoken
    obtain ⟨rest, rfl, hquote, rfl⟩ := matchLength?_string hmatch
    rw [take_string hquote, List.tail_cons, List.dropLast_concat]
    refine .string fun hmem => ?_
    simpa using List.all_eq_true.mp List.all_takeWhile _ hmem
  | fixed kind sign spelling =>
    obtain rfl := sign_eq_spelling hpattern
    cases htoken
    exact .fixed hpattern

theorem spelled_of_atStart {c : Char} {rest : List Char} {kind : TokenKind} {value : String}
    (h : (Lexeme.atStart c rest).token? = some (kind, value)) : Spelled kind value := by
  unfold Lexeme.atStart at h
  split at h
  · next pattern count hfirst =>
    obtain ⟨hmem, hmatch⟩ := first?_eq_some hfirst
    exact spelled_of_token? hmem hmatch h
  · cases h
    exact .illegal c

theorem exists_atStart_of_mem_lexemesFrom {lexeme : Lexeme} {skip : Nat} {text : List Char}
    (h : lexeme ∈ lexemesFrom skip text) : ∃ c rest, lexeme = Lexeme.atStart c rest := by
  fun_induction lexemesFrom skip text with
  | case1 => cases h
  | case2 skip c rest ih => exact ih h
  | case3 c rest first ih =>
    rcases List.mem_cons.mp h with rfl | h
    · exact ⟨c, rest, rfl⟩
    · exact ih h

theorem exists_token?_of_mem_placeTokens {token : Token} {file : String} {offset : Nat} {lexemes : List Lexeme}
    (h : token ∈ placeTokens file offset lexemes) :
    ∃ lexeme ∈ lexemes, lexeme.token? = some (token.kind, token.value) := by
  induction lexemes generalizing offset with
  | nil => cases h
  | cons lexeme rest ih =>
    have later : token ∈ placeTokens file (offset + Text.byteSize lexeme.text) rest →
        ∃ other ∈ lexeme :: rest, other.token? = some (token.kind, token.value) := by
      intro hlater
      obtain ⟨other, hmem, hother⟩ := ih hlater
      exact ⟨other, List.mem_cons_of_mem _ hmem, hother⟩
    rw [placeTokens] at h
    cases htoken : lexeme.token? with
    | none =>
      rw [htoken] at h
      exact later h
    | some pair =>
      rw [htoken] at h
      rcases List.mem_cons.mp h with rfl | h
      · exact ⟨lexeme, List.mem_cons_self, htoken⟩
      · exact later h

/-- **Every token of a scan is spelled.** -/
theorem spelled_of_mem_scan {token : Token} {file : String} {text : List Char} (h : token ∈ scan file text) :
    token.Spelled := by
  obtain ⟨lexeme, hmem, htoken⟩ := exists_token?_of_mem_placeTokens h
  obtain ⟨c, rest, rfl⟩ := exists_atStart_of_mem_lexemesFrom hmem
  exact spelled_of_atStart htoken

namespace Cursor

theorem spelled_ofSource (source file : String) : (Cursor.ofSource source file).Spelled :=
  fun _ htoken => spelled_of_mem_scan htoken

theorem Spelled.current {cursor : Cursor} (h : cursor.Spelled) : cursor.current.Spelled := by
  obtain ⟨rest, finish⟩ := cursor
  cases rest with
  | nil => exact .endOfInput
  | cons token rest => exact h token List.mem_cons_self

theorem Spelled.advance {cursor : Cursor} (h : cursor.Spelled) : cursor.advance.Spelled :=
  fun token htoken => h token (List.mem_of_mem_tail htoken)

end Cursor

end GoScript
