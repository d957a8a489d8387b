import GoScript.Proofs.Comments

/-!
# Tokens set apart

The tokens of a text, written one after the other with one space between each two, are read as the same tokens again.
A space ends every name, number and sign, and it is no part of a longer one; a string ends with its own quote.  A stray
character stays one: no sign starts with it and a space, and a quote that is never closed in a text is not closed by the
tokens behind it either, since they have no quote in them.

* `tokenTexts`, `spaced` — the tokens of a text as they are written there, and the text with a space between each two
* `spaced_cons` — what is read next, and the spaced text of the rest
* `wordsOf_atStart` — a token in front of a space is read as itself
* `tokensOf_spaced` — the tokens of the spaced text
-/

namespace GoScript

open Pattern

/-- The tokens of a text, each as it is written there. -/
def tokenTexts (text : List Char) : List (List Char) :=
  (lexemes text).filterMap fun lexeme => lexeme.token?.map fun _ => lexeme.text

/-- The tokens of a text, each as it is written there, with one space between each two. -/
def spaced (text : List Char) : List Char :=
  [' '].intercalate (tokenTexts text)

/-! ### The spaced text, one token after the other -/

/-- What stands behind a token of the spaced text: nothing, or a space and the rest. -/
def behind (text : List Char) : List Char :=
  if tokenTexts text = [] then [] else ' ' :: spaced text

theorem behind_cases (text : List Char) : behind text = [] ∨ ∃ more, behind text = ' ' :: more := by
  rw [behind]
  split
  · exact .inl rfl
  · exact .inr ⟨_, rfl⟩

theorem wordsOf_behind (text : List Char) : wordsOf (behind text) = wordsOf (spaced text) := by
  rw [behind]
  split
  · next hnone => rw [spaced, hnone, List.intercalate_nil]
  · exact wordsOf_blank (by decide) (spaced text)

/-- Blanks and comments leave no trace. -/
theorem spaced_of_skipped {lexeme : Lexeme} {text after : List Char} (h : lexemes text = lexeme :: lexemes after)
    (hskip : lexeme.token? = none) : spaced text = spaced after := by
  rw [spaced, tokenTexts, h, List.filterMap_cons_none (by rw [hskip]; rfl), spaced, tokenTexts]

/-- **A token and what stands behind it.** -/
theorem spaced_cons {lexeme : Lexeme} {text after : List Char} (h : lexemes text = lexeme :: lexemes after)
    {word : Word} (hword : lexeme.token? = some word) : spaced text = lexeme.text ++ behind after := by
  have htexts : tokenTexts text = lexeme.text :: tokenTexts after := by
    rw [tokenTexts, h, List.filterMap_cons_some (by rw [hword]; rfl), tokenTexts]
  rw [spaced, htexts, behind]
  split
  · next hnone => rw [hnone, List.intercalate_singleton, List.append_nil]
  · next hsome =>
    rw [List.intercalate_cons_of_ne_nil hsome, List.append_assoc, spaced]
    rfl

theorem mem_spaced_of_mem_behind {d : Char} {text : List Char} (h : d ∈ behind text) : d = ' ' ∨ d ∈ spaced text := by
  rw [behind] at h
  split at h
  · cases h
  · exact List.mem_cons.mp h

/-- Only spaces are new. -/
theorem mem_of_mem_spaced {d : Char} {text : List Char} (h : d ∈ spaced text) : d = ' ' ∨ d ∈ text := by
  induction text using lexemesInduction with
  | nil => cases h
  | lexeme c rest after htext _ _ _ hcons ih =>
    have hafter : d ∈ spaced after → d = ' ' ∨ d ∈ c :: rest := by
      intro hmem
      rw [htext]
      exact (ih hmem).imp_right (List.mem_append_right _)
    cases hword : (Lexeme.atStart c rest).token? with
    | none => exact hafter (spaced_of_skipped hcons hword ▸ h)
    | some word =>
      rw [spaced_cons hcons hword, List.mem_append] at h
      rcases h with hmem | hmem
      · rw [htext]
        exact .inr (List.mem_append_left _ hmem)
      · exact (mem_spaced_of_mem_behind hmem).elim .inl hafter

/-! ### A token in front of a space -/

/-- A sign of the table by itself. -/
theorem wordsOf_sign {kind : TokenKind} {spelling : String} (h : fixed kind spelling spelling ∈ table) :
    wordsOf spelling.toList = [(kind, spelling)] := by
  have hsign := Lexeme.holds_of_mem_table
    (fun kind spelling => wordsOf spelling.toList == [(kind, spelling)]) (by decide) h
  exact eq_of_beq hsign

/-- What a pattern takes for a token is taken for it again in front of a space or of nothing. -/
theorem wordsOf_match {pattern : Pattern} (hpattern : pattern ∈ table) {text : List Char} {count : Nat}
    (hmatch : pattern.matchLength? text = some count) {word : Word}
    (hword : (Lexeme.mk (some pattern) (text.take count)).token? = some word) {rest : List Char}
    (hrest : rest = [] ∨ ∃ more, rest = ' ' :: more) : wordsOf (text.take count ++ rest) = word :: wordsOf rest := by
  have hboundary : Boundary rest := by
    rcases hrest with rfl | ⟨more, rfl⟩
    · trivial
    · exact .of_mem (by decide)
  cases pattern with
  | blank | comment => cases hword
  | word =>
    cases text with
    | nil => cases hmatch
    | cons c tail =>
      rw [matchLength?] at hmatch
      split at hmatch
      · next hstart =>
        cases hmatch
        cases hword
        refine wordsOf_word c _ hstart ?_ hboundary
        rw [wordTail_take, List.length_take, Nat.min_eq_left (wordTail_le tail)]
      · cases hmatch
  | integer =>
    cases hword
    obtain ⟨htake, hne⟩ := runLength?_eq_some hmatch
    rw [htake]
    exact wordsOf_integer hne (List.all_eq_true.mp List.all_takeWhile) hboundary
  | string =>
    cases hword
    obtain ⟨tail, rfl, hquote, rfl⟩ := matchLength?_string hmatch
    rw [take_string hquote, List.tail_cons, List.dropLast_concat]
    have hcontent : '"' ∉ tail.takeWhile (· != '"') := fun hmem => by
      simpa using List.all_eq_true.mp List.all_takeWhile _ hmem
    simpa using @wordsOf_string _ rest hcontent
  | fixed kind sign spelling =>
    obtain rfl := sign_eq_spelling hpattern
    rw [matchLength?] at hmatch
    split at hmatch
    · next hprefix =>
      cases hmatch
      cases hword
      rw [← List.prefix_iff_eq_take.mp (List.isPrefixOf_iff_prefix.mp hprefix)]
      rcases hrest with rfl | ⟨more, rfl⟩
      · rw [List.append_nil]
        exact wordsOf_sign hpattern
      · exact wordsOf_fixed hpattern more
    · cases hmatch

theorem matchLength?_of_first? {text : List Char} (h : first? text = none) {pattern : Pattern}
    (hpattern : pattern ∈ table) : pattern.matchLength? text = none := by
  have hnone := List.findSome?_eq_none_iff.mp h pattern hpattern
  rwa [Option.map_eq_none_iff] at hnone

theorem runLength?_cons {p : Char → Bool} {c : Char} {text : List Char} :
    runLength? p (c :: text) = none ↔ p c = false := by
  cases hc : p c <;> simp [runLength?, hc]

/-- A character that starts no token starts none in front of a space or of nothing, where a quote stays open. -/
theorem first?_stray {c : Char} {text rest : List Char} (h : first? (c :: text) = none) (hopen : c = '"' → '"' ∉ rest)
    (hrest : rest = [] ∨ ∃ more, rest = ' ' :: more) : first? (c :: rest) = none := by
  rw [Option.eq_none_iff_forall_ne_some]
  rintro ⟨pattern, count⟩ hfirst
  obtain ⟨hpattern, hmatch⟩ := first?_eq_some hfirst
  have hnone := matchLength?_of_first? h hpattern
  cases pattern with
  | word =>
    rw [matchLength?] at hmatch hnone
    split at hmatch
    · next hstart => simp [hstart] at hnone
    · cases hmatch
  | integer | blank =>
    rw [matchLength?, runLength?_cons] at hnone
    cases (runLength?_cons.mpr hnone).symm.trans hmatch
  | string =>
    obtain ⟨tail, hcons, hquote, -⟩ := matchLength?_string hmatch
    obtain ⟨rfl, rfl⟩ := List.cons.inj hcons
    exact hopen rfl hquote
  | comment =>
    obtain ⟨tail, hcons, -⟩ := matchLength?_comment hmatch
    rcases hrest with rfl | ⟨more, rfl⟩
    · cases hcons
    · exact absurd (List.cons.inj (List.cons.inj hcons).2).1 (by decide)
  | fixed kind sign spelling =>
    obtain rfl := sign_eq_spelling hpattern
    obtain ⟨d, tail, hspelling, -, htail⟩ := fixed_spelling hpattern
    rw [matchLength?, hspelling] at hmatch hnone
    split at hmatch
    · next hprefix =>
      obtain ⟨after, hcons⟩ := List.isPrefixOf_iff_prefix.mp hprefix
      obtain ⟨rfl, htext⟩ := List.cons.inj hcons
      cases tail with
      | nil => simp [List.isPrefixOf] at hnone
      | cons e tail =>
        -- the second character of a sign would be a space
        rcases hrest with rfl | ⟨more, rfl⟩
        · cases htext
        · obtain ⟨rfl, -⟩ := List.cons.inj htext
          exact absurd (htail ' ' List.mem_cons_self) (by decide)
    · cases hmatch

/-- **A token in front of a space** or of nothing is read as itself. -/
theorem wordsOf_atStart {c : Char} {text rest : List Char} {word : Word}
    (hword : (Lexeme.atStart c text).token? = some word) (hopen : '"' ∉ text → '"' ∉ rest)
    (hrest : rest = [] ∨ ∃ more, rest = ' ' :: more) :
    wordsOf ((Lexeme.atStart c text).text ++ rest) = word :: wordsOf rest := by
  rw [Lexeme.atStart] at hword ⊢
  cases hfirst : first? (c :: text) with
  | some found =>
    rw [hfirst] at hword
    obtain ⟨hpattern, hmatch⟩ := first?_eq_some hfirst
    exact wordsOf_match hpattern hmatch hword hrest
  | none =>
    rw [hfirst] at hword
    cases hword
    have hquote : c = '"' → '"' ∉ rest := by
      rintro rfl
      refine hopen fun hmem => ?_
      have hstring : string.matchLength? ('"' :: text) = none := matchLength?_of_first? hfirst (by decide)
      simp [matchLength?, hmem] at hstring
    have hlexeme : Lexeme.atStart c rest = ⟨none, [c]⟩ := by rw [Lexeme.atStart, first?_stray hfirst hquote hrest]
    have hcons : c :: rest = (Lexeme.atStart c rest).text ++ rest := by rw [hlexeme]; rfl
    show wordsOf (c :: rest) = _
    rw [wordsOf, lexemes_cons hcons (by rw [hlexeme]; exact List.cons_ne_nil c []), hlexeme]
    rfl

/-! ### Texts -/

/-- **The tokens of the spaced text.** -/
theorem wordsOf_spaced (text : List Char) : wordsOf (spaced text) = wordsOf text := by
  induction text using lexemesInduction with
  | nil => rfl
  | lexeme c rest after _ _ _ hsuffix hcons ih =>
    cases hword : (Lexeme.atStart c rest).token? with
    | none => rw [spaced_of_skipped hcons hword, ih, wordsOf, wordsOf, hcons, List.filterMap_cons_none hword]
    | some word =>
      have hopen : '"' ∉ rest → '"' ∉ behind after := by
        intro hrest hmem
        have hspaced : '"' ∈ spaced after := (mem_spaced_of_mem_behind hmem).resolve_left (by decide)
        have hafter : '"' ∈ after := (mem_of_mem_spaced hspaced).resolve_left (by decide)
        exact hrest (hsuffix.subset hafter)
      rw [spaced_cons hcons hword, wordsOf_atStart hword hopen (behind_cases after), wordsOf_behind, ih, wordsOf,
        wordsOf, hcons, List.filterMap_cons_some hword]

/-- What is written for a token is its spelling. -/
theorem tokenTexts_eq (text : List Char) :
    tokenTexts text = (wordsOf text).map fun word => (spelling word.1 word.2).toList := by
  induction text using lexemesInduction with
  | nil => rfl
  | lexeme c rest after _ _ hread _ hcons ih =>
    rw [tokenTexts, wordsOf] at ih ⊢
    rw [hcons]
    cases hword : (Lexeme.atStart c rest).token? with
    | none => rw [List.filterMap_cons_none (by rw [hword]; rfl), List.filterMap_cons_none hword, ih]
    | some word =>
      rw [List.filterMap_cons_some (by rw [hword]; rfl), List.filterMap_cons_some hword, List.map_cons, ih,
        hread.text_eq hword]

/-- **Reading tokens again.**  Take the tokens of a source text, each as it is written there, which for a string is its
value between quotes and for any other token its value, and put one space between each two of them.  The text that comes
out has the same tokens as the source, up to their places. -/
theorem tokensOf_spaced (source file : String) :
    tokenTexts source.toList =
        (tokensOf source file).dropLast.map (fun token => (spelling token.kind token.value).toList) ∧
      (tokensOf (String.ofList (spaced source.toList)) file).map (fun token => (token.kind, token.value)) =
        (tokensOf source file).map (fun token => (token.kind, token.value)) := by
  constructor
  · rw [tokensOf, List.dropLast_concat, tokenTexts_eq, ← map_scan file, List.map_map]
    rfl
  · rw [tokensOf, tokensOf, List.map_append, List.map_append, map_scan, map_scan, String.toList_ofList, wordsOf_spaced]
    rfl

example : spaced "x:=a.b// no\n+\"1 \"//".toList = "x := a.b + \"1 \"".toList ∧
    wordsOf "x := a.b + \"1 \"".toList = wordsOf "x:=a.b// no\n+\"1 \"//".toList := by
  decide

end GoScript
