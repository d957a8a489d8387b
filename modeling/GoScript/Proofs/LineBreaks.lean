import GoScript.Proofs.Coverage
import GoScript.Proofs.Relocation

/-!
# Tokens in front of a line feed

A blank, a slash or a quote ends every name, number and sign, and a line feed ends every comment too.  Only a quote
that is not closed could be closed behind it, and such a quote is no token.  So a text all of whose tokens are of the
language keeps them when a line feed and anything else is written behind it.

* `Pattern.isStop`, `Pattern.matchLength?_stop` — characters that end what is read, comments and quotes apart
* `Pattern.matchLength?_lineFeed`, `Lexeme.atStart_lineFeed` — what is read next does not go past a line feed
* `placeTokens_blank` — a blank in front of a text only moves its tokens
* `placeTokens_lineFeed` — the tokens of two texts with a line feed in between
* `placeTokens_add` — the tokens of a text that starts further on
-/

namespace GoScript

open Pattern

/-! ### What a pattern takes -/

theorem takeWhile_stop {p : Char → Bool} {stop : Char} (hp : p stop = false) (text rest : List Char) :
    (text ++ stop :: rest).takeWhile p = text.takeWhile p := by
  induction text with
  | nil => simp [hp]
  | cons c text ih =>
    by_cases hc : p c = true
    · simp [hc, ih]
    · simp [hc]

theorem takeWhile_append_of_mem {p : Char → Bool} {c : Char} {text : List Char} (hmem : c ∈ text) (hp : p c = false)
    (rest : List Char) : (text ++ rest).takeWhile p = text.takeWhile p := by
  induction text with
  | nil => cases hmem
  | cons d text ih =>
    by_cases hd : p d = true
    · have hne : c ≠ d := fun heq => by simp [← heq, hp] at hd
      simp [hd, ih ((List.mem_cons.1 hmem).resolve_left hne)]
    · simp [hd]

namespace Pattern

/-- A blank starts no name and no number. -/
theorem not_start_of_isBlank {c : Char} (h : Text.isBlank c = true) : isWordStart c = false ∧ c.isDigit = false := by
  simp [Text.isBlank, Text.blankRanges] at h
  constructor
  · cases hstart : isWordStart c with
    | false => rfl
    | true =>
      rcases range_of_isWordStart hstart with hletter | rfl
      · omega
      · simp at h
  · cases hdigit : c.isDigit with
    | false => rfl
    | true =>
      have hrange := range_of_isDigit hdigit
      omega

/-- Whether a character ends every name, number and sign in front of it: a blank, a slash and a quote do. -/
def isStop (c : Char) : Bool :=
  Text.isBlank c || c == '/' || c == '"'

theorem isStop_of_isBlank {c : Char} (h : Text.isBlank c = true) : isStop c = true := by
  rw [isStop, h]
  rfl

section Stop

variable {stop : Char} (hstop : isStop stop = true)
include hstop

theorem not_part_of_isStop :
    isWordStart stop = false ∧ isWordPart stop = false ∧ stop.isDigit = false ∧ stop ≠ '.' := by
  rw [isStop, Bool.or_eq_true, Bool.or_eq_true, beq_iff_eq, beq_iff_eq] at hstop
  rcases hstop with (hblank | rfl) | rfl
  · obtain ⟨hstart, hdigit⟩ := not_start_of_isBlank hblank
    refine ⟨hstart, ?_, hdigit, ?_⟩
    · rw [isWordStart, Bool.or_eq_false_iff] at hstart
      rw [isWordPart, Char.isAlphanum, hstart.1, hdigit, hstart.2]
      rfl
    · rintro rfl
      exact absurd hblank (by decide)
  · decide
  · decide

theorem wordTail_stop (text rest : List Char) : wordTail (text ++ stop :: rest) = wordTail text := by
  obtain ⟨hstart, hpart, -, hdot⟩ := not_part_of_isStop hstop
  have hzero : wordTail (stop :: rest) = 0 := by
    cases rest <;> simp [wordTail, hpart, hdot]
  fun_induction wordTail text with
  | case1 => exact hzero
  | case2 c hc =>
    show wordTail (c :: stop :: rest) = 1
    rw [wordTail, if_pos hc, hzero]
  | case3 c hc =>
    show wordTail (c :: stop :: rest) = 0
    rw [wordTail, if_neg hc, if_neg (by simp [hstart])]
  | case4 c d text hc ih =>
    show wordTail (c :: d :: (text ++ stop :: rest)) = _
    rw [wordTail, if_pos hc]
    exact congrArg (· + 1) ih
  | case5 c d text hc hd ih =>
    show wordTail (c :: d :: (text ++ stop :: rest)) = _
    rw [wordTail, if_neg hc, if_pos hd, ih]
  | case6 c d text hc hd =>
    show wordTail (c :: d :: (text ++ stop :: rest)) = _
    rw [wordTail, if_neg hc, if_neg hd]

end Stop

theorem isPrefixOf_stop {spelling : List Char} {stop : Char} (h : stop ∉ spelling) (text rest : List Char) :
    spelling.isPrefixOf (text ++ stop :: rest) = spelling.isPrefixOf text := by
  induction spelling generalizing text with
  | nil => simp
  | cons c spelling ih =>
    obtain ⟨hc, hspelling⟩ : stop ≠ c ∧ stop ∉ spelling := by simpa using h
    cases text with
    | nil => simp [List.isPrefixOf, hc.symm]
    | cons d text => simp [List.isPrefixOf, ih hspelling]

/-- A sign of the table is not empty and starts with no quote, and from its second character on nothing ends it. -/
theorem fixed_spelling {kind : TokenKind} {sign spelling : String} (h : fixed kind sign spelling ∈ table) :
    ∃ c tail, spelling.toList = c :: tail ∧ c ≠ '"' ∧ ∀ d ∈ tail, isStop d = false := by
  have hspelling := Lexeme.holds_of_mem_table
    (fun _ spelling => !spelling.toList.isEmpty && spelling.toList.head? != some '"' &&
      spelling.toList.tail.all fun d => !isStop d) (by decide) h
  simp only [Bool.and_eq_true, Bool.not_eq_true', List.isEmpty_eq_false_iff, bne_iff_ne, ne_eq] at hspelling
  obtain ⟨⟨hne, hhead⟩, htail⟩ := hspelling
  obtain ⟨c, tail, htext⟩ := List.exists_cons_of_ne_nil hne
  rw [htext] at hhead htail
  exact ⟨c, tail, htext, fun hc => hhead (congrArg some hc), by simpa using htail⟩

theorem matchLength?_comment_lineFeed (text rest : List Char) :
    comment.matchLength? (text ++ '\n' :: rest) = comment.matchLength? text := by
  have hnone : ∀ text : List Char, (∀ inner, text ≠ '/' :: '/' :: inner) → comment.matchLength? text = none := by
    intro text htext
    rw [Option.eq_none_iff_forall_ne_some]
    intro count hcount
    obtain ⟨inner, hcons, -⟩ := matchLength?_comment hcount
    exact htext inner hcons
  match text with
  | [] => rw [hnone _ (by simp), hnone _ (by simp)]
  | [c] => rw [hnone _ (by simp), hnone _ (by simp)]
  | c :: d :: text =>
    by_cases hslashes : c = '/' ∧ d = '/'
    · obtain ⟨rfl, rfl⟩ := hslashes
      show some (((text ++ '\n' :: rest).takeWhile (· != '\n')).length + 2) = _
      rw [takeWhile_stop (by decide)]
      rfl
    · have hother : ∀ tail inner : List Char, c :: d :: tail ≠ '/' :: '/' :: inner := by
        intro tail inner hcons
        exact hslashes ⟨(List.cons.inj hcons).1, (List.cons.inj (List.cons.inj hcons).2).1⟩
      exact (hnone _ (hother _)).trans (hnone _ (hother _)).symm

/-- **What a pattern takes ends before a blank, a slash or a quote**, except for blanks, strings and comments. -/
theorem matchLength?_stop {pattern : Pattern} (hpattern : pattern ∈ table) (hcomment : pattern ≠ comment) {c : Char}
    (hquote : c ≠ '"') (hblank : Text.isBlank c = false) {stop : Char} (hstop : isStop stop = true)
    (text rest : List Char) :
    pattern.matchLength? (c :: text ++ stop :: rest) = pattern.matchLength? (c :: text) := by
  cases pattern with
  | word =>
    show (if isWordStart c = true then some (wordTail (text ++ stop :: rest) + 1) else none) = _
    rw [wordTail_stop hstop]
    rfl
  | integer =>
    rw [matchLength?, matchLength?, runLength?, runLength?, takeWhile_stop (not_part_of_isStop hstop).2.2.1]
  | blank =>
    have hnone : ∀ tail : List Char, runLength? Text.isBlank (c :: tail) = none := by
      intro tail
      rw [runLength?, List.takeWhile_cons_of_neg (by simp [hblank])]
      rfl
    exact (hnone _).trans (hnone _).symm
  | string =>
    have hnone : ∀ tail : List Char, string.matchLength? (c :: tail) = none := by
      intro tail
      rw [Option.eq_none_iff_forall_ne_some]
      intro count hcount
      obtain ⟨inner, hcons, -⟩ := matchLength?_string hcount
      exact hquote (List.cons.inj hcons).1
    exact (hnone _).trans (hnone _).symm
  | comment => exact absurd rfl hcomment
  | fixed kind sign spelling =>
    obtain rfl := sign_eq_spelling hpattern
    obtain ⟨d, tail, hspelling, -, htail⟩ := fixed_spelling hpattern
    have hfree : stop ∉ tail := fun hmem => Bool.false_ne_true ((htail stop hmem).symm.trans hstop)
    rw [matchLength?, matchLength?, hspelling, List.cons_append, List.isPrefixOf, List.isPrefixOf,
      isPrefixOf_stop hfree]

/-- **What a pattern takes ends with the line**, except for blanks and strings. -/
theorem matchLength?_lineFeed {pattern : Pattern} (hpattern : pattern ∈ table) {c : Char} (hquote : c ≠ '"')
    (hblank : Text.isBlank c = false) (text rest : List Char) :
    pattern.matchLength? (c :: text ++ '\n' :: rest) = pattern.matchLength? (c :: text) := by
  by_cases hcomment : pattern = comment
  · rw [hcomment]
    exact matchLength?_comment_lineFeed (c :: text) rest
  · exact matchLength?_stop hpattern hcomment hquote hblank (by decide) text rest

/-- A pattern takes no more than there is. -/
theorem matchLength?_le {pattern : Pattern} (hpattern : pattern ∈ table) {text : List Char} {count : Nat}
    (h : pattern.matchLength? text = some count) : count ≤ text.length := by
  have hrun : ∀ p : Char → Bool, runLength? p text = some count → count ≤ text.length := by
    intro p hp
    unfold runLength? at hp
    split at hp
    · cases hp
    · cases hp
      exact (List.takeWhile_prefix p).length_le
  cases pattern with
  | word =>
    cases text with
    | nil => cases h
    | cons c text =>
      rw [matchLength?] at h
      split at h
      · cases h
        exact Nat.succ_le_succ (wordTail_le text)
      · cases h
  | integer => exact hrun Char.isDigit h
  | blank => exact hrun Text.isBlank h
  | string =>
    obtain ⟨rest, rfl, hquote, rfl⟩ := matchLength?_string h
    obtain ⟨after, hafter⟩ := exists_after_quote hquote
    have hlength := congrArg List.length hafter
    simp only [List.length_append, List.length_cons] at hlength ⊢
    omega
  | comment =>
    obtain ⟨rest, rfl, rfl⟩ := matchLength?_comment h
    have hlength := (List.takeWhile_prefix (l := rest) (· != '\n')).length_le
    simp only [List.length_cons]
    omega
  | fixed kind sign spelling =>
    obtain rfl := sign_eq_spelling hpattern
    rw [matchLength?] at h
    split at h
    · next hprefix =>
      cases h
      exact (List.isPrefixOf_iff_prefix.mp hprefix).length_le
    · cases h

/-- The patterns that match where a quote stands: only a string does, and only if the quote is closed. -/
theorem first?_quote {text : List Char} (h : first? ('"' :: text) ≠ none) :
    '"' ∈ text ∧ first? ('"' :: text) = some (string, (text.takeWhile (· != '"')).length + 2) := by
  obtain ⟨⟨pattern, count⟩, hfirst⟩ := Option.ne_none_iff_exists'.1 h
  obtain ⟨hmem, hmatch⟩ := first?_eq_some hfirst
  cases pattern with
  | string =>
    obtain ⟨inner, hcons, hquote, rfl⟩ := matchLength?_string hmatch
    obtain rfl := (List.cons.inj hcons).2
    exact ⟨hquote, hfirst⟩
  | comment =>
    obtain ⟨inner, hcons, -⟩ := matchLength?_comment hmatch
    exact absurd (List.cons.inj hcons).1 (by decide)
  | fixed kind sign spelling =>
    obtain rfl := sign_eq_spelling hmem
    obtain ⟨c, tail, hspelling, hhead, -⟩ := fixed_spelling hmem
    rw [matchLength?, hspelling] at hmatch
    split at hmatch
    · next hprefix =>
      obtain ⟨rest, hrest⟩ := List.isPrefixOf_iff_prefix.mp hprefix
      exact absurd (List.cons.inj hrest).1 hhead
    · cases hmatch
  | word | integer | blank => cases hmatch

theorem first?_congr {text text' : List Char}
    (h : ∀ pattern ∈ table, pattern.matchLength? text = pattern.matchLength? text') : first? text = first? text' := by
  unfold first?
  generalize table = patterns at h
  induction patterns with
  | nil => rfl
  | cons pattern patterns ih =>
    rw [List.findSome?_cons, List.findSome?_cons, h pattern List.mem_cons_self,
      ih fun other hother => h other (List.mem_cons_of_mem _ hother)]

/-- **The first pattern that matches** is the same with a line feed behind the text, unless blanks are read or an open
quote. -/
theorem first?_lineFeed {c : Char} {text : List Char} (hblank : Text.isBlank c = false)
    (hsome : first? (c :: text) ≠ none) (rest : List Char) :
    first? (c :: text ++ '\n' :: rest) = first? (c :: text) := by
  by_cases hquote : c = '"'
  · subst hquote
    obtain ⟨hmem, hfirst⟩ := first?_quote hsome
    have hmatch : string.matchLength? ('"' :: (text ++ '\n' :: rest)) =
        some ((text.takeWhile (· != '"')).length + 2) := by
      rw [matchLength?, if_pos (by simp [hmem]), takeWhile_append_of_mem hmem (by decide)]
    rw [hfirst]
    refine first?_of_table [word, integer, blank] rfl ?_ hmatch
    intro other hother
    simp only [List.mem_cons, List.not_mem_nil, or_false] at hother
    rcases hother with rfl | rfl | rfl <;> rfl
  · exact first?_congr fun pattern hpattern => matchLength?_lineFeed hpattern hquote hblank text rest

theorem first?_blank {c : Char} (hblank : Text.isBlank c = true) (text : List Char) :
    first? (c :: text) = some (blank, (text.takeWhile Text.isBlank).length + 1) := by
  obtain ⟨hstart, hdigit⟩ := not_start_of_isBlank hblank
  have hmatch : blank.matchLength? (c :: text) = some ((text.takeWhile Text.isBlank).length + 1) := by
    rw [matchLength?, runLength?, List.takeWhile_cons_of_pos hblank]
    rfl
  refine first?_of_table [word, integer] rfl ?_ hmatch
  intro other hother
  simp only [List.mem_cons, List.not_mem_nil, or_false] at hother
  rcases hother with rfl | rfl
  · rw [matchLength?, hstart]
    rfl
  · rw [matchLength?, runLength?, List.takeWhile_cons_of_neg (by simp [hdigit])]
    rfl

end Pattern

/-! ### What is read next -/

theorem Lexeme.atStart_append {c : Char} {text rest : List Char}
    (h : first? (c :: text ++ rest) = first? (c :: text)) : atStart c (text ++ rest) = atStart c text := by
  rw [atStart, atStart, ← List.cons_append, h]
  cases hfirst : first? (c :: text) with
  | none => rfl
  | some found =>
    obtain ⟨hpattern, hmatch⟩ := first?_eq_some hfirst
    have hcount := matchLength?_le hpattern hmatch
    simp only
    rw [List.take_append_of_le_length hcount]

theorem Lexeme.atStart_lineFeed {c : Char} {text : List Char} (hblank : Text.isBlank c = false)
    (hlegal : (atStart c text).pattern ≠ none) (rest : List Char) :
    atStart c (text ++ '\n' :: rest) = atStart c text := by
  refine atStart_append (first?_lineFeed hblank (fun hnone => ?_) rest)
  rw [atStart, hnone] at hlegal
  exact hlegal rfl

/-- The lexemes of a text with more behind it, if the first of them stays what it is. -/
theorem lexemes_append {c : Char} {text after rest : List Char}
    (htext : c :: text = (Lexeme.atStart c text).text ++ after) (hne : (Lexeme.atStart c text).text ≠ [])
    (hsame : Lexeme.atStart c (text ++ rest) = Lexeme.atStart c text) :
    lexemes (c :: (text ++ rest)) = Lexeme.atStart c text :: lexemes (after ++ rest) := by
  rw [← hsame]
  apply lexemes_cons
  · rw [hsame, ← List.cons_append, htext, List.append_assoc]
  · rwa [hsame]

/-! ### Tokens and their places -/

theorem lexemes_blank {c : Char} (hblank : Text.isBlank c = true) (text : List Char) :
    lexemes (c :: text) =
      ⟨some .blank, c :: text.takeWhile Text.isBlank⟩ :: lexemes (text.dropWhile Text.isBlank) := by
  have hsplit : c :: text = (c :: text.takeWhile Text.isBlank) ++ text.dropWhile Text.isBlank := by
    rw [List.cons_append, List.takeWhile_append_dropWhile]
  have hfirst := first?_blank hblank text
  rw [hsplit] at hfirst ⊢
  exact lexemes_of_first? (List.cons_ne_nil _ _) hfirst

theorem placeTokens_dropBlanks (file : String) (offset : Nat) (text : List Char) :
    placeTokens file (offset + Text.byteSize (text.takeWhile Text.isBlank))
      (lexemes (text.dropWhile Text.isBlank)) = placeTokens file offset (lexemes text) := by
  cases text with
  | nil => rfl
  | cons c text =>
    cases hblank : Text.isBlank c with
    | true => simp [lexemes_blank hblank, hblank, placeTokens, Lexeme.token?]
    | false => simp [hblank]

/-- A blank in front of a text only moves its tokens. -/
theorem placeTokens_blank (file : String) (offset : Nat) {c : Char} (hblank : Text.isBlank c = true)
    (text : List Char) :
    placeTokens file offset (lexemes (c :: text)) = placeTokens file (offset + c.utf8Size) (lexemes text) := by
  rw [lexemes_blank hblank, ← placeTokens_dropBlanks file (offset + c.utf8Size) text]
  simp [placeTokens, Lexeme.token?, Nat.add_assoc]

theorem wordsOf_blank {c : Char} (hblank : Text.isBlank c = true) (text : List Char) :
    wordsOf (c :: text) = wordsOf text := by
  rw [wordsOf, wordsOf, ← map_placeTokens "" 0, placeTokens_blank "" 0 hblank, map_placeTokens]

/-- **The tokens of two texts with a line feed in between** are those of the first text and those of the second one,
provided that the first one has no stray character.  The induction is on the first text, one lexeme after the other. -/
theorem placeTokens_lineFeed (file : String) (offset : Nat) {first : List Char}
    (hlegal : ∀ word ∈ wordsOf first, word.1 ≠ .illegal) (rest : List Char) :
    placeTokens file offset (lexemes (first ++ '\n' :: rest)) =
      placeTokens file offset (lexemes first) ++
        placeTokens file (offset + Text.byteSize first + 1) (lexemes rest) := by
  induction hlength : first.length using Nat.strongRecOn generalizing first offset with
  | ind length ih =>
    cases first with
    | nil => exact placeTokens_blank file offset (by decide) rest
    | cons c text =>
      cases hblank : Text.isBlank c with
      | true =>
        have hrest := ih text.length (by rw [← hlength]; exact Nat.lt_succ_self _) (offset + c.utf8Size)
          (wordsOf_blank hblank text ▸ hlegal) rfl
        rw [List.cons_append, placeTokens_blank file offset hblank, placeTokens_blank file offset hblank, hrest,
          Text.byteSize_cons, Nat.add_assoc offset]
      | false =>
        obtain ⟨after, htext, hne, -⟩ := Lexeme.exists_atStart c text
        have hcons := lexemes_cons htext hne
        have hpattern : (Lexeme.atStart c text).pattern ≠ none := by
          intro hnone
          have htoken : (Lexeme.atStart c text).token? =
              some (.illegal, String.ofList (Lexeme.atStart c text).text) := by
            simp [Lexeme.token?, hnone]
          exact hlegal _ (by rw [wordsOf, hcons, List.filterMap_cons_some htoken]; exact List.mem_cons_self) rfl
        have hcons' := lexemes_append htext hne (Lexeme.atStart_lineFeed hblank hpattern rest)
        have hlegal' : ∀ word ∈ wordsOf after, word.1 ≠ .illegal := by
          intro word hword
          apply hlegal word
          rw [wordsOf, hcons, ← List.singleton_append, List.filterMap_append]
          exact List.mem_append_right _ hword
        have hshorter : after.length < length := by
          rw [← hlength, htext, List.length_append]
          have := List.length_pos_iff.mpr hne
          omega
        have hrest := ih after.length hshorter (offset + Text.byteSize (Lexeme.atStart c text).text) hlegal' rfl
        have hsize : Text.byteSize (c :: text) = Text.byteSize (Lexeme.atStart c text).text + Text.byteSize after := by
          rw [htext, Text.byteSize_append]
        rw [List.cons_append, hcons', hcons, placeTokens, placeTokens, hrest, hsize, Nat.add_assoc offset]
        cases (Lexeme.atStart c text).token? <;> rfl

/-! ### Texts that start further on -/

/-- The position `count` bytes further on. -/
def Position.forward (count : Nat) (position : Position) : Position :=
  { position with offset := position.offset + UInt32.ofNat count }

theorem Position.forward_ofNat (count offset : Nat) (file : String) :
    (⟨UInt32.ofNat offset, file⟩ : Position).forward count = ⟨UInt32.ofNat (count + offset), file⟩ := by
  rw [forward, Nat.add_comm, UInt32.ofNat_add]

/-- The tokens of a text that starts further on. -/
theorem placeTokens_add (file : String) (count offset : Nat) (lexemes : List Lexeme) :
    placeTokens file (count + offset) lexemes =
      (placeTokens file offset lexemes).map (Token.relocate (Position.forward count)) := by
  induction lexemes generalizing offset with
  | nil => rfl
  | cons lexeme lexemes ih =>
    have hspan : ∀ size, Span.ofBytes file (count + offset) size =
        (Span.ofBytes file offset size).relocate (Position.forward count) := by
      intro size
      rw [Span.relocate, Span.ofBytes, Span.ofBytes, Position.forward_ofNat, Position.forward_ofNat, Nat.add_assoc]
    rw [placeTokens, placeTokens, Nat.add_assoc, ih, hspan]
    cases lexeme.token? <;> rfl

end GoScript
