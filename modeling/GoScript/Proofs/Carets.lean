import GoScript.Error.Report
import GoScript.Proofs.LineLookup
import GoScript.Proofs.Spacing
import GoScript.Proofs.StrayCharacters

/-!
# Carets

The report of an error shows the line that the error is on, without the blanks around it, and a caret on the line below.
The caret is moved to the right by one character for each byte before the place of the error.

* `Text.Place.gutter`, `Text.Place.shown`, `Text.Place.pointer` — the number of a line, the line, and what stands before
  the caret below it
* `Error.lines_report` — the last two lines of a report
* `exists_of_mem_placeTokens` — where a token stands in the text
* `exists_shown` — what stands before a token on the line that is shown
* `caret_under_token` — when the caret stands under the token
-/

namespace GoScript

open Text

/-! ### Bytes and characters -/

theorem length_le_byteSize (text : List Char) : text.length ≤ byteSize text := by
  induction text with
  | nil => exact Nat.le_refl 0
  | cons c text ih =>
    have := c.utf8Size_pos
    rw [List.length_cons, byteSize_cons]
    omega

/-- A text has as many characters as bytes if each of them takes one. -/
theorem byteSize_eq_length {text : List Char} : byteSize text = text.length ↔ ∀ c ∈ text, c.utf8Size = 1 := by
  induction text with
  | nil => simp
  | cons c text ih =>
    have hc := c.utf8Size_pos
    have hle := length_le_byteSize text
    rw [byteSize_cons, List.length_cons, List.forall_mem_cons, ← ih]
    omega

/-- Of two fronts of a text the one with fewer bytes is a front of the other. -/
theorem prefix_of_byteSize_le {front other text : List Char} (hfront : front <+: text) (hother : other <+: text)
    (hle : byteSize front ≤ byteSize other) : front <+: other := by
  rcases List.prefix_or_prefix_of_prefix hfront hother with h | ⟨back, rfl⟩
  · exact h
  · rw [byteSize_append] at hle
    have hback : back = [] := by
      have := length_le_byteSize back
      exact List.eq_nil_of_length_eq_zero (by omega)
    exact ⟨[], by rw [hback, List.append_nil, List.append_nil]⟩

/-! ### The last two lines of a report -/

/-- The blanks that are left out at the start of a line. -/
def isMargin (c : Char) : Bool :=
  c == ' ' || c == '\t'

theorem isBlank_of_isMargin {c : Char} (h : isMargin c = true) : isBlank c = true ∧ c.utf8Size = 1 := by
  rcases (Bool.or_eq_true _ _).mp h with h | h
  all_goals
    rw [eq_of_beq h]
    decide

theorem drop_length_takeWhile {α : Type} (p : α → Bool) (list : List α) :
    list.drop (list.takeWhile p).length = list.dropWhile p := by
  conv => lhs; arg 2; rw [← List.takeWhile_append_dropWhile (p := p) (l := list)]
  exact List.drop_left

namespace Text.Place

/-- The number of a line, as it stands in front of the line. -/
def gutter (place : Place) : List Char :=
  (toString place.line).toList ++ [' ', '|', ' ']

/-- What is shown of a line. -/
def shown (place : Place) : List Char :=
  trimEnd (place.text.dropWhile isMargin)

/-- What stands before the caret. -/
def pointer (place : Place) : List Char :=
  List.replicate ((toString place.line).length + 1) ' ' ++ ['|', ' '] ++
    List.replicate (place.column - (place.text.takeWhile isMargin).length) '-'

theorem length_pointer (place : Place) :
    place.pointer.length = place.gutter.length + (place.column - (place.text.takeWhile isMargin).length) := by
  simp only [pointer, gutter, List.length_append, List.length_replicate, List.length_cons, List.length_nil,
    String.length_toList]

theorem not_mem_pointer (place : Place) {c : Char} (h : c ∉ [' ', '|', '-']) : c ∉ place.pointer := by
  simp only [List.mem_cons, List.not_mem_nil, or_false, not_or] at h
  simp [pointer, List.mem_replicate, h]

theorem feed_not_mem_gutter (place : Place) : '\n' ∉ place.gutter := by
  intro hmem
  rcases List.mem_append.mp hmem with hdigit | hother
  · rw [Nat.toString_eq_ofList_toDigits, String.toList_ofList] at hdigit
    exact absurd (Nat.isDigit_of_mem_toDigits (by decide) (by decide) hdigit) (by decide)
  · exact absurd hother (by decide)

/-- What is shown of a line that is followed by line feeds. -/
theorem shown_of_feeds {place : Place} {body feeds : List Char} (htext : place.text = body ++ feeds)
    (hfeeds : ∀ c ∈ feeds, c = '\n') : place.shown = trimEnd (body.dropWhile isMargin) := by
  have hblank : ∀ c ∈ feeds, isBlank c = true := fun c hc => hfeeds c hc ▸ by decide
  have hdrop : feeds.dropWhile isMargin = feeds := by
    cases feeds with
    | nil => rfl
    | cons feed rest => exact List.dropWhile_cons_of_neg (hfeeds feed List.mem_cons_self ▸ by decide)
  have hmargin : (body ++ feeds).dropWhile isMargin = body.dropWhile isMargin ++ feeds := by
    rw [List.dropWhile_append, hdrop]
    split
    · next hempty => rw [List.isEmpty_iff.mp hempty, List.nil_append]
    · rfl
  rw [shown, htext, hmargin]
  exact dropEndWhile_append_of_all hblank

end Text.Place

/-- A line is a text without line feeds and the line feed that ends it. -/
theorem exists_of_mem_pieces {text line : List Char} (h : line ∈ pieces text) :
    ∃ body feeds, line = body ++ feeds ∧ '\n' ∉ body ∧ ∀ c ∈ feeds, c = '\n' := by
  induction text using linesInduction with
  | nil => cases h
  | last text hne htext =>
    rw [pieces_last htext hne, List.mem_singleton] at h
    exact ⟨text, [], by rw [h, List.append_nil], htext, by simp⟩
  | line first rest hfirst ih =>
    rw [pieces_line hfirst, List.mem_cons] at h
    rcases h with rfl | h
    · exact ⟨first, ['\n'], rfl, hfirst, by simp⟩
    · exact ih h

/-- The text of a place is one line with line feeds at its end. -/
theorem exists_text_of_locate (text : List Char) (offset : Nat) :
    ∃ body feeds, (locate text offset).text = body ++ feeds ∧ '\n' ∉ body ∧ ∀ c ∈ feeds, c = '\n' := by
  by_cases hoffset : offset < byteSize text
  · obtain ⟨index, -, hpiece, -⟩ := exists_of_locate hoffset
    exact exists_of_mem_pieces (List.mem_of_getElem? hpiece)
  · obtain ⟨before, last, feeds, -, -, hlast, hfeeds, -, hplace⟩ := locate_of_ge (Nat.le_of_not_lt hoffset)
    rw [hplace]
    exact ⟨last, feeds, rfl, hlast, hfeeds⟩

theorem feed_not_mem_shown (text : List Char) (offset : Nat) : '\n' ∉ (locate text offset).shown := by
  obtain ⟨body, feeds, htext, hbody, hfeeds⟩ := exists_text_of_locate text offset
  rw [Place.shown_of_feeds htext hfeeds]
  intro hmem
  exact hbody ((List.dropWhile_suffix _).subset ((dropEndWhile_isPrefix isBlank _).subset hmem))

/-- The line that is shown ends in no blank but the one behind its number. -/
theorem dropLineEnd_shown (place : Place) :
    dropLineEnd (place.gutter ++ place.shown ++ ['\n']) = place.gutter ++ place.shown := by
  rcases eq_dropLineEnd_feed (place.gutter ++ place.shown) with heq | heq
  · exact heq.symm
  · have hlast : (place.gutter ++ place.shown).getLast? = some '\r' := by rw [heq, List.getLast?_concat]
    rw [List.getLast?_append] at hlast
    by_cases hempty : place.shown = []
    · simp [hempty, Place.gutter] at hlast
    · have hblank : ¬ isBlank (place.shown.getLast hempty) = true := List.rdropWhile_last_not isBlank _ hempty
      rw [List.getLast?_eq_some_getLast hempty, Option.some_or] at hlast
      rw [Option.some.inj hlast] at hblank
      exact absurd (by decide) hblank

theorem endsLine_append_feed (text : String) : EndsLine (text ++ "\n").toList := by
  intro c hc
  rw [String.toList_append] at hc
  have hlast : (text.toList ++ ['\n']).getLast? = some c := hc
  rw [List.getLast?_concat] at hlast
  exact (Option.some.inj hlast).symm

theorem toList_padLeft (fill : Char) (width : Nat) (text : String) :
    (padLeft fill width text).toList = List.replicate (width - text.length) fill ++ text.toList := by
  rw [padLeft, String.toList_append, String.toList_ofList]

/-- The lines of a report below its head. -/
theorem toList_lastLines (head : String) (place : Place) :
    (head ++ "\n" ++ toString place.line ++ " | " ++
        String.ofList (trimEnd (place.text.drop (place.text.takeWhile isMargin).length)) ++ "\n" ++
        padLeft ' ' ((toString place.line).length + 2) "|" ++ " " ++
        padLeft '-' (place.column - (place.text.takeWhile isMargin).length + 1) "^" ++ "\n").toList =
      (head ++ "\n").toList ++ (place.gutter ++ place.shown ++ '\n' :: (place.pointer ++ ['^'] ++ ['\n'])) := by
  have hbar : (toString place.line).length + 2 - "|".length = (toString place.line).length + 1 := rfl
  have hdashes : ∀ count : Nat, count + 1 - "^".length = count := fun count => rfl
  simp only [String.toList_append, String.toList_ofList, toList_padLeft, hbar, hdashes, drop_length_takeWhile,
    Place.gutter, Place.shown, Place.pointer, List.append_assoc]
  rfl

/-- The report of an error ends with the line that the error is on and the line with the caret. -/
theorem Error.report_eq {error : Error} (h : error.cause.category ≠ .resource) (source file : String) :
    ∃ above, EndsLine above ∧ (error.report source file).toList =
      above ++ ((locate source.toList error.position.offset.toNat).gutter ++
        (locate source.toList error.position.offset.toNat).shown ++ '\n' ::
        ((locate source.toList error.position.offset.toNat).pointer ++ ['^'] ++ ['\n'])) := by
  rw [Error.report, if_neg h]
  exact ⟨_, endsLine_append_feed _, toList_lastLines _ _⟩

/-- **The last two lines of a report** are the line that the error is on and the line with the caret. -/
theorem Error.lines_report {error : Error} (h : error.cause.category ≠ .resource) (source file : String) :
    ∃ above, lines (error.report source file).toList =
      above ++ [(locate source.toList error.position.offset.toNat).gutter ++
          (locate source.toList error.position.offset.toNat).shown,
        (locate source.toList error.position.offset.toNat).pointer ++ ['^']] := by
  obtain ⟨above, habove, hreport⟩ := error.report_eq h source file
  have hfeed := feed_not_mem_shown source.toList error.position.offset.toNat
  rw [hreport]
  generalize locate source.toList error.position.offset.toNat = place at hfeed ⊢
  have hline : '\n' ∉ place.gutter ++ place.shown := by
    rw [List.mem_append, not_or]
    exact ⟨place.feed_not_mem_gutter, hfeed⟩
  have hcaret : '\n' ∉ place.pointer ++ ['^'] := by
    rw [List.mem_append, not_or]
    exact ⟨place.not_mem_pointer (by decide), by decide⟩
  have hlast : dropLineEnd (place.pointer ++ ['^'] ++ ['\n']) = place.pointer ++ ['^'] := by
    rw [dropLineEnd, List.append_assoc, List.reverse_append]
    simp
  rw [lines, pieces_append habove, pieces_line hline, pieces_line hcaret]
  refine ⟨(pieces above).map dropLineEnd, ?_⟩
  rw [List.map_append, List.map_cons, dropLineEnd_shown, List.map_cons, hlast]
  rfl

/-! ### Tokens in the text -/

/-- Nothing that is read as a token starts with a blank. -/
theorem isBlank_of_token {c : Char} {rest : List Char} {word : Word} (h : (Lexeme.atStart c rest).token? = some word) :
    isBlank c = false := by
  by_contra hblank
  rw [Bool.not_eq_false] at hblank
  rw [Lexeme.atStart, Pattern.first?_blank hblank] at h
  cases h

/-- **Where a token stands.**  Its start is the number of bytes before it, and it starts with a character that is not
blank. -/
theorem exists_of_mem_placeTokens {file : String} {text : List Char} {token : Token} {offset : Nat}
    (h : token ∈ placeTokens file offset (lexemes text)) :
    ∃ front c back, text = front ++ c :: back ∧ isBlank c = false ∧
      (spelling token.kind token.value).toList <+: c :: back ∧ (spelling token.kind token.value).toList ≠ [] ∧
      token.span.start = ⟨UInt32.ofNat (offset + byteSize front), file⟩ := by
  induction text using lexemesInduction generalizing offset with
  | nil => cases h
  | lexeme c rest after htext hne hread _ hlexemes ih =>
    rw [hlexemes, placeTokens] at h
    -- what is read later stands behind what is read now
    have later (hmem : token ∈ placeTokens file (offset + byteSize (Lexeme.atStart c rest).text) (lexemes after)) :
        ∃ front d back, c :: rest = front ++ d :: back ∧ isBlank d = false ∧
          (spelling token.kind token.value).toList <+: d :: back ∧ (spelling token.kind token.value).toList ≠ [] ∧
          token.span.start = ⟨UInt32.ofNat (offset + byteSize front), file⟩ := by
      obtain ⟨front, d, back, rfl, hblank, hprefix, hspelling, hstart⟩ := ih hmem
      refine ⟨(Lexeme.atStart c rest).text ++ front, d, back, ?_, hblank, hprefix, hspelling, ?_⟩
      · rw [htext, List.append_assoc]
      · rw [hstart, byteSize_append, Nat.add_assoc]
    cases hword : (Lexeme.atStart c rest).token? with
    | none =>
      rw [hword] at h
      exact later h
    | some word =>
      rw [hword] at h
      rcases List.mem_cons.mp h with rfl | hmem
      · have hspelling := hread.text_eq hword
        refine ⟨[], c, rest, rfl, isBlank_of_token hword, ?_, ?_, rfl⟩
        · rw [← hspelling, htext]
          exact List.prefix_append _ _
        · rwa [← hspelling]
      · exact later hmem

/-! ### What stands before a token -/

/-- On the line of byte `offset`, `left` stands between the blanks at the start of the line and this byte, and `rest`
from there on. -/
def StandsAt (text : List Char) (offset : Nat) (left rest : List Char) : Prop :=
  ∃ earlier margin, text = earlier ++ (margin ++ (left ++ rest)) ∧ EndsLine earlier ∧ '\n' ∉ margin ++ left ∧
    (∀ c ∈ margin, isMargin c = true) ∧ (∀ c ∈ left.head?, isMargin c = false) ∧
    byteSize (earlier ++ (margin ++ left)) = offset

theorem dropWhile_stop {p : Char → Bool} {stop : Char} (hp : p stop = false) (text rest : List Char) :
    (text ++ stop :: rest).dropWhile p = text.dropWhile p ++ stop :: rest := by
  rw [List.dropWhile_append, List.dropWhile_cons_of_neg (by simp [hp])]
  split
  · next hempty => rw [List.isEmpty_iff.mp hempty, List.nil_append]
  · rfl

theorem byteSize_margin {text : List Char} : byteSize (text.takeWhile isMargin) = (text.takeWhile isMargin).length :=
  byteSize_eq_length.mpr fun _ hc =>
    (isBlank_of_isMargin (List.all_eq_true.mp List.all_takeWhile _ hc)).2

/-- The lines before another line end with a line feed. -/
theorem endsLine_flatten {text : List Char} {before after : List (List Char)} {line : List Char}
    (h : pieces text = before ++ line :: after) : EndsLine before.flatten := by
  induction text using linesInduction generalizing before with
  | nil =>
    cases before <;> cases h
  | last text hne htext =>
    rw [pieces_last htext hne] at h
    cases before with
    | nil => exact nofun
    | cons first rest => simp at h
  | line first rest hfirst ih =>
    rw [pieces_line hfirst] at h
    cases before with
    | nil => exact nofun
    | cons piece others =>
      obtain ⟨rfl, hothers⟩ := List.cons.inj h
      have hlater := ih hothers
      rw [List.flatten_cons, List.append_assoc, List.singleton_append]
      exact hlater.line first

/-- **What stands before a token on the line that is shown.**  The caret is moved by the bytes of it. -/
theorem exists_shown {text front back : List Char} {c : Char} (htext : text = front ++ c :: back)
    (hc : isBlank c = false) : ∃ left more,
      StandsAt text (byteSize front) left (c :: back) ∧ (locate text (byteSize front)).shown = left ++ more ∧
      more ≠ [] ∧ more <+: c :: back ∧
      (locate text (byteSize front)).pointer.length =
        (locate text (byteSize front)).gutter.length + byteSize left := by
  have hlt : byteSize front < byteSize text := by
    have := c.utf8Size_pos
    rw [htext, byteSize_append, byteSize_cons]
    omega
  have hmargin : isMargin c = false := by
    by_contra h
    rw [(isBlank_of_isMargin (Bool.not_eq_false _ ▸ h)).1] at hc
    cases hc
  obtain ⟨before, after, hpieces, -, hoffset, hcolumn⟩ := exists_of_findPlace (findPlace_of_lt hlt) (Nat.zero_le _)
  generalize locate text (byteSize front) = place at hpieces hoffset hcolumn ⊢
  rw [Nat.zero_add] at hoffset
  have hflat : text = before.flatten ++ (place.text ++ after.flatten) := by
    rw [← flatten_pieces text, hpieces, List.flatten_append, List.flatten_cons]
  -- the lines before the place are in front of the token, and the token starts on the line of the place
  obtain ⟨start, rfl⟩ : before.flatten <+: front :=
    prefix_of_byteSize_le ⟨_, hflat.symm⟩ ⟨_, htext.symm⟩ (by omega)
  have hstart : byteSize start = place.column := by
    rw [byteSize_append] at hoffset
    omega
  have hrest : start ++ c :: back = place.text ++ after.flatten := by
    rw [htext, List.append_assoc] at hflat
    exact List.append_cancel_left hflat
  obtain ⟨tail, hline⟩ : start <+: place.text :=
    prefix_of_byteSize_le ⟨_, rfl⟩ ⟨_, hrest.symm⟩ (by omega)
  rw [← hline, List.append_assoc] at hrest
  have hback := List.append_cancel_left hrest
  cases tail with
  | nil =>
    rw [List.append_nil] at hline
    rw [← hline] at hcolumn
    omega
  | cons d tail =>
    obtain ⟨rfl, rfl⟩ := List.cons.inj hback
    have hne : trimEnd (c :: tail) ≠ [] := by
      intro hnil
      rw [dropEndWhile_eq_nil.mp hnil c List.mem_cons_self] at hc
      cases hc
    have hfeed : '\n' ∉ start := by
      obtain ⟨body, feeds, hplace, hbody, hfeeds⟩ :=
        exists_of_mem_pieces (hpieces ▸ List.mem_append_right before List.mem_cons_self)
      rcases List.append_eq_append_iff.mp (hline.trans hplace) with ⟨_, rfl, -⟩ | ⟨_, -, rfl⟩
      · exact fun hmem => hbody (List.mem_append_left _ hmem)
      · rw [hfeeds c (List.mem_append_right _ List.mem_cons_self)] at hc
        cases hc
    have hsplit : start.takeWhile isMargin ++ start.dropWhile isMargin = start := List.takeWhile_append_dropWhile
    refine ⟨start.dropWhile isMargin, trimEnd (c :: tail), ⟨before.flatten, start.takeWhile isMargin, ?_,
      endsLine_flatten hpieces, ?_, ?_, ?_, ?_⟩, ?_, hne, ?_, ?_⟩
    · rw [htext, ← List.append_assoc (start.takeWhile isMargin), hsplit, List.append_assoc]
    · rwa [hsplit]
    · exact fun d hd => List.all_eq_true.mp List.all_takeWhile d hd
    · intro d hd
      simpa [Option.mem_def.mp hd] using List.head?_dropWhile_not isMargin start
    · rw [hsplit]
    · rw [Place.shown, ← hline, dropWhile_stop hmargin]
      exact dropEndWhile_append_of_ne hne
    · exact (dropEndWhile_isPrefix isBlank _).trans (List.prefix_append (c :: tail) after.flatten)
    · have hsize := congrArg byteSize hsplit
      rw [byteSize_append, byteSize_margin] at hsize
      rw [Place.length_pointer, ← hline, takeWhile_stop hmargin]
      omega

/-- **What is shown of the line of the end.**  The caret is moved by the bytes of the line with the line feeds behind
it. -/
theorem length_pointer_end {text : List Char} {offset : Nat} (h : byteSize text ≤ offset) :
    (locate text offset).pointer.length =
      (locate text offset).gutter.length + byteSize ((locate text offset).text.dropWhile isMargin) := by
  obtain ⟨before, last, feeds, -, -, -, -, -, hplace⟩ := locate_of_ge h
  have hcolumn : (locate text offset).column = byteSize (locate text offset).text := by rw [hplace]
  have hsplit : (locate text offset).text.takeWhile isMargin ++ (locate text offset).text.dropWhile isMargin =
      (locate text offset).text := List.takeWhile_append_dropWhile
  have hsize := congrArg byteSize hsplit
  rw [byteSize_append, byteSize_margin] at hsize
  rw [Place.length_pointer, hcolumn]
  omega

/-- A text has no more bytes than some front of it has characters only if it is that front, with characters of one byte
each. -/
theorem byteSize_le_length_iff {front text : List Char} (h : front <+: text) :
    byteSize text ≤ front.length ↔ front = text ∧ ∀ c ∈ front, c.utf8Size = 1 := by
  have hlength := h.length_le
  have hle := length_le_byteSize text
  constructor
  · intro hsize
    obtain rfl := h.eq_of_length (by omega)
    exact ⟨rfl, byteSize_eq_length.mp (by omega)⟩
  · rintro ⟨rfl, hones⟩
    exact Nat.le_of_eq (byteSize_eq_length.mpr hones)

theorem category_of_inText {cause : Cause} (h : cause.inText = true) : cause.category ≠ .resource := by
  intro hresource
  obtain ⟨message, rfl⟩ := cause_of_resource hresource
  cases h

/-- **Where the caret stands.**  The report of an error that a parse ends with shows the line of the error, and below it
a line with a caret.  The error is at a token.  If it is not the end of the input, then the caret stands under its first
character if and only if each character between the margin of the line and the token takes one byte.  If it is, then the
caret stands no further than behind the last character that is shown if and only if nothing was cut off at the end of
the line and each character that is shown takes one byte. -/
theorem caret_under_token {source file : String} {error : Error} (hsize : source.utf8ByteSize < UInt32.size)
    (h : parse source file = .error error) (name : String) :
    let place := locate source.toList error.position.offset.toNat
    ∃ above pointer, lines (error.report source name).toList =
        above ++ [place.gutter ++ place.shown, pointer ++ ['^']] ∧ '^' ∉ pointer ∧
      ∃ token ∈ tokensOf source file, token.span.start = error.position ∧
        (token.kind ≠ .endOfInput → ∃ left rest more,
          StandsAt source.toList token.start left rest ∧ (spelling token.kind token.value).toList <+: rest ∧
          place.shown = left ++ more ∧ more ≠ [] ∧ more <+: rest ∧
          (pointer.length = (place.gutter ++ left).length ↔ ∀ c ∈ left, c.utf8Size = 1)) ∧
        (token.kind = .endOfInput →
          (pointer.length ≤ (place.gutter ++ place.shown).length ↔
            place.shown = place.text.dropWhile isMargin ∧ ∀ c ∈ place.shown, c.utf8Size = 1)) := by
  intro place
  obtain ⟨above, hlines⟩ := error.lines_report (category_of_inText (inText_of_parse_error h)) source name
  obtain ⟨token, htoken, hposition⟩ := (complaint_of_parse_error h).position
  refine ⟨above, place.pointer, hlines, place.not_mem_pointer (by decide), token, htoken, hposition.symm, ?_, ?_⟩
  · intro hkind
    have hscan : token ∈ scan file source.toList := by
      rcases List.mem_append.mp htoken with hscan | hend
      · exact hscan
      · rw [List.mem_singleton.mp hend] at hkind
        exact absurd rfl hkind
    obtain ⟨front, c, back, hsource, hblank, hprefix, -, hstart⟩ := exists_of_mem_placeTokens hscan
    have hfront : token.start = byteSize front := by
      rw [utf8ByteSize_of_split hsource] at hsize
      rw [Token.start, hstart, Nat.zero_add]
      exact UInt32.toNat_ofNat_of_lt' (by omega)
    have hoffset : error.position.offset.toNat = byteSize front := by rw [hposition, ← hfront, Token.start]
    obtain ⟨left, more, hstands, hshown, hmore, hrest, hlength⟩ := exists_shown hsource hblank
    rw [← hoffset] at hshown hlength
    refine ⟨left, c :: back, more, hfront ▸ hstands, hprefix, hshown, hmore, hrest, ?_⟩
    rw [List.length_append, hlength, ← byteSize_eq_length]
    exact Nat.add_left_cancel_iff
  · intro hkind
    have hend : token.start = source.utf8ByteSize := by
      rcases List.mem_append.mp htoken with hscan | hend
      · exact absurd hkind (bounds_of_mem_scan hscan).1
      · rw [List.mem_singleton.mp hend, ← byteSize_toList]
        rw [← byteSize_toList] at hsize
        exact UInt32.toNat_ofNat_of_lt' hsize
    have hge : byteSize source.toList ≤ error.position.offset.toNat := by
      rw [byteSize_toList, hposition, ← hend, Token.start]
    rw [List.length_append, length_pointer_end hge, Nat.add_le_add_iff_left]
    exact byteSize_le_length_iff (dropEndWhile_isPrefix isBlank _)

/-- An accent between the margin and the token, and the end of the input behind a line feed. -/
theorem caret_under_token_accent :
    (∃ error, parse "\t\"é\" + @" "shell" = .error error ∧ ∃ above pointer left more,
      lines (error.report "\t\"é\" + @" "main.go").toList =
        above ++ ["1 | ".toList ++ (left ++ more), pointer ++ ['^']] ∧
      (pointer.length = ("1 | ".toList ++ left).length ↔ ∀ c ∈ left, c.utf8Size = 1)) ∧
    ∃ error, parse "x :=\n" "shell" = .error error ∧ ∃ above pointer,
      lines (error.report "x :=\n" "main.go").toList = above ++ ["1 | x :=".toList, pointer ++ ['^']] ∧
      ¬ pointer.length ≤ "1 | x :=".toList.length := by
  have hstray : parse "\t\"é\" + @" "shell" = .error ⟨.unrecognisedToken "@", ⟨8, "shell"⟩⟩ := by rfl
  have hend : parse "x :=\n" "shell" = .error ⟨.unexpectedToken "end of input", ⟨5, "shell"⟩⟩ := by rfl
  have hstrayKind : ∀ token ∈ tokensOf "\t\"é\" + @" "shell", token.span.start = ⟨8, "shell"⟩ →
      token.kind ≠ .endOfInput := by decide
  have hendKind : ∀ token ∈ tokensOf "x :=\n" "shell", token.span.start = ⟨5, "shell"⟩ →
      token.kind = .endOfInput := by decide
  constructor
  · obtain ⟨above, pointer, hlines, -, token, htoken, hstart, hinside, -⟩ :=
      caret_under_token (by decide) hstray "main.go"
    obtain ⟨left, _, more, -, -, hshown, -, -, hcaret⟩ := hinside (hstrayKind token htoken hstart)
    rw [hshown] at hlines
    exact ⟨_, hstray, above, pointer, left, more, hlines, hcaret⟩
  · obtain ⟨above, pointer, hlines, -, token, htoken, hstart, -, houtside⟩ :=
      caret_under_token (by decide) hend "main.go"
    refine ⟨_, hend, above, pointer, hlines, fun hle => ?_⟩
    exact absurd ((houtside (hendKind token htoken hstart)).mp hle).1 (by decide)

/-- A caret one character behind its token, since the accent before the token takes two bytes. -/
theorem caret_beside_token :
    parse "x := \"é\" @" "shell" = .error ⟨.unrecognisedToken "@", ⟨10, "shell"⟩⟩ ∧
      Error.report ⟨.unrecognisedToken "@", ⟨10, "shell"⟩⟩ "x := \"é\" @" "main.go" =
        "Error: UnrecognisedToken (Character `@` is not part of the language)\n" ++
        "   unrecognised token: \"@\"\n-> main.go\n  |\n1 | x := \"é\" @\n  | ----------^\n" :=
  ⟨by rfl, by rfl⟩

end GoScript
