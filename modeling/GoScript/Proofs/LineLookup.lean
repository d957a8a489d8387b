import GoScript.Proofs.Columns
import Mathlib.Algebra.GroupWithZero.Nat

/-!
# Looking up a line

The place of a byte offset is found by walking over the lines, and for an offset at the end by a separate count of the
line feeds.  Both ways number the lines alike: the lines before the place, together with the column, are all the bytes
before the offset.

* `Text.pieces_append`, `Text.length_pieces` — the lines of a text that ends with a line, and of what follows it
* `Text.locate_of_ge` — the place of the end: lines, the last line that holds something, and line feeds
* `Text.locate_splits` — the lines before a place, and the rest of the text
* `locate_offset` — the number, the text and the column of a place
-/

namespace GoScript.Text

/-! ### Lines before others -/

theorem EndsLine.of_line {line rest : List Char} (h : EndsLine (line ++ '\n' :: rest)) : EndsLine rest := by
  cases rest with
  | nil => exact fun _ hc => by cases hc
  | cons c rest => simpa [EndsLine] using h

theorem EndsLine.line {rest : List Char} (h : EndsLine rest) (line : List Char) : EndsLine (line ++ '\n' :: rest) := by
  cases rest with
  | nil => simp [EndsLine]
  | cons c rest => simpa [EndsLine] using h

theorem EndsLine.nil_of_not_mem {line : List Char} (h : EndsLine line) (hline : '\n' ∉ line) : line = [] := by
  by_contra hne
  have hlast := h _ (List.getLast?_eq_some_getLast hne)
  exact hline (hlast ▸ List.getLast_mem hne)

/-- Behind the end of a line the lines start anew. -/
theorem pieces_append {front : List Char} (h : EndsLine front) (back : List Char) :
    pieces (front ++ back) = pieces front ++ pieces back := by
  induction front using linesInduction with
  | nil => rfl
  | last line hne hline => exact absurd (h.nil_of_not_mem hline) hne
  | line line rest hline ih =>
    rw [List.append_assoc, List.cons_append, pieces_line hline, pieces_line hline, ih h.of_line, List.cons_append]

/-- A text that ends with a line has a line for each line feed. -/
theorem length_pieces {text : List Char} (h : EndsLine text) : (pieces text).length = text.count '\n' := by
  induction text using linesInduction with
  | nil => rfl
  | last line hne hline => exact absurd (h.nil_of_not_mem hline) hne
  | line line rest hline ih =>
    rw [pieces_line hline, List.length_cons, ih h.of_line, List.count_append, List.count_eq_zero.mpr hline,
      List.count_cons_self, Nat.zero_add]

/-- Line feeds are lines that hold nothing else. -/
theorem eq_feed_of_mem_pieces {text line : List Char} (h : ∀ c ∈ text, c = '\n') (hline : line ∈ pieces text) {c : Char}
    (hc : c ∈ line) : c = '\n' := by
  apply h
  rw [← flatten_pieces text]
  exact List.mem_flatten.mpr ⟨line, hline, hc⟩

theorem byteSize_flatten (lines : List (List Char)) : byteSize lines.flatten = (lines.map byteSize).sum := by
  induction lines with
  | nil => rfl
  | cons line rest ih => rw [List.flatten_cons, byteSize_append, ih, List.map_cons, List.sum_cons]

/-! ### The place of the end -/

/-- **The place of the end.**  It takes in the last line that holds something and all the line feeds behind it; if there
is no such line, it takes in the whole text. -/
theorem locate_of_ge {text : List Char} {offset : Nat} (h : byteSize text ≤ offset) : ∃ before last feeds,
    text = before ++ (last ++ feeds) ∧ EndsLine before ∧ '\n' ∉ last ∧ (∀ c ∈ feeds, c = '\n') ∧
      (last = [] → before = []) ∧
      locate text offset = ⟨before.count '\n' + 1, last ++ feeds, byteSize (last ++ feeds)⟩ := by
  obtain ⟨before, last, feeds, hbody, htext, hbefore, hlast, hfeeds, hplace⟩ := exists_endPlace (byteSize text) text
  refine ⟨before, last, feeds, htext, hbefore, hlast, hfeeds, ?_, ?_⟩
  · rintro rfl
    -- nothing ends in a line feed once the line feeds at its end are dropped
    rw [List.append_nil] at hbody
    by_contra hne
    have hfeed := hbefore _ (List.getLast?_eq_some_getLast hne)
    have hnot : ¬ ((dropEndWhile (· == '\n') text).getLast (hbody.symm ▸ hne) == '\n') = true :=
      List.rdropWhile_last_not (· == '\n') text _
    simp only [hbody] at hnot
    exact hnot (beq_iff_eq.mpr hfeed)
  · have hnone : findPlace (byteSize text) 1 0 (pieces text) = none := by
      rw [findPlace_eq_none (Nat.zero_le _), flatten_pieces, Nat.zero_add]
    rw [locate, Nat.min_eq_right h, hnone, Option.getD_none, hplace]
    congr 1
    rw [htext, byteSize_append, Nat.add_sub_cancel_left]

/-- The lines of a text whose last line that holds something is `last`. -/
theorem pieces_last_feeds {last feeds : List Char} (hlast : '\n' ∉ last) (hne : last ≠ [])
    (hfeeds : ∀ c ∈ feeds, c = '\n') : ∃ line rest, pieces (last ++ feeds) = line :: rest ∧
      (∃ c ∈ line, c ≠ '\n') ∧ ∀ later ∈ rest, ∀ c ∈ later, c = '\n' := by
  obtain ⟨c, hc⟩ := List.exists_mem_of_ne_nil last hne
  have hother : c ≠ '\n' := fun heq => hlast (heq ▸ hc)
  cases feeds with
  | nil =>
    rw [List.append_nil, pieces_last hlast hne]
    exact ⟨last, [], rfl, ⟨c, hc, hother⟩, by simp⟩
  | cons feed feeds =>
    obtain rfl := hfeeds feed List.mem_cons_self
    rw [pieces_line hlast]
    refine ⟨_, _, rfl, ⟨c, List.mem_append_left _ hc, hother⟩, fun later hlater d hd => ?_⟩
    exact eq_feed_of_mem_pieces (fun e he => hfeeds e (List.mem_cons_of_mem _ he)) hlater hd

/-! ### The lines before a place -/

/-- **The lines before a place** and the column are the bytes before the offset, and the text of the place is what comes
next. -/
theorem locate_splits (text : List Char) (offset : Nat) : ∃ before after,
    pieces text = before ++ after ∧ (locate text offset).line = before.length + 1 ∧
      byteSize before.flatten + (locate text offset).column = min offset (byteSize text) ∧
      (locate text offset).text <+: after.flatten ∧
      (locate text offset).column ≤ byteSize (locate text offset).text := by
  by_cases hoffset : offset < byteSize text
  · obtain ⟨before, after, hpieces, hline, hbytes, hcolumn⟩ :=
      exists_of_findPlace (findPlace_of_lt hoffset) (Nat.zero_le _)
    refine ⟨before, _, hpieces, by omega, by omega, ?_, Nat.le_of_lt hcolumn⟩
    rw [List.flatten_cons]
    exact List.prefix_append _ _
  · obtain ⟨before, last, feeds, htext, hbefore, -, -, -, hplace⟩ := locate_of_ge (Nat.le_of_not_lt hoffset)
    rw [hplace]
    refine ⟨pieces before, pieces (last ++ feeds), ?_, ?_, ?_, ?_, Nat.le_refl _⟩
    · rw [← pieces_append hbefore, ← htext]
    · rw [length_pieces hbefore]
    · rw [flatten_pieces, Nat.min_eq_right (Nat.le_of_not_lt hoffset), ← byteSize_append, ← htext]
    · exact ⟨[], by rw [List.append_nil, flatten_pieces]⟩

/-- **The line of the end** is the last one that has a character other than a line feed, if there is one. -/
theorem locate_end {text : List Char} {offset : Nat} (h : byteSize text ≤ offset) :
    ((pieces text).take ((locate text offset).line - 1)).flatten ++ (locate text offset).text = text ∧
      ((∃ line, (pieces text)[(locate text offset).line - 1]? = some line ∧ (∃ c ∈ line, c ≠ '\n') ∧
          ∀ later ∈ (pieces text).drop (locate text offset).line, ∀ c ∈ later, c = '\n') ∨
        (locate text offset).line = 1 ∧ ∀ c ∈ text, c = '\n') := by
  obtain ⟨before, last, feeds, htext, hbefore, hlast, hfeeds, hnil, hplace⟩ := locate_of_ge h
  have hlines : pieces text = pieces before ++ pieces (last ++ feeds) := by rw [← pieces_append hbefore, ← htext]
  rw [hplace, Nat.add_sub_cancel, ← length_pieces hbefore, hlines, List.take_left, flatten_pieces]
  refine ⟨htext.symm, ?_⟩
  by_cases hempty : last = []
  · obtain rfl := hnil hempty
    subst hempty
    exact .inr ⟨rfl, htext ▸ hfeeds⟩
  · obtain ⟨line, rest, hpieces, hother, hrest⟩ := pieces_last_feeds hlast hempty hfeeds
    rw [hpieces]
    refine .inl ⟨line, ?_, hother, ?_⟩
    · rw [List.getElem?_append_right (Nat.le_refl _), Nat.sub_self]
      rfl
    · rwa [List.drop_length_add_append]

end GoScript.Text

namespace GoScript

open Text

/-- **An offset is located exactly.**  The bytes of the lines before the place and its column add up to the offset, or
to the whole text if the offset is past the end, and the text of the place starts right behind those lines.  Inside the
source that text is one line, and the byte at the offset stands in the column.  At the end it is the rest of the source
from the last line on that has a character other than a line feed, or all of the source if there is no such line. -/
theorem locate_offset (source : String) (offset : Nat) :
    let lines := pieces source.toList
    let place := locate source.toList offset
    let before := lines.take (place.line - 1)
    1 ≤ place.line ∧ (before.map byteSize).sum + place.column = min offset source.utf8ByteSize ∧
      before.flatten ++ place.text <+: source.toList ∧ place.column ≤ byteSize place.text ∧
      (offset < source.utf8ByteSize →
        lines[place.line - 1]? = some place.text ∧ place.column < byteSize place.text ∧
          byteAt? place.text place.column = byteAt? source.toList offset) ∧
      (source.utf8ByteSize ≤ offset →
        before.flatten ++ place.text = source.toList ∧
          ((∃ line, lines[place.line - 1]? = some line ∧ (∃ c ∈ line, c ≠ '\n') ∧
              ∀ later ∈ lines.drop place.line, ∀ c ∈ later, c = '\n') ∨
            place.line = 1 ∧ ∀ c ∈ source.toList, c = '\n')) := by
  dsimp only
  rw [← byteSize_toList]
  obtain ⟨before, after, hpieces, hline, hbytes, htext, hcolumn⟩ := locate_splits source.toList offset
  have htake : (pieces source.toList).take ((locate source.toList offset).line - 1) = before := by
    rw [hline, Nat.add_sub_cancel, hpieces, List.take_left]
  have hsource : source.toList = before.flatten ++ after.flatten := by
    rw [← flatten_pieces source.toList, hpieces, List.flatten_append]
  rw [htake, ← byteSize_flatten]
  refine ⟨by omega, hbytes, ?_, hcolumn, ?_, ?_⟩
  · conv => rhs; rw [hsource]
    exact (List.prefix_append_right_inj _).mpr htext
  · intro hlt
    obtain ⟨index, hindex, hpiece, hinside, hbyte⟩ := exists_of_locate hlt
    rw [hindex, Nat.add_sub_cancel]
    exact ⟨hpiece, hinside, hbyte.symm⟩
  · intro hge
    rw [← htake]
    exact locate_end hge

/-- The second byte of `é` on the second line, and an offset past the line feeds at the end. -/
theorem locate_offset_accent :
    let source := "a\n\"é\"\n\n"
    (4 < source.utf8ByteSize ∧ (pieces source.toList)[1]? = some "\"é\"\n".toList ∧
        byteAt? "\"é\"\n".toList 2 = byteAt? source.toList 4) ∧
      source.utf8ByteSize ≤ 9 ∧ ((pieces source.toList).take 1).flatten ++ "\"é\"\n\n".toList = source.toList := by
  intro source
  have hinside : 4 < source.utf8ByteSize := by decide
  have hpast : source.utf8ByteSize ≤ 9 := by decide
  have hmiddle : locate source.toList 4 = ⟨2, "\"é\"\n".toList, 2⟩ := by decide
  have hlast : locate source.toList 9 = ⟨2, "\"é\"\n\n".toList, 6⟩ := by decide
  obtain ⟨-, -, -, -, hline, -⟩ := locate_offset source 4
  obtain ⟨-, -, -, -, -, hend⟩ := locate_offset source 9
  rw [hmiddle] at hline
  rw [hlast] at hend
  exact ⟨⟨hinside, (hline hinside).1, (hline hinside).2.2⟩, hpast, (hend hpast).1⟩

end GoScript
