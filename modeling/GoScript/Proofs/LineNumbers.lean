import GoScript.Proofs.Places
import Mathlib.Data.List.DropRight

/-!
# Line numbers

The number of the line on which a byte offset stands, told from where the lines start, and what becomes of it when the
lines of a text are shortened.  Cleanup shortens lines and keeps their number: an offset into the cleaned text stands on
some line there, and on the same line of the source only if that line has started at this offset in the source.

* `Text.lineStart` — the byte at which a line starts
* `Text.locate_line_of_lt`, `Text.locate_line_of_ge` — the line of an offset inside a text, and of one at its end
* `Text.Shortened` — the lines of a text, and those that are left of them
* `Text.Shortened.locate_line` — when an offset stands on the same line of both
* `Cleanup.shortened` — cleanup shortens lines
* `error_line_iff` — when an error is on the same line of the source as of the text that was parsed
-/

namespace GoScript.Text

/-! ### Pieces -/

theorem pieces_feed (rest : List Char) : pieces ('\n' :: rest) = ['\n'] :: pieces rest := by
  rw [pieces, List.foldr_cons, ← pieces]
  cases pieces rest <;> rfl

theorem pieces_cons {c : Char} (hc : c ≠ '\n') {text line : List Char} {rest : List (List Char)}
    (h : pieces text = line :: rest) : pieces (c :: text) = (c :: line) :: rest := by
  rw [pieces, List.foldr_cons, ← pieces, h]
  exact if_neg hc

/-- The first line of a text. -/
theorem pieces_line {line : List Char} (h : '\n' ∉ line) (rest : List Char) :
    pieces (line ++ '\n' :: rest) = (line ++ ['\n']) :: pieces rest := by
  induction line with
  | nil => exact pieces_feed rest
  | cons c line ih =>
    rw [List.mem_cons, not_or] at h
    exact pieces_cons (Ne.symm h.1) (ih h.2)

/-- A text without a line feed is one line. -/
theorem pieces_last {line : List Char} (h : '\n' ∉ line) (hne : line ≠ []) : pieces line = [line] := by
  induction line with
  | nil => exact absurd rfl hne
  | cons c line ih =>
    rw [List.mem_cons, not_or] at h
    cases line with
    | nil => rfl
    | cons d line => exact pieces_cons (Ne.symm h.1) (ih h.2 (List.cons_ne_nil d line))

/-- **Induction over lines.**  A text is empty, or one line without a line feed, or a line before other lines. -/
theorem linesInduction {motive : List Char → Prop} (nil : motive [])
    (last : ∀ line, line ≠ [] → '\n' ∉ line → motive line)
    (line : ∀ line rest, '\n' ∉ line → motive rest → motive (line ++ '\n' :: rest)) (text : List Char) :
    motive text := by
  induction h : text.length using Nat.strongRecOn generalizing text with
  | _ length ih =>
    by_cases hfeed : '\n' ∈ text
    · obtain ⟨front, rest, rfl, hfront⟩ := List.eq_append_cons_of_mem hfeed
      have hshorter : rest.length < length := by
        rw [← h, List.length_append, List.length_cons]
        omega
      exact line front rest hfront (ih rest.length hshorter rest rfl)
    · by_cases hempty : text = []
      · exact hempty ▸ nil
      · exact last text hempty hfeed

/-- The lines of a text, joined, are the text. -/
theorem flatten_pieces (text : List Char) : (pieces text).flatten = text := by
  induction text using linesInduction with
  | nil => rfl
  | last line hne hline => rw [pieces_last hline hne, List.flatten_singleton]
  | line line rest hline ih =>
    rw [pieces_line hline, List.flatten_cons, ih, List.append_assoc]
    rfl

/-- Lines that all end in a line feed. -/
theorem pieces_flatMap {lines : List (List Char)} (h : ∀ line ∈ lines, '\n' ∉ line) :
    pieces (lines.flatMap (· ++ ['\n'])) = lines.map (· ++ ['\n']) := by
  induction lines with
  | nil => rfl
  | cons line rest ih =>
    have hrest := ih fun other hother => h other (List.mem_cons_of_mem line hother)
    rw [List.flatMap_cons, List.append_assoc, List.singleton_append, pieces_line (h line List.mem_cons_self), hrest]
    rfl

/-! ### Where lines start -/

/-- The number of bytes of the first lines. -/
def sizeOfFirst (lines : List (List Char)) (count : Nat) : Nat :=
  byteSize (lines.take count).flatten

theorem sizeOfFirst_cons (line : List Char) (rest : List (List Char)) (count : Nat) :
    sizeOfFirst (line :: rest) (count + 1) = byteSize line + sizeOfFirst rest count := by
  rw [sizeOfFirst, List.take_succ_cons, List.flatten_cons, byteSize_append, sizeOfFirst]

theorem sizeOfFirst_mono (lines : List (List Char)) {count count' : Nat} (h : count ≤ count') :
    sizeOfFirst lines count ≤ sizeOfFirst lines count' := by
  obtain ⟨more, rfl⟩ := Nat.exists_eq_add_of_le h
  rw [sizeOfFirst, sizeOfFirst, List.take_add, List.flatten_append, byteSize_append]
  exact Nat.le_add_right _ _

theorem sizeOfFirst_of_length_le {lines : List (List Char)} {count : Nat} (h : lines.length ≤ count) :
    sizeOfFirst lines count = byteSize lines.flatten := by
  rw [sizeOfFirst, List.take_of_length_le h]

theorem sizeOfFirst_le (lines : List (List Char)) (count : Nat) : sizeOfFirst lines count ≤ byteSize lines.flatten := by
  rw [← sizeOfFirst_of_length_le (Nat.le_max_right count lines.length)]
  exact sizeOfFirst_mono lines (Nat.le_max_left _ _)

/-- The byte at which the line with a number starts.  Lines are numbered from 1. -/
def lineStart (text : List Char) (number : Nat) : Nat :=
  sizeOfFirst (pieces text) (number - 1)

theorem lineStart_le (text : List Char) (number : Nat) : lineStart text number ≤ byteSize text := by
  have hle := sizeOfFirst_le (pieces text) (number - 1)
  rwa [flatten_pieces] at hle

/-! ### The line of an offset -/

/-- A place that is found: the lines before it, its own line, and the byte on that line. -/
theorem exists_of_findPlace {offset number start : Nat} {lines : List (List Char)} {place : Place}
    (h : findPlace offset number start lines = some place) (hstart : start ≤ offset) :
    ∃ before after, lines = before ++ place.text :: after ∧ place.line = number + before.length ∧
      offset = start + byteSize before.flatten + place.column ∧ place.column < byteSize place.text := by
  induction lines generalizing number start with
  | nil => cases h
  | cons line rest ih =>
    rw [findPlace] at h
    by_cases hline : offset < start + byteSize line
    · rw [if_pos hline] at h
      cases h
      refine ⟨[], rest, rfl, rfl, ?_, ?_⟩
      · show offset = start + 0 + (offset - start)
        omega
      · show offset - start < byteSize line
        omega
    · rw [if_neg hline] at h
      obtain ⟨before, after, rfl, hnumber, hoffset, hcolumn⟩ := ih h (by omega)
      refine ⟨line :: before, after, rfl, ?_, ?_, hcolumn⟩
      · rw [List.length_cons]
        omega
      · rw [List.flatten_cons, byteSize_append]
        omega

/-- A line that is found is the one that the offset stands on. -/
theorem findPlace_eq_some {offset number start : Nat} {lines : List (List Char)} {place : Place}
    (h : findPlace offset number start lines = some place) (hstart : start ≤ offset) :
    ∃ index, place.line = number + index ∧ start + sizeOfFirst lines index ≤ offset ∧
      offset < start + sizeOfFirst lines (index + 1) := by
  obtain ⟨before, after, rfl, hnumber, hoffset, hcolumn⟩ := exists_of_findPlace h hstart
  have htake : (before ++ place.text :: after).take (before.length + 1) = before ++ [place.text] := by
    rw [List.take_length_add_append]
    rfl
  refine ⟨before.length, hnumber, ?_, ?_⟩
  · rw [sizeOfFirst, List.take_left]
    omega
  · rw [sizeOfFirst, htake, List.flatten_append, List.flatten_singleton, byteSize_append]
    omega

theorem findPlace_eq_none {offset number start : Nat} {lines : List (List Char)} (hstart : start ≤ offset) :
    findPlace offset number start lines = none ↔ start + byteSize lines.flatten ≤ offset := by
  induction lines generalizing number start with
  | nil => simpa [findPlace] using hstart
  | cons line rest ih =>
    rw [findPlace, List.flatten_cons, byteSize_append]
    by_cases hline : offset < start + byteSize line
    · rw [if_pos hline]
      simp only [reduceCtorEq, false_iff]
      omega
    · rw [if_neg hline, ih (by omega), Nat.add_assoc]

/-- An offset inside a text is found on one of its lines. -/
theorem findPlace_of_lt {text : List Char} {offset : Nat} (h : offset < byteSize text) :
    findPlace offset 1 0 (pieces text) = some (locate text offset) := by
  have hmin : min offset (byteSize text) = offset := Nat.min_eq_left (Nat.le_of_lt h)
  obtain ⟨place, hplace⟩ : ∃ place, findPlace offset 1 0 (pieces text) = some place := by
    rw [← Option.ne_none_iff_exists', Ne, findPlace_eq_none (Nat.zero_le offset), flatten_pieces]
    omega
  rw [locate, hmin, hplace]
  rfl

/-- **The line of an offset inside a text** is the one that has started there, while the next one has not. -/
theorem locate_line_of_lt {text : List Char} {offset : Nat} (h : offset < byteSize text) {number : Nat} :
    (locate text offset).line = number ↔
      1 ≤ number ∧ lineStart text number ≤ offset ∧ offset < lineStart text (number + 1) := by
  obtain ⟨index, hline, hlower, hupper⟩ := findPlace_eq_some (findPlace_of_lt h) (Nat.zero_le offset)
  rw [hline]
  constructor
  · rintro rfl
    refine ⟨Nat.le_add_right 1 index, ?_, ?_⟩
    · rw [lineStart, Nat.add_sub_cancel_left]
      omega
    · rw [lineStart, Nat.add_sub_cancel, Nat.add_comm]
      omega
  · rintro ⟨hpositive, hstart, hend⟩
    rw [lineStart] at hstart hend
    -- of two lines the later one starts only after the other one has ended
    rcases Nat.lt_trichotomy (1 + index) number with hlt | heq | hgt
    · have hmono := sizeOfFirst_mono (pieces text) (show index + 1 ≤ number - 1 by omega)
      omega
    · exact heq
    · have hmono := sizeOfFirst_mono (pieces text) (show number + 1 - 1 ≤ index by omega)
      omega

/-! ### The line of the end -/

section DropEndWhile

variable {α : Type} {p : α → Bool} {front back list : List α}

theorem dropEndWhile_eq_nil : dropEndWhile p list = [] ↔ ∀ x ∈ list, p x = true :=
  List.rdropWhile_eq_nil_iff

theorem dropEndWhile_isPrefix (p : α → Bool) (list : List α) : dropEndWhile p list <+: list :=
  List.rdropWhile_prefix p list

theorem dropEndWhile_append_of_all (h : ∀ x ∈ back, p x = true) :
    dropEndWhile p (front ++ back) = dropEndWhile p front := by
  have hback : back.reverse.dropWhile p = [] := List.reverse_eq_nil_iff.mp (dropEndWhile_eq_nil.mpr h)
  rw [dropEndWhile, List.reverse_append, List.dropWhile_append, hback]
  rfl

theorem dropEndWhile_append_of_ne (h : dropEndWhile p back ≠ []) :
    dropEndWhile p (front ++ back) = front ++ dropEndWhile p back := by
  have hback : back.reverse.dropWhile p ≠ [] := fun hnil => h (by rw [dropEndWhile, hnil]; rfl)
  rw [dropEndWhile, List.reverse_append, List.dropWhile_append, if_neg (by simpa using hback), List.reverse_append,
    List.reverse_reverse]
  rfl

/-- How much is left tells from where on everything satisfies `p`. -/
theorem length_dropEndWhile_le {count : Nat} :
    (dropEndWhile p list).length ≤ count ↔ ∀ x ∈ list.drop count, p x = true := by
  constructor
  · intro hlength
    have hsplit : dropEndWhile p list ++ list.rtakeWhile p = list := List.rdropWhile_append_rtakeWhile
    intro x hx
    rw [← hsplit, List.drop_append, List.drop_of_length_le hlength, List.nil_append] at hx
    exact List.mem_rtakeWhile_imp (List.mem_of_mem_drop hx)
  · intro hall
    rw [← List.take_append_drop count list, dropEndWhile_append_of_all hall]
    have hle := (dropEndWhile_isPrefix p (list.take count)).length_le
    rw [List.length_take] at hle
    omega

end DropEndWhile

/-- Whether a line is nothing but its line feed. -/
def isFeed (line : List Char) : Bool :=
  line == ['\n']

/-- The lines up to the last one that holds something. -/
def filled (lines : List (List Char)) : List (List Char) :=
  dropEndWhile isFeed lines

/-- A text that is empty or ends in a line feed. -/
def EndsLine (text : List Char) : Prop :=
  ∀ c ∈ text.getLast?, c = '\n'

theorem take_eq_rdropWhile {α : Type} (p : α → Bool) (list : List α) :
    list.take (list.length - (list.rtakeWhile p).length) = list.rdropWhile p := by
  have hsplit : list.rdropWhile p ++ list.rtakeWhile p = list := List.rdropWhile_append_rtakeWhile
  have hlength := congrArg List.length hsplit
  rw [List.length_append] at hlength
  have hcount : list.length - (list.rtakeWhile p).length = (list.rdropWhile p).length := by omega
  conv => lhs; arg 2; rw [← hsplit]
  rw [hcount, List.take_left]

/-- **The place of the end.**  A text is some lines, the last line that holds something, and line feeds. -/
theorem exists_endPlace (offset : Nat) (text : List Char) : ∃ before last feeds,
    dropEndWhile (· == '\n') text = before ++ last ∧ text = before ++ (last ++ feeds) ∧ EndsLine before ∧
      '\n' ∉ last ∧ (∀ c ∈ feeds, c = '\n') ∧
      endPlace offset text = ⟨before.count '\n' + 1, last ++ feeds, offset - byteSize before⟩ := by
  have htext : dropEndWhile (· == '\n') text ++ text.rtakeWhile (· == '\n') = text :=
    List.rdropWhile_append_rtakeWhile
  have hfeeds : text.drop (dropEndWhile (· == '\n') text).length = text.rtakeWhile (· == '\n') := by
    conv => lhs; arg 2; rw [← htext]
    exact List.drop_left
  rw [endPlace]
  generalize dropEndWhile (· == '\n') text = body at htext hfeeds ⊢
  have hbody : body.rdropWhile (· != '\n') ++ body.rtakeWhile (· != '\n') = body := List.rdropWhile_append_rtakeWhile
  have hbefore : body.take (body.length - (body.rtakeWhile (· != '\n')).length) = body.rdropWhile (· != '\n') :=
    take_eq_rdropWhile _ body
  refine ⟨_, _, text.rtakeWhile (· == '\n'), hbody.symm, ?_, ?_, ?_, ?_, ?_⟩
  · rw [← List.append_assoc, hbody, htext]
  · intro c hc
    have hne := List.ne_nil_of_mem (List.mem_of_getLast? hc)
    rw [List.getLast?_eq_some_getLast hne] at hc
    simpa [Option.some.inj hc] using List.rdropWhile_last_not (· != '\n') body hne
  · intro hmem
    simpa using List.mem_rtakeWhile_imp hmem
  · intro c hc
    simpa using List.mem_rtakeWhile_imp hc
  · rw [hfeeds]
    show Place.mk ((body.take (body.length - (body.rtakeWhile (· != '\n')).length)).count '\n' + 1) _
      (offset - byteSize (body.take (body.length - (body.rtakeWhile (· != '\n')).length))) = _
    rw [hbefore]
    rfl

/-- The line of the end is told from the line feeds before it, those at the very end apart. -/
theorem endPlace_line_eq_count (offset : Nat) (text : List Char) :
    (endPlace offset text).line = (dropEndWhile (· == '\n') text).count '\n' + 1 := by
  obtain ⟨before, last, feeds, hbody, -, -, hlast, -, hplace⟩ := exists_endPlace offset text
  rw [hplace, hbody, List.count_append, List.count_eq_zero.mpr hlast, Nat.add_zero]

theorem filled_pieces_eq_nil {text : List Char} :
    filled (pieces text) = [] ↔ dropEndWhile (· == '\n') text = [] := by
  rw [filled, dropEndWhile_eq_nil, dropEndWhile_eq_nil]
  constructor
  · intro h c hc
    rw [← flatten_pieces text, List.mem_flatten] at hc
    obtain ⟨line, hline, hmem⟩ := hc
    have hfeed : line = ['\n'] := by simpa [isFeed] using h line hline
    rw [hfeed] at hmem
    simpa using hmem
  · intro h
    induction text with
    | nil =>
      intro line hline
      cases hline
    | cons c rest ih =>
      obtain rfl : c = '\n' := by simpa using h c List.mem_cons_self
      rw [pieces_feed]
      intro line hline
      rcases List.mem_cons.mp hline with rfl | hline
      · rfl
      · exact ih (fun d hd => h d (List.mem_cons_of_mem _ hd)) line hline

theorem length_filled_cons_le (line : List Char) {rest : List (List Char)} (h : filled rest = []) :
    (filled (line :: rest)).length ≤ 1 := by
  rw [filled, length_dropEndWhile_le]
  exact dropEndWhile_eq_nil.mp h

/-- **The line of the end of a text** is the last one that holds something, or else the first one. -/
theorem endPlace_line (offset : Nat) (text : List Char) :
    (endPlace offset text).line = max 1 (filled (pieces text)).length := by
  rw [endPlace_line_eq_count]
  induction text using linesInduction with
  | nil => rfl
  | last line hne hline =>
    have hcount : (dropEndWhile (· == '\n') line).count '\n' = 0 :=
      List.count_eq_zero.mpr fun hmem => hline ((dropEndWhile_isPrefix _ line).subset hmem)
    have hlength := length_filled_cons_le line (show filled [] = [] from rfl)
    rw [hcount, pieces_last hline hne]
    omega
  | line line rest hline ih =>
    have hcount : line.count '\n' = 0 := List.count_eq_zero.mpr hline
    rw [pieces_line hline]
    by_cases hrest : dropEndWhile (· == '\n') rest = []
    · have hall : ∀ c ∈ '\n' :: rest, (c == '\n') = true := by
        intro c hc
        rcases List.mem_cons.mp hc with rfl | hc
        · rfl
        · exact dropEndWhile_eq_nil.mp hrest c hc
      have hcount' : (dropEndWhile (· == '\n') line).count '\n' = 0 :=
        List.count_eq_zero.mpr fun hmem => hline ((dropEndWhile_isPrefix _ line).subset hmem)
      have hlength := length_filled_cons_le (line ++ ['\n']) (filled_pieces_eq_nil.mpr hrest)
      rw [dropEndWhile_append_of_all hall, hcount']
      omega
    · have hfilled : filled (pieces rest) ≠ [] := fun h => hrest (filled_pieces_eq_nil.mp h)
      have hpositive := List.length_pos_of_ne_nil hfilled
      have hbody : dropEndWhile (· == '\n') (line ++ '\n' :: rest) =
          line ++ '\n' :: dropEndWhile (· == '\n') rest := by
        rw [← List.singleton_append, ← List.append_assoc, dropEndWhile_append_of_ne hrest, List.append_assoc]
        rfl
      have hlines : filled ((line ++ ['\n']) :: pieces rest) = (line ++ ['\n']) :: filled (pieces rest) := by
        rw [← List.singleton_append, filled, dropEndWhile_append_of_ne hfilled]
        rfl
      rw [hbody, hlines, List.count_append, hcount, List.count_cons_self, List.length_cons]
      omega

/-- The line of an offset past the end is that of the end. -/
theorem locate_line_of_ge {text : List Char} {offset : Nat} (h : byteSize text ≤ offset) :
    (locate text offset).line = max 1 (filled (pieces text)).length := by
  have hnone : findPlace (byteSize text) 1 0 (pieces text) = none := by
    rw [findPlace_eq_none (Nat.zero_le _), flatten_pieces, Nat.zero_add]
  rw [locate, Nat.min_eq_right h, hnone]
  exact endPlace_line _ _

/-! ### Shortened lines -/

/-- Lines, and what is left of each.  What is left has no more bytes than there were before the line feed, and it ends
in a line feed, also where the last line had none. -/
inductive Shortened : List (List Char) → List (List Char) → Prop
  | nil : Shortened [] []
  | last {line kept : List Char} : '\n' ∉ line → byteSize kept ≤ byteSize line → Shortened [line] [kept ++ ['\n']]
  | cons {line kept : List Char} {lines rest : List (List Char)} : byteSize kept ≤ byteSize line →
    Shortened lines rest → Shortened ((line ++ ['\n']) :: lines) ((kept ++ ['\n']) :: rest)

namespace Shortened

variable {lines rest : List (List Char)}

theorem length_eq (h : Shortened lines rest) : rest.length = lines.length := by
  induction h with
  | nil => rfl
  | last => rfl
  | cons _ _ ih => rw [List.length_cons, List.length_cons, ih]

/-- No line starts later than it did. -/
theorem sizeOfFirst_le (h : Shortened lines rest) {count : Nat} (hcount : count < lines.length) :
    sizeOfFirst rest count ≤ sizeOfFirst lines count := by
  induction h generalizing count with
  | nil => cases hcount
  | last =>
    obtain rfl : count = 0 := by simpa using hcount
    exact Nat.le_refl 0
  | cons hkept _ ih =>
    cases count with
    | zero => exact Nat.le_refl 0
    | succ count =>
      have hrest := ih (Nat.lt_of_succ_lt_succ hcount)
      rw [sizeOfFirst_cons, sizeOfFirst_cons, byteSize_append, byteSize_append]
      omega

/-- All lines together get longer only by the last line feed, if that was missing and nothing else has changed. -/
theorem byteSize_le (h : Shortened lines rest) :
    byteSize rest.flatten ≤ byteSize lines.flatten ∨
      byteSize rest.flatten = byteSize lines.flatten + 1 ∧ 1 ≤ lines.length ∧ filled lines = lines := by
  have hfeed : byteSize ['\n'] = 1 := rfl
  induction h with
  | nil => exact .inl (Nat.le_refl 0)
  | @last line kept hline hkept =>
    have hplain : isFeed line = false := by
      rw [isFeed, beq_eq_false_iff_ne]
      rintro rfl
      exact hline List.mem_cons_self
    have hfilled : filled [line] = [line] := by simp [filled, dropEndWhile, hplain]
    rw [List.flatten_singleton, List.flatten_singleton, byteSize_append, hfeed]
    by_cases hsame : byteSize kept = byteSize line
    · exact .inr ⟨by omega, Nat.le_refl 1, hfilled⟩
    · exact .inl (by omega)
  | @cons line kept lines rest hkept _ ih =>
    rw [List.flatten_cons, List.flatten_cons, byteSize_append, byteSize_append, byteSize_append, byteSize_append, hfeed]
    rcases ih with ih | ⟨hsize, hlength, hfilled⟩
    · exact .inl (by omega)
    · by_cases hsame : byteSize kept = byteSize line
      · have hne : dropEndWhile isFeed lines ≠ [] := by
          rw [show dropEndWhile isFeed lines = lines from hfilled]
          exact List.ne_nil_of_length_pos hlength
        refine .inr ⟨by omega, by rw [List.length_cons]; omega, ?_⟩
        rw [← List.singleton_append, filled, dropEndWhile_append_of_ne hne]
        exact congrArg (_ ++ ·) hfilled
      · exact .inl (by omega)

/-- What was nothing but a line feed stays that. -/
theorem isFeed_of_isFeed (h : Shortened lines rest) {count : Nat}
    (hfeeds : ∀ line ∈ lines.drop count, isFeed line = true) : ∀ line ∈ rest.drop count, isFeed line = true := by
  induction h generalizing count with
  | nil => simp
  | @last line kept hline _ =>
    cases count with
    | zero =>
      have hfeed : line = ['\n'] := by simpa [isFeed] using hfeeds line List.mem_cons_self
      exact absurd (hfeed ▸ List.mem_cons_self) hline
    | succ count => simp
  | @cons line kept lines rest hkept _ ih =>
    cases count with
    | zero =>
      have hline : line = [] := by simpa [isFeed] using hfeeds _ List.mem_cons_self
      have hempty : kept = [] := by
        cases kept with
        | nil => rfl
        | cons c kept =>
          have hpositive := c.utf8Size_pos
          rw [hline, byteSize_cons, byteSize_nil] at hkept
          omega
      have hrest : ∀ line ∈ rest.drop 0, isFeed line = true :=
        ih fun other hother => hfeeds other (List.mem_cons_of_mem _ hother)
      intro other hother
      rcases List.mem_cons.mp hother with rfl | hother
      · rw [hempty]
        rfl
      · exact hrest other hother
    | succ count => exact ih hfeeds

theorem length_filled_le (h : Shortened lines rest) : (filled rest).length ≤ (filled lines).length :=
  length_dropEndWhile_le.mpr (h.isFeed_of_isFeed (length_dropEndWhile_le.mp (Nat.le_refl _)))

section

variable {text short : List Char} (h : Shortened (pieces text) (pieces short)) {offset : Nat}
include h

/-- An offset inside the shortened text. -/
theorem locate_line_of_lt (hshort : offset < byteSize short) :
    (locate text offset).line = (locate short offset).line ↔ lineStart text (locate short offset).line ≤ offset := by
  obtain ⟨hnumber, hlower, hupper⟩ := (Text.locate_line_of_lt hshort).mp rfl
  generalize (locate short offset).line = number at hnumber hlower hupper ⊢
  rw [lineStart] at hlower hupper
  rw [Nat.add_sub_cancel] at hupper
  have hstart := lineStart_le text number
  by_cases htext : offset < byteSize text
  · have hend : offset < lineStart text (number + 1) := by
      rw [lineStart, Nat.add_sub_cancel]
      by_cases hcount : number < (pieces text).length
      · exact Nat.lt_of_lt_of_le hupper (h.sizeOfFirst_le hcount)
      · rw [sizeOfFirst_of_length_le (Nat.le_of_not_lt hcount), flatten_pieces]
        exact htext
    rw [Text.locate_line_of_lt htext]
    exact ⟨fun ⟨_, hle, _⟩ => hle, fun hle => ⟨hnumber, hle, hend⟩⟩
  · -- the offset is that of the last line feed, which is missing in the text
    have hsizes := h.byteSize_le
    rw [flatten_pieces, flatten_pieces] at hsizes
    obtain ⟨_, hlength, hfilled⟩ := hsizes.resolve_left (by omega)
    have hline : (locate text offset).line = (pieces text).length := by
      rw [locate_line_of_ge (Nat.le_of_not_lt htext), hfilled]
      exact Nat.max_eq_right hlength
    have hlast : (pieces text).length = number := by
      rcases Nat.lt_trichotomy (pieces text).length number with hlt | heq | hgt
      · rw [sizeOfFirst_of_length_le (by rw [h.length_eq]; omega), flatten_pieces] at hlower
        omega
      · exact heq
      · have hle := h.sizeOfFirst_le hgt
        have hle' := Text.sizeOfFirst_le (pieces text) number
        rw [flatten_pieces] at hle'
        omega
    rw [hline]
    exact ⟨fun _ => by omega, fun _ => hlast⟩

/-- An offset at the end of the shortened text. -/
theorem locate_line_of_ge (hshort : byteSize short ≤ offset) :
    (locate text offset).line = (locate short offset).line ↔
      lineStart text (locate short offset).line ≤ offset ∧
        (offset < lineStart text ((locate short offset).line + 1) ∨
          byteSize text ≤ offset ∧ ∀ line ∈ (pieces text).drop (locate short offset).line, isFeed line = true) := by
  have hend : (locate short offset).line = max 1 (filled (pieces short)).length := Text.locate_line_of_ge hshort
  generalize (locate short offset).line = number at hend ⊢
  have hstart := lineStart_le text number
  have hstart' := lineStart_le text (number + 1)
  by_cases htext : offset < byteSize text
  · rw [Text.locate_line_of_lt htext]
    constructor
    · rintro ⟨_, hlower, hupper⟩
      exact ⟨hlower, .inl hupper⟩
    · rintro ⟨hlower, hupper | ⟨hge, _⟩⟩
      · exact ⟨by omega, hlower, hupper⟩
      · omega
  · have hfilled := h.length_filled_le
    rw [Text.locate_line_of_ge (Nat.le_of_not_lt htext)]
    constructor
    · intro hsame
      have hle : (filled (pieces text)).length ≤ number := by omega
      exact ⟨by omega, .inr ⟨by omega, length_dropEndWhile_le.mp hle⟩⟩
    · rintro ⟨_, hupper | ⟨_, hfeeds⟩⟩
      · omega
      · have hle : (filled (pieces text)).length ≤ number := length_dropEndWhile_le.mpr hfeeds
        omega

/-- **When an offset stands on the same line** of a text and of a text with shortened lines: the line has started there,
and the offset lies inside the shortened text, or on that line, or at the end of both, where all lines after it are
nothing but line feeds. -/
theorem locate_line (offset : Nat) :
    (locate text offset).line = (locate short offset).line ↔
      lineStart text (locate short offset).line ≤ offset ∧
        (offset < byteSize short ∨ offset < lineStart text ((locate short offset).line + 1) ∨
          byteSize text ≤ offset ∧ ∀ line ∈ (pieces text).drop (locate short offset).line, isFeed line = true) := by
  by_cases hshort : offset < byteSize short
  · rw [h.locate_line_of_lt hshort]
    simp only [hshort, true_or, and_true]
  · rw [h.locate_line_of_ge (Nat.le_of_not_lt hshort)]
    simp only [hshort, false_or]

end

end Shortened

/-! ### Parts of lines -/

theorem byteSize_le_of_isPrefix {front text : List Char} (h : front <+: text) : byteSize front ≤ byteSize text := by
  obtain ⟨back, rfl⟩ := h
  rw [byteSize_append]
  exact Nat.le_add_right _ _

/-- Before its line feed a line loses nothing, or one carriage return. -/
theorem eq_dropLineEnd_feed (line : List Char) :
    line = dropLineEnd (line ++ ['\n']) ∨ line = dropLineEnd (line ++ ['\n']) ++ ['\r'] := by
  have hreverse : line.reverse.reverse = line := List.reverse_reverse line
  rw [dropLineEnd, List.reverse_append, List.reverse_singleton, List.singleton_append]
  generalize line.reverse = back at hreverse ⊢
  subst hreverse
  split
  · next rest heq =>
    cases heq
    exact .inr (by simp)
  · next rest heq =>
    cases heq
    exact .inl rfl
  · next hno => exact absurd rfl (hno _)

theorem dropLineEnd_feed (line : List Char) : dropLineEnd (line ++ ['\n']) <+: line := by
  rcases eq_dropLineEnd_feed line with heq | heq
  · exact ⟨[], by rw [List.append_nil, ← heq]⟩
  · exact ⟨['\r'], heq.symm⟩

theorem dropLineEnd_of_not_mem {line : List Char} (h : '\n' ∉ line) : dropLineEnd line = line := by
  rw [dropLineEnd]
  have hreverse : '\n' ∉ line.reverse := by simpa using h
  split
  · next heq =>
    rw [heq] at hreverse
    exact absurd List.mem_cons_self hreverse
  · next heq =>
    rw [heq] at hreverse
    exact absurd List.mem_cons_self hreverse
  · rfl

end GoScript.Text

namespace GoScript.Cleanup

open Text

/-! ### Cleanup -/

theorem cutCommentFrom_isPrefix (quoted : Bool) (line : List Char) : cutCommentFrom quoted line <+: line := by
  induction line generalizing quoted with
  | nil => exact List.prefix_refl []
  | cons c rest ih =>
    rw [cutCommentFrom]
    split
    · exact (List.prefix_cons_inj c).mpr (ih _)
    · split
      · exact List.nil_prefix
      · exact (List.prefix_cons_inj c).mpr (ih _)

/-- What is kept of a line is its front part. -/
theorem cleanLine_isPrefix (inImports : Bool) (line : List Char) : (cleanLine inImports line).1 <+: line := by
  rw [cleanLine]
  split
  · exact List.nil_prefix
  · split
    · exact List.nil_prefix
    · split
      · exact List.nil_prefix
      · exact (dropEndWhile_isPrefix isBlank _).trans (cutCommentFrom_isPrefix false line)

theorem not_mem_of_mem_cleanLines {lines : List (List Char)} (h : ∀ line ∈ lines, '\n' ∉ line) (inImports : Bool) :
    ∀ kept ∈ cleanLines inImports lines, '\n' ∉ kept := by
  induction lines generalizing inImports with
  | nil =>
    intro kept hkept
    cases hkept
  | cons line rest ih =>
    intro kept hkept
    rcases List.mem_cons.mp hkept with rfl | hkept
    · exact fun hmem => h line List.mem_cons_self ((cleanLine_isPrefix inImports line).subset hmem)
    · exact ih (fun other hother => h other (List.mem_cons_of_mem line hother)) _ kept hkept

theorem not_mem_of_mem_lines (text : List Char) : ∀ line ∈ lines text, '\n' ∉ line := by
  induction text using linesInduction with
  | nil =>
    intro line hline
    cases hline
  | last line hne hfree =>
    rw [lines, pieces_last hfree hne, List.map_singleton, dropLineEnd_of_not_mem hfree]
    intro other hother
    rwa [List.mem_singleton.mp hother]
  | line line rest hfree ih =>
    rw [lines, pieces_line hfree, List.map_cons]
    intro other hother
    rcases List.mem_cons.mp hother with rfl | hother
    · exact fun hmem => hfree ((dropLineEnd_feed line).subset hmem)
    · exact ih other hother

theorem shortened_cleanLines (text : List Char) (inImports : Bool) :
    Shortened (pieces text) ((cleanLines inImports (lines text)).map (· ++ ['\n'])) := by
  induction text using linesInduction generalizing inImports with
  | nil => exact .nil
  | last line hne hfree =>
    rw [lines, pieces_last hfree hne, List.map_singleton, dropLineEnd_of_not_mem hfree]
    exact .last hfree (byteSize_le_of_isPrefix (cleanLine_isPrefix inImports line))
  | line line rest hfree ih =>
    rw [lines, pieces_line hfree, List.map_cons]
    have hkept := (cleanLine_isPrefix inImports (dropLineEnd (line ++ ['\n']))).trans (dropLineEnd_feed line)
    exact .cons (byteSize_le_of_isPrefix hkept) (ih _)

theorem pieces_cleanup (source : String) :
    pieces (cleanup source).toList = (cleanLines false (lines source.toList)).map (· ++ ['\n']) := by
  rw [cleanup, String.toList_ofList,
    pieces_flatMap (not_mem_of_mem_cleanLines (not_mem_of_mem_lines source.toList) false)]

/-- **Cleanup shortens lines.** -/
theorem shortened (source : String) : Shortened (pieces source.toList) (pieces (cleanup source).toList) := by
  rw [pieces_cleanup]
  exact shortened_cleanLines source.toList false

end GoScript.Cleanup

namespace GoScript

/-! ### Errors -/

open Text

/-- An error in a text stands inside it or at its end, also where offsets wrap around. -/
theorem Position.PointsInto.toNat_le {source file : String} {position : Position}
    (h : position.PointsInto source file) : position.offset.toNat ≤ source.utf8ByteSize := by
  obtain ⟨offset, hoffset, rfl⟩ := h
  show offset % UInt32.size ≤ _
  exact Nat.le_trans (Nat.mod_le offset _) hoffset

/-- **The line of an error.**  An error that is not a failure of the sink stands in the cleaned text or at its end, on
some line of it.  It is on the line with this number in the source if and only if that line has started there, that is
if what cleanup has removed before the line is not more than what stands before the error on it; and, if the error is
at the end, no further line has started, or the source has ended too but for empty lines. -/
theorem error_line_iff {source : String} {options : Options} {error : Error}
    (h : typeScriptOf source options = .error error) (hcategory : error.cause.category ≠ .resource) :
    let offset := error.position.offset.toNat
    let clean := (Cleanup.cleanup source).toList
    let number := (locate clean offset).line
    offset ≤ byteSize clean ∧
      ((locate source.toList offset).line = number ↔
        lineStart source.toList number ≤ offset ∧
          (offset = byteSize clean → offset < lineStart source.toList (number + 1) ∨
            byteSize source.toList ≤ offset ∧
              ∀ line ∈ (pieces source.toList).drop number, isFeed line = true)) := by
  intro offset clean number
  have hbound : offset ≤ byteSize clean := by
    rw [byteSize_toList]
    exact ((position_of_typeScriptOf_error h).resolve_left hcategory).toNat_le
  refine ⟨hbound, ((Cleanup.shortened source).locate_line offset).trans (and_congr_right fun _ => ?_)⟩
  -- inside the cleaned text the line cannot end too early, so only the end asks for more
  by_cases hend : offset = byteSize clean
  · have hnot : ¬ offset < byteSize clean := by omega
    exact ⟨fun hcases _ => hcases.resolve_left hnot, fun hcases => .inr (hcases hend)⟩
  · have hlt : offset < byteSize clean := by omega
    exact ⟨fun _ heq => absurd heq hend, fun _ => .inl hlt⟩

/-- Behind a short comment the line is still the right one. -/
theorem error_line_iff_comment : ∃ error, typeScriptOf "// a\nx := 1000 + @" {} = .error error ∧
    error.cause.category ≠ .resource ∧ (locate "// a\nx := 1000 + @".toList error.position.offset.toNat).line = 2 ∧
      (locate (Cleanup.cleanup "// a\nx := 1000 + @").toList error.position.offset.toNat).line = 2 := by
  have herror : typeScriptOf "// a\nx := 1000 + @" {} = .error ⟨.unrecognisedToken "@", 13, "shell"⟩ := by rfl
  have hline := (error_line_iff herror (by decide)).2.2 ⟨by decide, fun heq => absurd heq (by decide)⟩
  have hclean : (locate (Cleanup.cleanup "// a\nx := 1000 + @").toList 13).line = 2 := by decide
  exact ⟨_, herror, by decide, hline.trans hclean, hclean⟩

/-- Behind a package clause the line is another one. -/
theorem error_line_package : ∃ error, typeScriptOf "package main\n\nx := @" {} = .error error ∧
    error.cause = .unrecognisedToken "@" ∧
      (locate "package main\n\nx := @".toList error.position.offset.toNat).line = 1 ∧
      (locate (Cleanup.cleanup "package main\n\nx := @").toList error.position.offset.toNat).line = 3 :=
  ⟨⟨.unrecognisedToken "@", 7, "shell"⟩, by rfl, by rfl, by decide, by decide⟩

end GoScript
