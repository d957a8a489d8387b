import GoScript.Proofs.Columns

/-!
# Import blocks

An import block starts with the line of the opening parenthesis, and cleanup takes it for open until a line starts with
the closing one.  So it matters how the paths are laid out.  All of them on one line, or the closing parenthesis on a
line of its own, and nothing but the block is lost.  A path in front of the closing parenthesis hides it, and then the
lines behind the block are lost too, until one of them happens to start with a closing parenthesis.

* `ImportPaths` — what may stand between the parentheses of an import
* `HidesEnd` — there is a path in front of the closing parenthesis, on a line that the opening one is not on
* `Cleanup.cleanLines_open` — the lines of an open block, and those behind it
* `Cleanup.cleanLines_paths`, `Cleanup.cleanLines_import` — the lines of an import
* `cleanup_import` — what is left of a text that starts with an import
-/

namespace GoScript

/-- What may stand between the parentheses of an import: paths in double quotes, spaces, tabs and line feeds. -/
inductive ImportPaths : List Char → Prop
  | nil : ImportPaths []
  | blank {c : Char} {rest : List Char} : c = ' ' ∨ c = '\t' ∨ c = '\n' → ImportPaths rest → ImportPaths (c :: rest)
  | path {path rest : List Char} : (∀ c ∈ path, c ≠ '"' ∧ c ≠ '(' ∧ c ≠ ')' ∧ c ≠ '\n') → ImportPaths rest →
    ImportPaths ('"' :: (path ++ '"' :: rest))

/-- What follows the last line feed of a text. -/
def lastLine (text : List Char) : List Char :=
  text.rtakeWhile (· != '\n')

/-- The closing parenthesis of an import stands behind a path, but not on the line of the opening one. -/
def HidesEnd (inner : List Char) : Prop :=
  '\n' ∈ inner ∧ '"' ∈ lastLine inner

instance (inner : List Char) : Decidable (HidesEnd inner) :=
  inferInstanceAs (Decidable (_ ∧ _))

/-- Lines with nothing on them. -/
def blankLines (count : Nat) : String :=
  String.ofList (List.replicate count '\n')

theorem lastLine_line (line rest : List Char) : lastLine (line ++ '\n' :: rest) = lastLine rest := by
  have hreverse : (line ++ '\n' :: rest).reverse = rest.reverse ++ '\n' :: line.reverse := by simp
  rw [lastLine, List.rtakeWhile, hreverse, List.takeWhile_append]
  split
  · next hall =>
    rw [lastLine, List.rtakeWhile, (List.takeWhile_prefix _).eq_of_length hall]
    simp
  · rfl

theorem lastLine_of_not_mem {text : List Char} (h : '\n' ∉ text) : lastLine text = text := by
  rw [lastLine, List.rtakeWhile_eq_self_iff]
  intro c hc
  exact bne_iff_ne.mpr fun hfeed => h (hfeed ▸ hc)

theorem count_line {line : List Char} (h : '\n' ∉ line) (rest : List Char) :
    (line ++ '\n' :: rest).count '\n' = rest.count '\n' + 1 := by
  simp [List.count_append, List.count_eq_zero_of_not_mem h]

namespace ImportPaths

variable {inner line rest : List Char}

theorem not_close (h : ImportPaths inner) : ')' ∉ inner := by
  induction h with
  | nil => simp
  | blank hc _ ih => rcases hc with rfl | rfl | rfl <;> simpa using ih
  | path hpath _ ih => simpa [ih] using fun hmem => (hpath ')' hmem).2.2.1 rfl

/-- Paths do not go past the end of a line, so each line is one of blanks and paths. -/
theorem of_line (h : ImportPaths inner) (heq : inner = line ++ '\n' :: rest) (hline : '\n' ∉ line) :
    ImportPaths line ∧ ImportPaths rest := by
  induction h generalizing line with
  | nil => simp at heq
  | @blank c tail hc htail ih =>
    cases line with
    | nil =>
      cases heq
      exact ⟨.nil, htail⟩
    | cons d line =>
      cases heq
      obtain ⟨hfront, hrest⟩ := ih rfl fun hmem => hline (List.mem_cons_of_mem _ hmem)
      exact ⟨.blank hc hfront, hrest⟩
  | @path path tail hpath htail ih =>
    have hfree : '\n' ∉ '"' :: (path ++ ['"']) := by
      simpa using fun hmem => (hpath '\n' hmem).2.2.2 rfl
    have heq : ('"' :: (path ++ ['"'])) ++ tail = line ++ '\n' :: rest := by simpa using heq
    obtain ⟨front, rfl, hfront⟩ : ∃ front, line = ('"' :: (path ++ ['"'])) ++ front ∧ tail = front ++ '\n' :: rest := by
      rcases List.append_eq_append_iff.mp heq with hlonger | ⟨back, hquoted, hrest⟩
      · exact hlonger
      · cases back with
        | nil => exact ⟨[], by simpa using hquoted.symm, hrest.symm⟩
        | cons c back =>
          cases hrest
          exact absurd (by simp [hquoted]) hfree
    obtain ⟨hline', hrest⟩ := ih hfront fun hmem => hline (List.mem_append_right _ hmem)
    exact ⟨by simpa using hline'.path hpath, hrest⟩

/-- A line starts with blanks up to its first path. -/
theorem exists_blanks (h : ImportPaths line) (hline : '\n' ∉ line) : ∃ blanks,
    (∀ c ∈ blanks, Text.isBlank c = true) ∧ ('"' ∉ line ∧ line = blanks ∨ ∃ tail, line = blanks ++ '"' :: tail) := by
  induction h with
  | nil => exact ⟨[], by simp, .inl (by simp)⟩
  | @blank c rest hc _ ih =>
    obtain ⟨blanks, hblanks, hcases⟩ := ih fun hmem => hline (List.mem_cons_of_mem c hmem)
    have hblank : Text.isBlank c = true ∧ c ≠ '"' := by rcases hc with rfl | rfl | rfl <;> decide
    refine ⟨c :: blanks, List.forall_mem_cons.mpr ⟨hblank.1, hblanks⟩, ?_⟩
    rcases hcases with ⟨hquote, rfl⟩ | ⟨tail, rfl⟩
    · exact .inl ⟨by simp [hquote, hblank.2.symm], rfl⟩
    · exact .inr ⟨tail, rfl⟩
  | path _ _ _ => exact ⟨[], by simp, .inr ⟨_, rfl⟩⟩

end ImportPaths

namespace Cleanup

open Text

/-! ### Lines in an open block -/

instance (line : List Char) : Decidable (ClosesBlock line) :=
  inferInstanceAs (Decidable (_ = _))

/-- The number of lines that an open block takes up: those up to the first one that closes it, or all of them. -/
def linesInside : List (List Char) → Nat
  | [] => 0
  | line :: rest => if ClosesBlock line then 1 else linesInside rest + 1

theorem cleanLine_true (line : List Char) : cleanLine true line = ([], decide ¬ ClosesBlock line) := by
  have hflag : ((trim line).head? != some ')') = decide ¬ ClosesBlock line := by
    rw [Bool.eq_iff_iff, bne_iff_ne, decide_eq_true_iff, ClosesBlock]
  exact Prod.ext rfl hflag

/-- **An open block** is blanked up to the first line that closes it, and behind that line nothing is left of it. -/
theorem cleanLines_open (lines : List (List Char)) :
    cleanLines true lines =
      List.replicate (linesInside lines) [] ++ cleanLines false (lines.drop (linesInside lines)) := by
  induction lines with
  | nil => rfl
  | cons line rest ih =>
    by_cases hclose : ClosesBlock line
    · simp [cleanLines, linesInside, cleanLine_true, hclose]
    · simp [cleanLines, linesInside, cleanLine_true, hclose, ih, List.replicate_succ]

theorem lines_line {line : List Char} (h : '\n' ∉ line) (rest : List Char) :
    lines (line ++ '\n' :: rest) = dropLineEnd (line ++ ['\n']) :: lines rest := by
  rw [lines, pieces_line h, List.map_cons]
  rfl

theorem trim_subset (line : List Char) : trim line ⊆ line :=
  List.Subset.trans (dropEndWhile_isPrefix isBlank _).subset (List.dropWhile_suffix _).subset

theorem trimEnd_concat {c : Char} (h : isBlank c = false) (line : List Char) : trimEnd (line ++ [c]) = line ++ [c] := by
  simp [trimEnd, dropEndWhile, h]

/-- A line loses nothing in front of a character that is no carriage return. -/
theorem dropLineEnd_append {c : Char} (h : c ≠ '\r') (front line : List Char) :
    dropLineEnd (front ++ c :: (line ++ ['\n'])) = front ++ c :: dropLineEnd (line ++ ['\n']) := by
  rcases List.eq_nil_or_concat line with rfl | ⟨body, last, rfl⟩
  · simp [dropLineEnd, h]
  · by_cases hlast : last = '\r'
    · simp [dropLineEnd, hlast]
    · simp [dropLineEnd, hlast]

theorem lines_close {line : List Char} (h : '\n' ∉ line) (rest : List Char) :
    lines (line ++ ')' :: '\n' :: rest) = (line ++ [')']) :: lines rest := by
  have hfree : '\n' ∉ line ++ [')'] := by simpa using h
  have hdrop : dropLineEnd (line ++ [')'] ++ ['\n']) = line ++ [')'] := by
    rw [List.append_assoc]
    exact dropLineEnd_append (by decide) line []
  rw [← hdrop, ← lines_line hfree, List.append_assoc]
  rfl

/-! ### Imports -/

/-- The line of the closing parenthesis closes the block only if no path stands on it. -/
theorem closesBlock_concat {line : List Char} (h : ImportPaths line) (hline : '\n' ∉ line) :
    ClosesBlock (line ++ [')']) ↔ '"' ∉ line := by
  obtain ⟨blanks, hblanks, ⟨hquote, rfl⟩ | ⟨tail, rfl⟩⟩ := h.exists_blanks hline
  · have htrim : trim (line ++ [')']) = [')'] := by
      rw [trim, trimStart, List.dropWhile_append_of_pos hblanks]
      rfl
    simp [ClosesBlock, htrim, hquote]
  · have htrim : trim (blanks ++ '"' :: tail ++ [')']) = '"' :: tail ++ [')'] := by
      rw [trim, trimStart, List.append_assoc, List.dropWhile_append_of_pos hblanks]
      exact trimEnd_concat (by decide) ('"' :: tail)
    rw [ClosesBlock, htrim]
    simp

/-- **The lines of an import behind its first one.**  The induction is on the lines.  None but the last one can close
the block, since there is no other closing parenthesis. -/
theorem cleanLines_paths {inner : List Char} (h : ImportPaths inner) (rest : List Char) :
    cleanLines true (lines (inner ++ ')' :: '\n' :: rest)) =
      List.replicate (inner.count '\n' + 1) [] ++ cleanLines (decide ('"' ∈ lastLine inner)) (lines rest) := by
  have hlast : ∀ line, ImportPaths line → '\n' ∉ line → cleanLines true (lines (line ++ ')' :: '\n' :: rest)) =
      List.replicate (line.count '\n' + 1) [] ++ cleanLines (decide ('"' ∈ lastLine line)) (lines rest) := by
    intro line hpaths hfree
    have hflag : cleanLine true (line ++ [')']) = ([], decide ('"' ∈ line)) := by
      simp only [cleanLine_true, closesBlock_concat hpaths hfree, not_not]
    rw [lines_close hfree, lastLine_of_not_mem hfree, List.count_eq_zero_of_not_mem hfree, cleanLines, hflag]
    rfl
  induction inner using linesInduction with
  | nil => exact hlast [] h (by simp)
  | last line _ hfree => exact hlast line h hfree
  | line line tail hfree ih =>
    obtain ⟨hline, htail⟩ := h.of_line rfl hfree
    have hopen : ¬ ClosesBlock (dropLineEnd (line ++ ['\n'])) := fun hclose =>
      hline.not_close ((dropLineEnd_feed line).subset (trim_subset _ (List.mem_of_mem_head? hclose)))
    rw [List.append_assoc, List.cons_append, lines_line hfree, lastLine_line, count_line hfree, List.replicate_succ,
      List.cons_append, ← ih htail, cleanLines, cleanLine_true, decide_eq_true hopen]

/-- The first line of an import, with what stands behind the opening parenthesis. -/
theorem cleanLine_import (line : List Char) :
    cleanLine false ("import (".toList ++ line) = ([], decide (')' ∉ trimEnd line)) := by
  have htrim : trim ("import (".toList ++ line) = "import (".toList ++ trimEnd line := by
    show trimEnd ("import (".toList ++ line) = _
    by_cases hblank : trimEnd line = []
    · rw [hblank, trimEnd, dropEndWhile_append_of_all (dropEndWhile_eq_nil.mp hblank)]
      rfl
    · rw [trimEnd, dropEndWhile_append_of_ne hblank]
      rfl
  have hrest : afterKeyword? "import".toList ("import (".toList ++ trimEnd line) = some ('(' :: trimEnd line) := rfl
  have hpackage : afterKeyword? "package".toList ("import (".toList ++ trimEnd line) = none := rfl
  have hflag : (('(' :: trimEnd line).head? == some '(' && !('(' :: trimEnd line).contains ')') =
      decide (')' ∉ trimEnd line) := by simp
  simp only [cleanLine, htrim, hrest, hpackage, hflag, Option.isSome_none, Bool.false_eq_true, if_false]

/-- **The lines of an import, and those behind it.** -/
theorem cleanLines_import {inner : List Char} (h : ImportPaths inner) (rest : List Char) :
    cleanLines false (lines ("import (".toList ++ inner ++ ')' :: '\n' :: rest)) =
      List.replicate (inner.count '\n' + 1) [] ++ cleanLines (decide (HidesEnd inner)) (lines rest) := by
  by_cases hfeed : '\n' ∈ inner
  · obtain ⟨line, tail, rfl, hfree⟩ := List.eq_append_cons_of_mem hfeed
    obtain ⟨hline, htail⟩ := h.of_line rfl hfree
    have hfree' : '\n' ∉ "import (".toList ++ line := by simpa using hfree
    have hends : decide (HidesEnd (line ++ '\n' :: tail)) = decide ('"' ∈ lastLine tail) := by
      simp [HidesEnd, lastLine_line]
    have hfirst : cleanLine false (dropLineEnd ("import (".toList ++ line ++ ['\n'])) = ([], true) := by
      have hdrop : dropLineEnd ("import (".toList ++ line ++ ['\n']) =
          "import (".toList ++ dropLineEnd (line ++ ['\n']) := by
        rw [List.append_assoc]
        exact dropLineEnd_append (c := '(') (by decide) "import ".toList line
      have hclose : ')' ∉ trimEnd (dropLineEnd (line ++ ['\n'])) := fun hmem =>
        hline.not_close ((dropLineEnd_feed line).subset ((dropEndWhile_isPrefix isBlank _).subset hmem))
      rw [hdrop, cleanLine_import, decide_eq_true hclose]
    have hlines : lines ("import (".toList ++ (line ++ '\n' :: tail) ++ ')' :: '\n' :: rest) =
        dropLineEnd ("import (".toList ++ line ++ ['\n']) :: lines (tail ++ ')' :: '\n' :: rest) := by
      rw [← lines_line hfree']
      simp
    have hcleaned : cleanLines false (lines ("import (".toList ++ (line ++ '\n' :: tail) ++ ')' :: '\n' :: rest)) =
        [] :: cleanLines true (lines (tail ++ ')' :: '\n' :: rest)) := by
      rw [hlines, cleanLines, hfirst]
    rw [hcleaned, cleanLines_paths htail, count_line hfree, hends]
    rfl
  · have hfree : '\n' ∉ "import (".toList ++ inner := by simpa using hfeed
    have hends : decide (HidesEnd inner) = false := by simp [HidesEnd, hfeed]
    have hclose : decide (')' ∉ trimEnd (inner ++ [')'])) = false := by
      rw [trimEnd_concat (by decide)]
      simp
    rw [lines_close hfree, List.append_assoc, cleanLines, cleanLine_import, hclose, hends,
      List.count_eq_zero_of_not_mem hfeed]
    rfl

end Cleanup

open Text Cleanup

/-! ### Texts -/

theorem ofList_replicate_append (count : Nat) (kept : List (List Char)) :
    String.ofList ((List.replicate count [] ++ kept).flatMap (· ++ ['\n'])) =
      blankLines count ++ String.ofList (kept.flatMap (· ++ ['\n'])) := by
  have hblank : (List.replicate count []).flatMap (· ++ ['\n']) = List.replicate count '\n' := by
    rw [List.flatMap_replicate]
    simp
  rw [List.flatMap_append, String.ofList_append, hblank, blankLines]

/-- The text without its first lines. -/
def withoutLines (count : Nat) (text : String) : String :=
  String.ofList ((pieces text.toList).drop count).flatten

theorem pieces_drop (count : Nat) (text : List Char) :
    pieces ((pieces text).drop count).flatten = (pieces text).drop count := by
  induction text using linesInduction generalizing count with
  | nil => simp [pieces]
  | last line hne hfree =>
    rw [pieces_last hfree hne]
    cases count with
    | zero => simpa using pieces_last hfree hne
    | succ count => simp [pieces]
  | line line rest hfree ih =>
    cases count with
    | zero => rw [List.drop_zero, flatten_pieces]
    | succ count =>
      rw [pieces_line hfree, List.drop_succ_cons]
      exact ih count

theorem cleanup_withoutLines (count : Nat) (text : String) : cleanup (withoutLines count text) =
    String.ofList ((cleanLines false ((lines text.toList).drop count)).flatMap (· ++ ['\n'])) := by
  rw [cleanup, withoutLines, String.toList_ofList, lines, pieces_drop, lines, List.map_drop]

/-- **An import in front of a text.**  Each of its lines is blanked.  What follows it is cleaned up as if it stood
alone, unless a path hides the closing parenthesis: then the lines that follow are blanked too, up to the first one that
starts with a closing parenthesis.  So nothing behind the import is ever lost if and only if no path hides its end. -/
theorem cleanup_import {inner : String} (h : ImportPaths inner.toList) :
    (∀ rest, cleanup ("import (" ++ inner ++ ")\n" ++ rest) = blankLines (inner.toList.count '\n' + 1) ++
      if HidesEnd inner.toList then
        blankLines (linesInside (lines rest.toList)) ++ cleanup (withoutLines (linesInside (lines rest.toList)) rest)
      else cleanup rest) ∧
    ((∀ rest, cleanup ("import (" ++ inner ++ ")\n" ++ rest) =
      blankLines (inner.toList.count '\n' + 1) ++ cleanup rest) ↔ ¬ HidesEnd inner.toList) := by
  have hall : ∀ rest, cleanup ("import (" ++ inner ++ ")\n" ++ rest) = blankLines (inner.toList.count '\n' + 1) ++
      if HidesEnd inner.toList then
        blankLines (linesInside (lines rest.toList)) ++ cleanup (withoutLines (linesInside (lines rest.toList)) rest)
      else cleanup rest := by
    intro rest
    have htext : ("import (" ++ inner ++ ")\n" ++ rest).toList =
        "import (".toList ++ inner.toList ++ ')' :: '\n' :: rest.toList := by
      simp only [String.toList_append, List.append_assoc]
      rfl
    rw [cleanup, htext, cleanLines_import h, ofList_replicate_append]
    split
    · next hhides =>
      rw [decide_eq_true hhides, cleanLines_open, ofList_replicate_append, cleanup_withoutLines]
    · next hshows =>
      rw [decide_eq_false hshows]
      rfl
  refine ⟨hall, fun hkept hhides => ?_, fun hshows rest => ?_⟩
  · have hlost := (hall "x").symm.trans (hkept "x")
    rw [if_pos hhides, String.append_right_inj] at hlost
    exact absurd hlost (by decide)
  · rw [hall rest, if_neg hshows]

/-- Two paths on lines of their own, and the closing parenthesis behind a tab. -/
theorem cleanup_import_tab :
    ImportPaths "\n\t\"fmt\" \"os\"\n\t".toList ∧ ¬ HidesEnd "\n\t\"fmt\" \"os\"\n\t".toList ∧
      cleanup ("import (" ++ "\n\t\"fmt\" \"os\"\n\t" ++ ")\n" ++ ") = 1\n") =
        blankLines ("\n\t\"fmt\" \"os\"\n\t".toList.count '\n' + 1) ++ cleanup ") = 1\n" := by
  have hend : ImportPaths "\n\t".toList := .blank (by decide) (.blank (by decide) .nil)
  have hlast : ImportPaths "\"os\"\n\t".toList := @ImportPaths.path "os".toList _ (by simp) hend
  have hpaths : ImportPaths "\"fmt\" \"os\"\n\t".toList :=
    @ImportPaths.path "fmt".toList _ (by simp) (.blank (by decide) hlast)
  have hinner : ImportPaths "\n\t\"fmt\" \"os\"\n\t".toList := .blank (by decide) (.blank (by decide) hpaths)
  have hshows : ¬ HidesEnd "\n\t\"fmt\" \"os\"\n\t".toList := by decide
  exact ⟨hinner, hshows, (cleanup_import hinner).2.mpr hshows ") = 1\n"⟩

/-- A path in front of the closing parenthesis: the statement behind the import is lost. -/
theorem import_hides_statement :
    ImportPaths "\n\"fmt\"".toList ∧ cleanup ("import (" ++ "\n\"fmt\"" ++ ")\n" ++ "x := 1\n") = "\n\n\n" ∧
      blankLines ("\n\"fmt\"".toList.count '\n' + 1) ++ cleanup "x := 1\n" = "\n\nx := 1\n" :=
  ⟨.blank (by decide) (@ImportPaths.path "fmt".toList _ (by simp) .nil), by decide +kernel, by decide +kernel⟩

end GoScript
