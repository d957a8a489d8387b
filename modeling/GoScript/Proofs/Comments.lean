import GoScript.Proofs.LineBreaks
import GoScript.Proofs.LineNumbers
import Mathlib.Algebra.Group.Nat.Even

/-!
# Comments

Cleanup and the scanner look for comments in different ways.  Cleanup goes through each line by itself and counts the
quotes in it; the scanner tries its patterns at one place after the other, and to it a line feed in a string is a
character like any other.  They agree as long as no line leaves a quote open: then what cleanup removes is what the
scanner skips.

* `Plain` — closed strings and other characters, without a comment, in front of some other text
* `wordsOf_plain`, `wordsOf_skipped` — the tokens of such a text and those behind it, and the tokens behind a gap
* `Cleanup.exists_removed` — what is kept of a line, and what is removed behind it
* `Cleanup.wordsOf_line`, `Cleanup.wordsOf_cleanLines` — the tokens of one line, and those of all
* `tokensOf_cleanup` — a text has the same tokens before and after cleanup
-/

namespace GoScript

open Pattern

/-! ### Texts without comments -/

/-- A text in front of `rest` that is made of closed strings and of other characters, and in which no comment starts. -/
inductive Plain (rest : List Char) : List Char → Prop
  | done : Plain rest []
  | char {c : Char} {text : List Char} : c ≠ '"' → (c = '/' → (text ++ rest).head? ≠ some '/') → Plain rest text →
    Plain rest (c :: text)
  | string {content text : List Char} : '"' ∉ content → Plain rest text →
    Plain rest ('"' :: content ++ '"' :: text)

namespace Plain

variable {text rest : List Char}

theorem tail {c : Char} (h : Plain rest (c :: text)) (hquote : c ≠ '"') : Plain rest text := by
  cases h with
  | char _ _ htext => exact htext
  | string => exact absurd rfl hquote

/-- A front part without quotes can be left away. -/
theorem drop {front : List Char} (h : Plain rest (front ++ text)) (hfront : '"' ∉ front) : Plain rest text := by
  induction front with
  | nil => exact h
  | cons c front ih =>
    rw [List.mem_cons, not_or] at hfront
    exact ih (h.tail (Ne.symm hfront.1)) hfront.2

/-- Only a slash matters at the start of what follows. -/
theorem before {other : List Char} (h : Plain rest text) (hother : other.head? = some '/' → rest.head? = some '/') :
    Plain other text := by
  induction h with
  | done => exact .done
  | @char c text hquote hslash _ ih =>
    refine .char hquote (fun hc hhead => hslash hc ?_) ih
    cases text with
    | nil => exact hother hhead
    | cons d text => exact hhead
  | string hcontent _ ih => exact .string hcontent ih

end Plain

/-! ### The tokens in front of a blank, a comment or a quote -/

namespace Lexeme

variable {c : Char} (hquote : c ≠ '"') (hblank : Text.isBlank c = false)
include hquote hblank

/-- What is read next is neither blank, nor a string, nor a comment: a blank, a slash or a quote behind the text does not
change it. -/
theorem atStart_stop {text rest : List Char} (hslash : c = '/' → (text ++ rest).head? ≠ some '/')
    (hrest : ∀ stop ∈ rest.head?, isStop stop = true) : atStart c (text ++ rest) = atStart c text := by
  cases rest with
  | nil => rw [List.append_nil]
  | cons stop rest =>
    have hnone : ∀ tail : List Char, (c = '/' → tail.head? ≠ some '/') → comment.matchLength? (c :: tail) = none := by
      intro tail htail
      rw [Option.eq_none_iff_forall_ne_some]
      intro count hcount
      obtain ⟨inner, hcons, -⟩ := matchLength?_comment hcount
      obtain ⟨rfl, rfl⟩ := List.cons.inj hcons
      exact htail rfl rfl
    refine atStart_append (first?_congr fun pattern hpattern => ?_)
    by_cases hcomment : pattern = comment
    · have htext : c = '/' → text.head? ≠ some '/' := fun hc hhead => hslash hc (by simp [hhead])
      rw [hcomment, hnone text htext]
      exact hnone _ hslash
    · exact matchLength?_stop hpattern hcomment hquote hblank (hrest stop rfl) text rest

theorem quote_not_mem_atStart {text : List Char} (hslash : c = '/' → text.head? ≠ some '/') :
    '"' ∉ (atStart c text).text := by
  have hfree : ∀ front : List Char, '"' ∉ front → '"' ∉ (atStart c front).text := by
    intro front hfront hmem
    obtain ⟨after, hsplit, -, -⟩ := exists_atStart c front
    have hcons : '"' ∈ c :: front := by
      rw [hsplit]
      exact List.mem_append_left after hmem
    exact (List.mem_cons.mp hcons).elim (fun heq => hquote heq.symm) hfront
  by_cases hmem : '"' ∈ text
  · -- the lexeme ends before the first quote
    obtain ⟨front, rest, rfl, hfront⟩ := List.eq_append_cons_of_mem hmem
    rw [atStart_stop hquote hblank hslash (by simp [isStop])]
    exact hfree front hfront
  · exact hfree text hmem

end Lexeme

/-- **The tokens of a text without comments**, and those of what follows it.  The induction is on the text, one lexeme
after the other. -/
theorem wordsOf_plain {text rest : List Char} (h : Plain rest text) (hrest : ∀ stop ∈ rest.head?, isStop stop = true) :
    wordsOf (text ++ rest) = wordsOf text ++ wordsOf rest := by
  induction hlength : text.length using Nat.strongRecOn generalizing text with
  | ind length ih =>
    cases h with
    | done => rfl
    | @string content text hcontent htext =>
      have hshorter : text.length < length := by
        simp only [List.length_append, List.length_cons] at hlength
        omega
      have hsplit : '"' :: content ++ '"' :: text ++ rest = '"' :: content ++ '"' :: (text ++ rest) := by simp
      rw [hsplit, wordsOf_string hcontent, wordsOf_string hcontent, ih text.length hshorter htext rfl, List.cons_append]
    | @char c text hquote hslash htext =>
      rw [List.length_cons] at hlength
      cases hblank : Text.isBlank c with
      | true =>
        rw [List.cons_append, wordsOf_blank hblank, wordsOf_blank hblank]
        exact ih text.length (by omega) htext rfl
      | false =>
        obtain ⟨after, hsplit, hne, -⟩ := Lexeme.exists_atStart c text
        have hslash' : c = '/' → text.head? ≠ some '/' := fun hc hhead => hslash hc (by simp [hhead])
        have hafter : Plain rest after :=
          Plain.drop (hsplit ▸ .char hquote hslash htext) (Lexeme.quote_not_mem_atStart hquote hblank hslash')
        have hshorter : after.length < length := by
          have hlengths := congrArg List.length hsplit
          have hpositive := List.length_pos_iff.mpr hne
          rw [List.length_cons, List.length_append] at hlengths
          omega
        have hsame := Lexeme.atStart_stop hquote hblank hslash hrest
        have hwords := ih after.length hshorter hafter rfl
        rw [wordsOf, wordsOf] at hwords
        rw [List.cons_append, wordsOf, wordsOf, lexemes_append hsplit hne hsame, lexemes_cons hsplit hne,
          ← List.singleton_append, List.filterMap_append, hwords, ← List.append_assoc, ← List.filterMap_append]
        rfl

/-- What is skipped starts with a blank or a slash. -/
theorem Skipped.isStop_head {gap rest : List Char} (h : Skipped gap rest)
    (hrest : ∀ stop ∈ rest.head?, isStop stop = true) : ∀ stop ∈ (gap ++ rest).head?, isStop stop = true := by
  induction h with
  | done => exact hrest
  | @blanks run gap rest hrun _ ih =>
    cases run with
    | nil => exact ih hrest
    | cons c run =>
      rintro stop ⟨⟩
      exact isStop_of_isBlank (hrun c List.mem_cons_self)
  | comment =>
    rintro stop ⟨⟩
    decide

/-- **The tokens behind a gap.** -/
theorem wordsOf_skipped {gap rest : List Char} (h : Skipped gap rest) : wordsOf (gap ++ rest) = wordsOf rest := by
  induction h with
  | done => rfl
  | @blanks run gap rest hrun _ ih =>
    induction run with
    | nil => exact ih
    | cons c run ihrun =>
      rw [List.cons_append, List.cons_append, wordsOf_blank (hrun c List.mem_cons_self)]
      exact ihrun fun d hd => hrun d (List.mem_cons_of_mem c hd)
  | @comment body gap rest hbody hbehind _ ih =>
    have htake : (body ++ (gap ++ rest)).takeWhile (· != '\n') = body := by
      refine takeWhile_append_of_head (fun c hc => ?_) fun next hnext => ?_
      · exact bne_iff_ne.mpr fun heq => hbody (heq ▸ hc)
      · rw [hbehind next hnext]
        rfl
    have hmatch : comment.matchLength? ('/' :: '/' :: body ++ (gap ++ rest)) = some ('/' :: '/' :: body).length := by
      show some (((body ++ (gap ++ rest)).takeWhile (· != '\n')).length + 2) = _
      rw [htake]
      rfl
    have hfirst := first?_of_table [word, integer, blank, string] rfl (by
      intro other hother
      simp only [List.mem_cons, List.not_mem_nil, or_false] at hother
      rcases hother with rfl | rfl | rfl | rfl <;> rfl) hmatch
    rw [List.append_assoc, wordsOf, lexemes_of_first? (List.cons_ne_nil _ _) hfirst, List.filterMap_cons_none rfl]
    exact ih

/-! ### What cleanup keeps and removes -/

namespace Cleanup

open Text

/-- One character that is kept. -/
theorem isPrefix_of_cons {quoted : Bool} {c : Char} {text line : List Char}
    (h : c :: text <+: cutCommentFrom quoted (c :: line)) :
    text <+: cutCommentFrom (if c = '"' then !quoted else quoted) line ∧
      (quoted = false → c = '/' → line.head? ≠ some '/') := by
  rw [cutCommentFrom] at h
  by_cases hquote : c = '"'
  · rw [if_pos hquote] at h ⊢
    refine ⟨(List.prefix_cons_inj c).mp h, ?_⟩
    rintro - rfl
    cases hquote
  · rw [if_neg hquote] at h ⊢
    by_cases hcomment : (decide (c = '/') && !quoted && line.head? == some '/') = true
    · rw [if_pos hcomment] at h
      cases List.prefix_nil.mp h
    · rw [if_neg hcomment] at h
      refine ⟨(List.prefix_cons_inj c).mp h, ?_⟩
      rintro rfl rfl hhead
      exact hcomment (by simp [hhead])

/-- **What cleanup keeps has no comment**, provided that it leaves no quote open.  In a quote, what is kept up to its end
is the rest of a string.  The induction is on what is kept. -/
theorem plain_of_kept {quoted : Bool} {text rest : List Char} (h : text <+: cutCommentFrom quoted (text ++ rest))
    (heven : Even (text.count '"' + quoted.toNat)) :
    (quoted = false → Plain rest text) ∧
      (quoted = true → ∃ content more, text = content ++ '"' :: more ∧ '"' ∉ content ∧ Plain rest more) := by
  induction text generalizing quoted with
  | nil =>
    refine ⟨fun _ => .done, ?_⟩
    rintro rfl
    exact absurd heven (by decide)
  | cons c text ih =>
    obtain ⟨htail, hslash⟩ := isPrefix_of_cons h
    by_cases hquote : c = '"'
    · subst hquote
      rw [if_pos rfl] at htail
      have heven' : Even (text.count '"' + (!quoted).toNat) := by
        rw [List.count_cons_self] at heven
        cases quoted with
        | false => exact heven
        | true => simpa [Nat.even_add_one] using heven
      obtain ⟨hopen, hclosed⟩ := ih htail heven'
      constructor
      · rintro rfl
        obtain ⟨content, more, rfl, hcontent, hmore⟩ := hclosed rfl
        exact .string hcontent hmore
      · rintro rfl
        exact ⟨[], text, rfl, List.not_mem_nil, hopen rfl⟩
    · rw [if_neg hquote] at htail
      rw [List.count_cons_of_ne hquote] at heven
      obtain ⟨hopen, hclosed⟩ := ih htail heven
      constructor
      · rintro rfl
        exact .char hquote (hslash rfl) (hopen rfl)
      · rintro rfl
        obtain ⟨content, more, rfl, hcontent, hmore⟩ := hclosed rfl
        exact ⟨c :: content, more, rfl, by simp [hcontent, Ne.symm hquote], hmore⟩

/-- What is cut off a line is nothing or a comment. -/
theorem exists_comment (quoted : Bool) (line : List Char) : ∃ comment,
    line = cutCommentFrom quoted line ++ comment ∧ (comment = [] ∨ ∃ body, comment = '/' :: '/' :: body) := by
  induction line generalizing quoted with
  | nil => exact ⟨[], rfl, .inl rfl⟩
  | cons c line ih =>
    rw [cutCommentFrom]
    split
    · obtain ⟨comment, hline, hcomment⟩ := ih (!quoted)
      exact ⟨comment, congrArg (c :: ·) hline, hcomment⟩
    · split
      · next hslashes =>
        simp only [Bool.and_eq_true, decide_eq_true_eq, beq_iff_eq] at hslashes
        obtain ⟨body, rfl⟩ := List.head?_eq_some_iff.mp hslashes.2
        exact ⟨c :: '/' :: body, rfl, .inr ⟨body, by rw [hslashes.1.1]⟩⟩
      · obtain ⟨comment, hline, hcomment⟩ := ih quoted
        exact ⟨comment, congrArg (c :: ·) hline, hcomment⟩

theorem exists_trimEnd (text : List Char) :
    ∃ blanks, text = trimEnd text ++ blanks ∧ ∀ c ∈ blanks, isBlank c = true :=
  ⟨text.rtakeWhile isBlank, List.rdropWhile_append_rtakeWhile.symm, fun _ => List.mem_rtakeWhile_imp⟩

/-- **What is kept of a line**, and what is removed behind it: blanks and a comment. -/
theorem exists_removed {line : List Char} (heven : Even ((cutComment line).count '"')) : ∃ blanks comment,
    line = trimEnd (cutComment line) ++ (blanks ++ comment) ∧ (∀ c ∈ blanks, isBlank c = true) ∧
      (comment = [] ∨ ∃ body, comment = '/' :: '/' :: body) ∧ Plain (blanks ++ comment) (trimEnd (cutComment line)) := by
  obtain ⟨comment, hline, hcomment⟩ := exists_comment false line
  obtain ⟨blanks, hcut, hblanks⟩ := exists_trimEnd (cutComment line)
  have hsplit : line = trimEnd (cutComment line) ++ (blanks ++ comment) := by
    rw [← List.append_assoc, ← hcut]
    exact hline
  have hquotes : (cutComment line).count '"' = (trimEnd (cutComment line)).count '"' := by
    have hnone : blanks.count '"' = 0 := List.count_eq_zero.mpr fun hmem => absurd (hblanks _ hmem) (by decide)
    conv_lhs => rw [hcut]
    rw [List.count_append, hnone, Nat.add_zero]
  refine ⟨blanks, comment, hsplit, hblanks, hcomment, (plain_of_kept ?_ ?_).1 rfl⟩
  · rw [← hsplit]
    exact dropEndWhile_isPrefix isBlank _
  · rw [← hquotes]
    exact heven

/-! ### The tokens of lines -/

section

variable {line : List Char} (heven : Even ((cutComment line).count '"'))
include heven

/-- The tokens of what is kept of a line, in front of a line feed. -/
theorem wordsOf_kept (rest : List Char) :
    wordsOf (trimEnd (cutComment line) ++ '\n' :: rest) = wordsOf (trimEnd (cutComment line)) ++ wordsOf rest := by
  obtain ⟨blanks, comment, -, -, -, hplain⟩ := exists_removed heven
  have hplain' : Plain ('\n' :: rest) (trimEnd (cutComment line)) := hplain.before fun hhead => by cases hhead
  rw [wordsOf_plain hplain' (by simp [isStop, isBlank, blankRanges]), wordsOf_blank (by decide)]

/-- **The tokens of a line** are those of what is kept of it.  Blanks may follow the line on its way to a line feed. -/
theorem wordsOf_line {tail : List Char} (htail : ∀ c ∈ tail, isBlank c = true) (hfree : '\n' ∉ line ++ tail)
    {rest : List Char} (hrest : ∀ next ∈ rest.head?, next = '\n') :
    wordsOf (line ++ tail ++ rest) = wordsOf (trimEnd (cutComment line)) ++ wordsOf rest := by
  obtain ⟨blanks, comment, hline, hblanks, hcomment, hplain⟩ := exists_removed heven
  generalize trimEnd (cutComment line) = kept at hline hplain ⊢
  subst hline
  have hgap : Skipped (blanks ++ (comment ++ tail)) rest := by
    refine .blanks hblanks ?_
    rcases hcomment with rfl | ⟨body, rfl⟩
    · simpa using Skipped.blanks htail (.done rest)
    · have hbody : '\n' ∉ body ++ tail := fun hmem => hfree (by
        rcases List.mem_append.mp hmem with hmem | hmem <;> simp [hmem])
      have hcomment := Skipped.comment hbody (show ∀ next ∈ ([] ++ rest).head?, next = '\n' from hrest) (.done rest)
      simpa using hcomment
  have hslash : ((blanks ++ (comment ++ tail)) ++ rest).head? = some '/' → (blanks ++ comment).head? = some '/' := by
    rw [← List.append_assoc, List.append_assoc]
    cases blanks ++ comment with
    | cons c removed => exact id
    | nil =>
      intro hhead
      cases tail with
      | nil => cases hrest '/' hhead
      | cons c tail =>
        cases Option.some.inj hhead
        exact absurd (htail '/' List.mem_cons_self) (by decide)
  have hstop := hgap.isStop_head fun next hnext => by rw [hrest next hnext]; decide
  calc wordsOf (kept ++ (blanks ++ comment) ++ tail ++ rest)
      = wordsOf (kept ++ ((blanks ++ (comment ++ tail)) ++ rest)) := by simp only [List.append_assoc]
    _ = wordsOf kept ++ wordsOf ((blanks ++ (comment ++ tail)) ++ rest) := wordsOf_plain (hplain.before hslash) hstop
    _ = wordsOf kept ++ wordsOf rest := by rw [wordsOf_skipped hgap]

end

/-- A line that is no package clause and no import. -/
theorem cleanLine_of_none {line : List Char} (hpackage : afterKeyword? "package".toList (trim line) = none)
    (himport : afterKeyword? "import".toList (trim line) = none) :
    cleanLine false line = (trimEnd (cutComment line), false) := by
  rw [cleanLine, hpackage, himport]
  rfl

/-- **The tokens of all lines.**  The induction is on the lines. -/
theorem wordsOf_cleanLines {text : List Char}
    (hkeywords : ∀ line ∈ lines text,
      afterKeyword? "package".toList (trim line) = none ∧ afterKeyword? "import".toList (trim line) = none)
    (hquotes : ∀ line ∈ lines text, Even ((cutComment line).count '"')) :
    wordsOf ((cleanLines false (lines text)).flatMap (· ++ ['\n'])) = wordsOf text := by
  induction text using linesInduction with
  | nil => rfl
  | last line hne hfree =>
    rw [lines, pieces_last hfree hne, List.map_singleton, dropLineEnd_of_not_mem hfree] at hkeywords hquotes ⊢
    obtain ⟨hpackage, himport⟩ := hkeywords line List.mem_cons_self
    have heven := hquotes line List.mem_cons_self
    have hwords : wordsOf (line ++ [] ++ []) = wordsOf (trimEnd (cutComment line)) ++ wordsOf [] :=
      wordsOf_line heven (by simp) (by simpa using hfree) (by simp)
    rw [List.append_nil, List.append_nil] at hwords
    rw [cleanLines, cleanLine_of_none hpackage himport, List.flatMap_cons, hwords, List.append_assoc]
    exact wordsOf_kept heven []
  | line line rest hfree ih =>
    rw [lines, pieces_line hfree, List.map_cons, ← lines] at hkeywords hquotes ⊢
    obtain ⟨hpackage, himport⟩ := hkeywords _ List.mem_cons_self
    have heven := hquotes _ List.mem_cons_self
    have hrest := ih (fun other hother => hkeywords other (List.mem_cons_of_mem _ hother))
      fun other hother => hquotes other (List.mem_cons_of_mem _ hother)
    obtain ⟨tail, hline, htail⟩ : ∃ tail, line = dropLineEnd (line ++ ['\n']) ++ tail ∧
        ∀ c ∈ tail, isBlank c = true := by
      rcases eq_dropLineEnd_feed line with heq | heq
      · exact ⟨[], by rw [List.append_nil, ← heq], by simp⟩
      · exact ⟨['\r'], heq, fun c hc => by rw [List.mem_singleton.mp hc]; decide⟩
    have hwords : wordsOf (dropLineEnd (line ++ ['\n']) ++ tail ++ '\n' :: rest) = _ :=
      wordsOf_line heven htail (hline ▸ hfree) (by simp)
    rw [← hline, wordsOf_blank (by decide)] at hwords
    rw [cleanLines, cleanLine_of_none hpackage himport, List.flatMap_cons, hwords, ← hrest, List.append_assoc]
    exact wordsOf_kept heven _

end Cleanup

/-! ### Source texts -/

open Cleanup Text

/-- **Cleanup keeps the tokens.**  If no line of a source text is a package clause or starts an import, and none leaves
a quote open in front of its comment, then the text has the same tokens before and after cleanup, up to their places. -/
theorem tokensOf_cleanup {source : String}
    (hkeywords : ∀ line ∈ lines source.toList,
      afterKeyword? "package".toList (trim line) = none ∧ afterKeyword? "import".toList (trim line) = none)
    (hquotes : ∀ line ∈ lines source.toList, Even ((cutComment line).count '"')) (file : String) :
    (tokensOf (cleanup source) file).map (fun token => (token.kind, token.value)) =
      (tokensOf source file).map (fun token => (token.kind, token.value)) := by
  have hwords := wordsOf_cleanLines hkeywords hquotes
  rw [tokensOf, tokensOf, List.map_append, List.map_append, map_scan, map_scan, ← hwords, cleanup,
    String.toList_ofList]
  rfl

/-- Slashes in a string, a quote in a comment, and a slash right before a comment. -/
theorem tokensOf_cleanup_slashes :
    let source := "x := \"a // b\" / // \"c\r\n\t/2 //\r\n"
    (∀ line ∈ lines source.toList,
      afterKeyword? "package".toList (trim line) = none ∧ afterKeyword? "import".toList (trim line) = none) ∧
      (∀ line ∈ lines source.toList, Even ((cutComment line).count '"')) ∧
      (cleanup source).toList = "x := \"a // b\" /\n\t/2\n".toList ∧
      (tokensOf (cleanup source) "shell").map (fun token => (token.kind, token.value)) =
        (tokensOf source "shell").map (fun token => (token.kind, token.value)) := by
  intro source
  have hkeywords : ∀ line ∈ lines source.toList,
      afterKeyword? "package".toList (trim line) = none ∧ afterKeyword? "import".toList (trim line) = none := by decide
  have hquotes : ∀ line ∈ lines source.toList, Even ((cutComment line).count '"') := by decide
  exact ⟨hkeywords, hquotes, by decide, tokensOf_cleanup hkeywords hquotes "shell"⟩

end GoScript
