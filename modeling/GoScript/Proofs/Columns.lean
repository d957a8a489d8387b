import GoScript.Proofs.LineNumbers

/-!
# Columns

Cleanup blanks whole lines and cuts lines at their end, so every byte that is left stands on the line and in the column
where it stood before.  Lines are taken in two ways here: with `\r\n` as an end of a line, which is how cleanup takes
them, and up to each line feed, which is how a place is found.

* `Text.byteAt?` — a byte of a text
* `Text.exists_of_locate` — the line that an offset is located on, and the byte in its column
* `Cleanup.BeforeComment` — what stands on a line before its first comment
* `Cleanup.InBlock`, `Cleanup.Dropped` — inside an import block, and the lines that are blanked
* `Cleanup.cleanLine_dropped`, `Cleanup.cleanLine_inBlock` — one line: what is kept of it, and whether a block is open
* `Cleanup.getElem?_cleanLines`, `Cleanup.lines_cleanup` — all lines
* `cleanup_columns` — what becomes of each line, and where each byte that is left stood
-/

namespace GoScript.Text

/-! ### Bytes -/

/-- The byte of a text at an offset. -/
def byteAt? (text : List Char) (offset : Nat) : Option UInt8 :=
  (String.ofList text).toUTF8.data[offset]?

theorem size_bytes (text : List Char) : (String.ofList text).toUTF8.data.size = byteSize text :=
  utf8ByteSize_ofList text

theorem bytes_append (front back : List Char) : (String.ofList (front ++ back)).toUTF8.data =
    (String.ofList front).toUTF8.data ++ (String.ofList back).toUTF8.data := by
  rw [String.ofList_append]
  exact (congrArg ByteArray.data String.toByteArray_append).trans ByteArray.data_append

theorem lt_of_byteAt? {text : List Char} {offset : Nat} {byte : UInt8} (h : byteAt? text offset = some byte) :
    offset < byteSize text := by
  obtain ⟨hlt, -⟩ := Array.getElem?_eq_some_iff.mp h
  rwa [size_bytes] at hlt

theorem byteAt?_append_left {front : List Char} {offset : Nat} (h : offset < byteSize front) (back : List Char) :
    byteAt? (front ++ back) offset = byteAt? front offset := by
  rw [byteAt?, bytes_append, Array.getElem?_append_left (by rwa [size_bytes]), byteAt?]

theorem byteAt?_append_right (front back : List Char) (offset : Nat) :
    byteAt? (front ++ back) (byteSize front + offset) = byteAt? back offset := by
  rw [byteAt?, bytes_append, Array.getElem?_append_right (by rw [size_bytes]; exact Nat.le_add_right _ _), size_bytes,
    Nat.add_sub_cancel_left, byteAt?]

/-- **The line of an offset** has the same byte in the column of the offset. -/
theorem exists_of_locate {text : List Char} {offset : Nat} (h : offset < byteSize text) :
    ∃ index, (locate text offset).line = index + 1 ∧ (pieces text)[index]? = some (locate text offset).text ∧
      (locate text offset).column < byteSize (locate text offset).text ∧
      byteAt? text offset = byteAt? (locate text offset).text (locate text offset).column := by
  obtain ⟨before, after, hpieces, hline, hoffset, hcolumn⟩ := exists_of_findPlace (findPlace_of_lt h) (Nat.zero_le _)
  generalize locate text offset = place at hpieces hline hoffset hcolumn ⊢
  have htext : text = before.flatten ++ (place.text ++ after.flatten) := by
    rw [← flatten_pieces text, hpieces, List.flatten_append, List.flatten_cons]
  rw [Nat.zero_add] at hoffset
  refine ⟨before.length, hline.trans (Nat.add_comm _ _), ?_, hcolumn, ?_⟩
  · rw [hpieces, List.getElem?_append_right (Nat.le_refl _), Nat.sub_self]
    rfl
  · rw [htext, hoffset, byteAt?_append_right, byteAt?_append_left hcolumn]

end GoScript.Text

namespace GoScript.Cleanup

open Text

/-! ### Lines that are cut -/

/-- Behind `front` a comment starts on a line: two slashes follow, and there is an even number of quotes before them. -/
def CommentBehind (line front : List Char) : Prop :=
  (∃ comment, line = front ++ '/' :: '/' :: comment) ∧ front.count '"' % 2 = 0

/-- What stands on a line before its first comment, and the whole line if it has none. -/
def BeforeComment (line front : List Char) : Prop :=
  (CommentBehind line front ∨ front = line) ∧ ∀ other, CommentBehind line other → front.length ≤ other.length

theorem succ_mod_two_eq_toNat (count : Nat) (quoted : Bool) :
    (count + 1) % 2 = quoted.toNat ↔ count % 2 = (!quoted).toNat := by
  cases quoted with
  | false =>
    show (count + 1) % 2 = 0 ↔ count % 2 = 1
    omega
  | true =>
    show (count + 1) % 2 = 1 ↔ count % 2 = 0
    omega

/-- A line is cut at the first pair of slashes that an odd number of quotes stands in front of if a quote is open at its
start, and an even number if not. -/
theorem cutCommentFrom_spec (quoted : Bool) (line : List Char) :
    ((∃ comment, line = cutCommentFrom quoted line ++ '/' :: '/' :: comment) ∧
        (cutCommentFrom quoted line).count '"' % 2 = quoted.toNat ∨ cutCommentFrom quoted line = line) ∧
      ∀ other, (∃ comment, line = other ++ '/' :: '/' :: comment) → other.count '"' % 2 = quoted.toNat →
        (cutCommentFrom quoted line).length ≤ other.length := by
  induction line generalizing quoted with
  | nil => exact ⟨.inr rfl, fun other _ _ => Nat.zero_le _⟩
  | cons c rest ih =>
    rw [cutCommentFrom]
    by_cases hquote : c = '"'
    · subst hquote
      obtain ⟨hcut, hfirst⟩ := ih !quoted
      rw [if_pos rfl]
      refine ⟨?_, ?_⟩
      · rcases hcut with ⟨⟨comment, hrest⟩, hcount⟩ | hrest
        · refine .inl ⟨⟨comment, congrArg ('"' :: ·) hrest⟩, ?_⟩
          rw [List.count_cons_self]
          exact (succ_mod_two_eq_toNat _ quoted).mpr hcount
        · exact .inr (congrArg ('"' :: ·) hrest)
      · rintro (_ | ⟨d, other⟩) ⟨comment, hline⟩ hcount
        · cases hline
        · obtain ⟨rfl, hrest⟩ := List.cons.inj hline
          refine Nat.succ_le_succ (hfirst other ⟨comment, hrest⟩ ?_)
          rw [List.count_cons_self] at hcount
          exact (succ_mod_two_eq_toNat _ quoted).mp hcount
    · rw [if_neg hquote]
      by_cases hslashes : (c = '/' && !quoted && rest.head? == some '/') = true
      · rw [if_pos hslashes]
        simp only [Bool.and_eq_true, decide_eq_true_eq, Bool.not_eq_true', beq_iff_eq] at hslashes
        obtain ⟨⟨rfl, rfl⟩, hhead⟩ := hslashes
        obtain ⟨comment, rfl⟩ := List.head?_eq_some_iff.mp hhead
        exact ⟨.inl ⟨⟨comment, rfl⟩, rfl⟩, fun other _ _ => Nat.zero_le _⟩
      · rw [if_neg hslashes]
        obtain ⟨hcut, hfirst⟩ := ih quoted
        refine ⟨?_, ?_⟩
        · rcases hcut with ⟨⟨comment, hrest⟩, hcount⟩ | hrest
          · refine .inl ⟨⟨comment, congrArg (c :: ·) hrest⟩, ?_⟩
            rwa [List.count_cons_of_ne hquote]
          · exact .inr (congrArg (c :: ·) hrest)
        · rintro (_ | ⟨d, other⟩) ⟨comment, hline⟩ hcount
          · obtain ⟨rfl, rfl⟩ := List.cons.inj hline
            cases quoted with
            | false => exact absurd rfl hslashes
            | true => cases hcount
          · obtain ⟨rfl, hrest⟩ := List.cons.inj hline
            rw [List.count_cons_of_ne hquote] at hcount
            exact Nat.succ_le_succ (hfirst other ⟨comment, hrest⟩ hcount)

/-- **A line is cut** at its first comment. -/
theorem cutComment_beforeComment (line : List Char) : BeforeComment line (cutComment line) := by
  obtain ⟨hcut, hfirst⟩ := cutCommentFrom_spec false line
  exact ⟨hcut, fun other hother => hfirst other hother.1 hother.2⟩

/-! ### Lines that are blanked -/

/-- A line that opens an import block. -/
def OpensBlock (line : List Char) : Prop :=
  ∃ rest, afterKeyword? "import".toList (trim line) = some rest ∧ rest.head? = some '(' ∧ ')' ∉ rest

/-- A line that closes an import block. -/
def ClosesBlock (line : List Char) : Prop :=
  (trim line).head? = some ')'

/-- Behind these lines an import block is open: one of them opens it, and no later one closes it. -/
def InBlock (before : List (List Char)) : Prop :=
  ∃ front line back, before = front ++ line :: back ∧ OpensBlock line ∧ ∀ other ∈ back, ¬ ClosesBlock other

/-- A line that is blanked, given the lines before it: it stands in an import block, or a package clause or an import
starts on it. -/
def Dropped (before : List (List Char)) (line : List Char) : Prop :=
  InBlock before ∨ (afterKeyword? "package".toList (trim line)).isSome = true ∨
    (afterKeyword? "import".toList (trim line)).isSome = true

/-- In front of all lines no block is open. -/
theorem inBlock_nil : false = true ↔ InBlock [] := by
  constructor
  · intro h
    cases h
  · rintro ⟨front, line, back, heq, -⟩
    simp at heq

theorem inBlock_append {before : List (List Char)} {line : List Char} :
    InBlock (before ++ [line]) ↔ OpensBlock line ∨ InBlock before ∧ ¬ ClosesBlock line := by
  constructor
  · rintro ⟨front, opener, back, heq, hopens, hback⟩
    rcases List.eq_nil_or_concat back with rfl | ⟨back, last, rfl⟩
    · obtain ⟨-, hline⟩ := List.append_inj' heq rfl
      cases hline
      exact .inl hopens
    · rw [List.concat_eq_append, ← List.cons_append, ← List.append_assoc] at heq
      obtain ⟨rfl, hline⟩ := List.append_inj' heq rfl
      cases hline
      refine .inr ⟨⟨front, opener, back, rfl, hopens, fun other hother => hback other ?_⟩, hback _ ?_⟩
      · simp [hother]
      · simp
  · rintro (hopens | ⟨⟨front, opener, back, rfl, hopens, hback⟩, hline⟩)
    · exact ⟨before, line, [], rfl, hopens, by simp⟩
    · refine ⟨front, opener, back ++ [line], by simp, hopens, fun other hother => ?_⟩
      rcases List.mem_append.mp hother with hother | hother
      · exact hback other hother
      · rwa [List.mem_singleton.mp hother]

/-- A line with a keyword starts with it. -/
theorem head?_of_afterKeyword? {c : Char} {keyword line rest : List Char}
    (h : afterKeyword? (c :: keyword) line = some rest) : line.head? = some c := by
  rw [afterKeyword?] at h
  split at h
  · next hkeyword =>
    obtain ⟨tail, rfl⟩ := List.isPrefixOf_iff_prefix.mp hkeyword
    rfl
  · cases h

/-! ### One line and all lines -/

section

variable {inImports : Bool} {before : List (List Char)} (hstate : inImports = true ↔ InBlock before)
  (line : List Char)
include hstate

/-- **What is kept of a line.** -/
theorem cleanLine_dropped :
    Dropped before line ∧ (cleanLine inImports line).1 = [] ∨
      ¬ Dropped before line ∧ (cleanLine inImports line).1 = trimEnd (cutComment line) := by
  rw [cleanLine, Dropped, ← hstate]
  cases inImports with
  | true => exact .inl ⟨.inl rfl, rfl⟩
  | false =>
    cases hpackage : afterKeyword? "package".toList (trim line) with
    | some rest => exact .inl ⟨.inr (.inl rfl), rfl⟩
    | none =>
      cases himport : afterKeyword? "import".toList (trim line) with
      | some rest => exact .inl ⟨.inr (.inr rfl), rfl⟩
      | none => exact .inr ⟨by simp, rfl⟩

/-- **Whether an import block is open behind a line.** -/
theorem cleanLine_inBlock : (cleanLine inImports line).2 = true ↔ InBlock (before ++ [line]) := by
  rw [inBlock_append, ← hstate, cleanLine]
  cases inImports with
  | true =>
    have hopens : OpensBlock line → ¬ ClosesBlock line := by
      rintro ⟨rest, hrest, -⟩ hcloses
      cases (head?_of_afterKeyword? hrest).symm.trans hcloses
    have hflag : ((trim line).head? != some ')') = true ↔ ¬ ClosesBlock line := by rw [bne_iff_ne, ClosesBlock]
    exact hflag.trans ⟨fun hcloses => .inr ⟨rfl, hcloses⟩, fun hcases => hcases.elim hopens And.right⟩
  | false =>
    cases hpackage : afterKeyword? "package".toList (trim line) with
    | some rest =>
      have hopens : ¬ OpensBlock line := by
        rintro ⟨rest, hrest, -⟩
        cases (head?_of_afterKeyword? hrest).symm.trans (head?_of_afterKeyword? hpackage)
      simp [hopens]
    | none =>
      cases himport : afterKeyword? "import".toList (trim line) with
      | some rest =>
        have hopens : OpensBlock line ↔ rest.head? = some '(' ∧ ')' ∉ rest := by
          rw [OpensBlock, himport]
          simp
        simp [hopens]
      | none =>
        have hopens : ¬ OpensBlock line := by
          rintro ⟨rest, hrest, -⟩
          cases himport.symm.trans hrest
        simp [hopens]

end

/-- **What is kept of each line.**  The induction is on the lines, and the flag says whether a block is open behind those
that have been passed. -/
theorem getElem?_cleanLines {inImports : Bool} {before lines : List (List Char)}
    (hstate : inImports = true ↔ InBlock before) {index : Nat} {line : List Char} (h : lines[index]? = some line) :
    ∃ kept, (cleanLines inImports lines)[index]? = some kept ∧
      (Dropped (before ++ lines.take index) line ∧ kept = [] ∨
        ¬ Dropped (before ++ lines.take index) line ∧ kept = trimEnd (cutComment line)) := by
  induction lines generalizing inImports before index with
  | nil => cases h
  | cons first rest ih =>
    cases index with
    | zero =>
      cases h
      rw [List.take_zero, List.append_nil]
      exact ⟨_, rfl, cleanLine_dropped hstate line⟩
    | succ index =>
      obtain ⟨kept, hkept, hcases⟩ := ih (cleanLine_inBlock hstate first) h
      rw [List.append_assoc] at hcases
      exact ⟨kept, hkept, hcases⟩

theorem length_cleanLines (inImports : Bool) (lines : List (List Char)) :
    (cleanLines inImports lines).length = lines.length := by
  induction lines generalizing inImports with
  | nil => rfl
  | cons line rest ih => exact congrArg (· + 1) (ih _)

/-- What is kept comes from the line with the same number. -/
theorem exists_line_of_kept {lines : List (List Char)} {index : Nat} {kept : List Char}
    (h : (cleanLines false lines)[index]? = some kept) :
    ∃ line, lines[index]? = some line ∧
      (Dropped (lines.take index) line ∧ kept = [] ∨
        ¬ Dropped (lines.take index) line ∧ kept = trimEnd (cutComment line)) := by
  obtain ⟨hlt, -⟩ := List.getElem?_eq_some_iff.mp h
  rw [length_cleanLines] at hlt
  have hline := List.getElem?_eq_getElem hlt
  obtain ⟨kept', hkept', hcases⟩ := getElem?_cleanLines inBlock_nil hline
  cases h.symm.trans hkept'
  exact ⟨_, hline, hcases⟩

theorem dropLineEnd_trimEnd (text : List Char) : dropLineEnd (trimEnd text ++ ['\n']) = trimEnd text := by
  rcases eq_dropLineEnd_feed (trimEnd text) with heq | heq
  · exact heq.symm
  · -- a carriage return would have been trimmed
    have hne : trimEnd text ≠ [] := by
      rw [heq]
      simp
    have hlast : (trimEnd text).getLast? = some '\r' := by rw [heq, List.getLast?_concat]
    have hblank : ¬ isBlank ((trimEnd text).getLast hne) = true := List.rdropWhile_last_not isBlank text hne
    rw [List.getLast?_eq_some_getLast hne] at hlast
    rw [Option.some.inj hlast] at hblank
    exact absurd (by decide) hblank

/-- **The lines after cleanup** are what is kept of the lines before. -/
theorem lines_cleanup (source : String) :
    lines (cleanup source).toList = cleanLines false (lines source.toList) := by
  have hkept : ∀ kept ∈ cleanLines false (lines source.toList), dropLineEnd (kept ++ ['\n']) = kept := by
    intro kept hmem
    obtain ⟨index, hindex⟩ := List.getElem?_of_mem hmem
    obtain ⟨line, -, ⟨-, rfl⟩ | ⟨-, rfl⟩⟩ := exists_line_of_kept hindex
    · rfl
    · exact dropLineEnd_trimEnd _
  rw [lines, pieces_cleanup, List.map_map]
  exact (List.map_congr_left hkept).trans (List.map_id _)

/-- **A byte that is left**, other than a line feed, comes from the line with its number and from the same column. -/
theorem exists_of_byteAt? {source : String} {offset : Nat} {byte : UInt8}
    (h : byteAt? (cleanup source).toList offset = some byte) (hbyte : byte ≠ '\n'.toUInt8) :
    ∃ index line, (locate (cleanup source).toList offset).line = index + 1 ∧
      (lines source.toList)[index]? = some line ∧
      byteAt? line (locate (cleanup source).toList offset).column = some byte := by
  obtain ⟨index, hnumber, hpiece, hcolumn, hsame⟩ := exists_of_locate (lt_of_byteAt? h)
  generalize locate (cleanup source).toList offset = place at hnumber hpiece hcolumn hsame ⊢
  rw [pieces_cleanup, List.getElem?_map, Option.map_eq_some_iff] at hpiece
  obtain ⟨kept, hkept, htext⟩ := hpiece
  obtain ⟨line, hline, hcases⟩ := exists_line_of_kept hkept
  have hinside : place.column < byteSize kept := by
    rw [← htext, byteSize_append] at hcolumn
    by_contra hge
    have hend : place.column = byteSize kept + 0 := by
      have hfeed : byteSize ['\n'] = 1 := rfl
      omega
    rw [h, ← htext, hend, byteAt?_append_right] at hsame
    exact hbyte (Option.some.inj hsame)
  obtain ⟨back, rfl⟩ : kept <+: line := by
    rcases hcases with ⟨-, rfl⟩ | ⟨-, rfl⟩
    · exact List.nil_prefix
    · exact (dropEndWhile_isPrefix isBlank _).trans (cutCommentFrom_isPrefix false line)
  refine ⟨index, kept ++ back, hnumber, hline, ?_⟩
  rw [byteAt?_append_left hinside, ← byteAt?_append_left hinside ['\n'], htext, ← hsame, h]

end GoScript.Cleanup

namespace GoScript

open Text Cleanup

/-- **Cleanup keeps lines and columns.**  A source text has as many lines after cleanup as before.  A line is empty
afterwards if a package clause or an import starts on it or if it stands in an import block, and otherwise it is what it
was before its comment, which starts at the first pair of slashes behind an even number of quotes, without the blanks at
its end.  Hence every byte that is left, line feeds apart, stands in the
column, and on the line, in which the source has the same byte. -/
theorem cleanup_columns (source : String) :
    (lines (cleanup source).toList).length = (lines source.toList).length ∧
      (∀ index line, (lines source.toList)[index]? = some line →
        ∃ kept, (lines (cleanup source).toList)[index]? = some kept ∧
          (Dropped ((lines source.toList).take index) line ∧ kept = [] ∨
            ¬ Dropped ((lines source.toList).take index) line ∧ BeforeComment line (cutComment line) ∧
              kept = trimEnd (cutComment line))) ∧
      ∀ offset byte, byteAt? (cleanup source).toList offset = some byte → byte ≠ '\n'.toUInt8 →
        ∃ index line, (locate (cleanup source).toList offset).line = index + 1 ∧
          (lines source.toList)[index]? = some line ∧
          byteAt? line (locate (cleanup source).toList offset).column = some byte := by
  refine ⟨?_, ?_, fun offset byte => exists_of_byteAt?⟩
  · rw [lines_cleanup, length_cleanLines]
  · intro index line hline
    rw [lines_cleanup]
    obtain ⟨kept, hkept, hcases⟩ := getElem?_cleanLines inBlock_nil hline
    refine ⟨kept, hkept, hcases.imp_right ?_⟩
    rintro ⟨hdropped, hcut⟩
    exact ⟨hdropped, cutComment_beforeComment line, hcut⟩

/-- The last byte of `é` on the fifth line, behind an import block and in front of a comment. -/
theorem cleanup_columns_block :
    let source := "package p\r\nimport (\n\"fmt\"\n)\nx := \"é//\"  // c\r\n"
    (lines source.toList)[2]? = some "\"fmt\"".toList ∧
      (∃ kept, (lines (cleanup source).toList)[2]? = some kept ∧
        (Dropped ((lines source.toList).take 2) "\"fmt\"".toList ∧ kept = [] ∨
          ¬ Dropped ((lines source.toList).take 2) "\"fmt\"".toList ∧
            BeforeComment "\"fmt\"".toList (cutComment "\"fmt\"".toList) ∧
            kept = trimEnd (cutComment "\"fmt\"".toList))) ∧
      byteAt? (cleanup source).toList 11 = some 0xa9 ∧
      ∃ index line, (locate (cleanup source).toList 11).line = index + 1 ∧ (lines source.toList)[index]? = some line ∧
        byteAt? line (locate (cleanup source).toList 11).column = some 0xa9 := by
  intro source
  have hline : (lines source.toList)[2]? = some "\"fmt\"".toList := by decide
  have hbyte : byteAt? (cleanup source).toList 11 = some 0xa9 := by decide +kernel
  obtain ⟨-, hlines, hbytes⟩ := cleanup_columns source
  exact ⟨hline, hlines 2 _ hline, hbyte, hbytes 11 0xa9 hbyte (by decide)⟩

end GoScript
