import GoScript.Proofs.Spacing
import Mathlib.Order.Bounds.Basic

/-!
# Maximal munch

The table of patterns is searched from its front, and the first pattern that matches decides what is read.  The order
of the table makes up for that: no start of the text that is longer than what was read is described by any pattern.
A step of the scan reads what the first pattern takes, or a single character where no pattern matches.

* `Pattern.Describes` — the texts of a pattern; `Pattern.lengths` — how long a start of a text a pattern describes
* `Pattern.matchLength?_eq_some_iff` — a pattern takes the longest start that it describes
* `Pattern.table_outmatches` — of two patterns that match, the one that stands first takes no less
* `Pattern.Munches` — what is true of the first pattern that matches
* `Scanner.Steps`, `Scanner.steps_atStart` — one step of a scan, and what it reads
* `Scanner.token?_munches` — steps take as much as any pattern, and stray characters are left to no pattern
-/

namespace GoScript

namespace Pattern

/-! ### The texts of a pattern -/

/-- What can stand behind the first character of a name: letters, digits and underscores, and dots with the start of
another name behind each of them. -/
inductive NameTail : List Char → Prop
  | done : NameTail []
  | part {c : Char} {tail : List Char} : isWordPart c → NameTail tail → NameTail (c :: tail)
  | dot {c : Char} {tail : List Char} : isWordStart c → NameTail tail → NameTail ('.' :: c :: tail)

/-- The texts of a pattern. -/
inductive Describes : Pattern → List Char → Prop
  | word {c : Char} {tail : List Char} : isWordStart c → NameTail tail → Describes word (c :: tail)
  | integer {digits : List Char} : digits ≠ [] → (∀ c ∈ digits, c.isDigit) → Describes integer digits
  | blank {run : List Char} : run ≠ [] → (∀ c ∈ run, Text.isBlank c) → Describes blank run
  | string {content : List Char} : '"' ∉ content → Describes string ('"' :: (content ++ ['"']))
  | comment {body : List Char} : '\n' ∉ body → Describes comment ('/' :: '/' :: body)
  | fixed (kind : TokenKind) (sign spelling : String) : Describes (fixed kind sign spelling) sign.toList

/-- The lengths of the starts of a text that a pattern describes. -/
def lengths (pattern : Pattern) (text : List Char) : Set Nat :=
  {length | ∃ front, front <+: text ∧ pattern.Describes front ∧ front.length = length}

variable {pattern other : Pattern} {text front back : List Char} {c : Char} {count length : Nat}

theorem nameTail_take_wordTail (text : List Char) : NameTail (text.take (wordTail text)) := by
  fun_induction wordTail text with
  | case1 => exact .done
  | case2 c hpart => exact .part hpart .done
  | case3 | case6 => exact .done
  | case4 c d rest hpart ih => exact .part hpart ih
  | case5 c d rest hpart hdot ih =>
    simp only [Bool.and_eq_true, decide_eq_true_eq] at hdot
    obtain ⟨rfl, hstart⟩ := hdot
    exact .dot hstart ih

/-- No longer tail of a name could be taken. -/
theorem NameTail.length_le {tail : List Char} (h : NameTail tail) (back : List Char) :
    tail.length ≤ wordTail (tail ++ back) := by
  induction h with
  | done => exact Nat.zero_le _
  | @part c tail hpart _ ih =>
    rw [List.cons_append, List.length_cons]
    cases hrest : tail ++ back with
    | nil =>
      obtain ⟨rfl, rfl⟩ := List.append_eq_nil_iff.mp hrest
      simp [wordTail, hpart]
    | cons d rest =>
      rw [wordTail, if_pos hpart, ← hrest]
      exact Nat.succ_le_succ ih
  | @dot c tail hstart _ ih =>
    have hpart : isWordPart '.' = false := by decide
    rw [List.cons_append, List.cons_append, wordTail, if_neg (by simp [hpart]), if_pos (by simp [hstart])]
    exact Nat.succ_le_succ (Nat.succ_le_succ ih)

/-- A run of characters goes at least as far as a start of the text that is made of them. -/
theorem exists_runLength? {p : Char → Bool} (hne : front ≠ []) (hfront : ∀ c ∈ front, p c = true) (back : List Char) :
    ∃ count, runLength? p (front ++ back) = some count ∧ front.length ≤ count := by
  have hlength : ((front ++ back).takeWhile p).length = front.length + (back.takeWhile p).length := by
    rw [List.takeWhile_append_of_pos hfront, List.length_append]
  have hpos : 0 < front.length := List.length_pos_iff.mpr hne
  refine ⟨front.length + (back.takeWhile p).length, ?_, Nat.le_add_right _ _⟩
  rw [runLength?, hlength]
  split
  · omega
  · rfl

theorem length_of_runLength? {p : Char → Bool} (h : runLength? p text = some count) :
    (text.takeWhile p).length = count := by
  unfold runLength? at h
  split at h <;> cases h
  rfl

theorem matchLength?_fixed {kind : TokenKind} {sign spelling : String}
    (h : (fixed kind sign spelling).matchLength? text = some count) :
    sign.toList <+: text ∧ count = spelling.toList.length := by
  rw [matchLength?] at h
  split at h
  · next hbegins =>
    cases h
    exact ⟨List.isPrefixOf_iff_prefix.mp hbegins, rfl⟩
  · cases h

/-- **What a pattern takes is one of its texts.** -/
theorem mem_lengths (hpattern : pattern ∈ table) (h : pattern.matchLength? text = some count) :
    count ∈ pattern.lengths text := by
  cases pattern with
  | word =>
    cases text with
    | nil => cases h
    | cons c rest =>
      rw [matchLength?] at h
      split at h
      · next hstart =>
        cases h
        refine ⟨c :: rest.take (wordTail rest), ?_, .word hstart (nameTail_take_wordTail rest), ?_⟩
        · exact List.cons_prefix_cons.mpr ⟨rfl, List.take_prefix _ rest⟩
        · rw [List.length_cons, List.length_take, Nat.min_eq_left (wordTail_le rest)]
      · cases h
  | integer =>
    exact ⟨_, List.takeWhile_prefix _, .integer (runLength?_eq_some h).2 (List.all_eq_true.mp List.all_takeWhile),
      length_of_runLength? h⟩
  | blank =>
    exact ⟨_, List.takeWhile_prefix _, .blank (runLength?_eq_some h).2 (List.all_eq_true.mp List.all_takeWhile),
      length_of_runLength? h⟩
  | string =>
    obtain ⟨rest, rfl, hquote, rfl⟩ := matchLength?_string h
    obtain ⟨after, hafter⟩ := exists_after_quote hquote
    refine ⟨'"' :: (rest.takeWhile (· != '"') ++ ['"']), ⟨after, ?_⟩, .string fun hmem => ?_, by simp⟩
    · rw [List.cons_append, List.append_assoc, List.singleton_append, ← hafter]
    · simpa using List.all_eq_true.mp List.all_takeWhile _ hmem
  | comment =>
    obtain ⟨rest, rfl, rfl⟩ := matchLength?_comment h
    refine ⟨'/' :: '/' :: rest.takeWhile (· != '\n'), ?_, .comment fun hmem => ?_, rfl⟩
    · simpa using List.takeWhile_prefix _
    · simpa using List.all_eq_true.mp List.all_takeWhile _ hmem
  | fixed kind sign spelling =>
    obtain rfl := sign_eq_spelling hpattern
    obtain ⟨hbegins, rfl⟩ := matchLength?_fixed h
    exact ⟨_, hbegins, .fixed kind sign sign, rfl⟩

/-- **A pattern takes no less than any of its texts that the text starts with.** -/
theorem exists_matchLength? (hpattern : pattern ∈ table) (h : pattern.Describes front) (hbegins : front <+: text) :
    ∃ count, pattern.matchLength? text = some count ∧ front.length ≤ count := by
  obtain ⟨back, rfl⟩ := hbegins
  cases h with
  | @word c tail hstart htail =>
    refine ⟨wordTail (tail ++ back) + 1, ?_, Nat.succ_le_succ (htail.length_le back)⟩
    rw [List.cons_append, matchLength?, if_pos hstart]
  | integer hne hdigits => exact exists_runLength? hne hdigits back
  | blank hne hblank => exact exists_runLength? hne hblank back
  | @string content hcontent =>
    have htake : (content ++ '"' :: back).takeWhile (· != '"') = content := by
      refine takeWhile_append_of_head (fun c hc => ?_) (by simp)
      exact bne_iff_ne.mpr fun heq => hcontent (heq ▸ hc)
    refine ⟨content.length + 2, ?_, by simp⟩
    rw [List.cons_append, List.append_assoc, List.singleton_append, matchLength?, if_pos (by simp), htake]
  | @comment body hbody =>
    have htake : ∀ c ∈ body, (c != '\n') = true := fun c hc => bne_iff_ne.mpr fun heq => hbody (heq ▸ hc)
    refine ⟨((body ++ back).takeWhile (· != '\n')).length + 2, rfl, ?_⟩
    rw [List.takeWhile_append_of_pos htake]
    simp
  | fixed kind sign spelling =>
    obtain rfl := sign_eq_spelling hpattern
    refine ⟨sign.toList.length, ?_, Nat.le_refl _⟩
    rw [matchLength?, if_pos (List.isPrefixOf_iff_prefix.mpr (List.prefix_append _ back))]

/-- **A pattern takes the longest start of a text that it describes**, and matches only if there is one. -/
theorem matchLength?_eq_some_iff (hpattern : pattern ∈ table) :
    pattern.matchLength? text = some count ↔ IsGreatest (pattern.lengths text) count := by
  constructor
  · intro h
    refine ⟨mem_lengths hpattern h, ?_⟩
    rintro length ⟨front, hbegins, hdescribes, rfl⟩
    obtain ⟨longest, hlongest, hle⟩ := exists_matchLength? hpattern hdescribes hbegins
    cases hlongest.symm.trans h
    exact hle
  · rintro ⟨⟨front, hbegins, hdescribes, rfl⟩, hupper⟩
    obtain ⟨longest, hlongest, hle⟩ := exists_matchLength? hpattern hdescribes hbegins
    rw [hlongest, Nat.le_antisymm (hupper (mem_lengths hpattern hlongest)) hle]

/-! ### The order of the table -/

/-- The characters that the texts of a pattern can start with. -/
def canStart : Pattern → Char → Bool
  | word, c => isWordStart c
  | integer, c => c.isDigit
  | blank, c => Text.isBlank c
  | string, c => c == '"'
  | comment, c => c == '/'
  | fixed _ sign _, c => sign.toList.head? == some c

theorem canStart_of_match (hpattern : pattern ∈ table) (h : pattern.matchLength? text = some count) :
    ∃ c rest, text = c :: rest ∧ pattern.canStart c = true := by
  obtain ⟨front, ⟨back, rfl⟩, hdescribes, -⟩ := mem_lengths hpattern h
  cases hdescribes with
  | word hstart => exact ⟨_, _, rfl, hstart⟩
  | integer hne hdigits =>
    obtain ⟨c, rest, rfl⟩ := List.exists_cons_of_ne_nil hne
    exact ⟨c, rest ++ back, rfl, hdigits c List.mem_cons_self⟩
  | blank hne hblank =>
    obtain ⟨c, rest, rfl⟩ := List.exists_cons_of_ne_nil hne
    exact ⟨c, rest ++ back, rfl, hblank c List.mem_cons_self⟩
  | string => exact ⟨_, _, rfl, rfl⟩
  | comment => exact ⟨_, _, rfl, rfl⟩
  | fixed kind sign spelling =>
    obtain rfl := sign_eq_spelling hpattern
    obtain ⟨c, tail, hspelling, -⟩ := fixed_spelling hpattern
    exact ⟨c, tail ++ back, by rw [hspelling]; rfl, by simp [canStart, hspelling]⟩

/-- A sign starts with a character that starts no name, number, run of blanks or string. -/
theorem canStart_fixed {kind : TokenKind} {sign spelling : String} (hfixed : fixed kind sign spelling ∈ table)
    (h : (fixed kind sign spelling).canStart c = true) :
    isWordStart c = false ∧ c.isDigit = false ∧ Text.isBlank c = false ∧ c ≠ '"' := by
  have hhead := Lexeme.holds_of_mem_table
    (fun _ spelling => spelling.toList.head?.all fun c =>
      !isWordStart c && !c.isDigit && !Text.isBlank c && c != '"') (by decide) hfixed
  rw [canStart, beq_iff_eq, sign_eq_spelling hfixed] at h
  simpa [h, and_assoc] using hhead

/-- Names, numbers, blanks and strings have first characters that no other pattern has. -/
theorem eq_of_canStart (hpattern : pattern ∈ [word, integer, blank, string]) (hother : other ∈ table)
    (h : pattern.canStart c = true) (h' : other.canStart c = true) : other = pattern := by
  have hdigit : c.isDigit = true → isWordStart c = false := isWordStart_of_isDigit
  have hblank : Text.isBlank c = true → isWordStart c = false ∧ c.isDigit = false := not_start_of_isBlank
  have hquote : c = '"' → isWordStart c = false ∧ c.isDigit = false ∧ Text.isBlank c = false := by
    rintro rfl
    decide
  have hslash : c = '/' → isWordStart c = false ∧ c.isDigit = false ∧ Text.isBlank c = false ∧ c ≠ '"' := by
    rintro rfl
    decide
  simp only [List.mem_cons, List.not_mem_nil, or_false] at hpattern
  cases other with
  | fixed kind sign spelling =>
    have hsign := canStart_fixed hother h'
    rcases hpattern with rfl | rfl | rfl | rfl <;> simp_all [canStart]
  | word | integer | blank | string | comment =>
    rcases hpattern with rfl | rfl | rfl | rfl <;> simp_all [canStart]

/-- Where both match, `pattern` takes no less than `other`. -/
def Outmatches (pattern other : Pattern) : Prop :=
  ∀ text count length, pattern.matchLength? text = some count → other.matchLength? text = some length → length ≤ count

/-- Whether the table may have `pattern` in front of `other`: a sign stands behind all patterns that are no signs, and
in front of the signs that do not start with it. -/
def mayPrecede : (pattern other : Pattern) → Bool
  | fixed _ sign _, fixed _ longer _ => !sign.toList.isPrefixOf longer.toList
  | fixed _ _ _, _ => false
  | _, _ => true

/-- A sign that starts with a slash is no longer than the two slashes of a comment. -/
theorem length_le_of_slash {kind : TokenKind} {sign spelling : String} (hfixed : fixed kind sign spelling ∈ table)
    (h : (fixed kind sign spelling).canStart '/' = true) : spelling.toList.length ≤ 2 := by
  have hshort := Lexeme.holds_of_mem_table
    (fun _ spelling => spelling.toList.head? != some '/' || spelling.toList.length ≤ 2) (by decide) hfixed
  rw [canStart, beq_iff_eq, sign_eq_spelling hfixed] at h
  simpa [h] using hshort

theorem outmatches_of_mayPrecede (hpattern : pattern ∈ table) (hother : other ∈ table)
    (h : mayPrecede pattern other = true) : Outmatches pattern other := by
  intro text count length hcount hlength
  obtain ⟨c, rest, rfl, hstart⟩ := canStart_of_match hpattern hcount
  obtain ⟨_, _, hcons, hstart'⟩ := canStart_of_match hother hlength
  obtain ⟨rfl, rfl⟩ := List.cons.inj hcons
  have same : other = pattern → length ≤ count := by
    rintro rfl
    exact Nat.le_of_eq (Option.some.inj (hlength.symm.trans hcount))
  cases pattern with
  | word | integer | blank | string => exact same (eq_of_canStart (by simp) hother hstart hstart')
  | comment =>
    cases other with
    | word | integer | blank | string => exact same (eq_of_canStart (by simp) hpattern hstart' hstart).symm
    | comment => exact same rfl
    | fixed kind sign spelling =>
      obtain ⟨_, -, rfl⟩ := matchLength?_comment hcount
      obtain rfl := beq_iff_eq.mp hstart
      rw [(matchLength?_fixed hlength).2]
      exact (length_le_of_slash hother hstart').trans (Nat.le_add_left 2 _)
  | fixed kind sign spelling =>
    cases other with
    | word | integer | blank | string | comment => cases h
    | fixed kind' longer spelling' =>
      obtain rfl := sign_eq_spelling hpattern
      obtain rfl := sign_eq_spelling hother
      obtain ⟨hbegins, rfl⟩ := matchLength?_fixed hcount
      obtain ⟨hbegins', rfl⟩ := matchLength?_fixed hlength
      -- both are starts of one text, so the shorter one is a start of the longer one
      by_contra hlonger
      have hstarts := List.prefix_of_prefix_length_le hbegins hbegins' (by omega)
      rw [mayPrecede, List.isPrefixOf_iff_prefix.mpr hstarts] at h
      cases h

/-- **The order of the table.**  Of two patterns that match, the one that stands first takes no less. -/
theorem table_outmatches : table.Pairwise Outmatches := by
  have horder : table.Pairwise fun pattern other => mayPrecede pattern other = true := by decide
  exact horder.imp_of_mem outmatches_of_mayPrecede

/-- **Maximal munch.**  The pattern is the first of the table that matches at the start of the text; no pattern of the
table takes more there, and no longer start of the text is described by any of them. -/
structure Munches (text : List Char) (pattern : Pattern) (count : Nat) : Prop where
  first : ∃ before after, table = before ++ pattern :: after ∧ ∀ other ∈ before, other.matchLength? text = none
  takes : pattern.matchLength? text = some count
  longest : ∀ other ∈ table, ∀ length, other.matchLength? text = some length → length ≤ count
  greatest : IsGreatest {length | ∃ other ∈ table, length ∈ other.lengths text} count

theorem munches_of_first? (h : first? text = some (pattern, count)) : Munches text pattern count := by
  obtain ⟨hpattern, htakes⟩ := first?_eq_some h
  obtain ⟨before, found, after, htable, hfound, hbefore⟩ := List.findSome?_eq_some_iff.mp h
  obtain ⟨_, -, hpair⟩ := Option.map_eq_some_iff.mp hfound
  obtain ⟨rfl, -⟩ := Prod.mk.inj hpair
  have hnone : ∀ other ∈ before, other.matchLength? text = none := fun other hother =>
    Option.map_eq_none_iff.mp (hbefore other hother)
  have hlongest : ∀ other ∈ table, ∀ length, other.matchLength? text = some length → length ≤ count := by
    intro other hother length hlength
    have hpairwise := table_outmatches
    rw [htable] at hother hpairwise
    rcases List.mem_append.mp hother with hmem | hmem
    · cases (hnone other hmem).symm.trans hlength
    · rcases List.mem_cons.mp hmem with rfl | hmem
      · exact Nat.le_of_eq (Option.some.inj (hlength.symm.trans htakes))
      · have hbehind := (List.pairwise_cons.mp (List.pairwise_append.mp hpairwise).2.1).1
        exact hbehind other hmem text count length htakes hlength
  refine ⟨⟨before, after, htable, hnone⟩, htakes, hlongest, ⟨found, hpattern, mem_lengths hpattern htakes⟩, ?_⟩
  rintro _ ⟨other, hother, front, hbegins, hdescribes, rfl⟩
  obtain ⟨length, hlength, hle⟩ := exists_matchLength? hother hdescribes hbegins
  exact hle.trans (hlongest other hother length hlength)

/-- Where the table gives a pattern, there is no stray character. -/
theorem first?_of_illegal {rest : List Char} {value : String}
    (h : (Lexeme.atStart c rest).token? = some (.illegal, value)) : first? (c :: rest) = none := by
  cases hfirst : first? (c :: rest) with
  | none => rfl
  | some found =>
    obtain ⟨pattern, count⟩ := found
    have hlexeme : Lexeme.atStart c rest = ⟨some pattern, (c :: rest).take count⟩ := by rw [Lexeme.atStart, hfirst]
    rw [hlexeme] at h
    cases pattern with
    | blank | comment | integer | string => cases h
    | word =>
      have hword : TokenKind.ofWord (String.ofList ((c :: rest).take count)) = .illegal :=
        congrArg Prod.fst (Option.some.inj h)
      have hmem := ofWord_mem (String.ofList ((c :: rest).take count))
      rw [hword] at hmem
      exact absurd hmem (by decide)
    | fixed kind sign spelling =>
      have hlegal := Lexeme.holds_of_mem_table (fun kind _ => kind != .illegal) (by decide) (first?_eq_some hfirst).1
      cases h
      cases hlegal

end Pattern

/-! ### Steps of a scan -/

namespace Text

/-- Bytes can be dropped in two goes. -/
theorem dropBytes?_add {text rest : List Char} {m : Nat} (h : dropBytes? text m = some rest) (n : Nat) :
    dropBytes? text (m + n) = dropBytes? rest n := by
  fun_induction dropBytes? text m with
  | case1 text =>
    cases h
    rw [Nat.zero_add]
  | case2 => cases h
  | case3 c text m hsize ih =>
    rw [← ih h, Nat.add_right_comm m 1 n, dropBytes?, if_pos (by omega)]
    congr 1
    omega
  | case4 => cases h

theorem byteSize_of_dropBytes? {text rest : List Char} {m : Nat} (h : dropBytes? text m = some rest) :
    byteSize text = m + byteSize rest := by
  fun_induction dropBytes? text m with
  | case1 text =>
    cases h
    rw [Nat.zero_add]
  | case2 => cases h
  | case3 c text m hsize ih =>
    rw [byteSize_cons, ih h]
    omega
  | case4 => cases h

end Text

namespace Scanner

variable {scanner : Scanner} {c : Char} {rest front back : List Char}

/-- One step of a scan reads a lexeme: it gives the token that the lexeme stands for, or goes on behind it. -/
def Steps (scanner : Scanner) (lexeme : Lexeme) : Prop :=
  scanner.token? = match lexeme.token? with
    | some (kind, value) =>
      some (⟨kind, value, scanner.spanOf (Text.byteSize lexeme.text)⟩, scanner.skip (Text.byteSize lexeme.text))
    | none => (scanner.skip (Text.byteSize lexeme.text)).token?

theorem remainder?_skip (h : scanner.remainder? = some (front ++ back)) :
    (scanner.skip (Text.byteSize front)).remainder? = some back := by
  show Text.dropBytes? scanner.text (scanner.offset + Text.byteSize front) = some back
  rw [Text.dropBytes?_add h, Text.dropBytes?_byteSize_append]

theorem skip_skip (scanner : Scanner) (m n : Nat) : (scanner.skip m).skip n = scanner.skip (m + n) := by
  rw [skip, skip, skip, Nat.add_assoc]

/-- At the end of the text no lexeme is left, so the end need not be told apart. -/
theorem token?_of_remainder? (h : scanner.remainder? = some rest) :
    scanner.token? = some (scanner.takeToken (lexemes rest)) := by
  rw [token?, h]
  split
  · next hend =>
    have hsize := Text.byteSize_of_dropBytes? h
    have hle : Text.byteSize scanner.text ≤ scanner.offset := of_decide_eq_true hend
    cases rest with
    | nil => rfl
    | cons c rest =>
      have := c.utf8Size_pos
      rw [Text.byteSize_cons] at hsize
      omega
  · rfl

/-- **A step of a scan reads the next lexeme.** -/
theorem steps_atStart (h : scanner.remainder? = some (c :: rest)) : scanner.Steps (Lexeme.atStart c rest) := by
  obtain ⟨after, htext, hne, -⟩ := Lexeme.exists_atStart c rest
  have hafter := remainder?_skip (htext ▸ h)
  rw [Steps, token?_of_remainder? h, lexemes_cons htext hne, takeToken]
  cases (Lexeme.atStart c rest).token? with
  | some word => rfl
  | none => exact (token?_of_remainder? hafter).symm

/-- **A stray character** is what a scan stops at where no pattern matches, behind blanks and comments. -/
theorem exists_of_illegal {text : List Char} (h : scanner.remainder? = some text) {token : Token} {later : Scanner}
    (htoken : scanner.token? = some (token, later)) (hkind : token.kind = .illegal) :
    ∃ gap d after, text = gap ++ d :: after ∧ Skipped gap (d :: after) ∧
      (∀ pattern ∈ Pattern.table, pattern.matchLength? (d :: after) = none) ∧
      token = ⟨.illegal, String.ofList [d], (scanner.skip (Text.byteSize gap)).spanOf d.utf8Size⟩ ∧
      later = scanner.skip (Text.byteSize (gap ++ [d])) := by
  induction text using lexemesInduction generalizing scanner with
  | nil =>
    rw [token?_of_remainder? h] at htoken
    cases htoken
    cases hkind
  | lexeme c rest after htext hne hread _ _ ih =>
    have hstep := steps_atStart h
    rw [Steps, htoken] at hstep
    cases hword : (Lexeme.atStart c rest).token? with
    | some word =>
      obtain ⟨kind, value⟩ := word
      rw [hword] at hstep
      obtain ⟨rfl, rfl⟩ := Prod.mk.inj (Option.some.inj hstep)
      obtain rfl : kind = .illegal := hkind
      have hfirst := Pattern.first?_of_illegal hword
      have hlexeme : Lexeme.atStart c rest = ⟨none, [c]⟩ := by rw [Lexeme.atStart, hfirst]
      rw [hlexeme] at hword ⊢
      cases hword
      exact ⟨[], c, rest, rfl, .done _, fun pattern => matchLength?_of_first? hfirst, rfl, rfl⟩
    | none =>
      rw [hword] at hstep
      have hrest := remainder?_skip (htext ▸ h)
      obtain ⟨gap, d, behind, rfl, hgap, hnone, rfl, rfl⟩ := ih hrest hstep.symm
      refine ⟨(Lexeme.atStart c rest).text ++ gap, d, behind, ?_, ?_, hnone, ?_, ?_⟩
      · rw [List.append_assoc, ← htext]
      · generalize Lexeme.atStart c rest = lexeme at hread hword
        cases hread with
        | blank hblank => exact .blanks hblank hgap
        | comment hbody hnext => exact .comment hbody hnext hgap
        | token htoken => cases htoken.symm.trans hword
      · rw [skip_skip, Text.byteSize_append]
      · rw [skip_skip, List.append_assoc, ← Text.byteSize_append]

/-- **Steps of a scan take as much as any pattern could.**  Where patterns match, a step reads exactly what the first of
them takes, and that is as long as any start of the text that a pattern describes.  Where none does, it reads one
character, and that is the only way for a scan to come to a stray character. -/
theorem token?_munches (scanner : Scanner) (h : scanner.remainder? = some (c :: rest)) :
    ((∃ other ∈ Pattern.table, other.matchLength? (c :: rest) ≠ none) →
        ∃ pattern count, Pattern.Munches (c :: rest) pattern count ∧
          scanner.Steps ⟨some pattern, (c :: rest).take count⟩) ∧
      ((∀ other ∈ Pattern.table, other.matchLength? (c :: rest) = none) → scanner.Steps ⟨none, [c]⟩) ∧
      ∀ token later, scanner.token? = some (token, later) → token.kind = .illegal →
        ∃ gap d after, c :: rest = gap ++ d :: after ∧ Skipped gap (d :: after) ∧
          (∀ other ∈ Pattern.table, other.matchLength? (d :: after) = none) ∧
          token = ⟨.illegal, String.ofList [d], (scanner.skip (Text.byteSize gap)).spanOf d.utf8Size⟩ ∧
          later = scanner.skip (Text.byteSize (gap ++ [d])) := by
  have hstep := steps_atStart h
  refine ⟨?_, ?_, fun token later htoken hkind => exists_of_illegal h htoken hkind⟩
  · rintro ⟨other, hother, hmatch⟩
    cases hfirst : Pattern.first? (c :: rest) with
    | none => exact absurd (matchLength?_of_first? hfirst hother) hmatch
    | some found =>
      obtain ⟨pattern, count⟩ := found
      rw [Lexeme.atStart, hfirst] at hstep
      exact ⟨pattern, count, Pattern.munches_of_first? hfirst, hstep⟩
  · intro hnone
    have hfirst : Pattern.first? (c :: rest) = none := by
      rw [Pattern.first?, List.findSome?_eq_none_iff]
      intro other hother
      rw [hnone other hother, Option.map_none]
    rwa [Lexeme.atStart, hfirst] at hstep

/-- Of the colon and the sign that starts with it the longer one is read; a stray character stands behind a comment. -/
theorem token?_munches_declare :
    (∃ pattern count, Pattern.Munches ":=1".toList pattern count ∧
        (ofSource ":=1" "shell").Steps ⟨some pattern, ":=1".toList.take count⟩) ∧
      (ofSource "// a\n@:=" "shell").token? =
        some (⟨.illegal, "@", Span.ofBytes "shell" 5 1⟩, (ofSource "// a\n@:=" "shell").skip 6) ∧
      ∃ gap d after, "// a\n@:=".toList = gap ++ d :: after ∧ Skipped gap (d :: after) ∧
        ∀ other ∈ Pattern.table, other.matchLength? (d :: after) = none := by
  have hstray : (ofSource "// a\n@:=" "shell").token? =
      some (⟨.illegal, "@", Span.ofBytes "shell" 5 1⟩, (ofSource "// a\n@:=" "shell").skip 6) := by rfl
  refine ⟨?_, hstray, ?_⟩
  · exact (token?_munches (ofSource ":=1" "shell") rfl).1 ⟨.fixed .colon ":" ":", by decide, by decide⟩
  · obtain ⟨gap, d, after, htext, hgap, hnone, -⟩ :=
      (token?_munches (ofSource "// a\n@:=" "shell") rfl).2.2 _ _ hstray rfl
    exact ⟨gap, d, after, htext, hgap, hnone⟩

end Scanner

end GoScript
