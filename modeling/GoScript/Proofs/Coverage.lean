import GoScript.Proofs.Lexing

/-!
# Tokens cover the source

Every byte of a source text belongs to a token or to something that is skipped.  The tokens stand one after the other,
each of them on the bytes that it is spelled with; what stands before, between and after them are blanks and comments;
and the end of the input stands right after the last byte.

* `Skipped` — blanks and comments, in front of some text
* `Lexeme.ReadBefore` — what a lexeme in front of some text can be; `Lexeme.exists_atStart` — the next one of a text
* `lexemesInduction` — induction over a text, one lexeme after the other
* `Covering` — tokens of a list of characters; `covering_lexemes` — those of a scan
* `Token.Spans`, `Skips`, `Covers` — tokens of a text of bytes; `Covering.covers` — they are the same thing
* `tokensOf_covers` — the tokens of every source text whose offsets do not wrap around
-/

namespace GoScript

open Pattern

/-! ### What is skipped, and what is not -/

/-- `gap` is a sequence of runs of blanks and of comments, in front of the text `rest`.  A comment goes on until its
line or everything ends. -/
inductive Skipped : (gap rest : List Char) → Prop
  | done (rest : List Char) : Skipped [] rest
  | blanks {run gap rest : List Char} : (∀ c ∈ run, Text.isBlank c) → Skipped gap rest → Skipped (run ++ gap) rest
  | comment {body gap rest : List Char} : '\n' ∉ body → (∀ next ∈ (gap ++ rest).head?, next = '\n') →
    Skipped gap rest → Skipped ('/' :: '/' :: body ++ gap) rest

/-- What stands in the source for a token of some kind and value: strings are between quotes there. -/
def spelling (kind : TokenKind) (value : String) : String :=
  if kind = .string then "\"" ++ value ++ "\"" else value

/-- A lexeme that was read in front of the text `rest`: blanks, a comment, or the spelling of a token. -/
inductive Lexeme.ReadBefore (rest : List Char) : Lexeme → Prop
  | blank {text : List Char} : (∀ c ∈ text, Text.isBlank c) → ReadBefore rest ⟨some .blank, text⟩
  | comment {body : List Char} : '\n' ∉ body → (∀ next ∈ rest.head?, next = '\n') →
    ReadBefore rest ⟨some .comment, '/' :: '/' :: body⟩
  | token {lexeme : Lexeme} {kind : TokenKind} {value : String} : lexeme.token? = some (kind, value) →
    kind ≠ .endOfInput → lexeme.text = (spelling kind value).toList → ReadBefore rest lexeme

namespace Lexeme

/-- A lexeme that is the value of its token. -/
theorem ReadBefore.of_value {rest : List Char} {lexeme : Lexeme} {kind : TokenKind}
    (htoken : lexeme.token? = some (kind, String.ofList lexeme.text)) (hend : kind ≠ .endOfInput)
    (hstring : kind ≠ .string) : lexeme.ReadBefore rest := by
  refine .token htoken hend ?_
  rw [spelling, if_neg hstring, String.toList_ofList]

/-- What is checked of every sign of the table is true of each of them. -/
theorem holds_of_mem_table (holds : TokenKind → String → Bool)
    (hall : table.all (fun
      | fixed kind _ spelling => holds kind spelling
      | _ => true) = true) {kind : TokenKind} {sign spelling : String} (h : fixed kind sign spelling ∈ table) :
    holds kind spelling = true :=
  List.all_eq_true.mp hall _ h

theorem fixed_kind {kind : TokenKind} {sign text : String} (h : fixed kind sign text ∈ table) :
    kind ≠ .endOfInput ∧ kind ≠ .string ∧ text.toList ≠ [] := by
  have hsign := holds_of_mem_table
    (fun kind text => kind != .endOfInput && kind != .string && !text.toList.isEmpty) (by decide) h
  simpa [and_assoc] using hsign

theorem ofWord_kind (word : String) : TokenKind.ofWord word ≠ .endOfInput ∧ TokenKind.ofWord word ≠ .string := by
  have hmem := ofWord_mem word
  constructor
  · intro h
    rw [h] at hmem
    exact absurd hmem (by decide)
  · intro h
    rw [h] at hmem
    exact absurd hmem (by decide)

/-- **What a pattern of the table takes** at the start of a text. -/
theorem readBefore_of_match {pattern : Pattern} (hpattern : pattern ∈ table) {text : List Char} {count : Nat}
    (hmatch : pattern.matchLength? text = some count) :
    text.take count ≠ [] ∧ ReadBefore (text.drop count) ⟨some pattern, text.take count⟩ := by
  cases pattern with
  | word =>
    cases text with
    | nil => cases hmatch
    | cons c rest =>
      rw [matchLength?] at hmatch
      split at hmatch
      · cases hmatch
        exact ⟨by simp, .of_value rfl (ofWord_kind _).1 (ofWord_kind _).2⟩
      · cases hmatch
  | integer =>
    obtain ⟨htake, hne⟩ := runLength?_eq_some hmatch
    exact ⟨htake ▸ hne, .of_value rfl (by decide) (by decide)⟩
  | blank =>
    obtain ⟨htake, hne⟩ := runLength?_eq_some hmatch
    rw [htake]
    exact ⟨hne, .blank (List.all_eq_true.mp List.all_takeWhile)⟩
  | string =>
    obtain ⟨rest, rfl, hquote, rfl⟩ := matchLength?_string hmatch
    rw [take_string hquote]
    refine ⟨by simp, .token rfl (by decide) ?_⟩
    simp [spelling]
  | comment =>
    obtain ⟨rest, rfl, rfl⟩ := matchLength?_comment hmatch
    have htake : ('/' :: '/' :: rest).take ((rest.takeWhile (· != '\n')).length + 2) =
        '/' :: '/' :: rest.takeWhile (· != '\n') := by
      rw [List.take_succ_cons, List.take_succ_cons, ← List.prefix_iff_eq_take.mp (List.takeWhile_prefix _)]
    have hdrop : ('/' :: '/' :: rest).drop ((rest.takeWhile (· != '\n')).length + 2) =
        rest.dropWhile (· != '\n') := by
      rw [List.drop_succ_cons, List.drop_succ_cons]
      conv => lhs; arg 2; rw [← List.takeWhile_append_dropWhile (p := (· != '\n')) (l := rest)]
      exact List.drop_left
    rw [htake, hdrop]
    refine ⟨by simp, .comment (fun hmem => ?_) fun next hnext => ?_⟩
    · simpa using List.all_eq_true.mp List.all_takeWhile _ hmem
    · have hstop := List.head?_dropWhile_not (· != '\n') rest
      rw [Option.mem_def.mp hnext] at hstop
      simpa using hstop
  | fixed kind sign text' =>
    obtain rfl := sign_eq_spelling hpattern
    rw [matchLength?] at hmatch
    split at hmatch
    · next hprefix =>
      cases hmatch
      obtain ⟨hend, hstring, hne⟩ := fixed_kind hpattern
      rw [← List.prefix_iff_eq_take.mp (List.isPrefixOf_iff_prefix.mp hprefix)]
      refine ⟨hne, .of_value ?_ hend hstring⟩
      rw [token?, String.ofList_toList]
    · cases hmatch

/-- **The next lexeme of a text** is not empty, and the rest of the text follows it. -/
theorem exists_atStart (c : Char) (rest : List Char) : ∃ after, c :: rest = (atStart c rest).text ++ after ∧
    (atStart c rest).text ≠ [] ∧ (atStart c rest).ReadBefore after := by
  rw [atStart]
  split
  · next pattern count hfirst =>
    obtain ⟨hmem, hmatch⟩ := first?_eq_some hfirst
    obtain ⟨hne, hread⟩ := readBefore_of_match hmem hmatch
    exact ⟨_, (List.take_append_drop count (c :: rest)).symm, hne, hread⟩
  · exact ⟨rest, rfl, List.cons_ne_nil c [], .of_value rfl (by decide) (by decide)⟩

/-- A lexeme that stands for a token is the spelling of that token. -/
theorem ReadBefore.text_eq {rest : List Char} {lexeme : Lexeme} (h : lexeme.ReadBefore rest) {word : Word}
    (hword : lexeme.token? = some word) : lexeme.text = (spelling word.1 word.2).toList := by
  cases h with
  | blank => cases hword
  | comment => cases hword
  | token htoken _ hspelling =>
    cases htoken.symm.trans hword
    exact hspelling

end Lexeme

/-- **Induction over lexemes.**  A text is empty, or it is what is read next and the rest. -/
theorem lexemesInduction {motive : List Char → Prop} (nil : motive [])
    (lexeme : ∀ c rest after, c :: rest = (Lexeme.atStart c rest).text ++ after → (Lexeme.atStart c rest).text ≠ [] →
      (Lexeme.atStart c rest).ReadBefore after → after <:+ rest →
      lexemes (c :: rest) = Lexeme.atStart c rest :: lexemes after → motive after → motive (c :: rest))
    (text : List Char) : motive text := by
  induction hlength : text.length using Nat.strongRecOn generalizing text with
  | ind length ih =>
    cases text with
    | nil => exact nil
    | cons c rest =>
      obtain ⟨after, htext, hne, hread⟩ := Lexeme.exists_atStart c rest
      obtain ⟨d, tail, hlexeme⟩ := List.exists_cons_of_ne_nil hne
      have hrest : rest = tail ++ after := by
        rw [hlexeme] at htext
        exact (List.cons.inj htext).2
      have hshorter : after.length < length := by
        rw [← hlength, hrest, List.length_cons, List.length_append]
        omega
      exact lexeme c rest after htext hne hread ⟨tail, hrest.symm⟩ (lexemes_cons htext hne)
        (ih after.length hshorter after rfl)

/-! ### Characters -/

/-- The tokens of a text whose first byte stands at `offset`.  What stands before, between and after them is skipped;
each of them spans its spelling. -/
inductive Covering (file : String) : (offset : Nat) → List Char → List Token → Prop
  | done {offset : Nat} {gap : List Char} : Skipped gap [] → Covering file offset gap []
  | token {offset : Nat} {gap rest : List Char} {kind : TokenKind} {value : String} {tokens : List Token} :
    Skipped gap ((spelling kind value).toList ++ rest) → kind ≠ .endOfInput → (spelling kind value).toList ≠ [] →
    Covering file (offset + Text.byteSize gap + Text.byteSize (spelling kind value).toList) rest tokens →
    Covering file offset (gap ++ ((spelling kind value).toList ++ rest))
      (⟨kind, value, Span.ofBytes file (offset + Text.byteSize gap) (Text.byteSize (spelling kind value).toList)⟩ ::
        tokens)

namespace Covering

variable {file : String} {offset : Nat} {run rest : List Char} {tokens : List Token}

/-- Something that is skipped in front of what is skipped first. -/
theorem skip (h : Covering file (offset + Text.byteSize run) rest tokens)
    (hskip : ∀ gap after, rest = gap ++ after → Skipped gap after → Skipped (run ++ gap) after) :
    Covering file offset (run ++ rest) tokens := by
  cases h with
  | done hgap => exact .done (hskip rest [] (List.append_nil rest).symm hgap)
  | @token _ gap after kind value tokens hgap hend hne htokens =>
    have hoffset : offset + Text.byteSize run + Text.byteSize gap = offset + Text.byteSize (run ++ gap) := by
      rw [Text.byteSize_append, Nat.add_assoc]
    rw [hoffset] at htokens
    rw [hoffset, ← List.append_assoc]
    exact .token (hskip gap _ rfl hgap) hend hne htokens

end Covering

/-- **A scan covers the text.**  The induction is on the lexemes: a token starts a new gap, anything else makes the
first gap longer. -/
theorem covering_lexemes (file : String) (text : List Char) (offset : Nat) :
    Covering file offset text (placeTokens file offset (lexemes text)) := by
  induction text using lexemesInduction generalizing offset with
  | nil => exact .done (.done [])
  | lexeme c rest after htext hne hread _ hlexemes ih =>
    have hafter := ih (offset + Text.byteSize (Lexeme.atStart c rest).text)
    rw [hlexemes, htext, placeTokens]
    generalize Lexeme.atStart c rest = lexeme at hne hread hafter
    cases hread with
    | blank hblank => exact hafter.skip fun gap _ _ hgap => .blanks hblank hgap
    | comment hbody hnext =>
      refine hafter.skip fun gap rest' hrest hgap => .comment hbody ?_ hgap
      rwa [← hrest]
    | @token _ kind value htoken hend hspelling =>
      rw [htoken]
      rw [hspelling] at hne hafter ⊢
      exact .token (.done _) hend hne hafter

/-! ### Bytes -/

theorem utf8ByteSize_ofList (text : List Char) : (String.ofList text).utf8ByteSize = Text.byteSize text := by
  induction text with
  | nil => rfl
  | cons c text ih =>
    rw [String.ofList_cons, String.utf8ByteSize_append, String.utf8ByteSize_singleton, ih, Text.byteSize_cons]

theorem byteSize_toList (text : String) : Text.byteSize text.toList = text.utf8ByteSize := by
  rw [← utf8ByteSize_ofList, String.ofList_toList]

section Split

variable {source : String} {front text back : List Char}

/-- The bytes of a part of a text are the bytes between the offsets of its ends. -/
theorem extract_of_split (hsource : source.toList = front ++ (text ++ back)) :
    source.toUTF8.extract (Text.byteSize front) (Text.byteSize front + Text.byteSize text) =
      (String.ofList text).toUTF8 := by
  have hbytes : source.toUTF8 = (String.ofList front).toUTF8 ++
      ((String.ofList text).toUTF8 ++ (String.ofList back).toUTF8) := by
    rw [← String.ofList_toList (s := source), hsource, String.ofList_append, String.ofList_append]
    exact String.toByteArray_append.trans (congrArg _ String.toByteArray_append)
  have hfront : (String.ofList front).toUTF8.size = Text.byteSize front := utf8ByteSize_ofList front
  have htext : (String.ofList text).toUTF8.size = Text.byteSize text := utf8ByteSize_ofList text
  rw [hbytes, ← hfront, ← htext]
  exact (ByteArray.extract_append_size_add (i := 0)).trans (ByteArray.extract_append_eq_left rfl)

theorem isValid_of_split (hsource : source.toList = front ++ back) :
    String.Pos.Raw.IsValid source ⟨Text.byteSize front⟩ := by
  refine String.Pos.Raw.isValid_iff_exists_append.mpr ⟨String.ofList front, String.ofList back, ?_, ?_⟩
  · rw [← String.ofList_append, ← hsource, String.ofList_toList]
  · rw [← utf8ByteSize_ofList]
    rfl

end Split

namespace Token

/-- The byte at which a token starts. -/
def start (token : Token) : Nat :=
  token.span.start.offset.toNat

/-- The byte right after a token. -/
def stop (token : Token) : Nat :=
  token.span.stop.offset.toNat

/-- The token is not the end of the input, and the bytes of its span are a part of the source that is not empty, has
whole characters and is what the token is spelled with. -/
structure Spans (source file : String) (token : Token) : Prop where
  not_end : token.kind ≠ .endOfInput
  file_eq : token.span.start.file = file ∧ token.span.stop.file = file
  start_lt_stop : token.start < token.stop
  isValid_start : String.Pos.Raw.IsValid source ⟨token.start⟩
  isValid_stop : String.Pos.Raw.IsValid source ⟨token.stop⟩
  bytes_eq : source.toUTF8.extract token.start token.stop = (spelling token.kind token.value).toUTF8

end Token

/-- The bytes of the source from `start` up to `stop` are blanks and comments. -/
def Skips (source : String) (start stop : Nat) : Prop :=
  ∃ gap rest : String, source.toUTF8.extract start stop = gap.toUTF8 ∧
    source.toUTF8.extract stop source.utf8ByteSize = rest.toUTF8 ∧ Skipped gap.toList rest.toList

/-- What stands from byte `offset` up to byte `size` before, between and after some tokens. -/
def gaps (size : Nat) : (offset : Nat) → List Token → List (Nat × Nat)
  | offset, [] => [(offset, size)]
  | offset, token :: rest => (offset, token.start) :: gaps size token.stop rest

/-- The tokens cover the source from byte `offset` on: they stand there in order, and everything else is skipped. -/
structure Covers (source file : String) (offset : Nat) (tokens : List Token) : Prop where
  spans : ∀ token ∈ tokens, token.Spans source file
  offset_le : ∀ token ∈ tokens, offset ≤ token.start
  ordered : tokens.Pairwise fun earlier later => earlier.stop ≤ later.start
  skips : ∀ gap ∈ gaps source.utf8ByteSize offset tokens, Skips source gap.1 gap.2

section Bytes

variable {source : String} {front : List Char}

theorem utf8ByteSize_of_split {back : List Char} (hsource : source.toList = front ++ back) :
    source.utf8ByteSize = Text.byteSize front + Text.byteSize back := by
  rw [← byteSize_toList, hsource, Text.byteSize_append]

theorem skips_of_split {gap rest : List Char} (hsource : source.toList = front ++ (gap ++ rest))
    (h : Skipped gap rest) : Skips source (Text.byteSize front) (Text.byteSize front + Text.byteSize gap) := by
  refine ⟨String.ofList gap, String.ofList rest, extract_of_split hsource, ?_, ?_⟩
  · have hrest : source.toList = (front ++ gap) ++ (rest ++ []) := by rw [hsource]; simp
    have htotal := utf8ByteSize_of_split hrest
    rw [List.append_nil] at htotal
    rw [htotal, ← Text.byteSize_append]
    exact extract_of_split hrest
  · rwa [String.toList_ofList, String.toList_ofList]

theorem spans_of_split (file : String) {kind : TokenKind} {value : String} {rest : List Char}
    (hsize : source.utf8ByteSize < UInt32.size)
    (hsource : source.toList = front ++ ((spelling kind value).toList ++ rest)) (hend : kind ≠ .endOfInput)
    (hne : (spelling kind value).toList ≠ []) {token : Token} (htoken : token = ⟨kind, value,
      Span.ofBytes file (Text.byteSize front) (Text.byteSize (spelling kind value).toList)⟩) :
    token.start = Text.byteSize front ∧
      token.stop = Text.byteSize front + Text.byteSize (spelling kind value).toList ∧ token.Spans source file := by
  have htotal := utf8ByteSize_of_split hsource
  rw [Text.byteSize_append] at htotal
  have hstart : token.start = Text.byteSize front := by
    subst htoken
    exact UInt32.toNat_ofNat_of_lt' (by omega)
  have hstop : token.stop = Text.byteSize front + Text.byteSize (spelling kind value).toList := by
    subst htoken
    exact UInt32.toNat_ofNat_of_lt' (by omega)
  refine ⟨hstart, hstop, ?_⟩
  constructor
  case not_end =>
    subst htoken
    exact hend
  case file_eq =>
    subst htoken
    exact ⟨rfl, rfl⟩
  case start_lt_stop =>
    rw [hstart, hstop]
    obtain ⟨c, tail, htext⟩ := List.exists_cons_of_ne_nil hne
    rw [htext, Text.byteSize_cons]
    have := c.utf8Size_pos
    omega
  case isValid_start =>
    rw [hstart]
    exact isValid_of_split hsource
  case isValid_stop =>
    rw [hstop, ← Text.byteSize_append]
    exact isValid_of_split (hsource.trans (List.append_assoc _ _ _).symm)
  case bytes_eq =>
    rw [hstart, hstop, extract_of_split hsource, String.ofList_toList, htoken]

/-- **The tokens of the characters are the tokens of the bytes.** -/
theorem Covering.covers {file : String} {offset : Nat} {text : List Char} {tokens : List Token}
    (h : Covering file offset text tokens) (hsize : source.utf8ByteSize < UInt32.size) (front : List Char)
    (hsource : source.toList = front ++ text) (hoffset : Text.byteSize front = offset) :
    Covers source file offset tokens := by
  induction h generalizing front with
  | @done offset gap hgap =>
    have hskips := skips_of_split (hsource.trans (congrArg _ (List.append_nil gap).symm)) hgap
    rw [← utf8ByteSize_of_split hsource, hoffset] at hskips
    exact ⟨by simp, by simp, .nil, by simpa [gaps] using hskips⟩
  | @token offset gap rest kind value tokens hgap hend hne htokens ih =>
    rw [← hoffset, ← Text.byteSize_append]
    have hsplit : source.toList = (front ++ gap) ++ ((spelling kind value).toList ++ rest) := by
      rw [hsource, List.append_assoc]
    obtain ⟨hstart, hstop, hspans⟩ := spans_of_split file hsize hsplit hend hne rfl
    have hlater := ih (front ++ gap ++ (spelling kind value).toList) (by rw [hsplit, ← List.append_assoc])
      (by rw [Text.byteSize_append, Text.byteSize_append, hoffset])
    rw [← hoffset, ← Text.byteSize_append, ← hstop] at hlater
    generalize (⟨kind, value, Span.ofBytes file (Text.byteSize (front ++ gap))
      (Text.byteSize (spelling kind value).toList)⟩ : Token) = token at hstart hstop hspans hlater ⊢
    constructor
    case spans => exact List.forall_mem_cons.mpr ⟨hspans, hlater.spans⟩
    case offset_le =>
      have hfirst : Text.byteSize front ≤ token.start := by
        rw [hstart, Text.byteSize_append]
        omega
      refine List.forall_mem_cons.mpr ⟨hfirst, fun other hother => ?_⟩
      have hbetween := hlater.offset_le other hother
      have hlt := hspans.start_lt_stop
      omega
    case ordered => exact .cons hlater.offset_le hlater.ordered
    case skips =>
      refine List.forall_mem_cons.mpr ⟨?_, hlater.skips⟩
      rw [hstart, Text.byteSize_append]
      exact skips_of_split hsource hgap

end Bytes

/-! ### Source texts -/

/-- **The tokens cover the source.**  Every source text of less than 4 GiB has tokens that cover it from its first byte
on, and then the end of the input, right after the last byte. -/
theorem tokensOf_covers {source : String} (hsize : source.utf8ByteSize < UInt32.size) (file : String) :
    ∃ tokens last, tokensOf source file = tokens ++ [last] ∧ Covers source file 0 tokens ∧
      last.kind = .endOfInput ∧ last.value = "" ∧ last.span.start.file = file ∧ last.span.stop.file = file ∧
      last.start = source.utf8ByteSize ∧ last.stop = source.utf8ByteSize := by
  have hfinish : (UInt32.ofNat (Text.byteSize source.toList)).toNat = source.utf8ByteSize := by
    rw [byteSize_toList]
    exact UInt32.toNat_ofNat_of_lt' hsize
  exact ⟨scan file source.toList, .endOfInput (endPosition file source.toList), rfl,
    (covering_lexemes file source.toList 0).covers hsize [] rfl rfl, rfl, rfl, rfl, rfl, hfinish, hfinish⟩

theorem tokensOf_covers_comment : "é // no\n\"ü\"".utf8ByteSize < UInt32.size ∧
    ∃ tokens last, tokensOf "é // no\n\"ü\"" "shell" = tokens ++ [last] ∧
      Covers "é // no\n\"ü\"" "shell" 0 tokens ∧ last.kind = .endOfInput ∧ last.value = "" ∧
      last.span.start.file = "shell" ∧ last.span.stop.file = "shell" ∧
      last.start = "é // no\n\"ü\"".utf8ByteSize ∧ last.stop = "é // no\n\"ü\"".utf8ByteSize :=
  ⟨by decide, tokensOf_covers (by decide) "shell"⟩

end GoScript
