import GoScript.Proofs.Layout

/-!
# Array types in declarations and in literals

An array type is written in the same way behind a declared name and in front of the elements of a literal, but it is not
read in the same way.  As a type, each pair of brackets has a size of its own.  In a literal the first brackets may as
well hold a list, so that a number there, and a second one behind it, is read as an expression first.  Sizes may be
larger than integer literals, and this is where the two ways differ.

* `SizeSpelling`, `ArraySpelling` — the ways to write an array type
* `Accepts` — a parse that yields a value under a condition, and fails otherwise
* `type_spelled`, `literal_spelled` — the two ways to read an array type
* `ArraySpelling.declarations` — what becomes of a declaration with the type and of one with an empty literal of it
-/

namespace GoScript

open ParseM Outcome

/-! ### Spellings -/

/-- A size in brackets: a run of decimal digits, three dots or nothing. -/
inductive SizeSpelling where
  | number (digits : String) (nonempty : digits.toList ≠ []) (decimal : ∀ c ∈ digits.toList, c.isDigit = true)
  | counted
  | slice

namespace SizeSpelling

def text : SizeSpelling → String
  | number digits _ _ => "[" ++ digits ++ "]"
  | counted => "[...]"
  | slice => "[]"

def words : SizeSpelling → List Word
  | number digits _ _ => [(.openBracket, "["), (.integer, digits), (.closeBracket, "]")]
  | counted => [(.openBracket, "["), (.ellipsis, "..."), (.closeBracket, "]")]
  | slice => [(.openBracket, "["), (.closeBracket, "]")]

/-- The size that is meant. -/
def form : SizeSpelling → ArrayForm
  | number digits _ _ => .sized (Numeral.value digits)
  | counted => .counted
  | slice => .slice

def isNumber : SizeSpelling → Bool
  | number _ _ _ => true
  | counted | slice => false

/-- A number in the brackets is below a limit. -/
def Below (limit : Nat) : SizeSpelling → Prop
  | number digits _ _ => Numeral.value digits < limit
  | counted | slice => True

/-- A number that is an integer is a size. -/
theorem below_cons (digits : String) (nonempty : digits.toList ≠ []) (decimal : ∀ c ∈ digits.toList, c.isDigit = true)
    (front others : List SizeSpelling) :
    ((∀ size ∈ (number digits nonempty decimal :: front).takeWhile isNumber, size.Below Numeral.integerLimit) ∧
        ∀ size ∈ number digits nonempty decimal :: others, size.Below Numeral.sizeLimit) ↔
      Numeral.value digits < Numeral.integerLimit ∧
        (∀ size ∈ front.takeWhile isNumber, size.Below Numeral.integerLimit) ∧
          ∀ size ∈ others, size.Below Numeral.sizeLimit := by
  have hlimits : Numeral.integerLimit ≤ Numeral.sizeLimit := by decide
  rw [List.takeWhile_cons_of_pos rfl, List.forall_mem_cons, List.forall_mem_cons]
  constructor
  · rintro ⟨⟨hdigits, hfront⟩, _, hothers⟩
    exact ⟨hdigits, hfront, hothers⟩
  · rintro ⟨hdigits, hfront, hothers⟩
    exact ⟨⟨hdigits, hfront⟩, Nat.lt_of_lt_of_le hdigits hlimits, hothers⟩

theorem exists_text (size : SizeSpelling) : ∃ tail, size.text.toList = '[' :: tail := by
  cases size with
  | number digits => exact ⟨digits.toList ++ [']'], by simp [text]⟩
  | counted | slice => exact ⟨_, rfl⟩

theorem wordsOf_text (size : SizeSpelling) (rest : List Char) :
    wordsOf (size.text.toList ++ rest) = size.words ++ wordsOf rest := by
  cases size with
  | number digits nonempty decimal =>
    have hdigits : wordsOf (digits.toList ++ ']' :: rest) = _ :=
      wordsOf_integer nonempty decimal (.of_mem (by decide))
    have htext : (SizeSpelling.number digits nonempty decimal).text.toList ++ rest =
        '[' :: (digits.toList ++ ']' :: rest) := by
      simp [text]
    rw [htext, wordsOf_bracket .openBracket '[' _ (by decide), hdigits, String.ofList_toList,
      wordsOf_bracket .closeBracket ']' _ (by decide)]
    rfl
  | counted =>
    show wordsOf ('[' :: ("...".toList ++ ']' :: rest)) = _
    rw [wordsOf_bracket .openBracket '[' _ (by decide), wordsOf_ellipsis,
      wordsOf_bracket .closeBracket ']' _ (by decide)]
    rfl
  | slice =>
    show wordsOf ('[' :: ']' :: rest) = _
    rw [wordsOf_bracket .openBracket '[' _ (by decide), wordsOf_bracket .closeBracket ']' _ (by decide)]
    rfl

end SizeSpelling

/-- An array type as it is written: at least one size in brackets, and then one of the types that are a single word. -/
structure ArraySpelling where
  first : SizeSpelling
  others : List SizeSpelling
  base : GoType
  base_mem : base ∈ [GoType.int, .string, .bool]

namespace ArraySpelling

variable (spelling : ArraySpelling)

def sizes : List SizeSpelling :=
  spelling.first :: spelling.others

def text : String :=
  spelling.sizes.foldr (fun size text => size.text ++ text) spelling.base.name

def words : List Word :=
  spelling.sizes.flatMap SizeSpelling.words ++ spelling.base.words

/-- The type of the elements. -/
def element : GoType :=
  spelling.others.foldr (fun _ type => .array type) spelling.base

/-- The type that is meant. -/
def type : GoType :=
  .array spelling.element

/-- The numbers that a literal of the type starts with: those in the first two brackets, up to the first one without. -/
def leading : List SizeSpelling :=
  (spelling.sizes.take 2).takeWhile SizeSpelling.isNumber

/-- All numbers in the brackets are sizes. -/
def FitsType : Prop :=
  ∀ size ∈ spelling.sizes, size.Below Numeral.sizeLimit

/-- The numbers that a literal starts with are integers. -/
def FitsLiteral : Prop :=
  ∀ size ∈ spelling.leading, size.Below Numeral.integerLimit

theorem base_written : spelling.base.Written := by
  have hbase := spelling.base_mem
  simp only [List.mem_cons, List.not_mem_nil, or_false] at hbase
  rcases hbase with h | h | h <;> rw [h] <;> trivial

theorem wordsOf_text {rest : List Char} (hrest : Boundary rest) :
    wordsOf (spelling.text.toList ++ rest) = spelling.words ++ wordsOf rest := by
  rw [text, words]
  induction spelling.sizes with
  | nil => exact wordsOf_type spelling.base_written hrest
  | cons size sizes ih =>
    rw [List.foldr_cons, String.toList_append, List.append_assoc, SizeSpelling.wordsOf_text, ih, List.flatMap_cons]
    simp only [List.append_assoc]

/-- A space in front of the type is skipped. -/
theorem wordsOf_space_text {rest : List Char} (hrest : Boundary rest) :
    wordsOf (' ' :: (spelling.text.toList ++ rest)) = spelling.words ++ wordsOf rest := by
  obtain ⟨tail, htail⟩ := spelling.first.exists_text
  have hstart : spelling.text.toList =
      '[' :: (tail ++ (spelling.others.foldr (fun size text => size.text ++ text) spelling.base.name).toList) := by
    rw [text, sizes, List.foldr_cons, String.toList_append, htail, List.cons_append]
  rw [← spelling.wordsOf_text hrest, hstart, List.cons_append, wordsOf_space (by decide)]

end ArraySpelling

/-! ### Parses that depend on a condition -/

section Accepts

variable {α β : Type}

/-- A parse at a cursor yields a value under a condition, and fails if the condition does not hold. -/
structure Accepts (condition : Prop) (parse : ParseM α) (cursor : Cursor) (value : α) (later : Cursor) : Prop where
  ok : condition → parse cursor = .ok value later
  error : ¬ condition → ∃ error stop, parse cursor = .error error stop

namespace Accepts

variable {p q : Prop} {parse : ParseM α} {cursor middle later : Cursor} {value : α}

theorem always (h : parse cursor = .ok value later) : Accepts True parse cursor value later :=
  ⟨fun _ => h, fun hfalse => absurd trivial hfalse⟩

theorem congr (h : Accepts p parse cursor value later) (hiff : p ↔ q) : Accepts q parse cursor value later :=
  ⟨fun hq => h.ok (hiff.mpr hq), fun hq => h.error fun hp => hq (hiff.mp hp)⟩

/-- A sequence needs both conditions. -/
theorem bind {next : α → ParseM β} {result : β} (first : Accepts p parse cursor value middle)
    (second : Accepts q (next value) middle result later) : Accepts (p ∧ q) (parse >>= next) cursor result later := by
  constructor
  · rintro ⟨hp, hq⟩
    rw [bind_of_ok (first.ok hp)]
    exact second.ok hq
  · intro hnot
    by_cases hp : p
    · rw [bind_of_ok (first.ok hp)]
      exact second.error fun hq => hnot ⟨hp, hq⟩
    · obtain ⟨error, stop, herror⟩ := first.error hp
      exact ⟨error, stop, bind_of_error herror⟩

/-- What comes after the condition succeeds anyway. -/
theorem bind_ok {next : α → ParseM β} {result : β} (first : Accepts p parse cursor value middle)
    (second : next value middle = .ok result later) : Accepts p (parse >>= next) cursor result later :=
  (first.bind (always second)).congr (and_iff_left trivial)

/-- What comes before the condition succeeds anyway. -/
theorem ok_bind {next : α → ParseM β} {result : β} (first : parse cursor = .ok value middle)
    (second : Accepts q (next value) middle result later) : Accepts q (parse >>= next) cursor result later :=
  ((always first).bind second).congr (and_iff_right trivial)

/-- A parse that does the same at the cursor accepts the same. -/
theorem of_eq {other : ParseM α} {cursor' : Cursor} (h : Accepts p other cursor' value later)
    (heq : parse cursor = other cursor') : Accepts p parse cursor value later :=
  ⟨fun hp => heq.trans (h.ok hp), fun hp => by rw [heq]; exact h.error hp⟩

end Accepts

end Accepts

namespace Grammar

/-! ### As a type -/

/-- A number is read up to a limit. -/
theorem below?_spelled {α : Type} (limit : Nat) (digits : String) (next : Nat → α) (error : Error) (cursor : Cursor) :
    Accepts (Numeral.value digits < limit)
      (match Numeral.below? limit digits with
        | some size => pure (next size)
        | none => throw error) cursor (next (Numeral.value digits)) cursor := by
  constructor
  · intro hbelow
    rw [Numeral.below?, if_pos hbelow]
    rfl
  · intro hbelow
    rw [Numeral.below?, if_neg hbelow]
    exact ⟨error, cursor, rfl⟩

theorem sizeBrackets_spelled (size : SizeSpelling) (rest : List Word) :
    Accepts (size.Below Numeral.sizeLimit) sizeBrackets (reading (size.words ++ rest)) size.form (reading rest) := by
  cases size with
  | number digits _ _ =>
    have hsize : Accepts (Numeral.value digits < Numeral.sizeLimit) bracketSize
        (reading ((.integer, digits) :: (.closeBracket, "]") :: rest)) (.sized (Numeral.value digits))
        (reading ((.closeBracket, "]") :: rest)) :=
      (below?_spelled Numeral.sizeLimit digits ArrayForm.sized ⟨.numberTooLarge digits, default⟩ _).of_eq rfl
    exact .ok_bind (take_reading _ _ _) (hsize.bind_ok rfl)
  | counted => exact .always rfl
  | slice => exact .always rfl

/-- **A type is read size by size**, each of them up to the limit of sizes. -/
theorem type_spelled (sizes : List SizeSpelling) {base : GoType} (hbase : base.Written) (rest : List Word) :
    Accepts (∀ size ∈ sizes, size.Below Numeral.sizeLimit) nested.type
      (reading (sizes.flatMap SizeSpelling.words ++ (base.words ++ rest)))
      (sizes.foldr (fun _ type => .array type) base) (reading rest) := by
  induction sizes with
  | nil => exact (Accepts.always (type_words hbase rest)).congr (by simp)
  | cons size sizes ih =>
    rw [List.flatMap_cons, List.append_assoc, nested_type, List.forall_mem_cons]
    have hsize := sizeBrackets_spelled size (sizes.flatMap SizeSpelling.words ++ (base.words ++ rest))
    have harray : Accepts _ (arrayType nested) _ _ _ := hsize.bind (ih.bind_ok rfl)
    exact harray.of_eq (by cases size <;> rfl)

/-! ### In a literal -/

/-- A number in brackets is read as an integer. -/
theorem integer_spelled (digits : String) (rest : List Word) :
    Accepts (Numeral.value digits < Numeral.integerLimit) (nested.expression .lowest)
      (reading ((.integer, digits) :: (.closeBracket, "]") :: rest)) (.integer (Numeral.value digits) default)
      (reading ((.closeBracket, "]") :: rest)) := by
  have hatom : Accepts (Numeral.value digits < Numeral.integerLimit) firstOperand
      (reading ((.integer, digits) :: (.closeBracket, "]") :: rest)) (.integer (Numeral.value digits) default)
      (reading ((.closeBracket, "]") :: rest)) :=
    (below?_spelled Numeral.integerLimit digits (fun size => Node.integer size default)
      ⟨.numberTooLarge digits, default⟩ _).of_eq rfl
  rw [nested_expression_eq]
  exact hatom.bind_ok (continued_stop _ (by rw [current_reading]; decide))

/-- The list that a number in brackets makes. -/
theorem list_spelled (digits : String) (rest : List Word) :
    Accepts (Numeral.value digits < Numeral.integerLimit) (commaList nested .closeBracket false)
      (reading ((.integer, digits) :: (.closeBracket, "]") :: rest)) [.integer (Numeral.value digits) default]
      (reading rest) := by
  have hitem : Accepts (Numeral.value digits < Numeral.integerLimit) (listItem nested .closeBracket false)
      (reading ((.integer, digits) :: (.closeBracket, "]") :: rest)) (.last (.integer (Numeral.value digits) default))
      (reading ((.closeBracket, "]") :: rest)) := by
    refine .ok_bind (show currentKind _ = .ok .integer _ from rfl) ?_
    rw [if_neg (by decide)]
    exact .bind_ok (integer_spelled digits rest) rfl
  rw [commaList, gather_eq (listItem_advances .closeBracket false)]
  exact .bind_ok (.bind_ok hitem rfl) (bind_of_ok (take_reading _ _ _))

/-- The words of an array literal without elements behind its type. -/
def emptyBraces : List Word :=
  [(.openCurly, "\x7b"), (.closeCurly, "\x7d")]

/-- The literal that an array type with empty braces stands for. -/
def emptyLiteral (spelling : ArraySpelling) : Node :=
  .array (some spelling.element) spelling.first.form (some []) default

theorem arrayWithElements_empty (form : ArrayForm) (element : GoType) :
    arrayWithElements nested default form element (reading emptyBraces) =
      .ok (.array (some element) form (some []) default) (reading []) := by
  cases form <;> rfl

section Literal

variable (sizes : List SizeSpelling) {base : GoType} (hbase : base.Written)
include hbase

theorem startsType_spelled (rest : List Word) :
    standard.startsType (reading (sizes.flatMap SizeSpelling.words ++ (base.words ++ rest))) =
      .ok true (reading (sizes.flatMap SizeSpelling.words ++ (base.words ++ rest))) := by
  cases sizes with
  | nil => exact congrArg (EStateM.Result.ok · _) (startsType_words hbase rest)
  | cons size sizes => cases size <;> rfl

/-- The element type and the braces behind it. -/
theorem elements_spelled (form : ArrayForm) :
    Accepts (∀ size ∈ sizes, size.Below Numeral.sizeLimit)
      (nested.type >>= fun element => arrayWithElements nested default form element)
      (reading (sizes.flatMap SizeSpelling.words ++ (base.words ++ emptyBraces)))
      (.array (some (sizes.foldr (fun _ type => .array type) base)) form (some []) default) (reading []) :=
  (type_spelled sizes hbase emptyBraces).bind_ok (arrayWithElements_empty form _)

/-- A literal whose first size is no number: the others are those of the element type. -/
theorem plainLiteral_spelled {first : SizeSpelling} (hfirst : first.isNumber = false) :
    Accepts (∀ size ∈ sizes, size.Below Numeral.sizeLimit) (arrayLiteral standard nested)
      (reading (first.words ++ (sizes.flatMap SizeSpelling.words ++ (base.words ++ emptyBraces))))
      (.array (some (sizes.foldr (fun _ type => .array type) base)) first.form (some []) default) (reading []) := by
  have helements := elements_spelled sizes hbase first.form
  have hstarts := startsType_spelled sizes hbase emptyBraces
  generalize sizes.flatMap SizeSpelling.words ++ (base.words ++ emptyBraces) = tail at helements hstarts ⊢
  have hbrackets : sizeBrackets (reading (first.words ++ tail)) = .ok first.form (reading tail) := by
    cases first with
    | number => cases hfirst
    | slice | counted => rfl
  have hnext : (reading (first.words ++ tail)).next.kind = .closeBracket ∨
      (reading (first.words ++ tail)).next.kind = .ellipsis := by
    cases first with
    | number => cases hfirst
    | slice => exact .inl rfl
    | counted => exact .inr rfl
  refine helements.of_eq ?_
  rw [arrayLiteral, position_bind_run, position_reading, nextKind_bind_run, if_pos hnext, bind_of_ok hbrackets,
    bind_of_ok hstarts, if_neg (by simp)]

/-- What follows a number and a second one in brackets: the other sizes are those of the type in the inner arrays. -/
theorem twoNumbers_spelled (size : Nat) (elements : List Node) (digits : String) :
    Accepts (Numeral.value digits < Numeral.integerLimit ∧ ∀ size ∈ sizes, size.Below Numeral.sizeLimit)
      (numberThenBracket standard nested default size elements)
      (reading ((.openBracket, "[") :: (.integer, digits) :: (.closeBracket, "]") ::
        (sizes.flatMap SizeSpelling.words ++ (base.words ++ emptyBraces))))
      (.array (some (.array (sizes.foldr (fun _ type => .array type) base))) (.sized size) (some []) default)
      (reading []) := by
  refine .ok_bind (show nextKind _ = .ok .integer _ from rfl) ?_
  rw [if_neg (by decide)]
  refine .ok_bind (show spanSince default _ = .ok default _ from rfl) ?_
  refine .ok_bind (show advance _ = .ok _ _ from rfl) ?_
  refine .bind (integer_spelled digits _) ?_
  refine .ok_bind (take_reading _ _ _) ?_
  refine .ok_bind (startsType_spelled sizes hbase emptyBraces) ?_
  exact .bind_ok (type_spelled sizes hbase emptyBraces) (arrayWithElements_empty _ _)

/-- A literal whose first size is a number: so may be the second, which is read as an integer then, too. -/
theorem numberLiteral_spelled (hsingle : base ∈ [GoType.int, .string, .bool]) (digits : String) :
    Accepts (Numeral.value digits < Numeral.integerLimit ∧
        (∀ size ∈ (sizes.take 1).takeWhile SizeSpelling.isNumber, size.Below Numeral.integerLimit) ∧
          ∀ size ∈ sizes, size.Below Numeral.sizeLimit)
      (arrayLiteral standard nested) (reading ((.openBracket, "[") :: (.integer, digits) :: (.closeBracket, "]") ::
        (sizes.flatMap SizeSpelling.words ++ (base.words ++ emptyBraces))))
      (.array (some (sizes.foldr (fun _ type => .array type) base)) (.sized (Numeral.value digits)) (some []) default)
      (reading []) := by
  rw [arrayLiteral]
  refine .ok_bind (show position _ = .ok default _ from rfl) ?_
  refine .ok_bind (show nextKind _ = .ok .integer _ from rfl) ?_
  rw [if_neg (by decide)]
  refine .ok_bind (show advance _ = .ok _ _ from rfl) ?_
  refine .bind (list_spelled digits _) ?_
  show Accepts _ (currentKind >>= _) _ _ _
  rcases sizes with _ | ⟨⟨digits', nonempty, decimal⟩ | _ | _, sizes⟩
  · have hkind : (reading (base.words ++ emptyBraces)).current.kind ≠ .openBracket := by
      simp only [List.mem_cons, List.not_mem_nil, or_false] at hsingle
      rcases hsingle with rfl | rfl | rfl <;> decide
    refine .ok_bind (show currentKind (reading (base.words ++ emptyBraces)) = .ok _ _ from rfl) ?_
    rw [if_neg hkind]
    refine .ok_bind (startsType_spelled [] hbase emptyBraces) ?_
    exact (elements_spelled [] hbase _).congr (by simp)
  · refine .ok_bind (show currentKind _ = .ok .openBracket _ from rfl) ?_
    rw [if_pos rfl]
    refine (twoNumbers_spelled sizes hbase _ _ digits').congr ?_
    rw [List.take_succ_cons, SizeSpelling.below_cons]
    simp
  · refine .ok_bind (show currentKind _ = .ok .openBracket _ from rfl) ?_
    rw [if_pos rfl]
    refine .ok_bind (show nextKind _ = .ok .ellipsis _ from rfl) ?_
    rw [if_pos (by decide)]
    exact (elements_spelled (.counted :: sizes) hbase _).congr (by simp [SizeSpelling.isNumber])
  · refine .ok_bind (show currentKind _ = .ok .openBracket _ from rfl) ?_
    rw [if_pos rfl]
    refine .ok_bind (show nextKind _ = .ok .closeBracket _ from rfl) ?_
    rw [if_pos (by decide)]
    exact (elements_spelled (.slice :: sizes) hbase _).congr (by simp [SizeSpelling.isNumber])

end Literal

/-- **A literal reads the numbers that it starts with as integers**, and the other sizes as a type does. -/
theorem literal_spelled (spelling : ArraySpelling) :
    Accepts (spelling.FitsLiteral ∧ spelling.FitsType) (arrayLiteral standard nested)
      (reading (spelling.words ++ emptyBraces)) (emptyLiteral spelling) (reading []) := by
  have hbase := spelling.base_written
  obtain ⟨first, others, base, hmem⟩ := spelling
  have hwords : ArraySpelling.words ⟨first, others, base, hmem⟩ ++ emptyBraces =
      first.words ++ (others.flatMap SizeSpelling.words ++ (base.words ++ emptyBraces)) := by
    simp [ArraySpelling.words, ArraySpelling.sizes]
  rw [hwords]
  cases first with
  | slice | counted =>
    refine (plainLiteral_spelled others hbase rfl).congr ?_
    simp [ArraySpelling.FitsLiteral, ArraySpelling.FitsType, ArraySpelling.leading, ArraySpelling.sizes,
      SizeSpelling.isNumber, SizeSpelling.Below]
  | number digits nonempty decimal =>
    exact (numberLiteral_spelled others hbase hmem digits).congr (SizeSpelling.below_cons ..).symm

/-! ### Declarations -/

/-- The declaration of `x` with an array type. -/
def typeDeclaration (spelling : ArraySpelling) : Declaration :=
  ⟨"x", false, some spelling.type, none, none, none, default⟩

/-- The declaration of `x` with an empty array literal. -/
def literalDeclaration (spelling : ArraySpelling) : Declaration :=
  ⟨"x", false, none, some spelling.type, some (emptyLiteral spelling), none, default⟩

theorem writtenType_spelled (spelling : ArraySpelling) :
    Accepts spelling.FitsType (writtenType standard nested) (reading spelling.words) (some spelling.type)
      (reading []) := by
  have htype : Accepts spelling.FitsType nested.type (reading spelling.words) spelling.type (reading []) := by
    have hspelled := type_spelled spelling.sizes spelling.base_written []
    rwa [List.append_nil] at hspelled
  have hstarts : standard.startsType (reading spelling.words) = .ok true (reading spelling.words) := by
    have hspelled := startsType_spelled spelling.sizes spelling.base_written []
    rwa [List.append_nil] at hspelled
  refine .ok_bind hstarts ?_
  refine .ok_bind (show currentKind _ = .ok _ _ from rfl) ?_
  exact .bind_ok htype rfl

/-- A statement with nothing behind it. -/
theorem statement_of_plain {condition : Prop} {cursor : Cursor} {statement : Node}
    (h : Accepts condition (plainStatement standard nested) cursor statement (reading [])) :
    Accepts condition nested.statement cursor statement (reading []) := by
  rw [nested_statement]
  exact .bind_ok h rfl

theorem typeStatement_spelled (spelling : ArraySpelling) :
    Accepts spelling.FitsType nested.statement (reading ((.varWord, "var") :: (.identifier, "x") :: spelling.words))
      (.declaration (typeDeclaration spelling)) (reading []) := by
  have hdeclared : Accepts spelling.FitsType (declared standard nested false default)
      (reading ((.identifier, "x") :: spelling.words)) (typeDeclaration spelling) (reading []) := by
    refine .ok_bind (show current _ = .ok _ _ from rfl) ?_
    refine .ok_bind (show takeOr .identifier _ _ = .ok _ _ from rfl) ?_
    exact .bind_ok (writtenType_spelled spelling) rfl
  apply statement_of_plain
  refine .ok_bind (show currentKind _ = .ok .varWord _ from rfl) ?_
  refine .ok_bind (show advance _ = .ok _ _ from rfl) ?_
  refine .ok_bind (show currentKind _ = .ok .identifier _ from rfl) ?_
  exact .bind_ok hdeclared rfl

theorem literalStatement_spelled (spelling : ArraySpelling) :
    Accepts (spelling.FitsLiteral ∧ spelling.FitsType) nested.statement
      (reading ((.identifier, "x") :: (.declare, ":=") :: (spelling.words ++ emptyBraces)))
      (.declaration (literalDeclaration spelling)) (reading []) := by
  have hvalue : Accepts (spelling.FitsLiteral ∧ spelling.FitsType) (nested.expression .lowest)
      (reading (spelling.words ++ emptyBraces)) (emptyLiteral spelling) (reading []) := by
    rw [nested_expression_eq]
    refine .bind_ok ?_ (continued_stop _ (by decide))
    refine (literal_spelled spelling).of_eq ?_
    obtain ⟨_ | _ | _, others, base, hmem⟩ := spelling <;> rfl
  apply statement_of_plain
  refine .ok_bind (show currentKind _ = .ok .identifier _ from rfl) ?_
  refine .ok_bind (show nextKind _ = .ok .declare _ from rfl) ?_
  refine .ok_bind (show advance _ = .ok _ _ from rfl) ?_
  refine .ok_bind (take_reading _ _ _) ?_
  exact .bind_ok hvalue rfl

/-- A program of one statement. -/
theorem program_single {condition : Prop} {word : Word} {words : List Word} {statement : Node}
    (hsemicolon : word.1 ≠ .semicolon) (hmore : word.1 ≠ .endOfInput)
    (h : Accepts condition nested.statement (reading (word :: words)) statement (reading [])) :
    Accepts condition standard.parseProgram (reading (word :: words)) ⟨[statement], default⟩ (reading []) := by
  have hdrop : dropSemicolons (reading (word :: words)) = .ok () (reading (word :: words)) := by
    show EStateM.Result.ok () (Cursor.mk ((word.token :: words.map Word.token).dropWhile _) default) = _
    rw [List.dropWhile_cons_of_neg (by simpa using hsemicolon)]
    rfl
  have hitem : Accepts condition (programItem nested) (reading (word :: words)) (.more statement) (reading []) := by
    have hleft : (reading (word :: words)).hasMore = true := by simpa [Cursor.hasMore] using hmore
    refine .ok_bind hdrop ?_
    refine .ok_bind (show (get : ParseM Cursor) _ = .ok (reading (word :: words)) _ from rfl) ?_
    rw [if_pos hleft]
    exact .bind_ok h rfl
  have hgather : Accepts condition (gather (programItem nested)) (reading (word :: words)) [statement]
      (reading []) := by
    have hrounds : Accepts condition (gatherFor (programItem nested) (words.length + 2)) (reading (word :: words))
        [statement] (reading []) := .bind_ok hitem rfl
    refine hrounds.of_eq ?_
    show gatherFor _ ((words.map Word.token).length + 2) _ = _
    rw [List.length_map]
  rw [parseProgram_eq]
  exact .bind_ok hgather rfl

end Grammar

/-! ### Sources -/

/-- A source declares one name, the type of which is known. -/
def Declares (source file : String) (type : GoType) : Prop :=
  ∃ d span, parse source file = .ok ⟨[.declaration d], span⟩ ∧ d.group = none ∧ d.type? = some type

/-- A source has no program. -/
def Refused (source file : String) : Prop :=
  ∃ error, parse source file = .error error

open Grammar

/-- No source both declares a name and is refused. -/
theorem Declares.not_refused {source file : String} {type : GoType} (h : Declares source file type) :
    ¬ Refused source file := by
  rintro ⟨error, herror⟩
  obtain ⟨d, span, hparse, _⟩ := h
  rw [hparse] at herror
  cases herror

/-- Whether a source declares a name, and with which type, is decided by its words. -/
theorem declares_of_words {condition : Prop} {source : String} (file : String) {words : List Word} {d : Declaration}
    (hwords : wordsOf source.toList = words) (hgroup : d.group = none) {type : GoType} (htype : d.type? = some type)
    (h : Accepts condition standard.parseProgram (reading words) ⟨[.declaration d], default⟩ (reading [])) :
    (condition → Declares source file type) ∧ (¬ condition → Refused source file) := by
  have hmoved := parseProgram_words source file
  rw [hwords] at hmoved
  rw [Declares, Refused, parse]
  constructor
  · intro hcondition
    rw [h.ok hcondition] at hmoved
    cases hparse : standard.parseProgram (Cursor.ofSource source file) with
    | error error later =>
      rw [hparse] at hmoved
      cases hmoved
    | ok program later =>
      rw [hparse] at hmoved
      obtain ⟨body, span⟩ := program
      have hbody : Node.relocateAll (fun _ => default) body = [.declaration d] :=
        congrArg Block.body (EStateM.Result.ok.inj hmoved).1
      rw [Node.relocateAll_eq_map, List.map_eq_singleton_iff] at hbody
      obtain ⟨statement, rfl, hstatement⟩ := hbody
      cases statement with
      | declaration d' =>
        obtain ⟨name, constant, explicit, inferred, value, group, place⟩ := d'
        cases hstatement
        cases group with
        | none => exact ⟨_, span, rfl, rfl, htype⟩
        | some members => cases hgroup
      | _ => cases hstatement
  · intro hcondition
    obtain ⟨error, stop, herror⟩ := h.error hcondition
    rw [herror] at hmoved
    cases hparse : standard.parseProgram (Cursor.ofSource source file) with
    | error error later => exact ⟨error, rfl⟩
    | ok program later =>
      rw [hparse] at hmoved
      cases hmoved

/-- Both sources declare a name of the same type, or both are refused. -/
def SameDeclaration (first second file : String) : Prop :=
  (∃ type, Declares first file type ∧ Declares second file type) ∨ Refused first file ∧ Refused second file

namespace ArraySpelling

variable (spelling : ArraySpelling) (file : String)

theorem declares_type :
    (spelling.FitsType → Declares ("var x " ++ spelling.text) file spelling.type) ∧
      (¬ spelling.FitsType → Refused ("var x " ++ spelling.text) file) := by
  have hwords : wordsOf ("var x " ++ spelling.text).toList =
      (.varWord, "var") :: (.identifier, "x") :: spelling.words := by
    have htext : ("var x " ++ spelling.text).toList =
        'v' :: "ar".toList ++ ' ' :: 'x' :: ([] ++ ' ' :: (spelling.text.toList ++ [])) := by
      simp
    have hname : wordsOf ('x' :: ([] ++ ' ' :: (spelling.text.toList ++ []))) =
        (.identifier, "x") :: wordsOf (' ' :: (spelling.text.toList ++ [])) :=
      wordsOf_word 'x' [] rfl rfl (.of_mem (by decide))
    have htype : wordsOf (' ' :: (spelling.text.toList ++ [])) = spelling.words ++ wordsOf [] :=
      spelling.wordsOf_space_text trivial
    rw [htext, wordsOf_word 'v' _ rfl rfl (.of_mem (by decide)), wordsOf_space (by decide), hname, htype,
      show wordsOf [] = [] from rfl, List.append_nil]
    rfl
  exact declares_of_words file hwords rfl rfl (program_single (by decide) (by decide) (typeStatement_spelled spelling))

theorem declares_literal :
    (spelling.FitsLiteral ∧ spelling.FitsType →
        Declares ("x := " ++ spelling.text ++ "\x7b\x7d") file spelling.type) ∧
      (¬ (spelling.FitsLiteral ∧ spelling.FitsType) → Refused ("x := " ++ spelling.text ++ "\x7b\x7d") file) := by
  have hwords : wordsOf ("x := " ++ spelling.text ++ "\x7b\x7d").toList =
      (.identifier, "x") :: (.declare, ":=") :: (spelling.words ++ emptyBraces) := by
    have htext : ("x := " ++ spelling.text ++ "\x7b\x7d").toList =
        'x' :: [] ++ ' ' :: ':' :: '=' :: ' ' :: (spelling.text.toList ++ ['\x7b', '\x7d']) := by
      simp
    have hdeclare : wordsOf (':' :: '=' :: ' ' :: (spelling.text.toList ++ ['\x7b', '\x7d'])) =
        (.declare, ":=") :: wordsOf (' ' :: (spelling.text.toList ++ ['\x7b', '\x7d'])) :=
      wordsOf_fixed (show Pattern.fixed .declare ":=" ":=" ∈ Pattern.table by simp [Pattern.table]) _
    have htype : wordsOf (' ' :: (spelling.text.toList ++ ['\x7b', '\x7d'])) =
        spelling.words ++ wordsOf ['\x7b', '\x7d'] :=
      spelling.wordsOf_space_text (.of_mem (by decide))
    rw [htext, wordsOf_word 'x' _ rfl rfl (.of_mem (by decide)), wordsOf_space (by decide), hdeclare, htype]
    rfl
  exact declares_of_words file hwords rfl rfl
    (program_single (by decide) (by decide) (literalStatement_spelled spelling))

/-- **An array type in a declaration and in a literal.**  The source `var x T` declares `x` with the type `T` if all
numbers in the brackets are sizes, and the source `x := T{}` if, besides, the numbers that `T` starts with are integers;
otherwise they are refused.  So they agree, unless all numbers are sizes, but not all of the first ones are integers. -/
theorem sameDeclaration_iff :
    (spelling.FitsType → Declares ("var x " ++ spelling.text) file spelling.type) ∧
    (¬ spelling.FitsType → Refused ("var x " ++ spelling.text) file) ∧
    (spelling.FitsLiteral ∧ spelling.FitsType →
      Declares ("x := " ++ spelling.text ++ "\x7b\x7d") file spelling.type) ∧
    (¬ (spelling.FitsLiteral ∧ spelling.FitsType) → Refused ("x := " ++ spelling.text ++ "\x7b\x7d") file) ∧
    (SameDeclaration ("var x " ++ spelling.text) ("x := " ++ spelling.text ++ "\x7b\x7d") file ↔
      (spelling.FitsType → spelling.FitsLiteral)) := by
  obtain ⟨htype, hnoType⟩ := spelling.declares_type file
  obtain ⟨hliteral, hnoLiteral⟩ := spelling.declares_literal file
  refine ⟨htype, hnoType, hliteral, hnoLiteral, ?_⟩
  constructor
  · rintro (⟨type, _, hshort⟩ | ⟨hvar, _⟩) hfits
    · by_cases hleading : spelling.FitsLiteral
      · exact hleading
      · exact absurd (hnoLiteral fun h => hleading h.1) hshort.not_refused
    · exact absurd hvar (htype hfits).not_refused
  · intro himplies
    by_cases hfits : spelling.FitsType
    · exact .inl ⟨spelling.type, htype hfits, hliteral ⟨himplies hfits, hfits⟩⟩
    · exact .inr ⟨hnoType hfits, hnoLiteral fun h => hfits h.2⟩

end ArraySpelling

/-- A size that is no integer: it declares an array, and no literal. -/
theorem declares_without_literal : Declares "var x [9223372036854775808]int" "shell" (.array .int) ∧
    parse "x := [9223372036854775808]int\x7b\x7d" "shell" =
      .error ⟨.numberTooLarge "9223372036854775808", ⟨6, "shell"⟩⟩ :=
  ⟨⟨_, _, by rfl, by rfl, by rfl⟩, by rfl⟩

end GoScript
