import Mathlib.Logic.Relation
import GoScript.Proofs.Layers
import GoScript.Proofs.RoundTrip

/-!
# Parentheses are printed where they are needed

An operand is printed in parentheses only if the text would otherwise be parsed to another expression.  On the left of
an operator that binds more tightly than the operand, the operator would be taken into the operand; on the right of an
operator that binds as tightly, only the front of the operand would be taken.

What a parse makes of an operand stands at the left end of the result: it is the left operand of what comes next, that
is the left operand of what follows, and so on.  So two results are compared by what stands there.

* `Extends`, `LeftIn` — one operator or index after an expression, and any number of them
* `leftIn_of_continued` — a parse that continues an operand keeps it at the left end
* `swallows_of_simple` — an operator that binds tightly enough is taken into the expression before it
* `sizeOf_lt_of_loose` — of an expression that binds too loosely only the front is taken
* `takesParens_iff` — parentheses around the operands of operators and indexes are printed exactly if they are needed
-/

namespace GoScript

open ParseM Outcome

namespace Grammar

/-! ### The left end of an expression -/

/-- The second expression is the first one with one operator or index after it. -/
inductive Extends (left : Node) : Node → Prop
  | binary (operator : Token) (right : Node) (span : Span) : Extends left (.binary left operator right span)
  | index (position : Node) (span : Span) : Extends left (.index left position span)

/-- The first expression stands at the left end of the second one. -/
abbrev LeftIn : Node → Node → Prop :=
  Relation.ReflTransGen Extends

theorem Extends.sizeOf_lt {left node : Node} (h : Extends left node) : sizeOf left < sizeOf node := by
  cases h with
  | binary | index => simp +arith

theorem LeftIn.sizeOf_le {left node : Node} (h : LeftIn left node) : sizeOf left ≤ sizeOf node := by
  induction h with
  | refl => exact Nat.le_refl _
  | tail _ hlast ih => exact Nat.le_trans ih (Nat.le_of_lt hlast.sizeOf_lt)

/-- What stands at the left end of one expression stands one inside the other. -/
theorem LeftIn.total {first second root : Node} (h : LeftIn first root) (h' : LeftIn second root) :
    LeftIn first second ∨ LeftIn second first := by
  have hunique : Relator.RightUnique (Function.swap Extends) := by
    intro root first second hfirst hsecond
    cases hfirst with
    | binary | index =>
      cases hsecond
      rfl
  have htotal := Relation.ReflTransGen.total_of_right_unique hunique (Relation.reflTransGen_swap.mpr h)
    (Relation.reflTransGen_swap.mpr h')
  exact htotal.symm.imp Relation.reflTransGen_swap.mp Relation.reflTransGen_swap.mp

theorem LeftIn.right_eq {left right right' : Node} {operator operator' : Token} {span span' : Span}
    (h : LeftIn (.binary left operator right span) (.binary left operator' right' span')) : right = right' := by
  cases h with
  | refl => rfl
  | tail hleft hlast =>
    cases hlast
    have hsize := LeftIn.sizeOf_le hleft
    simp +arith at hsize

theorem LeftIn.operand_eq {operand operand' : Node} {operator operator' : Token} {span span' : Span}
    (h : LeftIn (.unary operator operand span) (.unary operator' operand' span')) : operand = operand' := by
  cases h with
  | refl => rfl
  | tail _ hlast => cases hlast

/-! ### What continues an operand -/

variable {power own : Precedence} {left node result : Node} {word : Word} {rest : List Word} {cursor later : Cursor}

/-- Whatever continues an operand puts it at the left end, unless it makes a call of a name. -/
theorem extends_of_continueWith {rule : Continuation} (hcall : rule = .call → ∀ name span, left ≠ .identifier name span)
    (h : continueWith nested rule left own cursor = .ok node later) : Extends left node := by
  cases rule with
  | binary =>
    rw [continueWith, binaryOperation, advance_bind_run] at h
    obtain ⟨right, middle, _, h⟩ := ok_of_bind h
    cases h
    exact .binary _ right _
  | index =>
    rw [continueWith, indexInto, advance_bind_run] at h
    obtain ⟨position, middle, _, h⟩ := ok_of_bind h
    obtain ⟨bracket, last, _, h⟩ := ok_of_bind h
    cases h
    exact .index position _
  | call =>
    rw [continueWith, callOf] at h
    · cases h
    · exact hcall rfl

/-- **An operand that is no name stays at the left end** while it is continued.  The induction is on the tokens. -/
theorem leftIn_of_continued (hname : ∀ name span, left ≠ .identifier name span)
    (h : continued power left cursor = .ok result later) : LeftIn left result := by
  induction hlength : cursor.rest.length using Nat.strongRecOn generalizing cursor left with
  | ind length ih =>
    by_cases hcontinues : Continues power cursor.current.kind
    · obtain ⟨⟨nextPower, rule⟩, hentry, hpower⟩ := hcontinues
      rw [continued_step left hentry hpower] at h
      obtain ⟨next, middle, hstep, hrest⟩ := ok_of_bind h
      have hreads := (continueWith_reads hentry hstep).length_le
      have hnext := extends_of_continueWith (fun _ => hname) hstep
      refine .head hnext (ih middle.rest.length (by omega) ?_ hrest rfl)
      rintro name span rfl
      cases hnext
    · rw [continued_stop left hcontinues] at h
      cases h
      exact .refl

/-- After an operator or an opening bracket, the operand is only a part of the result. -/
theorem sizeOf_lt_of_continued (hword : word.1 ≠ .openParen) (hcontinues : Continues power word.1)
    (h : continued power left (reading (word :: rest)) = .ok result later) : sizeOf left < sizeOf result := by
  obtain ⟨⟨nextPower, rule⟩, hentry, hpower⟩ := hcontinues
  have hcurrent : standard.continuation (reading (word :: rest)).current.kind = some (nextPower, rule) := hentry
  rw [continued_step left hcurrent hpower] at h
  obtain ⟨next, middle, hstep, hrest⟩ := ok_of_bind h
  have hrule : rule ≠ .call := by
    rintro rfl
    revert hentry hword
    cases word.1 <;> simp [standard, Precedence.binary?]
  have hnext := extends_of_continueWith (fun hcall => absurd hcall hrule) hstep
  have hleft : LeftIn next result := by
    refine leftIn_of_continued ?_ hrest
    rintro name span rfl
    cases hnext
  exact Nat.lt_of_lt_of_le hnext.sizeOf_lt hleft.sizeOf_le

/-- After a binary operator its right operand is read, and both operands stand at the left end of the result. -/
theorem right_of_continued (hentry : standard.continuation word.1 = some (own, .binary)) (hpower : power < own)
    (h : continued power left (reading (word :: rest)) = .ok result later) :
    ∃ right middle span, nested.expression own (reading rest) = .ok right middle ∧
      LeftIn (.binary left word.token right span) result := by
  have hcurrent : standard.continuation (reading (word :: rest)).current.kind = some (own, .binary) := hentry
  rw [continued_step left hcurrent hpower] at h
  obtain ⟨next, middle, hstep, hrest⟩ := ok_of_bind h
  rw [continueWith, binaryOperation, advance_bind_run] at hstep
  obtain ⟨right, middle', hright, hpure⟩ := ok_of_bind hstep
  cases hpure
  exact ⟨right, _, _, hright, leftIn_of_continued (fun _ _ => Node.noConfusion) hrest⟩

/-! ### Operators that bind tightly -/

/-- Whatever continues the words of an expression is taken into it, so that something else is parsed. -/
def Swallows (node : Node) : Prop :=
  ∀ power word rest result later, ¬ .unary < power → power < node.precedence → word.1 ≠ .openParen →
    Continues power word.1 → nested.expression power (reading (node.words ++ word :: rest)) = .ok result later →
    result ≠ node.unplaced

theorem not_continues_primary (kind : TokenKind) : ¬ Continues .primary kind := by
  cases kind <;> decide

section Operands

variable {operand : Node} (hsimple : operand.Simple)
include hsimple

theorem simple_restored : Restored operand :=
  restored_of_legible operand hsimple.legible

theorem simple_enclosed : Enclosed operand :=
  (simple_restored hsimple).enclosed hsimple.sound.formed

theorem simple_not_size (kind : TokenKind) :
    operand.isNumberList = true ∨ operand.isNumberIndex = true → kind ≠ .openBracket := by
  have hlist := Node.isNumberList_of_isArray (hsimple.arrays operand (.self operand))
  have hindex := Node.isNumberIndex_of_parts fun part hpart => hsimple.arrays part (.part hpart (.self part))
  simp [hlist, hindex]

/-- The same for an operand on the right, with the parentheses that it has there. -/
theorem rightOperand_ne (h : Swallows operand) (hunary : ¬ .unary < power) (hword : word.1 ≠ .openParen)
    (hcontinues : Continues power word.1)
    (hrun : nested.expression power (reading (parenthesizeWords (operand.takesParens power true) operand.words ++
      word :: rest)) = .ok result later) : result ≠ operand.unplaced := by
  cases hparens : operand.takesParens power true with
  | false =>
    rw [hparens] at hrun
    exact h power word rest result later hunary (lt_of_takesParens_right hparens) hword hcontinues hrun
  | true =>
    rw [hparens, (simple_restored hsimple).parenthesize (simple_enclosed hsimple) true hunary
      (fun hbare => by cases hbare)] at hrun
    have hsize := sizeOf_lt_of_continued hword hcontinues hrun
    rintro rfl
    exact Nat.lt_irrefl _ hsize

end Operands

/-- An operation binds as tightly as its operator does. -/
theorem simple_operator {left right : Node} {operator : Token} {span : Span}
    (hsimple : (Node.binary left operator right span).Simple) :
    ∃ own, Precedence.binary? operator.kind = some own ∧ (Node.binary left operator right span).precedence = own := by
  obtain ⟨own, hown⟩ := Option.isSome_iff_exists.mp hsimple.sound.formed.1
  refine ⟨own, hown, ?_⟩
  rw [Node.precedence, hown]
  rfl

theorem not_leftIn_binary {left right : Node} {operator : Token} {span : Span}
    (hsimple : (Node.binary left operator right span).Simple) (hright : Swallows right) (hunary : ¬ .unary < power)
    (hpower : power < (Node.binary left operator right span).precedence) (hword : word.1 ≠ .openParen)
    (hcontinues : Continues (Node.binary left operator right span).precedence word.1)
    (hrun : nested.expression power (reading ((Node.binary left operator right span).words ++ word :: rest)) =
      .ok result later) : ¬ LeftIn (Node.binary left operator right span).unplaced result := by
  have hleft' : left.Simple := hsimple.part (by simp [Node.parts])
  have hright' : right.Simple := hsimple.part (by simp [Node.parts])
  obtain ⟨own, hown, hprecedence⟩ := simple_operator hsimple
  rw [hprecedence] at hpower hcontinues
  have hentry := continuation_of_binary? hown
  rw [Node.words, hown, Option.getD_some, List.append_assoc, List.cons_append,
    (simple_restored hleft').leftOperand (simple_enclosed hleft') hunary hentry hpower
      (simple_not_size hleft' _)] at hrun
  obtain ⟨found, middle, foundSpan, hfound, hend⟩ := right_of_continued hentry hpower hrun
  have hne := rightOperand_ne hright' hright (binary?_range hown).2 hword hcontinues hfound
  intro hwhole
  rcases hend.total hwhole with h | h
  · exact hne h.right_eq
  · exact hne h.right_eq.symm

theorem not_leftIn_unary {operand : Node} {operator : Token} {span : Span}
    (hsimple : (Node.unary operator operand span).Simple) (hoperand : Swallows operand)
    (hword : word.1 ≠ .openParen) (hcontinues : Continues .unary word.1)
    (hrun : nested.expression power (reading ((Node.unary operator operand span).words ++ word :: rest)) =
      .ok result later) : ¬ LeftIn (Node.unary operator operand span).unplaced result := by
  have hcurrent : (reading ((Node.unary operator operand span).words ++ word :: rest)).current.kind = .dash ∨
      (reading ((Node.unary operator operand span).words ++ word :: rest)).current.kind = .not :=
    hsimple.sound.formed.1
  rw [nested_expression_eq] at hrun
  obtain ⟨first, middle, hfirst, hrest⟩ := ok_of_bind hrun
  rw [firstOperand_of_operator hcurrent, unaryOperation, advance_bind_run] at hfirst
  obtain ⟨found, last, hfound, hpure⟩ := ok_of_bind hfirst
  cases hpure
  have hne := rightOperand_ne (hsimple.part (by simp [Node.parts])) hoperand (by decide) hword hcontinues hfound
  have hend := leftIn_of_continued (fun _ _ => Node.noConfusion) hrest
  intro hwhole
  rcases hend.total hwhole with h | h
  · exact hne h.operand_eq
  · exact hne h.operand_eq.symm

/-- An operator that binds more tightly than an expression takes its last operand away, so that the expression does not
stand at the left end of what is parsed. -/
theorem not_leftIn_of_continues (hsimple : node.Simple) (hparts : ∀ part ∈ node.parts, Swallows part)
    (hunary : ¬ .unary < power) (hpower : power < node.precedence) (hword : word.1 ≠ .openParen)
    (hcontinues : Continues node.precedence word.1)
    (hrun : nested.expression power (reading (node.words ++ word :: rest)) = .ok result later) :
    ¬ LeftIn node.unplaced result := by
  cases node with
  | binary left operator right span =>
    exact not_leftIn_binary hsimple (hparts right (by simp [Node.parts])) hunary hpower hword hcontinues hrun
  | unary operator operand span =>
    exact not_leftIn_unary hsimple (hparts operand (by simp [Node.parts])) hword hcontinues hrun
  | _ => exact absurd hcontinues (not_continues_primary _)

/-- **What continues the words of an expression is taken into it.** -/
theorem swallows_of_simple (node : Node) (hsimple : node.Simple) : Swallows node := by
  induction node using Node.partsInduction with
  | step node ih =>
    have hparts : ∀ part ∈ node.parts, Swallows part := fun part hpart => ih part hpart (hsimple.part hpart)
    intro power word rest result later hunary hpower hword hcontinues hrun
    by_cases hinner : Continues node.precedence word.1
    · rintro rfl
      exact not_leftIn_of_continues hsimple hparts hunary hpower hword hinner hrun .refl
    · -- the expression is complete, and the operator goes on from it
      obtain ⟨⟨own, rule⟩, hentry, hown⟩ := hcontinues
      have hallowed : Allowed node (reading (word :: rest)).current.kind :=
        .of_continuation hentry (fun hlt => hinner ⟨_, hentry, hlt⟩) (simple_not_size hsimple _)
      rw [simple_restored hsimple power (word :: rest) hunary hpower hallowed] at hrun
      have hsize := sizeOf_lt_of_continued hword ⟨_, hentry, hown⟩ hrun
      rintro rfl
      exact Nat.lt_irrefl _ hsize

/-- A left operand without the parentheses that it needs does not become the left operand. -/
theorem not_leftIn_of_takesParens (hsimple : node.Simple) {rule : Continuation}
    (hentry : standard.continuation word.1 = some (own, rule)) (hword : word.1 ≠ .openParen)
    (hparens : node.takesParens own false = true)
    (hrun : nested.expression .lowest (reading (node.words ++ word :: rest)) = .ok result later) :
    ¬ LeftIn node.unplaced result := by
  have hloose : node.precedence < own := by simpa [Node.takesParens] using hparens
  exact not_leftIn_of_continues hsimple (fun part hpart => swallows_of_simple part (hsimple.part hpart)) (by decide)
    (lowest_lt_precedence hsimple.sound.formed) hword ⟨_, hentry, hloose⟩ hrun

/-! ### Operators that bind loosely -/

/-- **Of an expression that binds too loosely only the front is taken.** -/
theorem sizeOf_lt_of_loose (hsimple : node.Simple) (hpower : power < .unary) (hloose : ¬ power < node.precedence)
    (hrun : nested.expression power (reading (node.words ++ rest)) = .ok result later) :
    sizeOf result < sizeOf node.unplaced := by
  induction node using Node.partsInduction generalizing rest with
  | step node ih =>
    cases node with
    | binary left operator right span =>
      have hleft : left.Simple := hsimple.part (by simp [Node.parts])
      have hpart : sizeOf left.unplaced < sizeOf (Node.binary left operator right span).unplaced :=
        (Extends.binary _ _ _).sizeOf_lt
      obtain ⟨own, hown, hprecedence⟩ := simple_operator hsimple
      have hentry := continuation_of_binary? hown
      rw [hprecedence] at hloose
      rw [Node.words, hown, Option.getD_some, List.append_assoc, List.cons_append] at hrun
      by_cases hfront : left.takesParens own false = false ∧ ¬ power < left.precedence
      · rw [hfront.1] at hrun
        exact Nat.lt_trans (ih left (by simp [Node.parts]) hleft hfront.2 hrun) hpart
      · -- the left operand is read as it is, and its operator is left standing
        have hbare : left.takesParens own false = false → power < left.precedence := fun hnone =>
          Decidable.not_not.mp fun hnot => hfront ⟨hnone, hnot⟩
        have hstop : ¬ Continues power operator.kind := by
          rintro ⟨entry, hentry', hlt⟩
          rw [hentry] at hentry'
          cases hentry'
          exact hloose hlt
        have hallowed : left.takesParens own false = false → power < left.precedence ∧ Allowed left operator.kind :=
          fun hnone => ⟨hbare hnone,
            .of_continuation hentry (not_lt_of_takesParens_left hnone) (simple_not_size hleft _)⟩
        rw [(simple_restored hleft).parenthesize (simple_enclosed hleft) _ (Nat.lt_asymm hpower) ?_,
          continued_stop _ hstop] at hrun
        · cases hrun
          exact hpart
        · exact hallowed
    | unary => exact absurd hpower hloose
    | _ => exact absurd (Nat.lt_trans hpower (show Precedence.unary.rank < Precedence.primary.rank by decide)) hloose

/-- A right operand without the parentheses that it needs does not become the right operand. -/
theorem right_ne_of_takesParens (hsimple : node.Simple) {kind : TokenKind} (hown : Precedence.binary? kind = some own)
    (hparens : node.takesParens own true = true)
    (hrun : nested.expression own (reading node.words) = .ok result later) : result ≠ node.unplaced := by
  have hloose : ¬ own < node.precedence := by
    intro hlt
    have hle : ¬ node.precedence < own := Nat.lt_asymm hlt
    have hne : node.precedence ≠ own := fun heq => Nat.lt_irrefl _ (heq ▸ hlt)
    simp [Node.takesParens, hle, hne] at hparens
  have hunary : own < .unary := by
    revert hown
    cases kind <;> simp [Precedence.binary?] <;> rintro rfl <;> decide
  rw [← List.append_nil node.words] at hrun
  have hsize := sizeOf_lt_of_loose hsimple hunary hloose hrun
  rintro rfl
  exact Nat.lt_irrefl _ hsize

end Grammar

/-! ### Texts -/

open Grammar

section Texts

variable {left right collection position : Node} {operator : Token} {span : Span}

/-- What the text of a binary operation is parsed to, with parentheses around any of its operands. -/
theorem readsAs_operation_iff (hsimple : (Node.binary left operator right span).Simple) (needed needed' : Bool) :
    ReadsAs (parenthesize needed left.source ++ " " ++ operator.value ++ " " ++ parenthesize needed' right.source)
        (.binary left operator right span) ↔
      nested.expression .lowest (reading (parenthesizeWords needed left.words ++ (operator.kind, operator.value) ::
        parenthesizeWords needed' right.words)) = .ok (Node.binary left operator right span).unplaced (reading []) := by
  have hleft : left.Simple := hsimple.part (by simp [Node.parts])
  have hright : right.Simple := hsimple.part (by simp [Node.parts])
  obtain ⟨hkind, hspelled, _⟩ := hsimple.sound.formed
  have hwords := wordsOf_operation hkind hspelled (wordsOf_source left hleft.legible)
    (wordsOf_source right hright.legible) (startsVisibly_source right hright.legible) needed needed'
    (show Boundary [] from trivial)
  rw [List.append_nil, show wordsOf [] = [] from rfl, List.append_nil] at hwords
  rw [readsAs_iff_words, hwords]

/-- What the text of an index is parsed to, with or without parentheses around its collection. -/
theorem readsAs_indexing_iff (hsimple : (Node.index collection position span).Simple) (needed : Bool) :
    ReadsAs (parenthesize needed collection.source ++ "[" ++ position.source ++ "]")
        (.index collection position span) ↔
      nested.expression .lowest (reading (parenthesizeWords needed collection.words ++ (.openBracket, "[") ::
        (position.words ++ [(.closeBracket, "]")]))) =
          .ok (Node.index collection position span).unplaced (reading []) := by
  have hcollection : collection.Simple := hsimple.part (by simp [Node.parts])
  have hposition : position.Simple := hsimple.part (by simp [Node.parts])
  have hwords := wordsOf_indexing (wordsOf_source collection hcollection.legible)
    (wordsOf_source position hposition.legible) needed []
  rw [List.append_nil, show wordsOf [] = [] from rfl, List.append_nil] at hwords
  rw [readsAs_iff_words, hwords]

/-- The left operand of an operator is printed in parentheses exactly if they are needed. -/
theorem leftParens_iff (hsimple : (Node.binary left operator right span).Simple) :
    left.takesParens (Node.binary left operator right span).precedence false = false ↔
      ReadsAs (left.source ++ " " ++ operator.value ++ " " ++
        parenthesize (right.takesParens (Node.binary left operator right span).precedence true) right.source)
        (.binary left operator right span) := by
  obtain ⟨own, hown, hprecedence⟩ := simple_operator hsimple
  rw [hprecedence]
  constructor
  · intro hparens
    have hsource := readsAs_source hsimple.legible
    rw [Node.source, hown, Option.getD_some, hparens] at hsource
    exact hsource
  · intro hreads
    have hrun := (readsAs_operation_iff hsimple false _).mp hreads
    have hoperator : operator.kind ≠ .openParen := fun hkind => by rw [hkind] at hown; cases hown
    rw [← Bool.not_eq_true]
    intro hparens
    exact not_leftIn_of_takesParens (hsimple.part (by simp [Node.parts])) (continuation_of_binary? hown) hoperator
      hparens hrun (.single (.binary _ _ _))

/-- The right operand of an operator is printed in parentheses exactly if they are needed. -/
theorem rightParens_iff (hsimple : (Node.binary left operator right span).Simple) :
    right.takesParens (Node.binary left operator right span).precedence true = false ↔
      ReadsAs (parenthesize (left.takesParens (Node.binary left operator right span).precedence false) left.source ++
        " " ++ operator.value ++ " " ++ right.source) (.binary left operator right span) := by
  have hleft : left.Simple := hsimple.part (by simp [Node.parts])
  obtain ⟨own, hown, hprecedence⟩ := simple_operator hsimple
  rw [hprecedence]
  constructor
  · intro hparens
    have hsource := readsAs_source hsimple.legible
    rw [Node.source, hown, Option.getD_some, hparens] at hsource
    exact hsource
  · intro hreads
    have hrun := (readsAs_operation_iff hsimple _ false).mp hreads
    have hentry := continuation_of_binary? hown
    have hpower := (binary?_range hown).1
    rw [(simple_restored hleft).leftOperand (simple_enclosed hleft) (by decide) hentry hpower
      (simple_not_size hleft _)] at hrun
    obtain ⟨found, middle, foundSpan, hfound, hend⟩ := right_of_continued hentry hpower hrun
    rw [← Bool.not_eq_true]
    intro hparens
    exact right_ne_of_takesParens (hsimple.part (by simp [Node.parts])) hown hparens hfound hend.right_eq

/-- The collection of an index is printed in parentheses exactly if they are needed. -/
theorem collectionParens_iff (hsimple : (Node.index collection position span).Simple) :
    collection.takesParens .index false = false ↔
      ReadsAs (collection.source ++ "[" ++ position.source ++ "]") (.index collection position span) := by
  constructor
  · intro hparens
    have hsource := readsAs_source hsimple.legible
    rw [Node.source, hparens] at hsource
    exact hsource
  · intro hreads
    have hrun := (readsAs_indexing_iff hsimple false).mp hreads
    have hentry : standard.continuation .openBracket = some (.index, .index) := rfl
    rw [← Bool.not_eq_true]
    intro hparens
    exact not_leftIn_of_takesParens (hsimple.part (by simp [Node.parts])) hentry (by decide) hparens hrun
      (.single (.index _ _))

end Texts

/-- **Parentheses are printed exactly where they are needed.**  In an operation or an index that a parse can produce,
with neither an array nor a function in it, an operand takes no parentheses if and only if the text without them, and
with everything else as it is printed, is parsed to the same expression. -/
theorem takesParens_iff {node : Node} (hparsed : node.Parsed)
    (harrays : ∀ part : Node, part.Within node → part.isArray = false)
    (hfunctions : ∀ part : Node, part.Within node → part.isFunction = false) :
    match node with
    | .binary left operator right _ =>
      (left.takesParens node.precedence false = false ↔
        ReadsAs (left.source ++ " " ++ operator.value ++ " " ++
          parenthesize (right.takesParens node.precedence true) right.source) node) ∧
      (right.takesParens node.precedence true = false ↔
        ReadsAs (parenthesize (left.takesParens node.precedence false) left.source ++ " " ++ operator.value ++ " " ++
          right.source) node)
    | .index collection position _ =>
      collection.takesParens .index false = false ↔
        ReadsAs (collection.source ++ "[" ++ position.source ++ "]") node
    | _ => True := by
  cases node with
  | binary left operator right span =>
    have hsimple : (Node.binary left operator right span).Simple := ⟨rfl, hparsed.sound, hfunctions, harrays⟩
    exact ⟨leftParens_iff hsimple, rightParens_iff hsimple⟩
  | index collection position span => exact collectionParens_iff ⟨rfl, hparsed.sound, hfunctions, harrays⟩
  | _ => trivial

/-- In `(a - b) * c` the parentheses are needed on the left, and none are on the right. -/
theorem takesParens_iff_product : ∃ node : Node, node.source = "(a - b) * c" ∧ ReadsAs "(a - b) * c" node ∧
    ¬ ReadsAs "a - b * c" node := by
  obtain ⟨a, minus, b, difference, star, c, product, later, h⟩ : ∃ a minus b difference star c product later,
      standard.parseExpression .lowest (Cursor.ofSource "(a - b) * c" "shell") =
        .ok (.binary (.binary (.identifier "a" a) ⟨.dash, "-", minus⟩ (.identifier "b" b) difference)
          ⟨.star, "*", star⟩ (.identifier "c" c) product) later :=
    ⟨_, _, _, _, _, _, _, _, by rfl⟩
  have hparts : ∀ part : Node, part.Within (.binary (.binary (.identifier "a" a) ⟨.dash, "-", minus⟩
      (.identifier "b" b) difference) ⟨.star, "*", star⟩ (.identifier "c" c) product) →
      part.isArray = false ∧ part.isFunction = false := by
    repeat' first
      | exact ⟨rfl, rfl⟩
      | exact List.forall_mem_nil _
      | refine Node.forall_within.mpr ⟨?_, ?_⟩
      | refine List.forall_mem_cons.mpr ⟨?_, ?_⟩
  obtain ⟨hleft, hright⟩ := takesParens_iff (.expression List.suffix_rfl h (.self _))
    (fun part within => (hparts part within).1) fun part within => (hparts part within).2
  refine ⟨_, ?_, hright.mp rfl, fun hreads => ?_⟩
  · rfl
  · cases hleft.mpr hreads

end GoScript
