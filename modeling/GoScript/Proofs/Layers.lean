import GoScript.Proofs.Primaries

/-!
# One level for each precedence

The usual way to read expressions is one rule for each level of precedence: a chain of the operators of one level has
operands of the next tighter level, the tightest operands may have prefixes, and a primary may have suffixes.  This
file spells that grammar out and shows that it reads what the loop over binding powers reads, from every list of
tokens and down to every error.

* `Layered.chain` — the operators of one level between operands of the next one, from the left
* `Layered.primary`, `Layered.suffixed`, `Layered.prefixed` — the operands of the tightest operators
* `Layered.disjunction` — the loosest level; `Layered.expression` — the grammar tied together
* `expression_eq_chain` — an expression of one power is a chain of expressions of the next
-/

namespace GoScript.Grammar

open ParseM Outcome

namespace Layered

/-! ### The levels -/

/-- One more operator of a level, and its right operand. -/
def chainRound (operators : List TokenKind) (tighter : ParseM Node) (left : Node) : ParseM (Round Node Node) := do
  if (← currentKind) ∈ operators then
    let operator ← advance
    let right ← tighter
    return .again (.binary left operator right ⟨left.span.start, right.span.stop⟩)
  else return .done left

/-- Operands of the next tighter level with operators of this level between them, which lean to the left. -/
def chain (operators : List TokenKind) (tighter : ParseM Node) : ParseM Node := do
  loop (chainRound operators tighter) (← tighter)

/-- An operand that starts with no operator. -/
def primary (sub : Subparsers) : ParseM Node := do
  match ← currentKind with
  | .integer | .identifier | .string | .trueWord | .falseWord => atom
  | .openParen => group sub
  | .openBracket => array sub
  | .funcWord => return .function (← functionAt sub)
  | _ => reject none

/-- One more call or index after a primary. -/
def suffixRound (sub : Subparsers) (left : Node) : ParseM (Round Node Node) := do
  match ← currentKind with
  | .openParen => return .again (← call sub left)
  | .openBracket => return .again (← index sub left)
  | _ => return .done left

/-- A primary with any number of calls and indexes. -/
def suffixed (sub : Subparsers) : ParseM Node := do
  loop (suffixRound sub) (← primary sub)

/-- A primary with its suffixes, or an operator before an operand that may have one again. -/
def prefixed (sub : Subparsers) : ParseM Node := do
  match ← currentKind with
  | .dash | .not =>
    let operator ← advance
    let operand ← sub.expression .unary
    pure (.unary operator operand ⟨operator.span.start, operand.span.stop⟩)
  | _ => suffixed sub

def product (sub : Subparsers) : ParseM Node :=
  chain [.star, .slash, .percent] (prefixed sub)

def sum (sub : Subparsers) : ParseM Node :=
  chain [.plus, .dash] (product sub)

def comparison (sub : Subparsers) : ParseM Node :=
  chain [.less, .lessEquals, .greater, .greaterEquals] (sum sub)

def equality (sub : Subparsers) : ParseM Node :=
  chain [.equals, .notEquals] (comparison sub)

def conjunction (sub : Subparsers) : ParseM Node :=
  chain [.and] (equality sub)

/-- The loosest level. -/
def disjunction (sub : Subparsers) : ParseM Node :=
  chain [.or] (conjunction sub)

/-- The level of the operators that bind more tightly than `power`. -/
def level (sub : Subparsers) : (power : Precedence) → ParseM Node
  | .lowest => disjunction sub
  | .logicalOr => conjunction sub
  | .logicalAnd => equality sub
  | .equality => comparison sub
  | .relational => sum sub
  | .additive => product sub
  | _ => prefixed sub

/-- The rules tied together, as many of them as may nest. -/
def subparsers : (depth : Nat) → Subparsers
  | 0 => ⟨endless, fun _ => endless, endless, endless, endless⟩
  | depth + 1 =>
    { type := fun cursor => typeAt standard (subparsers depth) cursor
      expression := fun power cursor => level (subparsers depth) power cursor
      statement := fun cursor => statementAt standard (subparsers depth) cursor
      block := fun cursor => blockAt (subparsers depth) cursor
      conditional := fun cursor => conditionalStatement (subparsers depth) cursor }

/-- An expression, read level by level. -/
def expression : ParseM Node := do
  disjunction (subparsers (depthBound (← get)))

end Layered

open Layered

/-! ### Chains -/

variable {view : View} {sub other : Subparsers} {cursor later : Cursor}

theorem chainRound_progresses (operators : List TokenKind) (power : Precedence) :
    Progresses (chainRound operators (nested.expression power)) := by
  intro left cursor node later h
  rw [chainRound, currentKind_bind_run] at h
  by_cases hkind : cursor.current.kind ∈ operators
  · rw [if_pos hkind, advance_bind_run] at h
    obtain ⟨right, middle, hright, hpure⟩ := ok_of_bind h
    cases hpure
    have hadvance : cursor.advance.rest.length ≤ cursor.rest.length := by simp [Cursor.advance]
    have hlater := (expression_reads hright).length_le
    omega
  · rw [if_neg hkind] at h
    cases h

theorem chainLoop_stop {operators : List TokenKind} {power : Precedence} (left : Node)
    (hkind : cursor.current.kind ∉ operators) :
    loop (chainRound operators (nested.expression power)) left cursor = .ok left cursor := by
  have hround : chainRound operators (nested.expression power) left cursor = .ok (.done left) cursor := by
    rw [chainRound, currentKind_bind_run, if_neg hkind]
    rfl
  rw [loop_eq (chainRound_progresses operators power), bind_of_ok hround]
  rfl

theorem chainLoop_step {operators : List TokenKind} {power : Precedence} (left : Node)
    (hkind : cursor.current.kind ∈ operators) :
    loop (chainRound operators (nested.expression power)) left cursor =
      (continueWith nested .binary left power >>= loop (chainRound operators (nested.expression power))) cursor := by
  rw [loop_eq (chainRound_progresses operators power), bind_run, chainRound, currentKind_bind_run, if_pos hkind,
    advance_bind_run, bind_run, bind_run, continueWith, binaryOperation, advance_bind_run, bind_run]
  cases nested.expression power cursor.advance <;> rfl

/-! ### From one binding power to the next -/

/-- The operators of one level: they are what binds more tightly than `power` and not more tightly than `next`. -/
structure Level (power next : Precedence) (operators : List TokenKind) : Prop where
  operator : ∀ kind ∈ operators, standard.continuation kind = some (next, .binary)
  other : ∀ kind ∉ operators, Continues power kind ↔ Continues next kind
  tighter : power < next

/-- **What continues an operand at one power is what continues it at the next, and then the operators between.**  The
induction is on the tokens that are left.  After an operator of the level its right operand has taken everything
that binds more tightly, so the next step is again one of the level. -/
theorem continued_eq_chain {power next : Precedence} {operators : List TokenKind} (h : Level power next operators)
    (left : Node) :
    continued power left cursor =
      (continued next left >>= loop (chainRound operators (nested.expression next))) cursor := by
  induction hlength : cursor.rest.length using Nat.strongRecOn generalizing cursor left with
  | ind length ih =>
    by_cases hoperator : cursor.current.kind ∈ operators
    · have hentry := h.operator _ hoperator
      have hstop : ¬ Continues next cursor.current.kind := by
        rintro ⟨entry, hentry', hpower⟩
        rw [hentry] at hentry'
        cases hentry'
        exact Nat.lt_irrefl _ hpower
      rw [continued_step left hentry h.tighter, bind_of_ok (continued_stop left hstop),
        chainLoop_step left hoperator, bind_run, bind_run]
      cases hstep : continueWith nested .binary left next cursor with
      | error error middle => rfl
      | ok node middle =>
        have hmiddle := (continueWith_reads hentry hstep).length_le
        have hafter : ¬ Continues next middle.current.kind := by
          rw [continueWith, binaryOperation, advance_bind_run] at hstep
          obtain ⟨right, last, hright, hpure⟩ := ok_of_bind hstep
          cases hpure
          exact not_continues_of_expression hright
        show continued power node middle = loop _ node middle
        rw [ih middle.rest.length (by omega) node rfl, bind_of_ok (continued_stop node hafter)]
    · by_cases hcontinues : Continues next cursor.current.kind
      · obtain ⟨⟨nextPower, rule⟩, hentry, hpower⟩ := hcontinues
        have hpower' : power < nextPower := Nat.lt_trans h.tighter hpower
        rw [continued_step left hentry hpower', bind_run, bind_run, continued_step left hentry hpower, bind_run]
        cases hstep : continueWith nested rule left nextPower cursor with
        | error error middle => rfl
        | ok node middle =>
          have hmiddle := (continueWith_reads hentry hstep).length_le
          show continued power node middle = _
          rw [ih middle.rest.length (by omega) node rfl, bind_run]
      · have hstop : ¬ Continues power cursor.current.kind := fun hc =>
          hcontinues ((h.other _ hoperator).mp hc)
        rw [continued_stop left hstop, bind_of_ok (continued_stop left hcontinues),
          chainLoop_stop left hoperator]

/-- **An expression of one power is a chain of expressions of the next.** -/
theorem expression_eq_chain {power next : Precedence} {operators : List TokenKind} (h : Level power next operators) :
    nested.expression power = chain operators (nested.expression next) := by
  funext cursor
  rw [nested_expression_eq, chain, nested_expression_eq next, bind_run, bind_run, bind_run]
  cases firstOperand cursor with
  | error error middle => rfl
  | ok left middle =>
    show continued power left middle = _
    rw [continued_eq_chain h, bind_run, nested_expression_eq]

/-! ### The tightest operators -/

/-- Beyond the binary operators there are only calls and indexes. -/
theorem continueRound_eq_suffixRound {power : Precedence} (h : power = .multiplicative ∨ power = .unary) :
    continueRound standard nested power = suffixRound nested := by
  funext left cursor
  have hcall : cursor.current.kind = .openParen → (callOf nested left >>= fun node => pure (.again node)) cursor =
      (call nested left >>= fun node => pure (.again node : Round Node Node)) cursor := by
    intro hkind
    rw [bind_run, bind_run, call_eq hkind]
  have hindex : cursor.current.kind = .openBracket → (indexInto nested left >>= fun node => pure (.again node)) cursor =
      (index nested left >>= fun node => pure (.again node : Round Node Node)) cursor := by
    intro hkind
    rw [bind_run, bind_run, index_eq hkind]
  rw [continueRound, suffixRound, currentKind_bind_run, currentKind_bind_run]
  generalize cursor.current.kind = kind at hcall hindex
  rcases h with rfl | rfl <;> cases kind <;> first | exact hcall rfl | exact hindex rfl | rfl

/-- No binary operator binds like a prefix. -/
theorem continues_iff_suffix {power : Precedence} (h : power = .multiplicative ∨ power = .unary) (kind : TokenKind) :
    Continues power kind ↔ kind = .openParen ∨ kind = .openBracket := by
  rcases h with rfl | rfl <;> cases kind <;> decide

theorem firstOperand_of_operator (h : cursor.current.kind = .dash ∨ cursor.current.kind = .not) :
    firstOperand cursor = unaryOperation nested cursor := by
  rw [firstOperand, currentKind_bind_run]
  rcases h with h | h <;> rw [h] <;> rfl

theorem prefixed_of_operator (h : cursor.current.kind = .dash ∨ cursor.current.kind = .not) :
    prefixed nested cursor = unaryOperation nested cursor := by
  rw [prefixed, currentKind_bind_run]
  rcases h with h | h <;> rw [h] <;> rfl

theorem firstOperand_of_primary (h : ¬ (cursor.current.kind = .dash ∨ cursor.current.kind = .not)) :
    firstOperand cursor = primary nested cursor := by
  have hgroup := @group_eq cursor
  have harray := @array_eq cursor
  rw [firstOperand, primary, currentKind_bind_run, currentKind_bind_run]
  generalize cursor.current.kind = kind at h hgroup harray
  cases kind <;> simp_all <;> rfl

theorem prefixed_of_primary (h : ¬ (cursor.current.kind = .dash ∨ cursor.current.kind = .not)) :
    prefixed nested cursor = suffixed nested cursor := by
  rw [prefixed, currentKind_bind_run]
  cases hkind : cursor.current.kind <;> simp_all

/-- **The operands of the tightest binary operators are the prefixed ones.**  The operand of a prefix has taken all
calls and indexes, so none of them is left for the whole. -/
theorem expression_eq_prefixed {power : Precedence} (h : power = .multiplicative ∨ power = .unary) :
    nested.expression power = prefixed nested := by
  funext cursor
  rw [nested_expression_eq, bind_run]
  by_cases hkind : cursor.current.kind = .dash ∨ cursor.current.kind = .not
  · rw [firstOperand_of_operator hkind, prefixed_of_operator hkind]
    cases hunary : unaryOperation nested cursor with
    | error error later => rfl
    | ok node later =>
      rw [unaryOperation, advance_bind_run] at hunary
      obtain ⟨operand, middle, hoperand, hpure⟩ := ok_of_bind hunary
      cases hpure
      have hafter := not_continues_of_expression hoperand
      rw [continues_iff_suffix (.inr rfl), ← continues_iff_suffix h] at hafter
      exact continued_stop _ hafter
  · rw [firstOperand_of_primary hkind, prefixed_of_primary hkind, suffixed, bind_run]
    cases primary nested cursor with
    | error error later => rfl
    | ok node later =>
      show loop (continueRound standard nested power) node later = loop (suffixRound nested) node later
      rw [continueRound_eq_suffixRound h]

theorem level_or : Level .lowest .logicalOr [.or] :=
  ⟨by decide, fun kind => by cases kind <;> decide, by decide⟩

theorem level_and : Level .logicalOr .logicalAnd [.and] :=
  ⟨by decide, fun kind => by cases kind <;> decide, by decide⟩

theorem level_equality : Level .logicalAnd .equality [.equals, .notEquals] :=
  ⟨by decide, fun kind => by cases kind <;> decide, by decide⟩

theorem level_comparison : Level .equality .relational [.less, .lessEquals, .greater, .greaterEquals] :=
  ⟨by decide, fun kind => by cases kind <;> decide, by decide⟩

theorem level_sum : Level .relational .additive [.plus, .dash] :=
  ⟨by decide, fun kind => by cases kind <;> decide, by decide⟩

theorem level_product : Level .additive .multiplicative [.star, .slash, .percent] :=
  ⟨by decide, fun kind => by cases kind <;> decide, by decide⟩

/-- **An expression is read by the level of its power.** -/
theorem expression_eq_level {power : Precedence} (h : ¬ .unary < power) :
    nested.expression power = level nested power := by
  have hproduct : nested.expression .additive = product nested := by
    rw [expression_eq_chain level_product, expression_eq_prefixed (.inl rfl), product]
  have hsum : nested.expression .relational = sum nested := by
    rw [expression_eq_chain level_sum, hproduct, sum]
  have hcomparison : nested.expression .equality = comparison nested := by
    rw [expression_eq_chain level_comparison, hsum, comparison]
  have hequality : nested.expression .logicalAnd = equality nested := by
    rw [expression_eq_chain level_equality, hcomparison, equality]
  have hconjunction : nested.expression .logicalOr = conjunction nested := by
    rw [expression_eq_chain level_and, hequality, conjunction]
  cases power with
  | lowest =>
    rw [expression_eq_chain level_or, hconjunction]
    rfl
  | logicalOr => exact hconjunction
  | logicalAnd => exact hequality
  | equality => exact hcomparison
  | relational => exact hsum
  | additive => exact hproduct
  | multiplicative => exact expression_eq_prefixed (.inl rfl)
  | unary => exact expression_eq_prefixed (.inr rfl)
  | call | index | primary => exact absurd (by decide) h

/-! ### The layered grammar and its parts -/

theorem primary_tracks (h : sub.Track view cursor.rest.length other) :
    Tracks view (fun _ => False) cursor 1 (primary sub) (primary other) := by
  apply Tracks.bind_currentKind rfl nofun
  split
  case h_1 | h_2 | h_3 | h_4 | h_5 =>
    next hkind => exact (atom_tracks (Cursor.readable_of_kind hkind (by decide))).inside
  case h_6 => exact group_tracks h (Nat.le_refl _)
  case h_7 => exact array_tracks h (Nat.le_refl _)
  case h_8 =>
    apply Tracks.bind (functionAt_tracks h).inside
    intro function later _
    exact Tracks.pure _
  case h_9 => exact Tracks.reject (by decide)

theorem suffixRound_tracks (h : sub.Track view cursor.rest.length other) (left : Node) :
    Tracks view (fun _ => False) cursor 0 (suffixRound sub left) (suffixRound other (relocate view.move left)) := by
  apply Tracks.bind_currentKind rfl nofun
  split
  case h_1 =>
    refine (Tracks.bind (call_tracks h (Nat.le_refl _) left) ?_).mono (Nat.zero_le 1)
    intro node later _
    exact Tracks.pure _
  case h_2 =>
    refine (Tracks.bind (index_tracks h (Nat.le_refl _) left) ?_).mono (Nat.zero_le 1)
    intro node later _
    exact Tracks.pure _
  case h_3 => exact Tracks.pure _

theorem prefixed_tracks (h : sub.Track view cursor.rest.length other) :
    Tracks view (fun _ => False) cursor 1 (prefixed sub) (prefixed other) := by
  have suffixed : Tracks view (fun _ => False) cursor 1 (suffixed sub) (suffixed other) := by
    apply Tracks.bind (primary_tracks h)
    intro node later hlater
    have hlength := hlater.length_le
    apply Tracks.loop node
    intro left last hlast
    have hlength' := hlast.length_le
    exact suffixRound_tracks (h.mono (by omega)) left
  apply Tracks.bind_currentKind rfl nofun
  split
  case h_1 | h_2 =>
    next hkind => exact (unaryOperation_tracks h (Cursor.readable_of_kind hkind (by decide))).inside
  case h_3 => exact suffixed

/-- A chain, wherever its operands agree at all cursors that can be reached. -/
theorem chain_tracks (operators : List TokenKind) (hoperators : ∀ kind ∈ operators, kind.Usable)
    {tighter tighter' : ParseM Node} {n : Nat}
    (h : ∀ cursor : Cursor, cursor.rest.length ≤ n → Tracks view (fun _ => False) cursor 1 tighter tighter') :
    ∀ cursor : Cursor, cursor.rest.length ≤ n →
      Tracks view (fun _ => False) cursor 1 (chain operators tighter) (chain operators tighter') := by
  intro cursor hcursor
  apply Tracks.bind (h cursor hcursor)
  intro first later hlater
  have hlength := hlater.length_le
  apply Tracks.loop first
  intro left last hlast
  have hlength' := hlast.length_le
  refine .bind_currentKind ?_ nofun ?_
  · rw [if_neg fun hcolon => (hoperators _ hcolon).2.2 rfl, if_neg fun hstray => (hoperators _ hstray).2.1 rfl]
  apply Tracks.ite
  · intro hkind
    have hread : last.Readable := Cursor.readable_of_usable (hoperators _ hkind)
    refine (Tracks.bind (Tracks.advance hread) ?_).mono (Nat.zero_le 1)
    intro operator c₁ h₁
    have l₁ := h₁.length_le
    refine (Tracks.bind (h c₁ (by omega)) ?_).mono (Nat.zero_le 1)
    intro right c₂ _
    simp only [relocate_node, Node.span_relocate]
    exact Tracks.pure _
  · intro _
    exact Tracks.pure _

/-- Each level agrees wherever the parts of the primaries do. -/
theorem level_tracks (h : sub.Track view cursor.rest.length other) (power : Precedence) :
    Tracks view (fun _ => False) cursor 1 (level sub power) (level other power) := by
  have hprefixed : ∀ later : Cursor, later.rest.length ≤ cursor.rest.length →
      Tracks view (fun _ => False) later 1 (prefixed sub) (prefixed other) :=
    fun later hlater => prefixed_tracks (h.mono hlater)
  have hproduct := chain_tracks [.star, .slash, .percent] (by decide) hprefixed
  have hsum := chain_tracks [.plus, .dash] (by decide) hproduct
  have hcomparison := chain_tracks [.less, .lessEquals, .greater, .greaterEquals] (by decide) hsum
  have hequality := chain_tracks [.equals, .notEquals] (by decide) hcomparison
  have hconjunction := chain_tracks [.and] (by decide) hequality
  have hdisjunction := chain_tracks [.or] (by decide) hconjunction
  cases power with
  | lowest => exact hdisjunction cursor (Nat.le_refl _)
  | logicalOr => exact hconjunction cursor (Nat.le_refl _)
  | logicalAnd => exact hequality cursor (Nat.le_refl _)
  | equality => exact hcomparison cursor (Nat.le_refl _)
  | relational => exact hsum cursor (Nat.le_refl _)
  | additive => exact hproduct cursor (Nat.le_refl _)
  | multiplicative | unary | call | index | primary => exact hprefixed cursor (Nat.le_refl _)

/-- **The layered grammar gives the parses of the language.**  The induction is that of `subparsers_track`. -/
theorem layered_track (n : Nat) {m : Nat} (hm : 2 * n ≤ m) : (Layered.subparsers m).Track (.moved id) n nested := by
  induction n generalizing m with
  | zero => constructor <;> intros <;> omega
  | succ n ih =>
    obtain ⟨m, rfl⟩ : ∃ i, m = i + 2 := ⟨m - 2, by omega⟩
    have outer : (Layered.subparsers (m + 1)).Track (.moved id) n nested := ih (by omega)
    have inner : (Layered.subparsers m).Track (.moved id) n nested := ih (by omega)
    have hexpression : ∀ cursor : Cursor, cursor.rest.length < n + 1 →
        Tracks (.moved id) Closes cursor 1 ((Layered.subparsers (m + 1)).expression .lowest)
          (nested.expression .lowest) := by
      intro cursor hcursor
      rw [expression_eq_level (by decide)]
      exact (level_tracks (inner.mono (by omega)) .lowest).under
    constructor
    case type =>
      intro cursor hcursor
      rw [nested_type]
      exact typeAt_tracks (outer.mono (by omega))
    case expression =>
      intro power hpower cursor hcursor
      rw [expression_eq_level hpower]
      exact (level_tracks (outer.mono (by omega)) power).under
    case statement =>
      intro cursor hcursor
      rw [nested_statement]
      exact statementAt_tracks (outer.mono (by omega)) (hexpression cursor hcursor)
    case block =>
      intro cursor hcursor
      rw [nested_block]
      exact blockAt_tracks (outer.mono (by omega))
    case conditional =>
      intro cursor hcursor hkind
      have hrule : Tracks (.moved id) Stops cursor 1 (Layered.subparsers (m + 2)).conditional
          (conditionalStatement nested) :=
        conditional_tracks (outer.mono (by omega)) (Cursor.readable_of_kind hkind (by decide))
      refine hrule.congr rfl fun _ _ => nested_conditional ?_
      rw [← hkind]
      exact congrArg Token.kind (cursor.current_relocate id)

/-- **Binding powers read what the layered grammar reads.**  From every list of tokens, both give the same tree and
leave the same tokens, or stop with the same error. -/
theorem parseExpression_eq_layered (cursor : Cursor) :
    standard.parseExpression .lowest cursor = Layered.expression cursor := by
  have hparts : (Layered.subparsers (depthBound cursor)).Track (.moved id) cursor.rest.length nested :=
    layered_track _ (by have := depthBound_ge cursor; omega)
  calc standard.parseExpression .lowest cursor
      = nested.expression .lowest cursor := rfl
    _ = level nested .lowest cursor := by rw [expression_eq_level (by decide)]
    _ = level (Layered.subparsers (depthBound cursor)) .lowest cursor := (level_tracks hparts .lowest).eq_of_id
    _ = Layered.expression cursor := rfl

end GoScript.Grammar
