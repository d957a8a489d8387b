import GoScript.Proofs.Derivations
import GoScript.Proofs.Separators

/-!
# Parses have derivations

Each rule of the grammar finds a derivation or complains about a token, given that the parses for its parts do wherever
fewer tokens are left.  Every round of a repetition reads a token, so no rule goes on without end.  By induction on the
tokens that are left the parses of the language have derivations.

* `Yields` — what a parse does at a cursor: what it yields, and that it complains about a token if it fails
* `Yields.bind`, `Yields.loop`, `Yields.gather`, … — the rules for sequences, repetitions and single steps
* `Subparsers.Yield` — parses for the parts of rules that have derivations wherever fewer than `bound` tokens are left
* `nested_yield`, `parseProgram_yields` — the parses of the language have derivations
-/

namespace GoScript

open ParseM Outcome

/-! ### The account of a parse -/

variable {α β σ : Type} {tokens : List Token} {k : Knowledge tokens} {cursor : Cursor}

/-- **What a parse does at a cursor that something is known of.**  If it succeeds, then its value and the cursor that it
comes to satisfy `Q`, and as much is known there.  If it fails, then with a complaint. -/
def Yields (k : Knowledge tokens) (cursor : Cursor) (parse : ParseM α) (Q : α → Cursor → Prop) : Prop :=
  k.Holds cursor → match parse cursor with
    | .ok value later => k.Holds later ∧ later.rest.length ≤ cursor.rest.length ∧ Q value later
    | .error error _ => Complaint tokens error

/-- What a round of a loop decides on: if it goes on, it has read a token and keeps the invariant, and else the result
satisfies `Q`. -/
def ParseM.Round.Keeps (cursor : Cursor) (Invariant : σ → Cursor → Prop) (Q : α → Cursor → Prop) :
    Round σ α → Cursor → Prop
  | .again value, later => later.rest.length < cursor.rest.length ∧ Invariant value later
  | .done result, later => Q result later

/-- What an item adds to the lists that follow it: if there are any, it has read a token. -/
def ParseM.Item.Extends (Listing : Cursor → List α → Cursor → Prop) (cursor : Cursor) : Item α → Cursor → Prop
  | .stop, later => Listing cursor [] later
  | .last value, later => Listing cursor [value] later
  | .more value, later => later.rest.length < cursor.rest.length ∧
    ∀ values last, Listing later values last → Listing cursor (value :: values) last

namespace Yields

variable {P : α → Cursor → Prop} {Q : β → Cursor → Prop} {parse : ParseM α}

/-- The account may rely on what is known at the cursor. -/
theorem given (h : k.Holds cursor → Yields k cursor parse P) : Yields k cursor parse P :=
  fun hcursor => h hcursor hcursor

theorem of_ok (h : Yields k cursor parse P) (hcursor : k.Holds cursor) {value : α} {later : Cursor}
    (hok : parse cursor = .ok value later) :
    k.Holds later ∧ later.rest.length ≤ cursor.rest.length ∧ P value later := by
  have hparse := h hcursor
  rwa [hok] at hparse

theorem of_error (h : Yields k cursor parse P) (hcursor : k.Holds cursor) {error : Error} {later : Cursor}
    (herror : parse cursor = .error error later) : Complaint tokens error := by
  have hparse := h hcursor
  rwa [herror] at hparse

theorem mk (hok : k.Holds cursor → ∀ value later, parse cursor = .ok value later →
      k.Holds later ∧ later.rest.length ≤ cursor.rest.length ∧ P value later)
    (herror : k.Holds cursor → ∀ error later, parse cursor = .error error later → Complaint tokens error) :
    Yields k cursor parse P := by
  intro hcursor
  cases hparse : parse cursor with
  | ok value later => exact hok hcursor value later hparse
  | error error later => exact herror hcursor error later hparse

theorem mono {P' : α → Cursor → Prop} (h : Yields k cursor parse P)
    (himp : ∀ value later, parse cursor = .ok value later → P value later → P' value later) :
    Yields k cursor parse P' := by
  refine mk (fun hcursor value later hok => ?_) fun hcursor error later herror => h.of_error hcursor herror
  obtain ⟨hlater, hlength, hvalue⟩ := h.of_ok hcursor hok
  exact ⟨hlater, hlength, himp value later hok hvalue⟩

theorem congr {other : ParseM α} (h : Yields k cursor parse P) (heq : other cursor = parse cursor) :
    Yields k cursor other P := by
  rw [Yields, heq]
  exact h

theorem pure {value : α} (h : P value cursor) : Yields k cursor (Pure.pure value) P :=
  fun hcursor => ⟨hcursor, Nat.le_refl _, h⟩

theorem throw {error : Error} (h : Complaint tokens error) : Yields k cursor (throw error : ParseM α) P :=
  fun _ => h

theorem reject (message? : Option String) : Yields k cursor (ParseM.reject message? : ParseM α) P :=
  fun hcursor => .misfit message? (k.among cursor hcursor)

/-- **Sequence.**  The second parse may rely on what the first one yields. -/
theorem bind {next : α → ParseM β} (first : Yields k cursor parse P)
    (rest : ∀ value later, later.rest.length ≤ cursor.rest.length → P value later → Yields k later (next value) Q) :
    Yields k cursor (parse >>= next) Q := by
  refine mk (fun hcursor result last hok => ?_) fun hcursor error last herror => ?_
  · obtain ⟨value, later, hparse, hnext⟩ := ok_of_bind hok
    obtain ⟨hlater, hlength, hvalue⟩ := first.of_ok hcursor hparse
    obtain ⟨hlast, hlength', hresult⟩ := (rest value later hlength hvalue).of_ok hlater hnext
    exact ⟨hlast, Nat.le_trans hlength' hlength, hresult⟩
  · rcases error_of_bind herror with hparse | ⟨value, later, hparse, hnext⟩
    · exact first.of_error hcursor hparse
    · obtain ⟨hlater, hlength, hvalue⟩ := first.of_ok hcursor hparse
      exact (rest value later hlength hvalue).of_error hlater hnext

theorem ite {condition : Prop} [Decidable condition] {other : ParseM α}
    (hthen : condition → Yields k cursor parse P) (helse : ¬ condition → Yields k cursor other P) :
    Yields k cursor (if condition then parse else other) P := by
  by_cases h : condition
  · rw [if_pos h]
    exact hthen h
  · rw [if_neg h]
    exact helse h

/-! Looking at the cursor reads nothing. -/

theorem bind_current {next : Token → ParseM β} (h : Yields k cursor (next cursor.current) Q) :
    Yields k cursor (ParseM.current >>= next) Q := h

theorem bind_currentKind {next : TokenKind → ParseM β} (h : Yields k cursor (next cursor.current.kind) Q) :
    Yields k cursor (ParseM.currentKind >>= next) Q := h

theorem bind_nextKind {next : TokenKind → ParseM β} (h : Yields k cursor (next cursor.next.kind) Q) :
    Yields k cursor (ParseM.nextKind >>= next) Q := h

theorem bind_position {next : Position → ParseM β} (h : Yields k cursor (next cursor.position) Q) :
    Yields k cursor (ParseM.position >>= next) Q := h

theorem bind_spanSince {start : Position} {next : Span → ParseM β}
    (h : Yields k cursor (next (cursor.spanSince start)) Q) : Yields k cursor (ParseM.spanSince start >>= next) Q := h

theorem bind_get {next : Cursor → ParseM β} (h : Yields k cursor (next cursor) Q) :
    Yields k cursor (get >>= next) Q := h

theorem bind_startsType {grammar : Grammar} {next : Bool → ParseM β}
    (h : Yields k cursor (next (grammar.type cursor.current.kind).isSome) Q) :
    Yields k cursor (grammar.startsType >>= next) Q := h

/-! Single tokens. -/

theorem advance {kind : TokenKind} (hkind : cursor.current.kind = kind) (husable : kind.Usable) :
    Yields k cursor ParseM.advance (Takes k kind cursor) := by
  intro hcursor
  have htakes : Takes k kind cursor cursor.current cursor.advance := ⟨hcursor, rfl, rfl, hkind, husable⟩
  exact ⟨k.advance cursor hcursor, Nat.le_of_lt htakes.length_lt, htakes⟩

theorem takeOr {kind : TokenKind} (husable : kind.Usable) {error : Error}
    (herror : cursor.Among tokens → Complaint tokens error) :
    Yields k cursor (ParseM.takeOr kind error) (Takes k kind cursor) :=
  bind_currentKind (ite (fun hkind => advance hkind husable) fun _ => given fun hcursor =>
    throw (herror (k.among cursor hcursor)))

theorem take {kind : TokenKind} (husable : kind.Usable) :
    Yields k cursor (ParseM.take kind) (Takes k kind cursor) :=
  bind_currentKind (ite (fun hkind => advance hkind husable) fun _ => reject _)

theorem bind_dropSemicolons {next : Unit → ParseM β}
    (h : cursor.dropSemicolons.rest.length ≤ cursor.rest.length → k.Holds cursor →
      Yields k cursor.dropSemicolons (next ()) Q) : Yields k cursor (ParseM.dropSemicolons >>= next) Q := by
  have hlength := cursor.reaches_dropSemicolons.length_le
  refine given fun hcursor => bind (P := fun _ later => later = cursor.dropSemicolons) ?_ ?_
  · exact fun _ => ⟨k.dropSemicolons hcursor, hlength, rfl⟩
  · rintro _ _ _ rfl
    exact h hlength hcursor

theorem check {outcome : Except Error α} (hok : ∀ value, outcome = .ok value → P value cursor)
    (herror : ∀ error, outcome = .error error → Complaint tokens error) :
    Yields k cursor (ParseM.check outcome) P := by
  cases outcome with
  | ok value => exact pure (hok value rfl)
  | error error => exact throw (herror error rfl)

/-- What follows a check starts at the same cursor. -/
theorem bind_check {outcome : Except Error α} {next : α → ParseM β}
    (hok : ∀ value, outcome = .ok value → Yields k cursor (next value) Q)
    (herror : ∀ error, outcome = .error error → Complaint tokens error) :
    Yields k cursor (ParseM.check outcome >>= next) Q := by
  cases outcome with
  | ok value => exact hok value rfl
  | error error => exact throw (herror error rfl)

/-! Repetitions. -/

/-- A loop whose rounds read a token each comes to an end, with what holds after its last round. -/
theorem loop {round : σ → ParseM (Round σ α)} (Invariant : σ → Cursor → Prop) {value : σ}
    (hstart : Invariant value cursor)
    (hround : ∀ value later, later.rest.length ≤ cursor.rest.length → Invariant value later →
      Yields k later (round value) (Round.Keeps later Invariant P)) :
    Yields k cursor (ParseM.loop round value) P := by
  have bounded : ∀ bound value later, later.rest.length < bound → later.rest.length ≤ cursor.rest.length →
      Invariant value later → Yields k later (loopFor round bound value) P := by
    intro bound
    induction bound with
    | zero => exact fun _ _ hlength => absurd hlength (Nat.not_lt_zero _)
    | succ bound ih =>
      intro value later hbound hlength hvalue
      refine bind (hround value later hlength hvalue) fun outcome last hlast houtcome => ?_
      cases outcome with
      | again next =>
        have hshorter := houtcome.1
        exact ih next last (by omega) (by omega) houtcome.2
      | done result => exact pure houtcome
  exact bounded _ value cursor (Nat.lt_succ_self _) (Nat.le_refl _) hstart

/-- A list whose rounds read a token for each item that others follow comes to an end. -/
theorem gather {item : ParseM (Item α)} {Listing : Cursor → List α → Cursor → Prop}
    (hitem : ∀ later, later.rest.length ≤ cursor.rest.length → Yields k later item (Item.Extends Listing later)) :
    Yields k cursor (ParseM.gather item) (Listing cursor) := by
  have bounded : ∀ bound later, later.rest.length < bound → later.rest.length ≤ cursor.rest.length →
      Yields k later (gatherFor item bound) (Listing later) := by
    intro bound
    induction bound with
    | zero => exact fun _ hlength => absurd hlength (Nat.not_lt_zero _)
    | succ bound ih =>
      intro later hbound hlength
      refine bind (hitem later hlength) fun outcome last hlast houtcome => ?_
      cases outcome with
      | stop => exact pure houtcome
      | last value => exact pure houtcome
      | more value =>
        obtain ⟨hshorter, hextends⟩ := houtcome
        exact bind (ih last (by omega) (by omega)) fun values final _ hvalues => pure (hextends values final hvalues)
  exact bounded _ cursor (Nat.lt_succ_self _) (Nat.le_refl _)

end Yields

/-! ### Types -/

/-- The parses for the parts of rules have derivations or complain about a token, wherever fewer than `bound` tokens are
left.  A statement is not empty, and a condition is looked for only at the word that starts one. -/
structure Subparsers.Yield (k : Knowledge tokens) (bound : Nat) (sub : Subparsers) : Prop where
  type : ∀ cursor : Cursor, cursor.rest.length < bound → Yields k cursor sub.type (Derives k .type cursor)
  expression : ∀ power (cursor : Cursor), cursor.rest.length < bound →
    Yields k cursor (sub.expression power) (Derives k .expression cursor)
  statement : ∀ cursor : Cursor, cursor.rest.length < bound →
    Yields k cursor sub.statement fun node later =>
      later.rest.length < cursor.rest.length ∧ Derives k .statement cursor node later
  block : ∀ cursor : Cursor, cursor.rest.length < bound → Yields k cursor sub.block (Derives k .block cursor)
  conditional : ∀ cursor : Cursor, cursor.rest.length < bound → cursor.current.kind = .ifWord →
    Yields k cursor sub.conditional (Derives k .statement cursor)

theorem Subparsers.Yield.mono {m n : Nat} {sub : Subparsers} (h : sub.Yield k n) (hmn : m ≤ n) : sub.Yield k m where
  type cursor hc := h.type cursor (by omega)
  expression power cursor hc := h.expression power cursor (by omega)
  statement cursor hc := h.statement cursor (by omega)
  block cursor hc := h.block cursor (by omega)
  conditional cursor hc := h.conditional cursor (by omega)

/-- The current token, if it can be read at all, is one that something can start with. -/
theorem Knowledge.startOf (hcursor : k.Holds cursor) (husable : cursor.current.kind.Usable) :
    StartOf tokens cursor.position :=
  ⟨cursor.current, (k.among cursor hcursor).current, husable, rfl⟩

namespace Grammar

variable {sub : Subparsers} {bound : Nat} {start : Cursor}

theorem primitiveType_yields (hkind : cursor.current.kind.Usable) :
    Yields k cursor primitiveType (Derives k .type cursor) := by
  refine .bind (.advance rfl hkind) fun token later _ htoken => ?_
  split
  · next hkind => exact .pure (.primitive .int (htoken.of_kind hkind))
  · next hkind => exact .pure (.primitive .string (htoken.of_kind hkind))
  · next hkind => exact .pure (.primitive .bool (htoken.of_kind hkind))
  · exact .throw (.read htoken.startOf rfl)

/-- Behind the opening bracket, what is found there makes a size together with the closing one.  The token behind the
opening bracket tells whether it is a number. -/
theorem bracketSize_yields {opening : Token} (hopen : Takes k .openBracket start opening cursor) :
    Yields k cursor bracketSize fun form later =>
      (cursor.current.kind = .closeBracket ∨ cursor.current.kind = .ellipsis → form = .slice ∨ form = .counted) ∧
        ∀ closing last, Takes k .closeBracket later closing last → Derives k .size start form last := by
  refine .bind_currentKind ?_
  split
  · exact .pure ⟨fun _ => .inl rfl, fun _ _ hclose => .slice hopen hclose⟩
  · next hkind =>
    refine .bind (.advance hkind (by decide)) fun _ later _ hdots => ?_
    exact .pure ⟨fun _ => .inr rfl, fun _ _ hclose => .counted hopen hdots hclose⟩
  · next hkind =>
    refine .bind (.advance hkind (by decide)) fun number later _ hnumber => ?_
    split
    · next size hsize =>
      exact .pure ⟨fun hunsized => by simp [hkind] at hunsized, fun _ _ hclose => .sized hopen hnumber hsize hclose⟩
    · exact .throw (.read hnumber.startOf rfl)
  · exact .reject _

theorem sizeBrackets_yields : Yields k cursor sizeBrackets fun form later =>
    later.rest.length < cursor.rest.length ∧ Derives k .size cursor form later ∧
      (cursor.next.kind = .closeBracket ∨ cursor.next.kind = .ellipsis → form = .slice ∨ form = .counted) := by
  refine .bind (.take (by decide)) fun opening c₁ _ hopen => ?_
  refine .bind (bracketSize_yields hopen) fun form c₂ hc₂ hform => ?_
  refine .bind (.take (by decide)) fun closing c₃ _ hclose => .pure ⟨?_, hform.2 closing c₃ hclose, ?_⟩
  · have := hopen.length_lt
    have := hclose.length_lt
    omega
  · have hnext : c₁.current = cursor.next := by
      rw [hopen.later_eq]
      rfl
    exact hnext ▸ hform.1

theorem typeAt_yields (h : sub.Yield k cursor.rest.length) :
    Yields k cursor (typeAt standard sub) (Derives k .type cursor) := by
  refine .bind_current ?_
  split
  · next hentry => exact absurd rfl (standard_type_kind hentry).2
  · next hentry => exact primitiveType_yields (standard_type_kind hentry).1
  · refine .bind sizeBrackets_yields fun form c₁ _ hform => ?_
    exact .bind (h.type c₁ hform.1) fun element c₂ _ helement => .pure (.array hform.2.1 helement)
  · refine .ite (fun hkind => ?_) fun _ => .reject _
    exact .given fun hcursor => .throw (.read (Knowledge.startOf hcursor (hkind ▸ by decide)) rfl)

/-! ### Operands -/

theorem atom_yields (hkind : cursor.current.kind.Usable) : Yields k cursor atom (Derives k .expression cursor) := by
  refine .bind (.advance rfl hkind) fun token later _ htoken => ?_
  have leaf : ∀ {node : Node}, Atom token node → Derives k .expression cursor node later :=
    fun hatom => .atom hatom (htoken.of_kind rfl)
  split
  · next hkind =>
    split
    · next value hvalue => exact .pure (leaf (.integer hkind hvalue))
    · exact .throw (.read htoken.startOf rfl)
  · next hkind => exact .pure (leaf (.identifier hkind))
  · next hkind => exact .pure (leaf (.string hkind))
  · next hkind => exact .pure (leaf (.trueWord hkind))
  · next hkind => exact .pure (leaf (.falseWord hkind))
  · exact .throw (.read htoken.startOf rfl)

theorem unaryOperation_yields (h : sub.Yield k cursor.rest.length)
    (hkind : cursor.current.kind = .dash ∨ cursor.current.kind = .not) :
    Yields k cursor (unaryOperation sub) (Derives k .expression cursor) := by
  refine .bind (.advance rfl (TokenKind.plain_of_unary hkind).1) fun operator c₁ _ hoperator => ?_
  refine .bind (h.expression .unary c₁ hoperator.length_lt) fun operand c₂ _ hoperand => ?_
  exact .pure (.unary hkind hoperator hoperand)

theorem parenthesized_yields (h : sub.Yield k cursor.rest.length) (hkind : cursor.current.kind = .openParen) :
    Yields k cursor (parenthesized sub) (Derives k .expression cursor) := by
  refine .bind (.advance hkind (by decide)) fun opening c₁ _ hopen => ?_
  refine .bind (h.expression .lowest c₁ hopen.length_lt) fun node c₂ _ hnode => ?_
  exact .bind (.take (by decide)) fun closing c₃ _ hclose => .pure (.parenthesized hopen hnode hclose)

theorem listItem_yields (h : sub.Yield k bound) (hcursor : cursor.rest.length < bound) (close : TokenKind)
    (trailingComma : Bool) :
    Yields k cursor (listItem sub close trailingComma) (Item.Extends (Derives k .elements) cursor) := by
  refine .bind_currentKind (.ite (fun _ => .pure .noElements) fun _ => ?_)
  refine .bind (h.expression .lowest cursor hcursor) fun node c₁ hc₁ hnode => ?_
  refine .bind_currentKind (.ite (fun _ => .pure (.lastElement hnode)) fun hkind => ?_)
  refine .bind (.advance (Decidable.not_not.1 hkind) (by decide)) fun comma c₂ _ hcomma => ?_
  refine .bind_currentKind (.ite (fun _ => .reject _) fun _ => .pure ⟨?_, fun nodes last hnodes => ?_⟩)
  · exact Nat.lt_of_lt_of_le hcomma.length_lt hc₁
  · exact .nextElement hnode hcomma hnodes

theorem commaList_yields (h : sub.Yield k bound) (hcursor : cursor.rest.length < bound) {close : TokenKind}
    (hclose : close.Usable) (trailingComma : Bool) :
    Yields k cursor (commaList sub close trailingComma) fun nodes later =>
      ∃ middle closing, Derives k .elements cursor nodes middle ∧ Takes k close middle closing later := by
  have items := Yields.gather fun later (hlater : later.rest.length ≤ cursor.rest.length) =>
    listItem_yields h (by omega) close trailingComma
  refine .bind items fun nodes c₁ _ hnodes => ?_
  exact .bind (.take hclose) fun closing c₂ _ hclosing => .pure ⟨c₁, closing, hnodes, hclosing⟩

/-! ### Array literals -/

/-- The errors of an array literal are about itself or about one of its elements. -/
theorem complaint_of_array {position : Position} {nodes : List Node} {error : Error}
    (hposition : StartOf tokens position) (hnodes : ∀ node ∈ nodes, node.Anchored tokens)
    (h : (∃ message, error = ⟨.badArrayLiteral message, position⟩) ∨
      ∃ node ∈ nodes, ∃ expected received, error = ⟨.typeMismatch expected received, node.span.start⟩) :
    Complaint tokens error := by
  rcases h with ⟨message, rfl⟩ | ⟨node, hnode, expected, received, rfl⟩
  · exact .read hposition rfl
  · exact .read (hnodes node hnode node (.self node)) rfl

theorem bracedElements_yields (h : sub.Yield k bound) (hcursor : cursor.rest.length < bound) :
    Yields k cursor (bracedElements sub) (Derives k (.option .braced) cursor) := by
  refine .bind_currentKind (.ite (fun hkind => ?_) fun _ => .pure .absent)
  refine .bind (.advance hkind (by decide)) fun opening c₁ hc₁ hopen => ?_
  refine .bind (commaList_yields h (by omega) (by decide) true) fun nodes c₂ _ hlist => ?_
  obtain ⟨middle, closing, hnodes, hclose⟩ := hlist
  exact .pure (.present (.braced hopen hnodes hclose))

theorem arrayWithElements_yields (h : sub.Yield k bound) (hcursor : cursor.rest.length < bound)
    (hstart : StartOf tokens start.position) {form : ArrayForm} {element : GoType}
    (hhead : Derives k .arrayHead start (form, element) cursor) :
    Yields k cursor (arrayWithElements sub start.position form element) (Derives k .expression start) := by
  refine .bind (bracedElements_yields h hcursor) fun elements c₁ _ helements => .bind_spanSince ?_
  refine .check (fun node hnode => .arrayLiteral hhead helements hstart hnode) fun error herror => ?_
  have hfault := arrayNode_eq_error herror
  refine complaint_of_array hstart (fun node hnode => ?_) hfault
  cases elements with
  | none => cases hnode
  | some nodes => exact helements.anchored nodes rfl node hnode

theorem isSizeOfType_yields (node : Node) :
    Yields k cursor (isSizeOfType standard node) fun _ later => later = cursor := by
  unfold isSizeOfType
  split
  · exact .bind_currentKind (.pure rfl)
  · exact .pure rfl

theorem complaint_of_listNode {opening : Token} {nodes : List Node} {c₁ c₂ : Cursor}
    (hopen : Takes k .openBracket start opening c₁) (hnodes : Derives k .elements c₁ nodes c₂) {error : Error}
    (h : listNode nodes (cursor.spanSince start.position) = .error error) : Complaint tokens error := by
  have hfault := listNode_eq_error h
  exact complaint_of_array (hopen.position_eq ▸ hopen.startOf) hnodes.anchored hfault

theorem listNode_yields {opening closing : Token} {nodes : List Node} {c₁ c₂ : Cursor}
    (hopen : Takes k .openBracket start opening c₁) (hnodes : Derives k .elements c₁ nodes c₂)
    (hclose : Takes k .closeBracket c₂ closing cursor) :
    Yields k cursor (check (listNode nodes (cursor.spanSince start.position))) (Derives k .expression start) :=
  .check (fun _ hnode => .list hopen hnodes hclose hnode) fun _ => complaint_of_listNode hopen hnodes

/-- What was read as a list is a size if the element type follows, and else it is what the index goes into. -/
theorem numberThenBracket_yields (h : sub.Yield k bound) (hcursor : cursor.rest.length < bound)
    (hkind : cursor.current.kind = .openBracket) {opening closing : Token} {nodes : List Node} {c₁ c₂ : Cursor}
    (hopen : Takes k .openBracket start opening c₁) (hnodes : Derives k .elements c₁ nodes c₂)
    (hclose : Takes k .closeBracket c₂ closing cursor) {size : Nat} (hsize : writtenSize? nodes = some size) :
    Yields k cursor (numberThenBracket standard sub start.position size nodes) (Derives k .expression start) := by
  have hstart : StartOf tokens start.position := hopen.position_eq ▸ hopen.startOf
  refine .bind_nextKind (.ite (fun _ => ?_) fun _ => .bind_spanSince ?_)
  · refine .bind (h.type cursor hcursor) fun element c₃ hc₃ helement => ?_
    exact arrayWithElements_yields h (by omega) hstart (.sizedHead hopen hnodes hclose hsize helement)
  · refine .bind (.advance hkind (by decide)) fun opening' c₃ hc₃ hopen' => ?_
    refine .bind (h.expression .lowest c₃ (by omega)) fun position c₄ hc₄ hposition => ?_
    refine .bind (.take (by decide)) fun closing' c₅ hc₅ hclose' => ?_
    refine .bind (isSizeOfType_yields position) fun isSize c₆ _ hc₆ => ?_
    subst hc₆
    refine .ite (fun _ => ?_) fun _ => ?_
    · refine .bind (h.type c₆ (by omega)) fun element c₇ hc₇ helement => ?_
      exact arrayWithElements_yields h (by omega) hstart
        (.nestedHead hopen hnodes hclose hsize hopen' hposition hclose' helement)
    · refine .bind_check (fun list hlist => .bind_spanSince (.pure ?_)) fun _ => complaint_of_listNode hopen hnodes
      obtain ⟨first, rest, -, harray⟩ := listNode_eq_ok hlist
      have hspan : list.span.start = start.position := by
        rw [(arrayNode_eq_ok harray).1]
        rfl
      exact hspan ▸ .index (.list hopen hnodes hclose hlist) hopen' hposition hclose'

theorem arrayLiteral_yields (h : sub.Yield k cursor.rest.length) (hkind : cursor.current.kind = .openBracket) :
    Yields k cursor (arrayLiteral standard sub) (Derives k .expression cursor) := by
  refine .given fun hcursor => .bind_position (.bind_nextKind (.ite (fun hnext => ?_) fun _ => ?_))
  · have hstart : StartOf tokens cursor.position := Knowledge.startOf hcursor (hkind ▸ by decide)
    refine .bind sizeBrackets_yields fun form c₁ _ hform => .bind_startsType ?_
    refine .ite (fun _ => .throw (.read hstart rfl)) fun _ => ?_
    refine .bind (h.type c₁ hform.1) fun element c₂ hc₂ helement => ?_
    exact arrayWithElements_yields h (Nat.lt_of_le_of_lt hc₂ hform.1) hstart
      (.unsizedHead hform.2.1 (hform.2.2 hnext) helement)
  · refine .bind (.advance hkind (by decide)) fun opening c₁ _ hopen => ?_
    have hc₁ := hopen.length_lt
    refine .bind (commaList_yields h hc₁ (by decide) false) fun nodes c₂ hc₂ hlist => ?_
    obtain ⟨middle, closing, hnodes, hclose⟩ := hlist
    split
    · next size hsize =>
      refine .bind_currentKind (.ite (fun hkind' => ?_) fun _ => .bind_startsType (.ite (fun _ => ?_) fun _ => ?_))
      · exact numberThenBracket_yields h (by omega) hkind' hopen hnodes hclose hsize
      · refine .bind (h.type c₂ (by omega)) fun element c₃ hc₃ helement => ?_
        exact arrayWithElements_yields h (by omega) (hopen.position_eq ▸ hopen.startOf)
          (.sizedHead hopen hnodes hclose hsize helement)
      · exact .bind_spanSince (listNode_yields hopen hnodes hclose)
    · exact .bind_spanSince (listNode_yields hopen hnodes hclose)

/-! ### What continues an operand -/

/-- A token has been read, and an expression from `start` on has been found. -/
def Continued (k : Knowledge tokens) (start cursor : Cursor) (node : Node) (later : Cursor) : Prop :=
  later.rest.length < cursor.rest.length ∧ Derives k .expression start node later

theorem binaryOperation_yields (h : sub.Yield k cursor.rest.length) {left : Node}
    (hleft : Derives k .expression start left cursor) (hkind : (Precedence.binary? cursor.current.kind).isSome)
    (power : Precedence) : Yields k cursor (binaryOperation sub left power) (Continued k start cursor) := by
  refine .bind (.advance rfl (TokenKind.plain_of_binary? hkind).1) fun operator c₁ _ hoperator => ?_
  refine .bind (h.expression power c₁ hoperator.length_lt) fun right c₂ hc₂ hright => .pure ⟨?_, ?_⟩
  · exact Nat.lt_of_le_of_lt hc₂ hoperator.length_lt
  · exact .binary hleft hkind hoperator hright

theorem callOf_yields (h : sub.Yield k cursor.rest.length) {left : Node}
    (hleft : Derives k .expression start left cursor) (hkind : cursor.current.kind = .openParen) :
    Yields k cursor (callOf sub left) (Continued k start cursor) := by
  have hanchored : left.Anchored tokens := hleft.anchored
  cases left with
  | identifier callee span =>
    refine .bind (.advance hkind (by decide)) fun opening c₁ _ hopen => ?_
    refine .bind (commaList_yields h hopen.length_lt (by decide) false) fun arguments c₂ hc₂ hlist => ?_
    obtain ⟨middle, closing, harguments, hclose⟩ := hlist
    refine .bind_spanSince (.pure ⟨?_, .call hleft hopen harguments hclose⟩)
    exact Nat.lt_of_le_of_lt hc₂ hopen.length_lt
  | _ => exact .throw (.read (hanchored _ (.self _)) rfl)

theorem indexInto_yields (h : sub.Yield k cursor.rest.length) {left : Node}
    (hleft : Derives k .expression start left cursor) (hkind : cursor.current.kind = .openBracket) :
    Yields k cursor (indexInto sub left) (Continued k start cursor) := by
  refine .bind (.advance hkind (by decide)) fun opening c₁ _ hopen => ?_
  have hc₁ := hopen.length_lt
  refine .bind (h.expression .lowest c₁ hc₁) fun position c₂ hc₂ hposition => ?_
  refine .bind (.take (by decide)) fun closing c₃ hc₃ hclose => .bind_spanSince (.pure ⟨by omega, ?_⟩)
  exact .index hleft hopen hposition hclose

/-- The tokens that the rules for what continues an operand start with. -/
theorem standard_continuation_token {kind : TokenKind} {power : Precedence} {rule : Continuation}
    (h : standard.continuation kind = some (power, rule)) : match rule with
      | .binary => (Precedence.binary? kind).isSome
      | .call => kind = .openParen
      | .index => kind = .openBracket := by
  cases kind <;> cases h <;> rfl

theorem continueRound_yields (h : sub.Yield k cursor.rest.length) (power : Precedence) {left : Node}
    (hleft : Derives k .expression start left cursor) :
    Yields k cursor (continueRound standard sub power left)
      (Round.Keeps cursor (Derives k .expression start) (Derives k .expression start)) := by
  refine .bind_currentKind ?_
  split
  · next nextPower rule hentry =>
    have step : Yields k cursor (continueWith sub rule left nextPower) (Continued k start cursor) := by
      cases rule with
      | binary => exact binaryOperation_yields h hleft (standard_continuation_token hentry) nextPower
      | call => exact callOf_yields h hleft (standard_continuation_token hentry)
      | index => exact indexInto_yields h hleft (standard_continuation_token hentry)
    exact .ite (fun _ => .bind step fun node _ _ hnode => .pure hnode) fun _ => .pure hleft
  · exact .pure hleft

/-! ### Declarations -/

theorem complaint_of_declarationOf {name : Token} (hname : StartOf tokens name.span.start) {constant : Bool}
    {explicit : Option GoType} {written : Option Node} {span : Span} {error : Error}
    (h : declarationOf name constant explicit written span = .error error) : Complaint tokens error := by
  rcases declarationOf_eq_error h with ⟨message, rfl⟩ | rfl
  · exact .read hname rfl
  · exact .read hname rfl

theorem writtenType_yields (h : sub.Yield k bound) (hcursor : cursor.rest.length < bound) :
    Yields k cursor (writtenType standard sub) (Derives k (.option .type) cursor) := by
  refine .bind_startsType (.bind_currentKind (.ite (fun _ => ?_) fun _ => .pure .absent))
  exact .bind (h.type cursor hcursor) fun type _ _ htype => .pure (.present htype)

theorem writtenValue_yields (h : sub.Yield k bound) (hcursor : cursor.rest.length < bound) :
    Yields k cursor (writtenValue sub) (Derives k (.option .initial) cursor) := by
  refine .bind_currentKind (.ite (fun hkind => ?_) fun _ => .pure .absent)
  refine .bind (.advance hkind (by decide)) fun sign c₁ hc₁ hsign => ?_
  exact .bind (h.expression .lowest c₁ (by omega)) fun value _ _ hvalue => .pure (.present (.initial hsign hvalue))

/-- A declaration in a group starts with its name, so the position has to be good only where there is a name. -/
theorem declared_yields (h : sub.Yield k bound) (hcursor : cursor.rest.length ≤ bound) (constant : Bool)
    {position : Position} (hposition : cursor.current.kind = .identifier → StartOf tokens position) :
    Yields k cursor (declared standard sub constant position) fun declaration later =>
      later.rest.length < cursor.rest.length ∧ Derives k (.declared constant position) cursor declaration later := by
  refine .bind_current (.bind (.takeOr (by decide) (.misplaced (by decide))) fun name c₁ _ hname => ?_)
  have hc₁ := hname.length_lt
  have hstart : StartOf tokens position := hposition (hname.token_eq ▸ hname.kind_eq)
  refine .bind (writtenType_yields h (by omega)) fun explicit c₂ hc₂ hexplicit => ?_
  refine .bind (writtenValue_yields h (by omega)) fun written c₃ hc₃ hwritten => .bind_spanSince ?_
  refine .check (fun declaration hdeclaration => ⟨by omega, ?_⟩) fun error => complaint_of_declarationOf hname.startOf
  exact .declared hname hexplicit hwritten hstart hdeclaration

theorem groupItem_yields (h : sub.Yield k bound) (hcursor : cursor.rest.length ≤ bound) (constant : Bool) :
    Yields k cursor (groupItem standard sub constant) (Item.Extends (Derives k (.members constant)) cursor) := by
  refine .bind_dropSemicolons fun hlength hknown => .bind_currentKind ?_
  refine .ite (fun _ => .pure (.noMembers hknown)) fun _ => ?_
  refine .given fun hknown' => .bind_position (.bind (declared_yields h (by omega) constant fun hkind => ?_) ?_)
  · exact Knowledge.startOf hknown' (hkind ▸ by decide)
  · intro member c₁ _ hmember
    exact .pure ⟨by omega, fun members last hmembers => .nextMember hknown hmember.2 hmembers⟩

theorem declarationStatement_yields (h : sub.Yield k cursor.rest.length)
    (hkind : cursor.current.kind = .varWord ∨ cursor.current.kind = .constWord) :
    Yields k cursor (declarationStatement standard sub) (Derives k .statement cursor) := by
  refine .bind (.advance rfl (TokenKind.plain_of_declaration hkind).1) fun keyword c₁ _ hkeyword => ?_
  have hc₁ := hkeyword.length_lt
  rw [hkeyword.kind_eq]
  refine .bind_currentKind (.ite (fun _ => ?_) fun hopen => ?_)
  · refine .bind (declared_yields h (Nat.le_of_lt hc₁) _ fun _ => hkeyword.startOf) fun member _ _ hmember => ?_
    exact .pure (.declaration hkind hkeyword hmember.2)
  · refine .bind (.advance (Decidable.not_not.1 hopen) (by decide)) fun opening c₂ hc₂ hopen => ?_
    refine .bind (.gather fun later hlater => groupItem_yields h (by omega) _) fun members c₃ _ hmembers => ?_
    refine .bind (.take (by decide)) fun closing c₄ _ hclose => .bind_spanSince (.pure ?_)
    exact .group hkind hkeyword hopen hmembers hclose

theorem shortDeclaration_yields (h : sub.Yield k cursor.rest.length) (hkind : cursor.current.kind = .identifier) :
    Yields k cursor (shortDeclaration sub) (Derives k .statement cursor) := by
  refine .bind (.advance hkind (by decide)) fun name c₁ _ hname => ?_
  have hc₁ := hname.length_lt
  refine .bind (.take (by decide)) fun sign c₂ hc₂ hsign => ?_
  refine .bind (h.expression .lowest c₂ (by omega)) fun value c₃ _ hvalue => .bind_spanSince ?_
  refine .bind_check (fun declaration hdeclaration => ?_) fun error => complaint_of_declarationOf hname.startOf
  exact .pure (.shortDeclaration hname hsign hvalue hdeclaration)

/-! ### Other simple statements -/

theorem assignment_yields (h : sub.Yield k cursor.rest.length) (hkind : cursor.current.kind = .identifier) :
    Yields k cursor (assignment sub) (Derives k .statement cursor) := by
  refine .bind (.advance hkind (by decide)) fun name c₁ _ hname => ?_
  have hc₁ := hname.length_lt
  refine .bind (.take (by decide)) fun sign c₂ hc₂ hsign => ?_
  refine .bind (h.expression .lowest c₂ (by omega)) fun value c₃ _ hvalue => .bind_spanSince ?_
  exact .pure (.assignment hname hsign hvalue)

theorem returnedValue_yields (h : sub.Yield k bound) (hcursor : cursor.rest.length < bound) :
    Yields k cursor (returnedValue sub) (Derives k (.option .expression) cursor) := by
  refine .bind_currentKind ?_
  split
  case h_4 => exact .bind (h.expression .lowest cursor hcursor) fun node _ _ hnode => .pure (.present hnode)
  all_goals exact .pure .absent

theorem returnStatement_yields (h : sub.Yield k cursor.rest.length) (hkind : cursor.current.kind = .returnWord) :
    Yields k cursor (returnStatement sub) (Derives k .statement cursor) := by
  refine .bind (.advance hkind (by decide)) fun keyword c₁ _ hkeyword => ?_
  refine .bind (returnedValue_yields h hkeyword.length_lt) fun value c₂ _ hvalue => .bind_spanSince ?_
  exact .pure (.returning hkeyword hvalue)

/-- A statement may start with an expression right away. -/
theorem expressionStatement_yields (h : Yields k cursor (sub.expression .lowest) (Derives k .expression cursor)) :
    Yields k cursor (expressionStatement sub) (Derives k .statement cursor) :=
  .bind h fun _ _ _ hnode => .pure (.expressionStatement hnode)

/-! ### Blocks -/

theorem blockItem_yields (h : sub.Yield k bound) (hcursor : cursor.rest.length < bound) :
    Yields k cursor (blockItem sub) (Item.Extends (Derives k .statements) cursor) := by
  refine .bind_dropSemicolons fun hlength hknown => .bind_currentKind ?_
  split
  · exact .pure (.noStatements hknown)
  · exact .reject _
  · refine .bind (h.statement _ (by omega)) fun node c₁ _ hnode => ?_
    exact .pure ⟨by omega, fun nodes last hnodes => .nextStatement hknown hnode.2 hnodes⟩

theorem blockAt_yields (h : sub.Yield k cursor.rest.length) :
    Yields k cursor (blockAt sub) (Derives k .block cursor) := by
  refine .bind (.take (by decide)) fun brace c₁ _ hbrace => ?_
  have hc₁ := hbrace.length_lt
  refine .bind (.gather fun later hlater => blockItem_yields h (by omega)) fun body c₂ _ hbody => ?_
  refine .bind (.take (by decide)) fun closing c₃ _ hclose => .bind_spanSince (.pure ?_)
  exact .block hbrace hbody hclose

theorem alternative_yields (h : sub.Yield k bound) (hcursor : cursor.rest.length < bound) {word : Token}
    (hword : Takes k .elseWord start word cursor) :
    Yields k cursor (alternative sub) (Derives k .alternative start) := by
  refine .bind_currentKind (.ite (fun hkind => .bind_position ?_) fun _ => ?_)
  · refine .bind (h.conditional cursor hcursor hkind) fun inner c₁ _ hinner => .bind_spanSince (.pure ?_)
    exact .elseIf hword hinner
  · exact (h.block cursor hcursor).mono fun block later _ hblock => .elseBlock hword hblock

theorem otherwise_yields (h : sub.Yield k bound) (hcursor : cursor.rest.length < bound) :
    Yields k cursor (otherwise sub) (Derives k (.option .alternative) cursor) := by
  refine .bind_currentKind (.ite (fun hkind => ?_) fun _ => .pure .absent)
  refine .bind (.advance hkind (by decide)) fun word c₁ hc₁ hword => ?_
  exact .bind (alternative_yields h (by omega) hword) fun block _ _ hblock => .pure (.present hblock)

theorem conditionalStatement_yields (h : sub.Yield k cursor.rest.length) (hkind : cursor.current.kind = .ifWord) :
    Yields k cursor (conditionalStatement sub) (Derives k .statement cursor) := by
  refine .bind (.advance hkind (by decide)) fun keyword c₁ _ hkeyword => ?_
  have hc₁ := hkeyword.length_lt
  refine .bind (h.expression .lowest c₁ hc₁) fun condition c₂ hc₂ hcondition => ?_
  refine .bind (h.block c₂ (by omega)) fun consequence c₃ hc₃ hconsequence => ?_
  refine .bind (otherwise_yields h (by omega)) fun alternative c₄ _ halternative => .bind_spanSince (.pure ?_)
  exact .conditional hkeyword hcondition hconsequence halternative

/-! ### Functions -/

/-- All parameters from `start` on have been found, unless a name still waits for a type. -/
def Found (k : Knowledge tokens) (start : Cursor) (state : List Token × List Parameter) (later : Cursor) : Prop :=
  (∀ name ∈ state.1, StartOf tokens name.span.start) ∧
    (state.1 = [] → Derives k .parameters start state.2 later)

theorem complaint_of_requireTyped {pending : List Token} (hpending : ∀ name ∈ pending, StartOf tokens name.span.start)
    {error : Error} (h : requireTyped pending = .error error) : Complaint tokens error := by
  obtain ⟨name, hname, rfl⟩ := requireTyped_eq_error h
  exact .read (hpending name hname) rfl

theorem found_of_waiting {state : List Token × List Parameter} (h : Derives k .waiting start state cursor) :
    Found k start state cursor := by
  obtain ⟨pending, parameters⟩ := state
  refine ⟨h.anchored, ?_⟩
  rintro rfl
  exact .parameters h

theorem dropComma_yields {parameters : List Parameter} (h : Derives k .parameters start parameters cursor) :
    Yields k cursor dropComma fun _ later => Derives k .parameters start parameters later := by
  refine .bind_currentKind (.ite (fun hkind => ?_) fun _ => .pure h)
  exact .bind (.advance hkind (by decide)) fun _ _ _ hcomma => .pure (.lastComma h hcomma)

theorem variadicParameter_yields (h : sub.Yield k bound) (hcursor : cursor.rest.length < bound)
    (hkind : cursor.current.kind = .ellipsis) {pending : List Token} {parameters : List Parameter} {c₁ : Cursor}
    (hstate : Derives k .waiting start (pending, parameters) c₁) {name : Token}
    (hname : Takes k .identifier c₁ name cursor) :
    Yields k cursor (variadicParameter sub name pending parameters) (Derives k .parameters start) := by
  refine .bind_check (fun _ htyped => ?_) fun error => complaint_of_requireTyped hstate.anchored
  cases requireTyped_eq_ok htyped
  refine .bind (.advance hkind (by decide)) fun dots c₂ hc₂ hdots => ?_
  refine .bind (h.type c₂ (by omega)) fun element c₃ _ helement => .bind_spanSince ?_
  refine .bind (dropComma_yields (.variadic hstate hname hdots helement)) fun _ c₄ _ hparameters => ?_
  exact .bind_currentKind (.ite (fun _ => .reject _) fun _ => .pure hparameters)

theorem plainParameter_yields (h : sub.Yield k bound) (hcursor : cursor.rest.length < bound) {pending : List Token}
    {parameters : List Parameter} {c₁ : Cursor} (hstate : Derives k .waiting start (pending, parameters) c₁)
    {name : Token} (hname : Takes k .identifier c₁ name cursor) :
    Yields k cursor (plainParameter sub name pending parameters) (Derives k .waiting start) := by
  refine .bind_currentKind (.ite (fun _ => .pure (.untypedName hstate hname)) fun _ => ?_)
  refine .bind (h.type cursor hcursor) fun type c₂ _ htype => .bind_spanSince (.pure ?_)
  exact .typedNames hstate hname htype

theorem parameterRound_yields (h : sub.Yield k bound) (hcursor : cursor.rest.length ≤ bound)
    {state : List Token × List Parameter} (hstate : Derives k .waiting start state cursor) :
    Yields k cursor (parameterRound sub state) (Round.Keeps cursor (Derives k .waiting start) (Found k start)) := by
  obtain ⟨pending, parameters⟩ := state
  refine .bind_current (.ite (fun _ => .pure (found_of_waiting hstate)) fun _ => ?_)
  refine .bind (.takeOr (by decide) fun hamong => .misplaced (by decide) hamong) fun name c₁ _ hname => ?_
  have hc₁ := hname.length_lt
  refine .bind_currentKind (.ite (fun hkind => ?_) fun _ => ?_)
  · refine .bind (variadicParameter_yields h (by omega) hkind hstate hname) fun parameters c₂ _ hparameters => ?_
    exact .pure ⟨nofun, fun _ => hparameters⟩
  · refine .bind (plainParameter_yields h (by omega) hstate hname) fun state c₂ hc₂ hstate => ?_
    refine .bind_currentKind (.ite (fun _ => .pure (found_of_waiting hstate)) fun hcomma => ?_)
    refine .bind (.advance (Decidable.not_not.1 hcomma) (by decide)) fun comma c₃ hc₃ hcomma => .pure ⟨by omega, ?_⟩
    exact .nextName hstate hcomma

theorem parameterList_yields (h : sub.Yield k bound) (hcursor : cursor.rest.length ≤ bound) :
    Yields k cursor (parameterList sub) (Derives k .parameters cursor) := by
  have rounds : Yields k cursor (loop (parameterRound sub) ([], [])) (Found k cursor) := by
    refine .loop (Derives k .waiting cursor) .noNames fun state later hlater hstate => ?_
    exact parameterRound_yields h (by omega) hstate
  refine .bind rounds fun state c₁ _ hstate => ?_
  refine .bind_check (fun _ htyped => ?_) fun error => complaint_of_requireTyped hstate.1
  exact .pure (hstate.2 (requireTyped_eq_ok htyped))

theorem functionName_yields : Yields k cursor functionName (Derives k (.option .name) cursor) := by
  refine .bind_currentKind (.ite (fun hkind => ?_) fun _ => .pure .absent)
  exact .bind (.advance hkind (by decide)) fun token _ _ htoken => .pure (.present (.name htoken))

theorem resultType_yields (h : sub.Yield k bound) (hcursor : cursor.rest.length < bound) :
    Yields k cursor (resultType sub) (Derives k (.option .type) cursor) := by
  refine .bind_currentKind (.ite (fun _ => .pure .absent) fun _ => ?_)
  exact .bind (h.type cursor hcursor) fun type _ _ htype => .pure (.present htype)

theorem functionAt_yields (h : sub.Yield k cursor.rest.length) :
    Yields k cursor (functionAt sub) (Derives k .function cursor) := by
  refine .bind (.take (by decide)) fun keyword c₁ _ hkeyword => ?_
  have hc₁ := hkeyword.length_lt
  refine .bind functionName_yields fun name c₂ hc₂ hname => ?_
  refine .bind (.take (by decide)) fun opening c₃ hc₃ hopen => ?_
  refine .bind (parameterList_yields h (by omega)) fun parameters c₄ hc₄ hparameters => ?_
  refine .bind (.take (by decide)) fun closing c₅ hc₅ hclose => ?_
  refine .bind (resultType_yields h (by omega)) fun returns c₆ hc₆ hreturns => ?_
  refine .bind (h.block c₆ (by omega)) fun body c₇ _ hbody => .bind_spanSince (.pure ?_)
  exact .function hkeyword hname hopen hparameters hclose hreturns hbody

/-! ### One level of nesting, and all levels -/

/-- The tokens that the rules for operands start with. -/
theorem standard_operand_token {kind : TokenKind} {rule : Rule} (h : standard.operand kind = some rule) :
    match rule with
      | .unary => kind = .dash ∨ kind = .not
      | .grouping => kind = .openParen
      | .array => kind = .openBracket
      | _ => True := by
  cases kind <;> cases h <;> simp

/-- The tokens that the rules for statements start with. -/
theorem standard_statement_token {kind : TokenKind} {rule : Rule} (h : standard.statement kind = some rule) :
    match rule with
      | .declaration => kind = .varWord ∨ kind = .constWord
      | .conditional => kind = .ifWord
      | .returning => kind = .returnWord
      | _ => True := by
  cases kind <;> cases h <;> simp

theorem operand_yields (h : sub.Yield k cursor.rest.length) {rule : Rule}
    (hrule : standard.operand cursor.current.kind = some rule) :
    Yields k cursor (ruleAt standard sub rule) (Derives k .expression cursor) := by
  obtain ⟨husable, hcases⟩ := standard_operand_kind hrule
  rcases hcases with rfl | rfl | rfl | rfl | rfl
  · exact atom_yields husable
  · exact unaryOperation_yields h (standard_operand_token hrule)
  · exact parenthesized_yields h (standard_operand_token hrule)
  · exact arrayLiteral_yields h (standard_operand_token hrule)
  · exact .bind (functionAt_yields h) fun function _ _ hfunction => .pure (.functionLiteral hfunction)

theorem expressionAt_yields (h : sub.Yield k cursor.rest.length) (power : Precedence) :
    Yields k cursor (expressionAt standard sub power) (Derives k .expression cursor) := by
  refine .bind_currentKind ?_
  split
  · exact .reject _
  · next rule hrule =>
    refine .bind (operand_yields h hrule) fun operand c₁ hc₁ hoperand => ?_
    refine .loop (Derives k .expression cursor) hoperand fun left later hlater hleft => ?_
    exact continueRound_yields (h.mono (by omega)) power hleft

theorem nameStatement_yields (h : sub.Yield k cursor.rest.length) (hkind : cursor.current.kind = .identifier)
    (hexpression : Yields k cursor (sub.expression .lowest) (Derives k .expression cursor)) :
    Yields k cursor (nameStatement sub) (Derives k .statement cursor) := by
  refine .bind_nextKind ?_
  split
  · exact shortDeclaration_yields h hkind
  · exact assignment_yields h hkind
  · exact expressionStatement_yields hexpression

theorem plainStatement_yields (h : sub.Yield k cursor.rest.length)
    (hexpression : Yields k cursor (sub.expression .lowest) (Derives k .expression cursor)) :
    Yields k cursor (plainStatement standard sub) (Derives k .statement cursor) := by
  refine .bind_currentKind ?_
  split
  · next rule hrule =>
    obtain ⟨-, hcases⟩ := standard_statement_kind hrule
    rcases hcases with rfl | rfl | rfl | rfl
    · exact declarationStatement_yields h (standard_statement_token hrule)
    · exact conditionalStatement_yields h (standard_statement_token hrule)
    · exact .bind (functionAt_yields h) fun function _ _ hfunction => .pure (.functionDeclaration hfunction)
    · exact returnStatement_yields h (standard_statement_token hrule)
  · exact .ite (fun hkind => nameStatement_yields h hkind hexpression) fun _ =>
      expressionStatement_yields hexpression

theorem statementAt_yields (h : sub.Yield k cursor.rest.length)
    (hexpression : Yields k cursor (sub.expression .lowest) (Derives k .expression cursor)) :
    Yields k cursor (statementAt standard sub) (Derives k .statement cursor) := by
  refine .bind (plainStatement_yields h hexpression) fun statement c₁ _ hstatement => ?_
  exact .bind_dropSemicolons fun _ hknown => .pure (.terminated hstatement hknown)

/-- **The parses of the language have derivations or complain about a token.**  The induction is on the tokens that are
left; a statement may start with an expression at the same token. -/
theorem nested_yield (k : Knowledge tokens) (n : Nat) : nested.Yield k n := by
  induction n with
  | zero => constructor <;> intros <;> omega
  | succ n ih =>
    have expression : ∀ power (cursor : Cursor), cursor.rest.length < n + 1 →
        Yields k cursor (nested.expression power) (Derives k .expression cursor) := by
      intro power cursor hcursor
      rw [nested_expression]
      exact expressionAt_yields (ih.mono (by omega)) power
    constructor
    case type =>
      intro cursor hcursor
      rw [nested_type]
      exact typeAt_yields (ih.mono (by omega))
    case expression => exact expression
    case statement =>
      intro cursor hcursor
      have hstatement : Yields k cursor nested.statement (Derives k .statement cursor) := by
        rw [nested_statement]
        exact statementAt_yields (ih.mono (by omega)) (expression .lowest cursor hcursor)
      exact hstatement.mono fun node later hok hnode => ⟨(statement_reads hok).length_le, hnode⟩
    case block =>
      intro cursor hcursor
      rw [nested_block]
      exact blockAt_yields (ih.mono (by omega))
    case conditional =>
      intro cursor hcursor hkind
      exact (conditionalStatement_yields (ih.mono (by omega)) hkind).congr (nested_conditional hkind)

/-! ### Programs -/

theorem programItem_yields : Yields k cursor (programItem nested) (Item.Extends (Derives k .statements) cursor) := by
  refine .bind_dropSemicolons fun hlength hknown => .bind_get (.ite (fun _ => ?_) fun _ => .pure (.noStatements hknown))
  have h := nested_yield k (cursor.dropSemicolons.rest.length + 1)
  refine .bind (h.statement _ (Nat.lt_succ_self _)) fun node c₁ _ hnode => ?_
  exact .pure ⟨by omega, fun nodes last hnodes => .nextStatement hknown hnode.2 hnodes⟩

/-- **The statements of a program have a derivation, or the parse complains about a token.** -/
theorem parseProgram_yields (k : Knowledge tokens) (cursor : Cursor) :
    Yields k cursor standard.parseProgram fun program later =>
      Derives k .statements cursor program.body later ∧
        program.span = later.spanSince ⟨0, later.finish.file⟩ := by
  rw [parseProgram_eq]
  refine .bind (.gather fun _ _ => programItem_yields) fun body c₁ _ hbody => ?_
  exact .bind_get (.bind_spanSince (.pure ⟨hbody, rfl⟩))

end Grammar

end GoScript
