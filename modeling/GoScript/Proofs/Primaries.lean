import GoScript.Proofs.Nesting
import GoScript.Proofs.PrintedWords

/-!
# Primaries of the layered grammar

The grammar with one rule for each level of precedence has rules of its own below the levels, too: parentheses, lists,
calls, indexes and arrays.  They are written as a grammar book has them.  A list, for one, is nothing at all, or an
expression and then commas with an expression behind each.  Wherever such a rule asks for an expression inside
brackets, it starts again at the loosest level.

* `Layered.group`, `Layered.list`, `Layered.call`, `Layered.index`, `Layered.array` — the rules
* `group_tracks`, …, `array_tracks` — each of them reads the same from parts that read the same
* `group_eq`, …, `array_eq` — on the parts of the language each of them reads what the parser reads in its place
-/

namespace GoScript.Grammar

open ParseM Outcome

namespace Layered

/-- Any expression between parentheses. -/
def group (sub : Subparsers) : ParseM Node := do
  let _ ← take .openParen
  let inside ← sub.expression .lowest
  let _ ← take .closeParen
  return inside

/-- A comma after the elements read so far and one more element.  Behind the last element a comma may stand only if
`trailing` allows for it. -/
def listRound (sub : Subparsers) (close : TokenKind) (trailing : Bool) (front : List Node) :
    ParseM (Round (List Node) (List Node)) := do
  if (← currentKind) = .comma then
    let _ ← take .comma
    if (← currentKind) = close then
      if trailing then return .done front
      else reject (some "expected an expression after ','")
    else
      let element ← sub.expression .lowest
      return .again (front ++ [element])
  else return .done front

/-- Expressions with commas between them, and the token that closes them. -/
def list (sub : Subparsers) (close : TokenKind) (trailing : Bool) : ParseM (List Node) := do
  if (← currentKind) = close then
    let _ ← take close
    return []
  else
    let first ← sub.expression .lowest
    let elements ← loop (listRound sub close trailing) [first]
    let _ ← take close
    return elements

/-- A call of `left`, which has to be a name. -/
def call (sub : Subparsers) (left : Node) : ParseM Node := do
  match left with
  | .identifier callee span =>
    let _ ← take .openParen
    let arguments ← list sub .closeParen false
    return .call callee arguments (← spanSince span.start)
  | left => throw ⟨.misplacedToken left.source "only named functions can be called", left.span.start⟩

/-- Any expression between brackets, as an index into `left`. -/
def index (sub : Subparsers) (left : Node) : ParseM Node := do
  let _ ← take .openBracket
  let position ← sub.expression .lowest
  let _ ← take .closeBracket
  return .index left position (← spanSince left.span.start)

/-- The tokens that a type starts with. -/
def typeStarts : List TokenKind :=
  [.intType, .stringType, .boolType, .openBracket]

/-- The elements of an array between braces, if they are written. -/
def braced (sub : Subparsers) : ParseM (Option (List Node)) := do
  if (← currentKind) = .openCurly then
    let _ ← take .openCurly
    return some (← list sub .closeCurly true)
  else return none

/-- An element type and the elements of an array. -/
def typed (sub : Subparsers) (start : Position) (form : ArrayForm) (wrap : GoType → GoType) : ParseM Node := do
  let element ← sub.type
  let elements ← braced sub
  check (arrayNode (some (wrap element)) form elements (← spanSince start))

/-- A second pair of brackets after `[size]`.  With nothing or three dots between them, or a number that has a type
behind it, they belong to the type of the elements.  Otherwise they are an index into the list of the one element. -/
def sizedOrIndexed (sub : Subparsers) (start : Position) (size : Nat) (elements : List Node) : ParseM Node := do
  let span ← spanSince start
  let _ ← take .openBracket
  let kind ← currentKind
  if kind = .closeBracket then
    let _ ← take .closeBracket
    typed sub start (.sized size) .array
  else if kind = .ellipsis then
    let _ ← take .ellipsis
    let _ ← take .closeBracket
    typed sub start (.sized size) .array
  else
    let position ← sub.expression .lowest
    let _ ← take .closeBracket
    if position.isInteger ∧ (← currentKind) ∈ typeStarts then typed sub start (.sized size) .array
    else
      let list ← check (listNode elements span)
      return .index list position (← spanSince start)

/-- What follows `[size]`: the type of the elements of an array, a second pair of brackets, or something else. -/
def sized (sub : Subparsers) (start : Position) (size : Nat) (elements : List Node) : ParseM Node := do
  let kind ← currentKind
  if kind = .openBracket then sizedOrIndexed sub start size elements
  else if kind ∈ typeStarts then typed sub start (.sized size) id
  else check (listNode elements (← spanSince start))

/-- An array in any of its spellings: `[]int{1}`, `[...]int{1}`, `[1]int{1}` and `[1]`. -/
def array (sub : Subparsers) : ParseM Node := do
  let start ← position
  let _ ← take .openBracket
  let kind ← currentKind
  if kind = .closeBracket then
    let _ ← take .closeBracket
    if (← currentKind) ∈ typeStarts then typed sub start .slice id else throw ⟨noElementType, start⟩
  else if kind = .ellipsis then
    let _ ← take .ellipsis
    let _ ← take .closeBracket
    typed sub start .counted id
  else
    match ← list sub .closeBracket false with
    | [.integer size place] => sized sub start size.toNat [.integer size place]
    | elements => check (listNode elements (← spanSince start))

end Layered

open Layered

variable {view : View} {bound : Nat} {sub other : Subparsers} {cursor : Cursor}

/-! ### The same parts -/

section Tracks

variable (h : sub.Track view bound other)

include h

theorem group_tracks (hcursor : cursor.rest.length ≤ bound) :
    Tracks view (fun _ => False) cursor 1 (group sub) (group other) := by
  apply Tracks.bind (Tracks.take (by decide))
  intro _ later hlater
  have hlength := hlater.length_le
  refine (Tracks.bind (h.expression .lowest (by decide) later (by omega)).inside ?_).mono (Nat.zero_le 1)
  intro inside last _
  refine (Tracks.bind (Tracks.take (by decide)) ?_).mono (Nat.zero_le 1)
  intro _ final _
  exact Tracks.pure inside

theorem listRound_tracks (hcursor : cursor.rest.length < bound) {close : TokenKind} (hclose : close.Usable)
    (trailing : Bool) (front : List Node) :
    Tracks view (fun _ => False) cursor 0 (listRound sub close trailing front)
      (listRound other close trailing (relocate view.move front)) := by
  apply Tracks.bind_currentKind rfl nofun
  apply Tracks.ite
  · intro _
    refine (Tracks.bind (Tracks.take (by decide)) ?_).mono (Nat.zero_le 1)
    intro _ later hlater
    have hlength := hlater.length_le
    refine .bind_currentKind ?_ nofun ?_
    · rw [if_neg (Ne.symm hclose.2.2), if_neg (Ne.symm hclose.2.1)]
    apply Tracks.ite
    · intro _
      apply Tracks.ite
      · intro _
        exact Tracks.pure _
      · intro _
        exact Tracks.reject (by decide)
    · intro _
      refine (Tracks.bind (h.expression .lowest (by decide) later (by omega)).inside ?_).mono (Nat.zero_le 1)
      intro element last _
      apply Tracks.pure_of_eq
      simp [relocate]
  · intro _
    exact Tracks.pure _

theorem list_tracks (hcursor : cursor.rest.length < bound) {close : TokenKind} (hclose : close.Usable)
    (trailing : Bool) :
    Tracks view (fun _ => False) cursor 1 (list sub close trailing) (list other close trailing) := by
  refine .bind_currentKind ?_ nofun ?_
  · rw [if_neg (Ne.symm hclose.2.2), if_neg (Ne.symm hclose.2.1)]
  apply Tracks.ite
  · intro _
    apply Tracks.bind (Tracks.take hclose)
    intro _ later _
    exact Tracks.pure []
  · intro _
    apply Tracks.bind (h.expression .lowest (by decide) cursor hcursor).inside
    intro first later hlater
    have hlength := hlater.length_le
    apply Tracks.bind
    · apply Tracks.loop [first]
      intro front last hlast
      have hlength' := hlast.length_le
      exact listRound_tracks h (by omega) hclose trailing front
    · intro elements last _
      refine (Tracks.bind (Tracks.take hclose) ?_).mono (Nat.zero_le 1)
      intro _ final _
      exact Tracks.pure elements

theorem call_tracks (hcursor : cursor.rest.length ≤ bound) (left : Node) :
    Tracks view (fun _ => False) cursor 1 (call sub left) (call other (relocate view.move left)) := by
  have refused : ∀ node : Node, Tracks view (fun _ => False) cursor 1 (α := Node)
      (throw ⟨.misplacedToken node.source "only named functions can be called", node.span.start⟩)
      (throw ⟨.misplacedToken (relocate view.move node).source "only named functions can be called",
        (relocate view.move node).span.start⟩) := by
    intro node
    simp only [relocate_node, Node.source_relocate, Node.span_relocate]
    exact Tracks.throw _
  cases left with
  | identifier callee span =>
    apply Tracks.bind (Tracks.take (by decide))
    intro _ later hlater
    have hlength := hlater.length_le
    refine (Tracks.bind (list_tracks h (by omega) (by decide) false) ?_).mono (Nat.zero_le 1)
    intro arguments last _
    apply Tracks.bind_spanSince
    apply Tracks.pure_of_eq
    exact congrArg (Node.call callee · _) (Node.relocateAll_eq_map view.move arguments).symm
  | _ => exact refused _

theorem index_tracks (hcursor : cursor.rest.length ≤ bound) (left : Node) :
    Tracks view (fun _ => False) cursor 1 (index sub left) (index other (relocate view.move left)) := by
  apply Tracks.bind (Tracks.take (by decide))
  intro _ later hlater
  have hlength := hlater.length_le
  refine (Tracks.bind (h.expression .lowest (by decide) later (by omega)).inside ?_).mono (Nat.zero_le 1)
  intro position last _
  refine (Tracks.bind (Tracks.take (by decide)) ?_).mono (Nat.zero_le 1)
  intro _ final _
  simp only [relocate_node, Node.span_relocate]
  apply Tracks.bind_spanSince
  exact Tracks.pure _

theorem braced_tracks (hcursor : cursor.rest.length ≤ bound) :
    Tracks view (fun _ => False) cursor 0 (braced sub) (braced other) := by
  apply Tracks.bind_currentKind rfl nofun
  apply Tracks.ite
  · intro _
    refine (Tracks.bind (Tracks.take (by decide)) ?_).mono (Nat.zero_le 1)
    intro _ later hlater
    have hlength := hlater.length_le
    refine (Tracks.bind (list_tracks h (by omega) (by decide) true) ?_).mono (Nat.zero_le 1)
    intro elements last _
    exact Tracks.pure _
  · intro _
    exact Tracks.pure none

theorem typed_tracks (hcursor : cursor.rest.length < bound) (start : Position) (form : ArrayForm)
    (wrap : GoType → GoType) :
    Tracks view (fun _ => False) cursor 0 (typed sub start form wrap) (typed other (view.move start) form wrap) := by
  refine (Tracks.bind (h.type cursor hcursor).inside ?_).mono (Nat.zero_le 1)
  intro element later hlater
  have hlength := hlater.length_le
  apply Tracks.bind (braced_tracks h (by omega))
  intro elements last _
  apply Tracks.bind_spanSince
  rw [arrayNode_relocate]
  exact Tracks.check _

/-- Three dots between brackets, and then the type of the elements. -/
theorem dotted_tracks (hcursor : cursor.rest.length < bound) (start : Position) (form : ArrayForm)
    (wrap : GoType → GoType) :
    Tracks view (fun _ => False) cursor 0
      (take .ellipsis >>= fun _ => take .closeBracket >>= fun _ => typed sub start form wrap)
      (take .ellipsis >>= fun _ => take .closeBracket >>= fun _ => typed other (view.move start) form wrap) := by
  refine (Tracks.bind (Tracks.take (by decide)) ?_).mono (Nat.zero_le 1)
  intro _ later hlater
  have hlength := hlater.length_le
  refine (Tracks.bind (Tracks.take (by decide)) ?_).mono (Nat.zero_le 1)
  intro _ last hlast
  have hlength' := hlast.length_le
  exact typed_tracks h (by omega) start form wrap

theorem sizedOrIndexed_tracks (hcursor : cursor.rest.length < bound) (start : Position) (size : Nat)
    (elements : List Node) :
    Tracks view (fun _ => False) cursor 0 (sizedOrIndexed sub start size elements)
      (sizedOrIndexed other (view.move start) size (relocate view.move elements)) := by
  apply Tracks.bind_spanSince
  refine (Tracks.bind (Tracks.take (by decide)) ?_).mono (Nat.zero_le 1)
  intro _ later hlater
  have hlength := hlater.length_le
  apply Tracks.bind_currentKind rfl nofun
  apply Tracks.ite
  · intro _
    refine (Tracks.bind (Tracks.take (by decide)) ?_).mono (Nat.zero_le 1)
    intro _ last hlast
    have hlength' := hlast.length_le
    exact typed_tracks h (by omega) start _ _
  · intro _
    apply Tracks.ite
    · intro _
      exact dotted_tracks h (by omega) start _ _
    · intro _
      refine (Tracks.bind (h.expression .lowest (by decide) later (by omega)).inside ?_).mono (Nat.zero_le 1)
      intro position middle hmiddle
      have hlength' := hmiddle.length_le
      refine (Tracks.bind (Tracks.take (by decide)) ?_).mono (Nat.zero_le 1)
      intro _ last hlast
      have hlength'' := hlast.length_le
      have hinteger : (relocate view.move position).isInteger = position.isInteger := by cases position <;> rfl
      rw [hinteger]
      refine .bind_currentKind ?_ nofun ?_
      · rw [if_neg fun hsize => absurd hsize.2 (by decide), if_neg fun hsize => absurd hsize.2 (by decide)]
      apply Tracks.ite
      · intro _
        exact typed_tracks h (by omega) start _ _
      · intro _
        rw [listNode_relocate]
        apply Tracks.bind (Tracks.check _)
        intro list _ _
        apply Tracks.bind_spanSince
        exact Tracks.pure _

theorem sized_tracks (hcursor : cursor.rest.length < bound) (start : Position) (size : Nat) (elements : List Node) :
    Tracks view (fun _ => False) cursor 0 (sized sub start size elements)
      (sized other (view.move start) size (relocate view.move elements)) := by
  apply Tracks.bind_currentKind rfl nofun
  apply Tracks.ite
  · intro _
    exact sizedOrIndexed_tracks h hcursor start size elements
  · intro _
    apply Tracks.ite
    · intro _
      exact typed_tracks h hcursor start _ _
    · intro _
      apply Tracks.bind_spanSince
      rw [listNode_relocate]
      exact Tracks.check _

theorem array_tracks (hcursor : cursor.rest.length ≤ bound) :
    Tracks view (fun _ => False) cursor 1 (array sub) (array other) := by
  apply Tracks.bind_position
  apply Tracks.bind (Tracks.take (by decide))
  intro _ later hlater
  have hlength := hlater.length_le
  apply Tracks.bind_currentKind rfl nofun
  apply Tracks.ite
  · intro _
    refine (Tracks.bind (Tracks.take (by decide)) ?_).mono (Nat.zero_le 1)
    intro _ last hlast
    have hlength' := hlast.length_le
    apply Tracks.bind_currentKind rfl nofun
    apply Tracks.ite
    · intro _
      exact typed_tracks h (by omega) _ _ _
    · intro _
      exact Tracks.throw _
  · intro _
    apply Tracks.ite
    · intro _
      exact dotted_tracks h (by omega) _ _ _
    · intro _
      refine (Tracks.bind (list_tracks h (by omega) (by decide) false) ?_).mono (Nat.zero_le 1)
      intro elements last hlast
      have hlength' := hlast.length_le
      have listed : Tracks view (fun _ => False) last 0
          (spanSince cursor.position >>= fun span => check (listNode elements span))
          (spanSince (view.move cursor.position) >>= fun span =>
            check (listNode (relocate view.move elements) span)) := by
        apply Tracks.bind_spanSince
        rw [listNode_relocate]
        exact Tracks.check _
      rcases elements with _ | ⟨first, _ | ⟨second, rest⟩⟩
      · exact listed
      · cases first with
        | integer size place => exact sized_tracks h (by omega) _ _ _
        | _ => exact listed
      · cases first <;> exact listed

end Tracks

/-! ### The parts of the language -/

section Nested

variable {close : TokenKind} {trailing : Bool}

theorem group_eq (h : cursor.current.kind = .openParen) : group nested cursor = parenthesized nested cursor := by
  rw [group, parenthesized, bind_of_ok (take_run h), advance_bind_run]

theorem listRound_progresses (close : TokenKind) (trailing : Bool) : Progresses (listRound nested close trailing) := by
  intro front cursor next later h
  rw [listRound, currentKind_bind_run] at h
  by_cases hcomma : cursor.current.kind = .comma
  · rw [if_pos hcomma, bind_of_ok (take_run hcomma), currentKind_bind_run] at h
    have hadvance := (Cursor.readable_of_kind hcomma (by decide)).reaches_advance.length_le
    by_cases hclose : cursor.advance.current.kind = close
    · rw [if_pos hclose] at h
      cases trailing <;> cases h
    · rw [if_neg hclose] at h
      obtain ⟨element, last, helement, hpure⟩ := ok_of_bind h
      cases hpure
      have hlength := (expression_reads helement).length_le
      omega
  · rw [if_neg hcomma] at h
    cases h

/-- What the parser reads after an element of a list: a comma and the other elements, or nothing. -/
def otherElements (close : TokenKind) (trailing : Bool) : ParseM (List Node) := do
  if (← currentKind) ≠ .comma then return []
  let _ ← advance
  if !trailing && (← currentKind) == close then reject (some "expected an expression after ','")
  else gather (listItem nested close trailing)

theorem gather_listItem : gather (listItem nested close trailing) cursor =
    if cursor.current.kind = close then .ok [] cursor
    else (nested.expression .lowest >>= fun element => otherElements close trailing >>= fun others =>
      pure (element :: others)) cursor := by
  rw [gather_eq (listItem_advances close trailing), bind_run, listItem, currentKind_bind_run]
  by_cases hclose : cursor.current.kind = close
  · rw [if_pos hclose, if_pos hclose]
    rfl
  · rw [if_neg hclose, if_neg hclose, bind_run, bind_run]
    cases nested.expression .lowest cursor with
    | error error middle => rfl
    | ok element middle =>
      dsimp only
      rw [otherElements, currentKind_bind_run, bind_run, currentKind_bind_run]
      by_cases hcomma : middle.current.kind ≠ .comma
      · rw [if_pos hcomma, if_pos hcomma]
        rfl
      · rw [if_neg hcomma, if_neg hcomma, advance_bind_run, advance_bind_run, currentKind_bind_run,
          currentKind_bind_run]
        by_cases hlast : (!trailing && middle.advance.current.kind == close) = true
        · rw [if_pos hlast, if_pos hlast]
          rfl
        · rw [if_neg hlast, if_neg hlast]
          rfl

/-- **The rounds of a list add what the parser gathers.**  The induction is on the tokens that are left. -/
theorem loop_listRound (front : List Node) :
    loop (listRound nested close trailing) front cursor =
      (otherElements close trailing >>= fun others => pure (front ++ others)) cursor := by
  induction hlength : cursor.rest.length using Nat.strongRecOn generalizing cursor front with
  | ind length ih =>
    rw [loop_eq (listRound_progresses close trailing)]
    have hround : listRound nested close trailing front cursor = _ := currentKind_bind_run _
    have hothers : otherElements close trailing cursor = _ := currentKind_bind_run _
    by_cases hcomma : cursor.current.kind = .comma
    · rw [if_pos hcomma, bind_of_ok (take_run hcomma), currentKind_bind_run] at hround
      rw [if_neg (fun hne => hne hcomma), advance_bind_run, currentKind_bind_run] at hothers
      by_cases hclose : cursor.advance.current.kind = close
      · rw [if_pos hclose] at hround
        cases trailing with
        | false =>
          rw [if_pos (by simp [hclose])] at hothers
          rw [bind_of_error hround, bind_of_error hothers]
        | true =>
          rw [if_neg (by simp), gather_listItem, if_pos hclose] at hothers
          rw [bind_of_ok hround, bind_of_ok hothers, List.append_nil]
      · rw [if_neg hclose] at hround
        rw [if_neg (by simp [hclose]), gather_listItem, if_neg hclose] at hothers
        have hadvance := (Cursor.readable_of_kind hcomma (by decide)).reaches_advance.length_le
        rw [bind_run] at hround hothers
        cases helement : nested.expression .lowest cursor.advance with
        | error error middle =>
          rw [helement] at hround hothers
          rw [bind_of_error hround, bind_of_error hothers]
        | ok element middle =>
          rw [helement] at hround hothers
          have hmiddle := (expression_reads helement).length_le
          rw [bind_of_ok hround, bind_run, hothers]
          show loop _ (front ++ [element]) middle = _
          rw [ih middle.rest.length (by omega) (front ++ [element]) rfl, bind_run]
          dsimp only
          rw [bind_run]
          cases otherElements close trailing middle with
          | error error last => rfl
          | ok others last => exact congrArg (EStateM.Result.ok · last) (List.append_assoc front [element] others)
    · rw [if_neg hcomma] at hround
      rw [if_pos hcomma] at hothers
      rw [bind_of_ok hround, bind_of_ok hothers, List.append_nil]

/-- **A list is read as the parser reads it.** -/
theorem list_eq (close : TokenKind) (trailing : Bool) :
    list nested close trailing = commaList nested close trailing := by
  funext cursor
  have hgathered : gather (listItem nested close trailing) cursor = _ := gather_listItem
  rw [list, currentKind_bind_run, commaList]
  by_cases hclose : cursor.current.kind = close
  · rw [if_pos hclose] at hgathered ⊢
    rw [bind_of_ok hgathered]
  · rw [if_neg hclose, bind_run] at hgathered
    rw [if_neg hclose, bind_run]
    cases hfirst : nested.expression .lowest cursor with
    | error error middle =>
      rw [hfirst] at hgathered
      rw [bind_of_error hgathered]
    | ok first middle =>
      rw [hfirst] at hgathered
      dsimp only at hgathered ⊢
      rw [bind_run, loop_listRound, bind_run (gather _), hgathered]
      rfl

theorem call_eq (h : cursor.current.kind = .openParen) (left : Node) :
    call nested left cursor = callOf nested left cursor := by
  cases left with
  | identifier callee span =>
    rw [call, callOf, bind_of_ok (take_run h), advance_bind_run, list_eq]
  | _ => rfl

theorem index_eq (h : cursor.current.kind = .openBracket) (left : Node) :
    index nested left cursor = indexInto nested left cursor := by
  rw [index, indexInto, bind_of_ok (take_run h), advance_bind_run]

theorem braced_eq : braced nested = bracedElements nested := by
  funext cursor
  rw [braced, bracedElements, currentKind_bind_run, currentKind_bind_run]
  by_cases hcurly : cursor.current.kind = .openCurly
  · rw [if_pos hcurly, if_pos hcurly, bind_of_ok (take_run hcurly), advance_bind_run, list_eq]
  · rw [if_neg hcurly, if_neg hcurly]

theorem typed_eq (start : Position) (form : ArrayForm) (wrap : GoType → GoType) :
    typed nested start form wrap =
      nested.type >>= fun element => arrayWithElements nested start form (wrap element) := by
  rw [typed, braced_eq]
  rfl

/-- The tokens that a type starts with are those that have a rule for types. -/
theorem mem_typeStarts (kind : TokenKind) : kind ∈ typeStarts ↔ (standard.type kind).isSome = true := by
  cases kind <;> decide

/-- An array type is read with a size in brackets first. -/
theorem nested_type_bind_of_bracket {α : Type} (next : GoType → ParseM α) (h : cursor.current.kind = .openBracket) :
    (nested.type >>= next) cursor =
      (sizeBrackets >>= fun _ => nested.type >>= fun element => next (.array element)) cursor := by
  have harray : typeAt standard nested cursor = arrayType nested cursor := by
    have hrule : standard.type cursor.current.kind = some .array := congrArg standard.type h
    have hcurrent : current cursor = .ok cursor.current cursor := rfl
    rw [typeAt, bind_of_ok hcurrent, hrule]
  have hsplit : (arrayType nested >>= next) =
      sizeBrackets >>= fun _ => nested.type >>= fun element => next (.array element) := by
    simp only [arrayType, bind_assoc, pure_bind]
  rw [← hsplit, nested_type, bind_run, bind_run, harray]

/-- A size in brackets with nothing or three dots between them, as the layered grammar reads it. -/
theorem sizeBrackets_empty {α : Type} (next : ArrayForm → ParseM α) (h : cursor.current.kind = .openBracket)
    (hnext : cursor.advance.current.kind = .closeBracket) :
    (sizeBrackets >>= next) cursor = (take .closeBracket >>= fun _ => next .slice) cursor.advance := by
  have hsize : bracketSize cursor.advance = .ok .slice cursor.advance := by
    rw [bracketSize, currentKind_bind_run, hnext]
    rfl
  rw [sizeBrackets, bind_assoc, bind_of_ok (take_run h), bind_assoc, bind_of_ok hsize, bind_assoc]
  rfl

theorem sizeBrackets_dotted {α : Type} (next : ArrayForm → ParseM α) (h : cursor.current.kind = .openBracket)
    (hnext : cursor.advance.current.kind = .ellipsis) :
    (sizeBrackets >>= next) cursor =
      (take .ellipsis >>= fun _ => take .closeBracket >>= fun _ => next .counted) cursor.advance := by
  have hsize : bracketSize cursor.advance = .ok .counted cursor.advance.advance := by
    rw [bracketSize, currentKind_bind_run, hnext]
    rfl
  rw [sizeBrackets, bind_assoc, bind_of_ok (take_run h), bind_assoc, bind_of_ok hsize, bind_of_ok (take_run hnext),
    bind_assoc]
  rfl

theorem sizedOrIndexed_eq (h : cursor.current.kind = .openBracket) (start : Position) (size : Nat)
    (elements : List Node) :
    sizedOrIndexed nested start size elements cursor =
      numberThenBracket standard nested start size elements cursor := by
  have hnext : cursor.next = cursor.advance.current := rfl
  rw [sizedOrIndexed, spanSince_bind_run, bind_of_ok (take_run h), currentKind_bind_run, numberThenBracket,
    nextKind_bind_run, hnext]
  by_cases hclose : cursor.advance.current.kind = .closeBracket
  · rw [if_pos hclose, if_pos (.inl hclose), typed_eq, nested_type_bind_of_bracket _ h, sizeBrackets_empty _ h hclose]
  · rw [if_neg hclose]
    by_cases hdots : cursor.advance.current.kind = .ellipsis
    · rw [if_pos hdots, if_pos (.inr hdots), typed_eq, nested_type_bind_of_bracket _ h,
        sizeBrackets_dotted _ h hdots]
    · rw [if_neg hdots, if_neg (by simp [hclose, hdots]), spanSince_bind_run, advance_bind_run]
      refine congrFun (congrArg (nested.expression .lowest >>= ·) (funext fun position => ?_)) _
      refine congrArg (take .closeBracket >>= ·) (funext fun _ => funext fun last => ?_)
      have hsize : isSizeOfType standard position last =
          .ok (position.isInteger && (standard.type last.current.kind).isSome) last := by cases position <;> rfl
      rw [currentKind_bind_run, bind_of_ok hsize, typed_eq]
      by_cases hsized : position.isInteger = true ∧ last.current.kind ∈ typeStarts
      · rw [if_pos hsized, if_pos (by simp [hsized.1, (mem_typeStarts _).mp hsized.2])]
      · rw [if_neg hsized, if_neg (by rwa [Bool.and_eq_true, ← mem_typeStarts])]

theorem sized_eq (start : Position) (size : Nat) (elements : List Node) :
    sized nested start size elements = (do
      if (← currentKind) = .openBracket then numberThenBracket standard nested start size elements
      else if ← standard.startsType then arrayWithElements nested start (.sized size) (← nested.type)
      else check (listNode elements (← spanSince start))) := by
  funext cursor
  rw [sized, currentKind_bind_run, currentKind_bind_run]
  by_cases hbracket : cursor.current.kind = .openBracket
  · rw [if_pos hbracket, if_pos hbracket, sizedOrIndexed_eq hbracket]
  · have hstarts : standard.startsType cursor = .ok (standard.type cursor.current.kind).isSome cursor := rfl
    rw [if_neg hbracket, if_neg hbracket, bind_of_ok hstarts, typed_eq]
    by_cases htype : cursor.current.kind ∈ typeStarts
    · rw [if_pos htype, if_pos ((mem_typeStarts _).mp htype)]
      rfl
    · rw [if_neg htype, if_neg (mt (mem_typeStarts _).mpr htype)]

/-- **An array is read as the parser reads it.**  The parser looks one token ahead where the layered grammar reads the
bracket first. -/
theorem array_eq (h : cursor.current.kind = .openBracket) :
    array nested cursor = arrayLiteral standard nested cursor := by
  have hnext : cursor.next = cursor.advance.current := rfl
  have hstarts : ∀ last : Cursor, standard.startsType last = .ok (standard.type last.current.kind).isSome last :=
    fun _ => rfl
  rw [array, position_bind_run, bind_of_ok (take_run h), currentKind_bind_run, arrayLiteral, position_bind_run,
    nextKind_bind_run, hnext]
  by_cases hclose : cursor.advance.current.kind = .closeBracket
  · rw [if_pos hclose, if_pos (.inl hclose), sizeBrackets_empty _ h hclose]
    refine congrFun (congrArg (take .closeBracket >>= ·) (funext fun _ => funext fun last => ?_)) _
    rw [currentKind_bind_run, bind_of_ok (hstarts last), typed_eq]
    by_cases htype : last.current.kind ∈ typeStarts
    · rw [if_pos htype, if_neg (by simp [(mem_typeStarts _).mp htype])]
      rfl
    · rw [if_neg htype, if_pos (by simpa [mem_typeStarts] using htype)]
  · rw [if_neg hclose]
    by_cases hdots : cursor.advance.current.kind = .ellipsis
    · rw [if_pos hdots, if_pos (.inr hdots), sizeBrackets_dotted _ h hdots, typed_eq]
      refine congrFun (congrArg (take .ellipsis >>= ·) (funext fun _ => ?_)) _
      refine congrArg (take .closeBracket >>= ·) (funext fun _ => funext fun last => ?_)
      rw [bind_of_ok (hstarts last), if_neg (by simp)]
      rfl
    · rw [if_neg hdots, if_neg (by simp [hclose, hdots]), advance_bind_run, list_eq]
      refine congrFun (congrArg (commaList nested .closeBracket false >>= ·) (funext fun elements => ?_)) _
      rcases elements with _ | ⟨first, _ | ⟨second, rest⟩⟩
      · rfl
      · cases first with
        | integer size place => exact sized_eq _ _ _
        | _ => rfl
      · cases first <;> rfl

end Nested

end GoScript.Grammar
