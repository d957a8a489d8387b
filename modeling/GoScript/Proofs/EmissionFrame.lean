import GoScript.Proofs.LexicalScoping
import GoScript.Proofs.Lines

/-!
# What a statement leaves alone

The emission of a statement may stop anywhere, between a line that opens a block and the one that closes it, in a scope
that was entered somewhere inside.  Wherever it stops, it is back where it started: in the same scope, at the same
level, with all scopes around as they were.  Only the current scope may have more names, and only at its end may the
sink have more text.  A statement of one line does not even leave that behind, unless it is the sink that fails.

* `EmitM.after` — the emitter after an emission, whatever the outcome
* `Emitter.Resumes` — an emitter that is back where it was, with more text
* `Lays.resumes` — every emission comes back to where it was
* `EmitM.Atomic` — an emission that does nothing at all if it fails, the sink apart
* `emit_frame` — every statement, at every emitter
-/

namespace GoScript

open Outcome

/-- The emitter after an emission, which may have succeeded or not. -/
def EmitM.after {α : Type} (emission : EmitM α) (before : Emitter) : Emitter :=
  match emission before with
  | .ok _ after => after
  | .error _ after => after

/-- The emitter `after` is where the emitter `before` was, and its sink holds the same text and perhaps more. -/
structure Emitter.Resumes (before after : Emitter) : Prop where
  stays : before.Stays after
  text : ∃ more, after.sink.contents = before.sink.contents ++ more

/-- From where it was, as many scopes are seen as before. -/
theorem Emitter.Resumes.depth {before after : Emitter} (h : before.Resumes after) :
    after.scopes.depth = before.scopes.depth := by
  rw [ScopeTree.depth, ScopeTree.depth, ScopeTree.visible_eq, ScopeTree.visible_eq,
    ScopeTree.around_eq_of_grows h.stays.scopes]
  rfl

/-- What a sink holds stays at its start. -/
theorem Sink.contents_put (sink : Sink) (texts : List String) :
    ∃ more, (sink.put texts).2.contents = sink.contents ++ more := by
  induction texts generalizing sink with
  | nil => exact ⟨ByteArray.empty, ByteArray.append_empty.symm⟩
  | cons text rest ih =>
    rw [put]
    split
    · obtain ⟨more, hmore⟩ := ih (sink.write text)
      exact ⟨_, hmore.trans ByteArray.append_assoc⟩
    · exact ⟨_, rfl⟩

/-- **Every emission comes back.**  Wherever it starts and however it ends, it is back where it started. -/
theorem Lays.resumes {emission : Emission} {Layout : Nat → List Line → Prop} {Fault : Error → Prop}
    (h : Lays emission Layout Fault) (before : Emitter) : before.Resumes (EmitM.after emission before) := by
  obtain ⟨lines, outcome, scopes', hemits, -⟩ := h before.scopes before.level before.options.callMain
  obtain ⟨more, htext⟩ := before.sink.contents_put (lines.map (Line.render before.options.indent))
  rcases hput : before.sink.put (lines.map (Line.render before.options.indent)) with ⟨_ | _, after⟩
  · obtain ⟨middle, hgrows, hrun⟩ := hemits.of_full hput
    have hafter : EmitM.after emission before =
        .place middle before.level before.options.callMain before.options.indent after := by
      rw [EmitM.after, show emission before = _ from hrun]
    rw [hput] at htext
    rw [hafter]
    exact ⟨⟨rfl, rfl, hgrows⟩, more, htext⟩
  · have hafter : EmitM.after emission before =
        .place scopes' before.level before.options.callMain before.options.indent after := by
      rw [EmitM.after, show emission before = _ from hemits.of_fits hput]
      cases outcome with
      | ok value => rfl
      | error error => rfl
    rw [hput] at htext
    rw [hafter]
    exact ⟨⟨rfl, rfl, hemits.grows⟩, more, htext⟩

/-! ### Statements of one line -/

/-- A failure of the sink. -/
def Error.IsIo (error : Error) : Prop :=
  ∃ message, error.cause = .io message

/-- If the emission fails, then the sink does, or nothing at all has been done. -/
def EmitM.Atomic {α : Type} (emission : EmitM α) : Prop :=
  ∀ before error after, emission before = .error error after → error.IsIo ∨ after = before

namespace EmitM.Atomic

variable {α β : Type}

theorem throw (error : Error) : Atomic (throw error : EmitM α) := by
  intro before error' after h
  cases h
  exact .inr rfl

/-- What only the sink can stop. -/
theorem of_lays {emission : Emission} {Layout : Nat → List Line → Prop} (h : Lays emission Layout fun _ => False) :
    Atomic emission := by
  intro before error after herror
  obtain ⟨lines, outcome, scopes', hemits, hend⟩ := h before.scopes before.level before.options.callMain
  rcases hput : before.sink.put (lines.map (Line.render before.options.indent)) with ⟨_ | _, last⟩
  · obtain ⟨middle, _, hrun⟩ := hemits.of_full hput
    cases herror.symm.trans hrun
    exact .inl ⟨_, rfl⟩
  · cases outcome with
    | ok value => cases herror.symm.trans (hemits.of_fits hput)
    | error error' => exact hend.elim

theorem putLine (line : String) : Atomic (EmitM.putLine line) :=
  of_lays (.putLine line)

theorem get_bind {next : Emitter → EmitM β} (h : ∀ emitter, Atomic (next emitter)) : Atomic (get >>= next) :=
  fun before => h before before

theorem lookup_bind (name : String) {next : Option Binding → EmitM β} (h : ∀ found, Atomic (next found)) :
    Atomic (EmitM.lookup name >>= next) :=
  fun before => h (before.scopes.lookup name) before

/-- A check comes before anything is done. -/
theorem check_bind {outcome : Except Error α} {next : α → EmitM β} (h : ∀ value, Atomic (next value)) :
    Atomic (EmitM.check outcome >>= next) := by
  cases outcome with
  | ok value => exact h value
  | error error => exact throw error

end EmitM.Atomic

open EmitM (Atomic)

theorem emitBinding_atomic (d : Declaration) : Atomic (emitBinding d) := by
  refine .check_bind fun _ => .get_bind fun _ => .check_bind fun _ => .check_bind fun line => ?_
  exact .of_lays (.declare_bind _ (.putLine line))

theorem emitAssignment_atomic (name : String) (value : Node) (position : Position) :
    Atomic (emitAssignment name value position) := by
  refine .lookup_bind name fun found => ?_
  cases found with
  | none => exact .throw _
  | some binding =>
    dsimp only
    split
    · exact .throw _
    · exact .check_bind fun _ => .putLine _

/-- A statement that is emitted as one line: a single declaration of anything but a function, an assignment, a return or
an expression. -/
def Node.isOneLine : Node → Bool
  | .declaration d => d.group.isNone && !d.bindsFunction
  | .assignment _ _ _ | .returning _ _ | .expression _ _ => true
  | _ => false

theorem emit_atomic {node : Node} (h : node.isOneLine = true) : Atomic node.emit := by
  cases node with
  | declaration d =>
    simp only [Node.isOneLine, Bool.and_eq_true, Option.isNone_iff_eq_none, Bool.not_eq_true'] at h
    rw [Node.emit_single h.1, Declaration.emit_of_plain h.2]
    exact emitBinding_atomic d
  | assignment name value span => exact emitAssignment_atomic name value span.start
  | returning value span =>
    cases value with
    | none => exact .putLine _
    | some value => exact .check_bind fun _ => .putLine _
  | expression e span => exact .check_bind fun _ => .putLine _
  | _ => cases h

/-! ### The frame of a statement -/

/-- **What a statement leaves alone.**  From every emitter and for every node, whatever the outcome is: the emission
ends in the scope that it started in, with as many scopes in sight and at the same level; all other scopes that were
there are as they were; and what was in the sink is still at its start.  If the statement is one of one line and fails,
but not because of the sink, then nothing at all has changed. -/
theorem emit_frame (node : Node) (before : Emitter) :
    let after := EmitM.after node.emit before
    after.scopes.current = before.scopes.current ∧ after.scopes.depth = before.scopes.depth ∧
      after.level = before.level ∧
      (∀ index < before.scopes.scopes.size, index ≠ before.scopes.current →
        after.scopes.scopes[index]? = before.scopes.scopes[index]?) ∧
      (∃ more, after.sink.contents = before.sink.contents ++ more) ∧
      (node.isOneLine = true → ∀ error, node.emit before = .error error after → ¬ error.IsIo → after = before) := by
  intro after
  have hresumes : before.Resumes after := (emit_lays node).resumes before
  refine ⟨hresumes.stays.scopes.current, hresumes.depth, hresumes.stays.level, hresumes.stays.scopes.others,
    hresumes.text, ?_⟩
  intro hline error herror hio
  exact (emit_atomic hline before error after herror).resolve_left hio

/-- An assignment to a name that is not bound stops a function in the middle of a condition, and on its own it does
nothing. -/
theorem emit_frame_undeclared :
    let start : Emitter := ⟨.empty, .empty, 0, {}⟩
    let line : Node := .assignment "x" (.integer 1 default) default
    let body : Node := .conditional (.identifier "a" default) ⟨[line], default⟩ none default
    let node : Node := .function ⟨some "f", [⟨"a", .bool, false, default⟩], none, ⟨[body], default⟩, default⟩
    let after := EmitM.after node.emit start
    (∃ error, node.emit start = .error error after ∧ error.cause = .undeclared "x") ∧
      after.sink.contents = "function f(a: boolean): void \x7b\n\tif (a) \x7b\n".toUTF8 ∧
      after.scopes.scopes.size = 3 ∧ after.scopes.current = 0 ∧ after.scopes.depth = 1 ∧ after.level = 0 ∧
      (∃ error, line.emit start = .error error (EmitM.after line.emit start) ∧ error.cause = .undeclared "x") ∧
      EmitM.after line.emit start = start := by
  intro start line body node after
  have hafter : EmitM.after node.emit start = after := rfl
  have hframe := emit_frame node start
  rw [hafter] at hframe
  obtain ⟨hcurrent, hdepth, hlevel, -⟩ := hframe
  obtain ⟨-, -, -, -, -, hsame⟩ := emit_frame line start
  have hstops : node.emit start = .error ⟨.undeclared "x", default⟩ after := by rfl
  have herror : line.emit start = .error ⟨.undeclared "x", default⟩ (EmitM.after line.emit start) := by rfl
  have hio : ¬ (Error.mk (.undeclared "x") default).IsIo := fun ⟨_, h⟩ => by cases h
  exact ⟨⟨_, hstops, rfl⟩, by decide +kernel, by decide +kernel, hcurrent, hdepth, hlevel, ⟨_, herror, rfl⟩,
    hsame rfl _ herror hio⟩

end GoScript
