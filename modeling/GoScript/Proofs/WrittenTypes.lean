import GoScript.Proofs.Failures
import GoScript.Proofs.Visits

/-!
# Types that are written

A declaration may say the type of its name.  The name is then introduced and bound under that type, whatever its value
is, unless the value is a function: a function is written and bound under the type that it returns, and the type of the
declaration is not looked at.

* `Declaration.Introduces` — the line that introduces a declared name under a type
* `Declaration.EmittedAs` — a name that is introduced under a type, and bound under it afterwards
* `Lays.put_of_ok` — the lines that an emission has written
* `ScopeTree.lookup_declare`, `lookup_of_emitFunction` — what a name stands for once it is bound
* `emitted_as_written_type` — when a written type is the one that counts
-/

namespace GoScript

open Outcome

/-- The line that introduces a declared name under a type.  The type stands behind the name; that of a function stands
behind its parameters. -/
inductive Declaration.Introduces (d : Declaration) (type : GoType) : String → Prop
  | function {f : Function} : d.value = some (.function f) →
    Introduces d type (functionHead d.name f.parameters type)
  | value {value : Node} {text : String} : d.value = some value → value.target = .ok text →
    Introduces d type
      ((if d.constant then "const " else "let ") ++ d.name ++ ": " ++ type.target ++ " = " ++ text ++ ";")
  | bare : d.value = none →
    Introduces d type ((if d.constant then "const " else "let ") ++ d.name ++ ": " ++ type.target ++ ";")

/-- Between two emitters a declared name has been emitted under a type: the first line that was written introduces it
under that type, it is the only one unless the name is a function, and afterwards the name stands for something of that
type. -/
def Declaration.EmittedAs (d : Declaration) (type : GoType) (here next : Emitter) : Prop :=
  (∃ line more, d.Introduces type line ∧ (d.bindsFunction = false → more = []) ∧
    here.sink.put ((⟨here.level, line⟩ :: more).map (Line.render here.options.indent)) = (true, next.sink)) ∧
    ∃ binding, next.scopes.lookup d.name = some binding ∧ binding.type = type

/-! ### Lines -/

/-- An emission that has come to its end has written all of its lines. -/
theorem Lays.put_of_ok {emission : Emission} {Layout : Nat → List Line → Prop} {Fault : Error → Prop}
    (h : Lays emission Layout Fault) {here next : Emitter} (hok : emission here = .ok () next) :
    ∃ lines, Layout here.level lines ∧
      here.sink.put (lines.map (Line.render here.options.indent)) = (true, next.sink) := by
  obtain ⟨lines, outcome, scopes', hemits, hend⟩ := h here.scopes here.level here.options.callMain
  rcases hput : here.sink.put (lines.map (Line.render here.options.indent)) with ⟨_ | _, after⟩
  · obtain ⟨_, _, hfull⟩ := hemits.of_full hput
    cases hok.symm.trans hfull
  · cases outcome with
    | error error => cases hok.symm.trans (hemits.of_fits hput)
    | ok value =>
      cases hok.symm.trans (hemits.of_fits hput)
      exact ⟨lines, hend, hput⟩

theorem Declaration.introduces_of_line {d : Declaration} {type : GoType} {line : String} (h : d.line type = .ok line) :
    d.Introduces type line := by
  rw [Declaration.line] at h
  split at h
  · next value hvalue =>
    obtain ⟨text, htext, h⟩ := ok_of_check h
    cases h
    exact .value hvalue htext
  · next hvalue =>
    cases h
    exact .bare hvalue

/-- What is no function has one line, with the type that is known. -/
theorem emitBinding_introduces {d : Declaration} {type : GoType} (htype : d.type? = some type) :
    Lays (emitBinding d) (fun level lines => ∃ line, d.Introduces type line ∧ lines = [⟨level, line⟩])
      fun _ => True := by
  refine .check_bind (fun _ _ => trivial) fun _ _ => .scopes_bind (fun scopes => do
    let type ← EmitM.check (scopes.declaredType d)
    let line ← EmitM.check (d.line type)
    EmitM.declare ⟨d.name, type, if d.constant then .constant else .mutable⟩
    EmitM.putLine line) fun scopes => ?_
  refine .check_bind (fun _ _ => trivial) fun found hfound => .check_bind (fun _ _ => trivial) fun line hline =>
    .declare_bind _ ((Lays.putLine line).relayout ?_)
  rintro level _ rfl
  rw [ScopeTree.declaredType, htype] at hfound
  cases hfound
  exact ⟨line, Declaration.introduces_of_line hline, rfl⟩

/-- The first line of a function has the type that the function returns. -/
theorem emitFunction_head (name : String) (parameters : List Parameter) (result : GoType) (body : List Node) :
    Lays (emitFunction name parameters result (Node.emitAll body))
      (fun level lines => ∃ more, lines = ⟨level, functionHead name parameters result⟩ :: more)
      fun error => ∃ node ∈ body, node.Fault error := by
  have hbody := Lays.parameters_bind parameters (emitAll_lays body)
  refine .declare_bind _ ((Lays.block _ hbody (.putLine "\x7d")).relayout ?_)
  rintro level _ ⟨inner, back, rfl, _, _⟩
  exact ⟨inner ++ back, rfl⟩

/-! ### Bindings -/

/-- A name stands for what it was bound to last. -/
theorem ScopeTree.lookup_declare (tree : ScopeTree) (binding : Binding) :
    (tree.declare binding).lookup binding.name = some binding := by
  simp [lookup_eq_tables, tables_declare]

/-- After a function its name stands for the function, whatever its body binds. -/
theorem lookup_of_emitFunction {name : String} {parameters : List Parameter} {result : GoType} {body : List Node}
    {here next : Emitter} (h : emitFunction name parameters result (Node.emitAll body) here = .ok () next) :
    next.scopes.lookup name = some ⟨name, result, .function⟩ := by
  obtain ⟨inner, hinner, rfl⟩ := emitFunction_ok h
  have hstays := (Emitter.stays_parameters (parameters.map Parameter.binding) _).trans (emitAll_stays hinner)
  have htables : inner.scopes.leave.tables = (here.scopes.declare ⟨name, result, .function⟩).tables :=
    ScopeTree.tables_leave hstays.scopes
  show inner.scopes.leave.lookup name = _
  rw [ScopeTree.lookup_eq_tables, htables, ← ScopeTree.lookup_eq_tables]
  exact ScopeTree.lookup_declare _ _

/-! ### Declarations -/

section

variable {d : Declaration} {type : GoType} {here next : Emitter}

theorem Declaration.exists_function (h : d.bindsFunction = true) : ∃ f, d.value = some (.function f) := by
  rw [Declaration.bindsFunction] at h
  cases hvalue : d.value with
  | none =>
    rw [hvalue] at h
    cases h
  | some value =>
    rw [hvalue] at h
    cases value with
    | function f => exact ⟨f, rfl⟩
    | _ => cases h

theorem Declaration.emitted_of_plain (hexplicit : d.explicit = some type) (hplain : d.bindsFunction = false)
    (h : d.emit here = .ok () next) : d.EmittedAs type here next := by
  have htype : d.type? = some type := by rw [Declaration.type?, hexplicit, Option.some_or]
  rw [Declaration.emit_of_plain hplain] at h
  obtain ⟨_, ⟨line, hline, rfl⟩, hput⟩ := (emitBinding_introduces htype).put_of_ok h
  obtain ⟨found, _, hfound, _, rfl⟩ := emitBinding_ok h
  rw [ScopeTree.declaredType, htype] at hfound
  cases hfound
  exact ⟨⟨line, [], hline, fun _ => rfl, hput⟩, _, ScopeTree.lookup_declare _ _, rfl⟩

theorem Declaration.emitted_of_function {f : Function} (hvalue : d.value = some (.function f))
    (h : d.emit here = .ok () next) : d.EmittedAs f.returnType here next := by
  obtain ⟨name, constant, explicit, inferred, value, group, span⟩ := d
  obtain rfl : value = some (.function f) := hvalue
  obtain ⟨_, parameters, returns, ⟨body, _⟩, _⟩ := f
  obtain ⟨_, ⟨more, rfl⟩, hput⟩ := (emitFunction_head name parameters (returns.getD .void) body).put_of_ok h
  exact ⟨⟨_, more, .function rfl, nofun, hput⟩, _, lookup_of_emitFunction h, rfl⟩

/-- A name is emitted under one type only. -/
theorem Declaration.EmittedAs.unique {type' : GoType} (h : d.EmittedAs type here next)
    (h' : d.EmittedAs type' here next) : type = type' := by
  obtain ⟨_, binding, hlookup, rfl⟩ := h
  obtain ⟨_, binding', hlookup', rfl⟩ := h'
  cases hlookup.symm.trans hlookup'
  rfl

/-- **When the written type counts**: always, unless the value is a function that returns another one. -/
theorem Declaration.emittedAs_iff (hexplicit : d.explicit = some type) (h : d.emit here = .ok () next) :
    d.EmittedAs type here next ↔ ∀ f, d.value = some (.function f) → f.returnType = type := by
  constructor
  · intro hemitted f hvalue
    exact (Declaration.emitted_of_function hvalue h).unique hemitted
  · intro hreturns
    cases hfunction : d.bindsFunction with
    | false => exact Declaration.emitted_of_plain hexplicit hfunction h
    | true =>
      obtain ⟨f, hvalue⟩ := Declaration.exists_function hfunction
      rw [← hreturns f hvalue]
      exact Declaration.emitted_of_function hvalue h

end

/-! ### Programs -/

variable {source file : String} {program : Program} {sink after : Sink} {options : Options}

/-- **A written type counts, functions apart.**  If a source parses and its program is emitted to its end, then the
emission comes to every single declaration with a written type, constant or not, and emits it there.  It introduces and
binds the name under the written type exactly if the value is not a function that returns another type.  A function is
introduced and bound under the type that it returns. -/
theorem emitted_as_written_type (hparse : parse source file = .ok program)
    (h : emitInto program sink options = (.ok (), after)) {d : Declaration}
    (within : (Node.declaration d).Within (.program program)) (hgroup : d.group = none) {type : GoType}
    (hexplicit : d.explicit = some type) :
    (∃ here, (Emitter.atStart program sink options).ComesTo program.body here (.declaration d)) ∧
      ∀ here, (Emitter.atStart program sink options).ComesTo program.body here (.declaration d) →
        ∃ next, (Node.declaration d).emit here = .ok () next ∧
          (d.EmittedAs type here next ↔ ∀ f, d.value = some (.function f) → f.returnType = type) ∧
          ∀ f, d.value = some (.function f) → d.EmittedAs f.returnType here next := by
  obtain ⟨hcomes, hemits⟩ := comesTo_declaration (sound_of_parse hparse) h within
  refine ⟨hcomes, fun here hhere => ?_⟩
  obtain ⟨next, hnext⟩ := hemits here hhere
  have hemit := hnext
  rw [Node.emit_single hgroup] at hemit
  exact ⟨next, hnext, Declaration.emittedAs_iff hexplicit hemit,
    fun f hvalue => Declaration.emitted_of_function hvalue hemit⟩

/-- A string that is given a number. -/
theorem emitted_as_written_type_group : ∃ program after d,
    parse "if true \x7b const ( x string = 1 ) \x7d" "shell" = .ok program ∧
      emitInto program .empty {} = (.ok (), after) ∧ (Node.declaration d).Within (.program program) ∧ d.group = none ∧
      d.explicit = some .string ∧ d.inferred = some .int ∧
      ∃ here next, (Emitter.atStart program .empty {}).ComesTo program.body here (.declaration d) ∧
        (Node.declaration d).emit here = .ok () next ∧ d.EmittedAs .string here next := by
  have hprogram : ∃ program after d,
      parse "if true \x7b const ( x string = 1 ) \x7d" "shell" = .ok program ∧
        emitInto program .empty {} = (.ok (), after) ∧ (Node.declaration d).Within (.program program) ∧
        d.group = none ∧ d.explicit = some .string ∧ d.inferred = some .int ∧ d.bindsFunction = false :=
    ⟨_, _, _, by rfl, by rfl, .part (.head _) (.part (.tail _ (.head _)) (.part (.head _) (.self _))), by rfl, by rfl,
      by rfl, by rfl⟩
  obtain ⟨program, after, d, hparse, h, within, hgroup, hexplicit, hinferred, hplain⟩ := hprogram
  obtain ⟨⟨here, hcomes⟩, hall⟩ := emitted_as_written_type hparse h within hgroup hexplicit
  obtain ⟨next, hnext, hemitted, _⟩ := hall here hcomes
  refine ⟨program, after, d, hparse, h, within, hgroup, hexplicit, hinferred, here, next, hcomes, hnext,
    hemitted.mpr ?_⟩
  intro f hvalue
  rw [Declaration.bindsFunction, hvalue] at hplain
  cases hplain

/-- A number that is given a function: the name is introduced and bound as one that returns nothing. -/
theorem function_of_written_type : ∃ program after d here next,
    parse "var f int = func() \x7b\x7d\n" "shell" = .ok program ∧ emitInto program .empty {} = (.ok (), after) ∧
      after.contents = "function f(): void \x7b\n\x7d\n".toUTF8 ∧ (Node.declaration d).Within (.program program) ∧
      d.group = none ∧ d.explicit = some .int ∧
      (Emitter.atStart program .empty {}).ComesTo program.body here (.declaration d) ∧
      (Node.declaration d).emit here = .ok () next ∧ next.scopes.lookup d.name = some ⟨"f", .void, .function⟩ ∧
      ¬ d.EmittedAs .int here next := by
  refine ⟨_, _, _, _, _, by rfl, by rfl, by decide +kernel, .part (.head _) (.self _), by rfl, by rfl,
    ⟨_, [], [], .self, by rfl⟩, by rfl, by rfl, ?_⟩
  rintro ⟨_, binding, hlookup, htype⟩
  have hbinding : binding = ⟨"f", .void, .function⟩ := (Option.some.inj hlookup).symm
  rw [hbinding] at htype
  cases htype

end GoScript
