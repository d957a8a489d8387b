import GoScript.Proofs.Failures
import GoScript.Proofs.Visits

/-!
# Constants

What becomes of a constant in a program that is emitted to its end.

* `assignment_origin` — no assignment names a constant, unless the constant is a function
* `constant_line` — a constant is bound under the type on its line; that type is an array only if it was not known
  before the scopes were asked for it
-/

namespace GoScript

open Outcome

variable {source file : String} {program : Program} {sink after : Sink} {options : Options}

/-! ### Assignments -/

/-- The emission of an assignment finds an origin of the name, and one that is not recorded as a constant. -/
theorem origin_of_assignment (hsound : (Node.program program).Sound)
    (h : emitInto program sink options = (.ok (), after)) {origins : Origins} {name : String} {value : Node}
    {span : Span} (hstands : Node.Stands [] (.program program) origins (.assignment name value span)) :
    ∃ origin, origins.lookup name = some origin ∧ origin.recorded ≠ .constant := by
  obtain ⟨finish, hok⟩ := emitAll_of_emitInto h
  have hsounds : ∀ statement ∈ program.body, statement.Sound := fun statement hmem =>
    hsound.within (.part hmem (.self _))
  cases visited_of_stands hsound h hstands (by simp) with
  | expression htext => cases htext
  | statement hcomes hrecords _ =>
    obtain ⟨_, next, hnext⟩ := hcomes.ok hsounds hok
    obtain ⟨binding, _, hlookup, hconstant, _⟩ := emitAssignment_ok hnext
    have hrecorded := hrecords.lookup name
    rw [hlookup, Option.map_some, eq_comm, Option.map_eq_some_iff] at hrecorded
    obtain ⟨origin, horigin, hkind⟩ := hrecorded
    refine ⟨origin, horigin, ?_⟩
    rw [hkind]
    simpa [Binding.isConstant] using hconstant

/-- **No constant is assigned to, functions apart.**  If a source parses and its program is emitted to its end, then the
name of every assignment in it is visible there, and if its innermost origin is the declaration of a constant, then the
value of that constant is a function. -/
theorem assignment_origin (hparse : parse source file = .ok program)
    (h : emitInto program sink options = (.ok (), after)) {origins : Origins} {name : String} {value : Node}
    {span : Span} (hstands : Node.Stands [] (.program program) origins (.assignment name value span)) :
    ∃ origin, origins.lookup name = some origin ∧
      ∀ d, origin = .declaration d → d.constant = true → d.bindsFunction = true := by
  obtain ⟨origin, hlookup, hrecorded⟩ := origin_of_assignment (sound_of_parse hparse) h hstands
  refine ⟨origin, hlookup, ?_⟩
  rintro d rfl hconstant
  by_cases hfunction : d.bindsFunction = true
  · exact hfunction
  · rw [Origin.recorded, if_neg hfunction, if_pos hconstant] at hrecorded
    exact absurd rfl hrecorded

/-- In `func f(x int)` an assignment to `x` is one to the parameter, also after `const x = 1`. -/
theorem assignment_origin_parameter : ∃ program after origins value span,
    parse "const x = 1; func f(x int) \x7b x = 2 \x7d" "shell" = .ok program ∧
      emitInto program .empty {} = (.ok (), after) ∧
      Node.Stands [] (.program program) origins (.assignment "x" value span) ∧
      ∃ origin, origins.lookup "x" = some origin ∧
        ∀ d, origin = .declaration d → d.constant = true → d.bindsFunction = true := by
  have hprogram : ∃ program after origins value span,
      parse "const x = 1; func f(x int) \x7b x = 2 \x7d" "shell" = .ok program ∧
        emitInto program .empty {} = (.ok (), after) ∧
        Node.Stands [] (.program program) origins (.assignment "x" value span) :=
    ⟨_, _, _, _, _, by rfl, by rfl, .part (.tail _ (.head _)) (.part (.head _) (.self _ _))⟩
  obtain ⟨program, after, origins, value, span, hparse, h, hstands⟩ := hprogram
  exact ⟨program, after, origins, value, span, hparse, h, hstands, assignment_origin hparse h hstands⟩

/-- A constant that is a function can be assigned to. -/
theorem assignment_to_constant_function : ∃ program after origins value span d,
    parse "const f = func() \x7b\x7d\nf = 1\n" "shell" = .ok program ∧
      emitInto program .empty {} = (.ok (), after) ∧ after.contents = "function f(): void \x7b\n\x7d\nf = 1;\n".toUTF8 ∧
      Node.Stands [] (.program program) origins (.assignment "f" value span) ∧
      origins.lookup "f" = some (.declaration d) ∧ d.constant = true :=
  ⟨_, _, _, _, _, _, by rfl, by rfl, by rfl, .part (.tail _ (.head _)) (.self _ _), by rfl, by rfl⟩

/-! ### Types -/

theorem Declaration.line_constant {d : Declaration} {type : GoType} {line : String} (hconstant : d.constant = true)
    {value : Node} (hvalue : d.value = some value) (h : d.line type = .ok line) :
    ∃ text, value.target = .ok text ∧
      line = "const " ++ d.name ++ ": " ++ type.target ++ " = " ++ text ++ ";" := by
  rw [Declaration.line, hvalue] at h
  obtain ⟨text, htext, h⟩ := ok_of_check h
  cases h
  rw [if_pos hconstant]
  exact ⟨text, htext, rfl⟩

/-- A constant is an array only if the scopes say so. -/
theorem isArray_of_declaredType {scopes : ScopeTree} {d : Declaration} (hsingle : d.Single)
    (hconstant : d.constant = true) {value : Node} (hvalue : d.value = some value) {type : GoType}
    (h : scopes.declaredType d = .ok type) :
    type.isArray = true ↔ d.type? = none ∧ ∃ element, scopes.typeOf value = .ok (.array element) := by
  rw [ScopeTree.declaredType, hvalue] at h
  cases htype : d.type? with
  | some known =>
    rw [htype] at h
    cases h
    simp [hsingle.constant_type hconstant type htype]
  | none =>
    rw [htype] at h
    have hfound : scopes.typeOf value = .ok type := h
    rw [hfound]
    cases type <;> simp [GoType.isArray]

/-- **The type of a constant.**  If a source parses and its program is emitted to its end, then the emission comes to
every constant that is no function.  There the constant is bound, and its line is written, with one and the same type.
It is an array exactly if no type was written or found while parsing, and the scopes give the value an array type. -/
theorem constant_line (hparse : parse source file = .ok program) (h : emitInto program sink options = (.ok (), after))
    {d : Declaration} (within : (Node.declaration d).Within (.program program)) (hgroup : d.group = none)
    (hconstant : d.constant = true) (hplain : d.bindsFunction = false) :
    (∃ here, (Emitter.atStart program sink options).ComesTo program.body here (.declaration d)) ∧
      ∀ here, (Emitter.atStart program sink options).ComesTo program.body here (.declaration d) →
        ∃ value text type, d.value = some value ∧ value.target = .ok text ∧
          (Node.declaration d).emit here = .ok () ((here.bound ⟨d.name, type, .constant⟩).wrote
            ("const " ++ d.name ++ ": " ++ type.target ++ " = " ++ text ++ ";")) ∧
          (type.isArray = true ↔ d.type? = none ∧ ∃ element, here.scopes.typeOf value = .ok (.array element)) := by
  have hsound := sound_of_parse hparse
  obtain ⟨finish, hok⟩ := emitAll_of_emitInto h
  have hsounds : ∀ statement ∈ program.body, statement.Sound := fun statement hmem =>
    hsound.within (.part hmem (.self _))
  have hsingle := single_of_sound hsound within hgroup
  constructor
  · obtain ⟨origins, hstands⟩ := within.stands []
    cases visited_of_stands hsound h hstands (by simp) with
    | expression htext => cases htext
    | statement hcomes _ _ => exact ⟨_, hcomes⟩
  · intro here hcomes
    obtain ⟨_, next, hnext⟩ := hcomes.ok hsounds hok
    obtain ⟨value, hvalue, _⟩ := hsingle.constant_value hconstant
    have hemit := hnext
    rw [Node.emit_single hgroup, Declaration.emit_of_plain hplain] at hemit
    obtain ⟨type, line, htype, hline, rfl⟩ := emitBinding_ok hemit
    obtain ⟨text, htext, rfl⟩ := Declaration.line_constant hconstant hvalue hline
    rw [if_pos hconstant] at hnext
    exact ⟨value, text, type, hvalue, htext, hnext, isArray_of_declaredType hsingle hconstant hvalue htype⟩

/-- The type of a sum is that of its left operand, here of a name in the block around. -/
theorem constant_line_sum : ∃ program after d,
    parse "x := 1; if true \x7b const y = x + 2 \x7d" "shell" = .ok program ∧
      emitInto program .empty {} = (.ok (), after) ∧ (Node.declaration d).Within (.program program) ∧ d.group = none ∧
      d.constant = true ∧ d.bindsFunction = false ∧ d.type? = none ∧
      (∃ here, (Emitter.atStart program .empty {}).ComesTo program.body here (.declaration d)) ∧
        ∀ here, (Emitter.atStart program .empty {}).ComesTo program.body here (.declaration d) →
          ∃ value text type, d.value = some value ∧ value.target = .ok text ∧
            (Node.declaration d).emit here = .ok () ((here.bound ⟨d.name, type, .constant⟩).wrote
              ("const " ++ d.name ++ ": " ++ type.target ++ " = " ++ text ++ ";")) ∧
            (type.isArray = true ↔ d.type? = none ∧ ∃ element, here.scopes.typeOf value = .ok (.array element)) := by
  have hprogram : ∃ program after d,
      parse "x := 1; if true \x7b const y = x + 2 \x7d" "shell" = .ok program ∧
        emitInto program .empty {} = (.ok (), after) ∧ (Node.declaration d).Within (.program program) ∧
        d.group = none ∧ d.constant = true ∧ d.bindsFunction = false ∧ d.type? = none :=
    ⟨_, _, _, by rfl, by rfl, .part (.tail _ (.head _)) (.part (.tail _ (.head _)) (.self _)), by rfl, by rfl, by rfl,
      by rfl⟩
  obtain ⟨program, after, d, hparse, h, within, hgroup, hconstant, hplain, htype⟩ := hprogram
  exact ⟨program, after, d, hparse, h, within, hgroup, hconstant, hplain, htype,
    constant_line hparse h within hgroup hconstant hplain⟩

/-- A constant may be an array: its value is a name, and only the scopes know that it is one. -/
theorem constant_of_array_type : ∃ program after d,
    parse "xs := []int\x7b1\x7d\nconst ys = xs\n" "shell" = .ok program ∧
      emitInto program .empty {} = (.ok (), after) ∧
      after.contents = "let xs: number[] = [1];\nconst ys: number[] = xs;\n".toUTF8 ∧
      (Node.declaration d).Within (.program program) ∧ d.name = "ys" ∧ d.constant = true :=
  ⟨_, _, _, by rfl, by rfl, by decide +kernel, .part (.tail _ (.head _)) (.self _), by rfl, by rfl⟩

end GoScript
