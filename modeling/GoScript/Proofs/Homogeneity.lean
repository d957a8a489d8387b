import GoScript.Proofs.Failures
import GoScript.Proofs.Visits

/-!
# Elements of one type

The elements of an array literal are compared while it is parsed, against the element type that is written or that the
first element shows by itself.  If the first element is a name or a call, there is no such type yet.  Then the scopes
give one to the first element when the literal is emitted, and the other elements are not looked at again.

* `Node.Differs` — an element of another type
* `ScopeTree.typeOf_array_some`, `ScopeTree.typeOf_array_none` — where the type of an array literal comes from
* `exists_differs_iff` — when a literal that is emitted has an element of another type
* `declared_literal_elements` — the literals that a program declares names with
-/

namespace GoScript

open Outcome

/-- The type of a node is known without any scope, and it is not `type`. -/
def Node.Differs (type : GoType) (node : Node) : Prop :=
  ∃ own, node.ownType? = some own ∧ own ≠ type

/-! ### The type of an array literal -/

namespace ScopeTree

variable {scopes : ScopeTree} {form : ArrayForm} {elements : Option (List Node)} {span : Span} {type : GoType}

/-- An element type that was known while parsing is the one that counts. -/
theorem typeOf_array_some {known : GoType}
    (h : scopes.typeOf (.array (some known) form elements span) = .ok (.array type)) : known = type := by
  rw [typeOf.eq_def] at h
  cases h
  rfl

/-- Otherwise the scopes are asked for the type of the first element. -/
theorem typeOf_array_none {first : Node} {rest : List Node}
    (h : scopes.typeOf (.array none form (some (first :: rest)) span) = .ok (.array type)) :
    scopes.typeOf first = .ok type := by
  rw [typeOf.eq_def] at h
  obtain ⟨found, hfirst, hfound⟩ := ok_of_check h
  cases hfound
  exact hfirst

end ScopeTree

/-- An array literal that has a text holds no functions. -/
theorem isFunction_of_target {element : Option GoType} {form : ArrayForm} {nodes : List Node} {span : Span}
    {text : String} (h : (Node.array element form (some nodes) span).target = .ok text) :
    ∀ node ∈ nodes, node.isFunction = false := by
  intro node hmem
  obtain ⟨text, htext⟩ := target_ok_of_mem_parts h hmem
  cases node with
  | function f => cases htext
  | _ => rfl

/-- Only a bare list can be without an element type. -/
theorem ArrayFormed.form_of_none {form : ArrayForm} {elements : Option (List Node)}
    (h : ArrayFormed none form elements) : form = .bare := by
  by_cases hform : form = .bare
  · exact hform
  · obtain ⟨_, hwritten, _⟩ := h.written hform
    cases hwritten

/-! ### Literals that are emitted -/

section

variable {scopes : ScopeTree} {element : Option GoType} {form : ArrayForm} {nodes : List Node} {span : Span}
  {text : String} {type : GoType} (hformed : ArrayFormed element form (some nodes))
  (htext : (Node.array element form (some nodes) span).target = .ok text)
  (htype : scopes.typeOf (.array element form (some nodes) span) = .ok (.array type))
include hformed htext htype

/-- Under an element type that was known while parsing, no element has another one. -/
theorem not_differs_of_known {known : GoType} (hknown : element = some known) :
    ∀ node ∈ nodes, ¬ node.Differs type := by
  subst hknown
  have hsame : known = type := ScopeTree.typeOf_array_some htype
  rintro node hmem ⟨own, hown, hne⟩
  have htyped := hformed.typed known nodes rfl rfl node hmem (isFunction_of_target htext node hmem) own hown
  exact hne (htyped.trans hsame)

/-- **An element of another type.**  There is one exactly if no element type was known while parsing, so that the first
element has the type that the scopes give to it, and an element behind the first one shows another type by itself. -/
theorem exists_differs_iff :
    (∃ node ∈ nodes, node.Differs type) ↔
      element = none ∧ ∃ first rest, nodes = first :: rest ∧ first.ownType? = none ∧
        scopes.typeOf first = .ok type ∧ ∃ node ∈ rest, node.Differs type := by
  constructor
  · rintro ⟨node, hmem, hdiffers⟩
    cases hknown : element with
    | some known => exact absurd hdiffers (not_differs_of_known hformed htext htype hknown node hmem)
    | none =>
      subst hknown
      obtain ⟨first, rest, hnodes, hfirst⟩ := hformed.bare hformed.form_of_none
      cases hnodes
      refine ⟨rfl, first, rest, rfl, hfirst.symm, ScopeTree.typeOf_array_none htype, ?_⟩
      rcases List.mem_cons.mp hmem with rfl | hmem
      · obtain ⟨own, hown, _⟩ := hdiffers
        rw [hown] at hfirst
        cases hfirst
      · exact ⟨node, hmem, hdiffers⟩
  · rintro ⟨_, first, rest, rfl, _, _, node, hmem, hdiffers⟩
    exact ⟨node, List.mem_cons_of_mem first hmem, hdiffers⟩

end

/-! ### Programs -/

/-- A declaration that is emitted has a text for its value, unless that is a function. -/
theorem target_of_emit {here there : Emitter} {d : Declaration} (hgroup : d.group = none)
    (hplain : d.bindsFunction = false) {value : Node} (hvalue : d.value = some value)
    (h : (Node.declaration d).emit here = .ok () there) : ∃ text, value.target = .ok text := by
  rw [Node.emit_single hgroup, Declaration.emit_of_plain hplain] at h
  obtain ⟨type, line, _, hline, _⟩ := emitBinding_ok h
  rw [Declaration.line, hvalue] at hline
  obtain ⟨text, htext, _⟩ := ok_of_check hline
  exact ⟨text, htext⟩

/-- A declaration with a value is no group. -/
theorem Declaration.Formed.group_eq_none {d : Declaration} (h : d.Formed) {value : Node}
    (hvalue : d.value = some value) :
    d.group = none := by
  rw [Declaration.Formed] at h
  split at h
  · assumption
  · rw [hvalue] at h
    cases h.1

variable {source file : String} {program : Program} {sink after : Sink} {options : Options}

/-- **The elements of a declared array.**  If a source parses and its program is emitted to its end, then the emission
comes to every declaration whose value is an array literal.  Wherever the scopes then say that the literal is an array
of some type, all elements that show a type by themselves have that type, with one exception: no element type was
written, the first element shows none, its type comes from the scopes, and the odd element stands behind it. -/
theorem declared_literal_elements (hparse : parse source file = .ok program)
    (h : emitInto program sink options = (.ok (), after)) {d : Declaration}
    (within : (Node.declaration d).Within (.program program)) {element : Option GoType} {form : ArrayForm}
    {nodes : List Node} {span : Span} (hvalue : d.value = some (.array element form (some nodes) span)) :
    (∃ here, (Emitter.atStart program sink options).ComesTo program.body here (.declaration d)) ∧
      ∀ here, (Emitter.atStart program sink options).ComesTo program.body here (.declaration d) →
        ∀ type, here.scopes.typeOf (.array element form (some nodes) span) = .ok (.array type) →
          ((∃ node ∈ nodes, node.Differs type) ↔
            element = none ∧ ∃ first rest, nodes = first :: rest ∧ first.ownType? = none ∧
              here.scopes.typeOf first = .ok type ∧ ∃ node ∈ rest, node.Differs type) := by
  have hsound := sound_of_parse hparse
  obtain ⟨finish, hok⟩ := emitAll_of_emitInto h
  have hsounds : ∀ statement ∈ program.body, statement.Sound := fun statement hmem =>
    hsound.within (.part hmem (.self _))
  have hliteral : Node.array element form (some nodes) span ∈ (Node.declaration d).parts := by
    rw [Node.parts, hvalue]
    exact List.mem_append_left _ (List.mem_singleton_self _)
  have hformed : ArrayFormed element form (some nodes) := (hsound.within within) _ (.part hliteral (.self _))
  have hgroup : d.group = none := Declaration.Formed.group_eq_none (hsound _ within) hvalue
  have hplain : d.bindsFunction = false := by rw [Declaration.bindsFunction, hvalue]; rfl
  constructor
  · obtain ⟨origins, hstands⟩ := within.stands []
    cases visited_of_stands hsound h hstands (by simp) with
    | expression htext => cases htext
    | statement hcomes _ _ => exact ⟨_, hcomes⟩
  · intro here hcomes type htype
    obtain ⟨_, next, hnext⟩ := hcomes.ok hsounds hok
    obtain ⟨text, htext⟩ := target_of_emit hgroup hplain hvalue hnext
    exact exists_differs_iff hformed htext htype

/-- A list whose first element is a name: the scopes say that it is an array of strings. -/
theorem declared_literal_elements_name : ∃ program after here d nodes span,
    parse "s := \"a\"\nxs := [s, \"b\"]\n" "shell" = .ok program ∧ emitInto program .empty {} = (.ok (), after) ∧
      (Node.declaration d).Within (.program program) ∧ d.value = some (.array none .bare (some nodes) span) ∧
      (Emitter.atStart program .empty {}).ComesTo program.body here (.declaration d) ∧
      here.scopes.typeOf (.array none .bare (some nodes) span) = .ok (.array .string) ∧
      ((∃ node ∈ nodes, node.Differs .string) ↔
        (none : Option GoType) = none ∧ ∃ first rest, nodes = first :: rest ∧ first.ownType? = none ∧
          here.scopes.typeOf first = .ok .string ∧ ∃ node ∈ rest, node.Differs .string) := by
  have hprogram : ∃ program after here d nodes span,
      parse "s := \"a\"\nxs := [s, \"b\"]\n" "shell" = .ok program ∧ emitInto program .empty {} = (.ok (), after) ∧
        (Node.declaration d).Within (.program program) ∧ d.value = some (.array none .bare (some nodes) span) ∧
        (Emitter.atStart program .empty {}).ComesTo program.body here (.declaration d) ∧
        here.scopes.typeOf (.array none .bare (some nodes) span) = .ok (.array .string) :=
    ⟨_, _, _, _, _, _, by rfl, by rfl, .part (.tail _ (.head _)) (.self _), by rfl, ⟨_, [_], [], .self, by rfl⟩, by rfl⟩
  obtain ⟨program, after, here, d, nodes, span, hparse, h, within, hvalue, hcomes, htype⟩ := hprogram
  exact ⟨program, after, here, d, nodes, span, hparse, h, within, hvalue, hcomes, htype,
    (declared_literal_elements hparse h within hvalue).2 here hcomes _ htype⟩

/-- A number in an array of strings: the first element is a name, and the number is not compared with its type. -/
theorem number_among_strings : ∃ program after here d first span one,
    parse "s := \"a\"\nxs := [s, 1]\n" "shell" = .ok program ∧ emitInto program .empty {} = (.ok (), after) ∧
      after.contents = "let s: string = \"a\";\nlet xs: string[] = [s, 1];\n".toUTF8 ∧
      (Node.declaration d).Within (.program program) ∧
      d.value = some (.array none .bare (some [first, .integer 1 one]) span) ∧
      (Emitter.atStart program .empty {}).ComesTo program.body here (.declaration d) ∧
      here.scopes.typeOf (.array none .bare (some [first, .integer 1 one]) span) = .ok (.array .string) ∧
      (Node.integer 1 one).Differs .string :=
  ⟨_, _, _, _, _, _, _, by rfl, by rfl, by decide +kernel, .part (.tail _ (.head _)) (.self _), by rfl,
    ⟨_, [_], [], .self, by rfl⟩, by rfl, .int, by rfl, by decide⟩

end GoScript
