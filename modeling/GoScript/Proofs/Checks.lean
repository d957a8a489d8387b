import GoScript.Grammar.StatementRules
import GoScript.Proofs.Parts

/-!
# Checks

Some rules of the grammar need no token: how many elements an array literal may have and of which type, what a
declaration has to have, and that every parameter has a type.  This file says what the checks let through and what they
complain about.

* `arrayNode_eq_ok`, `arrayNode_eq_error` — array literals
* `declarationOf_eq_ok`, `declarationOf_eq_error` — declarations
* `requireTyped_eq_ok`, `requireTyped_eq_error` — parameters
-/

namespace GoScript.Grammar

/-! ### Array literals -/

theorem length_le_of_overflow? {element : GoType} {count : Nat} {nodes : List Node} {start : Position}
    (h : overflow? element (.sized count) nodes start = none) : nodes.length ≤ count := by
  unfold overflow? at h
  split at h
  · next hform =>
    cases hform
    split at h
    · cases h
    · omega
  · next hform => exact absurd rfl (hform count)

/-- Anything but a function is a stray element if its type is known and another one. -/
theorem strayType?_eq (type : GoType) {node : Node} (hfunction : node.isFunction = false) :
    strayType? type node = node.ownType?.filter (· != type) := by
  cases node with
  | function => cases hfunction
  | _ => rfl

theorem ownType?_of_stray? {type : GoType} {nodes : List Node} (h : stray? type nodes = none) {node : Node}
    (hnode : node ∈ nodes) (hfunction : node.isFunction = false) {type' : GoType} (htype : node.ownType? = some type') :
    type' = type := by
  have hstray := List.findSome?_eq_none_iff.mp h node hnode
  rw [strayType?_eq type hfunction, htype] at hstray
  simpa [Option.filter] using hstray

theorem arrayNode_eq_ok {element : Option GoType} {form : ArrayForm} {elements : Option (List Node)} {span : Span}
    {node : Node} (h : arrayNode element form elements span = .ok node) :
    node = .array element form elements span ∧ ∀ type nodes, element = some type → elements = some nodes →
      overflow? type form nodes span.start = none ∧ stray? type nodes = none := by
  rcases element with _ | type
  · cases h
    exact ⟨rfl, by rintro _ _ ⟨⟩⟩
  rcases elements with _ | nodes
  · cases h
    exact ⟨rfl, by rintro _ _ _ ⟨⟩⟩
  rw [arrayNode] at h
  cases hfault : (overflow? type form nodes span.start).or (stray? type nodes) with
  | some error =>
    simp only [hfault] at h
    cases h
  | none =>
    simp only [hfault] at h
    cases h
    refine ⟨rfl, ?_⟩
    rintro _ _ ⟨⟩ ⟨⟩
    exact Option.or_eq_none_iff.mp hfault

theorem overflow?_eq_some {element : GoType} {form : ArrayForm} {nodes : List Node} {start : Position} {error : Error}
    (h : overflow? element form nodes start = some error) : ∃ message, error = ⟨.badArrayLiteral message, start⟩ := by
  unfold overflow? at h
  split at h
  · split at h
    · cases h
      exact ⟨_, rfl⟩
    · cases h
  · cases h

theorem stray?_eq_some {element : GoType} {nodes : List Node} {error : Error} (h : stray? element nodes = some error) :
    ∃ node ∈ nodes, ∃ expected received, error = ⟨.typeMismatch expected received, node.span.start⟩ := by
  obtain ⟨node, hnode, hstray⟩ := List.exists_of_findSome?_eq_some h
  obtain ⟨received, -, rfl⟩ := Option.map_eq_some_iff.1 hstray
  exact ⟨node, hnode, _, _, rfl⟩

/-- An array literal is rejected for itself or for one of its elements. -/
theorem arrayNode_eq_error {element : Option GoType} {form : ArrayForm} {elements : Option (List Node)} {span : Span}
    {error : Error} (h : arrayNode element form elements span = .error error) :
    (∃ message, error = ⟨.badArrayLiteral message, span.start⟩) ∨
      ∃ node ∈ elements.getD [], ∃ expected received, error = ⟨.typeMismatch expected received, node.span.start⟩ := by
  cases element with
  | none => cases h
  | some type =>
    cases elements with
    | none => cases h
    | some nodes =>
      rw [arrayNode] at h
      cases hfault : (overflow? type form nodes span.start).or (stray? type nodes) with
      | none =>
        simp only [hfault] at h
        cases h
      | some fault =>
        simp only [hfault] at h
        cases h
        cases Option.or_eq_some_iff.1 hfault with
        | inl hoverflow => exact .inl (overflow?_eq_some hoverflow)
        | inr hstray => exact .inr (stray?_eq_some hstray.2)

/-- A list is an array literal, and it is not empty. -/
theorem listNode_eq_ok {nodes : List Node} {span : Span} {node : Node} (h : listNode nodes span = .ok node) :
    ∃ first rest, nodes = first :: rest ∧ arrayNode first.ownType? .bare (some nodes) span = .ok node := by
  cases nodes with
  | nil => cases h
  | cons first rest => exact ⟨first, rest, rfl, h⟩

/-- A list is rejected like an array literal, or for having no elements. -/
theorem listNode_eq_error {nodes : List Node} {span : Span} {error : Error} (h : listNode nodes span = .error error) :
    (∃ message, error = ⟨.badArrayLiteral message, span.start⟩) ∨
      ∃ node ∈ nodes, ∃ expected received, error = ⟨.typeMismatch expected received, node.span.start⟩ := by
  cases nodes with
  | nil =>
    cases h
    exact .inl ⟨_, rfl⟩
  | cons first rest => exact arrayNode_eq_error h

/-! ### Declarations -/

theorem constantFault?_eq_none {type : Option GoType} {value : Option Node} (h : constantFault? type value = none) :
    (∀ type', type = some type' → type'.isArray = false) ∧ ∃ node, value = some node ∧
      (∀ callee arguments span, node ≠ .call callee arguments span) ∧
      ∀ collection position span, node ≠ .index collection position span := by
  unfold constantFault? at h
  split at h
  · cases h
  · next harray =>
    refine ⟨?_, ?_⟩
    · rintro type' rfl
      simpa using harray
    · split at h
      · cases h
      · cases h
      · cases h
      · next node hcall hindex =>
        refine ⟨node, rfl, ?_, ?_⟩
        · rintro callee arguments span rfl
          exact hcall callee arguments span rfl
        · rintro collection position span rfl
          exact hindex collection position span rfl

theorem declarationOf_eq_ok {name : Token} {constant : Bool} {explicit : Option GoType} {written : Option Node}
    {span : Span} {declaration : Declaration}
    (h : declarationOf name constant explicit written span = .ok declaration) :
    ∃ value inferred, valueAndType name.value written = (value, inferred) ∧
      declaration = ⟨name.value, constant, explicit, inferred, value, none, span⟩ ∧
      (constant = true → constantFault? (explicit.or inferred) value = none) ∧
      (value.isSome ∨ explicit.isSome ∨ inferred.isSome) := by
  unfold declarationOf at h
  cases hvalue : valueAndType name.value written with
  | mk value inferred =>
    simp only [hvalue] at h
    cases constant with
    | true =>
      cases hfault : constantFault? (explicit.or inferred) value with
      | some fault => simp [hfault] at h
      | none =>
        obtain ⟨_, node, rfl, _⟩ := constantFault?_eq_none hfault
        simp only [hfault, if_true, Option.map_none, Except.ok.injEq] at h
        exact ⟨some node, inferred, rfl, h.symm, fun _ => hfault, .inl rfl⟩
    | false =>
      by_cases hempty : value.isNone && explicit.isNone && inferred.isNone
      · simp [hempty] at h
      · simp only [hempty, Bool.false_eq_true, if_false, Except.ok.injEq] at h
        refine ⟨value, inferred, rfl, h.symm, by simp, ?_⟩
        cases value <;> cases explicit <;> cases inferred <;> simp_all

theorem declarationOf_eq_error {name : Token} {constant : Bool} {explicit : Option GoType} {written : Option Node}
    {span : Span} {error : Error} (h : declarationOf name constant explicit written span = .error error) :
    (∃ message, error = ⟨.constantMisuse name.value message, name.span.start⟩) ∨
      error = ⟨.emptyDeclaration name.value, name.span.start⟩ := by
  unfold declarationOf at h
  dsimp only at h
  split at h
  · next cause hcause =>
    cases h
    split at hcause
    · obtain ⟨message, -, rfl⟩ := Option.map_eq_some_iff.1 hcause
      exact .inl ⟨message, rfl⟩
    · split at hcause
      · cases hcause
        exact .inr rfl
      · cases hcause
  · cases h

/-! ### Parameters -/

theorem requireTyped_eq_error {pending : List Token} {error : Error} (h : requireTyped pending = .error error) :
    ∃ name ∈ pending, error = ⟨.untypedParameter name.value, name.span.start⟩ := by
  cases pending with
  | nil => cases h
  | cons name rest =>
    cases h
    exact ⟨name, List.mem_cons_self, rfl⟩

theorem requireTyped_eq_ok {pending : List Token} (h : requireTyped pending = .ok ()) : pending = [] := by
  cases pending with
  | nil => rfl
  | cons => cases h

end GoScript.Grammar
