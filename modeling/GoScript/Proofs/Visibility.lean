import GoScript.Scope

/-!
# What is seen in a tree of scopes

From the current scope only the scopes around it are seen.  Binding a name changes the innermost of them, entering a
scope puts an empty one in front, and leaving it takes away that scope with all that was bound in it; whatever was
done inside, the scopes around it are as before.

* `ScopeTree.tables` — the scopes that are seen, each as a table of names
* `ScopeTree.Grows` — what can happen to the tree between entering a scope and leaving it
* `tables_declare`, `tables_enter`, `tables_leave` — what is seen after each step
-/

namespace GoScript

@[simp]
theorem Scope.get?_insert (scope : Scope) (binding : Binding) (name : String) :
    (scope.insert binding).get? name = if binding.name = name then some binding else scope.get? name := by
  unfold Scope.get? Scope.insert
  by_cases h : binding.name = name
  · simp [h]
  · simp only [List.find?_cons, beq_eq_false_iff_ne.mpr h, if_neg h, List.find?_filter]
    congr 1
    funext other
    by_cases hother : other.name = name
    · simp [hother, Ne.symm h]
    · simp [hother]

namespace ScopeTree

variable {tree before after inner : ScopeTree}

/-- The scopes that are seen, from the current one outwards, each as a table of names. -/
def tables (tree : ScopeTree) : List (String → Option Binding) :=
  tree.visible.map Scope.get?

theorem lookup_eq_tables (tree : ScopeTree) (name : String) : tree.lookup name = tree.tables.findSome? (· name) := by
  rw [tables, List.findSome?_map]
  rfl

/-! ### Walking outwards -/

/-- The walk outwards stays within the scopes up to where it starts, and any bound above that will do. -/
theorem outwards_eq (tree : ScopeTree) {scopes : Array Scope} {index m n : Nat}
    (hsame : ∀ i ≤ index, scopes[i]? = tree.scopes[i]?) (hm : index < m) (hn : index < n) :
    outwards scopes m index = outwards tree.scopes n index := by
  induction m generalizing n index with
  | zero => omega
  | succ m ih =>
    obtain ⟨n, rfl⟩ : ∃ k, n = k + 1 := ⟨n - 1, by omega⟩
    rw [outwards, outwards, hsame index (Nat.le_refl _)]
    cases hscope : tree.scopes[index]? with
    | none => rfl
    | some scope =>
      cases hparent : scope.parent with
      | none => simp only [hparent]
      | some parent =>
        have hlt := tree.parent_lt index scope parent hscope hparent
        simp only [hparent]
        rw [ih (n := n) (fun i hi => hsame i (by omega)) (by omega) (by omega)]

/-- The scopes around the current one. -/
def around (tree : ScopeTree) : List Scope :=
  match tree.currentScope.parent with
  | none => []
  | some parent => outwards tree.scopes tree.current parent

theorem visible_eq (tree : ScopeTree) : tree.visible = tree.currentScope :: tree.around := by
  rw [visible, outwards, tree.getElem?_current, around]
  cases hparent : tree.currentScope.parent with
  | none => simp only [hparent]
  | some parent => simp only [hparent]

/-! ### One step -/

/-- What may happen to a tree without leaving its current scope: names are bound in it, and new scopes are added. -/
structure Grows (before after : ScopeTree) : Prop where
  current : after.current = before.current
  size : before.scopes.size ≤ after.scopes.size
  others : ∀ index < before.scopes.size, index ≠ before.current → after.scopes[index]? = before.scopes[index]?
  parent : after.currentScope.parent = before.currentScope.parent

theorem Grows.refl (tree : ScopeTree) : tree.Grows tree :=
  ⟨rfl, Nat.le_refl _, fun _ _ _ => rfl, rfl⟩

theorem Grows.trans {first second third : ScopeTree} (h : first.Grows second) (h' : second.Grows third) :
    first.Grows third where
  current := h'.current.trans h.current
  size := Nat.le_trans h.size h'.size
  others index hindex hne := by
    rw [h'.others index (Nat.lt_of_lt_of_le hindex h.size) (h.current ▸ hne), h.others index hindex hne]
  parent := h'.parent.trans h.parent

theorem currentScope_declare (tree : ScopeTree) (binding : Binding) :
    (tree.declare binding).currentScope = tree.currentScope.insert binding := by
  apply Option.some.inj
  rw [← getElem?_current]
  show (tree.scopes.modify tree.current (·.insert binding))[tree.current]? = _
  rw [Array.getElem?_modify, if_pos rfl, tree.getElem?_current]
  rfl

theorem Grows.declare (tree : ScopeTree) (binding : Binding) : tree.Grows (tree.declare binding) where
  current := rfl
  size := by simp [ScopeTree.declare, declareAt]
  others index _ hne := by
    simp [ScopeTree.declare, declareAt, Array.getElem?_modify, Ne.symm hne]
  parent := by
    rw [currentScope_declare]
    rfl

/-- The scopes around the current one do not change while the tree grows. -/
theorem around_eq_of_grows (h : before.Grows after) : after.around = before.around := by
  unfold around
  rw [h.parent]
  cases hparent : before.currentScope.parent with
  | none => rfl
  | some parent =>
    have hlt := before.parent_lt _ _ _ before.getElem?_current hparent
    have hsize := before.current_lt
    refine outwards_eq before (fun i hi => h.others i (by omega) (by omega)) ?_ hlt
    rw [h.current]
    exact hlt

/-- **Binding a name** changes the innermost table at that name. -/
theorem tables_declare (tree : ScopeTree) (binding : Binding) :
    (tree.declare binding).tables =
      (fun name => if binding.name = name then some binding else tree.currentScope.get? name) ::
        tree.around.map Scope.get? := by
  rw [tables, visible_eq, around_eq_of_grows (.declare tree binding), currentScope_declare, List.map_cons]
  congr 1
  funext name
  exact Scope.get?_insert _ _ _

theorem currentScope_enter (tree : ScopeTree) : tree.enter.currentScope = ⟨[], some tree.current⟩ := by
  apply Option.some.inj
  rw [← getElem?_current]
  exact Array.getElem?_push_size

/-- **Entering a scope** puts an empty table in front. -/
theorem tables_enter (tree : ScopeTree) : tree.enter.tables = (fun _ => none) :: tree.tables := by
  have hsize := tree.current_lt
  have hvisible : tree.enter.around = tree.visible := by
    rw [around, currentScope_enter]
    refine outwards_eq tree (fun i hi => ?_) hsize (Nat.lt_succ_self _)
    show (tree.scopes.push _)[i]? = _
    rw [Array.getElem?_push, if_neg (by omega)]
  rw [tables, visible_eq, currentScope_enter, hvisible]
  rfl

theorem leave_of_parent {parent : Nat} (h : tree.currentScope.parent = some parent) :
    tree.leave.scopes = tree.scopes ∧ tree.leave.current = parent := by
  unfold leave
  split
  · next hnone =>
    rw [h] at hnone
    cases hnone
  · next other hother =>
    rw [h] at hother
    cases hother
    exact ⟨rfl, rfl⟩

/-- Leaving a scope that was entered leaves all scopes before it as they were. -/
theorem getElem?_leave (h : tree.enter.Grows inner) :
    inner.leave.current = tree.current ∧ tree.scopes.size ≤ inner.leave.scopes.size ∧
      ∀ index < tree.scopes.size, inner.leave.scopes[index]? = tree.scopes[index]? := by
  have hparent : inner.currentScope.parent = some tree.current := by rw [h.parent, currentScope_enter]
  obtain ⟨hscopes, hcurrent⟩ := leave_of_parent hparent
  have hsize : tree.enter.scopes.size = tree.scopes.size + 1 := Array.size_push _
  have hgrown := h.size
  refine ⟨hcurrent, by rw [hscopes]; omega, ?_⟩
  intro index hindex
  rw [hscopes, h.others index (by omega) (Nat.ne_of_lt hindex)]
  show (tree.scopes.push _)[index]? = _
  rw [Array.getElem?_push, if_neg (Nat.ne_of_lt hindex)]

theorem Grows.leave (h : tree.enter.Grows inner) : tree.Grows inner.leave := by
  obtain ⟨hcurrent, hsize, hsame⟩ := getElem?_leave h
  refine ⟨hcurrent, hsize, fun index hindex _ => hsame index hindex, ?_⟩
  have hscope : inner.leave.currentScope = tree.currentScope := by
    apply Option.some.inj
    rw [← getElem?_current, ← getElem?_current, hcurrent, hsame _ tree.current_lt]
  rw [hscope]

/-- **Leaving a scope** shows again what was seen before it was entered. -/
theorem tables_leave (h : tree.enter.Grows inner) : inner.leave.tables = tree.tables := by
  obtain ⟨hcurrent, _, hsame⟩ := getElem?_leave h
  have hlt := tree.current_lt
  unfold tables visible
  rw [hcurrent, outwards_eq tree (fun i hi => hsame i (by omega)) (Nat.lt_succ_self _) (Nat.lt_succ_self _)]

end ScopeTree

end GoScript
