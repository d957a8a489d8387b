import GoScript.Proofs.Visibility

/-!
# Scopes as a stack of tables

Scopes that have been left stay in their tree, and new ones are put behind them, so the scopes that are seen stand
anywhere between others that are not.  Nothing of that shows.  Whatever is done to a new tree of scopes, it answers
like a stack of tables: entering a scope puts an empty table on top, leaving it takes the top away, a name is bound in
the table on top or in the one at the bottom, and it is looked up from the top downwards.

* `Tables` — the stack of tables, with `push`, `pop`, `define`, `defineGlobal` and `lookup`
* `ScopeStep`, `ScopeTree.run`, `Tables.run` — what can be done, to the tree and to the stack
* `ScopeTree.Rooted` — the global scope is the only one without a scope around it
* `tables_apply`, `tables_run` — one step and any number of steps do the same to the tree and to the stack
* `scopes_stack` — the tree after any steps is well linked and answers like the stack
-/

namespace GoScript

/-! ### The stack -/

/-- Tables of names, the one on top first.  The one at the bottom is that of the global scope. -/
abbrev Tables := List (String → Option Binding)

namespace Tables

/-- The table at the bottom alone, with nothing in it. -/
def empty : Tables :=
  [fun _ => none]

/-- A table with one more binding, which takes the place of an earlier one of the same name. -/
def bind (binding : Binding) (table : String → Option Binding) : String → Option Binding :=
  fun name => if binding.name = name then some binding else table name

/-- An empty table on top of the others. -/
def push (tables : Tables) : Tables :=
  (fun _ => none) :: tables

/-- The tables without the one on top, unless that is the only one. -/
def pop : Tables → Tables
  | _ :: next :: rest => next :: rest
  | tables => tables

/-- A name bound in the table on top. -/
def define (binding : Binding) : Tables → Tables
  | [] => []
  | top :: rest => bind binding top :: rest

/-- A name bound in the table at the bottom. -/
def defineGlobal (binding : Binding) : Tables → Tables
  | [] => []
  | [bottom] => [bind binding bottom]
  | top :: next :: rest => top :: defineGlobal binding (next :: rest)

/-- The binding of a name in the topmost table that has one. -/
def lookup (tables : Tables) (name : String) : Option Binding :=
  tables.findSome? (· name)

/-- Above the bottom a table stays as it is. -/
theorem defineGlobal_cons {rest : Tables} (h : rest ≠ []) (binding : Binding) (top : String → Option Binding) :
    defineGlobal binding (top :: rest) = top :: defineGlobal binding rest := by
  obtain ⟨next, others, rfl⟩ := List.exists_cons_of_ne_nil h
  rfl

end Tables

/-! ### Steps -/

/-- Something that is done to scopes. -/
inductive ScopeStep where
  | enter
  | leave
  | declare (binding : Binding)
  | declareGlobal (binding : Binding)

/-- The scopes after one step. -/
def ScopeTree.apply (tree : ScopeTree) : ScopeStep → ScopeTree
  | .enter => tree.enter
  | .leave => tree.leave
  | .declare binding => tree.declare binding
  | .declareGlobal binding => tree.declareGlobal binding

/-- The stack after one step. -/
def Tables.apply (tables : Tables) : ScopeStep → Tables
  | .enter => tables.push
  | .leave => tables.pop
  | .declare binding => tables.define binding
  | .declareGlobal binding => tables.defineGlobal binding

/-- The scopes after some steps. -/
def ScopeTree.run (tree : ScopeTree) (steps : List ScopeStep) : ScopeTree :=
  steps.foldl ScopeTree.apply tree

/-- The stack after some steps. -/
def Tables.run (tables : Tables) (steps : List ScopeStep) : Tables :=
  steps.foldl Tables.apply tables

namespace ScopeTree

variable {tree : ScopeTree}

/-! ### Links between scopes -/

/-- The index of the scope around another one. -/
def parent? (tree : ScopeTree) (index : Nat) : Option Nat :=
  tree.scopes[index]?.bind Scope.parent

/-- The walk outwards from a scope comes past another one. -/
inductive Walk (tree : ScopeTree) : Nat → Nat → Prop
  | here (index : Nat) : Walk tree index index
  | step {index parent last : Nat} : tree.parent? index = some parent → Walk tree parent last → Walk tree index last

/-- Every scope but the global one has a scope around it. -/
def Rooted (tree : ScopeTree) : Prop :=
  ∀ index < tree.scopes.size, tree.parent? index = none → index = globalIndex

theorem parent?_lt {index parent : Nat} (h : tree.parent? index = some parent) : parent < index := by
  obtain ⟨scope, hscope, hparent⟩ := Option.bind_eq_some_iff.1 h
  exact tree.parent_lt index scope parent hscope hparent

theorem parent?_global (tree : ScopeTree) : tree.parent? globalIndex = none := by
  cases h : tree.parent? globalIndex with
  | none => rfl
  | some parent => exact absurd (parent?_lt h) (Nat.not_lt_zero parent)

/-- **Every walk ends at the global scope.** -/
theorem Rooted.walk (h : tree.Rooted) {index : Nat} (hindex : index < tree.scopes.size) :
    tree.Walk index globalIndex := by
  induction index using Nat.strongRecOn with
  | ind index ih =>
    cases hparent : tree.parent? index with
    | none =>
      rw [h index hindex hparent]
      exact .here globalIndex
    | some parent =>
      have hlt := parent?_lt hparent
      exact .step hparent (ih parent hlt (Nat.lt_trans hlt hindex))

theorem Walk.le {index last : Nat} (h : tree.Walk index last) : last ≤ index := by
  induction h with
  | here => exact Nat.le_refl _
  | step hparent _ ih => exact Nat.le_trans ih (Nat.le_of_lt (parent?_lt hparent))

/-! ### Steps keep the links -/

theorem rooted_empty : Rooted empty := by
  intro index hindex _
  exact Nat.lt_one_iff.1 hindex

theorem Rooted.enter (h : tree.Rooted) : tree.enter.Rooted := by
  intro index hindex hnone
  have hscope : tree.enter.scopes[index]? =
      if index = tree.scopes.size then some ⟨[], some tree.current⟩ else tree.scopes[index]? := Array.getElem?_push
  by_cases hlast : index = tree.scopes.size
  · rw [parent?, hscope, if_pos hlast] at hnone
    cases hnone
  · rw [parent?, hscope, if_neg hlast] at hnone
    have hsize : tree.enter.scopes.size = tree.scopes.size + 1 := Array.size_push _
    exact h index (by omega) hnone

theorem scopes_leave (tree : ScopeTree) : tree.leave.scopes = tree.scopes := by
  unfold leave
  split
  · rfl
  · rfl

theorem Rooted.leave (h : tree.Rooted) : tree.leave.Rooted := by
  intro index hindex hnone
  rw [parent?, scopes_leave] at hnone
  rw [scopes_leave] at hindex
  exact h index hindex hnone

/-- Binding a name somewhere does not change what is around what. -/
theorem parent?_declareAt (tree : ScopeTree) (place : Nat) (binding : Binding) (index : Nat) :
    (tree.declareAt place binding).parent? index = tree.parent? index := by
  show ((tree.scopes.modify place (·.insert binding))[index]?).bind Scope.parent = _
  rw [Array.getElem?_modify]
  split
  · cases htree : tree.scopes[index]? <;> simp [parent?, htree, Scope.insert]
  · rfl

theorem Rooted.declareAt (h : tree.Rooted) (place : Nat) (binding : Binding) :
    (tree.declareAt place binding).Rooted := by
  intro index hindex hnone
  rw [parent?_declareAt] at hnone
  have hsize : (tree.declareAt place binding).scopes.size = tree.scopes.size := Array.size_modify
  exact h index (hsize ▸ hindex) hnone

theorem Rooted.apply (h : tree.Rooted) (step : ScopeStep) : (tree.apply step).Rooted := by
  cases step with
  | enter => exact h.enter
  | leave => exact h.leave
  | declare binding => exact h.declareAt tree.current binding
  | declareGlobal binding => exact h.declareAt globalIndex binding

/-! ### What is seen after a step -/

theorem tables_eq (tree : ScopeTree) : tree.tables = tree.currentScope.get? :: tree.around.map Scope.get? := by
  rw [tables, visible_eq, List.map_cons]

/-- Leaving a scope, whatever was done before, takes the top away unless the scope is the global one. -/
theorem tables_leave_eq_pop (tree : ScopeTree) : tree.leave.tables = Tables.pop tree.tables := by
  cases hparent : tree.currentScope.parent with
  | none =>
    have hstay : tree.leave = tree := by
      unfold leave
      split
      · rfl
      · next parent hsome =>
        rw [hparent] at hsome
        cases hsome
    have haround : tree.around = [] := by rw [around, hparent]
    rw [hstay, tables_eq, haround]
    rfl
  | some parent =>
    obtain ⟨hscopes, hcurrent⟩ := leave_of_parent hparent
    have hlt := tree.parent_lt _ _ _ tree.getElem?_current hparent
    have haround : tree.around = tree.leave.visible := by
      rw [around, hparent, visible, hscopes, hcurrent]
      exact outwards_eq tree (fun _ _ => rfl) hlt (Nat.lt_succ_self parent)
    -- the scopes around the current one are all that is left, and there is one at least
    rw [tables_eq tree, haround]
    show tree.leave.tables = Tables.pop (tree.currentScope.get? :: tree.leave.tables)
    rw [tables_eq tree.leave]
    rfl

theorem outwards_ne_nil {scopes : Array Scope} {bound index : Nat} (hbound : index < bound)
    (hindex : index < scopes.size) : outwards scopes bound index ≠ [] := by
  obtain ⟨bound, rfl⟩ : ∃ k, bound = k + 1 := ⟨bound - 1, by omega⟩
  rw [outwards, Array.getElem?_eq_getElem hindex]
  cases hparent : scopes[index].parent with
  | none => simp [hparent]
  | some parent => simp [hparent]

/-- On the way outwards, a global binding is met at the very end. -/
theorem outwards_declareGlobal (h : tree.Rooted) (binding : Binding) {bound index : Nat} (hbound : index < bound)
    (hindex : index < tree.scopes.size) :
    (outwards (tree.declareGlobal binding).scopes bound index).map Scope.get? =
      Tables.defineGlobal binding ((outwards tree.scopes bound index).map Scope.get?) := by
  induction bound generalizing index with
  | zero => omega
  | succ bound ih =>
    have hscope : tree.scopes[index]? = some tree.scopes[index] := Array.getElem?_eq_getElem hindex
    have hmodified : (tree.declareGlobal binding).scopes[index]? =
        if globalIndex = index then tree.scopes[index]?.map (·.insert binding) else tree.scopes[index]? :=
      Array.getElem?_modify
    rw [outwards, outwards, hmodified, hscope]
    cases hparent : tree.scopes[index].parent with
    | none =>
      have hglobal : index = globalIndex := h index hindex (by rw [parent?, hscope, Option.bind_some, hparent])
      have hparent' : (tree.scopes[index].insert binding).parent = none := hparent
      simp only [if_pos hglobal.symm, Option.map_some, hparent', hparent, List.map_cons, List.map_nil,
        Tables.defineGlobal]
      congr 1
      funext name
      exact Scope.get?_insert _ _ _
    | some parent =>
      have hlt := tree.parent_lt index _ parent hscope hparent
      have hinner : globalIndex ≠ index := by
        rintro rfl
        exact Nat.not_lt_zero parent hlt
      simp only [if_neg hinner, hparent, List.map_cons]
      rw [ih (by omega) (by omega), Tables.defineGlobal_cons]
      simpa using outwards_ne_nil (by omega : parent < bound) (by omega)

theorem tables_declareGlobal (h : tree.Rooted) (binding : Binding) :
    (tree.declareGlobal binding).tables = Tables.defineGlobal binding tree.tables :=
  outwards_declareGlobal h binding (Nat.lt_succ_self _) tree.current_lt

/-- **One step** does to the tables that are seen what it does to the stack. -/
theorem tables_apply (h : tree.Rooted) (step : ScopeStep) :
    (tree.apply step).tables = Tables.apply tree.tables step := by
  cases step with
  | enter => exact tables_enter tree
  | leave => exact tables_leave_eq_pop tree
  | declare binding =>
    show (tree.declare binding).tables = Tables.define binding tree.tables
    rw [tables_declare, tables_eq]
    rfl
  | declareGlobal binding => exact tables_declareGlobal h binding

/-- **Any number of steps.**  The links are kept, and the tables that are seen are the stack. -/
theorem tables_run (h : tree.Rooted) (steps : List ScopeStep) :
    (tree.run steps).Rooted ∧ (tree.run steps).tables = Tables.run tree.tables steps := by
  induction steps generalizing tree with
  | nil => exact ⟨h, rfl⟩
  | cons step rest ih =>
    have hrest := ih (h.apply step)
    rw [tables_apply h] at hrest
    exact hrest

end ScopeTree

/-- **The tree of scopes is a stack of tables.**  After any steps from a new tree on, the current index is that of a
scope, every scope but the global one has a scope with a smaller index around it, and every walk outwards can be
continued up to the global scope and ends nowhere else.  Every name is bound to what the stack says, and as many scopes
are seen as there are tables. -/
theorem scopes_stack (steps : List ScopeStep) :
    let tree := ScopeTree.empty.run steps
    let stack := Tables.empty.run steps
    tree.current < tree.scopes.size ∧
      (∀ index < tree.scopes.size, index ≠ ScopeTree.globalIndex →
        ∃ parent < index, tree.parent? index = some parent) ∧
      (∀ index < tree.scopes.size, ∀ last, tree.Walk index last →
        tree.Walk last ScopeTree.globalIndex ∧ (tree.parent? last = none ↔ last = ScopeTree.globalIndex)) ∧
      (∀ name, tree.lookup name = stack.lookup name) ∧ tree.depth = stack.length := by
  intro tree stack
  obtain ⟨hrooted, htables⟩ := ScopeTree.tables_run ScopeTree.rooted_empty steps
  have hstack : tree.tables = stack := htables
  refine ⟨tree.current_lt, ?_, ?_, ?_, ?_⟩
  · intro index hindex hne
    cases hparent : tree.parent? index with
    | none => exact absurd (hrooted index hindex hparent) hne
    | some parent => exact ⟨parent, ScopeTree.parent?_lt hparent, rfl⟩
  · intro index hindex last hwalk
    have hlast : last < tree.scopes.size := Nat.lt_of_le_of_lt hwalk.le hindex
    refine ⟨hrooted.walk hlast, hrooted last hlast, ?_⟩
    rintro rfl
    exact tree.parent?_global
  · intro name
    rw [ScopeTree.lookup_eq_tables, hstack]
    rfl
  · rw [← hstack, ScopeTree.tables, List.length_map]
    rfl

theorem scopes_stack_sibling :
    let tree := ScopeTree.empty.run [.declare ⟨"x", .int, .mutable⟩, .enter, .declare ⟨"x", .string, .constant⟩, .leave,
      .enter, .declareGlobal ⟨"y", .bool, .mutable⟩]
    tree.scopes.size = 3 ∧ (∃ parent < 2, tree.parent? 2 = some parent) ∧ tree.Walk 2 ScopeTree.globalIndex ∧
      tree.lookup "x" = some ⟨"x", .int, .mutable⟩ ∧ tree.lookup "y" = some ⟨"y", .bool, .mutable⟩ ∧
      tree.depth = 2 := by
  intro tree
  have hsize : tree.scopes.size = 3 := rfl
  obtain ⟨-, hparent, hwalk, hlookup, hdepth⟩ := scopes_stack [.declare ⟨"x", .int, .mutable⟩, .enter,
    .declare ⟨"x", .string, .constant⟩, .leave, .enter, .declareGlobal ⟨"y", .bool, .mutable⟩]
  exact ⟨hsize, hparent 2 (by decide) (by decide), (hwalk 2 (by decide) 2 (.here 2)).1, hlookup "x", hlookup "y",
    hdepth⟩

end GoScript
