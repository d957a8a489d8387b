import GoScript.GoType

/-!
# Scopes

The scopes of a program form a tree, whose root is the global one.  They are kept in the order in which they were
entered, each with the index of the scope around it.  A scope that has been left stays in its place, but is not seen
from anywhere any more.

* `Binding` — what a name stands for
* `Scope`, `ScopeTree` — the bindings of one block, and all scopes together with the one that is current
* `ScopeTree.enter`, `ScopeTree.leave`, `ScopeTree.declare`, `ScopeTree.declareGlobal` — moving around and binding names
* `ScopeTree.visible`, `ScopeTree.lookup` — the scopes that are seen from the current one, and the innermost binding of
  a name in them
-/

namespace GoScript

/-- What a name was introduced as. -/
inductive BindingKind where
  | mutable
  | constant
  | parameter
  | function
  | builtin
deriving DecidableEq, Inhabited

/-- A name with its type.  For a function that is the type of what it returns. -/
structure Binding where
  name : String
  type : GoType
  kind : BindingKind
deriving DecidableEq, Inhabited

/-- Whether a name cannot be assigned to. -/
def Binding.isConstant (binding : Binding) : Bool :=
  binding.kind == .constant

/-- The bindings of one block, the latest first, and the index of the scope around it. -/
structure Scope where
  bindings : List Binding
  parent : Option Nat
deriving DecidableEq, Inhabited

namespace Scope

/-- The binding of a name. -/
def get? (scope : Scope) (name : String) : Option Binding :=
  scope.bindings.find? (·.name == name)

/-- The scope with one more binding, which takes the place of an earlier one of the same name. -/
def insert (scope : Scope) (binding : Binding) : Scope :=
  { scope with bindings := binding :: scope.bindings.filter (·.name != binding.name) }

end Scope

/-- All scopes that were ever entered, and the index of the current one.  A scope is entered from one that was there
before, so its parent has a smaller index. -/
structure ScopeTree where
  scopes : Array Scope
  current : Nat
  current_lt : current < scopes.size
  parent_lt : ∀ (index : Nat) (scope : Scope) (parent : Nat),
    scopes[index]? = some scope → scope.parent = some parent → parent < index

namespace ScopeTree

/-- The index of the global scope. -/
def globalIndex : Nat := 0

/-- The global scope alone, without bindings. -/
def empty : ScopeTree where
  scopes := #[⟨[], none⟩]
  current := globalIndex
  current_lt := Nat.zero_lt_one
  parent_lt := by
    intro index scope parent found hasParent
    rw [Array.getElem?_eq_some_iff] at found
    obtain ⟨bound, rfl⟩ := found
    obtain rfl : index = 0 := by simp at bound; omega
    simp at hasParent

/-- Enters a new scope inside the current one.  Its index is the number of scopes before it. -/
def enter (tree : ScopeTree) : ScopeTree where
  scopes := tree.scopes.push ⟨[], some tree.current⟩
  current := tree.scopes.size
  current_lt := by simp
  parent_lt := by
    intro index scope parent found hasParent
    rw [Array.getElem?_push] at found
    split at found
    · next last =>
      subst last
      cases found
      cases hasParent
      exact tree.current_lt
    · exact tree.parent_lt index scope parent found hasParent

/-- The scope that is current. -/
def currentScope (tree : ScopeTree) : Scope :=
  have := tree.current_lt
  tree.scopes[tree.current]

theorem getElem?_current (tree : ScopeTree) : tree.scopes[tree.current]? = some tree.currentScope :=
  Array.getElem?_eq_getElem tree.current_lt

/-- Returns to the scope around the current one.  The global one is never left. -/
def leave (tree : ScopeTree) : ScopeTree :=
  match found : tree.currentScope.parent with
  | none => tree
  | some parent =>
    { tree with
      current := parent
      current_lt := Nat.lt_trans (tree.parent_lt _ _ _ tree.getElem?_current found) tree.current_lt }

/-- Binds a name in the scope with some index. -/
def declareAt (tree : ScopeTree) (index : Nat) (binding : Binding) : ScopeTree where
  scopes := tree.scopes.modify index (·.insert binding)
  current := tree.current
  current_lt := by simpa using tree.current_lt
  parent_lt := by
    intro other scope parent found hasParent
    rw [Array.getElem?_modify] at found
    split at found
    · next same =>
      obtain ⟨before, foundBefore, rfl⟩ := Option.map_eq_some_iff.1 found
      exact tree.parent_lt other before parent (same ▸ foundBefore) hasParent
    · exact tree.parent_lt other scope parent found hasParent

/-- Binds a name in the current scope. -/
def declare (tree : ScopeTree) (binding : Binding) : ScopeTree :=
  tree.declareAt tree.current binding

/-- Binds a name in the global scope. -/
def declareGlobal (tree : ScopeTree) (binding : Binding) : ScopeTree :=
  tree.declareAt globalIndex binding

/-- The scopes from the one with some index outwards, at most `bound` of them. -/
def outwards (scopes : Array Scope) : (bound index : Nat) → List Scope
  | 0, _ => []
  | bound + 1, index =>
    match scopes[index]? with
    | none => []
    | some scope =>
      match scope.parent with
      | none => [scope]
      | some parent => scope :: outwards scopes bound parent

/-- The scopes that are seen, from the current one outwards.  Indexes fall along the way, so there are no more of them
than the index of the current one allows. -/
def visible (tree : ScopeTree) : List Scope :=
  outwards tree.scopes (tree.current + 1) tree.current

/-- The number of scopes that are seen. -/
def depth (tree : ScopeTree) : Nat :=
  tree.visible.length

/-- The innermost binding of a name that is seen. -/
def lookup (tree : ScopeTree) (name : String) : Option Binding :=
  tree.visible.findSome? (·.get? name)

end ScopeTree

end GoScript
