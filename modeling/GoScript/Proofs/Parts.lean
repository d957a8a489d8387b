import GoScript.Node.Basic

/-!
# Parts of a tree

A tree is a nest of nodes, blocks, declarations and functions.  Seen as nodes alone it is simpler: every node has a
list of nodes right under it, its parts.  The members of a group of declarations count as declarations of their own.

* `Node.parts` — the nodes right under a node
* `Node.partsInduction` — what passes from the parts to the whole holds of every node
* `Node.Within` — a node is the tree itself or lies somewhere in it
* `Node.StartsIn` — all nodes of a tree start at positions of some kind
* `Node.operands`, `Node.statements` — the parts of a node whose text it contains, and those emitted on lines of their
  own
-/

namespace GoScript

/-- The nodes right under a node, in the order of the source. -/
def Node.parts : Node → List Node
  | .program b | .block b => b.body
  | .declaration d => d.value.toList ++ (d.group.getD []).map .declaration
  | .assignment _ value _ => [value]
  | .returning value _ => value.toList
  | .expression e _ => [e]
  | .conditional condition consequence alternative _ =>
    condition :: (consequence.body ++ (alternative.map Block.body).getD [])
  | .unary _ operand _ => [operand]
  | .binary left _ right _ => [left, right]
  | .function f => f.body.body
  | .call _ arguments _ => arguments
  | .array _ _ elements _ => elements.getD []
  | .index collection position _ => [collection, position]
  | .identifier _ _ | .integer _ _ | .string _ _ | .boolean _ _ => []

theorem Block.sizeOf_lt_of_mem {node : Node} {block : Block} (h : node ∈ block.body) : sizeOf node < sizeOf block := by
  obtain ⟨body, span⟩ := block
  have := List.sizeOf_lt_of_mem (show node ∈ body from h)
  simp only [Block.mk.sizeOf_spec]
  omega

/-- A part is smaller than the whole. -/
theorem Node.sizeOf_lt_of_mem_parts {part node : Node} (h : part ∈ node.parts) : sizeOf part < sizeOf node := by
  cases node with
  | program block | block block =>
    have := Block.sizeOf_lt_of_mem h
    simp only [Node.program.sizeOf_spec, Node.block.sizeOf_spec]
    omega
  | declaration declaration =>
    obtain ⟨name, constant, explicit, inferred, value, group, span⟩ := declaration
    simp only [Node.parts, List.mem_append, Option.mem_toList, List.mem_map] at h
    rcases h with h | ⟨member, h, rfl⟩
    · subst h
      simp only [Node.declaration.sizeOf_spec, Declaration.mk.sizeOf_spec, Option.some.sizeOf_spec]
      omega
    · cases group with
      | none => simp at h
      | some members =>
        have := List.sizeOf_lt_of_mem (by simpa using h : member ∈ members)
        simp only [Node.declaration.sizeOf_spec, Declaration.mk.sizeOf_spec, Option.some.sizeOf_spec]
        omega
  | returning value span =>
    obtain rfl : value = some part := by simpa [Node.parts] using h
    simp only [Node.returning.sizeOf_spec, Option.some.sizeOf_spec]
    omega
  | conditional condition consequence alternative span =>
    simp only [Node.parts, List.mem_cons, List.mem_append] at h
    simp only [Node.conditional.sizeOf_spec]
    rcases h with rfl | h | h
    · omega
    · have := Block.sizeOf_lt_of_mem h
      omega
    · cases alternative with
      | none => simp at h
      | some block =>
        have := Block.sizeOf_lt_of_mem (by simpa using h : part ∈ block.body)
        simp only [Option.some.sizeOf_spec]
        omega
  | function function =>
    obtain ⟨name, parameters, returns, body, span⟩ := function
    have := Block.sizeOf_lt_of_mem (show part ∈ body.body from h)
    simp only [Node.function.sizeOf_spec, Function.mk.sizeOf_spec]
    omega
  | call callee arguments span =>
    have := List.sizeOf_lt_of_mem (show part ∈ arguments from h)
    simp only [Node.call.sizeOf_spec]
    omega
  | array element form elements span =>
    cases elements with
    | none => simp [Node.parts] at h
    | some nodes =>
      have := List.sizeOf_lt_of_mem (show part ∈ nodes from h)
      simp only [Node.array.sizeOf_spec, Option.some.sizeOf_spec]
      omega
  | assignment | expression | unary | binary | index =>
    simp only [Node.parts, List.mem_cons, List.not_mem_nil, or_false] at h
    rcases h with rfl | rfl <;> simp +arith
  | identifier | integer | string | boolean => simp [Node.parts] at h

/-- **Induction over parts.**  What holds of a node whenever it holds of its parts holds of every node. -/
theorem Node.partsInduction {motive : Node → Prop}
    (step : ∀ node, (∀ part ∈ node.parts, motive part) → motive node) (node : Node) : motive node := by
  induction h : sizeOf node using Nat.strongRecOn generalizing node with
  | _ size ih =>
    apply step
    intro part hpart
    exact ih (sizeOf part) (h ▸ Node.sizeOf_lt_of_mem_parts hpart) part rfl

/-- A node is the tree `root` itself or lies somewhere in it. -/
inductive Node.Within : Node → Node → Prop
  | self (root : Node) : Node.Within root root
  | part {node part root : Node} : part ∈ root.parts → Node.Within node part → Node.Within node root

theorem Node.Within.trans {node middle root : Node} (within : Node.Within node middle)
    (within' : Node.Within middle root) : Node.Within node root := by
  induction within' with
  | self => exact within
  | part mem _ ih => exact .part mem ih

/-- The parts of a node in the tree are in the tree. -/
theorem Node.Within.of_mem_parts {node part root : Node} (within : Node.Within node root) (mem : part ∈ node.parts) :
    Node.Within part root :=
  (Node.Within.part mem (.self part)).trans within

/-- What holds of all nodes of a tree holds of its root and of all nodes of its parts. -/
theorem Node.forall_within {P : Node → Prop} {root : Node} :
    (∀ node : Node, node.Within root → P node) ↔
      P root ∧ ∀ part ∈ root.parts, ∀ node : Node, node.Within part → P node := by
  constructor
  · intro h
    exact ⟨h root (.self root), fun part hpart node within => h node (.part hpart within)⟩
  · rintro ⟨hroot, hparts⟩ node within
    cases within with
    | self => exact hroot
    | part hpart within => exact hparts _ hpart node within

/-- Every node of the tree starts at a position of some kind. -/
def Node.StartsIn (P : Position → Prop) (root : Node) : Prop :=
  ∀ node : Node, node.Within root → P node.span.start

namespace Node.StartsIn

variable {P : Position → Prop} {root : Node}

theorem part {part : Node} (h : root.StartsIn P) (hmem : part ∈ root.parts) : part.StartsIn P :=
  fun node within => h node (.part hmem within)

theorem of_parts (hroot : P root.span.start) (hparts : ∀ part ∈ root.parts, part.StartsIn P) : root.StartsIn P :=
  Node.forall_within.2 ⟨hroot, hparts⟩

/-- A tree that starts where another one does. -/
theorem of_start {first : Node} (hfirst : first.StartsIn P) (hstart : root.span.start = first.span.start)
    (hparts : ∀ part ∈ root.parts, part.StartsIn P) : root.StartsIn P :=
  of_parts (hstart ▸ hfirst first (.self first)) hparts

end Node.StartsIn

/-! ### Operands and statements -/

namespace Node

/-- Whether a node is a statement. -/
def isStatement : Node → Bool
  | declaration _ | assignment _ _ _ | returning _ _ | expression _ _ | conditional _ _ _ _ | function _ => true
  | _ => false

/-- Whether a node is a function. -/
def isFunction : Node → Bool
  | function _ => true
  | _ => false

/-- The expressions right under a node whose text becomes part of its own.  A function that is the value of a declared
name is none of them: it is emitted as a statement. -/
def operands : Node → List Node
  | declaration d => d.value.toList.filter (!·.isFunction)
  | assignment _ value _ => [value]
  | returning value _ => value.toList
  | expression e _ => [e]
  | conditional condition _ _ _ => [condition]
  | unary _ operand _ => [operand]
  | binary left _ right _ => [left, right]
  | call _ arguments _ => arguments
  | array _ _ elements _ => elements.getD []
  | index collection position _ => [collection, position]
  | _ => []

/-- The statements right under a node. -/
def statements : Node → List Node
  | program b | block b => b.body
  | conditional _ consequence alternative _ => consequence.body ++ (alternative.map Block.body).getD []
  | function f => f.body.body
  | _ => []

theorem mem_parts_of_mem_operands {node operand : Node} (h : operand ∈ node.operands) : operand ∈ node.parts := by
  cases node with
  | declaration d => exact List.mem_append_left _ (List.mem_filter.mp h).1
  | conditional condition consequence alternative span => exact List.mem_cons.mpr (.inl (List.mem_singleton.mp h))
  | program | block | function | identifier | integer | string | boolean => cases h
  | _ => exact h

theorem mem_parts_of_mem_statements {node statement : Node} (h : statement ∈ node.statements) :
    statement ∈ node.parts := by
  cases node with
  | program | block | function => exact h
  | conditional condition consequence alternative span => exact List.mem_cons_of_mem _ h
  | _ => cases h

end Node

end GoScript
