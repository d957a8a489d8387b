import GoScript.Emit.Statement
import GoScript.Proofs.Formation

/-!
# Where names come from

Which names are visible at a place of a program, and what introduced each of them, told from the tree alone.  A block
sees what the blocks around it see.  In a block a statement sees what the statements before it introduce, a function
sees its own name too, and a function that is the value of a declared name goes by that name.  A program starts with the
builtins and the names of all its functions.

* `Origin`, `Origins` — what introduces a name, and the visible origins block by block
* `Origins.lookup` — the innermost origin of a name, and there the latest
* `Node.under` — the parts of a node, each with the origins that it sees
* `Node.Stands` — a node stands somewhere in a tree and sees certain origins there
* `Node.Within.stands` — every node of a tree stands somewhere in it
-/

namespace GoScript

/-- What introduces a name. -/
inductive Origin where
  | builtin (builtin : Builtin)
  | function (name : String)
  | parameter (parameter : Parameter)
  | declaration (declaration : Declaration)

/-- The name that is introduced. -/
def Origin.name : Origin → String
  | builtin b => b.name
  | function name => name
  | parameter p => p.name
  | declaration d => d.name

/-- The origins that are visible at a place: those in the blocks around it, the innermost block first, and in each
block the latest first. -/
abbrev Origins := List (List Origin)

namespace Origins

/-- The latest origin of a name in the innermost block that has one. -/
def lookup (origins : Origins) (name : String) : Option Origin :=
  origins.findSome? (·.find? (·.name == name))

/-- One more origin in the innermost block. -/
def bind (origins : Origins) (origin : Origin) : Origins :=
  match origins with
  | [] => [[origin]]
  | block :: outer => (origin :: block) :: outer

/-- More origins in the innermost block, one after the other. -/
def bindAll (origins : Origins) (list : List Origin) : Origins :=
  list.foldl bind origins

theorem bindAll_append (origins : Origins) (front back : List Origin) :
    origins.bindAll (front ++ back) = (origins.bindAll front).bindAll back :=
  List.foldl_append

end Origins

/-- What a statement introduces in the block it stands in. -/
def Node.introduced : Node → List Origin
  | .declaration ⟨_, _, _, _, _, some members, _⟩ => members.map .declaration
  | .declaration d => [.declaration d]
  | .function f => f.name.toList.map .function
  | _ => []

/-- The statements of a block, each with the origins that it sees.  A function sees its own name. -/
def Origins.inOrder (origins : Origins) : List Node → List (Origins × Node)
  | [] => []
  | node :: rest =>
    let after := origins.bindAll node.introduced
    (if node.isFunction then after else origins, node) :: after.inOrder rest

/-- The block that a program starts in: the builtins, and then all its functions. -/
def globalOrigins (program : Program) : List Origin :=
  (Builtin.table.map Origin.builtin ++ (program.body.filterMap Node.functionName?).map Origin.function).reverse

/-- The parts of a node, each with the origins that it sees, where the node itself sees `origins`. -/
def Node.under (origins : Origins) : Node → List (Origins × Node)
  | .program b => Origins.inOrder (globalOrigins b :: origins) b.body
  | .block b => Origins.inOrder ([] :: origins) b.body
  | .declaration ⟨_, _, _, _, value, some members, _⟩ =>
    value.toList.map (origins, ·) ++ origins.inOrder (members.map .declaration)
  | .declaration d =>
    d.value.toList.map fun value => (if value.isFunction then origins.bind (.declaration d) else origins, value)
  | .conditional condition consequence alternative _ =>
    (origins, condition) :: (Origins.inOrder ([] :: origins) consequence.body ++
      Origins.inOrder ([] :: origins) ((alternative.map Block.body).getD []))
  | .function f => Origins.inOrder ((f.parameters.map .parameter).reverse :: origins) f.body.body
  | node => node.parts.map (origins, ·)

theorem Origins.map_inOrder (origins : Origins) (nodes : List Node) : (origins.inOrder nodes).map Prod.snd = nodes := by
  induction nodes generalizing origins with
  | nil => rfl
  | cons node rest ih => rw [inOrder, List.map_cons, ih]

/-- The parts under a node are its parts. -/
theorem Node.map_under (origins : Origins) (node : Node) : (node.under origins).map Prod.snd = node.parts := by
  have hplain : ∀ nodes : List Node, (nodes.map (origins, ·)).map Prod.snd = nodes := by
    intro nodes
    rw [List.map_map]
    exact List.map_id _
  cases node with
  | program | block | function => exact Origins.map_inOrder _ _
  | declaration d =>
    obtain ⟨name, constant, explicit, inferred, value, group, span⟩ := d
    cases group with
    | none => cases value <;> rfl
    | some members =>
      simp only [under, parts, List.map_append, Origins.map_inOrder, hplain, Option.getD_some]
  | conditional condition consequence alternative span =>
    simp only [under, parts, List.map_cons, List.map_append, Origins.map_inOrder]
  | _ => exact hplain _

theorem Node.under_single {d : Declaration} (h : d.group = none) (origins : Origins) :
    (Node.declaration d).under origins =
      d.value.toList.map fun value => (if value.isFunction then origins.bind (.declaration d) else origins, value) := by
  obtain ⟨name, constant, explicit, inferred, value, group, span⟩ := d
  cases h
  rfl

/-- A statement of a block sees what the statements before it introduce. -/
theorem Origins.mem_inOrder {origins visible : Origins} {nodes : List Node} {node : Node}
    (h : (visible, node) ∈ origins.inOrder nodes) :
    ∃ before rest, nodes = before ++ node :: rest ∧
      visible = (origins.bindAll (before.flatMap Node.introduced)).bindAll
        (if node.isFunction then node.introduced else []) := by
  induction nodes generalizing origins with
  | nil => cases h
  | cons first others ih =>
    rw [inOrder] at h
    rcases List.mem_cons.mp h with h | h
    · obtain ⟨rfl, rfl⟩ := Prod.mk.inj h
      refine ⟨[], others, rfl, ?_⟩
      show _ = origins.bindAll _
      split
      · rfl
      · rfl
    · obtain ⟨before, rest, rfl, hvisible⟩ := ih h
      refine ⟨first :: before, rest, rfl, ?_⟩
      rw [hvisible, List.flatMap_cons, bindAll_append origins first.introduced]

/-- Where `outside` is visible around the tree `root`, the node stands somewhere in the tree and sees `origins`
there. -/
inductive Node.Stands : (outside : Origins) → (root : Node) → (origins : Origins) → (node : Node) → Prop
  | self (origins : Origins) (root : Node) : Node.Stands origins root origins root
  | part {outside inside origins : Origins} {root part node : Node} : (inside, part) ∈ root.under outside →
    Node.Stands inside part origins node → Node.Stands outside root origins node

/-- **Every node of a tree stands somewhere in it**, whatever is visible around the tree. -/
theorem Node.Within.stands {node root : Node} (within : node.Within root) (outside : Origins) :
    ∃ origins, Node.Stands outside root origins node := by
  induction within generalizing outside with
  | self => exact ⟨outside, .self outside _⟩
  | part mem _ ih =>
    rw [← Node.map_under outside, List.mem_map] at mem
    obtain ⟨⟨inside, _⟩, hmem, rfl⟩ := mem
    obtain ⟨origins, hstands⟩ := ih inside
    exact ⟨origins, .part hmem hstands⟩

/-- What stands in a tree is a node of it. -/
theorem Node.Stands.within {outside origins : Origins} {node root : Node} (h : Node.Stands outside root origins node) :
    node.Within root := by
  induction h with
  | self => exact .self _
  | part mem _ ih =>
    refine .part ?_ ih
    rw [← Node.map_under]
    exact List.mem_map_of_mem mem

end GoScript
