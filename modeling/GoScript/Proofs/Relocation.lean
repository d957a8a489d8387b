import GoScript.Grammar.Loop
import GoScript.Node.Source
import GoScript.Proofs.Parts

/-!
# Moving positions

Positions say where something stood and nothing else.  This file makes that precise: a map of positions acts on
everything that carries one, and whatever is read off a tree apart from its spans stays the same under it.

* `Relocatable` — the types on which a map of positions acts; `relocate id` changes nothing
* `Node.relocate` — the action on trees, one case per constructor
* `Node.ownType?_relocate`, `Node.source_relocate`, … — what does not depend on the spans
* `Node.unplaced` — a tree with all of its positions forgotten, so that `a.unplaced = b.unplaced` says that two trees
  are the same up to spans
-/

namespace GoScript

/-- The types on which a map of positions acts. -/
class Relocatable (α : Type) where
  relocate : (Position → Position) → α → α
  relocate_id : ∀ value : α, relocate id value = value

export Relocatable (relocate)

/-! ### Spans, tokens, errors -/

/-- The span with both of its ends moved. -/
def Span.relocate (f : Position → Position) (span : Span) : Span :=
  ⟨f span.start, f span.stop⟩

/-- The token at another place. -/
def Token.relocate (f : Position → Position) (token : Token) : Token :=
  { token with span := token.span.relocate f }

/-- The error at another place. -/
def Error.relocate (f : Position → Position) (error : Error) : Error :=
  { error with position := f error.position }

/-- The parameter at another place. -/
def Parameter.relocate (f : Position → Position) (parameter : Parameter) : Parameter :=
  { parameter with span := parameter.span.relocate f }

/-! ### Trees -/

mutual

/-- The tree with all of its positions moved. -/
def Node.relocate (f : Position → Position) : Node → Node
  | .program block => .program (block.relocate f)
  | .identifier name span => .identifier name (span.relocate f)
  | .integer value span => .integer value (span.relocate f)
  | .string value span => .string value (span.relocate f)
  | .boolean value span => .boolean value (span.relocate f)
  | .declaration declaration => .declaration (declaration.relocate f)
  | .assignment name value span => .assignment name (value.relocate f) (span.relocate f)
  | .returning value span => .returning (Node.relocateOption f value) (span.relocate f)
  | .expression expression span => .expression (expression.relocate f) (span.relocate f)
  | .block block => .block (block.relocate f)
  | .conditional condition consequence alternative span =>
    .conditional (condition.relocate f) (consequence.relocate f) (Block.relocateOption f alternative)
      (span.relocate f)
  | .unary operator operand span => .unary (operator.relocate f) (operand.relocate f) (span.relocate f)
  | .binary left operator right span =>
    .binary (left.relocate f) (operator.relocate f) (right.relocate f) (span.relocate f)
  | .function function => .function (function.relocate f)
  | .call callee arguments span => .call callee (Node.relocateAll f arguments) (span.relocate f)
  | .array element form elements span =>
    .array element form (Node.relocateAllOption f elements) (span.relocate f)
  | .index collection position span => .index (collection.relocate f) (position.relocate f) (span.relocate f)

/-- The tree with all of its positions moved, if there is one. -/
def Node.relocateOption (f : Position → Position) : Option Node → Option Node
  | none => none
  | some node => some (node.relocate f)

/-- The trees with all of their positions moved. -/
def Node.relocateAll (f : Position → Position) : List Node → List Node
  | [] => []
  | node :: rest => node.relocate f :: Node.relocateAll f rest

/-- The trees with all of their positions moved, if there are any. -/
def Node.relocateAllOption (f : Position → Position) : Option (List Node) → Option (List Node)
  | none => none
  | some nodes => some (Node.relocateAll f nodes)

/-- The block with all of its positions moved. -/
def Block.relocate (f : Position → Position) : Block → Block
  | ⟨body, span⟩ => ⟨Node.relocateAll f body, span.relocate f⟩

/-- The block with all of its positions moved, if there is one. -/
def Block.relocateOption (f : Position → Position) : Option Block → Option Block
  | none => none
  | some block => some (block.relocate f)

/-- The declaration with all of its positions moved. -/
def Declaration.relocate (f : Position → Position) : Declaration → Declaration
  | ⟨name, constant, explicit, inferred, value, group, span⟩ =>
    ⟨name, constant, explicit, inferred, Node.relocateOption f value, Declaration.relocateAllOption f group,
      span.relocate f⟩

/-- The declarations with all of their positions moved. -/
def Declaration.relocateAll (f : Position → Position) : List Declaration → List Declaration
  | [] => []
  | declaration :: rest => declaration.relocate f :: Declaration.relocateAll f rest

/-- The declarations with all of their positions moved, if there are any. -/
def Declaration.relocateAllOption (f : Position → Position) : Option (List Declaration) → Option (List Declaration)
  | none => none
  | some declarations => some (Declaration.relocateAll f declarations)

/-- The function with all of its positions moved. -/
def Function.relocate (f : Position → Position) : Function → Function
  | ⟨name, parameters, returns, body, span⟩ =>
    ⟨name, parameters.map (·.relocate f), returns, body.relocate f, span.relocate f⟩

end

variable (f : Position → Position)

@[simp]
theorem Node.relocateAll_eq_map (nodes : List Node) : Node.relocateAll f nodes = nodes.map (Node.relocate f) := by
  induction nodes with
  | nil => rfl
  | cons node nodes ih => simp [Node.relocateAll, ih]

@[simp]
theorem Declaration.relocateAll_eq_map (declarations : List Declaration) :
    Declaration.relocateAll f declarations = declarations.map (Declaration.relocate f) := by
  induction declarations with
  | nil => rfl
  | cons declaration declarations ih => simp [Declaration.relocateAll, ih]

@[simp]
theorem Node.relocateOption_eq_map (node : Option Node) : Node.relocateOption f node = node.map (Node.relocate f) := by
  cases node <;> rfl

@[simp]
theorem Node.relocateAllOption_eq_map (nodes : Option (List Node)) :
    Node.relocateAllOption f nodes = nodes.map (List.map (Node.relocate f)) := by
  cases nodes with
  | none => rfl
  | some nodes => exact congrArg some (Node.relocateAll_eq_map f nodes)

@[simp]
theorem Block.relocateOption_eq_map (block : Option Block) :
    Block.relocateOption f block = block.map (Block.relocate f) := by
  cases block <;> rfl

@[simp]
theorem Declaration.relocateAllOption_eq_map (declarations : Option (List Declaration)) :
    Declaration.relocateAllOption f declarations = declarations.map (List.map (Declaration.relocate f)) := by
  cases declarations with
  | none => rfl
  | some declarations => exact congrArg some (Declaration.relocateAll_eq_map f declarations)

theorem Block.relocate_eq (block : Block) :
    block.relocate f = ⟨block.body.map (Node.relocate f), block.span.relocate f⟩ := by
  obtain ⟨body, span⟩ := block
  simp [Block.relocate]

theorem Declaration.relocate_eq (d : Declaration) :
    d.relocate f = ⟨d.name, d.constant, d.explicit, d.inferred, d.value.map (Node.relocate f),
      d.group.map (List.map (Declaration.relocate f)), d.span.relocate f⟩ := by
  obtain ⟨name, constant, explicit, inferred, value, group, span⟩ := d
  simp [Declaration.relocate]

theorem Function.relocate_eq (g : Function) :
    g.relocate f = ⟨g.name, g.parameters.map (Parameter.relocate f), g.returns, g.body.relocate f,
      g.span.relocate f⟩ := by
  obtain ⟨name, parameters, returns, body, span⟩ := g
  rfl

/-! ### What does not depend on the spans -/

@[simp]
theorem Node.span_relocate (node : Node) : (node.relocate f).span = node.span.relocate f := by
  cases node <;>
    simp [Node.relocate, Node.span, Block.relocate_eq, Declaration.relocate_eq, Function.relocate_eq]

theorem Node.ownType?_relocate (node : Node) : (node.relocate f).ownType? = node.ownType? := by
  cases node <;> simp [Node.relocate, Node.ownType?, Token.relocate, Declaration.relocate_eq, Declaration.type?,
    Function.relocate_eq, Function.returnType]

theorem Node.precedence_relocate (node : Node) : (node.relocate f).precedence = node.precedence := by
  cases node <;> simp [Node.relocate, Node.precedence, Token.relocate]

theorem Node.takesParens_relocate (node : Node) (parent : Precedence) (right : Bool) :
    (node.relocate f).takesParens parent right = node.takesParens parent right := by
  simp [Node.takesParens, Node.precedence_relocate]

/-! Outlines are compared by `show`: the parts of a node agree by induction, so the texts around them do. -/

theorem Node.outlines_relocateAll (nodes : List Node) (h : ∀ node ∈ nodes, (node.relocate f).outline = node.outline) :
    Node.outlines (Node.relocateAll f nodes) = Node.outlines nodes := by
  induction nodes with
  | nil => rfl
  | cons node nodes ih =>
    show (node.relocate f).outline :: Node.outlines (Node.relocateAll f nodes) = node.outline :: Node.outlines nodes
    rw [h node List.mem_cons_self, ih fun other hother => h other (List.mem_cons_of_mem node hother)]

theorem Declaration.outlines_relocateAll (members : List Declaration)
    (h : ∀ member ∈ members, (member.relocate f).outline = member.outline) :
    Declaration.outlines (Declaration.relocateAll f members) = Declaration.outlines members := by
  induction members with
  | nil => rfl
  | cons member members ih =>
    show (member.relocate f).outline :: Declaration.outlines (Declaration.relocateAll f members)
      = member.outline :: Declaration.outlines members
    rw [h member List.mem_cons_self, ih fun other hother => h other (List.mem_cons_of_mem member hother)]

theorem Node.outline_relocate (node : Node) : (node.relocate f).outline = node.outline := by
  induction node using Node.partsInduction with
  | step node ih =>
    cases node with
    | program b =>
      obtain ⟨body, span⟩ := b
      show "\n".intercalate (Node.outlines (Node.relocateAll f body)) = "\n".intercalate (Node.outlines body)
      rw [Node.outlines_relocateAll f body ih]
    | block b =>
      obtain ⟨body, span⟩ := b
      show ", ".intercalate (Node.outlines (Node.relocateAll f body)) = ", ".intercalate (Node.outlines body)
      rw [Node.outlines_relocateAll f body ih]
    | declaration d =>
      obtain ⟨name, constant, explicit, inferred, value, group, span⟩ := d
      cases group with
      | some members =>
        have hmembers := Declaration.outlines_relocateAll f members fun member hmember =>
          ih (.declaration member) (List.mem_append_right _ (List.mem_map_of_mem hmember))
        cases value <;>
          · show _ ++ "Group(" ++ ", ".intercalate (Declaration.outlines (Declaration.relocateAll f members)) ++ ")" = _
            rw [hmembers]
            rfl
      | none =>
        cases value with
        | none => rfl
        | some value =>
          show _ ++ _ ++ _ ++ " = " ++ (value.relocate f).outline ++ ")" = _
          rw [ih value (by simp [Node.parts])]
          rfl
    | assignment name value span =>
      show "Assignment(Identifier(" ++ name ++ ") = " ++ (value.relocate f).outline ++ ")" = _
      rw [ih value (by simp [Node.parts])]
      rfl
    | returning value span =>
      cases value with
      | none => rfl
      | some value =>
        show "ReturnStatement(" ++ (value.relocate f).outline ++ ")" = _
        rw [ih value (by simp [Node.parts])]
        rfl
    | expression e span =>
      show "ExpressionStatement(" ++ (e.relocate f).outline ++ ")" = _
      rw [ih e (by simp [Node.parts])]
      rfl
    | conditional condition consequence alternative span =>
      obtain ⟨body, inner⟩ := consequence
      have hcondition := ih condition (by simp [Node.parts])
      have hbody := Node.outlines_relocateAll f body fun node hnode =>
        ih node (by simp [Node.parts, hnode])
      cases alternative with
      | none =>
        show "IfStatement(Condition(" ++ (condition.relocate f).outline ++ ") Consequence(" ++
          ", ".intercalate (Node.outlines (Node.relocateAll f body)) ++ ") Alternative())" = _
        rw [hcondition, hbody]
        rfl
      | some block =>
        obtain ⟨other, outer⟩ := block
        have hother := Node.outlines_relocateAll f other fun node hnode =>
          ih node (by simp [Node.parts, hnode])
        show "IfStatement(Condition(" ++ (condition.relocate f).outline ++ ") Consequence(" ++
          ", ".intercalate (Node.outlines (Node.relocateAll f body)) ++ ") Alternative(" ++
          ", ".intercalate (Node.outlines (Node.relocateAll f other)) ++ "))" = _
        rw [hcondition, hbody, hother]
        rfl
    | unary operator operand span =>
      show "(" ++ operator.value ++ (operand.relocate f).outline ++ ")" = _
      rw [ih operand (by simp [Node.parts])]
      rfl
    | binary left operator right span =>
      show "(" ++ (left.relocate f).outline ++ " " ++ operator.value ++ " " ++ (right.relocate f).outline ++ ")" = _
      rw [ih left (by simp [Node.parts]), ih right (by simp [Node.parts])]
      rfl
    | function g =>
      obtain ⟨name, parameters, returns, ⟨body, inner⟩, span⟩ := g
      have hparameters : (parameters.map (Parameter.relocate f)).map Parameter.outline =
          parameters.map Parameter.outline := by
        rw [List.map_map]
        rfl
      show "Function(Name(" ++ name.getD "" ++ ") Params(" ++
        ", ".intercalate ((parameters.map (Parameter.relocate f)).map Parameter.outline) ++ ") Returns(" ++
        (returns.map GoType.name).getD "" ++ ") Body(" ++
        ", ".intercalate (Node.outlines (Node.relocateAll f body)) ++ "))" = _
      rw [hparameters, Node.outlines_relocateAll f body ih]
      rfl
    | call callee arguments span =>
      show "FunctionCall(Identifier(" ++ callee ++ ")(" ++
        ", ".intercalate (Node.outlines (Node.relocateAll f arguments)) ++ "))" = _
      rw [Node.outlines_relocateAll f arguments ih]
      rfl
    | array element form elements span =>
      cases elements with
      | none => rfl
      | some nodes =>
        show "Array([" ++ ", ".intercalate (Node.outlines (Node.relocateAll f nodes)) ++ "])" = _
        rw [Node.outlines_relocateAll f nodes ih]
        rfl
    | index collection position span =>
      show "IndexExpression(Left:(" ++ (collection.relocate f).outline ++ ") Right: [" ++
        (position.relocate f).outline ++ "])" = _
      rw [ih collection (by simp [Node.parts]), ih position (by simp [Node.parts])]
      rfl
    | identifier | integer | string | boolean => rfl

theorem Node.sources_relocateAll (nodes : List Node) (h : ∀ node ∈ nodes, (node.relocate f).source = node.source) :
    Node.sources (Node.relocateAll f nodes) = Node.sources nodes := by
  induction nodes with
  | nil => rfl
  | cons node nodes ih =>
    show (node.relocate f).source :: Node.sources (Node.relocateAll f nodes) = node.source :: Node.sources nodes
    rw [h node List.mem_cons_self, ih fun other hother => h other (List.mem_cons_of_mem node hother)]

/-- The source text of a tree does not depend on where the tree stood. -/
theorem Node.source_relocate (node : Node) : (node.relocate f).source = node.source := by
  induction node using Node.partsInduction with
  | step node ih =>
    cases node with
    | unary operator operand span =>
      simp [Node.relocate, Node.source, Node.takesParens_relocate, Token.relocate, ih operand (by simp [Node.parts])]
    | binary left operator right span =>
      simp [Node.relocate, Node.source, Node.takesParens_relocate, Token.relocate, ih left (by simp [Node.parts]),
        ih right (by simp [Node.parts])]
    | call callee arguments span =>
      have harguments := Node.sources_relocateAll f arguments ih
      simp only [Node.relocate, Node.source, harguments]
    | array element form elements span =>
      cases elements with
      | none => cases form <;> rfl
      | some nodes =>
        have hnodes := Node.sources_relocateAll f nodes ih
        cases form <;> simp only [Node.relocate, Node.relocateAllOption, Node.source, hnodes]
    | index collection position span =>
      simp [Node.relocate, Node.source, Node.takesParens_relocate, ih collection (by simp [Node.parts]),
        ih position (by simp [Node.parts])]
    | identifier | integer | string | boolean => rfl
    | program b | block b => exact Node.outline_relocate f _
    | declaration d => exact Node.outline_relocate f _
    | assignment name value span => exact Node.outline_relocate f _
    | returning value span => cases value <;> exact Node.outline_relocate f _
    | expression e span => exact Node.outline_relocate f _
    | conditional condition consequence alternative span => exact Node.outline_relocate f _
    | function g => exact Node.outline_relocate f _

/-! ### Laws of the action -/

theorem Span.relocate_id (span : Span) : span.relocate id = span := rfl

theorem Token.relocate_id (token : Token) : token.relocate id = token := rfl

theorem Node.map_relocate_id (nodes : List Node) (h : ∀ node ∈ nodes, node.relocate id = node) :
    nodes.map (Node.relocate id) = nodes :=
  (List.map_congr_left h).trans (List.map_id nodes)

theorem Node.relocate_id (node : Node) : node.relocate id = node := by
  induction node using Node.partsInduction with
  | step node ih =>
    cases node with
    | program b | block b =>
      obtain ⟨body, span⟩ := b
      simp [Node.relocate, Block.relocate_eq, Span.relocate_id, Node.map_relocate_id body ih]
    | declaration d =>
      obtain ⟨name, constant, explicit, inferred, value, group, span⟩ := d
      have hvalue : value.map (Node.relocate id) = value := by
        cases value with
        | none => rfl
        | some value => simp [ih value (by simp [Node.parts])]
      have hgroup : group.map (List.map (Declaration.relocate id)) = group := by
        cases group with
        | none => rfl
        | some members =>
          have hmember : ∀ member ∈ members, member.relocate id = member := by
            intro member hmember
            have := ih (.declaration member) (by simp [Node.parts, hmember])
            simpa [Node.relocate] using this
          rw [Option.map_some, (List.map_congr_left hmember).trans (List.map_id' members)]
      simp [Node.relocate, Declaration.relocate_eq, Span.relocate_id, hvalue, hgroup]
    | returning value span =>
      cases value with
      | none => rfl
      | some value => simp [Node.relocate, Span.relocate_id, ih value (by simp [Node.parts])]
    | conditional condition consequence alternative span =>
      obtain ⟨body, inner⟩ := consequence
      have hcondition := ih condition (by simp [Node.parts])
      have hbody := Node.map_relocate_id body fun node hnode => ih node (by simp [Node.parts, hnode])
      cases alternative with
      | none => simp [Node.relocate, Block.relocate_eq, Span.relocate_id, hcondition, hbody]
      | some block =>
        obtain ⟨other, outer⟩ := block
        have hother := Node.map_relocate_id other fun node hnode => ih node (by simp [Node.parts, hnode])
        simp [Node.relocate, Block.relocate_eq, Span.relocate_id, hcondition, hbody, hother]
    | function g =>
      obtain ⟨name, parameters, returns, ⟨body, inner⟩, span⟩ := g
      have hparameters : parameters.map (Parameter.relocate id) = parameters := List.map_id parameters
      simp [Node.relocate, Function.relocate_eq, Block.relocate_eq, Span.relocate_id, hparameters,
        Node.map_relocate_id body ih]
    | call callee arguments span =>
      simp [Node.relocate, Span.relocate_id, Node.map_relocate_id arguments ih]
    | array element form elements span =>
      cases elements with
      | none => rfl
      | some nodes => simp [Node.relocate, Span.relocate_id, Node.map_relocate_id nodes ih]
    | assignment | expression | unary | binary | index =>
      simp_all [Node.relocate, Node.parts, Span.relocate_id, Token.relocate_id]
    | identifier | integer | string | boolean => rfl

theorem Block.relocate_id (block : Block) : block.relocate id = block := by
  have := Node.relocate_id (.block block)
  simpa [Node.relocate] using this

theorem Declaration.relocate_id (d : Declaration) : d.relocate id = d := by
  have := Node.relocate_id (.declaration d)
  simpa [Node.relocate] using this

theorem Function.relocate_id (g : Function) : g.relocate id = g := by
  have := Node.relocate_id (.function g)
  simpa [Node.relocate] using this

instance : Relocatable Span := ⟨Span.relocate, Span.relocate_id⟩
instance : Relocatable Token := ⟨Token.relocate, Token.relocate_id⟩
instance : Relocatable Error := ⟨Error.relocate, fun _ => rfl⟩
instance : Relocatable Parameter := ⟨Parameter.relocate, fun _ => rfl⟩
instance : Relocatable Node := ⟨Node.relocate, Node.relocate_id⟩
instance : Relocatable Block := ⟨Block.relocate, Block.relocate_id⟩
instance : Relocatable Declaration := ⟨Declaration.relocate, Declaration.relocate_id⟩
instance : Relocatable Function := ⟨Function.relocate, Function.relocate_id⟩

theorem relocate_node (node : Node) : GoScript.relocate f node = node.relocate f := rfl

@[simp]
theorem Token.kind_relocate (token : Token) : (GoScript.relocate f token).kind = token.kind := rfl

@[simp]
theorem Token.value_relocate (token : Token) : (GoScript.relocate f token).value = token.value := rfl

/-! Types, sizes and truth values carry no position. -/

instance : Relocatable GoType := ⟨fun _ type => type, fun _ => rfl⟩
instance : Relocatable ArrayForm := ⟨fun _ form => form, fun _ => rfl⟩
instance : Relocatable String := ⟨fun _ text => text, fun _ => rfl⟩
instance : Relocatable Bool := ⟨fun _ value => value, fun _ => rfl⟩
instance : Relocatable Unit := ⟨fun _ value => value, fun _ => rfl⟩

section Containers

variable {α β : Type} [Relocatable α] [Relocatable β]

instance : Relocatable (List α) where
  relocate f := List.map (relocate f)
  relocate_id := List.map_id'' Relocatable.relocate_id

theorem relocate_append (f : Position → Position) (front back : List α) :
    relocate f (front ++ back) = relocate f front ++ relocate f back :=
  List.map_append

instance : Relocatable (Option α) where
  relocate f := Option.map (relocate f)
  relocate_id value := by cases value <;> simp [Relocatable.relocate_id]

instance : Relocatable (α × β) where
  relocate f pair := (relocate f pair.1, relocate f pair.2)
  relocate_id pair := by simp [Relocatable.relocate_id]

instance : Relocatable (ParseM.Round α β) where
  relocate f
    | .again value => .again (relocate f value)
    | .done result => .done (relocate f result)
  relocate_id round := by cases round <;> simp [Relocatable.relocate_id]

instance : Relocatable (ParseM.Item α) where
  relocate f
    | .stop => .stop
    | .last value => .last (relocate f value)
    | .more value => .more (relocate f value)
  relocate_id item := by cases item <;> simp [Relocatable.relocate_id]

instance : Relocatable (Except Error α) where
  relocate f
    | .ok value => .ok (relocate f value)
    | .error error => .error (relocate f error)
  relocate_id outcome := by cases outcome <;> simp [Relocatable.relocate_id]

end Containers

/-- The tree with all of its positions forgotten. -/
def Node.unplaced (node : Node) : Node :=
  node.relocate fun _ => default

end GoScript
