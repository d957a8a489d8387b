import GoScript.Emit.Emitter
import GoScript.Proofs.RoundTrip

/-!
# Emitted expressions keep their grouping

An expression is emitted with the same parentheses as its source text has.  As long as it holds no array, no function
and no length of a collection, its emitted text is again the source text of an expression: the tree is the same, and
only the printing functions have another name in it.  So the emitted text is parsed to that tree, and no operand has
come under another operator.

* `Node.rename` — an expression with other names for what it mentions and calls
* `consoleName` — the name of a printing function in the emitted text
* `target_eq_source` — the emitted text is the source text under the new names
* `parseExpression_target` — the emitted text is parsed to the expression under the new names
-/

namespace GoScript

open Grammar

/-! ### Other names -/

mutual

/-- The expression with other names for what it mentions and calls.  Arrays and functions stay as they are. -/
def Node.rename (f : String → String) : Node → Node
  | .identifier name span => .identifier (f name) span
  | .unary operator operand span => .unary operator (operand.rename f) span
  | .binary left operator right span => .binary (left.rename f) operator (right.rename f) span
  | .call callee arguments span => .call (f callee) (Node.renameAll f arguments) span
  | .index collection position span => .index (collection.rename f) (position.rename f) span
  | node => node

/-- The expressions with other names for what they mention and call. -/
def Node.renameAll (f : String → String) : List Node → List Node
  | [] => []
  | node :: rest => node.rename f :: Node.renameAll f rest

end

section Rename

variable (f : String → String)

@[simp]
theorem Node.renameAll_eq_map (nodes : List Node) : Node.renameAll f nodes = nodes.map (Node.rename f) := by
  induction nodes with
  | nil => rfl
  | cons node nodes ih => simp [Node.renameAll, ih]

@[simp]
theorem Node.isExpression_rename (node : Node) : (node.rename f).isExpression = node.isExpression := by
  cases node <;> rfl

@[simp]
theorem Node.isFunction_rename (node : Node) : (node.rename f).isFunction = node.isFunction := by
  cases node <;> rfl

@[simp]
theorem Node.isArray_rename (node : Node) : (node.rename f).isArray = node.isArray := by
  cases node <;> rfl

/-- Parentheses depend on the operators alone. -/
@[simp]
theorem Node.takesParens_rename (node : Node) (parent : Precedence) (right : Bool) :
    (node.rename f).takesParens parent right = node.takesParens parent right := by
  have hprecedence : (node.rename f).precedence = node.precedence := by cases node <;> rfl
  rw [Node.takesParens, Node.takesParens, hprecedence]

variable {f}

theorem Node.Simple.parts_rename {node : Node} (h : node.Simple) :
    (node.rename f).parts = node.parts.map (Node.rename f) := by
  cases node with
  | call callee arguments span => simp [Node.rename, Node.parts]
  | array => exact absurd (h.arrays _ (.self _)) (by simp [Node.isArray])
  | function => exact absurd (h.functions _ (.self _)) (by simp [Node.isFunction])
  | program | declaration | assignment | returning | expression | block | conditional =>
    exact absurd h.expression (by simp [Node.isExpression])
  | identifier | integer | string | boolean | unary | binary | index => rfl

/-- What lies in a renamed expression is a renamed part of it. -/
theorem Node.Within.of_rename {node part : Node} (within : part.Within (node.rename f)) (h : node.Simple) :
    ∃ original : Node, original.Within node ∧ original.Simple ∧ part = original.rename f := by
  generalize hroot : node.rename f = root at within
  induction within generalizing node with
  | self => exact ⟨node, .self node, h, hroot.symm⟩
  | part hpart _ ih =>
    subst hroot
    rw [h.parts_rename, List.mem_map] at hpart
    obtain ⟨child, hchild, rfl⟩ := hpart
    obtain ⟨original, within, hsimple, rfl⟩ := ih (h.part hchild) rfl
    exact ⟨original, .part hchild within, hsimple, rfl⟩

/-- New names keep the rules for a node if they are names. -/
theorem Node.Simple.formed_rename {node : Node} (h : node.Simple)
    (hf : ∀ name, Spelled .identifier name → Spelled .identifier (f name)) : (node.rename f).Formed := by
  have hformed := h.sound.formed
  cases node with
  | identifier name span => exact hf name hformed
  | unary operator operand span =>
    obtain ⟨hkind, hspelled, hoperand⟩ := hformed
    exact ⟨hkind, hspelled, by rwa [Node.isExpression_rename]⟩
  | binary left operator right span =>
    obtain ⟨hkind, hspelled, hleft, hright⟩ := hformed
    exact ⟨hkind, hspelled, by rwa [Node.isExpression_rename], by rwa [Node.isExpression_rename]⟩
  | call callee arguments span =>
    obtain ⟨hcallee, harguments⟩ := hformed
    refine ⟨hf callee hcallee, fun argument hargument => ?_⟩
    rw [Node.renameAll_eq_map, List.mem_map] at hargument
    obtain ⟨original, horiginal, rfl⟩ := hargument
    rw [Node.isExpression_rename]
    exact harguments original horiginal
  | index collection position span =>
    obtain ⟨hcollection, hposition⟩ := hformed
    exact ⟨by rwa [Node.isExpression_rename], by rwa [Node.isExpression_rename]⟩
  | _ => exact hformed

/-- A simple expression stays simple under new names. -/
theorem Node.Simple.rename {node : Node} (h : node.Simple)
    (hf : ∀ name, Spelled .identifier name → Spelled .identifier (f name)) : (node.rename f).Simple where
  expression := (Node.isExpression_rename f node).trans h.expression
  sound part within := by
    obtain ⟨original, _, hsimple, rfl⟩ := within.of_rename h
    exact hsimple.formed_rename hf
  functions part within := by
    obtain ⟨original, horiginal, _, rfl⟩ := within.of_rename h
    exact (Node.isFunction_rename f original).trans (h.functions original horiginal)
  arrays part within := by
    obtain ⟨original, horiginal, _, rfl⟩ := within.of_rename h
    exact (Node.isArray_rename f original).trans (h.arrays original horiginal)

end Rename

/-! ### Names in the emitted text -/

/-- The name of a printing function in the emitted text.  All other names stay as they are. -/
def consoleName (name : String) : String :=
  if name = "fmt.Println" ∨ name = "fmt.Print" then "console.log" else name

theorem target?_getD (name : String) : (Builtin.target? name).getD name = consoleName name := by
  by_cases hline : "fmt.Println" = name
  · subst hline
    rfl
  by_cases hprint : "fmt.Print" = name
  · subst hprint
    rfl
  by_cases hlength : "len" = name
  · subst hlength
    rfl
  · simp [Builtin.target?, Builtin.table, consoleName, hline, hprint, hlength, Ne.symm hline, Ne.symm hprint]

theorem spelled_consoleName {name : String} (h : Spelled .identifier name) :
    Spelled .identifier (consoleName name) := by
  unfold consoleName
  split
  · have hword : Spelled _ (String.ofList ('c' :: "onsole.log".toList)) := .word rfl rfl
    exact hword
  · exact h

/-! ### Texts -/

/-- Whether a node is a call of `len` with one argument, which is emitted as a member of its argument. -/
def Node.isLength : Node → Bool
  | .call "len" [_] _ => true
  | _ => false

theorem targets_eq_sources {nodes : List Node}
    (h : ∀ node ∈ nodes, node.target = .ok (node.rename consoleName).source) :
    Node.targets nodes = .ok (Node.sources (Node.renameAll consoleName nodes)) := by
  induction nodes with
  | nil => rfl
  | cons node rest ih =>
    rw [Node.targets, h node List.mem_cons_self, ih fun other hother => h other (List.mem_cons_of_mem node hother)]
    rfl

/-- **The emitted text of an expression is its source text under the new names.** -/
theorem target_eq_source {node : Node} (h : node.Simple)
    (hlengths : ∀ part : Node, part.Within node → part.isLength = false) :
    node.target = .ok (node.rename consoleName).source := by
  induction node using Node.partsInduction with
  | step node ih =>
    have hparts : ∀ part ∈ node.parts, part.target = .ok (part.rename consoleName).source := fun part hpart =>
      ih part hpart (h.part hpart) fun other within => hlengths other (.part hpart within)
    cases node with
    | identifier name span =>
      rw [Node.target, target?_getD]
      rfl
    | integer | string | boolean => rfl
    | unary operator operand span =>
      rw [Node.target, hparts operand (by simp [Node.parts]), Node.rename, Node.source, Node.takesParens_rename]
      rfl
    | binary left operator right span =>
      rw [Node.target, hparts left (by simp [Node.parts]), hparts right (by simp [Node.parts]), Node.rename,
        Node.source, Node.takesParens_rename, Node.takesParens_rename]
      rfl
    | call callee arguments span =>
      have hlength := hlengths _ (.self _)
      have harguments : Node.targets arguments = _ := targets_eq_sources hparts
      rw [Node.target, harguments, Node.rename, Node.source, ← target?_getD]
      dsimp only [bind, Except.bind]
      split
      · cases hlength
      · rfl
    | index collection position span =>
      rw [Node.target, hparts collection (by simp [Node.parts]), hparts position (by simp [Node.parts]), Node.rename,
        Node.source, Node.takesParens_rename]
      rfl
    | array => exact absurd (h.arrays _ (.self _)) (by simp [Node.isArray])
    | function => exact absurd (h.functions _ (.self _)) (by simp [Node.isFunction])
    | program | declaration | assignment | returning | expression | block | conditional =>
      exact absurd h.expression (by simp [Node.isExpression])

/-- **Emitted expressions keep their grouping.**  Wherever the emitter stands, it finds the same text for an expression
that a parse can produce, provided that no array, no function and no length of a collection is in it.  The whole of
this text is parsed to the expression, up to spans and with the printing functions under their new name. -/
theorem parseExpression_target {node : Node} (hparsed : node.Parsed) (hexpression : node.isExpression = true)
    (harrays : ∀ part : Node, part.Within node → part.isArray = false)
    (hfunctions : ∀ part : Node, part.Within node → part.isFunction = false)
    (hlengths : ∀ part : Node, part.Within node → part.isLength = false) :
    ∃ text, (∀ emitter : Emitter, EmitM.check node.target emitter = .ok text emitter) ∧
      ReadsAs text (node.rename consoleName) := by
  have hsimple : node.Simple := ⟨hexpression, hparsed.sound, hfunctions, harrays⟩
  refine ⟨(node.rename consoleName).source, fun emitter => ?_, ?_⟩
  · rw [target_eq_source hsimple hlengths]
    rfl
  · exact readsAs_source (hsimple.rename fun _ => spelled_consoleName).legible

theorem parseExpression_target_print : ∃ node : Node, node.source = "fmt.Print((a - b) * c,-d)" ∧
    (∀ emitter : Emitter, EmitM.check node.target emitter = .ok "console.log((a - b) * c,-d)" emitter) ∧
      ReadsAs "console.log((a - b) * c,-d)" (node.rename consoleName) := by
  obtain ⟨a, minus, b, difference, star, c, product, dash, d, negation, whole, later, h⟩ :
      ∃ a minus b difference star c product dash d negation whole later,
        standard.parseExpression .lowest (Cursor.ofSource "fmt.Print((a - b) * c,-d)" "shell") =
          .ok (.call "fmt.Print" [.binary (.binary (.identifier "a" a) ⟨.dash, "-", minus⟩ (.identifier "b" b)
            difference) ⟨.star, "*", star⟩ (.identifier "c" c) product,
            .unary ⟨.dash, "-", dash⟩ (.identifier "d" d) negation] whole) later :=
    ⟨_, _, _, _, _, _, _, _, _, _, _, _, by rfl⟩
  generalize hnode : Node.call "fmt.Print" _ whole = node at h
  have hparts : ∀ part : Node, part.Within node →
      part.isArray = false ∧ part.isFunction = false ∧ part.isLength = false := by
    subst hnode
    repeat' first
      | exact ⟨rfl, rfl, rfl⟩
      | exact List.forall_mem_nil _
      | refine Node.forall_within.mpr ⟨?_, ?_⟩
      | refine List.forall_mem_cons.mpr ⟨?_, ?_⟩
  obtain ⟨text, hemit, hreads⟩ := parseExpression_target (.expression List.suffix_rfl h (.self _))
    (by rw [← hnode]; rfl)
    (fun part within => (hparts part within).1) (fun part within => (hparts part within).2.1)
    fun part within => (hparts part within).2.2
  have htext : text = "console.log((a - b) * c,-d)" := by
    have hresult := hemit (.ofSink .empty {})
    subst hnode
    cases hresult
    rfl
  subst htext
  exact ⟨node, by rw [← hnode]; rfl, hemit, hreads⟩

end GoScript
