import GoScript.Proofs.Derivability
import GoScript.Proofs.Formation

/-!
# Parsed trees are well formed

What is built from a phrase keeps the rules for nodes, if what is built from its parts does and its tokens are spelled
like tokens.  So the parses of the language build no other nodes.

* `Phrase.Sound` — what is built from a phrase keeps the rules
* `Derives.sound` — so it is for every derivation
* `formed_of_parse` — every node of a parsed program is well formed
-/

namespace GoScript

open Grammar

/-! ### Array literals -/

/-- What array literals have up to their elements: an element type, and a size that is not too large. -/
def HeadSound (form : ArrayForm) (element : GoType) : Prop :=
  (∀ count, form = .sized count → count < Numeral.integerLimit) ∧ form ≠ .bare ∧ element.Written

/-- An array literal that passes its checks is sound. -/
theorem sound_of_arrayNode {element : Option GoType} {form : ArrayForm} {elements : Option (List Node)} {span : Span}
    {node : Node} (h : arrayNode element form elements span = .ok node)
    (hbare : form = .bare → ∃ first rest, elements = some (first :: rest) ∧ element = first.ownType?)
    (hwritten : form ≠ .bare → ∃ type, element = some type ∧ type.Written)
    (hsize : ∀ count, form = .sized count → count < Numeral.integerLimit)
    (helements : ∀ nodes ∈ elements, ∀ node ∈ nodes, node.SoundExpression) : node.SoundExpression := by
  obtain ⟨rfl, hchecks⟩ := arrayNode_eq_ok h
  refine ⟨rfl, .of_parts ?_ ?_⟩
  · constructor
    case bare => exact hbare
    case written => exact hwritten
    case size => exact hsize
    case fits =>
      rintro count nodes rfl hnodes
      obtain ⟨type, htype, _⟩ := hwritten (by simp)
      exact length_le_of_overflow? (hchecks type nodes htype hnodes).1
    case typed =>
      intro type nodes htype hnodes node hnode hfunction type' htype'
      exact ownType?_of_stray? (hchecks type nodes htype hnodes).2 hnode hfunction htype'
    case expressions =>
      intro nodes hnodes node hnode
      exact (helements nodes hnodes node hnode).expression
  · intro part hpart
    cases elements with
    | none => cases hpart
    | some nodes => exact (helements nodes rfl part hpart).sound

theorem sound_of_listNode {nodes : List Node} {span : Span} {node : Node} (h : listNode nodes span = .ok node)
    (hnodes : ∀ node ∈ nodes, node.SoundExpression) : node.SoundExpression := by
  obtain ⟨first, rest, rfl, harray⟩ := listNode_eq_ok h
  refine sound_of_arrayNode harray (fun _ => ⟨first, rest, rfl, rfl⟩) (fun hform => absurd rfl hform) nofun ?_
  rintro _ ⟨⟩
  exact hnodes

/-- A literal with an element type in front of its elements. -/
theorem HeadSound.arrayNode {form : ArrayForm} {element : GoType} (hhead : HeadSound form element)
    {elements : Option (List Node)} (helements : ∀ nodes ∈ elements, ∀ node ∈ nodes, node.SoundExpression) {span : Span}
    {node : Node} (h : arrayNode (some element) form elements span = .ok node) : node.SoundExpression :=
  sound_of_arrayNode h (fun hbare => absurd hbare hhead.2.1) (fun _ => ⟨element, rfl, hhead.2.2⟩) hhead.1 helements

theorem writtenSize?_lt {nodes : List Node} {size : Nat} (h : writtenSize? nodes = some size)
    (hnodes : ∀ node ∈ nodes, node.SoundExpression) : size < Numeral.integerLimit := by
  unfold writtenSize? at h
  split at h
  · next value span =>
    cases h
    have hformed : 0 ≤ value ∧ value < Numeral.integerLimit :=
      (hnodes _ (List.mem_singleton_self _)).sound.formed
    omega
  · cases h

/-- A number in brackets in front of an element type. -/
theorem headSound_sized {nodes : List Node} {size : Nat} (h : writtenSize? nodes = some size)
    (hnodes : ∀ node ∈ nodes, node.SoundExpression) {element : GoType} (helement : element.Written) :
    HeadSound (.sized size) element := by
  refine ⟨?_, by simp, helement⟩
  rintro count ⟨⟩
  exact writtenSize?_lt h hnodes

/-! ### Declarations -/

/-- The value of a declared name is an expression, but no array without elements and no function without a name. -/
theorem valueAndType_sound (name : String) {written : Option Node}
    (hwritten : ∀ node, written = some node → node.SoundExpression) {value : Node}
    (h : (valueAndType name written).1 = some value) :
    value.SoundExpression ∧ (∀ element form span, value ≠ .array element form none span) ∧
      ∀ function, value = .function function → function.name.isSome := by
  unfold valueAndType at h
  split at h
  · cases h
  · next function =>
    cases h
    have hfunction := hwritten _ rfl
    refine ⟨⟨rfl, .of_parts ?_ fun part hpart => hfunction.sound.part hpart⟩, by simp, ?_⟩
    · exact ⟨hfunction.sound.formed.variadic, hfunction.sound.formed.parameters, hfunction.sound.formed.returns,
        hfunction.sound.formed.body⟩
    · rintro _ ⟨⟩
      cases hname : function.name <;> rfl
  · next node harray hfunction =>
    cases h
    refine ⟨hwritten _ rfl, ?_, ?_⟩
    · rintro element form span rfl
      exact harray element form span rfl
    · rintro function rfl
      exact absurd rfl (hfunction function)
  · cases h

/-- A sound declaration of a single name. -/
def Declaration.SoundSingle (constant : Bool) (declaration : Declaration) : Prop :=
  (Node.declaration declaration).Sound ∧ declaration.group = none ∧ declaration.constant = constant

/-- What is declared is sound if what was written as its value is. -/
theorem sound_of_declarationOf {name : Token} {constant : Bool} {explicit : Option GoType} {written : Option Node}
    {span : Span} {declaration : Declaration}
    (h : declarationOf name constant explicit written span = .ok declaration)
    (hexplicit : ∀ type ∈ explicit, type.Written) (hwritten : ∀ node ∈ written, node.SoundExpression) :
    declaration.SoundSingle constant := by
  obtain ⟨value, inferred, heq, rfl, hconstant, hgiven⟩ := declarationOf_eq_ok h
  have hvalue : ∀ node, value = some node → node.SoundExpression ∧
      (∀ element form span, node ≠ .array element form none span) ∧
      ∀ function, node = .function function → function.name.isSome := by
    intro node hnode
    exact valueAndType_sound name.value hwritten (by rw [heq, hnode])
  refine ⟨.of_parts ?_ ?_, rfl, rfl⟩
  · constructor
    case given => exact hgiven
    case constant_value => exact fun h => (constantFault?_eq_none (hconstant h)).2
    case constant_type => exact fun h => (constantFault?_eq_none (hconstant h)).1
    case explicit => exact hexplicit
    case value => exact fun node hnode => (hvalue node hnode).1.expression
    case elements => exact fun element form span harray => (hvalue _ harray).2.1 element form span rfl
    case named => exact fun function hfunction => (hvalue _ hfunction).2.2 function rfl
  · intro part hpart
    exact (hvalue part (by simpa [Node.parts] using hpart)).1.sound

/-! ### Parameters -/

/-- The parameters of a list so far: all of their types are written, and none of them is variadic. -/
def PlainParameters (parameters : List Parameter) : Prop :=
  ∀ parameter ∈ parameters, parameter.type.Written ∧ parameter.variadic = false

/-- The parameters of a function: as many plain ones as there are, and perhaps a variadic one at the end. -/
def ListedParameters (parameters : List Parameter) : Prop :=
  PlainParameters parameters ∨ ∃ front name element span, PlainParameters front ∧ element.Written ∧
    parameters = front ++ [⟨name, .array element, true, span⟩]

theorem PlainParameters.append {front back : List Parameter} (hfront : PlainParameters front)
    (hback : PlainParameters back) : PlainParameters (front ++ back) := by
  intro parameter hparameter
  rcases List.mem_append.mp hparameter with h | h
  · exact hfront parameter h
  · exact hback parameter h

theorem plainParameters_typed (pending : List Token) (name : Token) {type : GoType} (htype : type.Written)
    (span : Span) : PlainParameters (typedParameters pending name type span) := by
  intro parameter hparameter
  simp only [typedParameters, List.mem_append, List.mem_map, List.mem_singleton] at hparameter
  rcases hparameter with ⟨token, _, rfl⟩ | rfl
  · exact ⟨htype, rfl⟩
  · exact ⟨htype, rfl⟩

theorem ListedParameters.written {parameters : List Parameter} (h : ListedParameters parameters) :
    ∀ parameter ∈ parameters, parameter.type.Written := by
  intro parameter hparameter
  rcases h with h | ⟨front, name, element, span, hfront, helement, rfl⟩
  · exact (h parameter hparameter).1
  · rcases List.mem_append.mp hparameter with hparameter | hparameter
    · exact (hfront parameter hparameter).1
    · obtain rfl := List.mem_singleton.mp hparameter
      exact helement

theorem ListedParameters.variadic {parameters : List Parameter} (h : ListedParameters parameters)
    (before : List Parameter) (parameter : Parameter) (after : List Parameter) (hsplit : parameters = before ++ parameter :: after)
    (hvariadic : parameter.variadic = true) : after = [] ∧ parameter.type.isArray = true := by
  have hplain : ∀ {front : List Parameter}, PlainParameters front → parameter ∉ front := by
    intro front hfront hmem
    simp [(hfront parameter hmem).2] at hvariadic
  rcases h with h | ⟨front, name, element, span, hfront, helement, rfl⟩
  · exact absurd (by simp [hsplit]) (hplain h)
  · -- the variadic parameter is not among the plain ones, so it is the last one
    rcases List.eq_nil_or_concat after with rfl | ⟨after, last, rfl⟩
    · obtain ⟨_, hlast⟩ := List.append_inj' hsplit rfl
      cases hlast
      exact ⟨rfl, rfl⟩
    · have hfront' : front = before ++ parameter :: after := by
        have hsplit' : front ++ [⟨name, .array element, true, span⟩] = (before ++ parameter :: after) ++ [last] := by
          simpa using hsplit
        exact (List.append_inj' hsplit' rfl).1
      exact absurd (by simp [hfront']) (hplain hfront)

/-! ### Phrases -/

/-- A block of sound statements. -/
def Block.Sound (block : Block) : Prop :=
  ∀ statement ∈ block.body, statement.SoundStatement

/-- What is built from a phrase keeps the rules. -/
def Phrase.Sound : (phrase : Phrase) → phrase.Value → Prop
  | type, written => written.Written
  | expression, node | initial, node => node.SoundExpression
  | elements, nodes | braced, nodes => ∀ node ∈ nodes, node.SoundExpression
  | arrayHead, (form, element) => HeadSound form element
  | declared constant _, declaration => declaration.SoundSingle constant
  | members constant, declarations => ∀ member ∈ declarations, member.SoundSingle constant
  | statement, node => node.SoundStatement
  | statements, nodes => ∀ node ∈ nodes, node.SoundStatement
  | block, b | alternative, b => b.Sound
  | waiting, (_, listed) => PlainParameters listed
  | parameters, listed => ListedParameters listed
  | function, f => (Node.function f).Sound
  | option phrase, value => ∀ inner ∈ value, phrase.Sound inner
  | size, _ | name, _ => True

theorem Atom.sound {token : Token} {node : Node} (h : Atom token node) (hspelled : token.Spelled) :
    node.SoundExpression := by
  have spelled : ∀ {kind : TokenKind}, token.kind = kind → Spelled kind token.value := fun hkind => hkind ▸ hspelled
  have leaf : ∀ {node : Node}, node.isExpression = true → node.Formed → node.parts = [] → node.SoundExpression :=
    fun hexpression hformed hparts => ⟨hexpression, .of_parts hformed (by simp [hparts])⟩
  cases h with
  | integer _ hvalue =>
    unfold Numeral.below? at hvalue
    split at hvalue
    · next hlimit =>
      cases hvalue
      exact leaf rfl ⟨Int.natCast_nonneg _, Int.ofNat_lt.mpr hlimit⟩ rfl
    · cases hvalue
  | identifier hkind => exact leaf rfl (spelled hkind) rfl
  | string hkind => exact leaf rfl (spelled hkind) rfl
  | trueWord | falseWord => exact leaf rfl trivial rfl

theorem Primitive.written {kind : TokenKind} {type : GoType} (h : Primitive kind type) : type.Written := by
  cases h <;> trivial

/-- It is known that the tokens are spelled like tokens. -/
def Knowledge.spelled (tokens : List Token) : Knowledge tokens :=
  .of tokens Cursor.Spelled fun _ h => h.advance

theorem Takes.spelled {tokens : List Token} {kind : TokenKind} {cursor later : Cursor} {token : Token}
    (h : Takes (.spelled tokens) kind cursor token later) : token.Spelled :=
  h.token_eq ▸ h.known.2.current

/-- **What is built from a phrase of spelled tokens keeps the rules.** -/
theorem Derives.sound {tokens : List Token} {phrase : Phrase} {cursor later : Cursor} {value : phrase.Value}
    (h : Derives (.spelled tokens) phrase cursor value later) : phrase.Sound value := by
  induction h with
  | slice | counted | sized | name => trivial
  | absent => exact nofun
  | noElements | noMembers | noStatements | noNames => exact fun _ hmem => absurd hmem List.not_mem_nil
  | present _ ih =>
    rintro _ ⟨⟩
    exact ih
  | parenthesized _ _ _ ih | braced _ _ _ ih | initial _ _ ih | terminated _ _ ih | block _ _ _ ih
  | elseBlock _ _ ih | nextName _ _ ih | lastComma _ _ ih | array _ _ _ ih | untypedName _ _ ih => exact ih
  | primitive hprimitive _ => exact hprimitive.written
  | atom hatom htoken => exact hatom.sound htoken.spelled
  | unary hkind hoperator _ ih =>
    refine ⟨rfl, .of_parts ⟨hoperator.kind_eq ▸ hkind, hoperator.spelled, ih.expression⟩ ?_⟩
    exact List.forall_mem_singleton.2 ih.sound
  | functionLiteral _ ih => exact ⟨rfl, ih⟩
  | list _ _ _ hnode ih => exact sound_of_listNode hnode ih
  | arrayLiteral _ _ _ hnode ihhead ihelements => exact ihhead.arrayNode ihelements hnode
  | unsizedHead _ hform _ _ ih => rcases hform with rfl | rfl <;> exact ⟨nofun, nofun, ih⟩
  | sizedHead _ _ _ hsize _ ihnodes ihelement => exact headSound_sized hsize ihnodes ihelement
  | nestedHead _ _ _ hsize _ _ _ _ ihnodes _ ihelement => exact headSound_sized hsize ihnodes ihelement
  | binary _ hkind hoperator _ ihleft ihright =>
    refine ⟨rfl, .of_parts ⟨hoperator.kind_eq ▸ hkind, hoperator.spelled, ihleft.expression, ihright.expression⟩ ?_⟩
    exact List.forall_mem_cons.2 ⟨ihleft.sound, List.forall_mem_singleton.2 ihright.sound⟩
  | call _ _ _ _ ihcallee iharguments =>
    refine ⟨rfl, .of_parts ⟨ihcallee.sound.formed, ?_⟩ ?_⟩
    · exact fun argument hargument => (iharguments argument hargument).expression
    · exact fun argument hargument => (iharguments argument hargument).sound
  | index _ _ _ _ ihleft ihposition =>
    refine ⟨rfl, .of_parts ⟨ihleft.expression, ihposition.expression⟩ ?_⟩
    exact List.forall_mem_cons.2 ⟨ihleft.sound, List.forall_mem_singleton.2 ihposition.sound⟩
  | lastElement _ ih => exact List.forall_mem_singleton.2 ih
  | nextElement _ _ _ ihnode ihnodes => exact List.forall_mem_cons.2 ⟨ihnode, ihnodes⟩
  | declared _ _ _ _ hdeclaration ihtype ihvalue => exact sound_of_declarationOf hdeclaration ihtype ihvalue
  | nextMember _ _ _ ihmember ihmembers => exact List.forall_mem_cons.2 ⟨ihmember, ihmembers⟩
  | declaration _ _ _ ih => exact ⟨rfl, ih.1⟩
  | group _ _ _ _ _ ih =>
    refine ⟨rfl, .of_parts ⟨rfl, rfl, rfl, fun member hmember => (ih member hmember).2⟩ ?_⟩
    exact List.forall_mem_map.2 fun member hmember => (ih member hmember).1
  | shortDeclaration _ _ _ hdeclaration ih =>
    refine ⟨rfl, (sound_of_declarationOf hdeclaration nofun ?_).1⟩
    rintro _ ⟨⟩
    exact ih
  | assignment _ _ _ ih => exact ⟨rfl, .of_parts ih.expression (List.forall_mem_singleton.2 ih.sound)⟩
  | returning _ _ ih =>
    refine ⟨rfl, .of_parts (fun node hnode => (ih node hnode).expression) fun part hpart => ?_⟩
    exact (ih part (Option.mem_toList.1 hpart)).sound
  | expressionStatement _ ih => exact ⟨rfl, .of_parts ih.expression (List.forall_mem_singleton.2 ih.sound)⟩
  | @conditional _ _ _ otherwise _ _ _ _ _ _ _ _ _ ihcondition ihconsequence ihotherwise =>
    refine ⟨rfl, .of_parts ⟨ihcondition.expression, ?_, ?_⟩ (List.forall_mem_cons.2 ⟨ihcondition.sound, ?_⟩)⟩
    · exact fun statement hstatement => (ihconsequence statement hstatement).statement
    · exact fun block hblock statement hstatement => (ihotherwise block hblock statement hstatement).statement
    · refine List.forall_mem_append.2 ⟨fun part hpart => (ihconsequence part hpart).sound, fun part hpart => ?_⟩
      cases otherwise with
      | none => cases hpart
      | some block => exact (ihotherwise block rfl part hpart).sound
  | functionDeclaration _ ih => exact ⟨rfl, ih⟩
  | nextStatement _ _ _ ihnode ihnodes => exact List.forall_mem_cons.2 ⟨ihnode, ihnodes⟩
  | elseIf _ _ ih => exact List.forall_mem_singleton.2 ih
  | typedNames _ _ _ ih ihtype => exact ih.append (plainParameters_typed _ _ ihtype _)
  | parameters _ ih => exact .inl ih
  | variadic _ _ _ _ ih ihtype => exact .inr ⟨_, _, _, _, ih, ihtype, rfl⟩
  | function _ _ _ _ _ _ _ _ ihparameters ihreturns ihbody =>
    refine .of_parts ⟨ihparameters.variadic, ihparameters.written, ihreturns, ?_⟩ ?_
    · exact fun statement hstatement => (ihbody statement hstatement).statement
    · exact fun statement hstatement => (ihbody statement hstatement).sound

/-! ### Parses -/

theorem sound_of_parseExpression {cursor later : Cursor} (hspelled : cursor.Spelled) {power : Precedence} {node : Node}
    (h : standard.parseExpression power cursor = .ok node later) : node.SoundExpression := by
  have hyields := (nested_yield (.spelled cursor.tokens) _).expression power cursor (Nat.lt_succ_self _)
  obtain ⟨-, -, hderives⟩ := hyields.of_ok ⟨cursor.among_tokens, hspelled⟩ h
  exact hderives.sound

theorem sound_of_parse {source file : String} {program : Program} (h : parse source file = .ok program) :
    (Node.program program).Sound := by
  unfold parse at h
  split at h
  · next _ later hok =>
    cases h
    have hyields := parseProgram_yields (.spelled (Cursor.ofSource source file).tokens) (Cursor.ofSource source file)
    obtain ⟨-, -, hderives, -⟩ := hyields.of_ok ⟨Cursor.among_tokens _, Cursor.spelled_ofSource source file⟩ hok
    have hbody : ∀ statement ∈ program.body, statement.SoundStatement := hderives.sound
    refine .of_parts ?_ ?_
    · exact fun statement hstatement => (hbody statement hstatement).statement
    · exact fun statement hstatement => (hbody statement hstatement).sound
  · cases h

/-- **Parsed trees are well formed.**  Every node of a program that was parsed keeps the rules for nodes. -/
theorem formed_of_parse {source file : String} {program : Program} (h : parse source file = .ok program) {node : Node}
    (within : node.Within (.program program)) : node.Formed :=
  sound_of_parse h node within

theorem formed_of_parse_group : ∃ program, parse "const (a = 1)" "shell" = .ok program ∧
    ∀ node : Node, node.Within (.program program) → node.Formed := by
  have h : ∃ program, parse "const (a = 1)" "shell" = .ok program := ⟨_, by rfl⟩
  obtain ⟨program, h⟩ := h
  exact ⟨program, h, fun _ within => formed_of_parse h within⟩

end GoScript
