import GoScript.Proofs.Acceptance
import GoScript.Proofs.Pieces

/-!
# Spans nest like the tree

The end of a span is the end of a token, the end of the last operand or the start of whatever comes next; the start of
it is remembered from before, or it is that of the first operand.  Parentheses are read but leave no trace.  All the
same, what is built from a phrase lies between the token that it starts at and the token that it ends at, and the parts
of it stand in a row inside.

* `Node.Lies`, `Block.Lies`, `Phrase.Lies` — a node, a block or what is built from a phrase between two offsets
* `Derives.lies` — so it is for every derivation
* `spans_nest` — the pieces of every program
-/

namespace GoScript

open Grammar

/-- A node between two offsets, with spans that nest. -/
abbrev Node.Lies (low : Nat) (node : Node) (high : Nat) : Prop :=
  Row low [.node node] high

/-- A block between two offsets, with spans that nest. -/
abbrev Block.Lies (low : Nat) (block : Block) (high : Nat) : Prop :=
  Row low [.block block] high

/-! ### Literals and declarations -/

theorem Atom.lies {token : Token} {node : Node} (h : Atom token node) {low high : Nat} (htoken : token.Lies low high) :
    node.Lies low high := by
  cases h <;> exact .leaf rfl htoken.low_le htoken.le htoken.stop

theorem lies_of_arrayNode {element : Option GoType} {form : ArrayForm} {elements : Option (List Node)} {span : Span}
    {node : Node} (h : arrayNode element form elements span = .ok node)
    (helements : Row span.low ((elements.getD []).map .node) span.high) : node.Lies span.low span.high := by
  obtain ⟨rfl, -⟩ := arrayNode_eq_ok h
  exact .single (Nat.le_refl _) helements (Nat.le_refl _)

theorem lies_of_listNode {nodes : List Node} {span : Span} {node : Node} (h : listNode nodes span = .ok node)
    (hnodes : Row span.low (nodes.map .node) span.high) : node.Lies span.low span.high := by
  obtain ⟨first, rest, -, harray⟩ := listNode_eq_ok h
  exact lies_of_arrayNode harray hnodes

/-- The value of a declared name lies where it was written, under whatever name. -/
theorem valueAndType_row (name : String) {written : Option Node} {low high : Nat}
    (hwritten : Row low (written.toList.map .node) high) :
    Row low ((valueAndType name written).1.toList.map .node) high := by
  unfold valueAndType
  split
  · exact .nil hwritten.le
  · exact hwritten.congr rfl rfl
  · exact hwritten
  · exact hwritten

theorem lies_of_declarationOf {name : Token} {constant : Bool} {explicit : Option GoType} {written : Option Node}
    {span : Span} {d : Declaration} (h : declarationOf name constant explicit written span = .ok d)
    (hwritten : Row span.low (written.toList.map .node) span.high) :
    (Node.declaration d).Lies span.low span.high := by
  obtain ⟨value, inferred, hvalue, rfl, -⟩ := declarationOf_eq_ok h
  have hrow := valueAndType_row name.value hwritten
  rw [hvalue] at hrow
  refine .single (Nat.le_refl _) ?_ (Nat.le_refl _)
  show Row span.low (value.toList.map .node ++ []) span.high
  rw [List.append_nil]
  exact hrow

/-! ### Parameters -/

/-- Names that wait for a type, as the parameters that they become. -/
def waitingParameters (type : GoType) (pending : List Token) : List Parameter :=
  pending.map fun token => ⟨token.value, type, false, token.span⟩

/-- The parameters of a list so far and the names that wait for a type stand in a row, whatever the type will be. -/
def ParametersLie (low : Nat) (state : List Token × List Parameter) (high : Nat) : Prop :=
  ∀ type, Row low ((state.2 ++ waitingParameters type state.1).map .parameter) high

section Parameters

variable {low high : Nat} {name : Token} {pending : List Token} {parameters : List Parameter}

/-- One more parameter behind a name that starts where the row ends. -/
theorem row_parameter (h : Row low (parameters.map .parameter) name.span.low) {parameter : Parameter}
    (hstart : parameter.span.low = name.span.low) (hle : parameter.span.low ≤ parameter.span.high)
    (hhigh : parameter.span.high ≤ high) : Row low ((parameters ++ [parameter]).map .parameter) high := by
  rw [List.map_append]
  exact h.append (.leaf rfl (Nat.le_of_eq hstart.symm) hle hhigh)

theorem ParametersLie.of_typed (h : Row low (parameters.map .parameter) high) :
    ParametersLie low ([], parameters) high := by
  intro type
  rw [waitingParameters, List.map_nil, List.append_nil]
  exact h

theorem ParametersLie.typed (h : ParametersLie low ([], parameters) high) :
    Row low (parameters.map .parameter) high := by
  have hrow := h .void
  rwa [waitingParameters, List.map_nil, List.append_nil] at hrow

/-- One more name waits for a type. -/
theorem ParametersLie.untypedName (h : ParametersLie low (pending, parameters) name.span.low)
    (hname : name.span.low ≤ name.span.high) (hhigh : name.span.high ≤ high) :
    ParametersLie low (pending ++ [name], parameters) high := by
  intro type
  have hsplit : parameters ++ waitingParameters type (pending ++ [name]) =
      parameters ++ waitingParameters type pending ++ [⟨name.value, type, false, name.span⟩] := by
    simp [waitingParameters]
  show Row low ((parameters ++ waitingParameters type (pending ++ [name])).map .parameter) high
  rw [hsplit]
  exact row_parameter (h type) rfl hname hhigh

/-- The type behind a name is that of all names that wait. -/
theorem ParametersLie.typedNames (h : ParametersLie low (pending, parameters) name.span.low) {later : Cursor}
    (hlater : name.span.low ≤ later.offset) (type : GoType) :
    ParametersLie low ([], parameters ++ typedParameters pending name type (later.spanSince name.span.start))
      later.offset := by
  apply of_typed
  rw [typedParameters, ← List.append_assoc]
  exact row_parameter (h type) rfl hlater (Nat.le_refl _)

end Parameters

/-! ### Phrases -/

/-- What is built from a phrase lies between two offsets.  A declaration may have started before. -/
def Phrase.Lies : (phrase : Phrase) → Nat → phrase.Value → Nat → Prop
  | expression, low, node, high | initial, low, node, high | statement, low, node, high => node.Lies low high
  | elements, low, nodes, high | braced, low, nodes, high | statements, low, nodes, high =>
    Row low (nodes.map .node) high
  | declared _ start, low, declaration, high =>
    low ≤ high ∧ (start.byte ≤ low → (Node.declaration declaration).Lies start.byte high)
  | members _, low, declarations, high => Row low (declarations.map fun member => .node (.declaration member)) high
  | block, low, b, high | alternative, low, b, high => b.Lies low high
  | waiting, low, state, high => ParametersLie low state high
  | parameters, low, listed, high => Row low (listed.map .parameter) high
  | function, low, f, high => (Node.function f).Lies low high
  | option _, low, none, high => low ≤ high
  | option phrase, low, some inner, high => phrase.Lies low inner high
  | type, low, _, high | size, low, _, high | arrayHead, low, _, high | name, low, _, high => low ≤ high

theorem Phrase.Lies.le {phrase : Phrase} {low high : Nat} {value : phrase.Value} (h : phrase.Lies low value high) :
    low ≤ high := by
  induction phrase with
  | option phrase ih =>
    cases value with
    | none => exact h
    | some inner => exact ih h
  | type | size | arrayHead | name => exact h
  | declared => exact h.1
  | waiting => exact (h .void).le
  | _ => exact Row.le h

/-- It is known that the tokens stand one after the other. -/
def Knowledge.ordered (tokens : List Token) : Knowledge tokens :=
  .of tokens Cursor.Ordered fun _ h => h.advance

variable {tokens : List Token} {cursor later : Cursor}

theorem Takes.lies {kind : TokenKind} {token : Token} (h : Takes (.ordered tokens) kind cursor token later) :
    token.Lies cursor.offset later.offset := by
  obtain ⟨hle, hstop⟩ := h.known.2.current
  rw [h.token_eq, h.later_eq]
  exact ⟨rfl, hle, hstop⟩

theorem Takes.offset_le {kind : TokenKind} {token : Token} (h : Takes (.ordered tokens) kind cursor token later) :
    cursor.offset ≤ later.offset :=
  h.later_eq ▸ h.known.2.offset_le_advance

/-- An optional phrase that one piece is built from. -/
theorem Phrase.row_toList (phrase : Phrase) {low high : Nat} (piece : phrase.Value → Piece)
    (hpiece : ∀ inner, phrase.Lies low inner high → Row low [piece inner] high) {value : Option phrase.Value}
    (h : (Phrase.option phrase).Lies low value high) : Row low (value.toList.map piece) high := by
  cases value with
  | none => exact .nil h
  | some inner => exact hpiece inner h

/-- Elements in braces, if there are any. -/
theorem Phrase.Lies.row_getD {low high : Nat} {elements : Option (List Node)}
    (h : (Phrase.option .braced).Lies low elements high) : Row low ((elements.getD []).map .node) high := by
  cases elements with
  | none => exact .nil h
  | some nodes => exact h

/-- **What is built from a phrase lies between the tokens that it starts and ends at.** -/
theorem Derives.lies {phrase : Phrase} {value : phrase.Value}
    (h : Derives (.ordered tokens) phrase cursor value later) : phrase.Lies cursor.offset value later.offset := by
  induction h with
  | absent => exact Nat.le_refl _
  | present _ ih | functionLiteral _ ih | lastElement _ ih | functionDeclaration _ ih => exact ih
  | primitive _ htoken => exact htoken.offset_le
  | array _ _ ihsize ihtype => exact Nat.le_trans ihsize ihtype
  | slice hopen hclose => exact Nat.le_trans hopen.offset_le hclose.offset_le
  | counted hopen hdots hclose => exact Nat.le_trans hopen.offset_le (Nat.le_trans hdots.offset_le hclose.offset_le)
  | sized hopen hnumber _ hclose => exact Nat.le_trans hopen.offset_le (Nat.le_trans hnumber.offset_le hclose.offset_le)
  | atom hatom htoken => exact hatom.lies htoken.lies
  | unary _ hoperator _ ih =>
    refine Row.single hoperator.lies.low_le ?_ ih.le_high
    exact ih.upToHigh.mono hoperator.lies.le_high (Nat.le_refl _)
  | parenthesized hopen _ hclose ih | braced hopen _ hclose ih => exact Row.mono ih hopen.offset_le hclose.offset_le
  | list hopen _ hclose hnode ih => exact lies_of_listNode hnode (ih.mono hopen.offset_le hclose.offset_le)
  | arrayLiteral _ _ _ hnode ihhead ihelements =>
    exact lies_of_arrayNode hnode (ihelements.row_getD.mono ihhead (Nat.le_refl _))
  | unsizedHead _ _ _ ihsize ihtype => exact Nat.le_trans ihsize ihtype
  | sizedHead hopen _ hclose _ _ ihnodes ihtype =>
    exact Nat.le_trans (ihnodes.mono hopen.offset_le hclose.offset_le).le ihtype
  | nestedHead hopen _ hclose _ hopen' _ hclose' _ ihnodes ihposition ihtype =>
    refine Nat.le_trans (ihnodes.mono hopen.offset_le hclose.offset_le).le (Nat.le_trans ?_ ihtype)
    exact (ihposition.mono hopen'.offset_le hclose'.offset_le).le
  | binary _ _ hoperator _ ihleft ihright =>
    refine Row.single ihleft.low_le ?_ ihright.le_high
    exact ihleft.fromLow.append (ihright.upToHigh.mono hoperator.offset_le (Nat.le_refl _))
  | call _ hopen _ hclose ihcallee iharguments =>
    refine Row.single ihcallee.low_le (iharguments.mono ?_ hclose.offset_le) (Nat.le_refl _)
    exact Nat.le_trans ihcallee.fromLow.le hopen.offset_le
  | index _ hopen _ hclose ihleft ihposition =>
    refine Row.single ihleft.low_le ?_ (Nat.le_refl _)
    exact ihleft.fromLow.append (ihposition.mono hopen.offset_le hclose.offset_le)
  | noElements => exact Row.nil (Nat.le_refl _)
  | nextElement _ hcomma _ ihnode ihnodes => exact ihnode.append (ihnodes.mono hcomma.offset_le (Nat.le_refl _))
  | initial hsign _ ih => exact Row.mono ih hsign.offset_le (Nat.le_refl _)
  | declared hname _ _ _ hdeclaration ihtype ihvalue =>
    have hbehind := Nat.le_trans hname.offset_le ihtype.le
    refine ⟨Nat.le_trans hbehind ihvalue.le, fun hstart => lies_of_declarationOf hdeclaration ?_⟩
    have hwritten := Phrase.initial.row_toList Piece.node (fun _ hnode => hnode) ihvalue
    exact hwritten.mono (Nat.le_trans hstart hbehind) (Nat.le_refl _)
  | noMembers hknown | noStatements hknown => exact Row.nil hknown.2.dropSemicolons.2
  | nextMember hknown _ _ ihmember ihmembers =>
    exact ((ihmember.2 (Nat.le_refl _)).mono hknown.2.dropSemicolons.2 (Nat.le_refl _)).append ihmembers
  | declaration _ hkeyword _ ih =>
    exact Row.mono (ih.2 hkeyword.lies.le_high) hkeyword.lies.low_le (Nat.le_refl _)
  | group _ hkeyword hopen _ hclose ih =>
    refine Row.single hkeyword.lies.low_le (ih.mono ?_ hclose.offset_le) (Nat.le_refl _)
    exact Nat.le_trans hkeyword.lies.le_high hopen.offset_le
  | shortDeclaration hname hsign _ hdeclaration ih =>
    have hwritten := ih.mono (Nat.le_trans hname.lies.le_high hsign.offset_le) (Nat.le_refl _)
    exact Row.mono (lies_of_declarationOf hdeclaration hwritten) hname.lies.low_le (Nat.le_refl _)
  | assignment hname hsign _ ih =>
    refine Row.single hname.lies.low_le (ih.mono ?_ (Nat.le_refl _)) (Nat.le_refl _)
    exact Nat.le_trans hname.lies.le_high hsign.offset_le
  | returning hkeyword _ ih =>
    have hvalue := Phrase.expression.row_toList Piece.node (fun _ hnode => hnode) ih
    exact Row.single hkeyword.lies.low_le (hvalue.mono hkeyword.lies.le_high (Nat.le_refl _)) (Nat.le_refl _)
  | expressionStatement _ ih => exact Row.single ih.low_le ih.fromLow.upToHigh ih.le_high
  | conditional hkeyword _ _ _ ihcondition ihconsequence ihotherwise =>
    refine Row.single hkeyword.lies.low_le ?_ (Nat.le_refl _)
    have hotherwise := Phrase.alternative.row_toList Piece.block (fun _ hblock => hblock) ihotherwise
    exact (ihcondition.mono hkeyword.lies.le_high (Nat.le_refl _)).append (ihconsequence.append hotherwise)
  | terminated _ hknown ih => exact Row.mono ih (Nat.le_refl _) hknown.2.dropSemicolons.2
  | nextStatement hknown _ _ ihnode ihnodes =>
    exact (ihnode.mono hknown.2.dropSemicolons.2 (Nat.le_refl _)).append ihnodes
  | block hbrace _ hclose ih =>
    exact Row.single hbrace.lies.low_le (ih.mono hbrace.lies.le_high hclose.offset_le) (Nat.le_refl _)
  | elseBlock hword _ ih => exact Row.mono ih hword.offset_le (Nat.le_refl _)
  | elseIf hword _ ih => exact Row.single hword.offset_le ih (Nat.le_refl _)
  | name htoken => exact htoken.offset_le
  | noNames => exact ParametersLie.of_typed (.nil (Nat.le_refl _))
  | untypedName _ hname ih => exact (hname.lies.start ▸ ih).untypedName hname.lies.le hname.lies.stop
  | typedNames _ hname _ ih ihtype =>
    exact (hname.lies.start ▸ ih).typedNames (Nat.le_trans hname.lies.le_high ihtype) _
  | nextName _ hcomma ih => exact fun type => (ih type).mono (Nat.le_refl _) hcomma.offset_le
  | parameters _ ih => exact ih.typed
  | variadic _ hname hdots _ ih ihtype =>
    refine row_parameter (hname.lies.start ▸ ih).typed rfl ?_ (Nat.le_refl _)
    exact Nat.le_trans hname.lies.le_high (Nat.le_trans hdots.offset_le ihtype)
  | lastComma _ hcomma ih => exact Row.mono ih (Nat.le_refl _) hcomma.offset_le
  | function hkeyword _ hopen _ hclose _ _ ihname ihparameters ihreturns ihbody =>
    refine Row.single hkeyword.lies.low_le (.append (ihparameters.mono ?_ ?_) ihbody) (Nat.le_refl _)
    · exact Nat.le_trans hkeyword.lies.le_high (Nat.le_trans ihname.le hopen.offset_le)
    · exact Nat.le_trans hclose.offset_le ihreturns.le

/-! ### Texts -/

section Texts

variable {source file : String}

/-- A parse that succeeds has come to the end of the text. -/
theorem position_of_parseProgram {program : Program} {later : Cursor}
    (h : Grammar.standard.parseProgram (Cursor.ofSource source file) = .ok program later) :
    later.position = endPosition file source.toList := by
  obtain ⟨-, -, hderives, -⟩ := (parse_yields source file).of_ok (Cursor.among_tokensOf source file) h
  obtain ⟨read, hreads, -⟩ := hderives.balances []
  have htokens := hreads.tokensOf_eq (Grammar.hasMore_of_parseProgram h)
  have hlast : [.endOfInput (endPosition file source.toList)] = [later.current] := (List.append_inj' htokens rfl).2
  rw [Cursor.position, ← List.singleton_inj.1 hlast]
  rfl

/-- A program takes all of the text up to where its parse ends. -/
theorem program_lies (hsize : source.utf8ByteSize < UInt32.size) {program : Program} {later : Cursor}
    (h : Grammar.standard.parseProgram (Cursor.ofSource source file) = .ok program later) :
    (Node.program program).Lies 0 later.offset ∧ program.span.low = 0 ∧ program.span.high = later.offset := by
  have hyields := Grammar.parseProgram_yields (.ordered (tokensOf source file)) (Cursor.ofSource source file)
  obtain ⟨-, -, hderives, hspan⟩ :=
    hyields.of_ok ⟨Cursor.among_tokensOf source file, Cursor.ordered_ofSource hsize file⟩ h
  have hlow : program.span.low = 0 := by rw [hspan]; rfl
  have hhigh : program.span.high = later.offset := by rw [hspan]; rfl
  have hbody := hderives.lies.mono (Nat.zero_le _) (Nat.le_refl _)
  rw [← hlow, ← hhigh] at hbody
  exact ⟨.single (Nat.le_of_eq hlow.symm) hbody (Nat.le_of_eq hhigh), hlow, hhigh⟩

/-- **Spans nest like the tree.**  The span of a program is all of its text.  Every piece of the program starts before
it ends, no later than the text does; the pieces right under it stand inside it; and they stand one after the other, in
the order of the source. -/
theorem spans_nest {program : Program} (hsize : source.utf8ByteSize < UInt32.size)
    (h : parse source file = .ok program) :
    program.span.low = 0 ∧ program.span.high = source.utf8ByteSize ∧
      ∀ piece : Piece, piece.Within (.node (.program program)) →
        piece.span.low ≤ piece.span.high ∧ piece.span.high ≤ source.utf8ByteSize ∧
          (∀ child ∈ piece.children, piece.span.low ≤ child.span.low ∧ child.span.high ≤ piece.span.high) ∧
          piece.children.Pairwise fun left right => left.span.high ≤ right.span.low := by
  obtain ⟨later, hrun⟩ := run_of_parse h
  obtain ⟨hrow, hlow, hhigh⟩ := program_lies hsize hrun
  have hfinish : later.offset = source.utf8ByteSize := by
    rw [Cursor.offset, position_of_parseProgram hrun, endPosition, byteSize_toList]
    exact UInt32.toNat_ofNat_of_lt' hsize
  rw [hfinish] at hhigh
  refine ⟨hlow, hhigh, fun piece within => ?_⟩
  obtain ⟨hnests, hlast⟩ := (hrow.nests _ List.mem_cons_self).within within
  cases hnests with
  | intro hle hbounds hordered _ => exact ⟨hle, Nat.le_trans hlast (Nat.le_of_eq hhigh), hbounds, hordered⟩

theorem spans_nest_function : ∃ program,
    parse "func f(a, b int) \x7b return (a) + g([1, b])[0] \x7d // end" "shell" = .ok program ∧ program.span.low = 0 ∧
      program.span.high = 53 ∧ ∀ piece : Piece, piece.Within (.node (.program program)) →
        piece.span.low ≤ piece.span.high ∧ piece.span.high ≤ 53 ∧
          (∀ child ∈ piece.children, piece.span.low ≤ child.span.low ∧ child.span.high ≤ piece.span.high) ∧
          piece.children.Pairwise fun left right => left.span.high ≤ right.span.low := by
  obtain ⟨program, h⟩ : ∃ program,
      parse "func f(a, b int) \x7b return (a) + g([1, b])[0] \x7d // end" "shell" = .ok program := ⟨_, by rfl⟩
  exact ⟨program, h, spans_nest (by decide) h⟩

end Texts

end GoScript
