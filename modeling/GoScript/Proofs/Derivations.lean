import GoScript.Proofs.Checks
import GoScript.Proofs.Consumption

/-!
# Derivations

The rules of the grammar say how to find out what stands at a cursor.  A derivation says no more than what stands there:
which tokens a phrase is made of, and what is built from them.  Every parse that succeeds has one.  So whatever is true
of all trees that are parsed is an induction over derivations, and no longer depends on how the rules decide.

There are more derivations than parses.  The precedence of operators plays no part in them, and a loop that reads on to
the right of what it has is a phrase that starts with the same phrase.

* `Knowledge`, `Takes` — what is known at the cursors of a derivation, and a single token that is read
* `Phrase`, `Derives` — the phrases of the language, and what they are made of
* `Derives.balances` — a phrase closes the brackets that it opens, and no others
* `Derives.anchored` — what is built starts where tokens do
-/

namespace GoScript

open Grammar

variable {tokens : List Token} {cursor later : Cursor} {token : Token} {kind : TokenKind}

/-! ### Single tokens -/

/-- Something that is known of the tokens at a cursor, and stays known as tokens are read.  At least it is known which
tokens they are among. -/
structure Knowledge (tokens : List Token) where
  Holds : Cursor → Prop
  among : ∀ cursor, Holds cursor → cursor.Among tokens
  advance : ∀ cursor, Holds cursor → Holds cursor.advance

theorem Knowledge.dropSemicolons (k : Knowledge tokens) (h : k.Holds cursor) : k.Holds cursor.dropSemicolons := by
  obtain ⟨_, hreads, -⟩ := cursor.reads_dropSemicolons
  exact hreads.preserves k.advance h

/-- It is known which tokens there are. -/
def Knowledge.bare (tokens : List Token) : Knowledge tokens where
  Holds := Cursor.Among tokens
  among _ h := h
  advance _ h := h.advance

/-- It is known which tokens there are, and something else that stays known as tokens are read. -/
def Knowledge.of (tokens : List Token) (P : Cursor → Prop) (hadvance : ∀ cursor, P cursor → P cursor.advance) :
    Knowledge tokens where
  Holds cursor := cursor.Among tokens ∧ P cursor
  among _ h := h.1
  advance cursor h := ⟨h.1.advance, hadvance cursor h.2⟩

/-- One token of some kind is read. -/
structure Takes (k : Knowledge tokens) (kind : TokenKind) (cursor : Cursor) (token : Token) (later : Cursor) :
    Prop where
  known : k.Holds cursor
  token_eq : token = cursor.current
  later_eq : later = cursor.advance
  kind_eq : token.kind = kind
  usable : kind.Usable

namespace Takes

variable {k : Knowledge tokens}

theorem position_eq (h : Takes k kind cursor token later) : cursor.position = token.span.start := by
  rw [h.token_eq]
  rfl

theorem of_kind {other : TokenKind} (h : Takes k kind cursor token later) (hkind : token.kind = other) :
    Takes k other cursor token later :=
  ⟨h.known, h.token_eq, h.later_eq, hkind, hkind ▸ h.kind_eq ▸ h.usable⟩

theorem startOf (h : Takes k kind cursor token later) : StartOf tokens token.span.start := by
  refine ⟨token, ?_, h.kind_eq ▸ h.usable, rfl⟩
  rw [h.token_eq]
  exact (k.among cursor h.known).current

theorem turns {before after : List TokenKind} (h : Takes k kind cursor token later)
    (hawaited : awaitedAfter before kind = some after) : cursor.Consumes before later after := by
  have hturns : cursor.current.kind.Turns before after := by
    rw [← h.token_eq, h.kind_eq]
    exact ⟨h.usable, hawaited⟩
  exact h.later_eq ▸ Cursor.consumes_advance hturns

theorem balances (h : Takes k kind cursor token later) (hplain : kind.Plain) : cursor.Balances later :=
  fun awaited => h.turns (hplain.turns awaited).2

/-- Brackets around tokens that close what they open. -/
theorem encloses {c c' : Cursor} {closing : Token} (h : Takes k kind cursor token c) (hinner : c.Balances c')
    {closer : TokenKind} (h' : Takes k closer c' closing later) (hopen : kind.closer? = some closer)
    (hclose : closer.isCloser = true) : cursor.Balances later := by
  intro awaited
  have hopened : awaitedAfter awaited kind = some (closer :: awaited) := by simp [awaitedAfter, hopen]
  exact (h.turns hopened).trans ((hinner _).trans (h'.turns (TokenKind.turns_of_isCloser hclose awaited).2))

theorem length_lt (h : Takes k kind cursor token later) : later.rest.length < cursor.rest.length := by
  have hkind : cursor.current.kind ≠ .endOfInput := by
    rw [← h.token_eq, h.kind_eq]
    exact h.usable.1
  have hpos := List.length_pos_iff.2 (Cursor.rest_ne_nil_of_kind hkind)
  rw [h.later_eq, Cursor.advance, List.length_tail]
  omega

end Takes

/-! ### Phrases -/

/-- The phrases that programs are made of. -/
inductive Phrase where
  | type
  /-- The brackets in front of an element type. -/
  | size
  | expression
  /-- Expressions with commas between them. -/
  | elements
  /-- Expressions in braces. -/
  | braced
  /-- An array literal up to its elements. -/
  | arrayHead
  /-- An equals sign and a value. -/
  | initial
  /-- A name with its type and value, in a declaration that starts at `start`. -/
  | declared (constant : Bool) (start : Position)
  /-- The members of a group of declarations. -/
  | members (constant : Bool)
  | statement
  | statements
  | block
  /-- What `else` starts. -/
  | alternative
  | name
  /-- The names of a parameter list that wait for a type, and the parameters that have one. -/
  | waiting
  | parameters
  | function
  | option (phrase : Phrase)

/-- What is built from a phrase. -/
@[reducible]
def Phrase.Value : Phrase → Type
  | type => GoType
  | size => ArrayForm
  | expression | initial | statement => Node
  | elements | braced | statements => List Node
  | arrayHead => ArrayForm × GoType
  | declared _ _ => Declaration
  | members _ => List Declaration
  | block | alternative => Block
  | name => String
  | waiting => List Token × List Parameter
  | parameters => List Parameter
  | function => Function
  | option phrase => Option phrase.Value

/-- The types that are a single word. -/
inductive Primitive : TokenKind → GoType → Prop
  | int : Primitive .intType .int
  | string : Primitive .stringType .string
  | bool : Primitive .boolType .bool

/-- The literals and names that are a single token. -/
inductive Atom (token : Token) : Node → Prop
  | integer {value : Nat} : token.kind = .integer → Numeral.below? Numeral.integerLimit token.value = some value →
    Atom token (.integer value token.span)
  | identifier : token.kind = .identifier → Atom token (.identifier token.value token.span)
  | string : token.kind = .string → Atom token (.string token.value token.span)
  | trueWord : token.kind = .trueWord → Atom token (.boolean true token.span)
  | falseWord : token.kind = .falseWord → Atom token (.boolean false token.span)

/-- **What phrases are made of**: from one cursor to another stands a phrase that a value is built from. -/
inductive Derives (k : Knowledge tokens) : (phrase : Phrase) → Cursor → phrase.Value → Cursor → Prop
  -- optional phrases
  | absent {phrase c} : Derives k (.option phrase) c none c
  | present {phrase value c d} : Derives k phrase c value d → Derives k (.option phrase) c (some value) d
  -- types
  | primitive {kind token type c d} : Primitive kind type → Takes k kind c token d → Derives k .type c type d
  | array {form element c c₁ d} : Derives k .size c form c₁ → Derives k .type c₁ element d →
    Derives k .type c (.array element) d
  | slice {opening closing c c₁ d} : Takes k .openBracket c opening c₁ → Takes k .closeBracket c₁ closing d →
    Derives k .size c .slice d
  | counted {opening dots closing c c₁ c₂ d} : Takes k .openBracket c opening c₁ → Takes k .ellipsis c₁ dots c₂ →
    Takes k .closeBracket c₂ closing d → Derives k .size c .counted d
  | sized {opening number closing size c c₁ c₂ d} : Takes k .openBracket c opening c₁ → Takes k .integer c₁ number c₂ →
    Numeral.below? Numeral.sizeLimit number.value = some size → Takes k .closeBracket c₂ closing d →
    Derives k .size c (.sized size) d
  -- operands
  | atom {token node c d} : Atom token node → Takes k token.kind c token d → Derives k .expression c node d
  | unary {kind operator operand c c₁ d} : kind = .dash ∨ kind = .not → Takes k kind c operator c₁ →
    Derives k .expression c₁ operand d →
    Derives k .expression c (.unary operator operand ⟨operator.span.start, operand.span.stop⟩) d
  | parenthesized {opening closing node c c₁ c₂ d} : Takes k .openParen c opening c₁ →
    Derives k .expression c₁ node c₂ → Takes k .closeParen c₂ closing d → Derives k .expression c node d
  | functionLiteral {function c d} : Derives k .function c function d → Derives k .expression c (.function function) d
  | list {opening closing nodes node c c₁ c₂ d} : Takes k .openBracket c opening c₁ → Derives k .elements c₁ nodes c₂ →
    Takes k .closeBracket c₂ closing d → listNode nodes (d.spanSince c.position) = .ok node →
    Derives k .expression c node d
  | arrayLiteral {form element elements node c c₁ d} : Derives k .arrayHead c (form, element) c₁ →
    Derives k (.option .braced) c₁ elements d → StartOf tokens c.position →
    arrayNode (some element) form elements (d.spanSince c.position) = .ok node → Derives k .expression c node d
  -- array literals up to their elements
  | unsizedHead {form element c c₁ d} : Derives k .size c form c₁ → form = .slice ∨ form = .counted →
    Derives k .type c₁ element d → Derives k .arrayHead c (form, element) d
  | sizedHead {opening closing nodes size element c c₁ c₂ c₃ d} : Takes k .openBracket c opening c₁ →
    Derives k .elements c₁ nodes c₂ → Takes k .closeBracket c₂ closing c₃ → writtenSize? nodes = some size →
    Derives k .type c₃ element d → Derives k .arrayHead c (.sized size, element) d
  | nestedHead {opening closing opening' closing' nodes position size element c c₁ c₂ c₃ c₄ c₅ c₆ d} :
    Takes k .openBracket c opening c₁ → Derives k .elements c₁ nodes c₂ → Takes k .closeBracket c₂ closing c₃ →
    writtenSize? nodes = some size → Takes k .openBracket c₃ opening' c₄ → Derives k .expression c₄ position c₅ →
    Takes k .closeBracket c₅ closing' c₆ → Derives k .type c₆ element d →
    Derives k .arrayHead c (.sized size, .array element) d
  -- what continues an operand
  | binary {kind left operator right c c₁ c₂ d} : Derives k .expression c left c₁ →
    (Precedence.binary? kind).isSome → Takes k kind c₁ operator c₂ → Derives k .expression c₂ right d →
    Derives k .expression c (.binary left operator right ⟨left.span.start, right.span.stop⟩) d
  | call {opening closing callee span arguments c c₁ c₂ c₃ d} : Derives k .expression c (.identifier callee span) c₁ →
    Takes k .openParen c₁ opening c₂ → Derives k .elements c₂ arguments c₃ → Takes k .closeParen c₃ closing d →
    Derives k .expression c (.call callee arguments (d.spanSince span.start)) d
  | index {opening closing left position c c₁ c₂ c₃ d} : Derives k .expression c left c₁ →
    Takes k .openBracket c₁ opening c₂ → Derives k .expression c₂ position c₃ → Takes k .closeBracket c₃ closing d →
    Derives k .expression c (.index left position (d.spanSince left.span.start)) d
  -- lists of expressions
  | noElements {c} : Derives k .elements c [] c
  | lastElement {node c d} : Derives k .expression c node d → Derives k .elements c [node] d
  | nextElement {comma node nodes c c₁ c₂ d} : Derives k .expression c node c₁ → Takes k .comma c₁ comma c₂ →
    Derives k .elements c₂ nodes d → Derives k .elements c (node :: nodes) d
  | braced {opening closing nodes c c₁ c₂ d} : Takes k .openCurly c opening c₁ → Derives k .elements c₁ nodes c₂ →
    Takes k .closeCurly c₂ closing d → Derives k .braced c nodes d
  -- declarations
  | initial {sign value c c₁ d} : Takes k .assign c sign c₁ → Derives k .expression c₁ value d →
    Derives k .initial c value d
  | declared {constant start name explicit written declaration c c₁ c₂ d} : Takes k .identifier c name c₁ →
    Derives k (.option .type) c₁ explicit c₂ → Derives k (.option .initial) c₂ written d → StartOf tokens start →
    declarationOf name constant explicit written (d.spanSince start) = .ok declaration →
    Derives k (.declared constant start) c declaration d
  | noMembers {constant c} : k.Holds c → Derives k (.members constant) c [] c.dropSemicolons
  | nextMember {constant member members c c₁ d} : k.Holds c →
    Derives k (.declared constant c.dropSemicolons.position) c.dropSemicolons member c₁ →
    Derives k (.members constant) c₁ members d → Derives k (.members constant) c (member :: members) d
  -- statements
  | declaration {kind keyword declaration c c₁ d} : kind = .varWord ∨ kind = .constWord → Takes k kind c keyword c₁ →
    Derives k (.declared (kind == .constWord) keyword.span.start) c₁ declaration d →
    Derives k .statement c (.declaration declaration) d
  | group {kind keyword opening closing members c c₁ c₂ c₃ d} : kind = .varWord ∨ kind = .constWord →
    Takes k kind c keyword c₁ → Takes k .openParen c₁ opening c₂ →
    Derives k (.members (kind == .constWord)) c₂ members c₃ → Takes k .closeParen c₃ closing d →
    Derives k .statement c (.declaration ⟨"", kind == .constWord, none, none, none, some members,
      d.spanSince keyword.span.start⟩) d
  | shortDeclaration {name sign value declaration c c₁ c₂ d} : Takes k .identifier c name c₁ →
    Takes k .declare c₁ sign c₂ → Derives k .expression c₂ value d →
    declarationOf name false none (some value) (d.spanSince name.span.start) = .ok declaration →
    Derives k .statement c (.declaration declaration) d
  | assignment {name sign value c c₁ c₂ d} : Takes k .identifier c name c₁ → Takes k .assign c₁ sign c₂ →
    Derives k .expression c₂ value d →
    Derives k .statement c (.assignment name.value value (d.spanSince name.span.start)) d
  | returning {keyword value c c₁ d} : Takes k .returnWord c keyword c₁ → Derives k (.option .expression) c₁ value d →
    Derives k .statement c (.returning value (d.spanSince keyword.span.start)) d
  | expressionStatement {node c d} : Derives k .expression c node d →
    Derives k .statement c (.expression node node.span) d
  | conditional {keyword condition consequence otherwise c c₁ c₂ c₃ d} : Takes k .ifWord c keyword c₁ →
    Derives k .expression c₁ condition c₂ → Derives k .block c₂ consequence c₃ →
    Derives k (.option .alternative) c₃ otherwise d →
    Derives k .statement c (.conditional condition consequence otherwise (d.spanSince keyword.span.start)) d
  | functionDeclaration {function c d} : Derives k .function c function d →
    Derives k .statement c (.function function) d
  | terminated {node c c₁} : Derives k .statement c node c₁ → k.Holds c₁ → Derives k .statement c node c₁.dropSemicolons
  -- blocks
  | noStatements {c} : k.Holds c → Derives k .statements c [] c.dropSemicolons
  | nextStatement {node nodes c c₁ d} : k.Holds c → Derives k .statement c.dropSemicolons node c₁ →
    Derives k .statements c₁ nodes d → Derives k .statements c (node :: nodes) d
  | block {brace closing body c c₁ c₂ d} : Takes k .openCurly c brace c₁ → Derives k .statements c₁ body c₂ →
    Takes k .closeCurly c₂ closing d → Derives k .block c ⟨body, d.spanSince brace.span.start⟩ d
  | elseBlock {word block c c₁ d} : Takes k .elseWord c word c₁ → Derives k .block c₁ block d →
    Derives k .alternative c block d
  | elseIf {word inner c c₁ d} : Takes k .elseWord c word c₁ → Derives k .statement c₁ inner d →
    Derives k .alternative c ⟨[inner], d.spanSince c₁.position⟩ d
  -- functions
  | name {token c d} : Takes k .identifier c token d → Derives k .name c token.value d
  | noNames {c} : Derives k .waiting c ([], []) c
  | untypedName {name pending parameters c c₁ d} : Derives k .waiting c (pending, parameters) c₁ →
    Takes k .identifier c₁ name d → Derives k .waiting c (pending ++ [name], parameters) d
  | typedNames {name pending parameters type c c₁ c₂ d} : Derives k .waiting c (pending, parameters) c₁ →
    Takes k .identifier c₁ name c₂ → Derives k .type c₂ type d →
    Derives k .waiting c ([], parameters ++ typedParameters pending name type (d.spanSince name.span.start)) d
  | nextName {comma state c c₁ d} : Derives k .waiting c state c₁ → Takes k .comma c₁ comma d →
    Derives k .waiting c state d
  | parameters {parameters c d} : Derives k .waiting c ([], parameters) d → Derives k .parameters c parameters d
  | variadic {name dots parameters element c c₁ c₂ c₃ d} : Derives k .waiting c ([], parameters) c₁ →
    Takes k .identifier c₁ name c₂ → Takes k .ellipsis c₂ dots c₃ → Derives k .type c₃ element d →
    Derives k .parameters c (parameters ++ [⟨name.value, .array element, true, d.spanSince name.span.start⟩]) d
  | lastComma {comma parameters c c₁ d} : Derives k .parameters c parameters c₁ → Takes k .comma c₁ comma d →
    Derives k .parameters c parameters d
  | function {keyword opening closing name parameters returns body c c₁ c₂ c₃ c₄ c₅ c₆ d} :
    Takes k .funcWord c keyword c₁ → Derives k (.option .name) c₁ name c₂ → Takes k .openParen c₂ opening c₃ →
    Derives k .parameters c₃ parameters c₄ → Takes k .closeParen c₄ closing c₅ →
    Derives k (.option .type) c₅ returns c₆ → Derives k .block c₆ body d →
    Derives k .function c ⟨name, parameters, returns, body, d.spanSince keyword.span.start⟩ d

/-! ### Brackets -/

theorem Primitive.plain {type : GoType} (h : Primitive kind type) : kind.Plain := by
  cases h <;> decide

theorem Atom.plain {node : Node} (h : Atom token node) : token.kind.Plain := by
  cases h with
  | integer hkind _ => exact hkind ▸ by decide
  | identifier hkind | string hkind | trueWord hkind | falseWord hkind => exact hkind ▸ by decide

theorem TokenKind.plain_of_binary? (h : (Precedence.binary? kind).isSome) : kind.Plain := by
  cases kind <;> first | decide | cases h

theorem TokenKind.plain_of_unary (h : kind = .dash ∨ kind = .not) : kind.Plain := by
  rcases h with rfl | rfl <;> decide

theorem TokenKind.plain_of_declaration (h : kind = .varWord ∨ kind = .constWord) : kind.Plain := by
  rcases h with rfl | rfl <;> decide

namespace Derives

variable {k : Knowledge tokens} {phrase : Phrase} {value : phrase.Value}

open Cursor

/-- **A phrase is made of usable tokens, closes every bracket that it opens, and no other.** -/
theorem balances (h : Derives k phrase cursor value later) : cursor.Balances later := by
  induction h with
  | absent | noElements | noNames => exact .refl _
  | present _ ih | functionLiteral _ ih | lastElement _ ih | expressionStatement _ ih | functionDeclaration _ ih
  | parameters _ ih => exact ih
  | primitive hprimitive htoken => exact htoken.balances hprimitive.plain
  | array _ _ ihsize ihtype => exact ihsize.trans ihtype
  | slice hopen hclose => exact hopen.encloses (.refl _) hclose rfl rfl
  | counted hopen hdots hclose => exact hopen.encloses (hdots.balances (by decide)) hclose rfl rfl
  | sized hopen hnumber _ hclose => exact hopen.encloses (hnumber.balances (by decide)) hclose rfl rfl
  | atom hatom htoken => exact htoken.balances hatom.plain
  | unary hkind hoperator _ ih => exact (hoperator.balances (TokenKind.plain_of_unary hkind)).trans ih
  | parenthesized hopen _ hclose ih => exact hopen.encloses ih hclose rfl rfl
  | list hopen _ hclose _ ih => exact hopen.encloses ih hclose rfl rfl
  | arrayLiteral _ _ _ _ ihhead ihelements => exact ihhead.trans ihelements
  | unsizedHead _ _ _ ihsize ihtype => exact ihsize.trans ihtype
  | sizedHead hopen _ hclose _ _ ihnodes ihtype => exact (hopen.encloses ihnodes hclose rfl rfl).trans ihtype
  | nestedHead hopen _ hclose _ hopen' _ hclose' _ ihnodes ihposition ihtype =>
    exact (hopen.encloses ihnodes hclose rfl rfl).trans ((hopen'.encloses ihposition hclose' rfl rfl).trans ihtype)
  | binary _ hkind hoperator _ ihleft ihright =>
    exact ihleft.trans ((hoperator.balances (TokenKind.plain_of_binary? hkind)).trans ihright)
  | call _ hopen _ hclose ihcallee iharguments => exact ihcallee.trans (hopen.encloses iharguments hclose rfl rfl)
  | index _ hopen _ hclose ihleft ihposition => exact ihleft.trans (hopen.encloses ihposition hclose rfl rfl)
  | nextElement _ hcomma _ ihnode ihnodes => exact ihnode.trans ((hcomma.balances (by decide)).trans ihnodes)
  | braced hopen _ hclose ih => exact hopen.encloses ih hclose rfl rfl
  | initial hsign _ ih => exact (hsign.balances (by decide)).trans ih
  | declared hname _ _ _ _ ihtype ihvalue => exact (hname.balances (by decide)).trans (ihtype.trans ihvalue)
  | noMembers _ | noStatements _ => exact balances_dropSemicolons _
  | nextMember _ _ _ ihmember ihmembers => exact (balances_dropSemicolons _).trans (ihmember.trans ihmembers)
  | declaration hkind hkeyword _ ih => exact (hkeyword.balances (TokenKind.plain_of_declaration hkind)).trans ih
  | group hkind hkeyword hopen _ hclose ih =>
    exact (hkeyword.balances (TokenKind.plain_of_declaration hkind)).trans (hopen.encloses ih hclose rfl rfl)
  | shortDeclaration hname hsign _ _ ih | assignment hname hsign _ ih =>
    exact (hname.balances (by decide)).trans ((hsign.balances (by decide)).trans ih)
  | returning hkeyword _ ih => exact (hkeyword.balances (by decide)).trans ih
  | conditional hkeyword _ _ _ ihcondition ihconsequence ihotherwise =>
    exact (hkeyword.balances (by decide)).trans (ihcondition.trans (ihconsequence.trans ihotherwise))
  | terminated _ _ ih => exact ih.trans (balances_dropSemicolons _)
  | nextStatement _ _ _ ihnode ihnodes => exact (balances_dropSemicolons _).trans (ihnode.trans ihnodes)
  | block hopen _ hclose ih => exact hopen.encloses ih hclose rfl rfl
  | elseBlock hword _ ih | elseIf hword _ ih => exact (hword.balances (by decide)).trans ih
  | name htoken => exact htoken.balances (by decide)
  | untypedName _ hname ih => exact ih.trans (hname.balances (by decide))
  | typedNames _ hname _ ih ihtype => exact ih.trans ((hname.balances (by decide)).trans ihtype)
  | nextName _ hcomma ih | lastComma _ hcomma ih => exact ih.trans (hcomma.balances (by decide))
  | variadic _ hname hdots _ ih ihtype =>
    exact ih.trans ((hname.balances (by decide)).trans ((hdots.balances (by decide)).trans ihtype))
  | function hkeyword _ hopen _ hclose _ _ ihname ihparameters ihreturns ihbody =>
    exact (hkeyword.balances (by decide)).trans (ihname.trans ((hopen.encloses ihparameters hclose rfl rfl).trans
      (ihreturns.trans ihbody)))

end Derives

/-! ### Where nodes start -/

/-- Every node of a tree starts where a token does that can be read. -/
abbrev Node.Anchored (tokens : List Token) (root : Node) : Prop :=
  root.StartsIn (StartOf tokens)

/-- What is built from a phrase starts where tokens do that can be read. -/
def Phrase.Anchored (tokens : List Token) : (phrase : Phrase) → phrase.Value → Prop
  | expression, node | initial, node | statement, node => node.Anchored tokens
  | elements, nodes | braced, nodes | statements, nodes => ∀ node ∈ nodes, node.Anchored tokens
  | declared _ _, declaration => (Node.declaration declaration).Anchored tokens
  | members _, declarations => ∀ member ∈ declarations, (Node.declaration member).Anchored tokens
  | block, b | alternative, b => ∀ statement ∈ b.body, statement.Anchored tokens
  | waiting, (pending, _) => ∀ name ∈ pending, StartOf tokens name.span.start
  | function, f => (Node.function f).Anchored tokens
  | option phrase, value => ∀ inner ∈ value, phrase.Anchored tokens inner
  | type, _ | size, _ | arrayHead, _ | name, _ | parameters, _ => True

theorem Atom.anchored {node : Node} (h : Atom token node) (hstart : StartOf tokens token.span.start) :
    node.Anchored tokens := by
  cases h <;> exact .of_parts hstart nofun

theorem anchored_of_arrayNode {element : Option GoType} {form : ArrayForm} {elements : Option (List Node)} {span : Span}
    {node : Node} (h : arrayNode element form elements span = .ok node) (hspan : StartOf tokens span.start)
    (helements : ∀ nodes ∈ elements, ∀ node ∈ nodes, node.Anchored tokens) : node.Anchored tokens := by
  obtain ⟨rfl, -⟩ := arrayNode_eq_ok h
  refine .of_parts hspan fun part hpart => ?_
  cases elements with
  | none => cases hpart
  | some nodes => exact helements nodes rfl part hpart

/-- The value of a declared name is what was written as its value, up to the name of a function. -/
theorem anchored_of_valueAndType (name : String) {written : Option Node}
    (hwritten : ∀ node ∈ written, node.Anchored tokens) : ∀ node ∈ (valueAndType name written).1,
      node.Anchored tokens := by
  unfold valueAndType
  split
  · exact nofun
  · next function =>
    have hfunction := hwritten (.function function) rfl
    rintro _ ⟨⟩
    exact .of_parts (hfunction (.function function) (.self _)) fun part hpart => hfunction.part hpart
  · exact hwritten
  · exact hwritten

theorem anchored_of_declarationOf {name : Token} {constant : Bool} {explicit : Option GoType} {written : Option Node}
    {span : Span} {declaration : Declaration}
    (h : declarationOf name constant explicit written span = .ok declaration) (hspan : StartOf tokens span.start)
    (hwritten : ∀ node ∈ written, node.Anchored tokens) : (Node.declaration declaration).Anchored tokens := by
  obtain ⟨value, inferred, hvalue, rfl, -⟩ := declarationOf_eq_ok h
  have hanchored := anchored_of_valueAndType name.value hwritten
  rw [hvalue] at hanchored
  exact .of_parts hspan (by simpa [Node.parts] using hanchored)

namespace Derives

variable {k : Knowledge tokens} {phrase : Phrase} {value : phrase.Value}

open Node.StartsIn

/-- **What is built from a phrase starts where tokens do.** -/
theorem anchored (h : Derives k phrase cursor value later) : phrase.Anchored tokens value := by
  induction h with
  | primitive | array | slice | counted | sized | unsizedHead | sizedHead | nestedHead | name | parameters | variadic
  | lastComma => trivial
  | absent => exact nofun
  | noElements | noMembers | noStatements | noNames => exact fun _ hmem => absurd hmem List.not_mem_nil
  | present _ ih =>
    rintro _ ⟨⟩
    exact ih
  | functionLiteral _ ih | parenthesized _ _ _ ih | braced _ _ _ ih | initial _ _ ih | declaration _ _ _ ih
  | functionDeclaration _ ih | terminated _ _ ih | block _ _ _ ih | elseBlock _ _ ih | nextName _ _ ih => exact ih
  | atom hatom htoken => exact hatom.anchored htoken.startOf
  | unary _ hoperator _ ih => exact of_parts hoperator.startOf (List.forall_mem_singleton.2 ih)
  | list hopen _ _ hnode ih =>
    obtain ⟨first, rest, -, hnode⟩ := listNode_eq_ok hnode
    refine anchored_of_arrayNode hnode (hopen.position_eq ▸ hopen.startOf) ?_
    rintro _ ⟨⟩
    exact ih
  | arrayLiteral _ _ hstart hnode _ ih => exact anchored_of_arrayNode hnode hstart ih
  | binary _ _ _ _ ihleft ihright =>
    exact of_start ihleft rfl (List.forall_mem_cons.2 ⟨ihleft, List.forall_mem_singleton.2 ihright⟩)
  | call _ _ _ _ ihcallee iharguments => exact of_start ihcallee rfl iharguments
  | index _ _ _ _ ihleft ihposition =>
    exact of_start ihleft rfl (List.forall_mem_cons.2 ⟨ihleft, List.forall_mem_singleton.2 ihposition⟩)
  | lastElement _ ih => exact List.forall_mem_singleton.2 ih
  | nextElement _ _ _ ihnode ihnodes => exact List.forall_mem_cons.2 ⟨ihnode, ihnodes⟩
  | declared _ _ _ hstart hdeclaration _ ih => exact anchored_of_declarationOf hdeclaration hstart ih
  | nextMember _ _ _ ihmember ihmembers => exact List.forall_mem_cons.2 ⟨ihmember, ihmembers⟩
  | group _ hkeyword _ _ _ ih => exact of_parts hkeyword.startOf (List.forall_mem_map.2 ih)
  | shortDeclaration hname _ _ hdeclaration ih =>
    refine anchored_of_declarationOf hdeclaration hname.startOf ?_
    rintro _ ⟨⟩
    exact ih
  | assignment hname _ _ ih => exact of_parts hname.startOf (List.forall_mem_singleton.2 ih)
  | returning hkeyword _ ih =>
    exact of_parts hkeyword.startOf fun part hpart => ih part (Option.mem_toList.1 hpart)
  | expressionStatement _ ih => exact of_start ih rfl (List.forall_mem_singleton.2 ih)
  | @conditional _ _ _ otherwise _ _ _ _ _ hkeyword _ _ _ ihcondition ihconsequence ihotherwise =>
    refine of_parts hkeyword.startOf (List.forall_mem_cons.2 ⟨ihcondition, ?_⟩)
    refine List.forall_mem_append.2 ⟨ihconsequence, ?_⟩
    cases otherwise with
    | none => exact nofun
    | some block => exact ihotherwise block rfl
  | nextStatement _ _ _ ihnode ihnodes => exact List.forall_mem_cons.2 ⟨ihnode, ihnodes⟩
  | elseIf _ _ ih => exact List.forall_mem_singleton.2 ih
  | untypedName _ hname ih => exact List.forall_mem_append.2 ⟨ih, List.forall_mem_singleton.2 hname.startOf⟩
  | typedNames => exact fun _ hmem => absurd hmem List.not_mem_nil
  | function hkeyword _ _ _ _ _ _ _ _ _ ihbody => exact of_parts hkeyword.startOf ihbody

end Derives

end GoScript
