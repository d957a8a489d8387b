import GoScript.Proofs.Places

/-!
# Pieces of a tree, and tokens in order

Nodes, blocks and parameters have spans.  They are the pieces of a tree, and the tree gives each of them the pieces
right under it, in the order of the source.  The tokens of a text stand one after the other, so what is built from them
can do so, too.

* `Piece`, `Piece.children`, `Piece.Within` — the pieces of a tree
* `Piece.Nests` — spans that nest like the tree; `Row` — such pieces one after the other between two offsets
* `Cursor.Ordered` — tokens one after the other; `Cursor.ordered_ofSource` — those of a source text
-/

namespace GoScript

/-! ### Offsets -/

/-- The number of bytes in front of a position. -/
def Position.byte (position : Position) : Nat :=
  position.offset.toNat

/-- The number of bytes in front of a span. -/
def Span.low (span : Span) : Nat :=
  span.start.byte

/-- The number of bytes up to the end of a span. -/
def Span.high (span : Span) : Nat :=
  span.stop.byte

/-! ### Pieces -/

/-- What has a span of its own in a tree. -/
inductive Piece where
  | node (node : Node)
  | block (block : Block)
  | parameter (parameter : Parameter)

namespace Piece

/-- Where a piece stands. -/
def span : Piece → Span
  | node n => n.span
  | block b => b.span
  | parameter p => p.span

/-- The pieces right under a piece, in the order of the source. -/
def children : Piece → List Piece
  | node (.program b) | node (.block b) | block b => b.body.map node
  | node (.declaration d) => d.value.toList.map node ++ (d.group.getD []).map fun member => node (.declaration member)
  | node (.assignment _ value _) => [node value]
  | node (.returning value _) => value.toList.map node
  | node (.expression e _) => [node e]
  | node (.conditional condition consequence alternative _) =>
    node condition :: block consequence :: alternative.toList.map block
  | node (.unary _ operand _) => [node operand]
  | node (.binary left _ right _) => [node left, node right]
  | node (.function f) => f.parameters.map parameter ++ [block f.body]
  | node (.call _ arguments _) => arguments.map node
  | node (.array _ _ elements _) => (elements.getD []).map node
  | node (.index collection position _) => [node collection, node position]
  | node (.identifier _ _) | node (.integer _ _) | node (.string _ _) | node (.boolean _ _) | parameter _ => []

/-- A piece is a tree itself or lies somewhere in it. -/
inductive Within : Piece → Piece → Prop
  | self (piece : Piece) : Within piece piece
  | child {piece child root : Piece} : child ∈ root.children → Within piece child → Within piece root

/-- **Spans that nest like the tree**: a piece ends no earlier than it starts, the pieces under it stand inside it and
one after the other, and the same goes for each of them. -/
inductive Nests : Piece → Prop
  | intro {piece : Piece} : piece.span.low ≤ piece.span.high →
    (∀ child ∈ piece.children, piece.span.low ≤ child.span.low ∧ child.span.high ≤ piece.span.high) →
    piece.children.Pairwise (fun left right => left.span.high ≤ right.span.low) →
    (∀ child ∈ piece.children, child.Nests) → Nests piece

variable {piece root : Piece}

theorem Nests.le (h : piece.Nests) : piece.span.low ≤ piece.span.high := by
  cases h with
  | intro hle _ _ _ => exact hle

/-- A piece somewhere in a tree nests like the tree, and it ends no later. -/
theorem Nests.within (h : root.Nests) (within : piece.Within root) :
    piece.Nests ∧ piece.span.high ≤ root.span.high := by
  induction within with
  | self => exact ⟨h, Nat.le_refl _⟩
  | child hchild _ ih =>
    cases h with
    | intro _ hbounds _ hnests =>
      obtain ⟨hpiece, hhigh⟩ := ih (hnests _ hchild)
      exact ⟨hpiece, Nat.le_trans hhigh (hbounds _ hchild).2⟩

end Piece

/-! ### Rows -/

/-- Pieces that stand one after the other between two offsets, each of them with spans that nest. -/
structure Row (low : Nat) (pieces : List Piece) (high : Nat) : Prop where
  le : low ≤ high
  bounds : ∀ piece ∈ pieces, low ≤ piece.span.low ∧ piece.span.high ≤ high
  ordered : pieces.Pairwise fun left right => left.span.high ≤ right.span.low
  nests : ∀ piece ∈ pieces, piece.Nests

namespace Row

variable {low middle high : Nat} {front back : List Piece} {piece other : Piece}

theorem nil (h : low ≤ high) : Row low [] high :=
  ⟨h, by simp, .nil, by simp⟩

theorem mono {low' high' : Nat} (h : Row low front high) (hlow : low' ≤ low) (hhigh : high ≤ high') :
    Row low' front high' := by
  refine ⟨Nat.le_trans hlow (Nat.le_trans h.le hhigh), fun piece hpiece => ?_, h.ordered, h.nests⟩
  exact ⟨Nat.le_trans hlow (h.bounds piece hpiece).1, Nat.le_trans (h.bounds piece hpiece).2 hhigh⟩

/-- What stands before an offset and what stands after it. -/
theorem append (h : Row low front middle) (h' : Row middle back high) : Row low (front ++ back) high := by
  have hfront := h.mono (Nat.le_refl low) h'.le
  have hback := h'.mono h.le (Nat.le_refl high)
  refine ⟨hfront.le, List.forall_mem_append.2 ⟨hfront.bounds, hback.bounds⟩, ?_,
    List.forall_mem_append.2 ⟨h.nests, h'.nests⟩⟩
  refine List.pairwise_append.2 ⟨h.ordered, h'.ordered, fun left hleft right hright => ?_⟩
  exact Nat.le_trans (h.bounds left hleft).2 (h'.bounds right hright).1

/-- A piece whose children stand in a row inside it. -/
theorem single (hlow : low ≤ piece.span.low) (h : Row piece.span.low piece.children piece.span.high)
    (hhigh : piece.span.high ≤ high) : Row low [piece] high := by
  have hnests : piece.Nests := .intro h.le h.bounds h.ordered h.nests
  exact ⟨Nat.le_trans hlow (Nat.le_trans h.le hhigh), by simpa using ⟨hlow, hhigh⟩, List.pairwise_singleton _ piece,
    by simpa using hnests⟩

/-- A piece with nothing under it. -/
theorem leaf (hchildren : piece.children = []) (hlow : low ≤ piece.span.low) (hle : piece.span.low ≤ piece.span.high)
    (hhigh : piece.span.high ≤ high) : Row low [piece] high :=
  single hlow (hchildren ▸ .nil hle) hhigh

theorem low_le (h : Row low [piece] high) : low ≤ piece.span.low :=
  (h.bounds piece List.mem_cons_self).1

theorem le_high (h : Row low [piece] high) : piece.span.high ≤ high :=
  (h.bounds piece List.mem_cons_self).2

theorem span_le (h : Row low [piece] high) : piece.span.low ≤ piece.span.high :=
  (h.nests piece List.mem_cons_self).le

/-- A piece starts where it starts. -/
theorem fromLow (h : Row low [piece] high) : Row piece.span.low [piece] high :=
  ⟨Nat.le_trans h.span_le h.le_high, by simpa using h.le_high, h.ordered, h.nests⟩

/-- A piece ends where it ends. -/
theorem upToHigh (h : Row low [piece] high) : Row low [piece] piece.span.high :=
  ⟨Nat.le_trans h.low_le h.span_le, by simpa using h.low_le, h.ordered, h.nests⟩

/-- Another piece with the same span and the same pieces under it. -/
theorem congr (h : Row low [piece] high) (hspan : other.span = piece.span)
    (hchildren : other.children = piece.children) : Row low [other] high := by
  have hnests := h.nests piece List.mem_cons_self
  cases hnests with
  | intro hle hbounds hordered hnests =>
    refine .single (hspan ▸ h.low_le) ?_ (hspan ▸ h.le_high)
    rw [hspan, hchildren]
    exact ⟨hle, hbounds, hordered, hnests⟩

end Row

/-! ### Tokens in order -/

namespace Cursor

/-- The number of bytes in front of the current token. -/
def offset (cursor : Cursor) : Nat :=
  cursor.position.byte

end Cursor

/-- Tokens one after the other, in front of the end of the input at `finish`. -/
def InOrder (finish : Position) : List Token → Prop
  | [] => True
  | token :: rest =>
    token.span.low ≤ token.span.high ∧ token.span.high ≤ (Cursor.mk rest finish).offset ∧ InOrder finish rest

namespace Cursor

variable {cursor : Cursor}

/-- The tokens at a cursor stand one after the other. -/
def Ordered (cursor : Cursor) : Prop :=
  InOrder cursor.finish cursor.rest

/-- The current token starts at the cursor and ends before the next one. -/
theorem Ordered.current (h : cursor.Ordered) :
    cursor.current.span.low ≤ cursor.current.span.high ∧ cursor.current.span.high ≤ cursor.advance.offset := by
  obtain ⟨rest, finish⟩ := cursor
  cases rest with
  | nil => exact ⟨Nat.le_refl _, Nat.le_refl _⟩
  | cons token rest => exact ⟨h.1, h.2.1⟩

theorem Ordered.advance (h : cursor.Ordered) : cursor.advance.Ordered := by
  obtain ⟨rest, finish⟩ := cursor
  cases rest with
  | nil => trivial
  | cons token rest => exact h.2.2

theorem Ordered.offset_le_advance (h : cursor.Ordered) : cursor.offset ≤ cursor.advance.offset :=
  Nat.le_trans h.current.1 h.current.2

theorem Ordered.dropSemicolons (h : cursor.Ordered) :
    cursor.dropSemicolons.Ordered ∧ cursor.offset ≤ cursor.dropSemicolons.offset := by
  obtain ⟨rest, finish⟩ := cursor
  induction rest with
  | nil => exact ⟨trivial, Nat.le_refl _⟩
  | cons token rest ih =>
    by_cases hkind : token.kind = .semicolon
    · have hdrop : (Cursor.mk (token :: rest) finish).dropSemicolons = (Cursor.mk rest finish).dropSemicolons := by
        simp [Cursor.dropSemicolons, hkind]
      obtain ⟨hordered, hle⟩ := ih h.2.2
      rw [hdrop]
      exact ⟨hordered, Nat.le_trans h.offset_le_advance hle⟩
    · have hdrop : (Cursor.mk (token :: rest) finish).dropSemicolons = ⟨token :: rest, finish⟩ :=
        dropSemicolons_of_kind hkind
      rw [hdrop]
      exact ⟨h, Nat.le_refl _⟩

end Cursor

/-- Offsets that do not wrap around are those of the span. -/
theorem Span.bounds_ofBytes (file : String) {offset size : Nat} (h : offset + size < UInt32.size) :
    (Span.ofBytes file offset size).low = offset ∧ (Span.ofBytes file offset size).high = offset + size :=
  ⟨UInt32.toNat_ofNat_of_lt' (by omega), UInt32.toNat_ofNat_of_lt' h⟩

/-- Tokens that cover a text stand one after the other, as long as their offsets do not wrap around. -/
theorem Covering.inOrder {file : String} {offset : Nat} {text : List Char} {tokens : List Token}
    (h : Covering file offset text tokens) {finish : Nat} (hfinish : offset + Text.byteSize text = finish)
    (hsize : finish < UInt32.size) :
    InOrder ⟨UInt32.ofNat finish, file⟩ tokens ∧ offset ≤ (Cursor.mk tokens ⟨UInt32.ofNat finish, file⟩).offset := by
  induction h with
  | done =>
    have hoffset : (Cursor.mk [] ⟨UInt32.ofNat finish, file⟩).offset = finish := UInt32.toNat_ofNat_of_lt' hsize
    exact ⟨trivial, by omega⟩
  | @token offset gap rest kind value tokens hgap hend hne htokens ih =>
    simp only [Text.byteSize_append] at hfinish
    obtain ⟨hordered, hle⟩ := ih (by omega)
    obtain ⟨hlow, hhigh⟩ := Span.bounds_ofBytes file (show offset + Text.byteSize gap +
      Text.byteSize (spelling kind value).toList < UInt32.size by omega)
    refine ⟨⟨?_, ?_, hordered⟩, ?_⟩
    · show (Span.ofBytes file _ _).low ≤ (Span.ofBytes file _ _).high
      omega
    · show (Span.ofBytes file _ _).high ≤ _
      omega
    · show _ ≤ (Span.ofBytes file _ _).low
      omega

/-- **The tokens of a source text stand one after the other.** -/
theorem Cursor.ordered_ofSource {source : String} (hsize : source.utf8ByteSize < UInt32.size) (file : String) :
    (Cursor.ofSource source file).Ordered := by
  rw [← byteSize_toList] at hsize
  exact ((covering_lexemes file source.toList 0).inOrder (Nat.zero_add _) hsize).1

/-- A token that starts at one offset and ends before another. -/
structure Token.Lies (low : Nat) (token : Token) (high : Nat) : Prop where
  start : token.span.low = low
  le : token.span.low ≤ token.span.high
  stop : token.span.high ≤ high

theorem Token.Lies.low_le {low high : Nat} {token : Token} (h : token.Lies low high) : low ≤ token.span.low :=
  Nat.le_of_eq h.start.symm

theorem Token.Lies.le_high {low high : Nat} {token : Token} (h : token.Lies low high) : token.span.low ≤ high :=
  Nat.le_trans h.le h.stop

end GoScript
