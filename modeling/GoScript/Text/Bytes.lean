/-!
# Texts measured in bytes

Positions count the bytes of the UTF-8 form of a text, while the text itself is a list of characters.

* `byteSize` — the number of bytes of a text
* `dropBytes?` — the text from a byte offset on, if a character starts or the text ends there
-/

namespace GoScript.Text

/-- The number of bytes of a text. -/
def byteSize (text : List Char) : Nat :=
  text.foldr (fun c size => c.utf8Size + size) 0

/-- The text after its first `count` bytes; nothing if that is past the end or inside a character. -/
def dropBytes? : List Char → (count : Nat) → Option (List Char)
  | text, 0 => some text
  | [], _ + 1 => none
  | c :: text, count + 1 =>
    if c.utf8Size ≤ count + 1 then dropBytes? text (count + 1 - c.utf8Size) else none

@[simp]
theorem byteSize_nil : byteSize [] = 0 := rfl

@[simp]
theorem byteSize_cons (c : Char) (text : List Char) : byteSize (c :: text) = c.utf8Size + byteSize text := rfl

@[simp]
theorem byteSize_append (front back : List Char) :
    byteSize (front ++ back) = byteSize front + byteSize back := by
  induction front with
  | nil => simp
  | cons c front ih => simp [ih, Nat.add_assoc]

/-- Dropping the bytes of a front part leaves the back part. -/
theorem dropBytes?_byteSize_append (front back : List Char) :
    dropBytes? (front ++ back) (byteSize front) = some back := by
  induction front with
  | nil => cases back <;> rfl
  | cons c front ih =>
    have hc : 0 < c.utf8Size := c.utf8Size_pos
    obtain ⟨k, hk⟩ : ∃ k, byteSize (c :: front) = k + 1 := ⟨byteSize (c :: front) - 1, by simp; omega⟩
    rw [hk, List.cons_append, dropBytes?, if_pos (by simp at hk; omega)]
    have : k + 1 - c.utf8Size = byteSize front := by simp at hk; omega
    rw [this, ih]

end GoScript.Text
