/-!
# Byte widths

Offsets in a source text count the bytes of its UTF-8 encoding.  A text is
handled as a list of characters; `width` is the number of bytes the list
takes, and `dropWidth` moves to the last character boundary at or before a
byte offset.
-/

namespace ArityScript.Text

/-- The number of bytes in the UTF-8 encoding of a text. -/
def width : List Char → Nat
  | [] => 0
  | c :: rest => c.utf8Size + width rest

@[simp] theorem width_nil : width [] = 0 := rfl

@[simp] theorem width_cons (c : Char) (rest : List Char) :
    width (c :: rest) = c.utf8Size + width rest := rfl

@[simp] theorem width_append (front back : List Char) :
    width (front ++ back) = width front + width back := by
  induction front with
  | nil => simp
  | cons c rest ih => simp [ih, Nat.add_assoc]

theorem width_pos {chars : List Char} (hne : chars ≠ []) : 0 < width chars := by
  cases chars with
  | nil => exact absurd rfl hne
  | cons c rest =>
      have hsize := c.utf8Size_pos
      rw [width_cons]
      omega

theorem width_le_of_suffix {chars other : List Char} (hsuffix : chars <:+ other) :
    width chars ≤ width other := by
  obtain ⟨front, rfl⟩ := hsuffix
  rw [width_append]
  exact Nat.le_add_left _ _

theorem width_toList (s : String) : width s.toList = s.utf8ByteSize := by
  obtain ⟨chars, rfl⟩ : ∃ chars, s = String.ofList chars := ⟨s.toList, by simp⟩
  rw [String.toList_ofList]
  induction chars with
  | nil => rfl
  | cons c rest ih =>
      rw [String.ofList_cons, String.utf8ByteSize_append, String.utf8ByteSize_singleton, ← ih,
        width_cons]

/-- What is left of a text after its first `bytes` bytes.  An offset inside a
character counts as the start of that character. -/
def dropWidth : Nat → List Char → List Char
  | _, [] => []
  | bytes, c :: rest =>
      if c.utf8Size ≤ bytes then dropWidth (bytes - c.utf8Size) rest
      else c :: rest

end ArityScript.Text
