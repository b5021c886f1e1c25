/-!
# Text in files: UTF-8

Files hold bytes; names and numbers are text. Here is the way between the two.

* `encode`, `decode?`: a text as bytes, and the text that bytes spell if they spell one.
* `validLength`: how far bytes go before the first one that rules a text out; it is the length of
  the bytes exactly when they spell a text.
* `decode?_encode`: encoded text decodes to itself.
-/

namespace BenchRatio

/-- The content of a file, or of a part of one. -/
abbrev Bytes := List UInt8

namespace Utf8

/-- The bytes of a text. -/
def encode (s : String) : Bytes := s.toUTF8.data.toList

/-- The text that the bytes spell, if they are well-formed UTF-8. -/
def decode? (bytes : Bytes) : Option String := String.fromUTF8? ⟨bytes.toArray⟩

/-- The end of the well-formed characters that start at byte `i`. -/
def validEnd (bytes : ByteArray) (i : Nat) : Nat :=
  if i < bytes.size then
    match bytes.utf8DecodeChar? i with
    | none => i
    | some c => validEnd bytes (i + c.utf8Size)
  else i
termination_by bytes.size - i
decreasing_by have := c.utf8Size_pos; omega

/-- The length of the longest well-formed start of the bytes. -/
def validLength (bytes : Bytes) : Nat := validEnd ⟨bytes.toArray⟩ 0

theorem decode?_encode (s : String) : decode? (encode s) = some s := by
  have h : (⟨(encode s).toArray⟩ : ByteArray) = s.toUTF8 := rfl
  rw [decode?, h, String.fromUTF8?, String.toUTF8_eq_toByteArray, dif_pos s.isValidUTF8]
  rfl

end Utf8

end BenchRatio
