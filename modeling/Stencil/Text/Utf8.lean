import Stencil.Text.Basic

/-!
# UTF-8

The bytes that a text is kept in, and the text that bytes hold. Bytes that no text is written in hold nothing.
-/

namespace Stencil.Text

/-- The bytes of a text in UTF-8. -/
def utf8 (t : Text) : List UInt8 := t.flatMap String.utf8EncodeChar

/-- The text that bytes hold. -/
def ofUtf8? (bytes : List UInt8) : Option Text := (ByteArray.utf8Decode? ⟨bytes.toArray⟩).map Array.toList

end Stencil.Text
