/-!
# Text as bytes

Texts are written as UTF-8, and byte strings are read as text only where they are valid UTF-8.
`Utf8.decode_encode` says that reading gives back what was written.
-/

namespace TraceAtlas.Utf8

def encode (s : String) : List UInt8 := s.toByteArray.data.toList

/-- The text that a byte string spells, if it is valid UTF-8. -/
def decode (bs : List UInt8) : Option String := String.fromUTF8? ⟨bs.toArray⟩

@[simp] theorem decode_encode (s : String) : decode (encode s) = some s := by
  simp [decode, encode, String.fromUTF8?, s.isValidUTF8, String.fromUTF8]

/-- What is read as text is written back as the same bytes. -/
theorem encode_of_decode {bs : List UInt8} {s : String} (h : decode bs = some s) :
    encode s = bs := by
  unfold decode String.fromUTF8? at h
  split at h
  · cases h; simp [encode, String.fromUTF8]
  · cases h

end TraceAtlas.Utf8
