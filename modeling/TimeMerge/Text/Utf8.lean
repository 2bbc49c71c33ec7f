/-!
Text as bytes. `encode` writes each character in UTF-8; `decode` accepts exactly such bytes and
otherwise tells how many bytes at the front form whole characters.
-/
namespace TimeMerge

abbrev Bytes := List UInt8

namespace Utf8

def encode (s : String) : Bytes := s.toList.flatMap String.utf8EncodeChar

theorem toByteArray_encode (s : String) : (encode s).toByteArray = s.toByteArray := by
  conv => rhs; rw [← String.ofList_toList (s := s), String.toByteArray_ofList]
  rfl

theorem encode_append (s t : String) : encode (s ++ t) = encode s ++ encode t := by
  simp [encode]

/-- The position at which whole characters, read from position `i` on, come to an end. -/
def wholeLength (bytes : ByteArray) (i : Nat) : Nat :=
  match _h : bytes.utf8DecodeChar? i with
  | none => i
  | some c => wholeLength bytes (i + c.utf8Size)
termination_by bytes.size - i
decreasing_by
  have := ByteArray.le_size_of_utf8DecodeChar?_eq_some _h
  have := c.utf8Size_pos
  omega

def decode (bytes : Bytes) : Except Nat String :=
  match String.fromUTF8? bytes.toByteArray with
  | some s => .ok s
  | none => .error (wholeLength bytes.toByteArray 0)

theorem decode_encode (s : String) : decode (encode s) = .ok s := by
  rw [decode, toByteArray_encode, String.fromUTF8?, dif_pos s.isValidUTF8]
  rfl

end Utf8

end TimeMerge
