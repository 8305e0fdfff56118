/-! # Text in bytes

A line arrives as bytes and is text when the bytes are the UTF-8 form of some characters.
`decode?_eq_some_iff` says that reading takes back exactly what writing gives, so that a line
has at most one reading.
-/

namespace Polish.Text

def encode (cs : List Char) : List UInt8 :=
  cs.flatMap String.utf8EncodeChar

/-- The characters that `bytes` is the UTF-8 form of, if there are any. -/
def decode? (bytes : List UInt8) : Option (List Char) :=
  (String.fromUTF8? bytes.toByteArray).map String.toList

theorem toByteArray_ofList_eq (cs : List Char) :
    (String.ofList cs).toByteArray = (encode cs).toByteArray := by
  simp [String.toByteArray_ofList, List.utf8Encode, encode]

theorem decode?_encode (cs : List Char) : decode? (encode cs) = some cs := by
  unfold decode? String.fromUTF8?
  rw [← toByteArray_ofList_eq, dif_pos (String.isValidUTF8 _), Option.map_some]
  exact congrArg some String.toList_ofList

theorem encode_of_decode? {bytes : List UInt8} {cs : List Char} (h : decode? bytes = some cs) :
    encode cs = bytes := by
  obtain ⟨s, hs, rfl⟩ := Option.map_eq_some_iff.1 h
  unfold String.fromUTF8? at hs
  split at hs
  · next valid =>
    cases hs
    apply List.toByteArray_inj.1
    rw [← toByteArray_ofList_eq, String.ofList_toList]
    rfl
  · contradiction

theorem decode?_eq_some_iff {bytes : List UInt8} {cs : List Char} :
    decode? bytes = some cs ↔ encode cs = bytes :=
  ⟨encode_of_decode?, fun h => h ▸ decode?_encode cs⟩

end Polish.Text
