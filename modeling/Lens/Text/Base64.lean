import Lens.Text.Str

/-!
# Base64

The engine of a base64 library is a parameter, with what is used of it: it decodes what it
encodes, and it writes the alphabet of RFC 4648 and the padding.
-/

/-- An engine that writes bytes as text. -/
class Base64 where
  encode : List UInt8 → String
  /-- The bytes of a text, or what is wrong with it. -/
  decode : String → Except String (List UInt8)
  decode_encode : ∀ bytes, decode (encode bytes) = .ok bytes
  alphabet : ∀ bytes, ∀ c ∈ (encode bytes).toList, c.isAlphanum = true ∨ c ∈ ['+', '/', '=']
