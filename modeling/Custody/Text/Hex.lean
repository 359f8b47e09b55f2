import Custody.Text.Utf8

/-!
# Hexadecimal text

Bytes as lower-case hexadecimal digits, two for each byte.
-/

namespace Custody.Hex

/-- The two digits of a byte. -/
def digits (b : UInt8) : List Char :=
  [Nat.digitChar (b.toNat / 16), Nat.digitChar (b.toNat % 16)]

/-- The digits of a byte string. -/
def write (bytes : Bytes) : String := String.ofList (bytes.flatMap digits)

end Custody.Hex
