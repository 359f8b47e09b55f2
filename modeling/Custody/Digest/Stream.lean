import Custody.Text.Utf8

/-!
# Hash streams

What is hashed is a byte stream from which the hashed values can be told: numbers have a fixed
width, and a byte string is preceded by its length.
-/

namespace Custody.Stream

/-- The given number of low bytes of a number, the least significant first. -/
def lowBytes : Nat → Nat → Bytes
  | 0, _ => []
  | k + 1, n => UInt8.ofNat (n % 256) :: lowBytes k (n / 256)

/-- A number of at most 64 bits in eight bytes, the least significant first. -/
def word (n : Nat) : Bytes := lowBytes 8 n

/-- A byte string after its length. -/
def framed (bytes : Bytes) : Bytes := word bytes.length ++ bytes

end Custody.Stream
