import Custody.Json.Value
import Custody.Text.Utf8

/-!
# Compact JSON text

Values are written without blanks, members in their order.  Strings escape the quotation mark,
the backslash and the control characters below U+0020; five of these have a short form, the
others are written `\u00xx` in lower case.  Everything else stands for itself.
-/

namespace Custody.Json

/-- The digits `0 … 9`, `a … f`. -/
def hexDigit (n : Nat) : Char := Nat.digitChar n

/-- How a character is written inside a string. -/
def escape (c : Char) : List Char :=
  if c = '"' then ['\\', '"']
  else if c = '\\' then ['\\', '\\']
  else if 0x20 ≤ c.toNat then [c]
  else if c.toNat = 8 then ['\\', 'b']
  else if c.toNat = 9 then ['\\', 't']
  else if c.toNat = 10 then ['\\', 'n']
  else if c.toNat = 12 then ['\\', 'f']
  else if c.toNat = 13 then ['\\', 'r']
  else ['\\', 'u', '0', '0', hexDigit (c.toNat / 16), hexDigit (c.toNat % 16)]

/-- A string with its quotation marks. -/
def quoted (s : String) : List Char := '"' :: (s.toList.flatMap escape ++ ['"'])

/-- A whole number. -/
def intChars (n : Int) : List Char :=
  if n < 0 then '-' :: Nat.toDigits 10 n.natAbs else Nat.toDigits 10 n.natAbs

/-- A number as a whole number of powers of ten. -/
def realChars (negative : Bool) (mantissa : Nat) (exponent : Int) : List Char :=
  (if negative then ['-'] else []) ++ Nat.toDigits 10 mantissa ++ 'e' :: intChars exponent

mutual

/-- The compact text of a value, as characters.  An unreadable part is written as a string that
holds an unpaired surrogate. -/
def chars : Json → List Char
  | null => ['n', 'u', 'l', 'l']
  | bool true => ['t', 'r', 'u', 'e']
  | bool false => ['f', 'a', 'l', 's', 'e']
  | int n => intChars n
  | real negative mantissa exponent => realChars negative mantissa exponent
  | text s => quoted s
  | list [] => ['[', ']']
  | list (j :: rest) => '[' :: (chars j ++ itemsTail rest)
  | object [] => ['{', '}']
  | object ((name, j) :: rest) => '{' :: (quoted name ++ ':' :: (chars j ++ membersTail rest))
  | unreadable => ['"', '\\', 'u', 'd', '8', '0', '0', '"']

/-- The items after the first, and the closing bracket. -/
def itemsTail : List Json → List Char
  | [] => [']']
  | j :: rest => ',' :: (chars j ++ itemsTail rest)

/-- The members after the first, and the closing brace. -/
def membersTail : List (String × Json) → List Char
  | [] => ['}']
  | (name, j) :: rest => ',' :: (quoted name ++ ':' :: (chars j ++ membersTail rest))

end

/-- The compact text of a value. -/
def render (j : Json) : String := String.ofList j.chars

/-- The compact text of a value, in bytes. -/
def bytes (j : Json) : Bytes := Utf8.encode j.chars

end Custody.Json
