/-!
# JSON values

The values that a JSON text denotes.  Whole numbers are kept apart from other numbers: a number
written with a fraction or an exponent, and `-0`, is a `real`, from which no record field is
read.  A well-formed part of a text that has no value here is `unreadable`: a reader may skip
it, as it skips any member it does not know, but cannot read it.

* `Json.isReadable`: nothing in the value is unreadable.
* `Json.isFinite`: the numbers that a double holds, as the product of two doubles.
-/

namespace Custody

/-- A JSON value. -/
inductive Json where
  | null
  | bool (b : Bool)
  /-- A number written with digits alone, other than `-0`. -/
  | int (n : Int)
  /-- Any other number: plus or minus `mantissa · 10 ^ exponent`. -/
  | real (negative : Bool) (mantissa : Nat) (exponent : Int)
  | text (s : String)
  | list (items : List Json)
  /-- The members in the order written; a name may occur more than once. -/
  | object (members : List (String × Json))
  /-- Text with an unpaired surrogate or bytes that are no character, a number beyond the doubles,
  or a container too deep. -/
  | unreadable
  deriving Inhabited

namespace Json

mutual

/-- Whether no part of the value is unreadable. -/
def isReadable : Json → Bool
  | list items => allReadable items
  | object members => membersReadable members
  | unreadable => false
  | _ => true

/-- Whether no part of any of the values is unreadable. -/
def allReadable : List Json → Bool
  | [] => true
  | j :: rest => isReadable j && allReadable rest

/-- Whether no part of any member's value is unreadable. -/
def membersReadable : List (String × Json) → Bool
  | [] => true
  | (_, j) :: rest => isReadable j && membersReadable rest

end

/-! ### Doubles -/

/-- The least magnitude that rounds to no double: half a unit above the greatest of them. -/
def beyondDoubles : Nat := Nat.pow 2 1024 - Nat.pow 2 970

/-- The number of 53 significant bits that is nearest to `n`; of two equally near ones, the one
whose last bit is even. -/
def nearestDouble (n : Nat) : Nat :=
  let unit := Nat.pow 2 (n.log2 - 52)
  let below := n / unit
  let rest := n % unit
  if unit < 2 * rest ∨ 2 * rest = unit ∧ below % 2 = 1 then (below + 1) * unit else below * unit

/-- Whether `significand · 10 ^ exponent` is a double when both factors are rounded before they
are multiplied.  No power of ten beyond `10 ^ 308` is a factor, and a division stays in range. -/
def isFinite (significand : Nat) (exponent : Int) : Bool :=
  if significand = 0 ∨ exponent < 0 then true
  else if 308 < exponent then false
  else nearestDouble significand * nearestDouble (Nat.pow 10 exponent.toNat) < beyondDoubles

example : isFinite 17976931348623157 292 = true := by decide +kernel

example : isFinite 17976931348623158 292 = false := by decide +kernel

/-- The greatest number of containers that may stand around and including one another. -/
def maxDepth : Nat := 127

end Json

end Custody
