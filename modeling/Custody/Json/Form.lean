import Custody.Json.Printer
import Custody.Json.Parser

/-!
# Records as JSON

How the parts of a record are written and read.  A record is written as an object, and is read
from an object by the names of its members: a member that the record does not know is skipped, one
that it knows may occur once.  It is also read from a list, which has the fields in their order.
Numbers must be whole and within the range of their kind.

* `JsonForm`: a type with a JSON form; `encode` and `decode?` are its compact text in bytes.
* `Json.fields?`: the fields of a record, by their names, from either form.
* `Json.required?`, `Json.optional?`, `Json.defaulted?`: a field.
* `Json.quantity`: an unbounded number as a decimal string; it is also read from an unsigned
  integer of 64 bits.
* `Json.digits32`: an unbounded number as its digits in base `2 ^ 32`, least significant first.
-/

namespace Custody

/-- A type whose values are written as JSON. -/
class JsonForm (α : Type) where
  toJson : α → Json
  ofJson? : Json → Option α

export JsonForm (toJson ofJson?)

/-- The compact text of a value, in bytes. -/
def encode {α : Type} [JsonForm α] (a : α) : Bytes := (toJson a).bytes

/-- The value that a text in bytes denotes. -/
def decode? {α : Type} [JsonForm α] (bytes : Bytes) : Option α :=
  (Json.parseBytes? bytes).bind ofJson?

/-- The compact text of a value. -/
def encodeText {α : Type} [JsonForm α] (a : α) : String := (toJson a).render

/-- The value that a text denotes. -/
def decodeText? {α : Type} [JsonForm α] (s : String) : Option α := (Json.parse? s).bind ofJson?

namespace Json

variable {α β : Type}

/-! ### Scalars -/

/-- The bound of the unsigned integers of 64 bits. -/
def wordBound : Nat := UInt64.size

/-- A count, which fits in 64 bits. -/
def count (n : Nat) : Json := int n

/-- Reads an unsigned integer below a bound. -/
def below? (bound : Nat) : Json → Option Nat
  | int (.ofNat n) => if n < bound then some n else none
  | _ => none

/-- Reads a count. -/
def count? : Json → Option Nat := below? wordBound

instance : JsonForm UInt8 where
  toJson n := int n.toNat
  ofJson? j := (below? UInt8.size j).map UInt8.ofNat

instance : JsonForm UInt32 where
  toJson n := int n.toNat
  ofJson? j := (below? UInt32.size j).map UInt32.ofNat

instance : JsonForm UInt64 where
  toJson n := int n.toNat
  ofJson? j := (below? UInt64.size j).map UInt64.ofNat

instance : JsonForm Int64 where
  toJson n := int n.toInt
  ofJson?
    | int n =>
      if Int64.minValue.toInt ≤ n ∧ n ≤ Int64.maxValue.toInt then some (Int64.ofInt n) else none
    | _ => none

instance : JsonForm Bool where
  toJson := bool
  ofJson?
    | bool b => some b
    | _ => none

instance : JsonForm String where
  toJson := text
  ofJson?
    | text s => some s
    | _ => none

/-- An unbounded number as a decimal string. -/
def quantity (n : Nat) : Json := text (String.ofList (Decimal.write n))

/-- Reads a decimal string or an unsigned integer of 64 bits. -/
def quantity? : Json → Option Nat
  | text s => Decimal.read? s.toList
  | j => count? j

/-- The base `2 ^ 32`. -/
def limbBase : Nat := UInt32.size

/-- The digits of a number in base `2 ^ 32`, least significant first. -/
def limbs (n : Nat) : List Nat :=
  if n = 0 then [] else n % limbBase :: limbs (n / limbBase)
decreasing_by exact Nat.div_lt_self (Nat.pos_of_ne_zero ‹_›) (by decide)

/-- The number with the given digits in base `2 ^ 32`. -/
def ofLimbs : List Nat → Nat
  | [] => 0
  | d :: rest => d + limbBase * ofLimbs rest

/-! ### Lists and options -/

/-- A list of values. -/
def listOf (write : α → Json) (l : List α) : Json := list (l.map write)

/-- Reads a list of values. -/
def listOf? (read? : Json → Option α) : Json → Option (List α)
  | list items => items.mapM read?
  | _ => none

/-- A value that may be absent, as `null`. -/
def nullable (write : α → Json) : Option α → Json
  | none => null
  | some a => write a

/-- Reads a value that may be `null`. -/
def nullable? (read? : Json → Option α) : Json → Option (Option α)
  | null => some none
  | j => (read? j).map some

/-- Two values, as a list. -/
def pair (left : α → Json) (right : β → Json) (p : α × β) : Json := list [left p.1, right p.2]

/-- Reads a list of two values. -/
def pair? (left? : Json → Option α) (right? : Json → Option β) : Json → Option (α × β)
  | list [a, b] => do return (← left? a, ← right? b)
  | _ => none

/-- A number as its digits in base `2 ^ 32`. -/
def digits32 (n : Nat) : Json := listOf count (limbs n)

/-- Reads digits in base `2 ^ 32`; high zeros are allowed. -/
def digits32? (j : Json) : Option Nat := (listOf? (below? limbBase) j).map ofLimbs

instance [JsonForm α] : JsonForm (List α) where
  toJson := listOf toJson
  ofJson? := listOf? ofJson?

instance [JsonForm α] : JsonForm (Option α) where
  toJson := nullable toJson
  ofJson? := nullable? ofJson?

instance [JsonForm α] [JsonForm β] : JsonForm (α × β) where
  toJson := pair toJson toJson
  ofJson? := pair? ofJson? ofJson?

/-! ### Fields of a record -/

/-- The members of an object. -/
def members? : Json → Option (List (String × Json))
  | object members => some members
  | _ => none

/-- The fields of a record: the members of an object, or the items of a list under the names of the
fields in their order.  A list has all that are needed, and may leave out the last of the others;
it has no further items. -/
def fields? (needed others : List String) : Json → Option (List (String × Json))
  | object members => some members
  | list items =>
    if needed.length ≤ items.length ∧ items.length ≤ needed.length + others.length then
      some ((needed ++ others).zip items)
    else none
  | _ => none

@[simp] theorem fields?_object (needed others : List String) (members : List (String × Json)) :
    fields? needed others (object members) = some members := rfl

/-- The value of the member with a name, `some none` if there is none; fails if there are two. -/
def member? (members : List (String × Json)) (name : String) : Option (Option Json) :=
  match members.filter fun m => m.1 == name with
  | [] => some none
  | [m] => some (some m.2)
  | _ => none

/-- Reads a member that must be there. -/
def required? (members : List (String × Json)) (name : String) (read? : Json → Option α) :
    Option α :=
  match member? members name with
  | some (some j) => read? j
  | _ => none

/-- Reads a member that may be absent or `null`. -/
def optional? (members : List (String × Json)) (name : String) (read? : Json → Option α) :
    Option (Option α) :=
  match member? members name with
  | none => none
  | some none => some none
  | some (some j) => nullable? read? j

/-- Reads a member that has a default when it is absent. -/
def defaulted? (members : List (String × Json)) (name : String) (read? : Json → Option α)
    (default : α) : Option α :=
  match member? members name with
  | none => none
  | some none => some default
  | some (some j) => read? j

/-- Reads an object with exactly one member: its name chooses how its value is read. -/
def onlyMember? : Json → Option (String × Json)
  | object [m] => some m
  | _ => none

/-- The member with a value that may be absent: left out when it is. -/
def omittable (name : String) (write : α → Json) : Option α → List (String × Json)
  | none => []
  | some a => [(name, write a)]

end Json

end Custody
