import Custody.Bisection
import Custody.Limits
import Custody.SortedMap

/-!
# Properties

A property is a name with a typed value.  The properties of an asset are a set keyed by name; a
batch of new ones is laid over the set, and within a batch the last one of a name counts.

* `PropertyValue.check`: whether the value lies in the domain of its type.
* `Property.normalize`: a batch in order of names, each name once.
* `Property.upsert`: a batch laid over a set.
-/

namespace Custody

/-- The type of a property's value. -/
inductive PropertyKind where
  | bytes
  | string
  | boolean
  | number
  /-- A label of an enumeration defined elsewhere. -/
  | label
  | location
  deriving DecidableEq, Repr

namespace PropertyKind

/-- The label of a kind. -/
def name : PropertyKind → String
  | bytes => "bytes"
  | string => "string"
  | boolean => "boolean"
  | number => "number"
  | label => "enum"
  | location => "location"

instance : Labelled PropertyKind := ⟨[bytes, string, boolean, number, label, location], name⟩

instance : JsonForm PropertyKind := ⟨Labelled.toJson, Labelled.ofJson?⟩

end PropertyKind

/-- A typed value. -/
inductive PropertyValue where
  | bytes (data : Bytes)
  | string (text : String)
  | boolean (b : Bool)
  | number (n : Int64)
  /-- A label of an enumeration defined elsewhere. -/
  | label (text : String)
  /-- Coordinates in millionths of a degree. -/
  | location (latitude longitude : Int64)
  deriving DecidableEq

/-- A named value. -/
structure Property where
  name : PropertyName
  value : PropertyValue
  deriving DecidableEq

namespace PropertyValue

/-- The type of a value. -/
def kind : PropertyValue → PropertyKind
  | bytes _ => .bytes
  | string _ => .string
  | boolean _ => .boolean
  | number _ => .number
  | label _ => .label
  | location .. => .location

/-- The greatest latitude, in millionths of a degree. -/
def maxLatitude : Nat := 90000000

/-- The greatest longitude, in millionths of a degree. -/
def maxLongitude : Nat := 180000000

/-- Checks that a value lies in the domain of its type. -/
def check : PropertyValue → Verdict Unit
  | label text => require (text != "") (.invalidField "property.value" .emptyLabel)
  | location latitude longitude => do
    require (latitude.toInt.natAbs ≤ maxLatitude)
      (.invalidField "property.value" (.latitude latitude))
    require (longitude.toInt.natAbs ≤ maxLongitude)
      (.invalidField "property.value" (.longitude longitude))
  | _ => .ok ()

/-! ### JSON -/

/-- The value without its type. -/
def content : PropertyValue → Json
  | bytes data => toJson data
  | string text => .text text
  | boolean b => .bool b
  | number n => toJson n
  | label text => .text text
  | location latitude longitude =>
    .object [("latitude", toJson latitude), ("longitude", toJson longitude)]

/-- Reads the value of a type. -/
def ofContent? (j : Json) : PropertyKind → Option PropertyValue
  | .bytes => (ofJson? j).map bytes
  | .string => (ofJson? j).map string
  | .boolean => (ofJson? j).map boolean
  | .number => (ofJson? j).map number
  | .label => (ofJson? j).map label
  | .location => do
    let members ← j.members?
    let latitude ← Json.required? members "latitude" ofJson?
    let longitude ← Json.required? members "longitude" ofJson?
    return location latitude longitude

/-- Whether the member `value` stands before the member `type`. -/
def valueFirst (members : List (String × Json)) : Bool :=
  match members.find? fun m => m.1 == "value" || m.1 == "type" with
  | some m => m.1 == "value"
  | none => false

/-- Reads a value, its type by the given reader.  A value that stands before its type is read in full
before its type is known, so all of it must be readable, also the parts that would be skipped. -/
def read? (kind? : Json → Option PropertyKind) (j : Json) : Option PropertyValue := do
  let members ← j.fields? ["type", "value"] []
  let kind ← Json.required? members "type" kind?
  let content ← Json.required? members "value" some
  if valueFirst members && !content.isReadable then none else ofContent? content kind

/-- A value is written with its type. -/
instance : JsonForm PropertyValue where
  toJson v := .object [("type", toJson v.kind), ("value", v.content)]
  ofJson? := read? ofJson?

end PropertyValue

namespace Property

/-- Reads a property, the type of its value by the given reader. -/
def read? (kind? : Json → Option PropertyKind) (j : Json) : Option Property := do
  let members ← j.fields? ["name", "value"] []
  return {
    name := ← Json.required? members "name" ofJson?
    value := ← Json.required? members "value" (PropertyValue.read? kind?) }

instance : JsonForm Property where
  toJson p := .object [("name", toJson p.name), ("value", toJson p.value)]
  ofJson? := read? ofJson?

/-- A batch in order of names; of several with one name the last stays. -/
def normalize (batch : List Property) : List Property :=
  (SortedMap.ofList (batch.map fun p => (p.name, p.value))).bindings.map fun b => ⟨b.1, b.2⟩

/-- Lays a batch over a set of properties in order of names. -/
def upsert (existing batch : List Property) : List Property :=
  (normalize batch).foldl (fun set p => upsertBy Property.name p set) existing

/-- Orders properties by name, those of one name as they stood. -/
def sortByName (l : List Property) : List Property :=
  l.mergeSort fun p q => (compare p.name q.name).isLE

end Property

/-- Property names in order, each once. -/
def normalizeNames (names : List PropertyName) : List PropertyName := (SortedMap.ofKeys names).keys

end Custody
