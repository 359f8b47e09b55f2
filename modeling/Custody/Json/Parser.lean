import Custody.Json.Token
import Custody.Text.Utf8

/-!
# Reading JSON

Tokens build a value on a stack of open containers, so the reader is a fold over the characters
of the text.  A container that closes at a depth beyond `Json.maxDepth` is unreadable, and so is
an object with a name that cannot be read.

* `Json.parse?`: the value of a text that is one JSON value and nothing else.
* `Json.parseBytes?`: the same for bytes; where they are not well-formed UTF-8, the string they
  stand in is unreadable.
-/

namespace Custody.Json

/-- An open container with what it holds so far, latest first. -/
inductive Frame where
  | list (items : List Json)
  | object (members : List (Option String × Json))
  /-- An object whose next value belongs to a name already read. -/
  | member (name : Option String) (members : List (Option String × Json))

/-- What may come next. -/
inductive Position where
  /-- A value must come. -/
  | value
  /-- A list was opened: a value or its end. -/
  | firstItem
  /-- An object was opened: a name or its end. -/
  | firstName
  /-- A name must come. -/
  | name
  /-- The colon after a name must come. -/
  | colon (name : Option String)
  /-- A value is complete: a comma or an end, or nothing. -/
  | complete (j : Json)

/-- The state of the reader between two tokens. -/
structure Builder where
  stack : List Frame
  position : Position

namespace Builder

/-- The container as a value, if it is not too deep; `below` is what it stands in. -/
def close (below : List Frame) (j : Json) : Builder :=
  ⟨below, .complete (if below.length < maxDepth then j else unreadable)⟩

/-- An object from its members, latest first. -/
def objectOf (members : List (Option String × Json)) : Json :=
  match members.reverse.mapM fun m => m.1.map fun name => (name, m.2) with
  | some readable => object readable
  | none => unreadable

/-- A token where a value may come. -/
def beginValue (stack : List Frame) : Token → Option Builder
  | .literal j => some ⟨stack, .complete j⟩
  | .text (some s) => some ⟨stack, .complete (text s)⟩
  | .text none => some ⟨stack, .complete unreadable⟩
  | .openList => some ⟨.list [] :: stack, .firstItem⟩
  | .openObject => some ⟨.object [] :: stack, .firstName⟩
  | _ => none

/-- A token after the complete value `j`. -/
def afterValue (j : Json) : List Frame → Token → Option Builder
  | .list items :: below, .comma => some ⟨.list (j :: items) :: below, .value⟩
  | .list items :: below, .closeList => some (close below (list (j :: items).reverse))
  | .member name members :: below, .comma =>
    some ⟨.object ((name, j) :: members) :: below, .name⟩
  | .member name members :: below, .closeObject =>
    some (close below (objectOf ((name, j) :: members)))
  | _, _ => none

/-- The state after a token. -/
def take (b : Builder) (t : Token) : Option Builder :=
  match b.position, b.stack, t with
  | .value, stack, t => beginValue stack t
  | .firstItem, .list [] :: below, .closeList => some (close below (list []))
  | .firstItem, stack, t => beginValue stack t
  | .firstName, .object [] :: below, .closeObject => some (close below (object []))
  | .firstName, stack, .text s => some ⟨stack, .colon s⟩
  | .name, stack, .text s => some ⟨stack, .colon s⟩
  | .colon name, .object members :: below, .colon => some ⟨.member name members :: below, .value⟩
  | .complete j, stack, t => afterValue j stack t
  | _, _, _ => none

end Builder

/-- The state of the reader between two characters. -/
structure Reader where
  scan : Scan
  builder : Builder

namespace Reader

/-- The reader before the first character. -/
def initial : Reader := ⟨.between, ⟨[], .value⟩⟩

/-- The reader after a character, or after bytes that are none. -/
def step (r : Reader) (c : Option Char) : Option Reader := do
  let (tokens, scan) ← r.scan.step c
  let builder ← tokens.foldlM Builder.take r.builder
  return ⟨scan, builder⟩

/-- The value that was read, if it is complete. -/
def finish? (r : Reader) : Option Json := do
  let tokens ← r.scan.finish?
  let builder ← tokens.foldlM Builder.take r.builder
  match builder with
  | ⟨[], .complete j⟩ => some j
  | _ => none

end Reader

/-- The value that characters denote, among which stretches of bytes that are none may stand. -/
def parsePieces? (pieces : List (Option Char)) : Option Json :=
  (pieces.foldlM Reader.step Reader.initial).bind Reader.finish?

/-- The value that a text denotes. -/
def parse? (s : String) : Option Json := parsePieces? (s.toList.map some)

/-- The value that a byte string denotes. -/
def parseBytes? (bytes : Bytes) : Option Json := parsePieces? (Utf8.pieces none bytes)

end Custody.Json
