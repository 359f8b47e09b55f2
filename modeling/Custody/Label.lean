import Custody.Json.Form

/-!
# Labels

An enumeration is written as a text: each of its values has a label.  It is also read from an
object in which the label is the name of the only member, which then has no value.
-/

namespace Custody

/-- A type with finitely many values, each with a label. -/
class Labelled (α : Type) where
  /-- Every value, in order. -/
  all : List α
  label : α → String

/-- The value with a label. -/
def ofLabel? {α : Type} [Labelled α] (s : String) : Option α :=
  Labelled.all.find? fun a => Labelled.label a == s

namespace Labelled

variable {α : Type} [Labelled α]

/-- A labelled value is written as its label. -/
def toJson (a : α) : Json := .text (label a)

/-- Reads a label that is a text. -/
def ofText? : Json → Option α
  | .text s => ofLabel? s
  | _ => none

/-- Reads a label, as a text or as the name of a member that is `null`. -/
def ofJson? : Json → Option α
  | .object [(s, .null)] => ofLabel? s
  | j => ofText? j

/-- Reads a label inside a value that was read in full before; there the member may also be an empty
object. -/
def ofBuffered? : Json → Option α
  | .object [(s, .object [])] => ofLabel? s
  | j => ofJson? j

end Labelled

end Custody
