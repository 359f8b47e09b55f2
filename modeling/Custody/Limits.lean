import Custody.Fault

/-!
# Limits and configuration

The size limits on incoming messages, and the settings of the module.  A setting that a
configuration text leaves out takes its default.

* `checkSegment`: a text that becomes part of a store key.
* `Limits.checkCount`: the length of a list in a message.
-/

namespace Custody

/-- Size limits on incoming messages. -/
structure Limits where
  /-- The most bytes of an account or asset identifier. -/
  idLength : Nat := 128
  /-- The most bytes of an asset's name, a unit or a property name. -/
  nameLength : Nat := 128
  /-- The most properties in one message. -/
  properties : Nat := 64
  /-- The most materials in one message. -/
  materials : Nat := 64
  /-- The most property names in one message. -/
  propertyNames : Nat := 64
  deriving DecidableEq, Repr

/-- The settings of the module. -/
structure ModuleConfig where
  /-- The namespace that the codes of faults belong to. -/
  codespace : String := "provena"
  limits : Limits := {}
  deriving DecidableEq, Repr

/-- A text that becomes part of a store key: not empty, without NUL and not too long. -/
def checkSegment (field text : String) (max : Nat) : Verdict Unit := do
  require (text != "") (.missingField field)
  require (!text.toList.contains '\x00') (.invalidField field .containsNul)
  require (text.utf8ByteSize ≤ max) (.invalidField field (.tooLong text.utf8ByteSize max))

namespace Limits

/-- A list of at most `max` entries. -/
def checkCount (field : String) (count max : Nat) : Verdict Unit :=
  require (count ≤ max) (.invalidField field (.tooMany count max))

instance : JsonForm Limits where
  toJson l := .object
    [("max_id_len", .count l.idLength), ("max_name_len", .count l.nameLength),
      ("max_properties", .count l.properties), ("max_materials", .count l.materials),
      ("max_property_names", .count l.propertyNames)]
  ofJson? j := do
    let members ← j.fields? []
      ["max_id_len", "max_name_len", "max_properties", "max_materials", "max_property_names"]
    let unset : Limits := {}
    return {
      idLength := ← Json.defaulted? members "max_id_len" Json.count? unset.idLength
      nameLength := ← Json.defaulted? members "max_name_len" Json.count? unset.nameLength
      properties := ← Json.defaulted? members "max_properties" Json.count? unset.properties
      materials := ← Json.defaulted? members "max_materials" Json.count? unset.materials
      propertyNames :=
        ← Json.defaulted? members "max_property_names" Json.count? unset.propertyNames }

end Limits

namespace ModuleConfig

instance : JsonForm ModuleConfig where
  toJson c := .object [("codespace", .text c.codespace), ("limits", toJson c.limits)]
  ofJson? j := do
    let members ← j.fields? [] ["codespace", "limits"]
    let unset : ModuleConfig := {}
    return {
      codespace := ← Json.defaulted? members "codespace" ofJson? unset.codespace
      limits := ← Json.defaulted? members "limits" ofJson? unset.limits }

end ModuleConfig

end Custody
