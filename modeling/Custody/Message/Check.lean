import Custody.Message.Basic

/-!
# Checks on messages

What can be said of a message without looking at the store: required fields are there, texts
that become parts of keys are fit for it, and lists are within their limits.  The first fault
found counts, in the order in which the fields are checked.
-/

namespace Custody

/-- Checks the properties of a message. -/
def checkProperties (limits : Limits) (properties : List Property) : Verdict Unit := do
  Limits.checkCount "properties" properties.length limits.properties
  properties.forM fun p => do
    checkSegment "property_name" p.name.text limits.nameLength
    p.value.check

/-- Checks the materials of a message. -/
def checkMaterials (limits : Limits) (materials : List Material) : Verdict Unit := do
  Limits.checkCount "materials" materials.length limits.materials
  materials.forM fun m => checkSegment "component_id" m.component.text limits.idLength

/-- Checks the property names of a message. -/
def checkNames (limits : Limits) (names : List PropertyName) : Verdict Unit := do
  Limits.checkCount "property_names" names.length limits.propertyNames
  names.forM fun n => checkSegment "property_name" n.text limits.nameLength

namespace Message

/-- The field that names the asset. -/
def assetField (m : Message) : String :=
  match m.kind with
  | .createAsset => "id"
  | _ => "asset_id"

/-- The field that names the other account. -/
def counterpartyField (m : Message) : String :=
  match m.kind with
  | .createReporter | .revokeReporter => "reporter"
  | _ => "recipient"

/-- Checks the parent of a new asset. -/
def checkParent (limits : Limits) (id : AssetId) : Option AssetId → Verdict Unit
  | none => .ok ()
  | some parent => do
    checkSegment "parent_id" parent.text limits.idLength
    require (parent != id) (.invalidField "parent_id" .ownParent)

/-- Checks what belongs to the kind of the message. -/
def checkBody (limits : Limits) : Message → Verdict Unit
  | createAsset id name _ unit parent properties => do
    checkSegment "name" name limits.nameLength
    checkSegment "unit" unit limits.nameLength
    checkParent limits id parent
    checkProperties limits properties
  | updateProperties _ properties => checkProperties limits properties
  | addMaterials _ materials => checkMaterials limits materials
  | createOffer _ _ _ names => checkNames limits names
  | revokeOffer _ _ names => checkNames limits names
  | createReporter _ _ names => checkNames limits names
  | addQuantity .. | subtractQuantity .. | finalize .. | answerOffer .. | revokeReporter .. =>
    .ok ()

/-- Checks a message. -/
def check (limits : Limits) (m : Message) : Verdict Unit := do
  checkSegment m.assetField m.asset.text limits.idLength
  match m.counterparty with
  | some account => checkSegment m.counterpartyField account.text limits.idLength
  | none => .ok ()
  m.checkBody limits

end Message

/-- Checks an envelope: its sender, then its message. -/
def Envelope.check (limits : Limits) (e : Envelope) : Verdict Unit := do
  checkSegment "sender" e.sender.text limits.idLength
  e.message.check limits

end Custody
