import Custody.Identifier
import Custody.Offer.Terms

/-!
# Faults

Why an operation was refused.  Every cause has a stable numeric code and one wording.
-/

namespace Custody

/-- What an account tried to do when it was refused. -/
inductive Action where
  | derive
  | addQuantity
  | subtractQuantity
  | addMaterials
  | consumeComponent
  | writeProperty
  | finalize
  | createOffer
  | answerOffer
  | revokeOffer
  | createReporter
  | revokeReporter
  /-- The recipient accepts, but the issuer of the offer has lost the asset. -/
  | grantLostRole
  /-- An action in the words of the host. -/
  | other (phrase : String)
  deriving DecidableEq, Repr

/-- The phrase for an action, as it follows "not authorized to". -/
def Action.phrase : Action → String
  | derive => "derive from asset"
  | addQuantity => "add quantity"
  | subtractQuantity => "subtract quantity"
  | addMaterials => "add materials"
  | consumeComponent => "consume component"
  | writeProperty => "write property"
  | finalize => "finalize"
  | createOffer => "create proposal"
  | answerOffer => "answer proposal"
  | revokeOffer => "revoke proposal"
  | createReporter => "create reporter"
  | revokeReporter => "revoke reporter"
  | grantLostRole => "grant a role it no longer owns"
  | other phrase => phrase

/-- What is wrong with a field. -/
inductive Defect where
  | containsNul
  | tooLong (length max : Nat)
  | tooMany (count max : Nat)
  | emptyLabel
  | latitude (value : Int64)
  | longitude (value : Int64)
  | unknownRole (label : String)
  | unknownResponse (label : String)
  | ownParent
  | ownComponent
  | zeroAmount
  | zeroMaterial
  | toOneself
  | ownerAsReporter
  /-- The text is not a message. -/
  | notMessage
  /-- A defect in the words of the host. -/
  | other (reason : String)
  deriving DecidableEq

/-- The wording of a defect. -/
def Defect.reason : Defect → String
  | containsNul => "must not contain NUL bytes"
  | tooLong length max => s!"length {length} exceeds maximum {max}"
  | tooMany count max => s!"{count} entries exceed maximum {max}"
  | emptyLabel => "enum label must not be empty"
  | latitude value => s!"latitude {value.toInt} out of range"
  | longitude value => s!"longitude {value.toInt} out of range"
  | unknownRole label => s!"unknown role '{label}'"
  | unknownResponse label => s!"unknown response '{label}'"
  | ownParent => "an asset cannot be its own parent"
  | ownComponent => "an asset cannot consume itself"
  | zeroAmount => "amount must be positive"
  | zeroMaterial => "material quantity must be positive"
  | toOneself => "cannot propose to oneself"
  | ownerAsReporter => "the owner cannot be its own reporter"
  | notMessage => "not a message"
  | other reason => reason

/-- What is wrong with stored bytes. -/
inductive Damage where
  /-- The bytes do not denote a record of their kind. -/
  | unreadable
  | indexKey
  | inventoryKey
  /-- The index of recipients names an offer that is not stored. -/
  | danglingOffer
  /-- A damage in the words of the host. -/
  | other (details : String)
  deriving DecidableEq

/-- The wording of a damage. -/
def Damage.details : Damage → String
  | unreadable => "decode: not a record of this kind"
  | indexKey => "malformed index key"
  | inventoryKey => "malformed inventory key"
  | danglingOffer => "recipient index points at a missing proposal"
  | other details => details

/-- Why an operation was refused. -/
inductive Fault where
  /-- A required field is empty. -/
  | missingField (field : String)
  /-- A field is malformed or out of range. -/
  | invalidField (field : String) (defect : Defect)
  /-- The principal may not perform the action on the asset. -/
  | unauthorized (principal : AccountId) (action : Action) (asset : AssetId)
  | assetNotFound (id : AssetId)
  | componentNotFound (id : AssetId)
  | offerNotFound (asset : AssetId) (recipient : AccountId)
  /-- The asset is frozen. -/
  | assetFinal (id : AssetId)
  /-- An asset, or the balance under a root, holds too little. -/
  | insufficientQuantity (id : AssetId) (available requested : Nat)
  | duplicateAsset (id : AssetId)
  | notReporter (asset : AssetId) (reporter : AccountId)
  /-- Names can be withdrawn from an offer of the reporter role only. -/
  | notRevocable (asset : AssetId) (recipient : AccountId) (role : OfferRole)
  /-- The store holds bytes that cannot be read; `key` is the key as it is displayed. -/
  | damagedRecord (key : String) (damage : Damage)
  deriving DecidableEq

namespace Fault

/-- The stable code of a fault. -/
def code : Fault → UInt32
  | missingField .. => 2
  | invalidField .. => 3
  | unauthorized .. => 4
  | assetNotFound .. => 5
  | componentNotFound .. => 6
  | offerNotFound .. => 7
  | assetFinal .. => 8
  | insufficientQuantity .. => 9
  | duplicateAsset .. => 10
  | notReporter .. => 11
  | notRevocable .. => 12
  | damagedRecord .. => 13

/-- The wording of a fault. -/
def message : Fault → String
  | missingField field => s!"missing required field '{field}'"
  | invalidField field defect => s!"invalid field '{field}': {defect.reason}"
  | unauthorized principal action asset =>
    s!"{principal.text} is not authorized to {action.phrase} on asset {asset.text}"
  | assetNotFound id => s!"asset {id.text} not found"
  | componentNotFound id => s!"component asset {id.text} not found"
  | offerNotFound asset recipient =>
    s!"no pending proposal on asset {asset.text} for {recipient.text}"
  | assetFinal id => s!"asset {id.text} is final"
  | insufficientQuantity id available requested =>
    s!"insufficient quantity of {id.text}: {available} available, {requested} requested"
  | duplicateAsset id => s!"asset {id.text} already exists"
  | notReporter asset reporter => s!"{reporter.text} is not a reporter of asset {asset.text}"
  | notRevocable asset recipient role =>
    s!"proposal on asset {asset.text} for {recipient.text} has role {role.label}; cannot revoke names"
  | damagedRecord key damage => s!"record codec failure at '{key}': {damage.details}"

end Fault

/-- The outcome of an operation that may be refused. -/
abbrev Verdict (α : Type) := Except Fault α

/-- Refuses unless the condition holds. -/
def require (condition : Bool) (fault : Fault) : Verdict Unit :=
  if condition then .ok () else .error fault

/-- The role with a label. -/
def OfferRole.parse (label : String) : Verdict OfferRole :=
  match ofLabel? label with
  | some role => .ok role
  | none => .error (.invalidField "role" (.unknownRole label))

/-- The response with a label. -/
def Response.parse (label : String) : Verdict Response :=
  match ofLabel? label with
  | some response => .ok response
  | none => .error (.invalidField "response" (.unknownResponse label))

end Custody
