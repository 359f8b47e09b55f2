import Custody.Offer.Basic

/-!
# Messages

The closed set of changes that an account can ask for.  A message travels in an envelope that
names its sender and the time of the block that carries it, the only clock there is.  A message
that is applied has an outcome: its kind and a list of tags for lookups outside the store.
-/

namespace Custody

open Std

/-- The kind of a message. -/
inductive MessageKind where
  | createAsset
  | addQuantity
  | subtractQuantity
  | addMaterials
  | updateProperties
  | finalize
  | createOffer
  | answerOffer
  | revokeOffer
  | createReporter
  | revokeReporter
  deriving DecidableEq, Repr

namespace MessageKind

/-- The label of a kind on the wire. -/
def label : MessageKind → String
  | createAsset => "create_asset"
  | addQuantity => "add_quantity"
  | subtractQuantity => "subtract_quantity"
  | addMaterials => "add_materials"
  | updateProperties => "update_properties"
  | finalize => "finalize"
  | createOffer => "create_proposal"
  | answerOffer => "answer_proposal"
  | revokeOffer => "revoke_proposal"
  | createReporter => "create_reporter"
  | revokeReporter => "revoke_reporter"

/-- Every kind, in order. -/
def all : List MessageKind :=
  [createAsset, addQuantity, subtractQuantity, addMaterials, updateProperties, finalize,
    createOffer, answerOffer, revokeOffer, createReporter, revokeReporter]

instance : Labelled MessageKind := ⟨all, label⟩

instance : JsonForm MessageKind := ⟨Labelled.toJson, Labelled.ofJson?⟩

/-- The place of a kind in the order of all kinds. -/
def position (k : MessageKind) : Nat := k.ctorIdx

theorem position_inj {k l : MessageKind} (h : k.position = l.position) : k = l := by
  cases k <;> cases l <;> first | rfl | exact absurd h (by decide)

instance : Ord MessageKind := ⟨compareOn position⟩

instance : TransOrd MessageKind := inferInstanceAs (TransCmp (compareOn position))

instance : LawfulEqOrd MessageKind where
  eq_of_compare h := position_inj (LawfulEqOrd.eq_of_compare (α := Nat) h)

end MessageKind

/-- A change that an account asks for. -/
inductive Message where
  /-- Creates an asset; with a parent, its quantity is split off the parent's. -/
  | createAsset (id : AssetId) (name : String) (quantity : Nat) (unit : String)
      (parent : Option AssetId) (properties : List Property)
  | addQuantity (asset : AssetId) (amount : Nat)
  | subtractQuantity (asset : AssetId) (amount : Nat)
  /-- Consumes quantities of other assets into the asset. -/
  | addMaterials (asset : AssetId) (materials : List Material)
  | updateProperties (asset : AssetId) (properties : List Property)
  /-- Freezes the asset for good. -/
  | finalize (asset : AssetId)
  | createOffer (asset : AssetId) (recipient : AccountId) (role : OfferRole)
      (names : List PropertyName)
  | answerOffer (asset : AssetId) (recipient : AccountId) (response : Response)
  /-- Withdraws names from a pending offer of the reporter role. -/
  | revokeOffer (asset : AssetId) (recipient : AccountId) (names : List PropertyName)
  | createReporter (asset : AssetId) (reporter : AccountId) (names : List PropertyName)
  | revokeReporter (asset : AssetId) (reporter : AccountId)
  deriving DecidableEq

namespace Message

/-- The kind of a message. -/
def kind : Message → MessageKind
  | createAsset .. => .createAsset
  | addQuantity .. => .addQuantity
  | subtractQuantity .. => .subtractQuantity
  | addMaterials .. => .addMaterials
  | updateProperties .. => .updateProperties
  | finalize .. => .finalize
  | createOffer .. => .createOffer
  | answerOffer .. => .answerOffer
  | revokeOffer .. => .revokeOffer
  | createReporter .. => .createReporter
  | revokeReporter .. => .revokeReporter

/-- The asset that a message creates or changes. -/
def asset : Message → AssetId
  | createAsset id .. => id
  | addQuantity asset _ => asset
  | subtractQuantity asset _ => asset
  | addMaterials asset _ => asset
  | updateProperties asset _ => asset
  | finalize asset => asset
  | createOffer asset .. => asset
  | answerOffer asset .. => asset
  | revokeOffer asset .. => asset
  | createReporter asset .. => asset
  | revokeReporter asset _ => asset

/-- The other account that a message names. -/
def counterparty : Message → Option AccountId
  | createOffer _ recipient .. => some recipient
  | answerOffer _ recipient _ => some recipient
  | revokeOffer _ recipient _ => some recipient
  | createReporter _ reporter _ => some reporter
  | revokeReporter _ reporter => some reporter
  | _ => none

end Message

/-- A message with its authenticated sender and the time of its block. -/
structure Envelope where
  sender : AccountId
  blockTime : UInt64
  message : Message
  deriving DecidableEq

/-- A key and a value for lookups outside the store. -/
structure Tag where
  key : String
  value : String
  deriving DecidableEq, Repr

/-- The value of the first tag with a key. -/
def Tag.find? (tags : List Tag) (key : String) : Option String :=
  (tags.find? fun t => t.key == key).map Tag.value

/-- What a message that was applied reports. -/
structure Outcome where
  kind : MessageKind
  tags : List Tag
  deriving DecidableEq, Repr

namespace Outcome

/-- Adds a tag at the end. -/
def withTag (o : Outcome) (key value : String) : Outcome :=
  { o with tags := o.tags ++ [⟨key, value⟩] }

/-- The outcome with the tags that every message has. -/
def plain (kind : MessageKind) (asset : AssetId) (sender : AccountId) : Outcome where
  kind := kind
  tags := [⟨"action", kind.label⟩, ⟨"asset_id", asset.text⟩, ⟨"sender", sender.text⟩]

/-- The value of the first tag with a key. -/
def tag? (o : Outcome) (key : String) : Option String := Tag.find? o.tags key

end Outcome

end Custody
