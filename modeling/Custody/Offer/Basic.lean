import Custody.Asset.Basic

/-!
# Offers

An offer of a role on one asset to one recipient.  At most one is pending for each asset and
recipient.
-/

namespace Custody

/-- An offer of a role. -/
structure Offer where
  asset : AssetId
  /-- The owner when the offer was last made. -/
  issuer : AccountId
  recipient : AccountId
  role : OfferRole
  status : OfferStatus
  /-- The names of a reporter role, in order and each once; none for the owner role. -/
  names : List PropertyName
  deriving DecidableEq, Repr

namespace Offer

/-- A pending offer of the given names, in any order. -/
def pending (asset : AssetId) (issuer recipient : AccountId) (role : OfferRole)
    (names : List PropertyName) : Offer where
  asset := asset
  issuer := issuer
  recipient := recipient
  role := role
  status := .pending
  names :=
    match role with
    | .owner => []
    | .reporter => normalizeNames names

/-- Whether the account may give the response: the issuer cancels, the recipient accepts or
rejects. -/
def mayAnswer (o : Offer) (respondent : AccountId) : Response → Bool
  | .cancel => o.issuer == respondent
  | .accept | .reject => o.recipient == respondent

/-- Whether the issuer still owns the asset. -/
def issuerOwns (o : Offer) (a : Asset) : Bool := a.isOwnedBy o.issuer

instance : JsonForm Offer where
  toJson o := .object
    [("asset_id", toJson o.asset), ("issuer", toJson o.issuer), ("recipient", toJson o.recipient),
      ("role", toJson o.role), ("status", toJson o.status), ("properties", toJson o.names)]
  ofJson? j := do
    let members ← j.fields? ["asset_id", "issuer", "recipient", "role", "status", "properties"] []
    return {
      asset := ← Json.required? members "asset_id" ofJson?
      issuer := ← Json.required? members "issuer" ofJson?
      recipient := ← Json.required? members "recipient" ofJson?
      role := ← Json.required? members "role" ofJson?
      status := ← Json.required? members "status" ofJson?
      names := ← Json.required? members "properties" ofJson? }

end Offer

end Custody
