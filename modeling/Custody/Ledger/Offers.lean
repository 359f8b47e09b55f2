import Custody.Ledger.OfferBook
import Custody.Ledger.Quantities

/-!
# Making and answering offers

An offer leaves the book when it is answered.  Acceptance of an owner role hands the asset over:
its quantity moves between the balances of the two owners, and its reporters are dismissed.
Acceptance counts only while the issuer still owns the asset.
-/

namespace Custody.Ledger

/-- Offers a role on an asset, in place of an earlier offer to the same recipient. -/
def createOffer (id : AssetId) (recipient : AccountId) (role : OfferRole)
    (names : List PropertyName) (issuer : AccountId) : Txn Offer := do
  let a ← Registry.get id
  a.checkMutable
  authorize a issuer .offerRole .createOffer id
  require (recipient != issuer) (.invalidField "recipient" .toOneself)
  require (role != .reporter || !names.isEmpty) (.missingField "property_names")
  let _ ← OfferBook.find? id recipient
  let o := Offer.pending id issuer recipient role names
  OfferBook.store o
  return o

/-- What an answer leaves behind. -/
structure Answer where
  /-- The offer as it stood, with its new status. -/
  offer : Offer
  /-- The asset after the answer. -/
  asset : Asset

/-- Hands an asset to a new owner. -/
def transfer (a : Asset) (taker : AccountId) : Txn Asset := do
  Inventory.move a.owner taker a.root a.quantity
  let handed := { a with owner := taker, reporters := [] }
  Registry.put handed
  return handed

/-- Grants the role that an offer on an asset to a recipient offers. -/
def accept (id : AssetId) (recipient : AccountId) (a : Asset) (o : Offer) (now : UInt64) :
    Txn Asset := do
  require (o.issuerOwns a) (.unauthorized o.issuer .grantLostRole id)
  match o.role with
  | .owner => transfer a recipient
  | .reporter =>
    let granted := a.upsertReporter (Reporter.grant recipient o.names now)
    Registry.put granted
    return granted

/-- Answers the pending offer to a recipient. -/
def answerOffer (id : AssetId) (recipient : AccountId) (response : Response)
    (respondent : AccountId) (now : UInt64) : Txn Answer := do
  let a ← Registry.get id
  a.checkMutable
  let o ← OfferBook.get id recipient
  require (o.mayAnswer respondent response) (.unauthorized respondent .answerOffer id)
  let answered ← if response = .accept then accept id recipient a o now else pure a
  OfferBook.remove id recipient
  return ⟨{ o with status := response.status }, answered⟩

/-- Withdraws names from a pending offer of the reporter role; without names left the offer is
removed. -/
def revokeOffer (id : AssetId) (recipient : AccountId) (names : List PropertyName)
    (issuer : AccountId) : Txn (Option Offer) := do
  let a ← Registry.get id
  a.checkMutable
  authorize a issuer .withdrawOffer .revokeOffer id
  let o ← OfferBook.get id recipient
  require (!names.isEmpty) (.missingField "property_names")
  require (o.role != .owner) (.notRevocable id recipient o.role)
  let left := o.names.filter fun n => !names.contains n
  if left.isEmpty then
    OfferBook.remove id recipient
    return none
  else
    let narrowed := { o with names := left }
    OfferBook.store narrowed
    return some narrowed

end Custody.Ledger
