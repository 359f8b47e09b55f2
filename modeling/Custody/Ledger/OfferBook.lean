import Custody.Ledger.Registry
import Custody.Offer.Basic

/-!
# The book of offers

The pending offers, by asset and recipient, with an index by recipient.
-/

namespace Custody.OfferBook

/-- The pending offer on an asset to a recipient. -/
def find? (asset : AssetId) (recipient : AccountId) : Query (Option Offer) :=
  Query.load? (Key.offer asset recipient)

/-- The pending offer on an asset to a recipient, which must be there. -/
def get (asset : AssetId) (recipient : AccountId) : Query Offer := do
  match ← find? asset recipient with
  | none => throw (.offerNotFound asset recipient)
  | some o => return o

/-- The pending offers on an asset, in order of recipients. -/
def onAsset (asset : AssetId) : Query (List Offer) := Query.loadAll (Key.offers asset)

/-- The offer that an entry in the index of recipients names. -/
def indexed (recipient : AccountId) (asset : AssetId) : Query Offer := do
  match ← find? asset recipient with
  | none =>
    throw (.damagedRecord (Key.display (Key.offer asset recipient)) .danglingOffer)
  | some o => return o

/-- The pending offers to a recipient, in order of assets. -/
def toRecipient (recipient : AccountId) : Query (List Offer) := do
  (← Registry.members .recipientIndex (Key.offeredTo recipient)).mapM (indexed recipient)

/-- Stores an offer and its index entry. -/
def store (o : Offer) : Txn Unit := do
  Txn.save (Key.offer o.asset o.recipient) o
  Txn.set (Key.recipient o.recipient o.asset) []

/-- Removes an offer and its index entry. -/
def remove (asset : AssetId) (recipient : AccountId) : Txn Unit := do
  Txn.delete (Key.offer asset recipient)
  Txn.delete (Key.recipient recipient asset)

/-- Removes every offer on an asset; answers how many there were. -/
def discard (asset : AssetId) : Txn Nat := do
  let pending ← onAsset asset
  pending.forM fun o => remove asset o.recipient
  return pending.length

end Custody.OfferBook
