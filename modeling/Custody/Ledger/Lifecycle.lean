import Custody.Ledger.OfferBook
import Custody.Ledger.Quantities

/-!
# Creating and finalizing

An asset begins with a quantity of its own, which counts for the balance under its own root, or
with a quantity split off a parent, which leaves the balance under the parent's root as it is.
It ends, if at all, by being frozen; the offers on it are then dropped.
-/

namespace Custody.Ledger

/-- Creates an asset owned by the sender. -/
def createAsset (id : AssetId) (name : String) (quantity : Nat) (unit : String)
    (parent : Option AssetId) (properties : List Property) (sender : AccountId) :
    Txn Asset := do
  if ← Registry.contains id then Txn.refuse (.duplicateAsset id)
  else
    properties.forM fun p => (p.value.check : Verdict Unit)
    let fresh := { Asset.fresh id name sender quantity unit with
      properties := Property.normalize properties }
    match parent with
    | none =>
      Registry.create fresh
      let _ ← Inventory.credit fresh.owner fresh.root fresh.quantity
      return fresh
    | some parentId =>
      let p ← Registry.get parentId
      p.checkMutable
      require (p.isOwnedBy sender) (.unauthorized sender .derive parentId)
      require (quantity ≤ p.quantity) (.insufficientQuantity parentId p.quantity quantity)
      let child := { fresh with parent := some parentId, root := p.root }
      Registry.put { p with quantity := p.quantity - quantity }
      Registry.create child
      return child

/-- Freezes an asset for good. -/
def finalize (id : AssetId) (sender : AccountId) : Txn Asset := do
  let a ← Registry.get id
  a.checkMutable
  authorize a sender .finalize .finalize id
  let frozen := { a with isFinal := true }
  Registry.put frozen
  let _ ← OfferBook.discard id
  return frozen

end Custody.Ledger
