import Custody.Ledger.Quantities

/-!
# Writing properties

The owner may write any property, a reporter those it was granted.  A batch is written whole or
refused whole.
-/

namespace Custody.Ledger

/-- Lays a batch of properties over those of an asset. -/
def updateProperties (id : AssetId) (batch : List Property) (caller : AccountId) :
    Txn Asset := do
  let a ← Registry.get id
  a.checkMutable
  require (!batch.isEmpty) (.missingField "properties")
  batch.forM fun p => (p.value.check : Verdict Unit)
  batch.forM fun p => authorize a caller (.write p.name) .writeProperty id
  let written := { a with properties := Property.upsert a.properties batch }
  Registry.put written
  return written

end Custody.Ledger
