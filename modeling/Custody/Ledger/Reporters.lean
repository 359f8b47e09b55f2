import Custody.Ledger.Quantities

/-!
# Granting and revoking

The owner of an asset appoints reporters and dismisses them.
-/

namespace Custody.Ledger

/-- Makes an account a reporter of an asset, with the given names in place of earlier ones. -/
def createReporter (id : AssetId) (reporter : AccountId) (names : List PropertyName)
    (caller : AccountId) (now : UInt64) : Txn Asset := do
  let a ← Registry.get id
  a.checkMutable
  authorize a caller .manageReporters .createReporter id
  require (!a.isOwnedBy reporter) (.invalidField "reporter" .ownerAsReporter)
  require (!names.isEmpty) (.missingField "property_names")
  let granted := a.upsertReporter (Reporter.grant reporter names now)
  Registry.put granted
  return granted

/-- Removes a reporter from an asset. -/
def revokeReporter (id : AssetId) (reporter : AccountId) (caller : AccountId) : Txn Asset := do
  let a ← Registry.get id
  a.checkMutable
  authorize a caller .manageReporters .revokeReporter id
  let (dismissed, left) := a.takeReporter reporter
  require dismissed.isSome (.notReporter id reporter)
  Registry.put left
  return left

end Custody.Ledger
