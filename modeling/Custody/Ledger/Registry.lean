import Custody.Asset.Basic
import Custody.Store.Transaction

/-!
# The registry of assets

The registry is the only writer of asset records.  A record is stored without its properties,
each of which has a key of its own; the owner and every reporter of an asset have an index entry
for it.  A write compares the new asset with the stored record and brings index entries and
properties in step in the same transaction.

* `Registry.find?`, `Registry.get`, `Registry.all`: assets with their properties.
* `Registry.create`, `Registry.put`: the writes.
* `Registry.members`: the assets listed in an index.
-/

namespace Custody.Registry

/-! ### Reading -/

/-- The stored record of an asset, without its properties. -/
def record? (id : AssetId) : Query (Option Asset) := Query.load? (Key.asset id)

/-- The properties of an asset, in order of names. -/
def properties (id : AssetId) : Query (List Property) := do
  return Property.sortByName (← Query.loadAll (Key.properties id))

/-- A property of an asset, read from its own key. -/
def property? (id : AssetId) (name : PropertyName) : Query (Option Property) :=
  Query.load? (Key.property id name)

/-- The asset with its properties, if there is one. -/
def find? (id : AssetId) : Query (Option Asset) := do
  match ← record? id with
  | none => return none
  | some a => return some { a with properties := ← properties id }

/-- The asset with its properties, which must be there. -/
def get (id : AssetId) : Query Asset := do
  match ← find? id with
  | none => throw (.assetNotFound id)
  | some a => return a

/-- Whether there is a record of the asset. -/
def contains (id : AssetId) : Query Bool := Query.contains (Key.asset id)

/-- The asset of an index entry. -/
def memberOf (ns : Namespace) (key : Bytes) : Verdict AssetId :=
  match Key.holding? ns key with
  | some h => .ok h.asset
  | none => .error (.damagedRecord (Key.display key) .indexKey)

/-- The assets of the index entries that begin with `stem`. -/
def members (ns : Namespace) (stem : Bytes) : Query (List AssetId) := do
  (← Query.scan stem).mapM fun entry => memberOf ns entry.1

/-- The assets that an account owns, by the index. -/
def ownedBy (owner : AccountId) : Query (List AssetId) :=
  members .ownerIndex (Key.ownedBy owner)

/-- The assets on which an account is a reporter, by the index. -/
def reportedBy (reporter : AccountId) : Query (List AssetId) :=
  members .reporterIndex (Key.reportedBy reporter)

/-- The assets that an account owns, in order of identifiers. -/
def assetsOwnedBy (owner : AccountId) : Query (List Asset) := do
  (← ownedBy owner).mapM get

/-- The assets on which an account is a reporter, in order of identifiers. -/
def assetsReportedBy (reporter : AccountId) : Query (List Asset) := do
  (← reportedBy reporter).mapM get

/-- The reporters of an asset, in order of accounts. -/
def reporters (id : AssetId) : Query (List Reporter) := do
  return (← get id).reporters

/-- The asset of a stored record, with its properties. -/
def complete (entry : Bytes × Bytes) : Query Asset := do
  let a : Asset ← Query.read entry.1 entry.2
  return { a with properties := ← properties a.id }

/-- Every asset, in order of identifiers. -/
def all : Query (List Asset) := do
  (← Query.scan Namespace.asset.stem).mapM complete

/-! ### Writing -/

/-- Moves the entry in the index of owners, if the owner changes. -/
def writeOwner (previous : Option Asset) (a : Asset) : Txn Unit := do
  match previous with
  | some p =>
    if p.owner = a.owner then return
    Txn.delete (Key.owner p.owner a.id)
    Txn.set (Key.owner a.owner a.id) []
  | none => Txn.set (Key.owner a.owner a.id) []

/-- The accounts of the reporters of an asset. -/
def reporterAccounts (a : Asset) : List AccountId := a.reporters.map Reporter.account

/-- Removes the index entries of reporters that are gone and adds those of new ones. -/
def writeReporters (previous : Option Asset) (a : Asset) : Txn Unit := do
  let before := (previous.map reporterAccounts).getD []
  let after := reporterAccounts a
  (before.filter fun r => !after.contains r).forM fun r => Txn.delete (Key.reporter r a.id)
  (after.filter fun r => !before.contains r).forM fun r => Txn.set (Key.reporter r a.id) []

/-- Whether the key is that of none of the given names. -/
def isStale (wanted : List PropertyName) (key : Bytes) : Bool :=
  match Key.split? .property key with
  | some [_, name] => !wanted.contains ⟨name⟩
  | _ => true

/-- Makes the stored properties those of the asset. -/
def writeProperties (a : Asset) : Txn Unit := do
  let stored ← Query.scan (Key.properties a.id)
  let wanted := a.properties.map Property.name
  (stored.filter fun entry => isStale wanted entry.1).forM fun entry => Txn.delete entry.1
  a.properties.forM fun p => Txn.save (Key.property a.id p.name) p

/-- Writes an asset in place of its previous record. -/
def write (previous : Option Asset) (a : Asset) : Txn Unit := do
  writeOwner previous a
  writeReporters previous a
  writeProperties a
  Txn.save (Key.asset a.id) { a with properties := [] }

/-- Stores a new asset. -/
def create (a : Asset) : Txn Unit := do
  if ← contains a.id then Txn.refuse (.duplicateAsset a.id)
  else write none a

/-- Stores an asset over its record. -/
def put (a : Asset) : Txn Unit := do
  write (← record? a.id) a

end Custody.Registry
