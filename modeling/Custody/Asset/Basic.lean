import Custody.Asset.Material
import Custody.Asset.Reporter

/-!
# Assets

An asset is a quantity of something in the custody of one account.  It may descend from a parent
asset; the topmost ancestor is its root, under which quantities are counted.  A final asset is
frozen.

* `Asset.upsertReporter`, `Asset.takeReporter`: changes to the list of reporters, which is in order
  of accounts.
* `Asset.permits`: what an account may do to an asset.
-/

namespace Custody

/-- A tracked asset. -/
structure Asset where
  id : AssetId
  name : String
  /-- The account that created the asset. -/
  issuer : AccountId
  /-- The account that has custody of it. -/
  owner : AccountId
  quantity : Nat
  unit : String
  /-- The asset it was split from. -/
  parent : Option AssetId
  /-- The topmost ancestor. -/
  root : AssetId
  isFinal : Bool
  /-- In order of names, each once. -/
  properties : List Property
  /-- In order of components, none of quantity zero. -/
  materials : List Material
  /-- In order of accounts, each once. -/
  reporters : List Reporter
  deriving DecidableEq

/-- What an account may be allowed to do to an asset. -/
inductive Right where
  | changeQuantity
  | offerRole
  | withdrawOffer
  | manageReporters
  | finalize
  /-- To write the named property. -/
  | write (name : PropertyName)
  deriving DecidableEq, Repr

namespace Asset

/-- A fresh asset without ancestors, issued and owned by `owner`. -/
def fresh (id : AssetId) (name : String) (owner : AccountId) (quantity : Nat) (unit : String) :
    Asset where
  id := id
  name := name
  issuer := owner
  owner := owner
  quantity := quantity
  unit := unit
  parent := none
  root := id
  isFinal := false
  properties := []
  materials := []
  reporters := []

/-- Refuses to change a final asset. -/
def checkMutable (a : Asset) : Verdict Unit := require (!a.isFinal) (.assetFinal a.id)

/-- The grant of an account. -/
def reporter? (a : Asset) (account : AccountId) : Option Reporter :=
  a.reporters.find? fun r => r.account == account

/-- The property with a name. -/
def property? (a : Asset) (name : PropertyName) : Option Property :=
  a.properties.find? fun p => p.name == name

/-- Inserts a grant, or replaces the one of the same account. -/
def upsertReporter (a : Asset) (r : Reporter) : Asset :=
  { a with reporters := upsertBy Reporter.account r a.reporters }

/-- Removes the grant of an account. -/
def removeReporter (a : Asset) (account : AccountId) : Asset :=
  { a with reporters := a.reporters.eraseP fun r => r.account == account }

/-- Removes the grant of an account and hands it out, if there is one. -/
def takeReporter (a : Asset) (account : AccountId) : Option Reporter × Asset :=
  (a.reporter? account, a.removeReporter account)

/-! ### Rights -/

/-- Whether the account has custody of the asset. -/
def isOwnedBy (a : Asset) (principal : AccountId) : Bool := a.owner == principal

/-- Whether the account may do something: an owner everything, a reporter the writing of the
properties it was granted. -/
def permits (a : Asset) (principal : AccountId) : Right → Bool
  | .write name =>
    a.isOwnedBy principal || (a.reporter? principal).any fun r => r.canWrite name
  | _ => a.isOwnedBy principal

/-! ### JSON -/

instance : JsonForm Asset where
  toJson a := .object <|
    [("id", toJson a.id), ("name", .text a.name), ("issuer", toJson a.issuer),
      ("owner", toJson a.owner), ("quantity", .quantity a.quantity), ("unit", .text a.unit)] ++
    Json.omittable "parent_id" toJson a.parent ++
    [("root_id", toJson a.root), ("final", .bool a.isFinal), ("properties", toJson a.properties),
      ("materials", toJson a.materials), ("reporters", toJson a.reporters)]
  ofJson? j := do
    let members ← j.fields?
      ["id", "name", "issuer", "owner", "quantity", "unit", "parent_id", "root_id", "final"]
      ["properties", "materials", "reporters"]
    return {
      id := ← Json.required? members "id" ofJson?
      name := ← Json.required? members "name" ofJson?
      issuer := ← Json.required? members "issuer" ofJson?
      owner := ← Json.required? members "owner" ofJson?
      quantity := ← Json.required? members "quantity" Json.quantity?
      unit := ← Json.required? members "unit" ofJson?
      parent := ← Json.optional? members "parent_id" ofJson?
      root := ← Json.required? members "root_id" ofJson?
      isFinal := ← Json.required? members "final" ofJson?
      properties := ← Json.defaulted? members "properties" ofJson? []
      materials := ← Json.defaulted? members "materials" ofJson? []
      reporters := ← Json.defaulted? members "reporters" ofJson? [] }

end Asset

end Custody
