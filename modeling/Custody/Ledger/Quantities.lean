import Custody.Ledger.Inventory
import Custody.Ledger.Registry

/-!
# Quantities

Changes to the quantity of an asset move the owner's balance under the asset's root by the same
amount, so that a balance stays the total of the assets it counts.  Consuming materials takes
them from their assets and from the balances and notes them on the consuming asset; everything
is checked before the first write.
-/

namespace Custody.Ledger

/-- Refuses an action on an asset unless the account has the right to it. -/
def authorize (a : Asset) (principal : AccountId) (right : Right) (action : Action)
    (named : AssetId) : Verdict Unit :=
  require (a.permits principal right) (.unauthorized principal action named)

/-- An asset whose quantity the caller may change by an amount. -/
def forChange (id : AssetId) (amount : Nat) (caller : AccountId) (action : Action) :
    Query Asset := do
  let a ← Registry.get id
  a.checkMutable
  require (amount != 0) (.invalidField "amount" .zeroAmount)
  authorize a caller .changeQuantity action id
  return a

/-- Adds to the quantity of an asset. -/
def addQuantity (id : AssetId) (amount : Nat) (caller : AccountId) : Txn Asset := do
  let a ← forChange id amount caller .addQuantity
  let grown := { a with quantity := a.quantity + amount }
  let _ ← Inventory.credit grown.owner grown.root amount
  Registry.put grown
  return grown

/-- Takes from the quantity of an asset. -/
def subtractQuantity (id : AssetId) (amount : Nat) (caller : AccountId) : Txn Asset := do
  let a ← forChange id amount caller .subtractQuantity
  require (amount ≤ a.quantity) (.insufficientQuantity id a.quantity amount)
  let shrunk := { a with quantity := a.quantity - amount }
  let _ ← Inventory.debit shrunk.owner shrunk.root amount
  Registry.put shrunk
  return shrunk

/-! ### Materials -/

/-- The asset that a material is taken from, if the caller may take it. -/
def component (consumer : AssetId) (caller : AccountId) (m : Material) : Query Asset := do
  require (m.component != consumer) (.invalidField "materials" .ownComponent)
  match ← Registry.find? m.component with
  | none => throw (.componentNotFound m.component)
  | some a =>
    a.checkMutable
    authorize a caller .changeQuantity .consumeComponent a.id
    require (m.quantity ≤ a.quantity) (.insufficientQuantity a.id a.quantity m.quantity)
    return a

/-- What a batch takes from the balance under each root. -/
def rootTotals (taken : List (Asset × Nat)) : SortedMap AssetId Nat :=
  taken.foldl (fun sums t => sums.update t.1.root fun q => q.getD 0 + t.2) ∅

/-- Refuses to take more under a root than the balance of the caller. -/
def checkRoot (caller : AccountId) (root : AssetId) (needed : Nat) : Query Unit := do
  let available ← Inventory.balance caller root
  require (needed ≤ available) (.insufficientQuantity root available needed)

/-- Takes a quantity from a component. -/
def consume (caller : AccountId) (a : Asset) (quantity : Nat) : Txn Unit := do
  let _ ← Inventory.debit caller a.root quantity
  Registry.put { a with quantity := a.quantity - quantity }

/-- Consumes materials into an asset. -/
def addMaterials (id : AssetId) (materials : List Material) (caller : AccountId) :
    Txn Asset := do
  let target ← Registry.get id
  target.checkMutable
  authorize target caller .changeQuantity .addMaterials id
  require (!materials.isEmpty) (.missingField "materials")
  require (!materials.any fun m => m.quantity == 0) (.invalidField "quantity" .zeroMaterial)
  let demand := Material.normalize materials
  let components ← (demand.mapM (component id caller) : Query (List Asset))
  let taken := components.zip (demand.map Material.quantity)
  (rootTotals taken).bindings.forM fun b => (checkRoot caller b.1 b.2 : Query Unit)
  taken.forM fun t => consume caller t.1 t.2
  let composed := { target with materials := Material.merge target.materials demand }
  Registry.put composed
  return composed

end Custody.Ledger
