import Custody.Asset.Basic
import Custody.Store.Transaction

/-!
# The inventory

For each account and root the inventory holds a balance: the total quantity of the assets with
that root in the custody of that account.  A balance of zero is not stored.

* `Inventory.balance`, `Inventory.balances`: reading.
* `Inventory.credit`, `Inventory.debit`, `Inventory.move`: changes.
-/

namespace Custody

/-- A balance as it is stored. -/
structure Balance where
  amount : Nat
  deriving DecidableEq, Repr

instance : JsonForm Balance where
  toJson b := .digits32 b.amount
  ofJson? j := (Json.digits32? j).map Balance.mk

namespace Inventory

/-- The balance of an owner under a root. -/
def balance (owner : AccountId) (root : AssetId) : Query Nat := do
  let stored : Option Balance ← Query.load? (Key.balance owner root)
  return (stored.map Balance.amount).getD 0

/-- The root and the amount of a stored balance. -/
def entryOf (entry : Bytes × Bytes) : Verdict (Holding × Nat) :=
  match Key.holding? .inventory entry.1 with
  | none => .error (.damagedRecord (Key.display entry.1) .inventoryKey)
  | some holding => do
    let b : Balance ← Query.read entry.1 entry.2
    return (holding, b.amount)

/-- The balances of an owner, in order of roots. -/
def balances (owner : AccountId) : Query (List (AssetId × Nat)) := do
  let entries ← (← Query.scan (Key.balances owner)).mapM fun entry => entryOf entry
  return entries.map fun e => (e.1.asset, e.2)

/-- Stores a balance. -/
def write (owner : AccountId) (root : AssetId) (amount : Nat) : Txn Unit :=
  if amount = 0 then Txn.delete (Key.balance owner root)
  else Txn.save (Key.balance owner root) (Balance.mk amount)

/-- Adds to a balance; answers the new balance. -/
def credit (owner : AccountId) (root : AssetId) (amount : Nat) : Txn Nat := do
  let available ← balance owner root
  write owner root (available + amount)
  return available + amount

/-- Takes from a balance, if it is large enough; answers the new balance. -/
def debit (owner : AccountId) (root : AssetId) (amount : Nat) : Txn Nat := do
  let available ← balance owner root
  require (amount ≤ available) (.insufficientQuantity root available amount)
  write owner root (available - amount)
  return available - amount

/-- Moves an amount from one owner to another. -/
def move (giver taker : AccountId) (root : AssetId) (amount : Nat) : Txn Unit := do
  if giver = taker ∨ amount = 0 then return
  let _ ← debit giver root amount
  let _ ← credit taker root amount

end Inventory

end Custody
