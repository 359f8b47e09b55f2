import Custody.Ledger.Inventory
import Custody.Ledger.OfferBook

/-!
# Audits

The indices and the inventory repeat what the records of assets and offers say.  An audit
compares the two; the indices can be rebuilt from the records.

* `Audit.indexIssues`: every disagreement of the three indices with the records.
* `Audit.inventoryIssues`: every balance that is not the total it should be.
* `Audit.rebuildIndices`: the indices made anew.
-/

namespace Custody

/-- An index. -/
inductive IndexKind where
  | owner
  | reporter
  | recipient
  deriving DecidableEq, Repr

namespace IndexKind

def label : IndexKind → String
  | owner => "owner"
  | reporter => "reporter"
  | recipient => "proposal_recipient"

/-- The indices in the order in which they are audited. -/
def all : List IndexKind := [owner, reporter, recipient]

instance : Labelled IndexKind := ⟨all, label⟩

instance : JsonForm IndexKind := ⟨Labelled.toJson, Labelled.ofJson?⟩

/-- The namespace of the entries of an index. -/
def space : IndexKind → Namespace
  | owner => .ownerIndex
  | reporter => .reporterIndex
  | recipient => .recipientIndex

/-- The key of an entry of an index. -/
def key : IndexKind → Holding → Bytes
  | owner, h => Key.owner h.account h.asset
  | reporter, h => Key.reporter h.account h.asset
  | recipient, h => Key.recipient h.account h.asset

end IndexKind

/-- A disagreement between the records and an index. -/
inductive IndexIssue where
  /-- The records ask for an entry that is not there. -/
  | missing (index : IndexKind) (entry : Holding)
  /-- An entry that no record asks for. -/
  | stale (index : IndexKind) (entry : Holding)
  /-- An entry whose key does not have two parts; the key as it is displayed. -/
  | malformed (index : IndexKind) (key : String)
  deriving DecidableEq, Repr

/-- A balance that differs from the total of the assets it counts. -/
structure InventoryIssue where
  holding : Holding
  recorded : Nat
  expected : Nat
  deriving DecidableEq, Repr

namespace Audit

/-! ### Indices -/

/-- The entries that the records ask for in an index. -/
def expectedEntries (assets : List Asset) (offers : List Offer) :
    IndexKind → SortedMap Holding Unit
  | .owner => .ofKeys (assets.map fun a => ⟨a.owner, a.id⟩)
  | .reporter => .ofKeys (assets.flatMap fun a => a.reporters.map fun r => ⟨r.account, a.id⟩)
  | .recipient => .ofKeys (offers.map fun o => ⟨o.recipient, o.asset⟩)

/-- Every offer in the store. -/
def allOffers : Query (List Offer) := Query.loadAll Namespace.offer.stem

/-- The disagreements of one index with the entries that the records ask for: malformed keys,
then missing entries, then stale ones, each in order. -/
def issuesOf (index : IndexKind) (wanted : SortedMap Holding Unit) (keys : List Bytes) :
    List IndexIssue :=
  let holding? := Key.holding? index.space
  let present : SortedMap Holding Unit := .ofKeys (keys.filterMap holding?)
  (keys.filter fun k => (holding? k).isNone).map (fun k => .malformed index (Key.display k)) ++
  (wanted.keys.filter fun h => !present.contains h).map (.missing index) ++
  (present.keys.filter fun h => !wanted.contains h).map (.stale index)

/-- The keys of the entries of an index. -/
def indexKeys (index : IndexKind) : Query (List Bytes) := do
  return (← Query.scan index.space.stem).map (·.1)

/-- Every disagreement between the records and the indices. -/
def indexIssues : Query (List IndexIssue) := do
  let assets ← Registry.all
  let offers ← allOffers
  let issues ← IndexKind.all.mapM fun index => do
    return issuesOf index (expectedEntries assets offers index) (← indexKeys index)
  return issues.flatten

/-- Makes one index anew; answers the number of its entries. -/
def rebuildIndex (index : IndexKind) (wanted : SortedMap Holding Unit) : Txn Nat := do
  (← indexKeys index).forM Txn.delete
  wanted.keys.forM fun h => Txn.set (index.key h) []
  return wanted.size

/-- Makes the indices anew from the records; answers the number of entries. -/
def rebuildIndices : Txn Nat := do
  let assets ← Registry.all
  let offers ← allOffers
  let sizes ← IndexKind.all.mapM fun index =>
    rebuildIndex index (expectedEntries assets offers index)
  return sizes.foldl (· + ·) 0

/-! ### Inventory -/

/-- The total of the assets of each owner under each root. -/
def expectedBalances (assets : List Asset) : SortedMap Holding Nat :=
  assets.foldl (fun sums a => sums.update ⟨a.owner, a.root⟩ fun q => q.getD 0 + a.quantity) ∅

/-- The stored balances. -/
def recordedBalances : Query (SortedMap Holding Nat) := do
  let entries ← (← Query.scan Namespace.inventory.stem).mapM fun entry => Inventory.entryOf entry
  return .ofList entries

/-- The disagreement of a stored balance with its total, if there is one. -/
def issueOf? (expected recorded : SortedMap Holding Nat) (h : Holding) : Option InventoryIssue :=
  if expected.getD h 0 = recorded.getD h 0 then none
  else some ⟨h, recorded.getD h 0, expected.getD h 0⟩

/-- Every balance that differs from its total, in order of owners and roots. -/
def inventoryIssues : Query (List InventoryIssue) := do
  let expected := expectedBalances (← Registry.all)
  let recorded ← recordedBalances
  return (SortedMap.ofKeys (expected.keys ++ recorded.keys)).keys.filterMap
    (issueOf? expected recorded)

end Audit

/-! ### JSON -/

namespace IndexIssue

/-- The members of a disagreement about an entry. -/
def entryJson (index : IndexKind) (h : Holding) : Json := .object
  [("index", toJson index), ("account", toJson h.account), ("asset", toJson h.asset)]

/-- Reads a disagreement about an entry. -/
def entryOfJson? (j : Json) : Option (IndexKind × Holding) := do
  let members ← j.fields? ["index", "account", "asset"] []
  let index ← Json.required? members "index" ofJson?
  let account ← Json.required? members "account" ofJson?
  let asset ← Json.required? members "asset" ofJson?
  return (index, ⟨account, asset⟩)

/-- Reads a disagreement about a key. -/
def keyOfJson? (j : Json) : Option (IndexKind × String) := do
  let members ← j.fields? ["index", "key"] []
  let index ← Json.required? members "index" ofJson?
  let key ← Json.required? members "key" ofJson?
  return (index, key)

instance : JsonForm IndexIssue where
  toJson
    | missing index entry => .object [("Missing", entryJson index entry)]
    | stale index entry => .object [("Stale", entryJson index entry)]
    | malformed index key => .object
      [("Malformed", .object [("index", toJson index), ("key", .text key)])]
  ofJson? j := do
    match ← j.onlyMember? with
    | ("Missing", j) => (entryOfJson? j).map fun e => missing e.1 e.2
    | ("Stale", j) => (entryOfJson? j).map fun e => stale e.1 e.2
    | ("Malformed", j) => (keyOfJson? j).map fun e => malformed e.1 e.2
    | _ => none

end IndexIssue

instance : JsonForm InventoryIssue where
  toJson i := .object
    [("owner", toJson i.holding.account), ("root", toJson i.holding.asset),
      ("recorded", .digits32 i.recorded), ("expected", .digits32 i.expected)]
  ofJson? j := do
    let members ← j.fields? ["owner", "root", "recorded", "expected"] []
    let account ← Json.required? members "owner" ofJson?
    let asset ← Json.required? members "root" ofJson?
    let recorded ← Json.required? members "recorded" Json.digits32?
    let expected ← Json.required? members "expected" Json.digits32?
    return ⟨⟨account, asset⟩, recorded, expected⟩

end Custody
