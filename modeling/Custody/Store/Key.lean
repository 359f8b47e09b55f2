import Custody.Identifier

/-!
# Store keys

Every record lies under the namespace of its kind.  A key with two parts joins them by a NUL
byte, which identifiers that passed their checks do not contain: so the part before the NUL
names a whole range of keys, and keys sort by their first part.

* `Key.asset`, `Key.property`, `Key.offer`, `Key.balance`: the keys of records.
* `Key.owner`, `Key.reporter`, `Key.recipient`: the keys of index entries.
* `Key.split?`: the parts of a key, read back.
* `Key.display`: a key as it is shown to people.
-/

namespace Custody

/-- A kind of record or index entry. -/
inductive Namespace where
  | asset
  | ownerIndex
  | reporterIndex
  | offer
  | recipientIndex
  | property
  | inventory
  deriving DecidableEq, Repr

/-- The bytes that every key of a namespace begins with. -/
def Namespace.stem : Namespace → Bytes
  | asset => Utf8.ofString "provena/asset/"
  | ownerIndex => Utf8.ofString "provena/owner_index/"
  | reporterIndex => Utf8.ofString "provena/reporter_index/"
  | offer => Utf8.ofString "provena/proposal/"
  | recipientIndex => Utf8.ofString "provena/proposal_recipient/"
  | property => Utf8.ofString "provena/property/"
  | inventory => Utf8.ofString "provena/inventory/"

namespace Key

/-- The byte between the parts of a key. -/
def separator : UInt8 := 0

/-- A key with one part. -/
def single (ns : Namespace) (part : Bytes) : Bytes := ns.stem ++ part

/-- A key with two parts. -/
def pair (ns : Namespace) (first second : Bytes) : Bytes :=
  ns.stem ++ first ++ separator :: second

/-- What the keys with this first part begin with. -/
def scope (ns : Namespace) (first : Bytes) : Bytes := ns.stem ++ first ++ [separator]

/-! ### Records -/

/-- The key of an asset. -/
def asset (id : AssetId) : Bytes := single .asset id.bytes

/-- The key of a property of an asset. -/
def property (id : AssetId) (name : PropertyName) : Bytes := pair .property id.bytes name.bytes

/-- What the keys of the properties of an asset begin with. -/
def properties (id : AssetId) : Bytes := scope .property id.bytes

/-- The key of an offer. -/
def offer (id : AssetId) (recipient : AccountId) : Bytes := pair .offer id.bytes recipient.bytes

/-- What the keys of the offers on an asset begin with. -/
def offers (id : AssetId) : Bytes := scope .offer id.bytes

/-- The key of a balance. -/
def balance (owner : AccountId) (root : AssetId) : Bytes := pair .inventory owner.bytes root.bytes

/-- What the keys of the balances of an owner begin with. -/
def balances (owner : AccountId) : Bytes := scope .inventory owner.bytes

/-! ### Index entries -/

/-- The entry of an asset under its owner. -/
def owner (account : AccountId) (id : AssetId) : Bytes := pair .ownerIndex account.bytes id.bytes

/-- What the entries under an owner begin with. -/
def ownedBy (account : AccountId) : Bytes := scope .ownerIndex account.bytes

/-- The entry of an asset under one of its reporters. -/
def reporter (account : AccountId) (id : AssetId) : Bytes :=
  pair .reporterIndex account.bytes id.bytes

/-- What the entries under a reporter begin with. -/
def reportedBy (account : AccountId) : Bytes := scope .reporterIndex account.bytes

/-- The entry of an offer under its recipient. -/
def recipient (account : AccountId) (id : AssetId) : Bytes :=
  pair .recipientIndex account.bytes id.bytes

/-- What the entries under a recipient begin with. -/
def offeredTo (account : AccountId) : Bytes := scope .recipientIndex account.bytes

/-! ### Reading keys -/

/-- The stretches between the separators. -/
def segments : Bytes → List Bytes
  | [] => [[]]
  | b :: rest =>
    if b = separator then [] :: segments rest
    else match segments rest with
      | [] => [[b]]
      | s :: more => (b :: s) :: more

/-- What follows the stem of a namespace in a key. -/
def strip? : Bytes → Bytes → Option Bytes
  | [], key => some key
  | s :: stem, b :: key => if s = b then strip? stem key else none
  | _ :: _, [] => none

/-- The parts of a key of a namespace; each must be a text. -/
def split? (ns : Namespace) (key : Bytes) : Option (List String) :=
  (strip? ns.stem key).bind fun rest => (segments rest).mapM Utf8.toString?

/-- The two parts of a key of an index or of the inventory. -/
def holding? (ns : Namespace) (key : Bytes) : Option Holding :=
  match split? ns key with
  | some [account, asset] => some ⟨⟨account⟩, ⟨asset⟩⟩
  | _ => none

/-- A key as text: separators become bars, and bytes that are no text are marked. -/
def display (key : Bytes) : String :=
  String.ofList ((Utf8.decodeLossy key).map fun c => if c = '\x00' then '|' else c)

example : split? .property (property ⟨"a1"⟩ ⟨"size"⟩) = some ["a1", "size"] := by decide +kernel

end Key

end Custody
