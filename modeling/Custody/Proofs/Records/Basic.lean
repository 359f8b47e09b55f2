import Custody.Proofs.Ascending
import Custody.Proofs.Json.Lawful
import Custody.Proofs.SortedMap.Sum
import Custody.Proofs.Store.Sheet

/-!
# The records behind the bytes

The store is a picture of two things: the assets, and the pending offers.  Everything else in it
is derived: the index entries follow from the owners, the reporters and the recipients, and each
balance is the total of the assets that it counts.

* `Records`: the assets and the offers; `Records.put`, `Records.hold` and the like change them.
* `Records.balance`: the total of the assets of an owner under a root.
* `Records.sheet`: what each slot of the store holds, for given balances.
* `Records.WellFormed`: every asset and every offer lies under its own name, and names are clean.
* `Records.Pictured`: a map of bytes shows exactly the records and their totals.
-/

namespace Custody

abbrev Balances := AccountId → AssetId → Nat

/-- The balances of one amount of one owner under one root. -/
def Balances.single (owner : AccountId) (root : AssetId) (amount : Nat) : Balances :=
  fun o r => if owner = o ∧ root = r then amount else 0

theorem Balances.single_add (owner : AccountId) (root : AssetId) (x y : Nat) (o : AccountId)
    (r : AssetId) :
    single owner root (x + y) o r = single owner root x o r + single owner root y o r := by
  simp only [single]
  split <;> rfl

theorem Balances.single_sub_add (owner : AccountId) (root : AssetId) {x y : Nat} (h : y ≤ x)
    (o : AccountId) (r : AssetId) :
    single owner root (x - y) o r + single owner root y o r = single owner root x o r := by
  rw [← single_add, Nat.sub_add_cancel h]

/-- The assets and the pending offers. -/
@[ext]
structure Records where
  assets : SortedMap AssetId Asset
  /-- The offers, by recipient and asset. -/
  offers : SortedMap Holding Offer

namespace Records

def empty : Records := ⟨∅, ∅⟩

def asset? (σ : Records) (id : AssetId) : Option Asset := σ.assets.get? id

def offer? (σ : Records) (id : AssetId) (recipient : AccountId) : Option Offer :=
  σ.offers.get? ⟨recipient, id⟩

def get (σ : Records) (id : AssetId) : Verdict Asset :=
  match σ.asset? id with
  | none => .error (.assetNotFound id)
  | some a => .ok a

def getOffer (σ : Records) (id : AssetId) (recipient : AccountId) : Verdict Offer :=
  match σ.offer? id recipient with
  | none => .error (.offerNotFound id recipient)
  | some o => .ok o

/-! ### Changes -/

/-- The records after an asset is stored over an earlier one with its identifier. -/
def put (σ : Records) (a : Asset) : Records := { σ with assets := σ.assets.insert a.id a }

/-- The records after an offer is made over an earlier one to the same recipient. -/
def hold (σ : Records) (o : Offer) : Records :=
  { σ with offers := σ.offers.insert ⟨o.recipient, o.asset⟩ o }

/-- The records without the offer on an asset to a recipient. -/
def drop (σ : Records) (id : AssetId) (recipient : AccountId) : Records :=
  { σ with offers := σ.offers.erase ⟨recipient, id⟩ }

/-- The records without the offers on an asset. -/
def dropAll (σ : Records) (id : AssetId) : Records :=
  { σ with offers := σ.offers.filterKeys fun h => h.asset != id }

def offersOn (σ : Records) (id : AssetId) : List Offer :=
  (σ.offers.bindings.filter fun b => b.1.asset == id).map (·.2)

theorem get_eq_ok {σ : Records} {id : AssetId} {a : Asset} :
    σ.get id = .ok a ↔ σ.asset? id = some a := by
  rw [get]
  cases σ.asset? id <;> simp

theorem getOffer_eq_ok {σ : Records} {id : AssetId} {recipient : AccountId} {o : Offer} :
    σ.getOffer id recipient = .ok o ↔ σ.offer? id recipient = some o := by
  rw [getOffer]
  cases σ.offer? id recipient <;> simp

variable (σ : Records)

theorem asset?_put (a : Asset) (id : AssetId) :
    (σ.put a).asset? id = if id = a.id then some a else σ.asset? id :=
  σ.assets.get?_insert_eq a.id id a

theorem asset?_put_self (a : Asset) : (σ.put a).asset? a.id = some a := by
  rw [asset?_put, if_pos rfl]

@[simp] theorem offer?_put (a : Asset) (id : AssetId) (recipient : AccountId) :
    (σ.put a).offer? id recipient = σ.offer? id recipient := rfl

@[simp] theorem asset?_hold (o : Offer) (id : AssetId) : (σ.hold o).asset? id = σ.asset? id := rfl

theorem offer?_hold (o : Offer) (id : AssetId) (recipient : AccountId) :
    (σ.hold o).offer? id recipient =
      if id = o.asset ∧ recipient = o.recipient then some o else σ.offer? id recipient := by
  rw [offer?, hold, SortedMap.get?_insert_eq]
  simp only [Holding.mk.injEq, and_comm]
  rfl

theorem offer?_hold_self (o : Offer) : (σ.hold o).offer? o.asset o.recipient = some o := by
  rw [offer?_hold, if_pos ⟨rfl, rfl⟩]

@[simp] theorem asset?_drop (id id' : AssetId) (recipient : AccountId) :
    (σ.drop id recipient).asset? id' = σ.asset? id' := rfl

theorem offer?_drop (id id' : AssetId) (recipient recipient' : AccountId) :
    (σ.drop id recipient).offer? id' recipient' =
      if id' = id ∧ recipient' = recipient then none else σ.offer? id' recipient' := by
  rw [offer?, drop, SortedMap.get?_erase_eq]
  simp only [Holding.mk.injEq, and_comm]
  rfl

theorem offer?_dropAll (id id' : AssetId) (recipient : AccountId) :
    (σ.dropAll id).offer? id' recipient = if id' = id then none else σ.offer? id' recipient := by
  rw [offer?, dropAll, SortedMap.get?_filterKeys]
  by_cases h : id' = id <;> simp [h, offer?]

theorem offer?_foldl_drop (l : List Offer) (id id' : AssetId) (recipient : AccountId) :
    (l.foldl (fun σ o => σ.drop id o.recipient) σ).offer? id' recipient =
      if id' = id ∧ recipient ∈ l.map Offer.recipient then none else σ.offer? id' recipient := by
  induction l generalizing σ with
  | nil => simp
  | cons o rest ih =>
    rw [List.foldl_cons, ih, offer?_drop]
    by_cases hid : id' = id <;> by_cases hr : recipient = o.recipient <;> simp [hid, hr]

theorem assets_foldl_drop (l : List Offer) (id : AssetId) :
    (l.foldl (fun σ o => σ.drop id o.recipient) σ).assets = σ.assets := by
  induction l generalizing σ with
  | nil => rfl
  | cons o rest ih => exact ih (σ.drop id o.recipient)

theorem mem_offersOn {id : AssetId} {o : Offer} :
    o ∈ σ.offersOn id ↔ ∃ recipient, σ.offer? id recipient = some o := by
  simp only [offersOn, List.mem_map, List.mem_filter, Prod.exists, SortedMap.mem_bindings,
    beq_iff_eq, offer?]
  constructor
  · rintro ⟨⟨account, asset⟩, o, ⟨hget, rfl⟩, rfl⟩
    exact ⟨account, hget⟩
  · rintro ⟨recipient, hget⟩
    exact ⟨⟨recipient, id⟩, o, ⟨hget, rfl⟩, rfl⟩

/-! ### Changes that cancel out -/

/-- Storing an asset again, over another record of it, restores it. -/
theorem put_back (b : Asset) {a : Asset} (ha : σ.asset? a.id = some a) (hid : b.id = a.id) :
    (σ.put b).put a = σ := by
  refine Records.ext (SortedMap.ext_get? fun id => ?_) rfl
  refine ((σ.put b).asset?_put a id).trans ?_
  by_cases h : id = a.id
  · rw [if_pos h, h]
    exact ha.symm
  · rw [if_neg h, asset?_put, hid, if_neg h]
    rfl

/-- Making an offer and dropping it changes nothing, if there was none. -/
theorem drop_hold (o : Offer) (h : σ.offer? o.asset o.recipient = none) :
    (σ.hold o).drop o.asset o.recipient = σ := by
  refine Records.ext rfl (SortedMap.ext_get? fun ⟨recipient, id⟩ => ?_)
  refine ((σ.hold o).offer?_drop o.asset id o.recipient recipient).trans ?_
  rw [offer?_hold]
  split
  · next heq => exact heq.1 ▸ heq.2 ▸ h.symm
  · rfl

/-! ### Totals -/

/-- The weights of all assets, added up. -/
def total (f : Asset → Nat) : Nat := σ.assets.sum f

/-- The total quantity of the assets of each owner under each root. -/
def balance : Balances := fun owner root =>
  σ.total fun a => Balances.single a.owner a.root a.quantity owner root

/-- **Storing an asset adds its weight and takes away that of its previous record.** -/
theorem total_put (f : Asset → Nat) (a : Asset) :
    (σ.put a).total f + ((σ.asset? a.id).map f).getD 0 = σ.total f + f a :=
  σ.assets.sum_insert f a.id a

theorem total_put_of_none (f : Asset → Nat) {a : Asset} (h : σ.asset? a.id = none) :
    (σ.put a).total f = σ.total f + f a := by
  have hput := σ.total_put f a
  rwa [h] at hput

theorem total_put_of_some (f : Asset → Nat) {a p : Asset} (h : σ.asset? a.id = some p) :
    (σ.put a).total f + f p = σ.total f + f a := by
  have hput := σ.total_put f a
  rwa [h] at hput

theorem total_put_of_eq (f : Asset → Nat) {a p : Asset} (h : σ.asset? a.id = some p)
    (hf : f a = f p) : (σ.put a).total f = σ.total f := by
  have hput := σ.total_put_of_some f h
  rw [hf] at hput
  exact Nat.add_right_cancel hput

theorem balance_put_of_none {a : Asset} (h : σ.asset? a.id = none) (owner : AccountId)
    (root : AssetId) : (σ.put a).balance owner root =
      σ.balance owner root + Balances.single a.owner a.root a.quantity owner root :=
  σ.total_put_of_none _ h

theorem balance_put_of_some {a p : Asset} (h : σ.asset? a.id = some p) (owner : AccountId)
    (root : AssetId) :
    (σ.put a).balance owner root + Balances.single p.owner p.root p.quantity owner root =
      σ.balance owner root + Balances.single a.owner a.root a.quantity owner root :=
  σ.total_put_of_some _ h

theorem balance_put_quantity {a : Asset} (h : σ.asset? a.id = some a) (quantity : Nat)
    (owner : AccountId) (root : AssetId) :
    (σ.put { a with quantity := quantity }).balance owner root +
        Balances.single a.owner a.root a.quantity owner root =
      σ.balance owner root + Balances.single a.owner a.root quantity owner root :=
  σ.balance_put_of_some (a := { a with quantity := quantity }) h owner root

variable {σ}

theorem le_total {id : AssetId} {a : Asset} (h : σ.asset? id = some a) (f : Asset → Nat) :
    f a ≤ σ.total f := SortedMap.le_sum_of_get? f h

theorem quantity_le_balance {σ : Records} {id : AssetId} {a : Asset} (h : σ.asset? id = some a) :
    a.quantity ≤ σ.balance a.owner a.root := by
  have hle := le_total h fun b => Balances.single b.owner b.root b.quantity a.owner a.root
  simp only [Balances.single, and_self, if_true] at hle
  exact hle

end Records

/-! ### What the slots hold -/

/-- An asset as its record is stored: without its properties. -/
def Asset.record (a : Asset) : Asset := { a with properties := [] }

namespace Records

/-- What each slot holds. -/
def sheet (σ : Records) (β : Balances) : Sheet
  | .asset id => (σ.asset? id).map fun a => encode a.record
  | .property id name => (σ.asset? id).bind fun a => (a.property? name).map encode
  | .offer id recipient => (σ.offer? id recipient).map encode
  | .balance owner root =>
    if β owner root = 0 then none else some (encode (Balance.mk (β owner root)))
  | .owner account id => (σ.asset? id).bind fun a => if a.owner = account then some [] else none
  | .reporter account id =>
    (σ.asset? id).bind fun a => if account ∈ Registry.reporterAccounts a then some [] else none
  | .recipient account id => (σ.offer? id account).map fun _ => []

end Records

/-- An asset that can be stored: the names that become parts of keys are clean, and its properties
are in order of names, each name once. -/
structure Asset.Storable (a : Asset) : Prop where
  id : a.id.Clean
  owner : a.owner.Clean
  names : ∀ p ∈ a.properties, p.name.Clean
  reporters : ∀ r ∈ a.reporters, r.account.Clean
  ascending : AscendingBy Property.name a.properties

instance (a : Asset) : Decidable a.Storable :=
  decidable_of_iff (a.id.Clean ∧ a.owner.Clean ∧ (∀ p ∈ a.properties, p.name.Clean) ∧
      (∀ r ∈ a.reporters, r.account.Clean) ∧ AscendingBy Property.name a.properties)
    ⟨fun ⟨hid, howner, hnames, hreporters, hasc⟩ => ⟨hid, howner, hnames, hreporters, hasc⟩,
      fun h => ⟨h.id, h.owner, h.names, h.reporters, h.ascending⟩⟩

namespace Records

/-- Every asset and every offer lies under its own name, and the names that become parts of keys
are clean. -/
structure WellFormed (σ : Records) : Prop where
  id_eq : ∀ {id a}, σ.asset? id = some a → a.id = id
  storable : ∀ {id a}, σ.asset? id = some a → a.Storable
  offer_eq : ∀ {id recipient o}, σ.offer? id recipient = some o →
    o.asset = id ∧ o.recipient = recipient
  offer_clean : ∀ {id recipient o}, σ.offer? id recipient = some o → id.Clean ∧ recipient.Clean

theorem WellFormed.offersOn_ascending {σ : Records} (h : σ.WellFormed) (id : AssetId) :
    AscendingBy Offer.recipient (σ.offersOn id) := by
  have hrecipient : ∀ b ∈ σ.offers.bindings.filter fun b => b.1.asset == id,
      b.1.asset = id ∧ b.2.recipient = b.1.account := by
    intro b hb
    obtain ⟨hmem, hasset⟩ := List.mem_filter.mp hb
    exact ⟨by simpa using hasset, (h.offer_eq ((SortedMap.mem_bindings _ _ _).mp hmem)).2⟩
  refine List.pairwise_map.mpr ((σ.offers.ascending.filter _).imp_of_mem fun {b c} hb hc hbc => ?_)
  obtain ⟨hb, hb'⟩ := hrecipient b hb
  obtain ⟨hc, hc'⟩ := hrecipient c hc
  change (compare b.1.account c.1.account).then (compare b.1.asset c.1.asset) = .lt at hbc
  rwa [hb, hc, Std.ReflOrd.compare_self, Ordering.then_eq, ← hb', ← hc'] at hbc

theorem WellFormed.foldl_drop {σ : Records} (h : σ.WellFormed) (id : AssetId) :
    (σ.offersOn id).foldl (fun σ o => σ.drop id o.recipient) σ = σ.dropAll id := by
  refine Records.ext (σ.assets_foldl_drop _ id) (SortedMap.ext_get? fun ⟨recipient, id'⟩ => ?_)
  refine (σ.offer?_foldl_drop _ id id' recipient).trans ?_
  refine Eq.trans ?_ (σ.offer?_dropAll id id' recipient).symm
  by_cases hid : id' = id
  · subst hid
    cases ho : σ.offer? id' recipient with
    | none => simp
    | some o =>
      obtain ⟨-, hr⟩ := h.offer_eq ho
      have hmem : recipient ∈ (σ.offersOn id').map Offer.recipient :=
        List.mem_map.mpr ⟨o, σ.mem_offersOn.mpr ⟨_, ho⟩, hr⟩
      simp [hmem]
  · simp [hid]

/-- Well-formed records whose balances, too, lie under clean names. -/
structure Sound (σ : Records) : Prop where
  wellFormed : σ.WellFormed
  root : ∀ {id a}, σ.asset? id = some a → a.root.Clean

theorem WellFormed.asset?_id {σ : Records} (h : σ.WellFormed) {id : AssetId} {a : Asset}
    (ha : σ.asset? id = some a) : σ.asset? a.id = some a := by
  rw [h.id_eq ha]
  exact ha

/-- A map of bytes shows exactly the records, with the given balances. -/
structure Mirrors (σ : Records) (β : Balances) (m : Contents) : Prop where
  wellFormed : σ.WellFormed
  shows : m.Shows (σ.sheet β)

/-- A map of bytes shows exactly the records, with their totals as balances. -/
structure Pictured (σ : Records) (m : Contents) : Prop where
  sound : σ.Sound
  shows : m.Shows (σ.sheet σ.balance)

theorem Pictured.mirrors {σ : Records} {m : Contents} (h : σ.Pictured m) :
    σ.Mirrors σ.balance m := ⟨h.sound.wellFormed, h.shows⟩

end Records

end Custody
