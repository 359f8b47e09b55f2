import Custody.Proofs.Ledger.Consistency
import Custody.Proofs.Records.Listing
import Custody.Proofs.Records.Refusals

/-!
# No internal failures

In every store that dispatches lead to, whatever is stored can be read, so no reading is refused for
the state of the store.  The balances cover the assets that they count, so a quantity that an asset
has is never missing from a balance: a message that asks for too much is refused by the check of the
asset alone.

* `Readable`: every reading is answered.
* `Covered`: the checks of balances never fail.
* `Ledger.no_internal_failures`: **there are no internal failures.**
-/

namespace Custody

/-- Every reading of the store is answered, for whatever identifiers.  Only the reporters of an
asset that is not there are refused. -/
structure Readable (s : Store) : Prop where
  asset : ∀ id, ∃ a, (Registry.find? id).run s = .ok a
  all : ∃ assets, Registry.all.run s = .ok assets
  assetsOwnedBy : ∀ owner, ∃ assets, (Registry.assetsOwnedBy owner).run s = .ok assets
  assetsReportedBy : ∀ reporter, ∃ assets, (Registry.assetsReportedBy reporter).run s = .ok assets
  property : ∀ id name, ∃ p, (Registry.property? id name).run s = .ok p
  reporters : ∀ id, (∃ rs, (Registry.reporters id).run s = .ok rs) ∨
    (Registry.find? id).run s = .ok none ∧
      (Registry.reporters id).run s = .error (.assetNotFound id)
  offer : ∀ id recipient, ∃ o, (OfferBook.find? id recipient).run s = .ok o
  onAsset : ∀ id, ∃ offers, (OfferBook.onAsset id).run s = .ok offers
  toRecipient : ∀ recipient, ∃ offers, (OfferBook.toRecipient recipient).run s = .ok offers
  balance : ∀ owner root, ∃ amount, (Inventory.balance owner root).run s = .ok amount
  balances : ∀ owner, ∃ entries, (Inventory.balances owner).run s = .ok entries
  indexIssues : ∃ issues, Audit.indexIssues.run s = .ok issues
  inventoryIssues : ∃ issues, Audit.inventoryIssues.run s = .ok issues

open Ledger in
/-- The balances of the store cover its assets: what an asset has can be taken from the balance of
its owner, as a whole by a new owner, or together with other components of a batch. -/
structure Covered (s : Store) : Prop where
  debit : ∀ id a amount, (Registry.find? id).run s = .ok (some a) → amount ≤ a.quantity →
    ∃ left s', (Inventory.debit a.owner a.root amount).run s = (.ok left, s')
  move : ∀ id a taker, (Registry.find? id).run s = .ok (some a) →
    ∃ s', (Inventory.move a.owner taker a.root a.quantity).run s = (.ok (), s')
  consume : ∀ consumer caller materials components,
    ((Material.normalize materials).mapM (component consumer caller) : Query (List Asset)).run s =
      .ok components →
    ∃ s', ((do
      let taken := components.zip ((Material.normalize materials).map Material.quantity)
      (rootTotals taken).bindings.forM fun b => (checkRoot caller b.1 b.2 : Query Unit)
      taken.forM fun t => consume caller t.1 t.2) : Txn Unit).run s = (.ok (), s')

namespace Ledger

open Records

variable {σ : Records} {m : Contents}

theorem readable (h : σ.Pictured m) : Readable (.ofContents m) where
  asset id := ⟨_, (run_query _ m).trans (h.mirrors.find? id)⟩
  all := ⟨_, (run_query _ m).trans h.mirrors.all⟩
  assetsOwnedBy owner := ⟨_, (run_query _ m).trans (h.mirrors.assetsOwnedBy owner)⟩
  assetsReportedBy reporter := ⟨_, (run_query _ m).trans (h.mirrors.assetsReportedBy reporter)⟩
  property id name := ⟨_, (run_query _ m).trans (h.mirrors.property? id name)⟩
  reporters id := by
    rw [run_query, run_query, h.mirrors.reporters, h.mirrors.find?, Records.get]
    cases σ.asset? id with
    | none => exact Or.inr ⟨rfl, rfl⟩
    | some a => exact Or.inl ⟨a.reporters, rfl⟩
  offer id recipient := ⟨_, (run_query _ m).trans (h.mirrors.offer? id recipient)⟩
  onAsset id := ⟨_, (run_query _ m).trans (h.mirrors.onAsset id)⟩
  toRecipient recipient := ⟨_, (run_query _ m).trans (h.mirrors.toRecipient recipient)⟩
  balance owner root := ⟨_, (run_query _ m).trans (h.mirrors.balance owner root)⟩
  balances owner := ⟨_, (run_query _ m).trans (h.balances owner)⟩
  indexIssues := ⟨_, (run_query _ m).trans h.mirrors.indexIssues⟩
  inventoryIssues := ⟨_, (run_query _ m).trans h.inventoryIssues⟩

/-! ### Balances that cover the assets -/

theorem asset?_of_run (h : σ.Pictured m) {id : AssetId} {a : Asset}
    (ha : (Registry.find? id).run (.ofContents m) = .ok (some a)) : σ.asset? id = some a := by
  rw [run_query, h.mirrors.find?] at ha
  exact Except.ok.inj ha

theorem exists_run {α : Type} {t : Txn α} {a : α} (h : ∃ m', t.exec m = (.ok a, m')) :
    ∃ s', t.run (.ofContents m) = (.ok a, s') := by
  obtain ⟨m', hexec⟩ := h
  exact ⟨.ofContents m', by rw [Txn.run_ofContents, hexec]⟩

/-- A quantity that an asset has is there in the balance of its owner. -/
theorem exec_debit (h : σ.Pictured m) {id : AssetId} {a : Asset} (ha : σ.asset? id = some a)
    {amount : Nat} (hle : amount ≤ a.quantity) : ∃ left m' β,
      (Inventory.debit a.owner a.root amount).exec m = (.ok left, m') ∧ σ.Mirrors β m' := by
  obtain ⟨m', β, hexec, hm', -⟩ := h.mirrors.debit (h.sound.wellFormed.storable ha).owner
    (h.sound.root ha) (Nat.le_trans hle (quantity_le_balance ha))
  exact ⟨_, m', β, hexec, hm'⟩

/-- Nothing stands against a larger balance. -/
theorem exec_credit {β : Balances} (h : σ.Mirrors β m) (owner : AccountId) (root : AssetId)
    (amount : Nat) : ∃ m',
      (Inventory.credit owner root amount).exec m = (.ok (β owner root + amount), m') := by
  have hwrite : ∃ m', (Inventory.write owner root (β owner root + amount)).exec m =
      (.ok (), m') := by
    rw [Inventory.write]
    split
    · exact ⟨_, rfl⟩
    · exact ⟨_, rfl⟩
  obtain ⟨m', hexec⟩ := hwrite
  refine ⟨m', ?_⟩
  rw [Inventory.credit, Txn.exec_bind, Txn.exec_query, h.balance]
  exact Txn.exec_bind_of_ok hexec _

theorem exec_move (h : σ.Pictured m) {id : AssetId} {a : Asset} (ha : σ.asset? id = some a)
    (taker : AccountId) :
    ∃ m', (Inventory.move a.owner taker a.root a.quantity).exec m = (.ok (), m') := by
  rw [Inventory.move]
  split
  · exact ⟨m, rfl⟩
  · obtain ⟨left, m₁, β, hdebit, h₁⟩ := exec_debit h ha (Nat.le_refl a.quantity)
    obtain ⟨m₂, hcredit⟩ := exec_credit h₁ taker a.root a.quantity
    exact ⟨m₂, (Txn.exec_bind_of_ok hdebit _).trans (Txn.exec_bind_of_ok hcredit _)⟩

theorem covered (h : σ.Pictured m) : Covered (.ofContents m) where
  debit id a amount ha hle := by
    obtain ⟨left, m', -, hexec, -⟩ := exec_debit h (asset?_of_run h ha) hle
    exact ⟨left, exists_run ⟨m', hexec⟩⟩
  move id a taker ha := exists_run (exec_move h (asset?_of_run h ha) taker)
  consume consumer caller materials components hcomponents := by
    rw [run_query, Query.mapM_view] at hcomponents
    simp only [component_view h] at hcomponents
    have htakes := takes_of_mapM h.sound.wellFormed (Material.normalize_ascending materials)
      hcomponents
    obtain ⟨m', hexec, -⟩ := exec_consumeAll h htakes.consumable fun t ht =>
      (htakes.takable t ht).owner
    exact exists_run ⟨m', (Txn.exec_bind_of_ok (exec_checkRoots h htakes) _).trans hexec⟩

/-! ### Refusals -/

/-- A dispatch is refused on the grounds of its message alone. -/
theorem dispatch_refused (config : ModuleConfig) (e : Envelope) (h : σ.Pictured m) :
    RefusedOnly (σ.Grounds e.message) (dispatch config e (.ofContents m)).1 := by
  obtain ⟨m', hdispatch, -⟩ := dispatch_pictured config e h
  have hcheck : RefusedOnly (σ.Grounds e.message) (e.check config.limits) :=
    check_refused config.limits e
  rw [hdispatch, Records.dispatch]
  cases hchecked : e.check config.limits with
  | error fault => exact .error (hcheck fault hchecked)
  | ok u =>
    have hexecute := execute_refused h.sound.wellFormed e
    cases hexecuted : σ.execute e with
    | error fault => exact .error (hexecute fault hexecuted)
    | ok p => exact .ok p.1

/-- **There are no internal failures.**  After a run, every reading is answered, and the checks of
balances never fail.  No dispatch is refused for bytes that cannot be read; one that is refused for
a lack of quantity names an asset that has less than the message subtracts from it, splits off it or
consumes of it, all its entries in the batch together. -/
theorem no_internal_failures (config : ModuleConfig) (es : List Envelope) :
    Readable (run config es .empty) ∧ Covered (run config es .empty) ∧
    ∀ e fault, (dispatch config e (run config es .empty)).1 = .error fault →
      (∀ key damage, fault ≠ .damagedRecord key damage) ∧
      ∀ id available requested, fault = .insufficientQuantity id available requested →
        available < requested ∧ requested = e.message.demand id ∧
          ∃ a, (Registry.find? id).run (run config es .empty) = .ok (some a) ∧
            a.quantity = available := by
  obtain ⟨σ, m, hrun, hm, -⟩ := run_history config es
  rw [hrun]
  refine ⟨readable hm, covered hm, ?_⟩
  intro e fault hfault
  have hgrounds := dispatch_refused config e hm fault hfault
  constructor
  · rintro key damage rfl
    exact hgrounds
  · rintro id available requested rfl
    obtain ⟨hlt, hdemand, a, ha, hquantity⟩ := hgrounds
    exact ⟨hlt, hdemand, a, by rw [run_query, hm.mirrors.find?, ha], hquantity⟩

/-- Too much is asked of an asset, and not too much of its balance. -/
theorem shortage_of_asset :
    (∃ a, (Registry.find? ⟨"grain"⟩).run
      (run {} [⟨⟨"alice"⟩, 1, .createAsset ⟨"grain"⟩ "Grain" 5 "kg" none []⟩] .empty) =
        .ok (some a) ∧ a.quantity = 5) ∧
    ∃ left s', (Inventory.debit ⟨"alice"⟩ ⟨"grain"⟩ 3).run
      (run {} [⟨⟨"alice"⟩, 1, .createAsset ⟨"grain"⟩ "Grain" 5 "kg" none []⟩] .empty) =
        (.ok left, s') := by
  have hfound : (Registry.find? ⟨"grain"⟩).run
      (run {} [⟨⟨"alice"⟩, 1, .createAsset ⟨"grain"⟩ "Grain" 5 "kg" none []⟩] .empty) =
      .ok (some (Asset.fresh ⟨"grain"⟩ "Grain" ⟨"alice"⟩ 5 "kg")) := by decide +kernel
  have hshort : (dispatch {} ⟨⟨"alice"⟩, 2, .subtractQuantity ⟨"grain"⟩ 9⟩
      (run {} [⟨⟨"alice"⟩, 1, .createAsset ⟨"grain"⟩ "Grain" 5 "kg" none []⟩] .empty)).1 =
      .error (.insufficientQuantity ⟨"grain"⟩ 5 9) := by decide +kernel
  obtain ⟨-, hcovered, hrefused⟩ := no_internal_failures {} _
  constructor
  · exact ((hrefused _ _ hshort).2 _ _ _ rfl).2.2
  · exact hcovered.debit ⟨"grain"⟩ (Asset.fresh ⟨"grain"⟩ "Grain" ⟨"alice"⟩ 5 "kg") 3 hfound
      (by decide)

end Ledger

end Custody
