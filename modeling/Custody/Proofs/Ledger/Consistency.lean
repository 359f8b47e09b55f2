import Custody.Proofs.Ledger.Run
import Custody.Proofs.Records.Auditing

/-!
# Indices and balances agree with the records

In every store that dispatches lead to from the empty one, the balances are the totals of the
assets they count, and each index holds the entries that the records ask for and no others.

* `Ledger.Registered`: the assets of a store.
* `Ledger.inventory_conserved`: **balances are totals**.
* `Ledger.indices_consistent`: **indices are exact**.
-/

namespace Custody.Ledger

open Records

/-- The assets of a store: they are listed in order of identifiers, and each one is found under its
own identifier and nothing under any other. -/
structure Registered (s : Store) (assets : List Asset) : Prop where
  all : Registry.all.run s = .ok assets
  ascending : AscendingBy Asset.id assets
  find? : ∀ id, (Registry.find? id).run s = .ok (assets.find? fun a => a.id == id)

/-- The pending offers of a store: they are listed, and each one is found under its own asset and
recipient and nothing under any others. -/
structure Pending (s : Store) (offers : List Offer) : Prop where
  all : Audit.allOffers.run s = .ok offers
  find? : ∀ id recipient o, (OfferBook.find? id recipient).run s = .ok (some o) ↔
    o ∈ offers ∧ o.asset = id ∧ o.recipient = recipient

variable {σ : Records} {m : Contents}

theorem run_query {α : Type} (q : Query α) (m : Contents) :
    q.run (.ofContents m) = q m.view := q.run_contents (.ofContents m)

theorem scan_ofContents (m : Contents) (stem : Bytes) :
    (Store.ofContents m).scan stem = m.view.scan stem :=
  congrArg (View.scan · stem) (Store.view_eq (.ofContents m))

theorem find?_allAssets (hσ : σ.WellFormed) (id : AssetId) :
    (σ.allAssets.find? fun a => a.id == id) = σ.asset? id := by
  refine Option.ext ?_
  intro a
  rw [(allAssets_ascending hσ).find?_eq_some, mem_allAssets hσ]
  constructor
  · rintro ⟨ha, rfl⟩
    exact ha
  · intro ha
    exact ⟨hσ.asset?_id ha, hσ.id_eq ha⟩

theorem registered_of_mirrors {β : Balances} (h : σ.Mirrors β m) :
    Registered (.ofContents m) σ.allAssets where
  all := by rw [run_query, h.all]
  ascending := allAssets_ascending h.wellFormed
  find? id := by rw [run_query, h.find?, find?_allAssets h.wellFormed]

theorem registered (h : σ.Pictured m) : Registered (.ofContents m) σ.allAssets :=
  registered_of_mirrors h.mirrors

theorem exists_pending (h : σ.Pictured m) : ∃ offers, Pending (.ofContents m) offers ∧
    ∀ o, o ∈ offers ↔ σ.offer? o.asset o.recipient = some o := by
  obtain ⟨offers, hoffers, hmem⟩ := h.mirrors.allOffers
  refine ⟨offers, ⟨by rw [run_query, hoffers], ?_⟩, hmem⟩
  intro id recipient o
  rw [run_query, h.mirrors.offer?, hmem]
  constructor
  · intro ho
    obtain ⟨rfl, rfl⟩ := h.sound.wellFormed.offer_eq (Except.ok.inj ho)
    exact ⟨Except.ok.inj ho, rfl, rfl⟩
  · rintro ⟨ho, rfl, rfl⟩
    rw [ho]

/-- **Balances are totals.**  In every store that dispatches lead to, the balance of each owner
under each root is the total quantity of the assets of that owner with that root, no balance of zero
is stored, and an audit of the inventory finds nothing. -/
theorem inventory_conserved (config : ModuleConfig) (es : List Envelope) :
    ∃ assets, Registered (run config es .empty) assets ∧
      (∀ owner root, (Inventory.balance owner root).run (run config es .empty) =
        .ok ((assets.filter fun a => a.owner = owner ∧ a.root = root).map Asset.quantity).sum) ∧
      (∀ entry ∈ (run config es .empty).scan Namespace.inventory.stem, ∃ owner root amount,
        amount ≠ 0 ∧ entry = (Key.balance owner root, encode (Balance.mk amount))) ∧
      Audit.inventoryIssues.run (run config es .empty) = .ok [] := by
  obtain ⟨σ, m, hrun, hm, -⟩ := run_history config es
  rw [hrun]
  refine ⟨σ.allAssets, registered hm, ?_, ?_, ?_⟩
  · intro owner root
    have hsum := List.sum_map_ite (fun a : Asset => a.owner = owner ∧ a.root = root)
      Asset.quantity (fun _ => 0) σ.allAssets
    rw [run_query, hm.mirrors.balance, balance, ← sum_allAssets]
    refine congrArg Except.ok (hsum.trans ?_)
    simp
  · intro entry hentry
    rw [scan_ofContents] at hentry
    obtain ⟨owner, root, hne, heq⟩ := hm.mirrors.mem_scan_balances.mp hentry
    exact ⟨owner, root, _, hne, heq⟩
  · rw [run_query, hm.inventoryIssues]

/-- **Indices are exact.**  In every store that dispatches lead to, the index of owners holds the
key of each asset under its owner, the index of reporters that of each asset under each of its
reporters, the index of recipients that of each pending offer under its recipient, and none holds
any other key; an audit of the indices finds nothing. -/
theorem indices_consistent (config : ModuleConfig) (es : List Envelope) :
    ∃ assets offers, Registered (run config es .empty) assets ∧
      Pending (run config es .empty) offers ∧
      (∀ k, k ∈ ((run config es .empty).scan Namespace.ownerIndex.stem).map Prod.fst ↔
        ∃ a ∈ assets, k = Key.owner a.owner a.id) ∧
      (∀ k, k ∈ ((run config es .empty).scan Namespace.reporterIndex.stem).map Prod.fst ↔
        ∃ a ∈ assets, ∃ r ∈ a.reporters, k = Key.reporter r.account a.id) ∧
      (∀ k, k ∈ ((run config es .empty).scan Namespace.recipientIndex.stem).map Prod.fst ↔
        ∃ o ∈ offers, k = Key.recipient o.recipient o.asset) ∧
      Audit.indexIssues.run (run config es .empty) = .ok [] := by
  obtain ⟨σ, m, hrun, hm, -⟩ := run_history config es
  rw [hrun]
  obtain ⟨offers, hpending, hmem⟩ := exists_pending hm
  have hkeys : ∀ (index : IndexKind) k,
      k ∈ ((Store.ofContents m).scan index.space.stem).map Prod.fst ↔ ∃ entry,
        entry ∈ (Audit.expectedEntries σ.allAssets offers index).keys ∧ k = index.key entry := by
    intro index k
    simp only [scan_ofContents, hm.mirrors.mem_keys_index, hm.mirrors.mem_expectedEntries hmem]
  refine ⟨σ.allAssets, offers, registered hm, hpending, fun k => (hkeys .owner k).trans ?_,
    fun k => (hkeys .reporter k).trans ?_, fun k => (hkeys .recipient k).trans ?_, ?_⟩
  · simp [Audit.expectedEntries, SortedMap.mem_keys_ofKeys, IndexKind.key]
  · simp only [Audit.expectedEntries, SortedMap.mem_keys_ofKeys, List.mem_flatMap, List.mem_map]
    constructor
    · rintro ⟨_, ⟨a, ha, r, hr, rfl⟩, hk⟩
      exact ⟨a, ha, r, hr, hk⟩
    · rintro ⟨a, ha, r, hr, hk⟩
      exact ⟨_, ⟨a, ha, r, hr, rfl⟩, hk⟩
  · simp [Audit.expectedEntries, SortedMap.mem_keys_ofKeys, IndexKind.key]
  · rw [run_query, hm.mirrors.indexIssues]

end Custody.Ledger
