import Custody.Proofs.Ledger.Consistency
import Custody.Proofs.Records.Listing

/-!
# Listings agree with the records

What is listed for an account or an asset is read through an index or a range of keys, and each
entry leads to a record.  In every reachable store this is the part of all assets, or of all pending
offers, that belongs to the account or the asset, whatever text names it: identifiers that begin
alike are kept apart, and nothing is listed for one that cannot be part of a key.

* `Records.roots_ascending`, `Records.mem_balances`: the balances of an account as a list.
* `Ledger.listings_agree`: **listings agree with the records.**
-/

namespace Custody

namespace Records

variable {σ : Records}

theorem roots_ascending (σ : Records) (owner : AccountId) :
    (σ.roots owner).Pairwise fun i j => compare i j = .lt := by
  have hkeys : (SortedMap.ofKeys (σ.allAssets.map Asset.root)).keys.Pairwise
      fun i j => compare i j = .lt := List.pairwise_map.mpr (SortedMap.ofKeys _).ascending
  exact hkeys.filter _

/-- The roots of an account with their balances hold each balance that is not zero. -/
theorem mem_balances {owner : AccountId} {root : AssetId} {n : Nat} :
    (root, n) ∈ (σ.roots owner).map (fun root => (root, σ.balance owner root)) ↔
      n ≠ 0 ∧ σ.balance owner root = n := by
  rw [List.mem_map]
  constructor
  · rintro ⟨root', hroot, heq⟩
    obtain ⟨rfl, rfl⟩ := Prod.mk.inj heq
    exact ⟨mem_roots.mp hroot, rfl⟩
  · rintro ⟨hne, rfl⟩
    exact ⟨root, mem_roots.mpr hne, rfl⟩

end Records

namespace Ledger

open Records

/-- **Listings agree with the records.**  In every reachable store, the assets of an owner and those
of a reporter are the assets with that owner or with an entry of that reporter, in order of
identifiers; the offers on an asset and those to a recipient are the pending offers with that asset
or that recipient, in order of recipients or of assets; the balances of an account are its balances
that are not zero, in order of roots; and a property is the one that the asset has under its name.
The account, the asset and the name may be any text. -/
theorem listings_agree {s : Store} (h : Reachable s) : ∃ assets offers,
    Registered s assets ∧ Pending s offers ∧
    (∀ owner, (Registry.assetsOwnedBy owner).run s =
      .ok (assets.filter fun a => a.owner = owner)) ∧
    (∀ reporter, (Registry.assetsReportedBy reporter).run s =
      .ok (assets.filter fun a => ∃ r ∈ a.reporters, r.account = reporter)) ∧
    (∀ id, ∃ l, (OfferBook.onAsset id).run s = .ok l ∧ AscendingBy Offer.recipient l ∧
      ∀ o, o ∈ l ↔ o ∈ offers ∧ o.asset = id) ∧
    (∀ recipient, ∃ l, (OfferBook.toRecipient recipient).run s = .ok l ∧
      AscendingBy Offer.asset l ∧ ∀ o, o ∈ l ↔ o ∈ offers ∧ o.recipient = recipient) ∧
    (∀ owner, ∃ l, (Inventory.balances owner).run s = .ok l ∧ AscendingBy Prod.fst l ∧
      ∀ root n, (root, n) ∈ l ↔ n ≠ 0 ∧ (Inventory.balance owner root).run s = .ok n) ∧
    ∀ id name, ∃ found, (Registry.find? id).run s = .ok found ∧
      (Registry.property? id name).run s =
        .ok (found.bind fun a => a.properties.find? fun p => p.name = name) := by
  obtain ⟨σ, m, rfl, hm⟩ := h.pictured
  have hσ := hm.sound.wellFormed
  obtain ⟨offers, hpending, hmem⟩ := exists_pending hm
  refine ⟨σ.allAssets, offers, registered hm, hpending, ?_, ?_, ?_, ?_, ?_, ?_⟩
  · intro owner
    rw [run_query, hm.mirrors.assetsOwnedBy]
    rfl
  · intro reporter
    rw [run_query, hm.mirrors.assetsReportedBy, reportedBy]
    simp only [contains_reporterAccounts]
  · intro id
    refine ⟨σ.offersOn id, by rw [run_query, hm.mirrors.onAsset], hσ.offersOn_ascending id, ?_⟩
    intro o
    rw [mem_offersOn, hmem]
    constructor
    · rintro ⟨recipient, ho⟩
      obtain ⟨rfl, rfl⟩ := hσ.offer_eq ho
      exact ⟨ho, rfl⟩
    · rintro ⟨ho, rfl⟩
      exact ⟨o.recipient, ho⟩
  · intro recipient
    refine ⟨σ.offersTo recipient, by rw [run_query, hm.mirrors.toRecipient],
      hσ.offersTo_ascending recipient, ?_⟩
    intro o
    rw [mem_offersTo, hmem]
    constructor
    · rintro ⟨id, ho⟩
      obtain ⟨rfl, rfl⟩ := hσ.offer_eq ho
      exact ⟨ho, rfl⟩
    · rintro ⟨ho, rfl⟩
      exact ⟨o.asset, ho⟩
  · intro owner
    refine ⟨_, by rw [run_query, hm.balances], ?_, ?_⟩
    · exact List.pairwise_map.mpr (σ.roots_ascending owner)
    · intro root n
      rw [mem_balances, run_query, hm.mirrors.balance, Except.ok.injEq]
  · intro id name
    refine ⟨σ.asset? id, by rw [run_query, hm.mirrors.find?], ?_⟩
    rw [run_query, hm.mirrors.property?]
    rfl

/-- An account whose name begins the name of another one, and a text that begins a key of both. -/
theorem listings_of_prefixes :
    (Registry.assetsOwnedBy ⟨"al"⟩).run
        (run {} [⟨⟨"al"⟩, 1, .createAsset ⟨"te"⟩ "Te" 5 "kg" none []⟩,
          ⟨⟨"alice"⟩, 2, .createAsset ⟨"tea"⟩ "Tea" 7 "kg" none []⟩] .empty) =
      .ok [Asset.fresh ⟨"te"⟩ "Te" ⟨"al"⟩ 5 "kg"] ∧
    (Registry.assetsOwnedBy ⟨"al\x00te"⟩).run
        (run {} [⟨⟨"al"⟩, 1, .createAsset ⟨"te"⟩ "Te" 5 "kg" none []⟩,
          ⟨⟨"alice"⟩, 2, .createAsset ⟨"tea"⟩ "Tea" 7 "kg" none []⟩] .empty) = .ok [] := by
  have hall : Registry.all.run
      (run {} [⟨⟨"al"⟩, 1, .createAsset ⟨"te"⟩ "Te" 5 "kg" none []⟩,
        ⟨⟨"alice"⟩, 2, .createAsset ⟨"tea"⟩ "Tea" 7 "kg" none []⟩] .empty) =
      .ok [Asset.fresh ⟨"te"⟩ "Te" ⟨"al"⟩ 5 "kg", Asset.fresh ⟨"tea"⟩ "Tea" ⟨"alice"⟩ 7 "kg"] := by
    decide +kernel
  obtain ⟨assets, offers, hassets, -, howner, -⟩ := listings_agree (Reachable.empty.run {} _)
  obtain rfl := Except.ok.inj (hassets.all.symm.trans hall)
  rw [howner, howner]
  exact ⟨by decide +kernel, by decide +kernel⟩

end Ledger

end Custody
