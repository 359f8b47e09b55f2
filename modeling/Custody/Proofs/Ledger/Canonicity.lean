import Custody.Proofs.Engine.Executor
import Custody.Proofs.Ledger.Consistency

/-!
# Bytes are a function of the records

Two histories that end with the same assets and the same pending offers end with the same bytes:
what was deleted, overwritten or moved on the way leaves nothing behind.  For the store pictures its
records, records are told by their listings, and a picture shows nothing else.

* `Ledger.Holds`: the offers that a store holds.
* `Records.eq_of_listed`: records with the same listings are equal.
* `Ledger.bytes_of_records`: **bytes are a function of the records.**
-/

namespace Custody

namespace Records

variable {σ σ' : Records}

/-- Records with the same assets and the same offers are equal. -/
theorem eq_of_listed (h : σ.WellFormed) (h' : σ'.WellFormed)
    (hassets : σ.allAssets = σ'.allAssets)
    (hoffers : ∀ o : Offer, σ.offer? o.asset o.recipient = some o ↔
      σ'.offer? o.asset o.recipient = some o) : σ = σ' := by
  refine Records.ext (SortedMap.ext_get? fun id => ?_) (SortedMap.ext_get? fun entry => ?_)
  · change σ.asset? id = σ'.asset? id
    rw [← Ledger.find?_allAssets h, hassets, Ledger.find?_allAssets h']
  · -- An offer lies under its own asset and recipient, in one as in the other.
    have aux : ∀ {σ σ' : Records}, σ.WellFormed →
        (∀ o : Offer, σ.offer? o.asset o.recipient = some o →
          σ'.offer? o.asset o.recipient = some o) →
        ∀ o, σ.offer? entry.asset entry.account = some o →
          σ'.offer? entry.asset entry.account = some o := fun h hoffers o ho => by
      obtain ⟨hasset, hrecipient⟩ := h.offer_eq ho
      rw [← hasset, ← hrecipient] at ho ⊢
      exact hoffers o ho
    exact Option.ext fun o =>
      ⟨aux h (fun o => (hoffers o).mp) o, aux h' (fun o => (hoffers o).mpr) o⟩

end Records

namespace Ledger

/-- An offer that a store holds is one of all offers that are listed. -/
def Holds (s : Store) (o : Offer) : Prop := ∃ offers, Audit.allOffers.run s = .ok offers ∧ o ∈ offers

theorem holds_iff {σ : Records} {m : Contents} (h : σ.Pictured m) (o : Offer) :
    Holds (.ofContents m) o ↔ σ.offer? o.asset o.recipient = some o := by
  obtain ⟨offers, hoffers, hmem⟩ := h.mirrors.allOffers
  rw [Holds, run_query, hoffers, ← hmem]
  constructor
  · rintro ⟨l, hl, ho⟩
    exact Except.ok.inj hl ▸ ho
  · exact fun ho => ⟨offers, rfl, ho⟩

/-- **Bytes are a function of the records.**  Two reachable stores with the same list of assets and
the same offers are equal, every key they hold is that of a slot in one of the seven namespaces, and
executors that have them and the same counter have the same hash. -/
theorem bytes_of_records {s s' : Store} (h : Reachable s) (h' : Reachable s')
    (hassets : Registry.all.run s = Registry.all.run s')
    (hoffers : ∀ o, Holds s o ↔ Holds s' o) :
    s = s' ∧
    (∀ k v, s.get? k = some v → ∃ x : Slot, x.Clean ∧ x.key = k) ∧
    ∀ x x' : Executor, x.store = s → x'.store = s' → x.batches = x'.batches →
      x.stateHash = x'.stateHash := by
  obtain ⟨σ, m, rfl, hm⟩ := h.pictured
  obtain ⟨σ', m', rfl, hm'⟩ := h'.pictured
  rw [run_query, run_query, hm.mirrors.all, hm'.mirrors.all] at hassets
  have hrecords : σ = σ' := by
    refine Records.eq_of_listed hm.sound.wellFormed hm'.sound.wellFormed
      (Except.ok.inj hassets) fun o => ?_
    rw [← holds_iff hm, ← holds_iff hm', hoffers o]
  subst hrecords
  have hbytes : m = m' := hm.shows.ext hm'.shows
  subst hbytes
  refine ⟨rfl, hm.shows.keys, ?_⟩
  intro x x' hx hx' hbatches
  have hcontents : x.contents = x'.contents := congrArg Store.base (hx.trans hx'.symm)
  rw [Executor.stateHash, Executor.stateHash, hcontents, hbatches]

/-- Adding to an asset, offering it in vain and adding again under other settings leaves what
creating it at once would have left. -/
theorem bytes_of_detour :
    run { codespace := "wharf" }
        [⟨⟨"alice"⟩, 5, .addQuantity ⟨"tea"⟩ 1⟩, ⟨⟨"bob"⟩, 6, .answerOffer ⟨"tea"⟩ ⟨"bob"⟩ .reject⟩]
        (run {} [⟨⟨"alice"⟩, 1, .createAsset ⟨"tea"⟩ "Tea" 4 "kg" none []⟩,
          ⟨⟨"alice"⟩, 2, .createOffer ⟨"tea"⟩ ⟨"bob"⟩ .owner []⟩] .empty) =
      run {} [⟨⟨"alice"⟩, 9, .createAsset ⟨"tea"⟩ "Tea" 5 "kg" none []⟩] .empty := by
  have hassets : Registry.all.run (run { codespace := "wharf" }
        [⟨⟨"alice"⟩, 5, .addQuantity ⟨"tea"⟩ 1⟩, ⟨⟨"bob"⟩, 6, .answerOffer ⟨"tea"⟩ ⟨"bob"⟩ .reject⟩]
        (run {} [⟨⟨"alice"⟩, 1, .createAsset ⟨"tea"⟩ "Tea" 4 "kg" none []⟩,
          ⟨⟨"alice"⟩, 2, .createOffer ⟨"tea"⟩ ⟨"bob"⟩ .owner []⟩] .empty)) =
      Registry.all.run
        (run {} [⟨⟨"alice"⟩, 9, .createAsset ⟨"tea"⟩ "Tea" 5 "kg" none []⟩] .empty) := by
    decide +kernel
  have hoffers : Audit.allOffers.run (run { codespace := "wharf" }
        [⟨⟨"alice"⟩, 5, .addQuantity ⟨"tea"⟩ 1⟩, ⟨⟨"bob"⟩, 6, .answerOffer ⟨"tea"⟩ ⟨"bob"⟩ .reject⟩]
        (run {} [⟨⟨"alice"⟩, 1, .createAsset ⟨"tea"⟩ "Tea" 4 "kg" none []⟩,
          ⟨⟨"alice"⟩, 2, .createOffer ⟨"tea"⟩ ⟨"bob"⟩ .owner []⟩] .empty)) =
      Audit.allOffers.run
        (run {} [⟨⟨"alice"⟩, 9, .createAsset ⟨"tea"⟩ "Tea" 5 "kg" none []⟩] .empty) := by
    decide +kernel
  refine (bytes_of_records ((Reachable.empty.run {} _).run _ _) (Reachable.empty.run {} _)
    hassets fun o => ?_).1
  rw [Holds, Holds, hoffers]

end Ledger

end Custody
