import Custody.Proofs.Ledger.Consistency
import Custody.Proofs.Records.Lineage

/-!
# The lineage is a forest

From every asset of a reachable store the parents lead up, through assets that exist and over none
twice, to one that has no parent.  All on the way have one root, which is the last of them.  Roots
are never computed anew: they are copied when an asset is split off, and as identifiers are not
taken twice and records keep their descent, the copies stay right whatever is dispatched later.

* `Ledger.stored?`: the assets of a store.
* `Ledger.lineage_forest`: **the lineage is a forest with the right roots.**
-/

namespace Custody.Ledger

open Records

/-- The asset that a store holds under an identifier. -/
def stored? (s : Store) (id : AssetId) : Option Asset := ((Registry.get id).run s).toOption

variable {σ σ' : Records} {m : Contents}

theorem get_ofContents (h : σ.Pictured m) {id : AssetId} {a : Asset} :
    (Registry.get id).run (.ofContents m) = .ok a ↔ σ.asset? id = some a := by
  rw [run_query, h.mirrors.get, get_eq_ok]

theorem stored?_ofContents (h : σ.Pictured m) : stored? (.ofContents m) = σ.asset? := by
  funext id
  rw [stored?, run_query, h.mirrors.get, Records.get]
  cases σ.asset? id <;> rfl

/-- **The lineage is a forest with the right roots.**  From every asset of a reachable store there is
one way up.  It leads over assets that exist, over none of them twice, to one without a parent; all
of them have the root of the asset, and the last of them is that root.  An asset has no parent just
if it is its own root.  Whatever is dispatched later, its parent, its root and its way up stay. -/
theorem lineage_forest {s : Store} (h : Reachable s) {id : AssetId} {a : Asset}
    (ha : (Registry.get id).run s = .ok a) :
    ∃ ids, Lineage (stored? s) id ids ∧
      (∀ ids', Lineage (stored? s) id ids' → ids' = ids) ∧ ids.Nodup ∧
      (∀ i ∈ ids, ∃ b, (Registry.get i).run s = .ok b ∧ b.root = a.root) ∧
      ids.getLast? = some a.root ∧ a.id = id ∧ (a.parent = none ↔ a.root = a.id) ∧
      ∀ config later, Lineage (stored? (run config later s)) id ids ∧
        ∃ b, (Registry.get id).run (run config later s) = .ok b ∧ b.parent = a.parent ∧
          b.root = a.root := by
  obtain ⟨σ, m, rfl, hm, hrooted⟩ :=
    h.stable (fun hσ hrooted _ hstep => hrooted.step hstep hσ) rooted_empty
  have hstored : σ.asset? id = some a := (get_ofContents hm).mp ha
  obtain ⟨ids, hids⟩ := hrooted id a hstored
  obtain rfl := hm.sound.wellFormed.id_eq hstored
  rw [stored?_ofContents hm]
  refine ⟨ids, hids.lineage, fun ids' h => h.unique hids.lineage, hids.nodup, ?_, hids.last, rfl,
    hids.top, ?_⟩
  · intro i hi
    obtain ⟨b, hb, hroot⟩ := hids.root i hi
    exact ⟨b, (get_ofContents hm).mpr hb, hroot⟩
  · intro config later
    -- Each later step keeps what the records of the moment had, and so does the run.
    obtain ⟨σ', m', hrun, hm', hkeeps⟩ := run_stable (P := σ.Keeps)
      (fun hσ hkeeps _ hstep => hkeeps.trans (hstep.keeps hσ)) config later hm (.refl σ)
    rw [hrun, stored?_ofContents hm']
    obtain ⟨b, hb, hdescent⟩ := hkeeps _ a hstored
    exact ⟨hkeeps.lineage hids.lineage, b, (get_ofContents hm').mpr hb,
      congrArg Descent.parent hdescent, congrArg Descent.root hdescent⟩

/-- A cup that was split off a pot that was split off a kettle of tea, and then handed over. -/
theorem lineage_of_cup : ∃ ids,
    Lineage (stored? (run {} [⟨⟨"alice"⟩, 1, .createAsset ⟨"kettle"⟩ "Tea" 9 "l" none []⟩,
      ⟨⟨"alice"⟩, 2, .createAsset ⟨"pot"⟩ "Tea" 4 "l" (some ⟨"kettle"⟩) []⟩,
      ⟨⟨"alice"⟩, 3, .createAsset ⟨"cup"⟩ "Tea" 1 "l" (some ⟨"pot"⟩) []⟩,
      ⟨⟨"alice"⟩, 4, .createOffer ⟨"cup"⟩ ⟨"bob"⟩ .owner []⟩,
      ⟨⟨"bob"⟩, 5, .answerOffer ⟨"cup"⟩ ⟨"bob"⟩ .accept⟩] .empty)) ⟨"cup"⟩ ids ∧
    ids.getLast? = some ⟨"kettle"⟩ := by
  have hget : (Registry.get ⟨"cup"⟩).run
      (run {} [⟨⟨"alice"⟩, 1, .createAsset ⟨"kettle"⟩ "Tea" 9 "l" none []⟩,
        ⟨⟨"alice"⟩, 2, .createAsset ⟨"pot"⟩ "Tea" 4 "l" (some ⟨"kettle"⟩) []⟩,
        ⟨⟨"alice"⟩, 3, .createAsset ⟨"cup"⟩ "Tea" 1 "l" (some ⟨"pot"⟩) []⟩,
        ⟨⟨"alice"⟩, 4, .createOffer ⟨"cup"⟩ ⟨"bob"⟩ .owner []⟩,
        ⟨⟨"bob"⟩, 5, .answerOffer ⟨"cup"⟩ ⟨"bob"⟩ .accept⟩] .empty) =
      .ok { Asset.fresh ⟨"cup"⟩ "Tea" ⟨"alice"⟩ 1 "l" with
        owner := ⟨"bob"⟩, parent := some ⟨"pot"⟩, root := ⟨"kettle"⟩ } := by
    decide +kernel
  obtain ⟨ids, hids, -, -, -, hlast, -⟩ := lineage_forest (Reachable.empty.run {} _) hget
  exact ⟨ids, hids, hlast⟩

end Custody.Ledger
