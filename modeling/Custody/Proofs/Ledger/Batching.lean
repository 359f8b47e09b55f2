import Custody.Proofs.Ledger.Regularity
import Custody.Proofs.Records.Batching

/-!
# One batch or several

A batch of materials is checked as a whole: the amounts of each component are added up, and so are
the amounts under each root.  Added in parts, each part is checked against what the parts before it
have left.  Both ways the same batches are accepted and the same bytes are stored, and the order
within a batch does not matter.

* `Ledger.addMaterials_perm`: the order of a batch.
* `Ledger.batches_compose`: **a batch is its parts, in whatever order.**
-/

namespace Custody

open Records

namespace Ledger

/-- The order of a batch does not matter, whatever the store. -/
theorem addMaterials_perm {xs ys : List Material} (h : xs.Perm ys) (id : AssetId)
    (caller : AccountId) : addMaterials id xs caller = addMaterials id ys caller := by
  have hempty : xs.isEmpty = ys.isEmpty := h.isEmpty_eq
  have hzero : (xs.any fun m => m.quantity == 0) = ys.any fun m => m.quantity == 0 := h.any_eq
  rw [addMaterials, addMaterials, hempty, hzero, Material.normalize_perm h]

variable {σ σ' : Records} {m : Contents} {id : AssetId} {caller : AccountId}
  {batch : List Material} {a : Asset}

theorem sound_of_addMaterials (hσ : σ.Sound) (h : σ.addMaterials id batch caller = .ok (a, σ')) :
    σ'.Sound := by
  have hstep := step_of_addMaterials hσ.wellFormed h 0
  obtain ⟨target, rfl, hcan, -⟩ := (addMaterials_iff hσ.wellFormed).mp h
  have hstorable := hσ.wellFormed.storable hcan.stored
  exact hstep.sound hσ ⟨hcan.owner ▸ hstorable.owner, hstorable.id, nofun, nofun⟩

theorem run_of_addMaterials (hm : σ.Pictured m) (h : σ.addMaterials id batch caller = .ok (a, σ')) :
    ∃ m', (addMaterials id batch caller).run (.ofContents m) = (.ok a, .ofContents m') ∧
      σ'.Pictured m' :=
  (addMaterials_follows id batch caller).run_of_ok hm h (sound_of_addMaterials hm.sound h)

theorem addMaterials_of_run (hm : σ.Pictured m) {s' : Store}
    (h : (addMaterials id batch caller).run (.ofContents m) = (.ok a, s')) : ∃ σ' m',
    σ.addMaterials id batch caller = .ok (a, σ') ∧ s' = .ofContents m' ∧ σ'.Pictured m' :=
  (addMaterials_follows id batch caller).ok_of_run (sound_of_addMaterials hm.sound) hm h

/-- **A batch is its parts, in whatever order.**  In a reachable store, a batch that is made of two
is added, with an answer and a store that it leaves, just if the first part is added, and then the
second with this answer and this store.  And a batch in another order gets the same verdict and
leaves the same store. -/
theorem batches_compose {s : Store} (h : Reachable s) (id : AssetId) (caller : AccountId) :
    (∀ xs ys : List Material, xs ≠ [] → ys ≠ [] → ∀ a s',
      (addMaterials id (xs ++ ys) caller).run s = (.ok a, s') ↔
        ∃ b s₁, (addMaterials id xs caller).run s = (.ok b, s₁) ∧
          (addMaterials id ys caller).run s₁ = (.ok a, s')) ∧
    ∀ xs ys : List Material, xs.Perm ys →
      (addMaterials id xs caller).run s = (addMaterials id ys caller).run s := by
  obtain ⟨σ, m, rfl, hm, hr⟩ := h.regular
  refine ⟨fun xs ys hxs hys a s' => ?_, fun xs ys hperm => ?_⟩
  · have happend : ∀ σ', σ.addMaterials id (xs ++ ys) caller = .ok (a, σ') ↔ ∃ b σ₁,
        σ.addMaterials id xs caller = .ok (b, σ₁) ∧ σ₁.addMaterials id ys caller = .ok (a, σ') :=
      fun σ' => Records.addMaterials_append hm.sound.wellFormed
        (fun target htarget => (hr.asset htarget).materials) hxs hys
    constructor
    · intro hrun
      obtain ⟨σ', m', hadd, rfl, hm'⟩ := addMaterials_of_run hm hrun
      obtain ⟨b, σ₁, hfirst, hsecond⟩ := (happend σ').mp hadd
      obtain ⟨m₁, hrun₁, hm₁⟩ := run_of_addMaterials hm hfirst
      obtain ⟨m₂, hrun₂, hm₂⟩ := run_of_addMaterials hm₁ hsecond
      exact ⟨b, .ofContents m₁, hrun₁, by rw [hrun₂, hm₂.shows.ext hm'.shows]⟩
    · rintro ⟨b, s₁, hrun₁, hrun₂⟩
      obtain ⟨σ₁, m₁, hfirst, rfl, hm₁⟩ := addMaterials_of_run hm hrun₁
      obtain ⟨σ', m₂, hsecond, rfl, hm₂⟩ := addMaterials_of_run hm₁ hrun₂
      obtain ⟨m', hrun, hm'⟩ := run_of_addMaterials hm ((happend σ').mpr ⟨b, σ₁, hfirst, hsecond⟩)
      rw [hrun, hm'.shows.ext hm₂.shows]
  · rw [addMaterials_perm hperm]

/-- A box is packed with all there is of a tea and of the bag that was split off it: in one batch
or, in another order, in two. -/
theorem batches_compose_of_box : ∃ s a s',
    run {} [⟨⟨"alice"⟩, 1, .createAsset ⟨"tea"⟩ "Tea" 10 "kg" none []⟩,
      ⟨⟨"alice"⟩, 2, .createAsset ⟨"bag"⟩ "Bag" 4 "kg" (some ⟨"tea"⟩) []⟩,
      ⟨⟨"alice"⟩, 3, .createAsset ⟨"box"⟩ "Box" 1 "pc" none []⟩] .empty = s ∧
    (addMaterials ⟨"box"⟩ [⟨⟨"tea"⟩, 6⟩, ⟨⟨"bag"⟩, 1⟩, ⟨⟨"bag"⟩, 1⟩, ⟨⟨"bag"⟩, 2⟩]
      ⟨"alice"⟩).run s = (.ok a, s') ∧
    (∃ b s₁, (addMaterials ⟨"box"⟩ [⟨⟨"bag"⟩, 1⟩, ⟨⟨"tea"⟩, 6⟩, ⟨⟨"bag"⟩, 1⟩] ⟨"alice"⟩).run s =
      (.ok b, s₁) ∧ (addMaterials ⟨"box"⟩ [⟨⟨"bag"⟩, 2⟩] ⟨"alice"⟩).run s₁ = (.ok a, s')) := by
  generalize hs : run {} _ .empty = s
  have hreachable : Reachable s := hs ▸ Reachable.empty.run {} _
  obtain ⟨happend, hperm⟩ := batches_compose hreachable ⟨"box"⟩ ⟨"alice"⟩
  have hdone : ((addMaterials ⟨"box"⟩ ([⟨⟨"bag"⟩, 1⟩, ⟨⟨"tea"⟩, 6⟩, ⟨⟨"bag"⟩, 1⟩] ++ [⟨⟨"bag"⟩, 2⟩])
      ⟨"alice"⟩).run s).1 = .ok { Asset.fresh ⟨"box"⟩ "Box" ⟨"alice"⟩ 1 "pc" with
        materials := [⟨⟨"bag"⟩, 4⟩, ⟨⟨"tea"⟩, 6⟩] } := by
    rw [← hs]
    decide +kernel
  have hrun := Prod.mk.eta.symm.trans (congrArg (Prod.mk · _) hdone)
  refine ⟨s, _, _, rfl, (hperm _ _ (by decide)).trans hrun, ?_⟩
  exact (happend _ _ (by decide) (by decide) _ _).mp hrun

end Ledger

end Custody
