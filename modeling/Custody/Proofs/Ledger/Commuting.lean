import Custody.Proofs.Ledger.Run
import Custody.Proofs.Records.Locality

/-!
# Envelopes that commute

Two envelopes may move the same balance, if their assets have a root and an owner in common.  But no
verdict hangs on a balance, as a balance covers each of the assets that it counts; so envelopes that
touch no asset in common get the same verdicts in either order, and leave the same bytes.

* `Ledger.dispatch_commute`: **envelopes that touch no asset in common commute.**
-/

namespace Custody.Ledger

open Records

/-- **Envelopes that touch no asset in common commute.**  In either order each of them gets the same
verdict, and the store they leave is the same. -/
theorem dispatch_commute {s : Store} (h : Reachable s) (config : ModuleConfig) {e e' : Envelope}
    (hapart : ∀ id ∈ e.message.touched, id ∉ e'.message.touched) :
    (dispatch config e (dispatch config e' s).2).1 = (dispatch config e s).1 ∧
    (dispatch config e' (dispatch config e s).2).1 = (dispatch config e' s).1 ∧
    (dispatch config e' (dispatch config e s).2).2 =
      (dispatch config e (dispatch config e' s).2).2 := by
  obtain ⟨σ, m, rfl, hm⟩ := h.pictured
  have hσ := hm.sound.wellFormed
  -- The stores after one envelope and after both, with the records that they picture.
  obtain ⟨m₁, hfirst, hm₁⟩ := dispatch_pictured config e hm
  obtain ⟨m₂, hfirst', hm₂⟩ := dispatch_pictured config e' hm
  obtain ⟨m₁₂, hsecond, hm₁₂⟩ := dispatch_pictured config e' hm₁
  obtain ⟨m₂₁, hsecond', hm₂₁⟩ := dispatch_pictured config e hm₂
  rw [hfirst, hfirst', hsecond, hsecond']
  refine ⟨(dispatch_after config hσ hapart).1, ?_, ?_⟩
  · exact (dispatch_after config hσ fun id hid' hid => hapart id hid hid').1
  · have hrecords := dispatch_comm config hσ hapart hm₁.sound.wellFormed hm₂.sound.wellFormed
    rw [hrecords] at hm₁₂
    exact congrArg Store.ofContents (hm₁₂.shows.ext hm₂₁.shows)

/-- Two withdrawals that between them use up one balance, from an asset and from a part that was
split off it. -/
theorem dispatch_commute_of_split :
    run {} [⟨⟨"alice"⟩, 3, .subtractQuantity ⟨"tea"⟩ 6⟩, ⟨⟨"alice"⟩, 4, .subtractQuantity ⟨"bag"⟩ 4⟩]
        (run {} [⟨⟨"alice"⟩, 1, .createAsset ⟨"tea"⟩ "Tea" 10 "kg" none []⟩,
          ⟨⟨"alice"⟩, 2, .createAsset ⟨"bag"⟩ "Bag" 4 "kg" (some ⟨"tea"⟩) []⟩] .empty) =
      run {} [⟨⟨"alice"⟩, 4, .subtractQuantity ⟨"bag"⟩ 4⟩, ⟨⟨"alice"⟩, 3, .subtractQuantity ⟨"tea"⟩ 6⟩]
        (run {} [⟨⟨"alice"⟩, 1, .createAsset ⟨"tea"⟩ "Tea" 10 "kg" none []⟩,
          ⟨⟨"alice"⟩, 2, .createAsset ⟨"bag"⟩ "Bag" 4 "kg" (some ⟨"tea"⟩) []⟩] .empty) := by
  have hapart : ∀ id ∈ (Message.subtractQuantity ⟨"tea"⟩ 6).touched,
      id ∉ (Message.subtractQuantity ⟨"bag"⟩ 4).touched := by decide
  exact (@dispatch_commute _ (Reachable.empty.run {} _) {}
    ⟨⟨"alice"⟩, 3, .subtractQuantity ⟨"tea"⟩ 6⟩ ⟨⟨"alice"⟩, 4, .subtractQuantity ⟨"bag"⟩ 4⟩
    hapart).2.2

end Custody.Ledger
