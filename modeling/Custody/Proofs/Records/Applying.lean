import Custody.Proofs.Records.Soundness

/-!
# Every step can be taken

A message that is applied makes a step (`step_of_execute`).  The converse holds too: what the cases
of `Step` ask for is all that a message needs to be applied, but for the values of the properties
that it writes, and those a checked envelope has in order.  So whether a message is applied is read
off its step, and no later proof follows the checks of a change again.

* `Records.execute_of_step`: a message that can make a step is applied.
* `Message.values_of_checkBody`: what a checked message writes is in order.
-/

namespace Custody

theorem values_of_checkProperties {limits : Limits} {properties : List Property} {u : Unit}
    (h : checkProperties limits properties = .ok u) : ∀ p ∈ properties, p.value.check = .ok () := by
  obtain ⟨_, -, h⟩ := Verdict.bind_eq_ok.mp h
  intro p hp
  obtain ⟨_, -, hvalue⟩ := Verdict.bind_eq_ok.mp (Records.forM_eq_ok.mp h p hp)
  exact hvalue

/-- The values of the properties that a checked message writes are in order. -/
theorem Message.values_of_checkBody {limits : Limits} {m : Message} {u : Unit}
    (h : m.checkBody limits = .ok u) : ∀ p ∈ m.written, p.value.check = .ok () := by
  cases m with
  | createAsset id name quantity unit parent properties =>
    obtain ⟨_, -, h⟩ := Verdict.bind_eq_ok.mp h
    obtain ⟨_, -, h⟩ := Verdict.bind_eq_ok.mp h
    obtain ⟨_, -, h⟩ := Verdict.bind_eq_ok.mp h
    exact values_of_checkProperties h
  | updateProperties id properties => exact values_of_checkProperties h
  | _ => exact fun p hp => absurd hp List.not_mem_nil

namespace Records

variable {σ σ' : Records} {sender : AccountId} {now : UInt64} {message : Message}

/-- **A message that can make a step is applied**, if the values that it writes are in order. -/
theorem execute_of_step (hσ : σ.WellFormed) (h : σ.Step sender now message σ')
    (hvalues : ∀ p ∈ message.written, p.value.check = .ok ()) :
    ∃ outcome, σ.execute ⟨sender, now, message⟩ = .ok (outcome, σ') := by
  cases h with
  | issue hfree =>
    exact ⟨_, Verdict.bind_eq_ok.mpr ⟨_, createAsset_eq_ok.mpr ⟨hfree, hvalues, rfl⟩, rfl⟩⟩
  | split hfree hp hmutable howner hle =>
    exact ⟨_, Verdict.bind_eq_ok.mpr ⟨_, createAsset_eq_ok.mpr
      ⟨hfree, hvalues, _, hp, hmutable, howner, hle, rfl⟩, rfl⟩⟩
  | add ha hmutable howner hamount =>
    have hadd := addQuantity_eq_ok.mpr ⟨_, ha, hmutable, hamount, howner, rfl⟩
    exact ⟨_, Verdict.bind_eq_ok.mpr ⟨_, hadd, rfl⟩⟩
  | subtract ha hmutable howner hamount hle =>
    have hsubtract := subtractQuantity_eq_ok.mpr ⟨_, ha, hmutable, hamount, howner, hle, rfl⟩
    exact ⟨_, Verdict.bind_eq_ok.mpr ⟨_, hsubtract, rfl⟩⟩
  | compose ha hmutable howner hsome hpositive htakes =>
    have hcompose := (addMaterials_eq_ok hσ).mpr
      ⟨_, _, ha, hmutable, howner, hsome, hpositive, htakes, rfl, rfl⟩
    exact ⟨_, Verdict.bind_eq_ok.mpr ⟨_, hcompose, rfl⟩⟩
  | write ha hmutable hsome hpermits =>
    have hwrite := updateProperties_eq_ok.mpr ⟨_, ha, hmutable, hsome, hvalues, hpermits, rfl⟩
    exact ⟨_, Verdict.bind_eq_ok.mpr ⟨_, hwrite, rfl⟩⟩
  | freeze ha hmutable howner =>
    exact ⟨_, Verdict.bind_eq_ok.mpr ⟨_, finalize_eq_ok.mpr ⟨_, ha, hmutable, howner, rfl⟩, rfl⟩⟩
  | offer ha hmutable howner hother hnames =>
    have hoffer := createOffer_eq_ok.mpr ⟨_, ha, hmutable, howner, hother, hnames, rfl⟩
    exact ⟨_, Verdict.bind_eq_ok.mpr ⟨_, hoffer, rfl⟩⟩
  | @decline id recipient response a o ha hmutable ho hresponse hsender =>
    have hanswer : σ.answerOffer id recipient response sender now =
        .ok (⟨{ o with status := response.status }, a⟩, σ.drop id recipient) :=
      answerOffer_eq_ok.mpr ⟨a, ha, hmutable, o, ho, hsender, by rw [if_neg hresponse]⟩
    exact ⟨_, Verdict.bind_eq_ok.mpr ⟨_, hanswer, rfl⟩⟩
  | @accept id a o ha hmutable ho howner =>
    have hsender := Offer.mayAnswer_accept_iff.mpr (hσ.offer_eq ho).2
    have hanswer : σ.answerOffer id sender .accept sender now =
        .ok (⟨{ o with status := .accepted }, granted a sender o now⟩,
          (σ.put (granted a sender o now)).drop id sender) :=
      answerOffer_eq_ok.mpr ⟨a, ha, hmutable, o, ho, hsender, by simp [howner, Response.status]⟩
    exact ⟨_, Verdict.bind_eq_ok.mpr ⟨_, hanswer, rfl⟩⟩
  | withdraw ha hmutable howner ho hrole hsome hleft =>
    have hrevoke := revokeOffer_eq_ok.mpr
      ⟨_, ha, hmutable, howner, _, ho, hsome, hrole, if_pos hleft⟩
    exact ⟨_, Verdict.bind_eq_ok.mpr ⟨_, hrevoke, rfl⟩⟩
  | narrow ha hmutable howner ho hrole hsome hleft =>
    have hrevoke := revokeOffer_eq_ok.mpr
      ⟨_, ha, hmutable, howner, _, ho, hsome, hrole, if_neg hleft⟩
    exact ⟨_, Verdict.bind_eq_ok.mpr ⟨_, hrevoke, rfl⟩⟩
  | appoint ha hmutable howner hother hsome =>
    exact ⟨_, Verdict.bind_eq_ok.mpr ⟨_, createReporter_eq_ok.mpr
      ⟨_, ha, hmutable, howner, hother, hsome, rfl⟩, rfl⟩⟩
  | dismiss ha hmutable howner hr =>
    have hdismiss := revokeReporter_eq_ok.mpr
      ⟨_, ha, hmutable, howner, Option.isSome_iff_exists.mpr ⟨_, hr⟩, rfl⟩
    exact ⟨_, Verdict.bind_eq_ok.mpr ⟨_, hdismiss, rfl⟩⟩

end Records

end Custody
