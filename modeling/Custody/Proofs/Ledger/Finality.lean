import Custody.Proofs.Ledger.Consistency
import Custody.Proofs.Records.Effects

/-!
# Final assets stay as they are

An asset is frozen together with the withdrawal of the offers on it, and none is made on it again.
From then on every message that touches it is refused, so it is never changed.

* `Records.Unoffered`, `Records.Step.unoffered`: no final asset is on offer.
* `Records.Frozen`, `Records.Frozen.step`: a step leaves a final asset as it is.
* `Ledger.final_forever`: **finality is permanent.**
-/

namespace Custody

namespace Records

variable {σ σ' : Records} {sender : AccountId} {now : UInt64} {message : Message}

/-! ### Offers on final assets -/

/-- No final asset is on offer. -/
def Unoffered (σ : Records) : Prop :=
  ∀ id a, σ.asset? id = some a → a.isFinal = true → ∀ recipient, σ.offer? id recipient = none

theorem granted_isFinal (a : Asset) (recipient : AccountId) (o : Offer) (now : UInt64) :
    (granted a recipient o now).isFinal = a.isFinal := by
  rw [granted]
  cases o.role with
  | owner => rfl
  | reporter => rfl

/-- A touched asset that is final after a step has been frozen by it. -/
theorem Step.finalize_of_touched (h : σ.Step sender now message σ') (hσ : σ.WellFormed)
    {id : AssetId} {b : Asset} (hid : id ∈ message.touched) (hb : σ'.asset? id = some b)
    (hfinal : b.isFinal = true) : message = .finalize id := by
  -- Every change but freezing leaves an asset that is not final.
  have hmade : ∀ {c : Asset}, some b = some c → c.isFinal = false → False := by
    intro c hc hmutable
    obtain rfl := Option.some.inj hc
    exact nomatch hmutable.symm.trans hfinal
  have hchange := h.assets hσ id
  rw [hb] at hchange
  generalize hx : some b = x at hchange
  cases hchange with
  | keep => exact nomatch (h.mutable_of_touched hx.symm hid).symm.trans hfinal
  | make htouched hfree hmutable
  | count htouched ha hmutable howner
  | compose ha hmutable howner
  | write ha hmutable hpermits
  | report htouched ha hmutable howner => exact (hmade hx hmutable).elim
  | accept ha hmutable ho howner =>
    exact (hmade hx ((granted_isFinal _ _ _ _).trans hmutable)).elim
  | freeze ha hmutable howner => rfl

/-- **A step puts no final asset on offer, and freezes none that is.** -/
theorem Step.unoffered (h : σ.Step sender now message σ') (hσ : σ.WellFormed)
    (hfree : σ.Unoffered) : σ'.Unoffered := by
  intro id b hb hfinal recipient
  by_cases hid : id ∈ message.touched
  · obtain rfl := h.finalize_of_touched hσ hid hb hfinal
    cases h with
    | freeze ha hmutable howner => rw [offer?_dropAll, if_pos rfl]
  · rw [h.asset?_of_untouched hσ hid] at hb
    rw [h.offer?_of_untouched hσ hid]
    exact hfree id b hb hfinal recipient

theorem History.unoffered {tr : List (Envelope × Store)} (h : History tr σ) : σ.Unoffered := by
  induction h with
  | nil => exact nofun
  | snoc h he hstep hm ih => exact hstep.unoffered h.sound.wellFormed ih

/-! ### Frozen assets -/

/-- A final asset that is not on offer. -/
structure Frozen (σ : Records) (id : AssetId) (a : Asset) : Prop where
  stored : σ.asset? id = some a
  final : a.isFinal = true
  unoffered : ∀ recipient, σ.offer? id recipient = none

variable {id : AssetId} {a : Asset}

theorem Frozen.untouched (hf : σ.Frozen id a) (h : σ.Step sender now message σ') :
    id ∉ message.touched := by
  intro hid
  exact nomatch (h.mutable_of_touched hf.stored hid).symm.trans hf.final

/-- **A step leaves a frozen asset as it is.** -/
theorem Frozen.step (hf : σ.Frozen id a) (h : σ.Step sender now message σ') (hσ : σ.WellFormed) :
    σ'.Frozen id a where
  stored := (h.asset?_of_untouched hσ (hf.untouched h)).trans hf.stored
  final := hf.final
  unoffered recipient :=
    (h.offer?_of_untouched hσ (hf.untouched h) recipient).trans (hf.unoffered recipient)

end Records

namespace Ledger

open Records

variable {σ : Records} {m : Contents} {id : AssetId} {a : Asset}

/-- A message that touches a frozen asset is refused. -/
theorem dispatch_of_frozen (config : ModuleConfig) (e : Envelope) (hm : σ.Pictured m)
    (hf : σ.Frozen id a) (hid : id ∈ e.message.touched) :
    ∃ fault, dispatch config e (.ofContents m) = (.error fault, .ofContents m) := by
  rcases dispatch_cases config e hm with ⟨_, _, _, _, _, _, hstep⟩ | hrefused
  · exact absurd hid (hf.untouched hstep)
  · exact hrefused

/-- A frozen asset stays frozen along a run. -/
theorem run_frozen (config : ModuleConfig) (es : List Envelope) (hm : σ.Pictured m)
    (hf : σ.Frozen id a) :
    ∃ (σ' : Records) (m' : Contents),
      run config es (.ofContents m) = .ofContents m' ∧ σ'.Pictured m' ∧ σ'.Frozen id a :=
  run_stable (P := fun σ => σ.Frozen id a) (fun hσ hf _ hstep => hf.step hstep hσ) config es hm hf

/-- **Finality is permanent.**  Whatever is dispatched after an asset has become final, the asset is
found as it was, with everything that belongs to it, no offer on it and no entry of one in the index
of recipients is stored, and every message on the way that touches it, as its own asset, as the
parent of a new one or as a component, is refused. -/
theorem final_forever (config : ModuleConfig) (es later : List Envelope) (id : AssetId) (a : Asset)
    (ha : (Registry.find? id).run (run config es .empty) = .ok (some a))
    (hfinal : a.isFinal = true) :
    (Registry.find? id).run (run config (es ++ later) .empty) = .ok (some a) ∧
    (∀ recipient,
      (run config (es ++ later) .empty).get? (Key.offer id recipient) = none ∧
      (run config (es ++ later) .empty).get? (Key.recipient recipient id) = none) ∧
    ∀ before e after, later = before ++ e :: after → id ∈ e.message.touched → ∃ fault,
      dispatch config e (run config (es ++ before) .empty) =
        (.error fault, run config (es ++ before) .empty) := by
  obtain ⟨σ, m, hrun, hm, hhistory⟩ := run_history config es
  rw [hrun, run_query, hm.mirrors.find?] at ha
  have hstored : σ.asset? id = some a := Except.ok.inj ha
  have hf : σ.Frozen id a := ⟨hstored, hfinal, hhistory.unoffered id a hstored hfinal⟩
  simp only [run_append, hrun]
  refine ⟨?_, ?_, ?_⟩
  · obtain ⟨σ', m', hrun', hm', hf'⟩ := run_frozen config later hm hf
    rw [hrun', run_query, hm'.mirrors.find?, hf'.stored]
  · intro recipient
    obtain ⟨σ', m', hrun', hm', hf'⟩ := run_frozen config later hm hf
    rw [hrun']
    constructor
    · refine (hm'.shows.get? (.offer id recipient)).trans ?_
      rw [sheet, hf'.unoffered, Option.map_none]
    · refine (hm'.shows.get? (.recipient recipient id)).trans ?_
      rw [sheet, hf'.unoffered, Option.map_none]
  · rintro before e after rfl hid
    obtain ⟨σ', m', hrun', hm', hf'⟩ := run_frozen config before hm hf
    rw [hrun']
    exact dispatch_of_frozen config e hm' hf' hid

/-- Nothing is split off an asset that was frozen while it was on offer. -/
theorem refused_of_frozen : ∃ fault,
    dispatch {} ⟨⟨"alice"⟩, 5, .createAsset ⟨"flour"⟩ "Flour" 2 "kg" (some ⟨"grain"⟩) []⟩
      (run {} ([⟨⟨"alice"⟩, 1, .createAsset ⟨"grain"⟩ "Grain" 5 "kg" none []⟩,
        ⟨⟨"alice"⟩, 2, .createOffer ⟨"grain"⟩ ⟨"bob"⟩ .owner []⟩,
        ⟨⟨"alice"⟩, 3, .finalize ⟨"grain"⟩⟩] ++
        [⟨⟨"bob"⟩, 4, .answerOffer ⟨"grain"⟩ ⟨"bob"⟩ .accept⟩]) .empty) =
      (.error fault, run {} ([⟨⟨"alice"⟩, 1, .createAsset ⟨"grain"⟩ "Grain" 5 "kg" none []⟩,
        ⟨⟨"alice"⟩, 2, .createOffer ⟨"grain"⟩ ⟨"bob"⟩ .owner []⟩,
        ⟨⟨"alice"⟩, 3, .finalize ⟨"grain"⟩⟩] ++
        [⟨⟨"bob"⟩, 4, .answerOffer ⟨"grain"⟩ ⟨"bob"⟩ .accept⟩]) .empty) := by
  have hstored : (Registry.find? ⟨"grain"⟩).run
      (run {} [⟨⟨"alice"⟩, 1, .createAsset ⟨"grain"⟩ "Grain" 5 "kg" none []⟩,
        ⟨⟨"alice"⟩, 2, .createOffer ⟨"grain"⟩ ⟨"bob"⟩ .owner []⟩,
        ⟨⟨"alice"⟩, 3, .finalize ⟨"grain"⟩⟩] .empty) =
      .ok (some { Asset.fresh ⟨"grain"⟩ "Grain" ⟨"alice"⟩ 5 "kg" with isFinal := true }) := by
    decide +kernel
  obtain ⟨-, -, hrefused⟩ := final_forever {} _ _ _ _ hstored rfl
  exact hrefused _ _ [] rfl (by decide)

end Ledger

end Custody
