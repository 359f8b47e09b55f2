import Custody.Proofs.Ledger.Consistency
import Custody.Proofs.Records.Regular

/-!
# Offers do not get stuck

An offer stays pending when its asset changes hands, and its issuer can then no longer grant what it
offers.  Still the way out is open to both sides: the issuer can cancel the offer and the recipient
can reject it, as its asset is there and not final, and as the names that an answer repeats were
within the limits when the offer was made.  Acceptance hangs on one thing more, that the issuer is
still the owner.

* `Records.Answerable`: what makes answers possible; steps keep it, under the same limits.
* `Ledger.Removed`: an offer is gone from the store, and nothing else is.
* `Ledger.offers_closable`: **every pending offer can be rejected and cancelled, and it can be
  accepted just while its issuer owns the asset.**
-/

namespace Custody

/-- The names in an offer are within limits. -/
structure Offer.Within (o : Offer) (limits : Limits) : Prop where
  asset : IsSegment o.asset.text limits.idLength
  issuer : IsSegment o.issuer.text limits.idLength
  recipient : IsSegment o.recipient.text limits.idLength

namespace Records

variable {σ σ' : Records} {limits : Limits} {sender : AccountId} {now : UInt64} {message : Message}

/-! ### What makes answers possible -/

/-- Regular records whose offers are within limits. -/
structure Answerable (limits : Limits) (σ : Records) : Prop where
  regular : σ.Regular
  within : ∀ {id recipient o}, σ.offer? id recipient = some o → o.Within limits

theorem answerable_empty : Answerable limits empty := ⟨regular_empty, nofun⟩

theorem Step.answerable (h : σ.Step sender now message σ') (hσ : σ.WellFormed)
    (hcheck : (Envelope.mk sender now message).check limits = .ok ())
    (hanswerable : Answerable limits σ) : Answerable limits σ' := by
  obtain ⟨hwithin, -⟩ := Envelope.check_eq_ok.mp hcheck
  refine ⟨h.regular hσ hanswerable.regular (Envelope.proper_of_check hcheck), ?_⟩
  intro id recipient o ho
  have hchange := h.offers hσ id recipient
  rw [ho] at hchange
  generalize hx : some o = x at hchange
  cases hchange with
  | keep hoffers hanswers hwithdraws => exact hanswerable.within hx.symm
  | offer =>
    obtain rfl := Option.some.inj hx
    exact ⟨hwithin.asset, hwithin.sender, hwithin.counterparty recipient rfl⟩
  | narrow hp =>
    obtain rfl := Option.some.inj hx
    obtain ⟨hasset, hissuer, hrecipient⟩ := hanswerable.within hp
    exact ⟨hasset, hissuer, hrecipient⟩
  | remove => exact nomatch hx

/-- An envelope with an answer to an offer passes its check if it comes from one of the two
sides. -/
theorem Answerable.check (h : Answerable limits σ) (hσ : σ.WellFormed) {id : AssetId}
    {recipient : AccountId} {o : Offer} (ho : σ.offer? id recipient = some o)
    (hsender : sender = recipient ∨ sender = o.issuer) (now : UInt64) (response : Response) :
    (Envelope.mk sender now (.answerOffer id recipient response)).check limits = .ok () := by
  obtain ⟨rfl, rfl⟩ := hσ.offer_eq ho
  obtain ⟨hasset, hissuer, hrecipient⟩ := h.within ho
  refine Envelope.check_eq_ok.mpr ⟨⟨?_, hasset, ?_⟩, rfl⟩
  · rcases hsender with rfl | rfl
    · exact hrecipient
    · exact hissuer
  · intro account haccount
    obtain rfl := Option.some.inj haccount
    exact hrecipient

/-- An offer is not accepted once its issuer has lost the asset. -/
theorem execute_accept_of_lost (hσ : σ.WellFormed) {id : AssetId} {a : Asset} {o : Offer}
    (ha : σ.asset? id = some a) (hmutable : a.isFinal = false) (ho : σ.offer? id sender = some o)
    (hlost : a.owner ≠ o.issuer) : σ.execute ⟨sender, now, .answerOffer id sender .accept⟩ =
      .error (.unauthorized o.issuer .grantLostRole id) := by
  have hanswer : o.mayAnswer sender .accept = true :=
    Offer.mayAnswer_accept_iff.mpr (hσ.offer_eq ho).2
  have hissuer : o.issuerOwns a = false := by simpa [Offer.issuerOwns, Asset.isOwnedBy] using hlost
  have hcheck : a.checkMutable = .ok () := Asset.checkMutable_eq_ok.mpr hmutable
  have haccept : σ.answerOffer id sender .accept sender now =
      .error (.unauthorized o.issuer .grantLostRole id) := by
    simp only [answerOffer, accept, get_eq_ok.mpr ha, hcheck, getOffer_eq_ok.mpr ho, hanswer,
      hissuer, require, Verdict.ok_bind, if_true]
    rfl
  simp only [execute, haccept]
  rfl

/-- Dropping an offer takes two keys out of the picture. -/
theorem Pictured.get?_drop {m m' : Contents} (h : σ.Pictured m) {id : AssetId}
    {recipient : AccountId} {o : Offer} (ho : σ.offer? id recipient = some o)
    (h' : (σ.drop id recipient).Pictured m') (k : Bytes) : m'.get? k =
      if k = Key.offer id recipient ∨ k = Key.recipient recipient id then none else m.get? k := by
  obtain ⟨m'', hremove, hm''⟩ := h.drop ho
  rw [h'.shows.ext hm''.shows]
  have hm : m'' = (m.put (Key.offer id recipient) none).put (Key.recipient recipient id) none :=
    (Prod.mk.inj hremove).2.symm
  rw [hm, Contents.get?_put, Contents.get?_put]
  by_cases hoffer : k = Key.offer id recipient <;> simp [hoffer]

end Records

namespace Ledger

open Records

/-- An offer has been taken out of a store, together with its entry in the index of recipients, and
nothing else in the store has changed. -/
structure Removed (o : Offer) (s s' : Store) : Prop where
  record : s.get? (Key.offer o.asset o.recipient) = some (encode o)
  entry : s.get? (Key.recipient o.recipient o.asset) = some []
  left : ∀ k, s'.get? k =
    if k = Key.offer o.asset o.recipient ∨ k = Key.recipient o.recipient o.asset then none
    else s.get? k

variable {σ : Records} {m : Contents} {config : ModuleConfig}

theorem removed_of_drop {m' : Contents} (hm : σ.Pictured m) {id : AssetId} {recipient : AccountId}
    {o : Offer} (ho : σ.offer? id recipient = some o) (hm' : (σ.drop id recipient).Pictured m') :
    Removed o (.ofContents m) (.ofContents m') := by
  obtain ⟨rfl, rfl⟩ := hm.sound.wellFormed.offer_eq ho
  refine ⟨?_, ?_, ?_⟩
  · refine (hm.shows.get? (.offer o.asset o.recipient)).trans ?_
    rw [sheet, ho, Option.map_some]
  · refine (hm.shows.get? (.recipient o.recipient o.asset)).trans ?_
    rw [sheet, ho, Option.map_some]
  · exact hm.get?_drop ho hm'

/-- An answer other than acceptance is applied when the side gives it that may give it. -/
theorem dispatch_decline (hm : σ.Pictured m) (h : Answerable config.limits σ) {id : AssetId}
    {recipient sender : AccountId} {o : Offer} (ho : σ.offer? id recipient = some o)
    (hsender : sender = recipient ∨ sender = o.issuer) {response : Response}
    (hresponse : response ≠ .accept) (hanswer : o.mayAnswer sender response = true)
    (now : UInt64) : ∃ outcome s',
      dispatch config ⟨sender, now, .answerOffer id recipient response⟩ (.ofContents m) =
        (.ok outcome, s') ∧ Removed o (.ofContents m) s' := by
  obtain ⟨a, ha, hmutable, -⟩ := h.regular.offered ho
  have hcheck := h.check hm.sound.wellFormed ho hsender now response
  obtain ⟨outcome, m', hdispatch, hm'⟩ :=
    dispatch_of_step hm hcheck (.decline ha hmutable ho hresponse hanswer)
  exact ⟨outcome, .ofContents m', hdispatch, removed_of_drop hm ho hm'⟩

/-- **Offers do not get stuck.**  A pending offer lies under its own asset and recipient.  At any
time its recipient can reject it and its issuer can cancel it, and either removes it and nothing
else.  Its asset is there, and the recipient can accept the offer as long as the asset belongs to
the issuer; when it does not, acceptance is refused on account of the issuer, and the store, with
the offer, is left as it was. -/
theorem offers_closable (config : ModuleConfig) (es : List Envelope) {s : Store}
    (hs : run config es .empty = s) {id : AssetId} {recipient : AccountId} {o : Offer}
    (ho : (OfferBook.find? id recipient).run s = .ok (some o)) (now : UInt64) :
    (o.asset = id ∧ o.recipient = recipient) ∧
    (∃ outcome s', dispatch config ⟨recipient, now, .answerOffer id recipient .reject⟩ s =
      (.ok outcome, s') ∧ Removed o s s') ∧
    (∃ outcome s', dispatch config ⟨o.issuer, now, .answerOffer id recipient .cancel⟩ s =
      (.ok outcome, s') ∧ Removed o s s') ∧
    ∃ a, (Registry.find? id).run s = .ok (some a) ∧
      (a.owner = o.issuer → ∃ outcome s',
        dispatch config ⟨recipient, now, .answerOffer id recipient .accept⟩ s =
          (.ok outcome, s')) ∧
      (a.owner ≠ o.issuer →
        dispatch config ⟨recipient, now, .answerOffer id recipient .accept⟩ s =
          (.error (.unauthorized o.issuer .grantLostRole id), s)) := by
  obtain ⟨σ, m, hrun, hm, hanswerable⟩ := run_stableUnder (P := Answerable config.limits)
    (fun hσ h hcheck hstep => hstep.answerable hσ hcheck h) es pictured_empty answerable_empty
  obtain rfl : .ofContents m = s := hrun.symm.trans hs
  have hσ := hm.sound.wellFormed
  rw [run_query, hm.mirrors.offer?] at ho
  have ho : σ.offer? id recipient = some o := Except.ok.inj ho
  obtain ⟨a, ha, hmutable, -⟩ := hanswerable.regular.offered ho
  have hnames := hσ.offer_eq ho
  have hcheck := hanswerable.check hσ ho (.inl rfl) now .accept
  refine ⟨hnames, ?_, ?_, a, ?_, ?_, ?_⟩
  · exact dispatch_decline hm hanswerable ho (.inl rfl) (by decide)
      (by simp [Offer.mayAnswer, hnames]) now
  · exact dispatch_decline hm hanswerable ho (.inr rfl) (by decide) (by simp [Offer.mayAnswer]) now
  · rw [run_query, hm.mirrors.find?, ha]
  · intro howner
    obtain ⟨outcome, m', hdispatch, -⟩ := dispatch_of_step hm hcheck (.accept ha hmutable ho howner)
    exact ⟨outcome, .ofContents m', hdispatch⟩
  · intro hlost
    exact dispatch_of_execute_error hm hcheck (execute_accept_of_lost hσ ha hmutable ho hlost)

/-- An offer that its issuer can no longer grant, since bob has become the owner. -/
theorem closable_of_stale : ∃ s,
    run {} [⟨⟨"alice"⟩, 1, .createAsset ⟨"tea"⟩ "Tea" 9 "kg" none []⟩,
      ⟨⟨"alice"⟩, 2, .createOffer ⟨"tea"⟩ ⟨"carol"⟩ .reporter [⟨"grade"⟩]⟩,
      ⟨⟨"alice"⟩, 3, .createOffer ⟨"tea"⟩ ⟨"bob"⟩ .owner []⟩,
      ⟨⟨"bob"⟩, 4, .answerOffer ⟨"tea"⟩ ⟨"bob"⟩ .accept⟩] .empty = s ∧
    (∃ outcome s', dispatch {} ⟨⟨"carol"⟩, 5, .answerOffer ⟨"tea"⟩ ⟨"carol"⟩ .reject⟩ s =
      (.ok outcome, s') ∧
      Removed (Offer.pending ⟨"tea"⟩ ⟨"alice"⟩ ⟨"carol"⟩ .reporter [⟨"grade"⟩]) s s') ∧
    (∃ outcome s', dispatch {} ⟨⟨"alice"⟩, 5, .answerOffer ⟨"tea"⟩ ⟨"carol"⟩ .cancel⟩ s =
      (.ok outcome, s') ∧
      Removed (Offer.pending ⟨"tea"⟩ ⟨"alice"⟩ ⟨"carol"⟩ .reporter [⟨"grade"⟩]) s s') ∧
    dispatch {} ⟨⟨"carol"⟩, 5, .answerOffer ⟨"tea"⟩ ⟨"carol"⟩ .accept⟩ s =
      (.error (.unauthorized ⟨"alice"⟩ .grantLostRole ⟨"tea"⟩), s) := by
  generalize hs : run {} _ .empty = s
  have hstored : (Registry.find? ⟨"tea"⟩).run s =
      .ok (some { Asset.fresh ⟨"tea"⟩ "Tea" ⟨"alice"⟩ 9 "kg" with owner := ⟨"bob"⟩ }) := by
    rw [← hs]
    decide +kernel
  have hoffer : (OfferBook.find? ⟨"tea"⟩ ⟨"carol"⟩).run s =
      .ok (some (Offer.pending ⟨"tea"⟩ ⟨"alice"⟩ ⟨"carol"⟩ .reporter [⟨"grade"⟩])) := by
    rw [← hs]
    decide +kernel
  obtain ⟨-, hreject, hcancel, a, ha, -, hrefused⟩ := offers_closable {} _ hs hoffer 5
  obtain rfl := Option.some.inj (Except.ok.inj (hstored.symm.trans ha))
  exact ⟨s, rfl, hreject, hcancel, hrefused (by decide)⟩

end Ledger

end Custody
