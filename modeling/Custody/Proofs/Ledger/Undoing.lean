import Custody.Proofs.Ledger.Regularity

/-!
# Messages that take each other back

Four pairs of messages: the second takes back what the first has done, through code of its own and
over several keys.  What is left is not just equivalent to what was there before; it is the same
bytes, as the records are the same and a store is determined by the records that it pictures.

* `Records.Step.undo_add` and the like: after the step of the first message, the second one makes a
  step back.
* `Ledger.Undoes`: the pairs, and when they are pairs.
* `Ledger.undo_restores`: **the second message is accepted and restores the store.**
-/

namespace Custody

theorem Asset.reporter?_upsertReporter {a : Asset} (ha : AscendingBy Reporter.account a.reporters)
    (r : Reporter) : (a.upsertReporter r).reporter? r.account = some r := by
  rw [reporter?, upsertReporter, ha.find?_upsertBy, if_pos (beq_self_eq_true _)]

/-- Removing a reporter that has been added. -/
theorem Asset.removeReporter_upsertReporter {a : Asset}
    (ha : AscendingBy Reporter.account a.reporters) {r : Reporter}
    (hfree : a.reporter? r.account = none) : (a.upsertReporter r).removeReporter r.account = a := by
  have hne : ∀ s ∈ a.reporters, s.account ≠ r.account := fun s hs hsame =>
    List.find?_eq_none.mp hfree s hs (beq_iff_eq.mpr hsame)
  rw [removeReporter, upsertReporter]
  exact congrArg (fun l => { a with reporters := l }) (ha.eraseP_upsertBy hne)

/-- All names of an offer are among those that it was made with. -/
theorem filter_normalizeNames_of_subset {names revoked : List PropertyName}
    (h : ∀ n ∈ names, n ∈ revoked) :
    (normalizeNames names).filter (fun n => !revoked.contains n) = [] := by
  refine List.filter_eq_nil_iff.mpr fun n hn => ?_
  simp [h n (mem_normalizeNames.mp hn)]

namespace Records

variable {σ σ' : Records} {sender recipient : AccountId} {now : UInt64} {id : AssetId}
  {names : List PropertyName}

/-! ### Steps back -/

theorem Step.undo_add {amount : Nat} (h : σ.Step sender now (.addQuantity id amount) σ')
    (hσ : σ.WellFormed) (now' : UInt64) :
    σ'.Step sender now' (.subtractQuantity id amount) σ := by
  cases h with
  | @add _ _ a ha hmutable howner hamount =>
    obtain rfl := hσ.id_eq ha
    have hgrown := σ.asset?_put_self { a with quantity := a.quantity + amount }
    have hback : Step _ sender now' _ _ :=
      .subtract hgrown hmutable howner hamount (Nat.le_add_left ..)
    have hleft : leftOf ({ a with quantity := a.quantity + amount }, amount) = a := by
      rw [leftOf, Nat.add_sub_cancel]
    have hrestored : (σ.put { a with quantity := a.quantity + amount }).put a = σ :=
      σ.put_back _ ha rfl
    rw [hleft, hrestored] at hback
    exact hback

theorem Step.undo_appoint (h : σ.Step sender now (.createReporter id recipient names) σ')
    (hσ : σ.WellFormed) (hr : σ.Regular)
    (hnone : ∀ a, σ.asset? id = some a → a.reporter? recipient = none) (now' : UInt64) :
    σ'.Step sender now' (.revokeReporter id recipient) σ := by
  cases h with
  | @appoint _ _ _ a ha hmutable howner hother hsome =>
    have hascending := (hr.asset ha).reporters
    have hfree := hnone a ha
    obtain rfl := hσ.id_eq ha
    have hfound := a.reporter?_upsertReporter hascending (Reporter.grant recipient names now)
    have hgranted := σ.asset?_put_self (a.upsertReporter (Reporter.grant recipient names now))
    have hback : Step _ sender now' _ _ := .dismiss hgranted hmutable howner hfound
    have hleft := Asset.removeReporter_upsertReporter hascending
      (r := Reporter.grant recipient names now) hfree
    have hrestored : (σ.put (a.upsertReporter (Reporter.grant recipient names now))).put a = σ :=
      σ.put_back _ ha rfl
    rw [hleft, hrestored] at hback
    exact hback

/-- An offer that has just been made, where there was none. -/
theorem Step.undo_offer_cancel {role : OfferRole}
    (h : σ.Step sender now (.createOffer id recipient role names) σ')
    (hnone : σ.offer? id recipient = none) (now' : UInt64) :
    σ'.Step sender now' (.answerOffer id recipient .cancel) σ := by
  cases h with
  | @offer _ _ _ _ a ha hmutable howner hother hsome =>
    have hheld : (σ.hold (Offer.pending id sender recipient role names)).offer? id recipient =
        some (Offer.pending id sender recipient role names) := σ.offer?_hold_self _
    have hissuer : (Offer.pending id sender recipient role names).mayAnswer sender .cancel = true :=
      beq_self_eq_true sender
    have hback : Step _ sender now' _ _ :=
      .decline ((σ.asset?_hold _ id).trans ha) hmutable hheld (by decide) hissuer
    have hrestored : (σ.hold (Offer.pending id sender recipient role names)).drop id recipient =
        σ := σ.drop_hold _ hnone
    rw [hrestored] at hback
    exact hback

theorem Step.undo_offer_withdraw
    (h : σ.Step sender now (.createOffer id recipient .reporter names) σ')
    (hnone : σ.offer? id recipient = none) {revoked : List PropertyName}
    (hall : ∀ n ∈ names, n ∈ revoked) (now' : UInt64) :
    σ'.Step sender now' (.revokeOffer id recipient revoked) σ := by
  cases h with
  | @offer _ _ _ _ a ha hmutable howner hother hsome =>
    obtain ⟨n, hn⟩ := List.exists_mem_of_ne_nil names (hsome rfl)
    have hheld : (σ.hold (Offer.pending id sender recipient .reporter names)).offer? id recipient =
        some (Offer.pending id sender recipient .reporter names) := σ.offer?_hold_self _
    have hback : Step _ sender now' _ _ :=
      .withdraw ((σ.asset?_hold _ id).trans ha) hmutable howner hheld rfl
        (List.ne_nil_of_mem (hall n hn)) (filter_normalizeNames_of_subset hall)
    have hrestored : (σ.hold (Offer.pending id sender recipient .reporter names)).drop id
        recipient = σ := σ.drop_hold _ hnone
    rw [hrestored] at hback
    exact hback

end Records

namespace Ledger

open Records

/-- Pairs of messages of which the second takes back the first, in a given store and for given
limits. -/
inductive Undoes (limits : Limits) (s : Store) : Message → Message → Prop where
  | quantity (id : AssetId) (amount : Nat) :
      Undoes limits s (.addQuantity id amount) (.subtractQuantity id amount)
  /-- A reporter who held no grant is appointed and dismissed. -/
  | reporter (id : AssetId) (account : AccountId) (names : List PropertyName)
      (hnone : ∀ a, (Registry.find? id).run s = .ok (some a) → a.reporter? account = none) :
      Undoes limits s (.createReporter id account names) (.revokeReporter id account)
  /-- An offer that replaces no other is made and cancelled. -/
  | offer (id : AssetId) (recipient : AccountId) (role : OfferRole) (names : List PropertyName)
      (hnone : (OfferBook.find? id recipient).run s = .ok none) :
      Undoes limits s (.createOffer id recipient role names) (.answerOffer id recipient .cancel)
  /-- An offer that replaces no other is made, and all its names are withdrawn. -/
  | names (id : AssetId) (recipient : AccountId) (names revoked : List PropertyName)
      (hnone : (OfferBook.find? id recipient).run s = .ok none)
      (hall : ∀ n ∈ names, n ∈ revoked) (hcheck : checkNames limits revoked = .ok ()) :
      Undoes limits s (.createOffer id recipient .reporter names)
        (.revokeOffer id recipient revoked)

variable {limits : Limits} {s : Store} {first second : Message}

/-- The second message names what the first one names. -/
theorem Undoes.check (h : Undoes limits s first second) {sender : AccountId} {now : UInt64}
    (hcheck : (Envelope.mk sender now first).check limits = .ok ()) (now' : UInt64) :
    (Envelope.mk sender now' second).check limits = .ok () := by
  obtain ⟨⟨hsender, hasset, hcounterparty⟩, -⟩ := Envelope.check_eq_ok.mp hcheck
  cases h with
  | quantity | reporter | offer =>
    exact Envelope.check_eq_ok.mpr ⟨⟨hsender, hasset, hcounterparty⟩, rfl⟩
  | names id recipient names revoked hnone hall hnames =>
    exact Envelope.check_eq_ok.mpr ⟨⟨hsender, hasset, hcounterparty⟩, hnames⟩

/-- After the step of the first message the second one makes a step back. -/
theorem Undoes.step {σ σ' : Records} {m : Contents}
    (h : Undoes limits (.ofContents m) first second) (hm : σ.Pictured m) (hr : σ.Regular)
    {sender : AccountId} {now : UInt64} (hstep : σ.Step sender now first σ') (now' : UInt64) :
    σ'.Step sender now' second σ := by
  have hσ := hm.sound.wellFormed
  cases h with
  | quantity id amount => exact hstep.undo_add hσ now'
  | reporter id account names hnone =>
    refine hstep.undo_appoint hσ hr (fun a ha => hnone a ?_) now'
    rw [run_query, hm.mirrors.find?, ha]
  | offer id recipient role names hnone =>
    rw [run_query, hm.mirrors.offer?] at hnone
    exact hstep.undo_offer_cancel (Except.ok.inj hnone) now'
  | names id recipient names revoked hnone hall hcheck =>
    rw [run_query, hm.mirrors.offer?] at hnone
    exact hstep.undo_offer_withdraw (Except.ok.inj hnone) hall now'

/-- **Doing and undoing leaves no trace.**  When the first message of a pair is accepted in a
reachable store, the second one is then accepted from the same sender, at whatever time, and the
store is what it was before the first: so for a quantity that is added and subtracted, for a new
reporter who is appointed and dismissed, and for an offer that is made where there was none and then
cancelled, or withdrawn with all its names. -/
theorem undo_restores (h : Reachable s) (config : ModuleConfig)
    (hundoes : Undoes config.limits s first second) {sender : AccountId} {now : UInt64}
    {outcome : Outcome} {s' : Store}
    (hfirst : dispatch config ⟨sender, now, first⟩ s = (.ok outcome, s')) (now' : UInt64) :
    ∃ outcome', dispatch config ⟨sender, now', second⟩ s' = (.ok outcome', s) := by
  obtain ⟨σ, m, rfl, hm, hr⟩ := h.regular
  rcases dispatch_verdict config ⟨sender, now, first⟩ hm with
    ⟨_, σ', m', hcheck, hexecute, hdispatch, hm'⟩ | ⟨fault, hrefused⟩
  · obtain ⟨-, rfl⟩ := Prod.mk.inj (hfirst.symm.trans hdispatch)
    have hback := hundoes.step hm hr (step_of_execute hm.sound.wellFormed hexecute) now'
    obtain ⟨outcome', m'', hsecond, hm''⟩ :=
      dispatch_of_step hm' (hundoes.check hcheck now') hback
    exact ⟨outcome', by rw [hsecond, hm''.shows.ext hm.shows]⟩
  · exact nomatch hfirst.symm.trans hrefused

/-- An offer beside another one, withdrawn with a name more than it has. -/
theorem undo_restores_of_offer : ∃ s outcome,
    run {} [⟨⟨"alice"⟩, 1, .createAsset ⟨"tea"⟩ "Tea" 9 "kg" none []⟩,
      ⟨⟨"alice"⟩, 2, .createOffer ⟨"tea"⟩ ⟨"carol"⟩ .owner []⟩] .empty = s ∧
    dispatch {} ⟨⟨"alice"⟩, 4, .revokeOffer ⟨"tea"⟩ ⟨"bob"⟩ [⟨"batch"⟩, ⟨"lot"⟩, ⟨"grade"⟩]⟩
      (dispatch {} ⟨⟨"alice"⟩, 3,
        .createOffer ⟨"tea"⟩ ⟨"bob"⟩ .reporter [⟨"grade"⟩, ⟨"batch"⟩]⟩ s).2 = (.ok outcome, s) := by
  generalize hs : run {} _ .empty = s
  have hnone : (OfferBook.find? ⟨"tea"⟩ ⟨"bob"⟩).run s = .ok none := by
    rw [← hs]
    decide +kernel
  have hdone : (dispatch {} ⟨⟨"alice"⟩, 3,
      .createOffer ⟨"tea"⟩ ⟨"bob"⟩ .reporter [⟨"grade"⟩, ⟨"batch"⟩]⟩ s).1 =
      .ok (((Outcome.plain .createOffer ⟨"tea"⟩ ⟨"alice"⟩).withTag "recipient" "bob").withTag
        "role" "reporter") := by
    rw [← hs]
    decide +kernel
  have hreachable : Reachable s := hs ▸ Reachable.empty.run {} _
  obtain ⟨outcome, hrestored⟩ := undo_restores hreachable {}
    (.names ⟨"tea"⟩ ⟨"bob"⟩ [⟨"grade"⟩, ⟨"batch"⟩] [⟨"batch"⟩, ⟨"lot"⟩, ⟨"grade"⟩] hnone (by decide)
      (by decide +kernel))
    (Prod.mk.eta.symm.trans (congrArg (Prod.mk · _) hdone)) 4
  exact ⟨s, outcome, rfl, hrestored⟩

end Ledger

end Custody
