import Custody.Proofs.Ledger.Provenance
import Custody.Proofs.Records.Authority

/-!
# Every change is authorized

An envelope that is applied changes the assets of a store, the offers on them and the balances only
as far as its sender has the right to: as the owner, as a reporter in the properties it was granted,
or as the recipient of what an owner has offered.

* `Proposed`: a pending offer by the owner of an asset.
* `Authorized`: what an envelope may have changed of an asset.
* `Ledger.changes_authorized`: **every change is authorized.**
-/

namespace Custody

/-! ### Rights over an asset -/

/-- What is settled about an asset when it is made. -/
structure Origin where
  id : AssetId
  name : String
  issuer : AccountId
  unit : String
  parent : Option AssetId
  root : AssetId

def Asset.origin (a : Asset) : Origin := ⟨a.id, a.name, a.issuer, a.unit, a.parent, a.root⟩

/-- In the store the owner of the asset offers a role on it to the recipient. -/
structure Proposed (s : Store) (a : Asset) (recipient : AccountId) (o : Offer) : Prop where
  found : (OfferBook.find? a.id recipient).run s = .ok (some o)
  pending : o.status = .pending
  issuer : o.issuer = a.owner

/-- Whatever an envelope, applied to a store, has changed of an asset, its sender had the right to
change it so. -/
structure Authorized (e : Envelope) (s : Store) (a b : Asset) : Prop where
  origin : b.origin = a.origin
  quantity : b.quantity ≠ a.quantity → a.owner = e.sender
  materials : b.materials ≠ a.materials → a.owner = e.sender
  isFinal : b.isFinal ≠ a.isFinal → a.owner = e.sender
  /-- Only an account that the owner offered the asset becomes its owner. -/
  owner : b.owner ≠ a.owner → b.owner = e.sender ∧ ∃ o, Proposed s a e.sender o ∧ o.role = .owner
  reporters : b.reporters ≠ a.reporters → a.owner = e.sender ∨
    e.message = .answerOffer a.id e.sender .accept ∧ ∃ o, Proposed s a e.sender o
  /-- No property disappears. -/
  kept : ∀ n, (a.property? n).isSome = true → (b.property? n).isSome = true
  written : ∀ n p, b.property? n = some p → a.property? n ≠ some p → a.owner = e.sender ∨
    ∃ r ∈ a.reporters, r.account = e.sender ∧ n ∈ r.names

namespace Authorized

variable {e : Envelope} {s : Store} {a b : Asset}

theorem refl (e : Envelope) (s : Store) (a : Asset) : Authorized e s a a where
  origin := rfl
  quantity hne := absurd rfl hne
  materials hne := absurd rfl hne
  isFinal hne := absurd rfl hne
  owner hne := absurd rfl hne
  reporters hne := absurd rfl hne
  kept _ h := h
  written _ _ hp hne := absurd hp hne

/-- An owner may change everything but the origin, the owner and the names of the properties. -/
theorem of_owner (howner : a.owner = e.sender) (horigin : b.origin = a.origin)
    (hsame : b.owner = a.owner) (hproperties : b.properties = a.properties) :
    Authorized e s a b where
  origin := horigin
  quantity _ := howner
  materials _ := howner
  isFinal _ := howner
  owner hne := absurd hsame hne
  reporters _ := Or.inl howner
  kept n h := by
    rw [Asset.property?, hproperties]
    exact h
  written _ _ _ _ := Or.inl howner

/-- What is laid over the properties of an asset, its sender may write. -/
theorem of_write {batch : List Property} (hasc : AscendingBy Property.name a.properties)
    (hpermits : ∀ p ∈ batch, a.permits e.sender (.write p.name) = true) :
    Authorized e s a { a with properties := Property.upsert a.properties batch } where
  origin := rfl
  quantity hne := absurd rfl hne
  materials hne := absurd rfl hne
  isFinal hne := absurd rfl hne
  owner hne := absurd rfl hne
  reporters hne := absurd rfl hne
  kept n h := by
    rw [Asset.property?, Property.find?_upsert hasc, Option.isSome_or]
    exact Bool.or_eq_true_iff.mpr (Or.inr h)
  written n p hp hne := by
    rw [Asset.property?, Property.find?_upsert hasc] at hp
    cases hq : batch.reverse.find? fun q => q.name == n with
    | none =>
      rw [hq] at hp
      exact absurd hp hne
    | some q =>
      have hname : q.name = n := by simpa using List.find?_some hq
      have hmem : q ∈ batch := List.mem_reverse.mp (List.mem_of_find?_eq_some hq)
      rw [← hname]
      exact Asset.right_of_permits_write (hpermits q hmem)

/-- The recipient of an offer by the owner may take the role. -/
theorem of_accept {o : Offer} (hmessage : e.message = .answerOffer a.id e.sender .accept)
    (ho : Proposed s a e.sender o) :
    Authorized e s a (Records.granted a e.sender o e.blockTime) := by
  obtain ⟨owner, reporters, heq, howner⟩ := Records.granted_eq a e.sender o e.blockTime
  rw [heq]
  exact {
    origin := rfl
    quantity := fun hne => absurd rfl hne
    materials := fun hne => absurd rfl hne
    isFinal := fun hne => absurd rfl hne
    owner := fun hne => ⟨(howner hne).1, o, ho, (howner hne).2⟩
    reporters := fun _ => Or.inr ⟨hmessage, o, ho⟩
    kept := fun _ h => h
    written := fun _ _ hp hne => absurd hp hne }

end Authorized

namespace Records

variable {σ : Records} {tr : List (Envelope × Store)}

/-- **Only pending offers are stored.** -/
theorem History.pending (h : History tr σ) {id : AssetId} {recipient : AccountId} {o : Offer}
    (ho : σ.offer? id recipient = some o) : o.status = .pending := by
  induction h generalizing o with
  | nil => exact nomatch ho
  | @snoc tr e σ σ' m h he hstep hm ih =>
    have hchange := hstep.offers h.sound.wellFormed id recipient
    rw [ho] at hchange
    generalize hx : some o = x at hchange
    generalize e.message = message at hchange
    cases hchange with
    | keep hoffers hanswers hwithdraws => exact ih hx.symm
    | offer =>
      obtain rfl := Option.some.inj hx
      rfl
    | narrow hp =>
      obtain rfl := Option.some.inj hx
      have hpending := ih hp
      exact hpending
    | remove => exact nomatch hx

end Records

namespace Ledger

open Records

variable {σ σ' : Records} {m m' : Contents} {tr : List (Envelope × Store)}

theorem belongs_of_stored (hm : σ.Pictured m) {id : AssetId} {owner : AccountId}
    (h : ∃ a, σ.asset? id = some a ∧ a.owner = owner) : Belongs (.ofContents m) id owner := by
  obtain ⟨a, ha, rfl⟩ := h
  exact belongs hm (congrArg (Option.map Asset.roles) ha)

theorem proposed (hm : σ.Pictured m) (h : History tr σ) {a : Asset} {recipient : AccountId}
    {o : Offer} (ho : σ.offer? a.id recipient = some o) (hissuer : o.issuer = a.owner) :
    Proposed (.ofContents m) a recipient o where
  found := by rw [run_query, hm.mirrors.offer?, ho]
  pending := h.pending ho
  issuer := hissuer

/-- **A step leaves an asset as its sender may have changed it.** -/
theorem authorized_of_step (hm : σ.Pictured m) (h : History tr σ) {e : Envelope}
    (hstep : σ.Step e.sender e.blockTime e.message σ') {id : AssetId} {a : Asset}
    (ha : σ.asset? id = some a) :
    ∃ b, σ'.asset? id = some b ∧ Authorized e (.ofContents m) a b := by
  obtain ⟨sender, now, message⟩ := e
  obtain rfl := hm.sound.wellFormed.id_eq ha
  have hchange : σ.AssetChange sender now a.id message _ := hstep.assets hm.sound.wellFormed a.id
  generalize σ'.asset? a.id = x at hchange
  cases hchange with
  | keep => exact ⟨a, ha, .refl _ _ a⟩
  | make htouched hfree hmutable => exact nomatch hfree.symm.trans ha
  | count htouched hb hmutable howner
  | compose hb hmutable howner
  | freeze hb hmutable howner
  | report htouched hb hmutable howner =>
    obtain rfl := Option.some.inj (ha.symm.trans hb)
    exact ⟨_, rfl, .of_owner howner rfl rfl rfl⟩
  | write hb hmutable hpermits =>
    obtain rfl := Option.some.inj (ha.symm.trans hb)
    exact ⟨_, rfl, .of_write (hm.sound.wellFormed.storable ha).ascending hpermits⟩
  | accept hb hmutable ho howner =>
    obtain rfl := Option.some.inj (ha.symm.trans hb)
    exact ⟨_, rfl, .of_accept rfl (proposed hm h ho howner.symm)⟩

/-- **Every change is authorized.**  When an envelope is applied after a run, every asset is still
there, changed as far as the sender had the right to change it.  An offer is made, replaced or
narrowed by the owner of its asset alone, and removed by its recipient, its issuer or that owner.
And a balance is changed by its own account, or as the sender accepts an asset that this account had
offered it. -/
theorem changes_authorized (config : ModuleConfig) (es : List Envelope) (e : Envelope)
    (outcome : Outcome) (s' : Store)
    (hdispatch : dispatch config e (run config es .empty) = (.ok outcome, s')) :
    (∀ id a, (Registry.find? id).run (run config es .empty) = .ok (some a) →
      a.id = id ∧ ∃ b, (Registry.find? id).run s' = .ok (some b) ∧
        Authorized e (run config es .empty) a b) ∧
    (∀ id recipient o, (OfferBook.find? id recipient).run s' = .ok (some o) →
      (OfferBook.find? id recipient).run (run config es .empty) ≠ .ok (some o) ∨
        e.message.Offers id recipient →
      Belongs (run config es .empty) id e.sender) ∧
    (∀ id recipient o,
      (OfferBook.find? id recipient).run (run config es .empty) = .ok (some o) →
      (OfferBook.find? id recipient).run s' = .ok none →
      e.sender = recipient ∨ e.sender = o.issuer ∨ Belongs (run config es .empty) id e.sender) ∧
    ∀ owner root, (Inventory.balance owner root).run s' ≠
        (Inventory.balance owner root).run (run config es .empty) →
      e.sender = owner ∨ ∃ a o, e.message = .answerOffer a.id e.sender .accept ∧
        (Registry.find? a.id).run (run config es .empty) = .ok (some a) ∧
        a.owner = owner ∧ a.root = root ∧
        Proposed (run config es .empty) a e.sender o ∧ o.role = .owner := by
  obtain ⟨σ, m, hrun, hm, hhistory⟩ := run_history config es
  rw [hrun] at hdispatch ⊢
  rcases dispatch_cases config e hm with
    ⟨outcome', m', σ', happlied, hm', he, hstep⟩ | ⟨fault, hrefused⟩
  · obtain ⟨-, rfl⟩ := Prod.mk.inj (happlied.symm.trans hdispatch)
    have hσ := hm.sound.wellFormed
    simp only [run_query, hm.mirrors.find?, hm'.mirrors.find?, hm.mirrors.offer?,
      hm'.mirrors.offer?, hm.mirrors.balance, hm'.mirrors.balance, Except.ok.injEq, ne_eq]
    refine ⟨?_, ?_, ?_, ?_⟩
    · intro id a ha
      exact ⟨hσ.id_eq ha, authorized_of_step hm hhistory hstep ha⟩
    · intro id recipient o ho hset
      exact belongs_of_stored hm (hstep.owner_of_offered hσ ho hset)
    · intro id recipient o ho hnone
      rcases hstep.right_of_removed hσ ho hnone with hright | hright | hright
      · exact Or.inl hright
      · exact Or.inr (Or.inl hright)
      · exact Or.inr (Or.inr (belongs_of_stored hm hright))
    · intro owner root hne
      rcases hstep.right_of_balance hσ hne with hright | ⟨a, o, hgives, howner, hroot⟩
      · exact Or.inl hright
      · exact Or.inr ⟨a, o, hgives.accepts, hgives.stored, howner, hroot,
          proposed hm hhistory hgives.offered hgives.issuer, hgives.role⟩
  · exact nomatch hrefused.symm.trans hdispatch

/-- An asset and a balance that the recipient of an offer changes with right. -/
theorem right_of_handover :
    (∃ b, (Registry.find? ⟨"grain"⟩).run
        (dispatch {} ⟨⟨"bob"⟩, 3, .answerOffer ⟨"grain"⟩ ⟨"bob"⟩ .accept⟩
          (run {} [⟨⟨"alice"⟩, 1, .createAsset ⟨"grain"⟩ "Grain" 5 "kg" none []⟩,
            ⟨⟨"alice"⟩, 2, .createOffer ⟨"grain"⟩ ⟨"bob"⟩ .owner []⟩] .empty)).2 = .ok (some b) ∧
      Authorized ⟨⟨"bob"⟩, 3, .answerOffer ⟨"grain"⟩ ⟨"bob"⟩ .accept⟩
        (run {} [⟨⟨"alice"⟩, 1, .createAsset ⟨"grain"⟩ "Grain" 5 "kg" none []⟩,
          ⟨⟨"alice"⟩, 2, .createOffer ⟨"grain"⟩ ⟨"bob"⟩ .owner []⟩] .empty)
        (Asset.fresh ⟨"grain"⟩ "Grain" ⟨"alice"⟩ 5 "kg") b) ∧
    ∃ a o, a.owner = ⟨"alice"⟩ ∧ a.root = ⟨"grain"⟩ ∧ o.role = .owner ∧
      Proposed (run {} [⟨⟨"alice"⟩, 1, .createAsset ⟨"grain"⟩ "Grain" 5 "kg" none []⟩,
        ⟨⟨"alice"⟩, 2, .createOffer ⟨"grain"⟩ ⟨"bob"⟩ .owner []⟩] .empty) a ⟨"bob"⟩ o := by
  have hdone : (dispatch {} ⟨⟨"bob"⟩, 3, .answerOffer ⟨"grain"⟩ ⟨"bob"⟩ .accept⟩
      (run {} [⟨⟨"alice"⟩, 1, .createAsset ⟨"grain"⟩ "Grain" 5 "kg" none []⟩,
        ⟨⟨"alice"⟩, 2, .createOffer ⟨"grain"⟩ ⟨"bob"⟩ .owner []⟩] .empty)).1 =
      .ok (((Outcome.plain .answerOffer ⟨"grain"⟩ ⟨"bob"⟩).withTag "recipient" "bob").withTag
        "status" "accepted") := by decide +kernel
  obtain ⟨hassets, -, -, hbalances⟩ := changes_authorized {} _ _ _ _
    (Prod.mk.eta.symm.trans (congrArg (Prod.mk · _) hdone))
  constructor
  · exact (hassets ⟨"grain"⟩ _ (by decide +kernel)).2
  · rcases hbalances ⟨"alice"⟩ ⟨"grain"⟩ (by decide +kernel) with hself | hgives
    · exact absurd hself (by decide)
    · obtain ⟨a, o, -, -, howner, hroot, hproposed, hrole⟩ := hgives
      exact ⟨a, o, howner, hroot, hrole, hproposed⟩

end Ledger

end Custody
