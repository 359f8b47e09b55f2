import Custody.Proofs.Records.Effects

/-!
# Changes are local

A message reads and writes nothing but the assets that it touches and the offers on them.  So on
records that agree on these it is answered in the same way, and leaves records that agree on them
again, whatever else there is; and what it does not touch it leaves as it was.

* `Records.AgreeOn`: records that say the same of a set of assets.
* `Records.SameOn`: the same verdict, and records that agree on a set of assets after it.
* `Records.execute_local`: **a message depends on what it touches alone.**
* `Records.dispatch_comm`: envelopes that touch nothing in common may change places.
-/

namespace Custody.Records

variable {σ τ : Records} {p q : AssetId → Prop} {α β γ : Type}

/-! ### Agreement -/

/-- Records that say the same of the assets in a set and of the offers on them. -/
structure AgreeOn (p : AssetId → Prop) (σ τ : Records) : Prop where
  asset? : ∀ {id}, p id → σ.asset? id = τ.asset? id
  offer? : ∀ {id}, p id → ∀ recipient, σ.offer? id recipient = τ.offer? id recipient

namespace AgreeOn

theorem refl (σ : Records) : AgreeOn p σ σ := ⟨fun _ => rfl, fun _ _ => rfl⟩

theorem symm (h : AgreeOn p σ τ) : AgreeOn p τ σ :=
  ⟨fun hid => (h.asset? hid).symm, fun hid r => (h.offer? hid r).symm⟩

theorem trans {υ : Records} (h : AgreeOn p σ τ) (h' : AgreeOn p τ υ) : AgreeOn p σ υ :=
  ⟨fun hid => (h.asset? hid).trans (h'.asset? hid),
    fun hid r => (h.offer? hid r).trans (h'.offer? hid r)⟩

theorem mono (h : AgreeOn p σ τ) (hp : ∀ id, q id → p id) : AgreeOn q σ τ :=
  ⟨fun hid => h.asset? (hp _ hid), fun hid => h.offer? (hp _ hid)⟩

theorem or (h : AgreeOn p σ τ) (h' : AgreeOn q σ τ) : AgreeOn (fun id => p id ∨ q id) σ τ :=
  ⟨fun hid => hid.elim h.asset? h'.asset?, fun hid => hid.elim h.offer? h'.offer?⟩

/-- Records that agree on a set and off it are equal. -/
theorem eq (hon : AgreeOn p σ τ) (hoff : AgreeOn (fun id => ¬ p id) σ τ) : σ = τ := by
  refine Records.ext (SortedMap.ext_get? fun id => ?_) (SortedMap.ext_get? fun entry => ?_)
  · by_cases hid : p id
    · exact hon.asset? hid
    · exact hoff.asset? hid
  · by_cases hid : p entry.asset
    · exact hon.offer? hid entry.account
    · exact hoff.offer? hid entry.account

/-! ### Readings -/

theorem get (h : AgreeOn p σ τ) {id : AssetId} (hid : p id) : σ.get id = τ.get id := by
  rw [Records.get, Records.get, h.asset? hid]

theorem getOffer (h : AgreeOn p σ τ) {id : AssetId} (hid : p id) (recipient : AccountId) :
    σ.getOffer id recipient = τ.getOffer id recipient := by
  rw [Records.getOffer, Records.getOffer, h.offer? hid]

theorem forChange (h : AgreeOn p σ τ) {id : AssetId} (hid : p id) (amount : Nat)
    (caller : AccountId) (action : Action) :
    σ.forChange id amount caller action = τ.forChange id amount caller action := by
  rw [Records.forChange, Records.forChange, h.get hid]

theorem component (h : AgreeOn p σ τ) {m : Material} (hm : p m.component) (consumer : AssetId)
    (caller : AccountId) : σ.component consumer caller m = τ.component consumer caller m := by
  rw [Records.component, Records.component, h.asset? hm]

/-- The components of a batch are found alike. -/
theorem components (h : AgreeOn p σ τ) {demand : List Material}
    (hdemand : ∀ m ∈ demand, p m.component) (consumer : AssetId) (caller : AccountId) :
    demand.mapM (σ.component consumer caller) = demand.mapM (τ.component consumer caller) := by
  induction demand with
  | nil => rfl
  | cons m rest ih =>
    rw [List.mapM_cons, List.mapM_cons, h.component (hdemand m List.mem_cons_self),
      ih fun n hn => hdemand n (List.mem_cons_of_mem _ hn)]

/-! ### Changes -/

theorem put (h : AgreeOn p σ τ) (a : Asset) : AgreeOn p (σ.put a) (τ.put a) where
  asset? hid := by rw [asset?_put, asset?_put, h.asset? hid]
  offer? hid recipient := by rw [offer?_put, offer?_put, h.offer? hid]

theorem hold (h : AgreeOn p σ τ) (o : Offer) : AgreeOn p (σ.hold o) (τ.hold o) where
  asset? hid := by rw [asset?_hold, asset?_hold, h.asset? hid]
  offer? hid recipient := by rw [offer?_hold, offer?_hold, h.offer? hid]

theorem drop (h : AgreeOn p σ τ) (id : AssetId) (recipient : AccountId) :
    AgreeOn p (σ.drop id recipient) (τ.drop id recipient) where
  asset? hid := by rw [asset?_drop, asset?_drop, h.asset? hid]
  offer? hid r := by rw [offer?_drop, offer?_drop, h.offer? hid]

theorem dropAll (h : AgreeOn p σ τ) (id : AssetId) : AgreeOn p (σ.dropAll id) (τ.dropAll id) where
  asset? hid := h.asset? hid
  offer? hid recipient := by rw [offer?_dropAll, offer?_dropAll, h.offer? hid]

theorem foldl_consume (h : AgreeOn p σ τ) (taken : List (Asset × Nat)) :
    AgreeOn p (taken.foldl consume σ) (taken.foldl consume τ) := by
  induction taken generalizing σ τ with
  | nil => exact h
  | cons t rest ih => exact ih (h.put (leftOf t))

end AgreeOn

/-! ### The same verdict -/

/-- The same verdict on two changes, and records that agree on a set of assets after them. -/
inductive SameOn (p : AssetId → Prop) : Verdict (α × Records) → Verdict (α × Records) → Prop
  | ok {a : α} {σ τ : Records} (h : AgreeOn p σ τ) : SameOn p (.ok (a, σ)) (.ok (a, τ))
  | error (e : Fault) : SameOn p (.error e) (.error e)

namespace SameOn

/-- Both go on with what both have found. -/
theorem read {x y : Verdict γ} {f g : γ → Verdict (α × Records)} (hxy : x = y)
    (h : ∀ c, SameOn p (f c) (g c)) : SameOn p (x >>= f) (y >>= g) := by
  subst hxy
  cases x with
  | ok c => exact h c
  | error e => exact .error e

/-- Both go on after the same check. -/
theorem known (x : Verdict γ) {f g : γ → Verdict (α × Records)} (h : ∀ c, SameOn p (f c) (g c)) :
    SameOn p (x >>= f) (x >>= g) := read rfl h

theorem bind {x y : Verdict (α × Records)} {f g : α × Records → Verdict (β × Records)}
    (h : SameOn p x y) (hf : ∀ a σ τ, AgreeOn p σ τ → SameOn p (f (a, σ)) (g (a, τ))) :
    SameOn p (x >>= f) (y >>= g) := by
  cases h with
  | ok h => exact hf _ _ _ h
  | error e => exact .error e

end SameOn

/-! ### Messages -/

section

variable (h : AgreeOn p σ τ)

include h

theorem createAsset_local {id : AssetId} (hid : p id) {parent : Option AssetId}
    (hparent : ∀ i, parent = some i → p i) (name : String) (quantity : Nat) (unit : String)
    (properties : List Property) (sender : AccountId) :
    SameOn p (σ.createAsset id name quantity unit parent properties sender)
      (τ.createAsset id name quantity unit parent properties sender) := by
  rw [createAsset, createAsset, h.asset? hid]
  split
  · exact .error _
  · refine .known _ fun _ => ?_
    cases parent with
    | none => exact .ok (h.put _)
    | some i =>
      exact .read (h.get (hparent i rfl)) fun a => .known _ fun _ => .known _ fun _ =>
        .known _ fun _ => .ok ((h.put _).put _)

theorem finalize_local {id : AssetId} (hid : p id) (sender : AccountId) :
    SameOn p (σ.finalize id sender) (τ.finalize id sender) :=
  .read (h.get hid) fun _ => .known _ fun _ => .known _ fun _ => .ok ((h.put _).dropAll id)

theorem updateProperties_local {id : AssetId} (hid : p id) (batch : List Property)
    (caller : AccountId) :
    SameOn p (σ.updateProperties id batch caller) (τ.updateProperties id batch caller) :=
  .read (h.get hid) fun _ => .known _ fun _ => .known _ fun _ => .known _ fun _ =>
    .known _ fun _ => .ok (h.put _)

theorem addQuantity_local {id : AssetId} (hid : p id) (amount : Nat) (caller : AccountId) :
    SameOn p (σ.addQuantity id amount caller) (τ.addQuantity id amount caller) :=
  .read (h.forChange hid amount caller .addQuantity) fun _ => .ok (h.put _)

theorem subtractQuantity_local {id : AssetId} (hid : p id) (amount : Nat) (caller : AccountId) :
    SameOn p (σ.subtractQuantity id amount caller) (τ.subtractQuantity id amount caller) :=
  .read (h.forChange hid amount caller .subtractQuantity) fun _ => .known _ fun _ => .ok (h.put _)

theorem addMaterials_local {id : AssetId} (hid : p id) {materials : List Material}
    (hmaterials : ∀ i ∈ materials.map Material.component, p i) (caller : AccountId) :
    SameOn p (σ.addMaterials id materials caller) (τ.addMaterials id materials caller) := by
  -- A batch is consumed by its totals, which name the same components.
  have hdemand : ∀ m ∈ Material.normalize materials, p m.component := fun m hm =>
    hmaterials _ ((Material.mem_components_normalize materials).mp
      (List.mem_map_of_mem (f := Material.component) hm))
  exact .read (h.get hid) fun _ => .known _ fun _ => .known _ fun _ => .known _ fun _ =>
    .known _ fun _ => .read (h.components hdemand id caller) fun _ =>
    .ok ((h.foldl_consume _).put _)

theorem createOffer_local {id : AssetId} (hid : p id) (recipient : AccountId) (role : OfferRole)
    (names : List PropertyName) (issuer : AccountId) :
    SameOn p (σ.createOffer id recipient role names issuer)
      (τ.createOffer id recipient role names issuer) :=
  .read (h.get hid) fun _ => .known _ fun _ => .known _ fun _ => .known _ fun _ =>
    .known _ fun _ => .ok (h.hold _)

theorem accept_local (id : AssetId) (recipient : AccountId) (a : Asset) (o : Offer)
    (now : UInt64) :
    SameOn p (σ.accept id recipient a o now) (τ.accept id recipient a o now) :=
  .known _ fun _ => .ok (h.put _)

theorem answerOffer_local {id : AssetId} (hid : p id) (recipient : AccountId)
    (response : Response) (respondent : AccountId) (now : UInt64) :
    SameOn p (σ.answerOffer id recipient response respondent now)
      (τ.answerOffer id recipient response respondent now) := by
  refine .read (h.get hid) fun a => .known _ fun _ => .read (h.getOffer hid recipient) fun o =>
    .known _ fun _ => ?_
  dsimp only
  split
  · exact (accept_local h id recipient a o now).bind fun _ _ _ h => .ok (h.drop id recipient)
  · exact .ok (h.drop id recipient)

theorem revokeOffer_local {id : AssetId} (hid : p id) (recipient : AccountId)
    (names : List PropertyName) (issuer : AccountId) :
    SameOn p (σ.revokeOffer id recipient names issuer)
      (τ.revokeOffer id recipient names issuer) := by
  refine .read (h.get hid) fun _ => .known _ fun _ => .known _ fun _ =>
    .read (h.getOffer hid recipient) fun o => .known _ fun _ => .known _ fun _ => ?_
  simp only
  split
  · exact .ok (h.drop id recipient)
  · exact .ok (h.hold _)

theorem createReporter_local {id : AssetId} (hid : p id) (reporter : AccountId)
    (names : List PropertyName) (caller : AccountId) (now : UInt64) :
    SameOn p (σ.createReporter id reporter names caller now)
      (τ.createReporter id reporter names caller now) :=
  .read (h.get hid) fun _ => .known _ fun _ => .known _ fun _ => .known _ fun _ =>
    .known _ fun _ => .ok (h.put _)

theorem revokeReporter_local {id : AssetId} (hid : p id) (reporter : AccountId)
    (caller : AccountId) :
    SameOn p (σ.revokeReporter id reporter caller) (τ.revokeReporter id reporter caller) :=
  .read (h.get hid) fun _ => .known _ fun _ => .known _ fun _ => .known _ fun _ => .ok (h.put _)

end

/-- **A message depends on what it touches alone.** -/
theorem execute_local {e : Envelope} (h : AgreeOn (· ∈ e.message.touched) σ τ) :
    SameOn (· ∈ e.message.touched) (σ.execute e) (τ.execute e) := by
  obtain ⟨sender, now, message⟩ := e
  have hasset : message.asset ∈ message.touched := by cases message <;> exact List.mem_cons_self
  cases message with
  | createAsset id name quantity unit parent properties =>
    refine (createAsset_local h hasset ?_ name quantity unit properties sender).bind
      fun _ _ _ h => .ok h
    rintro i rfl
    exact List.mem_cons_of_mem _ List.mem_cons_self
  | addQuantity asset amount =>
    exact (addQuantity_local h hasset amount sender).bind fun _ _ _ h => .ok h
  | subtractQuantity asset amount =>
    exact (subtractQuantity_local h hasset amount sender).bind fun _ _ _ h => .ok h
  | addMaterials asset materials =>
    exact (addMaterials_local h hasset (fun i hi => List.mem_cons_of_mem _ hi) sender).bind
      fun _ _ _ h => .ok h
  | updateProperties asset properties =>
    exact (updateProperties_local h hasset properties sender).bind fun _ _ _ h => .ok h
  | finalize asset => exact (finalize_local h hasset sender).bind fun _ _ _ h => .ok h
  | createOffer asset recipient role names =>
    exact (createOffer_local h hasset recipient role names sender).bind fun _ _ _ h => .ok h
  | answerOffer asset recipient response =>
    exact (answerOffer_local h hasset recipient response sender now).bind fun _ _ _ h => .ok h
  | revokeOffer asset recipient names =>
    exact (revokeOffer_local h hasset recipient names sender).bind fun _ _ _ h => .ok h
  | createReporter asset reporter names =>
    exact (createReporter_local h hasset reporter names sender now).bind fun _ _ _ h => .ok h
  | revokeReporter asset reporter =>
    exact (revokeReporter_local h hasset reporter sender).bind fun _ _ _ h => .ok h

/-! ### Envelopes -/

variable (config : ModuleConfig)

/-- On records that agree on what an envelope touches, the verdict on it is the same, and so are the
touched assets after it. -/
theorem dispatch_local {e : Envelope} (h : AgreeOn (· ∈ e.message.touched) σ τ) :
    (σ.dispatch config e).1 = (τ.dispatch config e).1 ∧
      AgreeOn (· ∈ e.message.touched) (σ.dispatch config e).2 (τ.dispatch config e).2 := by
  rw [dispatch, dispatch]
  cases e.check config.limits with
  | error fault => exact ⟨rfl, h⟩
  | ok u =>
    have hsame := execute_local h
    generalize σ.execute e = x, τ.execute e = y at hsame ⊢
    cases hsame with
    | ok h => exact ⟨rfl, h⟩
    | error fault => exact ⟨rfl, h⟩

/-- An envelope leaves what it does not touch as it was. -/
theorem dispatch_frame (hσ : σ.WellFormed) (e : Envelope) :
    AgreeOn (· ∉ e.message.touched) (σ.dispatch config e).2 σ := by
  rw [dispatch]
  cases e.check config.limits with
  | error fault => exact .refl σ
  | ok u =>
    cases hexecute : σ.execute e with
    | error fault => exact .refl σ
    | ok x =>
      have hstep := step_of_execute hσ hexecute
      exact ⟨fun hid => hstep.asset?_of_untouched hσ hid,
        fun hid => hstep.offer?_of_untouched hσ hid⟩

/-- An envelope is answered after one that touches nothing in common with it as it would be before,
and the assets that it touches are left alike. -/
theorem dispatch_after (hσ : σ.WellFormed) {e e' : Envelope}
    (hapart : ∀ id ∈ e.message.touched, id ∉ e'.message.touched) :
    ((σ.dispatch config e').2.dispatch config e).1 = (σ.dispatch config e).1 ∧
      AgreeOn (· ∈ e.message.touched) ((σ.dispatch config e').2.dispatch config e).2
        (σ.dispatch config e).2 :=
  dispatch_local config ((dispatch_frame config hσ e').mono hapart)

/-- **Envelopes that touch nothing in common may change places.** -/
theorem dispatch_comm (hσ : σ.WellFormed) {e e' : Envelope}
    (hapart : ∀ id ∈ e.message.touched, id ∉ e'.message.touched)
    (h : (σ.dispatch config e).2.WellFormed) (h' : (σ.dispatch config e').2.WellFormed) :
    ((σ.dispatch config e).2.dispatch config e').2 =
      ((σ.dispatch config e').2.dispatch config e).2 := by
  have hapart' : ∀ id ∈ e'.message.touched, id ∉ e.message.touched :=
    fun id hid' hid => hapart id hid hid'
  have hframe := dispatch_frame config h e'
  have hframe' := dispatch_frame config h' e
  -- What only one of the two touches is left alone by the other; what neither touches, by both.
  refine AgreeOn.eq (p := fun id => id ∈ e.message.touched ∨ id ∈ e'.message.touched)
    (.or ?_ ?_) ?_
  · exact (hframe.mono hapart).trans (dispatch_after config hσ hapart).2.symm
  · exact (dispatch_after config hσ hapart').2.trans (hframe'.mono hapart').symm
  · have houter := (hframe.mono fun id hid => mt Or.inr hid).trans
      ((dispatch_frame config hσ e).mono fun id hid => mt Or.inl hid)
    have houter' := (hframe'.mono fun id hid => mt Or.inl hid).trans
      ((dispatch_frame config hσ e').mono fun id hid => mt Or.inr hid)
    exact houter.trans houter'.symm

end Custody.Records
