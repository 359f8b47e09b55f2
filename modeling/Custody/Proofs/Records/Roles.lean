import Custody.Proofs.Records.Steps

/-!
# Roles and offers

The **roles** in force on an asset are its owner and its reporters.  What a step can do to the roles
on one asset, and to the offer on one asset to one recipient, is said here once, with the message
that did it.

* `Records.RoleChange`, `Records.Step.roles`: what a step does to the roles on an asset.
* `Records.OfferChange`, `Records.Step.offers`: what it does to an offer.
-/

namespace Custody

/-- The roles in force on an asset. -/
structure Roles where
  owner : AccountId
  reporters : List Reporter

/-- The owner and the reporters of an asset. -/
def Asset.roles (a : Asset) : Roles := ⟨a.owner, a.reporters⟩

namespace Message

/-- The quantity that the message gives the asset when it makes it. -/
def issued? (c : AssetId) : Message → Option Nat
  | createAsset id _ quantity _ _ _ => if id = c then some quantity else none
  | _ => none

/-- The message decides whether the account is a reporter of the asset: it appoints or dismisses
the account, or the account accepts what it was offered. -/
def Decides (id : AssetId) (account : AccountId) : Message → Prop
  | createReporter i r _ => i = id ∧ r = account
  | answerOffer i r .accept => i = id ∧ r = account
  | revokeReporter i r => i = id ∧ r = account
  | _ => False

/-- The message offers a role on the asset to the recipient. -/
def Offers (id : AssetId) (recipient : AccountId) : Message → Prop
  | createOffer i r _ _ => i = id ∧ r = recipient
  | _ => False

/-- The message answers what the recipient was offered. -/
def Answers (id : AssetId) (recipient : AccountId) : Message → Prop
  | answerOffer i r _ => i = id ∧ r = recipient
  | _ => False

/-- The message withdraws the name from what the recipient was offered. -/
def Withdraws (id : AssetId) (recipient : AccountId) (name : PropertyName) : Message → Prop
  | revokeOffer i r names => i = id ∧ r = recipient ∧ name ∈ names
  | _ => False

end Message

namespace Records

variable {σ σ' : Records} {sender : AccountId} {now : UInt64} {message : Message}

/-! ### What is read off the assets -/

theorem map_asset?_put {γ : Type} {f : Asset → γ} {a p : Asset} (hp : σ.asset? a.id = some p)
    (hf : f a = f p) (id : AssetId) :
    ((σ.put a).asset? id).map f = (σ.asset? id).map f := by
  rw [asset?_put]
  split
  · next hid => rw [hid, hp, Option.map_some, Option.map_some, hf]
  · rfl

theorem map_asset?_foldl_consume {γ : Type} {f : Asset → γ} (hf : ∀ t, f (leftOf t) = f t.1)
    {taken : List (Asset × Nat)} (h : σ.Consumable taken) (id : AssetId) :
    ((taken.foldl consume σ).asset? id).map f = (σ.asset? id).map f := by
  induction taken generalizing σ with
  | nil => rfl
  | cons t rest ih =>
    have ht : σ.asset? (leftOf t).id = some t.1 := h.stored t List.mem_cons_self
    rw [List.foldl_cons, ih h.tail]
    exact map_asset?_put ht (hf t) id

/-! ### Roles -/

/-- What a step does to the roles on an asset, by its message. -/
inductive RoleChange (σ : Records) (sender : AccountId) (now : UInt64) (id : AssetId) :
    Message → Option Roles → Prop where
  | keep {message : Message} (hissued : message.issued? id = none)
      (hdecides : ∀ account, ¬ message.Decides id account) :
      RoleChange σ sender now id message ((σ.asset? id).map Asset.roles)
  /-- The asset is made. -/
  | make {message : Message} {quantity : Nat} (hfree : σ.asset? id = none)
      (hissued : message.issued? id = some quantity) :
      RoleChange σ sender now id message (some ⟨sender, []⟩)
  /-- The offered owner takes the asset over. -/
  | takeOver {a : Asset} {o : Offer} (ha : σ.asset? id = some a)
      (ho : σ.offer? id sender = some o) (howner : a.owner = o.issuer) (hrole : o.role = .owner) :
      RoleChange σ sender now id (.answerOffer id sender .accept) (some ⟨sender, []⟩)
  /-- The offered reporter joins. -/
  | join {a : Asset} {o : Offer} (ha : σ.asset? id = some a) (ho : σ.offer? id sender = some o)
      (howner : a.owner = o.issuer) (hrole : o.role = .reporter) :
      RoleChange σ sender now id (.answerOffer id sender .accept)
        (some (a.upsertReporter (Reporter.grant sender o.names now)).roles)
  | appoint {a : Asset} {reporter : AccountId} {names : List PropertyName}
      (ha : σ.asset? id = some a) (howner : a.owner = sender) :
      RoleChange σ sender now id (.createReporter id reporter names)
        (some (a.upsertReporter (Reporter.grant reporter names now)).roles)
  | dismiss {a : Asset} {reporter : AccountId} (ha : σ.asset? id = some a) :
      RoleChange σ sender now id (.revokeReporter id reporter)
        (some (a.removeReporter reporter).roles)

/-- A step that is not about roles stores a record with the roles of the previous one. -/
theorem RoleChange.keep_of_put {id : AssetId} {a p : Asset} (hissued : message.issued? id = none)
    (hdecides : ∀ account, ¬ message.Decides id account) (hp : σ.asset? a.id = some p)
    (hroles : a.roles = p.roles) :
    σ.RoleChange sender now id message (((σ.put a).asset? id).map Asset.roles) := by
  rw [map_asset?_put hp hroles]
  exact .keep hissued hdecides

/-- A step that stores a record with the roles that its message decides. -/
theorem RoleChange.of_put {τ : Records} {id i : AssetId} {a : Asset} (hid : a.id = i)
    (hsame : i = id → σ.RoleChange sender now id message (some a.roles))
    (hother : i ≠ id → σ.RoleChange sender now id message ((τ.asset? id).map Asset.roles)) :
    σ.RoleChange sender now id message (((τ.put a).asset? id).map Asset.roles) := by
  rw [asset?_put, hid]
  by_cases h : id = i
  · rw [if_pos h]
    exact hsame h.symm
  · rw [if_neg h]
    exact hother (Ne.symm h)

theorem granted_id (a : Asset) (recipient : AccountId) (o : Offer) (now : UInt64) :
    (granted a recipient o now).id = a.id := by
  rw [granted]
  cases o.role with
  | owner => rfl
  | reporter => rfl

theorem RoleChange.accept {id : AssetId} {a : Asset} {o : Offer} (ha : σ.asset? id = some a)
    (ho : σ.offer? id sender = some o) (howner : a.owner = o.issuer) :
    σ.RoleChange sender now id (.answerOffer id sender .accept)
      (some (granted a sender o now).roles) := by
  rw [granted]
  cases hrole : o.role with
  | owner => exact .takeOver ha ho howner hrole
  | reporter => exact .join ha ho howner hrole

/-- **What a step does to the roles on an asset.** -/
theorem Step.roles (h : σ.Step sender now message σ') (hσ : σ.WellFormed) (id : AssetId) :
    σ.RoleChange sender now id message ((σ'.asset? id).map Asset.roles) := by
  cases h with
  | @issue i name quantity unit properties hfree =>
    refine .of_put rfl ?_ fun hi => .keep (if_neg hi) fun _ => not_false
    rintro rfl
    exact .make hfree (if_pos rfl)
  | @split i name quantity unit parent properties p hfree hp hmutable howner hle =>
    obtain rfl := hσ.id_eq hp
    refine .of_put rfl ?_ fun hi => .keep_of_put (p := p) (if_neg hi) (fun _ => not_false) hp rfl
    rintro rfl
    exact .make hfree (if_pos rfl)
  | @add i amount a ha hmutable howner hamount =>
    exact .keep_of_put (p := a) rfl (fun _ => not_false) (hσ.asset?_id ha) rfl
  | @subtract i amount a ha hmutable howner hamount hle =>
    exact .keep_of_put (p := a) rfl (fun _ => not_false) (hσ.asset?_id ha) rfl
  | @compose i materials a taken ha hmutable howner hsome hpositive htakes =>
    obtain rfl := hσ.id_eq ha
    have hput := map_asset?_put (f := Asset.roles) (p := a)
      (a := { a with materials := Material.merge a.materials (Material.normalize materials) })
      (htakes.asset?_consumer.trans ha) rfl id
    rw [hput, map_asset?_foldl_consume (fun _ => rfl) htakes.consumable]
    exact .keep rfl fun _ => not_false
  | @write i batch a ha hmutable hsome hpermits =>
    exact .keep_of_put (p := a) rfl (fun _ => not_false) (hσ.asset?_id ha) rfl
  | @freeze i a ha hmutable howner =>
    exact .keep_of_put (p := a) rfl (fun _ => not_false) (hσ.asset?_id ha) rfl
  | offer ha hmutable howner hother hnames => exact .keep rfl fun _ => not_false
  | @decline i recipient response a o ha hmutable ho hresponse hsender =>
    refine .keep rfl ?_
    intro account h
    cases response with
    | accept => exact hresponse rfl
    | reject => exact h
    | cancel => exact h
  | @accept i a o ha hmutable ho howner =>
    have hid : (granted a sender o now).id = i := (granted_id a sender o now).trans (hσ.id_eq ha)
    refine .of_put hid ?_ fun hi => .keep rfl fun _ h => hi h.1
    rintro rfl
    exact .accept ha ho howner
  | withdraw ha hmutable howner ho hrole hsome hleft => exact .keep rfl fun _ => not_false
  | narrow ha hmutable howner ho hrole hsome hleft => exact .keep rfl fun _ => not_false
  | @appoint i reporter names a ha hmutable howner hother hsome =>
    obtain rfl := hσ.id_eq ha
    refine .of_put rfl ?_ fun hi => .keep rfl fun _ h => hi h.1
    rintro rfl
    exact .appoint ha howner
  | @dismiss i reporter a r ha hmutable howner hr =>
    obtain rfl := hσ.id_eq ha
    refine .of_put rfl ?_ fun hi => .keep rfl fun _ h => hi h.1
    rintro rfl
    exact .dismiss ha

/-- A step that changes the owner of an asset is the acceptance of the owner role by the new owner,
offered by the old one; no reporters remain. -/
theorem Step.owner_changed (h : σ.Step sender now message σ') (hσ : σ.WellFormed) {id : AssetId}
    {a b : Asset} (ha : σ.asset? id = some a) (hb : σ'.asset? id = some b)
    (hne : a.owner ≠ b.owner) :
    message = .answerOffer id b.owner .accept ∧ sender = b.owner ∧ b.reporters = [] ∧
      ∃ o, σ.offer? id b.owner = some o ∧ o.issuer = a.owner ∧ o.role = .owner := by
  have hkept : ∀ {roles : Roles}, some b.roles = some roles → roles.owner ≠ a.owner := by
    intro roles h howner
    exact hne ((congrArg Roles.owner (Option.some.inj h)).trans howner).symm
  have hchange := h.roles hσ id
  rw [hb, Option.map_some] at hchange
  generalize hx : some b.roles = x at hchange
  cases hchange with
  | keep hissued hdecides =>
    rw [ha] at hx
    exact absurd rfl (hkept hx)
  | make hfree hissued => exact nomatch hfree.symm.trans ha
  | @takeOver p o hp ho howner hrole =>
    obtain rfl := Option.some.inj (ha.symm.trans hp)
    obtain ⟨hb, hreporters⟩ := Roles.mk.inj (Option.some.inj hx)
    subst hb
    exact ⟨rfl, rfl, hreporters, o, ho, howner.symm, hrole⟩
  | join hp ho howner hrole =>
    obtain rfl := Option.some.inj (ha.symm.trans hp)
    exact absurd rfl (hkept hx)
  | appoint hp howner =>
    obtain rfl := Option.some.inj (ha.symm.trans hp)
    exact absurd rfl (hkept hx)
  | dismiss hp =>
    obtain rfl := Option.some.inj (ha.symm.trans hp)
    exact absurd rfl (hkept hx)

/-! ### Offers -/

/-- What a step does to the offer on an asset to a recipient, by its message. -/
inductive OfferChange (σ : Records) (sender : AccountId) (id : AssetId) (recipient : AccountId) :
    Message → Option Offer → Prop where
  | keep {message : Message} (hoffers : ¬ message.Offers id recipient)
      (hanswers : ¬ message.Answers id recipient)
      (hwithdraws : ∀ name, ¬ message.Withdraws id recipient name) :
      OfferChange σ sender id recipient message (σ.offer? id recipient)
  | offer {role : OfferRole} {names : List PropertyName} :
      OfferChange σ sender id recipient (.createOffer id recipient role names)
        (some (Offer.pending id sender recipient role names))
  | narrow {o : Offer} {names : List PropertyName} (ho : σ.offer? id recipient = some o) :
      OfferChange σ sender id recipient (.revokeOffer id recipient names)
        (some { o with names := o.names.filter fun n => !names.contains n })
  | remove {message : Message} : OfferChange σ sender id recipient message none

/-- A step that stores an offer which its message decides. -/
theorem OfferChange.of_hold {id i : AssetId} {recipient r : AccountId} {o : Offer}
    (hid : o.asset = i) (hrecipient : o.recipient = r)
    (hsame : i = id → r = recipient → σ.OfferChange sender id recipient message (some o))
    (hother : ¬ (i = id ∧ r = recipient) →
      σ.OfferChange sender id recipient message (σ.offer? id recipient)) :
    σ.OfferChange sender id recipient message ((σ.hold o).offer? id recipient) := by
  rw [offer?_hold, hid, hrecipient]
  by_cases h : id = i ∧ recipient = r
  · rw [if_pos h]
    exact hsame h.1.symm h.2.symm
  · rw [if_neg h]
    exact hother fun h' => h ⟨h'.1.symm, h'.2.symm⟩

/-- A step that removes an offer. -/
theorem OfferChange.of_drop {id i : AssetId} {recipient r : AccountId}
    (hother : ¬ (i = id ∧ r = recipient) →
      σ.OfferChange sender id recipient message (σ.offer? id recipient)) :
    σ.OfferChange sender id recipient message ((σ.drop i r).offer? id recipient) := by
  rw [offer?_drop]
  split
  · exact .remove
  · next h => exact hother fun h' => h ⟨h'.1.symm, h'.2.symm⟩

/-- **What a step does to an offer.** -/
theorem Step.offers (h : σ.Step sender now message σ') (hσ : σ.WellFormed) (id : AssetId)
    (recipient : AccountId) :
    σ.OfferChange sender id recipient message (σ'.offer? id recipient) := by
  cases h with
  | issue hfree => exact .keep not_false not_false fun _ => not_false
  | split hfree hp hmutable howner hle => exact .keep not_false not_false fun _ => not_false
  | add ha hmutable howner hamount => exact .keep not_false not_false fun _ => not_false
  | subtract ha hmutable howner hamount hle => exact .keep not_false not_false fun _ => not_false
  | compose ha hmutable howner hsome hpositive htakes =>
    rw [offer?_put, offer?_foldl_consume]
    exact .keep not_false not_false fun _ => not_false
  | write ha hmutable hsome hpermits => exact .keep not_false not_false fun _ => not_false
  | freeze ha hmutable howner =>
    rw [offer?_dropAll]
    split
    · exact .remove
    · exact .keep not_false not_false fun _ => not_false
  | offer ha hmutable howner hother hnames =>
    refine .of_hold rfl rfl ?_ fun hne => .keep hne not_false fun _ => not_false
    rintro rfl rfl
    exact .offer
  | decline ha hmutable ho hresponse hsender =>
    exact .of_drop fun hne => .keep not_false hne fun _ => not_false
  | accept ha hmutable ho howner =>
    exact .of_drop fun hne => .keep not_false hne fun _ => not_false
  | withdraw ha hmutable howner ho hrole hsome hleft =>
    exact .of_drop fun hne => .keep not_false not_false fun _ h => hne ⟨h.1, h.2.1⟩
  | narrow ha hmutable howner ho hrole hsome hleft =>
    obtain ⟨hid, hrecipient⟩ := hσ.offer_eq ho
    refine .of_hold hid hrecipient ?_ fun hne =>
      .keep not_false not_false fun _ h => hne ⟨h.1, h.2.1⟩
    rintro rfl rfl
    exact .narrow ho
  | appoint ha hmutable howner hother hsome => exact .keep not_false not_false fun _ => not_false
  | dismiss ha hmutable howner hr => exact .keep not_false not_false fun _ => not_false

end Records

end Custody
