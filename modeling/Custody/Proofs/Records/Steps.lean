import Custody.Proofs.Records.Consumption

/-!
# What a step can do

Everything that a message that is applied can do to the records, with everything that its checks
have made sure of.  Later proofs go by the cases of `Step` and never open a change again.

* `Records.Step`: the steps, one constructor for each way to apply a message.
* `Records.step_of_execute`: a message that is applied makes a step.
-/

namespace Custody.Records

/-- A fresh asset with properties. -/
def freshAsset (id : AssetId) (name : String) (quantity : Nat) (unit : String)
    (properties : List Property) (sender : AccountId) : Asset :=
  { Asset.fresh id name sender quantity unit with properties := Property.normalize properties }

/-- An asset that is split off a parent. -/
def splitFrom (parent root : AssetId) (a : Asset) : Asset :=
  { a with parent := some parent, root := root }

/-- A step by a sender at a block time, for a message. -/
inductive Step (σ : Records) (sender : AccountId) (now : UInt64) : Message → Records → Prop where
  /-- A new asset with a quantity of its own. -/
  | issue {id : AssetId} {name : String} {quantity : Nat} {unit : String}
      {properties : List Property} (hfree : σ.asset? id = none) :
      Step σ sender now (.createAsset id name quantity unit none properties)
        (σ.put (freshAsset id name quantity unit properties sender))
  /-- A new asset with a quantity split off that of its parent. -/
  | split {id : AssetId} {name : String} {quantity : Nat} {unit : String} {parent : AssetId}
      {properties : List Property} {p : Asset} (hfree : σ.asset? id = none)
      (hp : σ.asset? parent = some p) (hmutable : p.isFinal = false) (howner : p.owner = sender)
      (hle : quantity ≤ p.quantity) :
      Step σ sender now (.createAsset id name quantity unit (some parent) properties)
        ((σ.put (leftOf (p, quantity))).put
          (splitFrom parent p.root (freshAsset id name quantity unit properties sender)))
  | add {id : AssetId} {amount : Nat} {a : Asset} (ha : σ.asset? id = some a)
      (hmutable : a.isFinal = false) (howner : a.owner = sender) (hamount : amount ≠ 0) :
      Step σ sender now (.addQuantity id amount)
        (σ.put { a with quantity := a.quantity + amount })
  | subtract {id : AssetId} {amount : Nat} {a : Asset} (ha : σ.asset? id = some a)
      (hmutable : a.isFinal = false) (howner : a.owner = sender) (hamount : amount ≠ 0)
      (hle : amount ≤ a.quantity) :
      Step σ sender now (.subtractQuantity id amount) (σ.put (leftOf (a, amount)))
  /-- Materials are consumed into an asset. -/
  | compose {id : AssetId} {materials : List Material} {a : Asset} {taken : List (Asset × Nat)}
      (ha : σ.asset? id = some a) (hmutable : a.isFinal = false) (howner : a.owner = sender)
      (hsome : materials ≠ []) (hpositive : ∀ m ∈ materials, m.quantity ≠ 0)
      (htakes : σ.Takes id sender (Material.normalize materials) taken) :
      Step σ sender now (.addMaterials id materials)
        ((taken.foldl consume σ).put
          { a with materials := Material.merge a.materials (Material.normalize materials) })
  /-- Properties are laid over those of an asset. -/
  | write {id : AssetId} {batch : List Property} {a : Asset} (ha : σ.asset? id = some a)
      (hmutable : a.isFinal = false) (hsome : batch ≠ [])
      (hpermits : ∀ p ∈ batch, a.permits sender (.write p.name) = true) :
      Step σ sender now (.updateProperties id batch)
        (σ.put { a with properties := Property.upsert a.properties batch })
  | freeze {id : AssetId} {a : Asset} (ha : σ.asset? id = some a) (hmutable : a.isFinal = false)
      (howner : a.owner = sender) :
      Step σ sender now (.finalize id) ((σ.put { a with isFinal := true }).dropAll id)
  | offer {id : AssetId} {recipient : AccountId} {role : OfferRole} {names : List PropertyName}
      {a : Asset} (ha : σ.asset? id = some a) (hmutable : a.isFinal = false)
      (howner : a.owner = sender) (hother : recipient ≠ sender)
      (hnames : role = .reporter → names ≠ []) :
      Step σ sender now (.createOffer id recipient role names)
        (σ.hold (Offer.pending id sender recipient role names))
  /-- An offer is rejected or cancelled. -/
  | decline {id : AssetId} {recipient : AccountId} {response : Response} {a : Asset} {o : Offer}
      (ha : σ.asset? id = some a) (hmutable : a.isFinal = false)
      (ho : σ.offer? id recipient = some o) (hresponse : response ≠ .accept)
      (hsender : o.mayAnswer sender response = true) :
      Step σ sender now (.answerOffer id recipient response) (σ.drop id recipient)
  /-- The recipient takes the role that the present owner offers. -/
  | accept {id : AssetId} {a : Asset} {o : Offer} (ha : σ.asset? id = some a)
      (hmutable : a.isFinal = false) (ho : σ.offer? id sender = some o)
      (howner : a.owner = o.issuer) :
      Step σ sender now (.answerOffer id sender .accept)
        ((σ.put (granted a sender o now)).drop id sender)
  /-- All names of an offer are withdrawn. -/
  | withdraw {id : AssetId} {recipient : AccountId} {names : List PropertyName} {a : Asset}
      {o : Offer} (ha : σ.asset? id = some a) (hmutable : a.isFinal = false)
      (howner : a.owner = sender) (ho : σ.offer? id recipient = some o) (hrole : o.role = .reporter)
      (hsome : names ≠ []) (hleft : o.names.filter (fun n => !names.contains n) = []) :
      Step σ sender now (.revokeOffer id recipient names) (σ.drop id recipient)
  /-- Some names of an offer are withdrawn. -/
  | narrow {id : AssetId} {recipient : AccountId} {names : List PropertyName} {a : Asset}
      {o : Offer} (ha : σ.asset? id = some a) (hmutable : a.isFinal = false)
      (howner : a.owner = sender) (ho : σ.offer? id recipient = some o) (hrole : o.role = .reporter)
      (hsome : names ≠ []) (hleft : o.names.filter (fun n => !names.contains n) ≠ []) :
      Step σ sender now (.revokeOffer id recipient names)
        (σ.hold { o with names := o.names.filter fun n => !names.contains n })
  | appoint {id : AssetId} {reporter : AccountId} {names : List PropertyName} {a : Asset}
      (ha : σ.asset? id = some a) (hmutable : a.isFinal = false) (howner : a.owner = sender)
      (hother : reporter ≠ a.owner) (hsome : names ≠ []) :
      Step σ sender now (.createReporter id reporter names)
        (σ.put (a.upsertReporter (Reporter.grant reporter names now)))
  | dismiss {id : AssetId} {reporter : AccountId} {a : Asset} {r : Reporter}
      (ha : σ.asset? id = some a) (hmutable : a.isFinal = false) (howner : a.owner = sender)
      (hr : a.reporter? reporter = some r) :
      Step σ sender now (.revokeReporter id reporter) (σ.put (a.removeReporter reporter))

variable {σ σ' : Records}

/-! ### Messages that are applied -/

theorem createAsset_eq_ok {id : AssetId} {name : String} {quantity : Nat} {unit : String}
    {parent : Option AssetId} {properties : List Property} {sender : AccountId}
    {p : Asset × Records} :
    σ.createAsset id name quantity unit parent properties sender = .ok p ↔
      σ.asset? id = none ∧ (∀ p ∈ properties, p.value.check = .ok ()) ∧
      match parent with
      | none => (freshAsset id name quantity unit properties sender,
          σ.put (freshAsset id name quantity unit properties sender)) = p
      | some parent => ∃ a, σ.asset? parent = some a ∧ a.isFinal = false ∧ a.owner = sender ∧
          quantity ≤ a.quantity ∧
          (splitFrom parent a.root (freshAsset id name quantity unit properties sender),
            (σ.put (leftOf (a, quantity))).put
              (splitFrom parent a.root (freshAsset id name quantity unit properties sender))) =
            p := by
  cases hfree : σ.asset? id with
  | some a => simp [createAsset, hfree]
  | none =>
    cases parent <;>
      simp only [createAsset, hfree, Option.isSome_none, Bool.false_eq_true, if_false, true_and,
        Verdict.bind_eq_ok, Verdict.pure_eq_ok, forM_eq_ok, require_eq_ok, decide_eq_true_iff,
        Asset.checkMutable_eq_ok, exists_const, get_eq_ok, Asset.isOwnedBy_iff] <;>
      rfl

theorem step_of_createAsset {id : AssetId} {name : String} {quantity : Nat} {unit : String}
    {parent : Option AssetId} {properties : List Property} {sender : AccountId} {a : Asset}
    (h : σ.createAsset id name quantity unit parent properties sender = .ok (a, σ'))
    (now : UInt64) :
    σ.Step sender now (.createAsset id name quantity unit parent properties) σ' := by
  obtain ⟨hfree, -, h⟩ := createAsset_eq_ok.mp h
  cases parent with
  | none =>
    obtain ⟨-, rfl⟩ := Prod.mk.inj h
    exact .issue hfree
  | some parent =>
    obtain ⟨p, hp, hmutable, howner, hle, h⟩ := h
    obtain ⟨-, rfl⟩ := Prod.mk.inj h
    exact .split hfree hp hmutable howner hle

theorem step_of_addQuantity {id : AssetId} {amount : Nat} {sender : AccountId} {a : Asset}
    (h : σ.addQuantity id amount sender = .ok (a, σ')) (now : UInt64) :
    σ.Step sender now (.addQuantity id amount) σ' := by
  obtain ⟨b, hb, hmutable, hamount, howner, h⟩ := addQuantity_eq_ok.mp h
  obtain ⟨-, rfl⟩ := Prod.mk.inj h
  exact .add hb hmutable howner hamount

theorem step_of_subtractQuantity {id : AssetId} {amount : Nat} {sender : AccountId} {a : Asset}
    (h : σ.subtractQuantity id amount sender = .ok (a, σ')) (now : UInt64) :
    σ.Step sender now (.subtractQuantity id amount) σ' := by
  obtain ⟨b, hb, hmutable, hamount, howner, hle, h⟩ := subtractQuantity_eq_ok.mp h
  obtain ⟨-, rfl⟩ := Prod.mk.inj h
  exact .subtract hb hmutable howner hamount hle

theorem step_of_addMaterials (hσ : σ.WellFormed) {id : AssetId} {materials : List Material}
    {sender : AccountId} {a : Asset} (h : σ.addMaterials id materials sender = .ok (a, σ'))
    (now : UInt64) : σ.Step sender now (.addMaterials id materials) σ' := by
  obtain ⟨b, taken, hb, hmutable, howner, hsome, hpositive, htakes, rfl, rfl⟩ :=
    (addMaterials_eq_ok hσ).mp h
  exact .compose hb hmutable howner hsome hpositive htakes

theorem step_of_updateProperties {id : AssetId} {batch : List Property} {sender : AccountId}
    {a : Asset} (h : σ.updateProperties id batch sender = .ok (a, σ')) (now : UInt64) :
    σ.Step sender now (.updateProperties id batch) σ' := by
  obtain ⟨b, hb, hmutable, hsome, -, hpermits, h⟩ := updateProperties_eq_ok.mp h
  obtain ⟨-, rfl⟩ := Prod.mk.inj h
  exact .write hb hmutable hsome hpermits

theorem step_of_finalize {id : AssetId} {sender : AccountId} {a : Asset}
    (h : σ.finalize id sender = .ok (a, σ')) (now : UInt64) :
    σ.Step sender now (.finalize id) σ' := by
  obtain ⟨b, hb, hmutable, howner, h⟩ := finalize_eq_ok.mp h
  obtain ⟨-, rfl⟩ := Prod.mk.inj h
  exact .freeze hb hmutable howner

theorem step_of_createOffer {id : AssetId} {recipient : AccountId} {role : OfferRole}
    {names : List PropertyName} {sender : AccountId} {o : Offer}
    (h : σ.createOffer id recipient role names sender = .ok (o, σ')) (now : UInt64) :
    σ.Step sender now (.createOffer id recipient role names) σ' := by
  obtain ⟨b, hb, hmutable, howner, hother, hnames, h⟩ := createOffer_eq_ok.mp h
  obtain ⟨-, rfl⟩ := Prod.mk.inj h
  exact .offer hb hmutable howner hother hnames

theorem step_of_answerOffer (hσ : σ.WellFormed) {id : AssetId} {recipient : AccountId}
    {response : Response} {sender : AccountId} {now : UInt64} {answer : Ledger.Answer}
    (h : σ.answerOffer id recipient response sender now = .ok (answer, σ')) :
    σ.Step sender now (.answerOffer id recipient response) σ' := by
  obtain ⟨a, ha, hmutable, o, ho, hsender, h⟩ := answerOffer_eq_ok.mp h
  by_cases haccept : response = .accept
  · subst haccept
    rw [if_pos rfl] at h
    obtain ⟨howner, h⟩ := h
    obtain ⟨-, rfl⟩ := Prod.mk.inj h
    have hrecipient : recipient = sender :=
      (hσ.offer_eq ho).2.symm.trans (Offer.mayAnswer_accept_iff.mp hsender)
    subst hrecipient
    exact .accept ha hmutable ho howner
  · rw [if_neg haccept] at h
    obtain ⟨-, rfl⟩ := Prod.mk.inj h
    exact .decline ha hmutable ho haccept hsender

theorem step_of_revokeOffer {id : AssetId} {recipient : AccountId} {names : List PropertyName}
    {sender : AccountId} {left : Option Offer}
    (h : σ.revokeOffer id recipient names sender = .ok (left, σ')) (now : UInt64) :
    σ.Step sender now (.revokeOffer id recipient names) σ' := by
  obtain ⟨a, ha, hmutable, howner, o, ho, hsome, hrole, h⟩ := revokeOffer_eq_ok.mp h
  by_cases hleft : (o.names.filter fun n => !names.contains n) = []
  · rw [if_pos hleft] at h
    obtain ⟨-, rfl⟩ := Prod.mk.inj h
    exact .withdraw ha hmutable howner ho hrole hsome hleft
  · rw [if_neg hleft] at h
    obtain ⟨-, rfl⟩ := Prod.mk.inj h
    exact .narrow ha hmutable howner ho hrole hsome hleft

theorem step_of_createReporter {id : AssetId} {reporter : AccountId} {names : List PropertyName}
    {sender : AccountId} {now : UInt64} {a : Asset}
    (h : σ.createReporter id reporter names sender now = .ok (a, σ')) :
    σ.Step sender now (.createReporter id reporter names) σ' := by
  obtain ⟨b, hb, hmutable, howner, hother, hsome, h⟩ := createReporter_eq_ok.mp h
  obtain ⟨-, rfl⟩ := Prod.mk.inj h
  exact .appoint hb hmutable howner hother hsome

theorem step_of_revokeReporter {id : AssetId} {reporter sender : AccountId} {a : Asset}
    (h : σ.revokeReporter id reporter sender = .ok (a, σ')) (now : UInt64) :
    σ.Step sender now (.revokeReporter id reporter) σ' := by
  obtain ⟨b, hb, hmutable, howner, hsome, h⟩ := revokeReporter_eq_ok.mp h
  obtain ⟨-, rfl⟩ := Prod.mk.inj h
  obtain ⟨r, hr⟩ := Option.isSome_iff_exists.mp hsome
  exact .dismiss hb hmutable howner hr

/-- **A message that is applied makes a step.** -/
theorem step_of_execute (hσ : σ.WellFormed) {e : Envelope} {outcome : Outcome}
    (h : σ.execute e = .ok (outcome, σ')) : σ.Step e.sender e.blockTime e.message σ' := by
  obtain ⟨sender, now, message⟩ := e
  cases message
  all_goals
    obtain ⟨⟨answer, τ⟩, hτ, heq⟩ := Verdict.bind_eq_ok.mp h
    obtain ⟨-, rfl⟩ := Prod.mk.inj (Verdict.pure_eq_ok.mp heq)
  case createAsset => exact step_of_createAsset hτ now
  case addQuantity => exact step_of_addQuantity hτ now
  case subtractQuantity => exact step_of_subtractQuantity hτ now
  case addMaterials => exact step_of_addMaterials hσ hτ now
  case updateProperties => exact step_of_updateProperties hτ now
  case finalize => exact step_of_finalize hτ now
  case createOffer => exact step_of_createOffer hτ now
  case answerOffer => exact step_of_answerOffer hσ hτ
  case revokeOffer => exact step_of_revokeOffer hτ now
  case createReporter => exact step_of_createReporter hτ
  case revokeReporter => exact step_of_revokeReporter hτ now

end Custody.Records
