import Custody.Proofs.Records.Basic

/-!
# Changes of the records

What each message does, said on the assets and the offers alone: no bytes, no index entries and no
balances.  A change is refused for the same reasons, found in the same order, as the transaction it
stands for.  Beside each change stands what it is to make it: the checks that it passes, its answer,
and the records that it leaves.

* `Records.execute`: the change that an envelope asks for.
* `Records.dispatch`: an envelope applied to the records, all or nothing.
-/

namespace Custody

/-! ### Checks -/

theorem require_eq_ok {c : Bool} {e : Fault} {u : Unit} : require c e = .ok u ↔ c = true := by
  cases c <;> simp [require]

theorem Asset.checkMutable_eq_ok {a : Asset} {u : Unit} :
    a.checkMutable = .ok u ↔ a.isFinal = false := by
  rw [checkMutable, require_eq_ok, Bool.not_eq_true']

theorem Ledger.authorize_eq_ok {a : Asset} {principal : AccountId} {right : Right}
    {action : Action} {named : AssetId} {u : Unit} :
    authorize a principal right action named = .ok u ↔ a.permits principal right = true :=
  require_eq_ok

theorem Asset.isOwnedBy_iff {a : Asset} {principal : AccountId} :
    a.isOwnedBy principal = true ↔ a.owner = principal := beq_iff_eq

theorem Offer.mayAnswer_accept_iff {o : Offer} {respondent : AccountId} :
    o.mayAnswer respondent .accept = true ↔ o.recipient = respondent := beq_iff_eq

/-! ### The changes -/

namespace Records

theorem forM_eq_ok {α : Type} {l : List α} {f : α → Verdict Unit} {u : Unit} :
    l.forM f = .ok u ↔ ∀ a ∈ l, f a = .ok () := by
  induction l with
  | nil => simp [List.forM]; rfl
  | cons a rest ih =>
    change (f a >>= fun _ => rest.forM f) = .ok u ↔ _
    rw [Verdict.bind_eq_ok, List.forall_mem_cons, ← ih]
    exact ⟨fun ⟨_, ha, hrest⟩ => ⟨ha, hrest⟩, fun ⟨ha, hrest⟩ => ⟨(), ha, hrest⟩⟩

variable (σ : Records)

/-! ### Assets -/

def createAsset (id : AssetId) (name : String) (quantity : Nat) (unit : String)
    (parent : Option AssetId) (properties : List Property) (sender : AccountId) :
    Verdict (Asset × Records) := do
  if (σ.asset? id).isSome then .error (.duplicateAsset id)
  else
    properties.forM fun p => p.value.check
    let fresh := { Asset.fresh id name sender quantity unit with
      properties := Property.normalize properties }
    match parent with
    | none => return (fresh, σ.put fresh)
    | some parentId =>
      let p ← σ.get parentId
      p.checkMutable
      require (p.isOwnedBy sender) (.unauthorized sender .derive parentId)
      require (quantity ≤ p.quantity) (.insufficientQuantity parentId p.quantity quantity)
      let child := { fresh with parent := some parentId, root := p.root }
      return (child, (σ.put { p with quantity := p.quantity - quantity }).put child)

def finalize (id : AssetId) (sender : AccountId) :
    Verdict (Asset × Records) := do
  let a ← σ.get id
  a.checkMutable
  Ledger.authorize a sender .finalize .finalize id
  let frozen := { a with isFinal := true }
  return (frozen, (σ.put frozen).dropAll id)

variable {σ} in
theorem finalize_eq_ok {id : AssetId} {sender : AccountId} {p : Asset × Records} :
    σ.finalize id sender = .ok p ↔ ∃ a, σ.asset? id = some a ∧ a.isFinal = false ∧
      a.owner = sender ∧
      ({ a with isFinal := true }, (σ.put { a with isFinal := true }).dropAll id) = p := by
  simp only [finalize, Verdict.bind_eq_ok, Verdict.pure_eq_ok, Asset.checkMutable_eq_ok,
    exists_const, Ledger.authorize_eq_ok, get_eq_ok, Asset.permits, Asset.isOwnedBy_iff]

def updateProperties (id : AssetId) (batch : List Property) (caller : AccountId) :
    Verdict (Asset × Records) := do
  let a ← σ.get id
  a.checkMutable
  require (!batch.isEmpty) (.missingField "properties")
  batch.forM fun p => p.value.check
  batch.forM fun p => Ledger.authorize a caller (.write p.name) .writeProperty id
  let written := { a with properties := Property.upsert a.properties batch }
  return (written, σ.put written)

variable {σ} in
theorem updateProperties_eq_ok {id : AssetId} {batch : List Property} {caller : AccountId}
    {p : Asset × Records} : σ.updateProperties id batch caller = .ok p ↔ ∃ a,
      σ.asset? id = some a ∧ a.isFinal = false ∧ batch ≠ [] ∧
      (∀ p ∈ batch, p.value.check = .ok ()) ∧
      (∀ p ∈ batch, a.permits caller (.write p.name) = true) ∧
      ({ a with properties := Property.upsert a.properties batch },
        σ.put { a with properties := Property.upsert a.properties batch }) = p := by
  simp only [updateProperties, Verdict.bind_eq_ok, Verdict.pure_eq_ok, require_eq_ok,
    Asset.checkMutable_eq_ok, exists_const, forM_eq_ok, Ledger.authorize_eq_ok, get_eq_ok,
    Bool.not_eq_true', List.isEmpty_eq_false_iff]

/-! ### Quantities -/

/-- An asset whose quantity the caller may change by an amount. -/
def forChange (id : AssetId) (amount : Nat) (caller : AccountId) (action : Action) :
    Verdict Asset := do
  let a ← σ.get id
  a.checkMutable
  require (amount != 0) (.invalidField "amount" .zeroAmount)
  Ledger.authorize a caller .changeQuantity action id
  return a

variable {σ} in
theorem forChange_eq_ok {id : AssetId} {amount : Nat} {caller : AccountId} {action : Action}
    {a : Asset} : σ.forChange id amount caller action = .ok a ↔
      σ.asset? id = some a ∧ a.isFinal = false ∧ amount ≠ 0 ∧ a.owner = caller := by
  simp only [forChange, Verdict.bind_eq_ok, Verdict.pure_eq_ok, require_eq_ok,
    Asset.checkMutable_eq_ok, Ledger.authorize_eq_ok, exists_const, get_eq_ok, Asset.permits,
    Asset.isOwnedBy_iff, bne_iff_ne]
  constructor
  · rintro ⟨b, hb, hmutable, hamount, howner, rfl⟩
    exact ⟨hb, hmutable, hamount, howner⟩
  · rintro ⟨ha, hmutable, hamount, howner⟩
    exact ⟨a, ha, hmutable, hamount, howner, rfl⟩

def addQuantity (id : AssetId) (amount : Nat) (caller : AccountId) :
    Verdict (Asset × Records) := do
  let a ← σ.forChange id amount caller .addQuantity
  let grown := { a with quantity := a.quantity + amount }
  return (grown, σ.put grown)

variable {σ} in
theorem addQuantity_eq_ok {id : AssetId} {amount : Nat} {caller : AccountId} {p : Asset × Records} :
    σ.addQuantity id amount caller = .ok p ↔ ∃ a,
      σ.asset? id = some a ∧ a.isFinal = false ∧ amount ≠ 0 ∧ a.owner = caller ∧
      ({ a with quantity := a.quantity + amount },
        σ.put { a with quantity := a.quantity + amount }) = p := by
  simp only [addQuantity, Verdict.bind_eq_ok, Verdict.pure_eq_ok, forChange_eq_ok, and_assoc]

def subtractQuantity (id : AssetId) (amount : Nat) (caller : AccountId) :
    Verdict (Asset × Records) := do
  let a ← σ.forChange id amount caller .subtractQuantity
  require (amount ≤ a.quantity) (.insufficientQuantity id a.quantity amount)
  let shrunk := { a with quantity := a.quantity - amount }
  return (shrunk, σ.put shrunk)

variable {σ} in
theorem subtractQuantity_eq_ok {id : AssetId} {amount : Nat} {caller : AccountId}
    {p : Asset × Records} : σ.subtractQuantity id amount caller = .ok p ↔ ∃ a,
      σ.asset? id = some a ∧ a.isFinal = false ∧ amount ≠ 0 ∧ a.owner = caller ∧
      amount ≤ a.quantity ∧
      ({ a with quantity := a.quantity - amount },
        σ.put { a with quantity := a.quantity - amount }) = p := by
  simp only [subtractQuantity, Verdict.bind_eq_ok, Verdict.pure_eq_ok, forChange_eq_ok,
    require_eq_ok, decide_eq_true_iff, exists_const, and_assoc]

/-- The asset that a material is taken from, if the caller may take it. -/
def component (consumer : AssetId) (caller : AccountId) (m : Material) : Verdict Asset := do
  require (m.component != consumer) (.invalidField "materials" .ownComponent)
  match σ.asset? m.component with
  | none => throw (.componentNotFound m.component)
  | some a =>
    a.checkMutable
    Ledger.authorize a caller .changeQuantity .consumeComponent a.id
    require (m.quantity ≤ a.quantity) (.insufficientQuantity a.id a.quantity m.quantity)
    return a

/-- What is left of an asset after a quantity is taken from it. -/
def leftOf (taken : Asset × Nat) : Asset :=
  { taken.1 with quantity := taken.1.quantity - taken.2 }

/-- The records after a quantity is taken from an asset. -/
def consume (taken : Asset × Nat) : Records := σ.put (leftOf taken)

def addMaterials (id : AssetId) (materials : List Material) (caller : AccountId) :
    Verdict (Asset × Records) := do
  let target ← σ.get id
  target.checkMutable
  Ledger.authorize target caller .changeQuantity .addMaterials id
  require (!materials.isEmpty) (.missingField "materials")
  require (!materials.any fun m => m.quantity == 0) (.invalidField "quantity" .zeroMaterial)
  let demand := Material.normalize materials
  let components ← demand.mapM (σ.component id caller)
  let taken := components.zip (demand.map Material.quantity)
  let composed := { target with materials := Material.merge target.materials demand }
  return (composed, (taken.foldl consume σ).put composed)

/-! ### Offers -/

def createOffer (id : AssetId) (recipient : AccountId) (role : OfferRole)
    (names : List PropertyName) (issuer : AccountId) : Verdict (Offer × Records) := do
  let a ← σ.get id
  a.checkMutable
  Ledger.authorize a issuer .offerRole .createOffer id
  require (recipient != issuer) (.invalidField "recipient" .toOneself)
  require (role != .reporter || !names.isEmpty) (.missingField "property_names")
  let o := Offer.pending id issuer recipient role names
  return (o, σ.hold o)

variable {σ} in
theorem createOffer_eq_ok {id : AssetId} {recipient : AccountId} {role : OfferRole}
    {names : List PropertyName} {issuer : AccountId} {p : Offer × Records} :
    σ.createOffer id recipient role names issuer = .ok p ↔ ∃ a,
      σ.asset? id = some a ∧ a.isFinal = false ∧ a.owner = issuer ∧ recipient ≠ issuer ∧
      (role = .reporter → names ≠ []) ∧
      (Offer.pending id issuer recipient role names,
        σ.hold (Offer.pending id issuer recipient role names)) = p := by
  simp only [createOffer, Verdict.bind_eq_ok, Verdict.pure_eq_ok, require_eq_ok,
    Asset.checkMutable_eq_ok, exists_const, Ledger.authorize_eq_ok, get_eq_ok, Asset.permits,
    Asset.isOwnedBy_iff, bne_iff_ne, Bool.or_eq_true, Bool.not_eq_true', List.isEmpty_eq_false_iff,
    imp_iff_not_or]

/-- The asset after the role of an offer is granted. -/
def granted (a : Asset) (recipient : AccountId) (o : Offer) (now : UInt64) : Asset :=
  match o.role with
  | .owner => { a with owner := recipient, reporters := [] }
  | .reporter => a.upsertReporter (Reporter.grant recipient o.names now)

/-- Grants the role that an offer on an asset to a recipient offers. -/
def accept (id : AssetId) (recipient : AccountId) (a : Asset) (o : Offer) (now : UInt64) :
    Verdict (Asset × Records) := do
  require (o.issuerOwns a) (.unauthorized o.issuer .grantLostRole id)
  let a := granted a recipient o now
  return (a, σ.put a)

def answerOffer (id : AssetId) (recipient : AccountId) (response : Response)
    (respondent : AccountId) (now : UInt64) : Verdict (Ledger.Answer × Records) := do
  let a ← σ.get id
  a.checkMutable
  let o ← σ.getOffer id recipient
  require (o.mayAnswer respondent response) (.unauthorized respondent .answerOffer id)
  let (answered, σ') ←
    if response = .accept then σ.accept id recipient a o now else .ok (a, σ)
  return (⟨{ o with status := response.status }, answered⟩, σ'.drop id recipient)

variable {σ} in
theorem answerOffer_eq_ok {id : AssetId} {recipient : AccountId} {response : Response}
    {respondent : AccountId} {now : UInt64} {p : Ledger.Answer × Records} :
    σ.answerOffer id recipient response respondent now = .ok p ↔ ∃ a,
      σ.asset? id = some a ∧ a.isFinal = false ∧ ∃ o, σ.offer? id recipient = some o ∧
      o.mayAnswer respondent response = true ∧
      if response = .accept then a.owner = o.issuer ∧
        (⟨{ o with status := response.status }, granted a recipient o now⟩,
          (σ.put (granted a recipient o now)).drop id recipient) = p
      else (⟨{ o with status := response.status }, a⟩, σ.drop id recipient) = p := by
  simp only [answerOffer, Verdict.bind_eq_ok, require_eq_ok, Asset.checkMutable_eq_ok,
    exists_const, get_eq_ok, getOffer_eq_ok]
  by_cases haccept : response = .accept
  · simp only [haccept, if_true, accept, Verdict.bind_eq_ok, require_eq_ok, exists_const,
      Verdict.pure_eq_ok, and_assoc, exists_and_left, exists_eq_left', Offer.issuerOwns,
      Asset.isOwnedBy_iff]
  · simp only [haccept, if_false, Verdict.ok_bind, Verdict.pure_eq_ok]

def revokeOffer (id : AssetId) (recipient : AccountId) (names : List PropertyName)
    (issuer : AccountId) : Verdict (Option Offer × Records) := do
  let a ← σ.get id
  a.checkMutable
  Ledger.authorize a issuer .withdrawOffer .revokeOffer id
  let o ← σ.getOffer id recipient
  require (!names.isEmpty) (.missingField "property_names")
  require (o.role != .owner) (.notRevocable id recipient o.role)
  let left := o.names.filter fun n => !names.contains n
  if left.isEmpty then return (none, σ.drop id recipient)
  else
    let narrowed := { o with names := left }
    return (some narrowed, σ.hold narrowed)

variable {σ} in
theorem revokeOffer_eq_ok {id : AssetId} {recipient : AccountId} {names : List PropertyName}
    {issuer : AccountId} {p : Option Offer × Records} :
    σ.revokeOffer id recipient names issuer = .ok p ↔ ∃ a,
      σ.asset? id = some a ∧ a.isFinal = false ∧ a.owner = issuer ∧ ∃ o,
      σ.offer? id recipient = some o ∧ names ≠ [] ∧ o.role = .reporter ∧
      (if (o.names.filter fun n => !names.contains n) = [] then (none, σ.drop id recipient)
        else (some { o with names := o.names.filter fun n => !names.contains n },
          σ.hold { o with names := o.names.filter fun n => !names.contains n })) = p := by
  have hreporter : ∀ role : OfferRole, role ≠ .owner ↔ role = .reporter := fun role => by
    cases role <;> decide
  simp only [revokeOffer, Verdict.bind_eq_ok, require_eq_ok, Asset.checkMutable_eq_ok,
    exists_const, Ledger.authorize_eq_ok, get_eq_ok, getOffer_eq_ok, Asset.permits,
    Asset.isOwnedBy_iff, bne_iff_ne, hreporter, Bool.not_eq_true', List.isEmpty_eq_false_iff,
    List.isEmpty_iff, ← apply_ite, Verdict.pure_eq_ok]

/-! ### Reporters -/

def createReporter (id : AssetId) (reporter : AccountId) (names : List PropertyName)
    (caller : AccountId) (now : UInt64) :
    Verdict (Asset × Records) := do
  let a ← σ.get id
  a.checkMutable
  Ledger.authorize a caller .manageReporters .createReporter id
  require (!a.isOwnedBy reporter) (.invalidField "reporter" .ownerAsReporter)
  require (!names.isEmpty) (.missingField "property_names")
  let granted := a.upsertReporter (Reporter.grant reporter names now)
  return (granted, σ.put granted)

variable {σ} in
theorem createReporter_eq_ok {id : AssetId} {reporter : AccountId} {names : List PropertyName}
    {caller : AccountId} {now : UInt64} {p : Asset × Records} :
    σ.createReporter id reporter names caller now = .ok p ↔ ∃ a,
      σ.asset? id = some a ∧ a.isFinal = false ∧ a.owner = caller ∧ reporter ≠ a.owner ∧
      names ≠ [] ∧
      (a.upsertReporter (Reporter.grant reporter names now),
        σ.put (a.upsertReporter (Reporter.grant reporter names now))) = p := by
  simp only [createReporter, Verdict.bind_eq_ok, Verdict.pure_eq_ok, require_eq_ok,
    Asset.checkMutable_eq_ok, exists_const, Ledger.authorize_eq_ok, get_eq_ok, Asset.permits,
    Asset.isOwnedBy, beq_iff_eq, Bool.not_eq_true', beq_eq_false_iff_ne, List.isEmpty_eq_false_iff,
    ne_comm (a := reporter)]

def revokeReporter (id : AssetId) (reporter : AccountId) (caller : AccountId) :
    Verdict (Asset × Records) := do
  let a ← σ.get id
  a.checkMutable
  Ledger.authorize a caller .manageReporters .revokeReporter id
  require (a.reporter? reporter).isSome (.notReporter id reporter)
  let dismissed := a.removeReporter reporter
  return (dismissed, σ.put dismissed)

variable {σ} in
theorem revokeReporter_eq_ok {id : AssetId} {reporter caller : AccountId} {p : Asset × Records} :
    σ.revokeReporter id reporter caller = .ok p ↔ ∃ a,
      σ.asset? id = some a ∧ a.isFinal = false ∧ a.owner = caller ∧
      (a.reporter? reporter).isSome ∧
      (a.removeReporter reporter, σ.put (a.removeReporter reporter)) = p := by
  simp only [revokeReporter, Verdict.bind_eq_ok, Verdict.pure_eq_ok, require_eq_ok,
    Asset.checkMutable_eq_ok, exists_const, Ledger.authorize_eq_ok, get_eq_ok, Asset.permits,
    Asset.isOwnedBy_iff]

/-! ### Dispatch -/

/-- The change that an envelope asks for, and its outcome. -/
def execute (e : Envelope) : Verdict (Outcome × Records) := do
  let sender := e.sender
  let outcome := Outcome.plain e.message.kind e.message.asset sender
  match e.message with
  | .createAsset id name quantity unit parent properties =>
    let (_, σ') ← σ.createAsset id name quantity unit parent properties sender
    return (outcome, σ')
  | .addQuantity asset amount =>
    let (_, σ') ← σ.addQuantity asset amount sender
    return (outcome, σ')
  | .subtractQuantity asset amount =>
    let (_, σ') ← σ.subtractQuantity asset amount sender
    return (outcome, σ')
  | .addMaterials asset materials =>
    let (_, σ') ← σ.addMaterials asset materials sender
    return (outcome, σ')
  | .updateProperties asset properties =>
    let (_, σ') ← σ.updateProperties asset properties sender
    return (outcome, σ')
  | .finalize asset =>
    let (_, σ') ← σ.finalize asset sender
    return (outcome, σ')
  | .createOffer asset recipient role names =>
    let (_, σ') ← σ.createOffer asset recipient role names sender
    return ((outcome.withTag "recipient" recipient.text).withTag "role" role.label, σ')
  | .answerOffer asset recipient response =>
    let (answer, σ') ← σ.answerOffer asset recipient response sender e.blockTime
    return ((outcome.withTag "recipient" recipient.text).withTag "status"
      answer.offer.status.label, σ')
  | .revokeOffer asset recipient names =>
    let (left, σ') ← σ.revokeOffer asset recipient names sender
    let status := if left.isSome then "pending" else "revoked"
    return ((outcome.withTag "recipient" recipient.text).withTag "status" status, σ')
  | .createReporter asset reporter names =>
    let (_, σ') ← σ.createReporter asset reporter names sender e.blockTime
    return (outcome.withTag "recipient" reporter.text, σ')
  | .revokeReporter asset reporter =>
    let (_, σ') ← σ.revokeReporter asset reporter sender
    return (outcome.withTag "recipient" reporter.text, σ')

/-- Applies an envelope to the records, all or nothing. -/
def dispatch (config : ModuleConfig) (e : Envelope) : Verdict Outcome × Records :=
  match e.check config.limits with
  | .ok () =>
    match σ.execute e with
    | .ok (outcome, σ') => (.ok outcome, σ')
    | .error fault => (.error fault, σ)
  | .error fault => (.error fault, σ)

end Records

end Custody
