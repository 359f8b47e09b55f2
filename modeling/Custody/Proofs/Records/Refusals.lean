import Custody.Ledger.Dispatch
import Custody.Proofs.Records.Accounting

/-!
# Why messages are refused

A change is refused by one of its checks.  None of these finds anything wrong with what is stored,
and a lack of quantity is found only where an asset has less than the message takes from it.

* `RefusedOnly`: a verdict that is refused, if at all, for reasons of a kind.
* `Records.Grounds`: what a message may be refused for.
* `Records.execute_refused`, `Records.check_refused`: **a message is refused on these grounds
  only.**
-/

namespace Custody

/-- The verdict is refused, if at all, for reasons of a kind. -/
def RefusedOnly {α : Type} (P : Fault → Prop) (x : Verdict α) : Prop :=
  ∀ fault, x = .error fault → P fault

namespace RefusedOnly

variable {α β : Type} {P : Fault → Prop}

theorem ok (a : α) : RefusedOnly P (.ok a : Verdict α) := nofun

theorem error {e : Fault} (h : P e) : RefusedOnly P (.error e : Verdict α) := by
  intro fault hfault
  obtain rfl := Except.error.inj hfault
  exact h

theorem bind {x : Verdict α} {f : α → Verdict β} (hx : RefusedOnly P x)
    (hf : ∀ a, x = .ok a → RefusedOnly P (f a)) : RefusedOnly P (x >>= f) := by
  cases x with
  | error e => exact error (hx e rfl)
  | ok a => exact hf a rfl

theorem require {c : Bool} {e : Fault} (h : c = false → P e) : RefusedOnly P (require c e) := by
  cases c with
  | false => exact error (h rfl)
  | true => exact ok ()

theorem forM {l : List α} {f : α → Verdict Unit} (h : ∀ a ∈ l, RefusedOnly P (f a)) :
    RefusedOnly P (l.forM f) := by
  induction l with
  | nil => exact ok ()
  | cons a rest ih =>
    exact bind (h a List.mem_cons_self) fun _ _ => ih fun b hb => h b (List.mem_cons_of_mem _ hb)

theorem mapM {l : List α} {f : α → Verdict β} (h : ∀ a ∈ l, RefusedOnly P (f a)) :
    RefusedOnly P (l.mapM f) := by
  induction l with
  | nil => exact ok []
  | cons a rest ih =>
    rw [List.mapM_cons]
    exact bind (h a List.mem_cons_self) fun _ _ =>
      bind (ih fun b hb => h b (List.mem_cons_of_mem _ hb)) fun _ _ => ok _

end RefusedOnly

namespace Message

/-- The quantity of the asset that the message consumes into another one. -/
def consumed (c : AssetId) : Message → Nat
  | addMaterials _ materials => Material.amount c materials
  | _ => 0

/-- The quantity that the message takes from the asset. -/
def demand (c : AssetId) (message : Message) : Nat :=
  message.subtracted c + message.splitOff c + message.consumed c

theorem demand_subtractQuantity (id : AssetId) (amount : Nat) :
    (subtractQuantity id amount).demand id = amount := by
  simp [demand, subtracted, splitOff, consumed]

theorem demand_createAsset (id : AssetId) (name : String) (quantity : Nat) (unit : String)
    (parent : AssetId) (properties : List Property) :
    (createAsset id name quantity unit (some parent) properties).demand parent = quantity := by
  simp [demand, subtracted, splitOff, consumed]

theorem demand_addMaterials (id c : AssetId) (materials : List Material) :
    (addMaterials id materials).demand c = Material.amount c materials := by
  simp [demand, subtracted, splitOff, consumed]

end Message

namespace Records

variable {σ : Records} {message : Message}

/-- What a message may be refused for. -/
def Grounds (σ : Records) (message : Message) : Fault → Prop
  | .damagedRecord _ _ => False
  | .insufficientQuantity id available requested =>
    available < requested ∧ requested = message.demand id ∧
      ∃ a, σ.asset? id = some a ∧ a.quantity = available
  | _ => True

theorem get_refused (id : AssetId) : RefusedOnly (σ.Grounds message) (σ.get id) := by
  rw [get]
  cases σ.asset? id with
  | none => exact .error trivial
  | some a => exact .ok a

theorem getOffer_refused (id : AssetId) (recipient : AccountId) :
    RefusedOnly (σ.Grounds message) (σ.getOffer id recipient) := by
  rw [getOffer]
  cases σ.offer? id recipient with
  | none => exact .error trivial
  | some o => exact .ok o

/-- A check that finds an asset short of what the message takes from it. -/
theorem covers_refused {id : AssetId} {a : Asset} {requested : Nat} (ha : σ.asset? id = some a)
    (hdemand : requested = message.demand id) :
    RefusedOnly (σ.Grounds message)
      (require (requested ≤ a.quantity) (.insufficientQuantity id a.quantity requested)) := by
  refine .require fun hshort => ⟨?_, hdemand, a, ha, rfl⟩
  have hlt := of_decide_eq_false hshort
  omega

theorem value_refused (v : PropertyValue) : RefusedOnly (σ.Grounds message) v.check := by
  cases v with
  | label text => exact .require fun _ => trivial
  | location latitude longitude =>
    exact .bind (.require fun _ => trivial) fun _ _ => .require fun _ => trivial
  | _ => exact .ok ()

/-! ### Assets -/

theorem createAsset_refused (id : AssetId) (name : String) (quantity : Nat) (unit : String)
    (parent : Option AssetId) (properties : List Property) (sender : AccountId) :
    RefusedOnly (σ.Grounds (.createAsset id name quantity unit parent properties))
      (σ.createAsset id name quantity unit parent properties sender) := by
  rw [createAsset]
  split
  · exact .error trivial
  · refine .bind (.forM fun p _ => value_refused p.value) fun _ _ => ?_
    cases parent with
    | none => exact .ok _
    | some parent =>
      refine .bind (get_refused parent) fun p hp => ?_
      have hdemand := Message.demand_createAsset id name quantity unit parent properties
      exact .bind (.require fun _ => trivial) fun _ _ => .bind (.require fun _ => trivial)
        fun _ _ => .bind (covers_refused (get_eq_ok.mp hp) hdemand.symm) fun _ _ => .ok _

theorem finalize_refused (id : AssetId) (sender : AccountId) :
    RefusedOnly (σ.Grounds message) (σ.finalize id sender) :=
  .bind (get_refused id) fun _ _ => .bind (.require fun _ => trivial) fun _ _ =>
    .bind (.require fun _ => trivial) fun _ _ => .ok _

theorem updateProperties_refused (id : AssetId) (batch : List Property) (caller : AccountId) :
    RefusedOnly (σ.Grounds message) (σ.updateProperties id batch caller) :=
  .bind (get_refused id) fun _ _ => .bind (.require fun _ => trivial) fun _ _ =>
    .bind (.require fun _ => trivial) fun _ _ =>
    .bind (.forM fun p _ => value_refused p.value) fun _ _ =>
    .bind (.forM fun _ _ => .require fun _ => trivial) fun _ _ => .ok _

/-! ### Quantities -/

theorem forChange_refused (id : AssetId) (amount : Nat) (caller : AccountId) (action : Action) :
    RefusedOnly (σ.Grounds message) (σ.forChange id amount caller action) :=
  .bind (get_refused id) fun _ _ => .bind (.require fun _ => trivial) fun _ _ =>
    .bind (.require fun _ => trivial) fun _ _ => .bind (.require fun _ => trivial) fun _ _ => .ok _

theorem addQuantity_refused (id : AssetId) (amount : Nat) (caller : AccountId) :
    RefusedOnly (σ.Grounds message) (σ.addQuantity id amount caller) :=
  .bind (forChange_refused id amount caller _) fun _ _ => .ok _

theorem subtractQuantity_refused (id : AssetId) (amount : Nat) (caller : AccountId) :
    RefusedOnly (σ.Grounds (.subtractQuantity id amount))
      (σ.subtractQuantity id amount caller) := by
  refine .bind (forChange_refused id amount caller _) fun a ha => ?_
  have hdemand := Message.demand_subtractQuantity id amount
  exact .bind (covers_refused (forChange_eq_ok.mp ha).1 hdemand.symm) fun _ _ => .ok _

/-- A component is asked for its total in the batch. -/
theorem component_refused (hσ : σ.WellFormed) {id : AssetId} {materials : List Material}
    (caller : AccountId) {x : Material} (hx : x ∈ Material.normalize materials) :
    RefusedOnly (σ.Grounds (.addMaterials id materials)) (σ.component id caller x) := by
  have hdemand : x.quantity = (Message.addMaterials id materials).demand x.component := by
    rw [Message.demand_addMaterials, ← Material.amount_normalize]
    exact ((Material.normalize_ascending materials).sum_map_ite Material.quantity hx).symm
  refine .bind (.require fun _ => trivial) fun _ _ => ?_
  cases ha : σ.asset? x.component with
  | none => exact .error trivial
  | some a =>
    have hid := hσ.id_eq ha
    rw [← hid] at ha hdemand
    exact .bind (.require fun _ => trivial) fun _ _ => .bind (.require fun _ => trivial)
      fun _ _ => .bind (covers_refused ha hdemand) fun _ _ => .ok _

theorem addMaterials_refused (hσ : σ.WellFormed) (id : AssetId) (materials : List Material)
    (caller : AccountId) :
    RefusedOnly (σ.Grounds (.addMaterials id materials)) (σ.addMaterials id materials caller) :=
  .bind (get_refused id) fun _ _ => .bind (.require fun _ => trivial) fun _ _ =>
    .bind (.require fun _ => trivial) fun _ _ => .bind (.require fun _ => trivial) fun _ _ =>
    .bind (.require fun _ => trivial) fun _ _ =>
    .bind (.mapM fun _ hx => component_refused hσ caller hx) fun _ _ => .ok _

/-! ### Offers -/

theorem createOffer_refused (id : AssetId) (recipient : AccountId) (role : OfferRole)
    (names : List PropertyName) (issuer : AccountId) :
    RefusedOnly (σ.Grounds message) (σ.createOffer id recipient role names issuer) :=
  .bind (get_refused id) fun _ _ => .bind (.require fun _ => trivial) fun _ _ =>
    .bind (.require fun _ => trivial) fun _ _ => .bind (.require fun _ => trivial) fun _ _ =>
    .bind (.require fun _ => trivial) fun _ _ => .ok _

theorem answerOffer_refused (id : AssetId) (recipient : AccountId) (response : Response)
    (respondent : AccountId) (now : UInt64) :
    RefusedOnly (σ.Grounds message) (σ.answerOffer id recipient response respondent now) := by
  refine .bind (get_refused id) fun a _ => .bind (.require fun _ => trivial) fun _ _ =>
    .bind (getOffer_refused id recipient) fun o _ => .bind (.require fun _ => trivial) fun _ _ => ?_
  by_cases haccept : response = .accept
  · rw [if_pos haccept]
    exact .bind (.bind (.require fun _ => trivial) fun _ _ => .ok _) fun _ _ => .ok _
  · rw [if_neg haccept]
    exact .ok _

theorem revokeOffer_refused (id : AssetId) (recipient : AccountId) (names : List PropertyName)
    (issuer : AccountId) :
    RefusedOnly (σ.Grounds message) (σ.revokeOffer id recipient names issuer) := by
  refine .bind (get_refused id) fun a _ => .bind (.require fun _ => trivial) fun _ _ =>
    .bind (.require fun _ => trivial) fun _ _ => .bind (getOffer_refused id recipient) fun o _ =>
    .bind (.require fun _ => trivial) fun _ _ => .bind (.require fun _ => trivial) fun _ _ => ?_
  by_cases hleft : (o.names.filter fun n => !names.contains n).isEmpty = true
  · rw [if_pos hleft]
    exact .ok _
  · rw [if_neg hleft]
    exact .ok _

/-! ### Reporters -/

theorem createReporter_refused (id : AssetId) (reporter : AccountId) (names : List PropertyName)
    (caller : AccountId) (now : UInt64) :
    RefusedOnly (σ.Grounds message) (σ.createReporter id reporter names caller now) :=
  .bind (get_refused id) fun _ _ => .bind (.require fun _ => trivial) fun _ _ =>
    .bind (.require fun _ => trivial) fun _ _ => .bind (.require fun _ => trivial) fun _ _ =>
    .bind (.require fun _ => trivial) fun _ _ => .ok _

theorem revokeReporter_refused (id : AssetId) (reporter caller : AccountId) :
    RefusedOnly (σ.Grounds message) (σ.revokeReporter id reporter caller) :=
  .bind (get_refused id) fun _ _ => .bind (.require fun _ => trivial) fun _ _ =>
    .bind (.require fun _ => trivial) fun _ _ => .bind (.require fun _ => trivial) fun _ _ => .ok _

/-! ### Messages -/

/-- **A change is refused on these grounds only.** -/
theorem execute_refused (hσ : σ.WellFormed) (e : Envelope) :
    RefusedOnly (σ.Grounds e.message) (σ.execute e) := by
  obtain ⟨sender, now, message⟩ := e
  cases message with
  | createAsset id name quantity unit parent properties =>
    exact .bind (createAsset_refused id name quantity unit parent properties sender)
      fun _ _ => .ok _
  | addQuantity id amount => exact .bind (addQuantity_refused id amount sender) fun _ _ => .ok _
  | subtractQuantity id amount =>
    exact .bind (subtractQuantity_refused id amount sender) fun _ _ => .ok _
  | addMaterials id materials =>
    exact .bind (addMaterials_refused hσ id materials sender) fun _ _ => .ok _
  | updateProperties id batch =>
    exact .bind (updateProperties_refused id batch sender) fun _ _ => .ok _
  | finalize id => exact .bind (finalize_refused id sender) fun _ _ => .ok _
  | createOffer id recipient role names =>
    exact .bind (createOffer_refused id recipient role names sender) fun _ _ => .ok _
  | answerOffer id recipient response =>
    exact .bind (answerOffer_refused id recipient response sender now) fun _ _ => .ok _
  | revokeOffer id recipient names =>
    exact .bind (revokeOffer_refused id recipient names sender) fun _ _ => .ok _
  | createReporter id reporter names =>
    exact .bind (createReporter_refused id reporter names sender now) fun _ _ => .ok _
  | revokeReporter id reporter =>
    exact .bind (revokeReporter_refused id reporter sender) fun _ _ => .ok _

/-! ### Checks -/

theorem segment_refused (field text : String) (max : Nat) :
    RefusedOnly (σ.Grounds message) (checkSegment field text max) :=
  .bind (.require fun _ => trivial) fun _ _ => .bind (.require fun _ => trivial) fun _ _ =>
    .require fun _ => trivial

theorem properties_refused (limits : Limits) (properties : List Property) :
    RefusedOnly (σ.Grounds message) (checkProperties limits properties) :=
  .bind (.require fun _ => trivial) fun _ _ => .forM fun p _ =>
    .bind (segment_refused _ _ _) fun _ _ => value_refused p.value

theorem materials_refused (limits : Limits) (materials : List Material) :
    RefusedOnly (σ.Grounds message) (checkMaterials limits materials) :=
  .bind (.require fun _ => trivial) fun _ _ => .forM fun _ _ => segment_refused _ _ _

theorem names_refused (limits : Limits) (names : List PropertyName) :
    RefusedOnly (σ.Grounds message) (checkNames limits names) :=
  .bind (.require fun _ => trivial) fun _ _ => .forM fun _ _ => segment_refused _ _ _

theorem parent_refused (limits : Limits) (id : AssetId) (parent : Option AssetId) :
    RefusedOnly (σ.Grounds message) (Message.checkParent limits id parent) := by
  cases parent with
  | none => exact .ok ()
  | some parent => exact .bind (segment_refused _ _ _) fun _ _ => .require fun _ => trivial

theorem body_refused (limits : Limits) (m : Message) :
    RefusedOnly (σ.Grounds message) (m.checkBody limits) := by
  cases m with
  | createAsset id name quantity unit parent properties =>
    exact .bind (segment_refused _ _ _) fun _ _ => .bind (segment_refused _ _ _) fun _ _ =>
      .bind (parent_refused limits id parent) fun _ _ => properties_refused limits properties
  | addMaterials id materials => exact materials_refused limits materials
  | updateProperties id properties => exact properties_refused limits properties
  | createOffer id recipient role names => exact names_refused limits names
  | revokeOffer id recipient names => exact names_refused limits names
  | createReporter id reporter names => exact names_refused limits names
  | _ => exact .ok ()

/-- **The checks on an envelope refuse it on these grounds only.** -/
theorem check_refused (limits : Limits) (e : Envelope) :
    RefusedOnly (σ.Grounds message) (e.check limits) := by
  refine .bind (segment_refused _ _ _) fun _ _ => .bind (segment_refused _ _ _) fun _ _ => ?_
  cases e.message.counterparty with
  | none => exact body_refused limits e.message
  | some account => exact .bind (segment_refused _ _ _) fun _ _ => body_refused limits e.message

end Records

end Custody
