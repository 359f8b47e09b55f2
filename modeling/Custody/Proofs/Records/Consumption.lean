import Custody.Proofs.Materials
import Custody.Proofs.Records.Changes

/-!
# Consuming components

A batch of materials is taken from assets that differ from each other and from the consumer.  So the
takings do not interfere: each component is found as it was before the batch, and what is taken
from them in all is the demand.

* `Takes`: what is taken from which assets.
* `takes_of_mapM`, `Takes.mapM_component`: the components that pass their checks are such takings.
* `addMaterials_eq_ok`: when materials are added, and what that leaves.
* `total_foldl_consume`, `balance_foldl_consume`: how totals and balances change.
-/

namespace Custody.Records

/-- Quantities that can be taken from components, one after the other. -/
structure Consumable (σ : Records) (taken : List (Asset × Nat)) : Prop where
  stored : ∀ t ∈ taken, σ.asset? t.1.id = some t.1
  covered : ∀ t ∈ taken, t.2 ≤ t.1.quantity
  nodup : (taken.map fun t => t.1.id).Nodup

/-- A quantity that the owner of a component can have taken from it for a consumer. -/
structure Takable (σ : Records) (consumer : AssetId) (caller : AccountId) (t : Asset × Nat) :
    Prop where
  stored : σ.asset? t.1.id = some t.1
  covered : t.2 ≤ t.1.quantity
  other : t.1.id ≠ consumer
  owner : t.1.owner = caller
  mutable : t.1.isFinal = false

/-- What a batch takes for a consumer. -/
structure Takes (σ : Records) (consumer : AssetId) (caller : AccountId) (demand : List Material)
    (taken : List (Asset × Nat)) : Prop where
  demand_eq : taken.map (fun t => (⟨t.1.id, t.2⟩ : Material)) = demand
  takable : ∀ t ∈ taken, σ.Takable consumer caller t
  nodup : (taken.map fun t => t.1.id).Nodup

variable {σ : Records}

theorem Takes.consumable {consumer : AssetId} {caller : AccountId} {demand : List Material}
    {taken : List (Asset × Nat)} (h : σ.Takes consumer caller demand taken) :
    σ.Consumable taken :=
  ⟨fun t ht => (h.takable t ht).stored, fun t ht => (h.takable t ht).covered, h.nodup⟩

/-! ### Components that pass their checks -/

theorem component_eq_ok (hσ : σ.WellFormed) {consumer : AssetId} {caller : AccountId}
    {m : Material} {a : Asset} (h : σ.component consumer caller m = .ok a) :
    a.id = m.component ∧ σ.Takable consumer caller (a, m.quantity) := by
  obtain ⟨_, hother, h⟩ := Verdict.bind_eq_ok.mp h
  cases hc : σ.asset? m.component with
  | none => simp [hc, throw, throwThe, MonadExceptOf.throw] at h
  | some b =>
    simp only [hc, Verdict.bind_eq_ok, Verdict.pure_eq_ok, require_eq_ok,
      Asset.checkMutable_eq_ok, Ledger.authorize_eq_ok, exists_const] at h
    obtain ⟨hmutable, howner, hle, rfl⟩ := h
    have hid := hσ.id_eq hc
    refine ⟨hid, hσ.asset?_id hc, of_decide_eq_true hle, ?_, Asset.isOwnedBy_iff.mp howner,
      hmutable⟩
    simpa [hid] using require_eq_ok.mp hother

theorem takable_of_mapM (hσ : σ.WellFormed) {consumer : AssetId} {caller : AccountId}
    {demand : List Material} {components : List Asset}
    (h : demand.mapM (σ.component consumer caller) = .ok components) :
    (components.zip (demand.map Material.quantity)).map
        (fun t => (⟨t.1.id, t.2⟩ : Material)) = demand ∧
      ∀ t ∈ components.zip (demand.map Material.quantity), σ.Takable consumer caller t := by
  induction demand generalizing components with
  | nil => simp
  | cons m rest ih =>
    rw [List.mapM_cons] at h
    obtain ⟨a, ha, h⟩ := Verdict.bind_eq_ok.mp h
    obtain ⟨as, has, h⟩ := Verdict.bind_eq_ok.mp h
    obtain rfl := Verdict.pure_eq_ok.mp h
    obtain ⟨hid, htakable⟩ := component_eq_ok hσ ha
    obtain ⟨hdemand, hmem⟩ := ih has
    rw [List.map_cons, List.zip_cons_cons, List.map_cons, hdemand, hid]
    refine ⟨rfl, ?_⟩
    intro t ht
    rcases List.mem_cons.mp ht with rfl | ht
    · exact htakable
    · exact hmem t ht

/-- What is taken to meet a demand in order of components is taken from each of them once. -/
theorem takes_of_ascending {consumer : AssetId} {caller : AccountId} {demand : List Material}
    (hasc : AscendingBy Material.component demand) {taken : List (Asset × Nat)}
    (hdemand : taken.map (fun t => (⟨t.1.id, t.2⟩ : Material)) = demand)
    (htakable : ∀ t ∈ taken, σ.Takable consumer caller t) :
    σ.Takes consumer caller demand taken := by
  refine ⟨hdemand, htakable, ?_⟩
  have hnodup := hasc.nodup_map
  rw [← hdemand, List.map_map] at hnodup
  exact hnodup

/-- Components that pass their checks can be taken from, each once. -/
theorem takes_of_mapM (hσ : σ.WellFormed) {consumer : AssetId} {caller : AccountId}
    {demand : List Material} (hasc : AscendingBy Material.component demand)
    {components : List Asset} (h : demand.mapM (σ.component consumer caller) = .ok components) :
    σ.Takes consumer caller demand (components.zip (demand.map Material.quantity)) := by
  obtain ⟨hdemand, htakable⟩ := takable_of_mapM hσ h
  exact takes_of_ascending hasc hdemand htakable

/-- What can be taken passes its check. -/
theorem Takable.component_eq {consumer : AssetId} {caller : AccountId} {t : Asset × Nat}
    (h : σ.Takable consumer caller t) : σ.component consumer caller ⟨t.1.id, t.2⟩ = .ok t.1 := by
  simp [component, h.stored, h.other, h.covered, h.mutable, Asset.checkMutable, Ledger.authorize,
    Asset.permits, Asset.isOwnedBy, h.owner, require]
  rfl

/-- Takings are found again from their demand. -/
theorem Takes.mapM_component {consumer : AssetId} {caller : AccountId} {demand : List Material}
    {taken : List (Asset × Nat)} (h : σ.Takes consumer caller demand taken) :
    demand.mapM (σ.component consumer caller) = .ok (taken.map Prod.fst) := by
  obtain ⟨rfl, htakable, -⟩ := h
  induction taken with
  | nil => rfl
  | cons t rest ih =>
    have hhead := (htakable t List.mem_cons_self).component_eq
    have hrest := ih fun u hu => htakable u (List.mem_cons_of_mem _ hu)
    rw [List.map_cons, List.mapM_cons, hhead, hrest]
    rfl

theorem Takes.zip_quantities {consumer : AssetId} {caller : AccountId} {demand : List Material}
    {taken : List (Asset × Nat)} (h : σ.Takes consumer caller demand taken) :
    (taken.map Prod.fst).zip (demand.map Material.quantity) = taken := by
  rw [← h.demand_eq, List.map_map, List.zip_map']
  exact List.map_id _

/-- **Materials are added just if they can be taken.** -/
theorem addMaterials_eq_ok (hσ : σ.WellFormed) {id : AssetId} {materials : List Material}
    {caller : AccountId} {a : Asset} {σ' : Records} :
    σ.addMaterials id materials caller = .ok (a, σ') ↔ ∃ target taken,
      σ.asset? id = some target ∧ target.isFinal = false ∧ target.owner = caller ∧
      materials ≠ [] ∧ (∀ m ∈ materials, m.quantity ≠ 0) ∧
      σ.Takes id caller (Material.normalize materials) taken ∧
      a = { target with
        materials := Material.merge target.materials (Material.normalize materials) } ∧
      σ' = (taken.foldl consume σ).put a := by
  simp only [addMaterials, Verdict.bind_eq_ok, Verdict.pure_eq_ok, require_eq_ok,
    Asset.checkMutable_eq_ok, Ledger.authorize_eq_ok, exists_const]
  constructor
  · rintro ⟨b, hb, hmutable, howner, hsome, hpositive, components, hcomponents, h⟩
    obtain ⟨rfl, rfl⟩ := Prod.mk.inj h
    exact ⟨b, _, get_eq_ok.mp hb, hmutable, Asset.isOwnedBy_iff.mp howner, by simpa using hsome,
      by simpa using hpositive,
      takes_of_mapM hσ (Material.normalize_ascending materials) hcomponents, rfl, rfl⟩
  · rintro ⟨b, taken, hb, hmutable, howner, hsome, hpositive, htakes, rfl, rfl⟩
    refine ⟨b, get_eq_ok.mpr hb, hmutable, Asset.isOwnedBy_iff.mpr howner, by simpa using hsome,
      by simpa using hpositive, taken.map Prod.fst, htakes.mapM_component, ?_⟩
    rw [htakes.zip_quantities]

/-! ### Consuming one after the other -/

theorem asset?_consume (t : Asset × Nat) (id : AssetId) :
    (σ.consume t).asset? id =
      if id = t.1.id then some (leftOf t) else σ.asset? id :=
  σ.asset?_put _ id

theorem Consumable.tail {t : Asset × Nat} {rest : List (Asset × Nat)}
    (h : σ.Consumable (t :: rest)) : (σ.consume t).Consumable rest := by
  obtain ⟨hne, hnodup⟩ := List.nodup_cons.mp h.nodup
  refine ⟨?_, fun u hu => h.covered u (List.mem_cons_of_mem _ hu), hnodup⟩
  intro u hu
  have hne : u.1.id ≠ t.1.id := fun heq =>
    hne (List.mem_map.mpr ⟨u, hu, heq⟩)
  rw [asset?_consume, if_neg hne]
  exact h.stored u (List.mem_cons_of_mem _ hu)

theorem asset?_foldl_consume_of_notMem {taken : List (Asset × Nat)} {id : AssetId}
    (hid : id ∉ taken.map fun t => t.1.id) :
    (taken.foldl consume σ).asset? id = σ.asset? id := by
  induction taken generalizing σ with
  | nil => rfl
  | cons t rest ih =>
    obtain ⟨hne, hrest⟩ := not_or.mp (List.mem_cons.not.mp hid)
    rw [List.foldl_cons, ih hrest, asset?_consume, if_neg hne]

theorem Consumable.asset?_foldl_consume {taken : List (Asset × Nat)} (h : σ.Consumable taken)
    {t : Asset × Nat} (ht : t ∈ taken) :
    (taken.foldl consume σ).asset? t.1.id = some (leftOf t) := by
  induction taken generalizing σ with
  | nil => exact absurd ht List.not_mem_nil
  | cons u rest ih =>
    rw [List.foldl_cons]
    rcases List.mem_cons.mp ht with rfl | ht
    · rw [asset?_foldl_consume_of_notMem (List.nodup_cons.mp h.nodup).1, asset?_consume, if_pos rfl]
    · exact ih h.tail ht

/-- What is taken, is taken from the components that the demand names. -/
theorem Takes.mem_components {consumer : AssetId} {caller : AccountId} {demand : List Material}
    {taken : List (Asset × Nat)} (h : σ.Takes consumer caller demand taken) {id : AssetId} :
    id ∈ demand.map Material.component ↔ id ∈ taken.map fun t => t.1.id := by
  rw [← h.demand_eq, List.map_map]
  rfl

/-- The consumer is none of its components. -/
theorem Takes.asset?_consumer {consumer : AssetId} {caller : AccountId} {demand : List Material}
    {taken : List (Asset × Nat)} (h : σ.Takes consumer caller demand taken) :
    (taken.foldl consume σ).asset? consumer = σ.asset? consumer := by
  refine asset?_foldl_consume_of_notMem fun hmem => ?_
  obtain ⟨t, ht, heq⟩ := List.mem_map.mp hmem
  exact (h.takable t ht).other heq

@[simp] theorem offer?_foldl_consume (taken : List (Asset × Nat)) (id : AssetId)
    (recipient : AccountId) :
    (taken.foldl consume σ).offer? id recipient = σ.offer? id recipient := by
  induction taken generalizing σ with
  | nil => rfl
  | cons t rest ih => exact ih

/-- **Consuming changes a total by what it changes for each component.** -/
theorem total_foldl_consume (f : Asset → Nat) {taken : List (Asset × Nat)}
    (h : σ.Consumable taken) :
    (taken.foldl consume σ).total f + (taken.map fun t => f t.1).sum =
      σ.total f + (taken.map fun t => f (leftOf t)).sum := by
  induction taken generalizing σ with
  | nil => rfl
  | cons t rest ih =>
    have hrest := ih h.tail
    have hput := σ.total_put f (leftOf t)
    have ht : σ.asset? (leftOf t).id = some t.1 := h.stored t List.mem_cons_self
    rw [ht] at hput
    simp only [List.foldl_cons, List.map_cons, List.sum_cons]
    change (σ.consume t).total f + f t.1 = _ at hput
    omega

/-- What is consumed is taken from the balances of the components. -/
theorem balance_foldl_consume {taken : List (Asset × Nat)} (h : σ.Consumable taken)
    (o : AccountId) (r : AssetId) :
    (taken.foldl consume σ).balance o r +
        (taken.map fun t => Balances.single t.1.owner t.1.root t.2 o r).sum = σ.balance o r := by
  induction taken generalizing σ with
  | nil => rfl
  | cons t rest ih =>
    have hrest := ih h.tail
    have hput := σ.balance_put_quantity (h.stored t List.mem_cons_self) (t.1.quantity - t.2) o r
    have hsub := Balances.single_sub_add t.1.owner t.1.root (h.covered t List.mem_cons_self) o r
    simp only [List.foldl_cons, List.map_cons, List.sum_cons]
    change (σ.consume t).balance o r + _ = _ at hput
    omega

end Custody.Records
