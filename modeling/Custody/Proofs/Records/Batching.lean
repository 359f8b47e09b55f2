import Custody.Proofs.Records.Steps

/-!
# Batches of materials

What a batch does is said here component by component.  Of each component it takes the amount that
it names in all, in however many entries and in whatever order; the target gets these amounts added
to its composition; and no other record is touched.  The components of one batch may share a root or
not, as the balance under a root covers whatever the assets under it cover.

So a batch in two parts can be drawn one part after the other.  The second part then finds less, but
just as much less as the first part has taken.

* `Records.Affords`: a batch can be drawn.
* `Records.Composed`: what drawing it does.
* `Records.addMaterials_iff`: the materials of a batch are added just if the records afford it.
* `Records.addMaterials_append`: **adding a batch is adding its parts, one after the other.**
-/

namespace Custody

/-- What is left of a component after a batch is drawn. -/
def Asset.drawn (batch : List Material) (a : Asset) : Asset :=
  { a with quantity := a.quantity - Material.amount a.id batch }

/-- A target after a batch is added to it. -/
def Asset.composed (batch : List Material) (a : Asset) : Asset :=
  { a with materials := Material.merge a.materials (Material.normalize batch) }

theorem Asset.drawn_drawn (xs ys : List Material) (a : Asset) :
    (a.drawn xs).drawn ys = a.drawn (xs ++ ys) := by
  simp only [drawn, Material.amount_append, Nat.sub_sub]

theorem Asset.drawn_of_notMem {batch : List Material} {a : Asset}
    (h : a.id ∉ batch.map Material.component) : a.drawn batch = a := by
  rw [drawn, Material.amount_of_notMem h, Nat.sub_zero]

theorem Asset.composed_composed {a : Asset} (h : AscendingBy Material.component a.materials)
    (xs ys : List Material) : (a.composed xs).composed ys = a.composed (xs ++ ys) := by
  have hmerged := Material.merge_ascending h xs
  simp only [composed, Material.merge_normalize h, Material.merge_normalize hmerged,
    Material.merge_merge h]

namespace Records

variable {σ σ' : Records} {consumer : AssetId} {caller : AccountId} {target : Asset}
  {batch xs ys : List Material}

/-! ### Batches that can be drawn -/

/-- The caller can have, for a consumer, what a batch names of each component. -/
def Affords (σ : Records) (consumer : AssetId) (caller : AccountId) (batch : List Material) :
    Prop :=
  ∀ c ∈ batch.map Material.component, ∃ a, a.id = c ∧
    σ.Takable consumer caller (a, Material.amount c batch)

theorem Takes.quantity_eq {taken : List (Asset × Nat)}
    (h : σ.Takes consumer caller (Material.normalize batch) taken) {t : Asset × Nat}
    (ht : t ∈ taken) : t.2 = Material.amount t.1.id batch := by
  have hmem : (⟨t.1.id, t.2⟩ : Material) ∈ Material.normalize batch :=
    h.demand_eq ▸ List.mem_map_of_mem ht
  exact (Material.mem_normalize.mp hmem).2

theorem Takes.affords {taken : List (Asset × Nat)}
    (h : σ.Takes consumer caller (Material.normalize batch) taken) :
    σ.Affords consumer caller batch := by
  intro c hc
  obtain ⟨t, ht, rfl⟩ :=
    List.mem_map.mp (h.mem_components.mp ((Material.mem_components_normalize batch).mpr hc))
  exact ⟨t.1, rfl, h.quantity_eq ht ▸ h.takable t ht⟩

/-- Takings for a demand are found when each of its entries can be taken. -/
theorem exists_takings {demand : List Material}
    (h : ∀ m ∈ demand, ∃ a, a.id = m.component ∧ σ.Takable consumer caller (a, m.quantity)) :
    ∃ taken : List (Asset × Nat), taken.map (fun t => (⟨t.1.id, t.2⟩ : Material)) = demand ∧
      ∀ t ∈ taken, σ.Takable consumer caller t := by
  induction demand with
  | nil => exact ⟨[], rfl, nofun⟩
  | cons m rest ih =>
    obtain ⟨a, hid, ha⟩ := h m List.mem_cons_self
    obtain ⟨taken, hdemand, htakable⟩ := ih fun n hn => h n (List.mem_cons_of_mem _ hn)
    refine ⟨(a, m.quantity) :: taken, ?_, List.forall_mem_cons.mpr ⟨ha, htakable⟩⟩
    rw [List.map_cons, hdemand, hid]

theorem Affords.exists_takes (h : σ.Affords consumer caller batch) :
    ∃ taken, σ.Takes consumer caller (Material.normalize batch) taken := by
  have hentries : ∀ m ∈ Material.normalize batch, ∃ a, a.id = m.component ∧
      σ.Takable consumer caller (a, m.quantity) := fun m hm => by
    obtain ⟨hnamed, hquantity⟩ := Material.mem_normalize.mp hm
    rw [hquantity]
    exact h m.component hnamed
  obtain ⟨taken, hdemand, htakable⟩ := exists_takings hentries
  exact ⟨taken, takes_of_ascending (Material.normalize_ascending batch) hdemand htakable⟩

/-! ### What drawing does -/

/-- The caller can add a batch to a target. -/
structure Composable (σ : Records) (target : Asset) (caller : AccountId) (batch : List Material) :
    Prop where
  stored : σ.asset? target.id = some target
  mutable : target.isFinal = false
  owner : target.owner = caller
  nonempty : batch ≠ []
  positive : ∀ m ∈ batch, m.quantity ≠ 0
  affords : σ.Affords target.id caller batch

/-- The records after a batch is added to a target. -/
structure Composed (σ : Records) (target : Asset) (batch : List Material) (σ' : Records) :
    Prop where
  asset? : ∀ id, σ'.asset? id = if id = target.id then some (target.composed batch)
    else (σ.asset? id).map (Asset.drawn batch)
  offers : σ'.offers = σ.offers

theorem Composed.unique {σ₁ σ₂ : Records} (h₁ : σ.Composed target batch σ₁)
    (h₂ : σ.Composed target batch σ₂) : σ₁ = σ₂ := by
  refine Records.ext (SortedMap.ext_get? fun id => ?_) (h₁.offers.trans h₂.offers.symm)
  exact (h₁.asset? id).trans (h₂.asset? id).symm

theorem offers_foldl_consume (taken : List (Asset × Nat)) :
    (taken.foldl consume σ).offers = σ.offers := by
  induction taken generalizing σ with
  | nil => rfl
  | cons t rest ih => exact ih

/-- Consuming takings, and then storing the target, is what adding the batch does. -/
theorem Takes.composed {taken : List (Asset × Nat)} (hσ : σ.WellFormed)
    (h : σ.Takes target.id caller (Material.normalize batch) taken) :
    σ.Composed target batch ((taken.foldl consume σ).put (target.composed batch)) := by
  refine ⟨fun id => ?_, offers_foldl_consume taken⟩
  rw [asset?_put]
  refine if_congr Iff.rfl rfl ?_
  by_cases hid : id ∈ taken.map fun t => t.1.id
  · obtain ⟨t, ht, rfl⟩ := List.mem_map.mp hid
    rw [h.consumable.asset?_foldl_consume ht, (h.takable t ht).stored, leftOf, h.quantity_eq ht]
    rfl
  · rw [asset?_foldl_consume_of_notMem hid]
    cases ha : σ.asset? id with
    | none => rfl
    | some a =>
      obtain rfl := hσ.id_eq ha
      have hfree : a.id ∉ batch.map Material.component := fun hc =>
        hid (h.mem_components.mp ((Material.mem_components_normalize batch).mpr hc))
      rw [Option.map_some, a.drawn_of_notMem hfree]

theorem Affords.exists_composed (h : σ.Affords target.id caller batch) (hσ : σ.WellFormed) :
    ∃ σ', σ.Composed target batch σ' := by
  obtain ⟨taken, htakes⟩ := h.exists_takes
  exact ⟨_, htakes.composed hσ⟩

theorem Composed.wellFormed (h : σ.Composed target batch σ') (hσ : σ.WellFormed)
    (htarget : σ.asset? target.id = some target) : σ'.WellFormed := by
  have hoffer : ∀ id recipient, σ'.offer? id recipient = σ.offer? id recipient :=
    fun id recipient => congrArg (SortedMap.get? · _) h.offers
  have hasset : ∀ {id a}, σ'.asset? id = some a → a.id = id ∧ a.Storable := fun {id a} ha => by
    rw [h.asset?] at ha
    by_cases hid : id = target.id
    · rw [if_pos hid] at ha
      obtain rfl := Option.some.inj ha
      have hs := hσ.storable htarget
      exact ⟨hid.symm, hs.id, hs.owner, hs.names, hs.reporters, hs.ascending⟩
    · rw [if_neg hid] at ha
      obtain ⟨b, hb, rfl⟩ := Option.map_eq_some_iff.mp ha
      have hs := hσ.storable hb
      have hbid : b.id = id := hσ.id_eq hb
      exact ⟨hbid, hs.id, hs.owner, hs.names, hs.reporters, hs.ascending⟩
  exact ⟨fun ha => (hasset ha).1, fun ha => (hasset ha).2,
    fun ho => hσ.offer_eq ((hoffer _ _).symm.trans ho),
    fun ho => hσ.offer_clean ((hoffer _ _).symm.trans ho)⟩

/-- **The materials of a batch are added just if the records afford them.** -/
theorem addMaterials_iff (hσ : σ.WellFormed) {id : AssetId} {a : Asset} :
    σ.addMaterials id batch caller = .ok (a, σ') ↔ ∃ target, target.id = id ∧
      σ.Composable target caller batch ∧ a = target.composed batch ∧
      σ.Composed target batch σ' := by
  rw [addMaterials_eq_ok hσ]
  constructor
  · rintro ⟨target, taken, htarget, hmutable, howner, hsome, hpositive, htakes, rfl, rfl⟩
    obtain rfl := hσ.id_eq htarget
    exact ⟨target, rfl, ⟨htarget, hmutable, howner, hsome, hpositive, htakes.affords⟩, rfl,
      htakes.composed hσ⟩
  · rintro ⟨target, rfl, h, rfl, hcomposed⟩
    obtain ⟨taken, htakes⟩ := h.affords.exists_takes
    exact ⟨target, taken, h.stored, h.mutable, h.owner, h.nonempty, h.positive, htakes, rfl,
      hcomposed.unique (htakes.composed hσ)⟩

/-! ### Batches in two parts -/

variable {σ₁ : Records}

theorem Composed.asset?_component (h : σ.Composed target xs σ₁) {id : AssetId}
    (hid : id ≠ target.id) : σ₁.asset? id = (σ.asset? id).map (Asset.drawn xs) := by
  rw [h.asset?, if_neg hid]

/-- What the second part of a batch composes after the first, the batch composes at once. -/
theorem Composed.append_iff (h : σ.Composed target xs σ₁)
    (hasc : AscendingBy Material.component target.materials) :
    σ₁.Composed (target.composed xs) ys σ' ↔ σ.Composed target (xs ++ ys) σ' := by
  have hassets : ∀ id, (if id = target.id then some ((target.composed xs).composed ys)
      else (σ₁.asset? id).map (Asset.drawn ys)) =
      if id = target.id then some (target.composed (xs ++ ys))
      else (σ.asset? id).map (Asset.drawn (xs ++ ys)) := fun id => by
    rw [Asset.composed_composed hasc]
    refine ite_congr rfl (fun _ => rfl) fun hid => ?_
    rw [h.asset?_component hid, Option.map_map]
    exact congrArg (Option.map · _) (funext (Asset.drawn_drawn xs ys))
  constructor
  · intro h'
    exact ⟨fun id => (h'.asset? id).trans (hassets id), h'.offers.trans h.offers⟩
  · intro h'
    exact ⟨fun id => (h'.asset? id).trans (hassets id).symm, h'.offers.trans h.offers.symm⟩

/-- A component that a batch can be drawn from covers what the batch names of it. -/
theorem Affords.amount_le (h : σ.Affords consumer caller batch) {a : Asset}
    (ha : σ.asset? a.id = some a) : Material.amount a.id batch ≤ a.quantity := by
  by_cases hnamed : a.id ∈ batch.map Material.component
  · obtain ⟨b, hid, hb⟩ := h a.id hnamed
    have hstored : σ.asset? b.id = some b := hb.stored
    rw [hid] at hstored
    obtain rfl := Option.some.inj (ha.symm.trans hstored)
    exact hb.covered
  · rw [Material.amount_of_notMem hnamed]
    exact Nat.zero_le _

/-- The second part of a batch finds its components as the first part has left them. -/
theorem Composed.takable_drawn (h : σ.Composed target xs σ₁) {a : Asset}
    (ha : σ.Takable target.id caller (a, Material.amount a.id (xs ++ ys))) :
    σ₁.Takable target.id caller (a.drawn xs, Material.amount a.id ys) := by
  obtain ⟨hstored, hcovered, hother, howner, hmutable⟩ := ha
  refine ⟨?_, ?_, hother, howner, hmutable⟩
  · refine (h.asset?_component hother).trans ?_
    rw [hstored, Option.map_some]
  · rw [Material.amount_append] at hcovered
    exact Nat.le_sub_of_add_le' hcovered

/-- What covers a batch covers its first part. -/
theorem Affords.append_left (h : σ.Affords consumer caller (xs ++ ys)) :
    σ.Affords consumer caller xs := by
  intro c hc
  obtain ⟨a, rfl, ha⟩ := h c (List.map_append ▸ List.mem_append_left _ hc)
  refine ⟨a, rfl, ha.stored, ?_, ha.other, ha.owner, ha.mutable⟩
  have hcovered : Material.amount a.id (xs ++ ys) ≤ a.quantity := ha.covered
  rw [Material.amount_append] at hcovered
  exact Nat.le_of_add_right_le hcovered

/-- Such a component is what the first part has left of one that covers both. -/
theorem Composed.takable_of_drawn (h : σ.Composed target xs σ₁)
    (hxs : σ.Affords target.id caller xs) {b : Asset}
    (hb : σ₁.Takable target.id caller (b, Material.amount b.id ys)) :
    ∃ a, a.id = b.id ∧ σ.Takable target.id caller (a, Material.amount a.id (xs ++ ys)) := by
  obtain ⟨hstored, hcovered, hother, howner, hmutable⟩ := hb
  obtain ⟨a, ha, rfl⟩ :=
    Option.map_eq_some_iff.mp ((h.asset?_component hother).symm.trans hstored)
  have ha : σ.asset? a.id = some a := ha
  refine ⟨a, rfl, ha, ?_, hother, howner, hmutable⟩
  rw [Material.amount_append]
  exact Nat.add_le_of_le_sub' (hxs.amount_le ha) hcovered

/-- A batch in two parts can be drawn just if the first can, and then the second. -/
theorem Composed.affords_append_iff (h : σ.Composed target xs σ₁) :
    σ.Affords target.id caller (xs ++ ys) ↔
      σ.Affords target.id caller xs ∧ σ₁.Affords target.id caller ys := by
  constructor
  · intro hall
    refine ⟨hall.append_left, fun c hc => ?_⟩
    obtain ⟨a, rfl, ha⟩ := hall c (List.map_append ▸ List.mem_append_right _ hc)
    exact ⟨a.drawn xs, rfl, h.takable_drawn ha⟩
  · rintro ⟨hxs, hys⟩ c hc
    rw [List.map_append, List.mem_append] at hc
    by_cases hsecond : c ∈ ys.map Material.component
    · obtain ⟨b, rfl, hb⟩ := hys c hsecond
      obtain ⟨a, hid, ha⟩ := h.takable_of_drawn hxs hb
      exact ⟨a, hid, hid ▸ ha⟩
    · obtain ⟨a, rfl, ha⟩ := hxs c (hc.resolve_right hsecond)
      refine ⟨a, rfl, ?_⟩
      rw [Material.amount_append, Material.amount_of_notMem hsecond]
      exact ha

/-- **A batch composes as its parts do, one after the other.** -/
theorem Composed.composable_append_iff (h : σ.Composed target xs σ₁)
    (hxs : xs ≠ []) (hys : ys ≠ []) : σ.Composable target caller (xs ++ ys) ↔
      σ.Composable target caller xs ∧ σ₁.Composable (target.composed xs) caller ys := by
  have hpositive : (∀ m ∈ xs ++ ys, m.quantity ≠ 0) ↔
      (∀ m ∈ xs, m.quantity ≠ 0) ∧ ∀ m ∈ ys, m.quantity ≠ 0 := List.forall_mem_append
  have hstored : σ₁.asset? target.id = some (target.composed xs) := by
    rw [h.asset?, if_pos rfl]
  constructor
  · intro hall
    obtain ⟨hfirst, hsecond⟩ := h.affords_append_iff.mp hall.affords
    obtain ⟨hpx, hpy⟩ := hpositive.mp hall.positive
    exact ⟨⟨hall.stored, hall.mutable, hall.owner, hxs, hpx, hfirst⟩,
      ⟨hstored, hall.mutable, hall.owner, hys, hpy, hsecond⟩⟩
  · rintro ⟨hfirst, hsecond⟩
    have haffords := h.affords_append_iff.mpr ⟨hfirst.affords, hsecond.affords⟩
    have hboth := hpositive.mpr ⟨hfirst.positive, hsecond.positive⟩
    exact ⟨hfirst.stored, hfirst.mutable, hfirst.owner, by simp [hxs], hboth, haffords⟩

/-- **Adding a batch is adding its parts, one after the other.** -/
theorem addMaterials_append (hσ : σ.WellFormed) {id : AssetId} {a : Asset}
    (hasc : ∀ target, σ.asset? id = some target →
      AscendingBy Material.component target.materials) (hxs : xs ≠ []) (hys : ys ≠ []) :
    σ.addMaterials id (xs ++ ys) caller = .ok (a, σ') ↔ ∃ b σ₁,
      σ.addMaterials id xs caller = .ok (b, σ₁) ∧ σ₁.addMaterials id ys caller = .ok (a, σ') := by
  rw [addMaterials_iff hσ]
  constructor
  · rintro ⟨target, rfl, hall, rfl, hcomposed⟩
    have hsorted := hasc target hall.stored
    obtain ⟨σ₁, hfirst⟩ := hall.affords.append_left.exists_composed hσ
    obtain ⟨hcan, hcan'⟩ := (hfirst.composable_append_iff hxs hys).mp hall
    have hσ₁ := hfirst.wellFormed hσ hall.stored
    exact ⟨target.composed xs, σ₁, (addMaterials_iff hσ).mpr ⟨target, rfl, hcan, rfl, hfirst⟩,
      (addMaterials_iff hσ₁).mpr ⟨target.composed xs, rfl, hcan',
        (Asset.composed_composed hsorted xs ys).symm, (hfirst.append_iff hsorted).mpr hcomposed⟩⟩
  · rintro ⟨b, σ₁, hadd, hadd'⟩
    obtain ⟨target, rfl, hcan, rfl, hfirst⟩ := (addMaterials_iff hσ).mp hadd
    have hσ₁ := hfirst.wellFormed hσ hcan.stored
    obtain ⟨target', hid, hcan', rfl, hsecond⟩ := (addMaterials_iff hσ₁).mp hadd'
    -- The second part finds the target as the first part has left it.
    have hfound : σ₁.asset? target.id = some (target.composed xs) := by
      rw [hfirst.asset?, if_pos rfl]
    have hstored := hcan'.stored
    rw [hid] at hstored
    obtain rfl := Option.some.inj (hfound.symm.trans hstored)
    have hsorted := hasc target hcan.stored
    exact ⟨target, rfl, (hfirst.composable_append_iff hxs hys).mpr ⟨hcan, hcan'⟩,
      Asset.composed_composed hsorted xs ys, (hfirst.append_iff hsorted).mp hsecond⟩

end Records

end Custody
