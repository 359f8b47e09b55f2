import Custody.Proofs.Records.Roles

/-!
# What a step does to one asset

A message **touches** the asset that it is about, the parent of a new asset, and the components that
it consumes.  A step leaves every other asset and the offers on it as they are.  The assets that it
touches are not final, and what it does to each of them is said here once, with the right by which
it is done.

* `Message.touched`: the assets that a message touches.
* `Records.AssetChange`, `Records.Step.assets`: what a step does to an asset.
* `Records.Step.asset?_of_untouched`, `Records.Step.offer?_of_untouched`: what it leaves alone.
* `Records.Step.mutable_of_touched`: **a step touches no final asset.**
-/

namespace Custody

/-- The assets that a message touches. -/
def Message.touched : Message → List AssetId
  | createAsset id _ _ _ parent _ => id :: parent.toList
  | addMaterials id materials => id :: materials.map Material.component
  | message => [message.asset]

namespace Records

variable {σ σ' : Records} {sender : AccountId} {now : UInt64} {message : Message}

/-! ### Changes -/

/-- What a step does to an asset, by its message. -/
inductive AssetChange (σ : Records) (sender : AccountId) (now : UInt64) (id : AssetId) :
    Message → Option Asset → Prop where
  | keep {message : Message} : AssetChange σ sender now id message (σ.asset? id)
  | make {message : Message} {a : Asset} (htouched : id ∈ message.touched)
      (hfree : σ.asset? id = none) (hmutable : a.isFinal = false) :
      AssetChange σ sender now id message (some a)
  /-- The quantity is changed, or a part of it is split off or consumed. -/
  | count {message : Message} {a : Asset} {quantity : Nat} (htouched : id ∈ message.touched)
      (ha : σ.asset? id = some a) (hmutable : a.isFinal = false) (howner : a.owner = sender) :
      AssetChange σ sender now id message (some { a with quantity := quantity })
  | compose {a : Asset} {materials : List Material} (ha : σ.asset? id = some a)
      (hmutable : a.isFinal = false) (howner : a.owner = sender) :
      AssetChange σ sender now id (.addMaterials id materials)
        (some { a with materials := Material.merge a.materials (Material.normalize materials) })
  | write {a : Asset} {batch : List Property} (ha : σ.asset? id = some a)
      (hmutable : a.isFinal = false)
      (hpermits : ∀ p ∈ batch, a.permits sender (.write p.name) = true) :
      AssetChange σ sender now id (.updateProperties id batch)
        (some { a with properties := Property.upsert a.properties batch })
  | freeze {a : Asset} (ha : σ.asset? id = some a) (hmutable : a.isFinal = false)
      (howner : a.owner = sender) :
      AssetChange σ sender now id (.finalize id) (some { a with isFinal := true })
  /-- The role that the owner offered is taken. -/
  | accept {a : Asset} {o : Offer} (ha : σ.asset? id = some a) (hmutable : a.isFinal = false)
      (ho : σ.offer? id sender = some o) (howner : a.owner = o.issuer) :
      AssetChange σ sender now id (.answerOffer id sender .accept) (some (granted a sender o now))
  /-- A reporter is appointed or dismissed. -/
  | report {message : Message} {a : Asset} {reporters : List Reporter}
      (htouched : id ∈ message.touched) (ha : σ.asset? id = some a)
      (hmutable : a.isFinal = false) (howner : a.owner = sender) :
      AssetChange σ sender now id message (some { a with reporters := reporters })

/-- A step that stores a record of an asset that its message touches. -/
theorem AssetChange.of_put {τ : Records} {id i : AssetId} {a : Asset} (hid : a.id = i)
    (hsame : i = id → σ.AssetChange sender now id message (some a))
    (hother : i ≠ id → σ.AssetChange sender now id message (τ.asset? id)) :
    σ.AssetChange sender now id message ((τ.put a).asset? id) := by
  rw [asset?_put, hid]
  by_cases h : id = i
  · rw [if_pos h]
    exact hsame h.symm
  · rw [if_neg h]
    exact hother (Ne.symm h)

/-- **What a step does to an asset.** -/
theorem Step.assets (h : σ.Step sender now message σ') (hσ : σ.WellFormed) (id : AssetId) :
    σ.AssetChange sender now id message (σ'.asset? id) := by
  cases h with
  | @issue i name quantity unit properties hfree =>
    refine .of_put rfl ?_ fun _ => .keep
    rintro rfl
    exact .make List.mem_cons_self hfree rfl
  | @split i name quantity unit parent properties p hfree hp hmutable howner hle =>
    obtain rfl := hσ.id_eq hp
    refine .of_put rfl ?_ fun _ => .of_put rfl ?_ fun _ => .keep
    · rintro rfl
      exact .make List.mem_cons_self hfree rfl
    · rintro rfl
      exact .count (List.mem_cons_of_mem _ List.mem_cons_self) hp hmutable howner
  | add ha hmutable howner hamount =>
    obtain rfl := hσ.id_eq ha
    refine .of_put rfl ?_ fun _ => .keep
    rintro rfl
    exact .count List.mem_cons_self ha hmutable howner
  | subtract ha hmutable howner hamount hle =>
    obtain rfl := hσ.id_eq ha
    refine .of_put rfl ?_ fun _ => .keep
    rintro rfl
    exact .count List.mem_cons_self ha hmutable howner
  | @compose i materials a taken ha hmutable howner hsome hpositive htakes =>
    obtain rfl := hσ.id_eq ha
    refine .of_put rfl ?_ fun _ => ?_
    · rintro rfl
      exact .compose ha hmutable howner
    -- The components are consumed before the consumer is stored; each is consumed once.
    · by_cases hid : id ∈ taken.map fun t => t.1.id
      · have hnamed : id ∈ materials.map Material.component :=
          (Material.mem_components_normalize materials).mp (htakes.mem_components.mpr hid)
        obtain ⟨t, ht, rfl⟩ := List.mem_map.mp hid
        have htaken := htakes.takable t ht
        rw [htakes.consumable.asset?_foldl_consume ht]
        exact .count (List.mem_cons_of_mem _ hnamed) htaken.stored htaken.mutable htaken.owner
      · rw [asset?_foldl_consume_of_notMem hid]
        exact .keep
  | write ha hmutable hsome hpermits =>
    obtain rfl := hσ.id_eq ha
    refine .of_put rfl ?_ fun _ => .keep
    rintro rfl
    exact .write ha hmutable hpermits
  | freeze ha hmutable howner =>
    obtain rfl := hσ.id_eq ha
    refine .of_put rfl ?_ fun _ => .keep
    rintro rfl
    exact .freeze ha hmutable howner
  | offer ha hmutable howner hother hnames => exact .keep
  | decline ha hmutable ho hresponse hsender => exact .keep
  | @accept i a o ha hmutable ho howner =>
    refine .of_put ((granted_id a sender o now).trans (hσ.id_eq ha)) ?_ fun _ => .keep
    rintro rfl
    exact .accept ha hmutable ho howner
  | withdraw ha hmutable howner ho hrole hsome hleft => exact .keep
  | narrow ha hmutable howner ho hrole hsome hleft => exact .keep
  | @appoint i reporter names a ha hmutable howner hother hsome =>
    obtain rfl := hσ.id_eq ha
    refine .of_put rfl ?_ fun _ => .keep
    rintro rfl
    exact .report List.mem_cons_self ha hmutable howner
  | @dismiss i reporter a r ha hmutable howner hr =>
    obtain rfl := hσ.id_eq ha
    refine .of_put rfl ?_ fun _ => .keep
    rintro rfl
    exact .report List.mem_cons_self ha hmutable howner

/-! ### What is left alone -/

theorem Step.asset?_of_untouched (h : σ.Step sender now message σ') (hσ : σ.WellFormed)
    {id : AssetId} (hid : id ∉ message.touched) : σ'.asset? id = σ.asset? id := by
  have hchange := h.assets hσ id
  generalize σ'.asset? id = x at hchange
  cases hchange with
  | keep => rfl
  | make htouched hfree hmutable
  | count htouched ha hmutable howner
  | report htouched ha hmutable howner => exact absurd htouched hid
  | compose ha hmutable howner
  | write ha hmutable hpermits
  | freeze ha hmutable howner
  | accept ha hmutable ho howner => exact absurd List.mem_cons_self hid

theorem offer?_drop_of_ne (σ : Records) {id i : AssetId} (hid : id ∉ [i])
    (recipient r : AccountId) : (σ.drop i r).offer? id recipient = σ.offer? id recipient := by
  rw [offer?_drop, if_neg fun h => hid (List.mem_singleton.mpr h.1)]

theorem offer?_hold_of_ne (σ : Records) {id : AssetId} {o : Offer} (hid : id ∉ [o.asset])
    (recipient : AccountId) : (σ.hold o).offer? id recipient = σ.offer? id recipient := by
  rw [offer?_hold, if_neg fun h => hid (List.mem_singleton.mpr h.1)]

theorem Step.offer?_of_untouched (h : σ.Step sender now message σ') (hσ : σ.WellFormed)
    {id : AssetId} (hid : id ∉ message.touched) (recipient : AccountId) :
    σ'.offer? id recipient = σ.offer? id recipient := by
  cases h with
  | issue hfree
  | split hfree hp hmutable howner hle
  | add ha hmutable howner hamount
  | subtract ha hmutable howner hamount hle
  | write ha hmutable hsome hpermits
  | appoint ha hmutable howner hother hsome
  | dismiss ha hmutable howner hr => rfl
  | compose ha hmutable howner hsome hpositive htakes => rw [offer?_put, offer?_foldl_consume]
  | @freeze i a ha hmutable howner =>
    have hne : id ≠ i := fun h => hid (List.mem_singleton.mpr h)
    rw [offer?_dropAll, if_neg hne, offer?_put]
  | offer ha hmutable howner hother hnames => exact σ.offer?_hold_of_ne hid recipient
  | decline ha hmutable ho hresponse hsender => exact σ.offer?_drop_of_ne hid recipient _
  | accept ha hmutable ho howner => exact offer?_drop_of_ne _ hid recipient _
  | withdraw ha hmutable howner ho hrole hsome hleft => exact σ.offer?_drop_of_ne hid recipient _
  | narrow ha hmutable howner ho hrole hsome hleft =>
    obtain ⟨rfl, -⟩ := hσ.offer_eq ho
    refine σ.offer?_hold_of_ne ?_ recipient
    exact hid

/-! ### Final assets -/

theorem mutable_of_mem_singleton {id i : AssetId} {a b : Asset} (ha : σ.asset? id = some a)
    (hid : id ∈ [i]) (hb : σ.asset? i = some b) (hmutable : b.isFinal = false) :
    a.isFinal = false := by
  obtain rfl := List.mem_singleton.mp hid
  obtain rfl := Option.some.inj (ha.symm.trans hb)
  exact hmutable

/-- **A step touches no final asset.** -/
theorem Step.mutable_of_touched (h : σ.Step sender now message σ') {id : AssetId} {a : Asset}
    (ha : σ.asset? id = some a) (hid : id ∈ message.touched) : a.isFinal = false := by
  cases h with
  | issue hfree =>
    obtain rfl := List.mem_singleton.mp hid
    exact nomatch hfree.symm.trans ha
  | split hfree hp hmutable howner hle =>
    rcases List.mem_cons.mp hid with rfl | hid
    · exact nomatch hfree.symm.trans ha
    · exact mutable_of_mem_singleton ha hid hp hmutable
  | @compose i materials b taken hb hmutable howner hsome hpositive htakes =>
    rcases List.mem_cons.mp hid with rfl | hid
    · exact mutable_of_mem_singleton ha List.mem_cons_self hb hmutable
    · have htaken : id ∈ taken.map fun t => t.1.id :=
        htakes.mem_components.mp ((Material.mem_components_normalize materials).mpr hid)
      obtain ⟨t, ht, rfl⟩ := List.mem_map.mp htaken
      obtain rfl := Option.some.inj (ha.symm.trans (htakes.takable t ht).stored)
      exact (htakes.takable t ht).mutable
  -- All other messages touch the one asset that they are about.
  | add hb hmutable howner hamount
  | subtract hb hmutable howner hamount hle
  | write hb hmutable hsome hpermits
  | freeze hb hmutable howner
  | offer hb hmutable howner hother hnames
  | decline hb hmutable ho hresponse hsender
  | accept hb hmutable ho howner
  | withdraw hb hmutable howner ho hrole hsome hleft
  | narrow hb hmutable howner ho hrole hsome hleft
  | appoint hb hmutable howner hother hsome
  | dismiss hb hmutable howner hr => exact mutable_of_mem_singleton ha hid hb hmutable

end Records

end Custody
