import Custody.Proofs.Records.Roles

/-!
# Lines of descent

The **descent** of an asset is its parent and its root.  A step leaves every asset its descent and
makes at most one new asset, which is its own root, or has a parent that was there before and shares
its root.  So every asset has a line of ancestors that ends with its root.

* `Lineage`: the identifiers on the way up from an asset.
* `Records.DescentChange`, `Records.Step.descents`: what a step does to the descent of an asset.
* `Records.Keeps`, `Records.Step.keeps`: every asset stays, with its descent.
* `Records.Ancestry`, `Records.Rooted`: every asset descends from its root.
* `Records.Rooted.step`: **a step keeps every asset rooted.**
-/

namespace Custody

/-! ### Lines -/

/-- The identifiers on the way up from an asset: its own, that of its parent, and so on up to an
asset without a parent. -/
inductive Lineage (asset? : AssetId → Option Asset) : AssetId → List AssetId → Prop where
  | top {id : AssetId} {a : Asset} (ha : asset? id = some a) (hparent : a.parent = none) :
    Lineage asset? id [id]
  | under {id parent : AssetId} {a : Asset} {ids : List AssetId} (ha : asset? id = some a)
      (hparent : a.parent = some parent) (h : Lineage asset? parent ids) :
    Lineage asset? id (id :: ids)

namespace Lineage

variable {asset? : AssetId → Option Asset} {id : AssetId} {ids : List AssetId}

/-- There is but one way up. -/
theorem unique (h : Lineage asset? id ids) {ids' : List AssetId} (h' : Lineage asset? id ids') :
    ids = ids' := by
  induction h generalizing ids' with
  | top ha hparent =>
    cases h' with
    | top => rfl
    | under hb hparent' =>
      obtain rfl := Option.some.inj (ha.symm.trans hb)
      exact nomatch hparent.symm.trans hparent'
  | under ha hparent h ih =>
    cases h' with
    | top hb hparent' =>
      obtain rfl := Option.some.inj (ha.symm.trans hb)
      exact nomatch hparent.symm.trans hparent'
    | under hb hparent' h' =>
      obtain rfl := Option.some.inj (ha.symm.trans hb)
      obtain rfl := Option.some.inj (hparent.symm.trans hparent')
      rw [ih h']

/-- The way up is the same wherever the assets on it have the same parents. -/
theorem mono (h : Lineage asset? id ids) {asset?' : AssetId → Option Asset}
    (hkept : ∀ {i a}, asset? i = some a → ∃ b, asset?' i = some b ∧ b.parent = a.parent) :
    Lineage asset?' id ids := by
  induction h with
  | top ha hparent =>
    obtain ⟨b, hb, heq⟩ := hkept ha
    exact .top hb (heq.trans hparent)
  | under ha hparent h ih =>
    obtain ⟨b, hb, heq⟩ := hkept ha
    exact .under hb (heq.trans hparent) ih

end Lineage

/-! ### Descent -/

/-- Where an asset comes from. -/
structure Descent where
  parent : Option AssetId
  root : AssetId

def Asset.descent (a : Asset) : Descent := ⟨a.parent, a.root⟩

namespace Records

variable {σ σ' σ'' : Records} {sender : AccountId} {now : UInt64} {message : Message}

/-- What a step does to the descent of an asset. -/
inductive DescentChange (σ : Records) (id : AssetId) : Option Descent → Prop where
  | keep : DescentChange σ id ((σ.asset? id).map Asset.descent)
  | top (hfree : σ.asset? id = none) : DescentChange σ id (some ⟨none, id⟩)
  | under {parent : AssetId} {p : Asset} (hfree : σ.asset? id = none)
      (hp : σ.asset? parent = some p) : DescentChange σ id (some ⟨some parent, p.root⟩)

theorem DescentChange.keep_of_put {id : AssetId} {a p : Asset} (hp : σ.asset? a.id = some p)
    (hd : a.descent = p.descent) : σ.DescentChange id (((σ.put a).asset? id).map Asset.descent) := by
  rw [map_asset?_put hp hd]
  exact .keep

theorem granted_descent (a : Asset) (recipient : AccountId) (o : Offer) (now : UInt64) :
    (granted a recipient o now).descent = a.descent := by
  rw [granted]
  cases o.role with
  | owner => rfl
  | reporter => rfl

/-- **What a step does to the descent of an asset.** -/
theorem Step.descents (h : σ.Step sender now message σ') (hσ : σ.WellFormed) (id : AssetId) :
    σ.DescentChange id ((σ'.asset? id).map Asset.descent) := by
  cases h with
  | @issue i name quantity unit properties hfree =>
    rw [asset?_put]
    split
    · next heq =>
      obtain rfl : id = i := heq
      exact .top hfree
    · exact .keep
  | @split i name quantity unit parent properties p hfree hp hmutable howner hle =>
    rw [asset?_put]
    split
    · next heq =>
      obtain rfl : id = i := heq
      exact .under (p := p) hfree hp
    · exact .keep_of_put (p := p) (hσ.asset?_id hp) rfl
  | @compose i materials a taken ha hmutable howner hsome hpositive htakes =>
    obtain rfl := hσ.id_eq ha
    have hput := map_asset?_put (f := Asset.descent) (p := a)
      (a := { a with materials := Material.merge a.materials (Material.normalize materials) })
      (htakes.asset?_consumer.trans ha) rfl id
    rw [hput, map_asset?_foldl_consume (fun _ => rfl) htakes.consumable]
    exact .keep
  | @accept i a o ha hmutable ho howner =>
    have hgranted : σ.asset? (granted a sender o now).id = some a :=
      (congrArg σ.asset? (granted_id a sender o now)).trans (hσ.asset?_id ha)
    exact .keep_of_put hgranted (granted_descent a sender o now)
  -- All other steps store a record of the same descent, or none.
  | @add i amount a ha hmutable howner hamount => exact .keep_of_put (p := a) (hσ.asset?_id ha) rfl
  | @subtract i amount a ha hmutable howner hamount hle => exact .keep_of_put (p := a) (hσ.asset?_id ha) rfl
  | @write i batch a ha hmutable hsome hpermits => exact .keep_of_put (p := a) (hσ.asset?_id ha) rfl
  | @freeze i a ha hmutable howner => exact .keep_of_put (p := a) (hσ.asset?_id ha) rfl
  | @appoint i reporter names a ha hmutable howner hother hsome => exact .keep_of_put (p := a) (hσ.asset?_id ha) rfl
  | @dismiss i reporter a r ha hmutable howner hr => exact .keep_of_put (p := a) (hσ.asset?_id ha) rfl
  | offer ha hmutable howner hother hnames
  | decline ha hmutable ho hresponse hsender
  | withdraw ha hmutable howner ho hrole hsome hleft
  | narrow ha hmutable howner ho hrole hsome hleft => exact .keep

/-! ### What stays -/

/-- Every asset of the former records is one of the latter, with its descent. -/
def Keeps (σ σ' : Records) : Prop :=
  ∀ id a, σ.asset? id = some a → ∃ b, σ'.asset? id = some b ∧ b.descent = a.descent

theorem Keeps.refl (σ : Records) : σ.Keeps σ := fun _ a ha => ⟨a, ha, rfl⟩

theorem Keeps.trans (h : σ.Keeps σ') (h' : σ'.Keeps σ'') : σ.Keeps σ'' := by
  intro id a ha
  obtain ⟨b, hb, hd⟩ := h id a ha
  obtain ⟨c, hc, hd'⟩ := h' id b hb
  exact ⟨c, hc, hd'.trans hd⟩

/-- **A step leaves every asset its descent.** -/
theorem Step.keeps (h : σ.Step sender now message σ') (hσ : σ.WellFormed) : σ.Keeps σ' := by
  intro id a ha
  have hchange := h.descents hσ id
  generalize hx : (σ'.asset? id).map Asset.descent = x at hchange
  cases hchange with
  | keep =>
    rw [ha, Option.map_some, Option.map_eq_some_iff] at hx
    exact hx
  | top hfree => exact nomatch hfree.symm.trans ha
  | under hfree hp => exact nomatch hfree.symm.trans ha

theorem Keeps.lineage (h : σ.Keeps σ') {id : AssetId} {ids : List AssetId}
    (hids : Lineage σ.asset? id ids) : Lineage σ'.asset? id ids :=
  hids.mono fun ha =>
    let ⟨b, hb, hd⟩ := h _ _ ha
    ⟨b, hb, congrArg Descent.parent hd⟩

/-! ### Roots -/

/-- The line of an asset: no asset is on it twice, all have one root, and that is the last. -/
structure Ancestry (σ : Records) (id : AssetId) (d : Descent) (ids : List AssetId) : Prop where
  lineage : Lineage σ.asset? id ids
  nodup : ids.Nodup
  root : ∀ i ∈ ids, ∃ b, σ.asset? i = some b ∧ b.root = d.root
  last : ids.getLast? = some d.root
  top : d.parent = none ↔ d.root = id

/-- Every asset has a line that ends with its root. -/
def Rooted (σ : Records) : Prop :=
  ∀ id a, σ.asset? id = some a → ∃ ids, σ.Ancestry id a.descent ids

theorem rooted_empty : empty.Rooted := nofun

namespace Ancestry

variable {id : AssetId} {d : Descent} {ids : List AssetId}

theorem keeps (h : σ.Ancestry id d ids) (hkeeps : σ.Keeps σ') : σ'.Ancestry id d ids where
  lineage := hkeeps.lineage h.lineage
  nodup := h.nodup
  root i hi := by
    obtain ⟨b, hb, hroot⟩ := h.root i hi
    obtain ⟨c, hc, hd⟩ := hkeeps i b hb
    exact ⟨c, hc, (congrArg Descent.root hd).trans hroot⟩
  last := h.last
  top := h.top

/-- The line of an asset that is its own root. -/
theorem of_top {a : Asset} (ha : σ.asset? id = some a) (hd : a.descent = ⟨none, id⟩) :
    σ.Ancestry id ⟨none, id⟩ [id] where
  lineage := .top ha (congrArg Descent.parent hd)
  nodup := List.nodup_singleton id
  root i hi := by
    obtain rfl := List.mem_singleton.mp hi
    exact ⟨a, ha, congrArg Descent.root hd⟩
  last := rfl
  top := ⟨fun _ => rfl, fun _ => rfl⟩

/-- The line of an asset that is split off one with a line of which it is no part. -/
theorem under {a : Asset} {parent : AssetId} (h : σ.Ancestry parent d ids) (hid : id ∉ ids)
    (ha : σ.asset? id = some a) (hd : a.descent = ⟨some parent, d.root⟩) :
    σ.Ancestry id ⟨some parent, d.root⟩ (id :: ids) where
  lineage := .under ha (congrArg Descent.parent hd) h.lineage
  nodup := List.nodup_cons.mpr ⟨hid, h.nodup⟩
  root i hi := by
    rcases List.mem_cons.mp hi with rfl | hi
    · exact ⟨a, ha, congrArg Descent.root hd⟩
    · exact h.root i hi
  last := by rw [List.getLast?_cons, h.last, Option.getD_some]
  top := by
    refine ⟨nofun, fun heq => ?_⟩
    exact absurd (List.mem_of_getLast? (heq ▸ h.last)) hid

end Ancestry

/-- **A step keeps every asset rooted.** -/
theorem Rooted.step (hrooted : σ.Rooted) (h : σ.Step sender now message σ')
    (hσ : σ.WellFormed) : σ'.Rooted := by
  intro id b hb
  have hkeeps := h.keeps hσ
  have hchange := h.descents hσ id
  rw [hb, Option.map_some] at hchange
  generalize hx : some b.descent = x at hchange
  cases hchange with
  | keep =>
    obtain ⟨a, ha, hd⟩ := Option.map_eq_some_iff.mp hx.symm
    obtain ⟨ids, hids⟩ := hrooted id a ha
    exact ⟨ids, hd ▸ hids.keeps hkeeps⟩
  | top hfree =>
    have hd := Option.some.inj hx
    exact ⟨[id], hd ▸ .of_top hb hd⟩
  | @under parent p hfree hp =>
    have hd := Option.some.inj hx
    obtain ⟨ids, hids⟩ := hrooted parent p hp
    -- The new asset is not on the line of its parent, which was there before.
    have hid : id ∉ ids := fun hmem => by
      obtain ⟨c, hc, -⟩ := hids.root id hmem
      exact nomatch hfree.symm.trans hc
    exact ⟨id :: ids, hd ▸ (hids.keeps hkeeps).under hid hb hd⟩

end Records

end Custody
