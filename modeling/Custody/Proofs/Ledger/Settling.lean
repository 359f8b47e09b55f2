import Custody.Proofs.Ledger.Regularity
import Custody.Proofs.Ledger.Settled

/-!
# Contents that pass the audits are settled

The assets and offers that contents list make records.  If the audits find nothing, the index
entries bear witness that the names in these records can be parts of keys; so, where every record
lies under its own key, the records are sound, they have a picture, and the contents resemble it.

* `Records.Sound.exists_pictured`: sound records have a picture.
* `Records.ofListed`: the records that listed assets and offers make.
* `Contents.settled_iff`: **contents are settled just if they pass the audits and every record lies
  under its own key.**
-/

namespace Custody

/-! ### Sound records have a picture -/

/-- The slots that an asset fills. -/
def Asset.slots (a : Asset) : List Slot :=
  [.asset a.id, .owner a.owner a.id, .balance a.owner a.root] ++
    (a.properties.map fun p => .property a.id p.name) ++
    a.reporters.map fun r => .reporter r.account a.id

/-- The slots that an offer fills. -/
def Offer.slots (o : Offer) : List Slot :=
  [.offer o.asset o.recipient, .recipient o.recipient o.asset]

namespace Records

/-- The slots that records fill. -/
def slots (σ : Records) : List Slot :=
  σ.allAssets.flatMap Asset.slots ++ (σ.offers.bindings.map Prod.snd).flatMap Offer.slots

variable {σ : Records}

theorem mem_slots_of_asset {id : AssetId} {a : Asset} (ha : σ.asset? id = some a) {x : Slot}
    (hx : x ∈ a.slots) : x ∈ σ.slots := by
  have hmem : a ∈ σ.allAssets :=
    List.mem_map.mpr ⟨(id, a), (SortedMap.mem_bindings _ _ _).mpr ha, rfl⟩
  exact List.mem_append_left _ (List.mem_flatMap.mpr ⟨a, hmem, hx⟩)

theorem mem_slots_of_offer {id : AssetId} {recipient : AccountId} {o : Offer}
    (ho : σ.offer? id recipient = some o) {x : Slot} (hx : x ∈ o.slots) : x ∈ σ.slots := by
  have hmem : o ∈ σ.offers.bindings.map Prod.snd :=
    List.mem_map.mpr ⟨(⟨recipient, id⟩, o), (SortedMap.mem_bindings _ _ _).mpr ho, rfl⟩
  exact List.mem_append_right _ (List.mem_flatMap.mpr ⟨o, hmem, hx⟩)

theorem Sound.clean_of_mem_slots (h : σ.Sound) {x : Slot} (hx : x ∈ σ.slots) : x.Clean := by
  rcases List.mem_append.mp hx with hx | hx
  · obtain ⟨a, ha, hx⟩ := List.mem_flatMap.mp hx
    have hget := (mem_allAssets h.wellFormed).mp ha
    have hs := h.wellFormed.storable hget
    simp only [Asset.slots, List.mem_append, List.mem_cons, List.not_mem_nil, or_false,
      List.mem_map] at hx
    obtain ((rfl | rfl | rfl) | ⟨p, hp, rfl⟩) | ⟨r, hr, rfl⟩ := hx
    · exact hs.id
    · exact ⟨hs.owner, hs.id⟩
    · exact ⟨hs.owner, h.root hget⟩
    · exact ⟨hs.id, hs.names p hp⟩
    · exact ⟨hs.reporters r hr, hs.id⟩
  · obtain ⟨o, ho, hx⟩ := List.mem_flatMap.mp hx
    obtain ⟨⟨⟨recipient, id⟩, o⟩, hb, rfl⟩ := List.mem_map.mp ho
    have hget : σ.offer? id recipient = some o := (SortedMap.mem_bindings _ _ _).mp hb
    obtain ⟨rfl, rfl⟩ := h.wellFormed.offer_eq hget
    obtain ⟨hid, hrecipient⟩ := h.wellFormed.offer_clean hget
    simp only [Offer.slots, List.mem_cons, List.not_mem_nil, or_false] at hx
    obtain rfl | rfl := hx
    · exact ⟨hid, hrecipient⟩
    · exact ⟨hrecipient, hid⟩

/-- Only the slots of assets and offers hold anything. -/
theorem WellFormed.mem_slots (h : σ.WellFormed) {x : Slot} {v : Bytes}
    (hx : σ.sheet σ.balance x = some v) : x ∈ σ.slots := by
  cases x with
  | asset id =>
    obtain ⟨a, ha, -⟩ := Option.map_eq_some_iff.mp hx
    obtain rfl := h.id_eq ha
    exact mem_slots_of_asset ha (by simp [Asset.slots])
  | property id name =>
    obtain ⟨a, ha, hx⟩ := Option.bind_eq_some_iff.mp hx
    obtain ⟨p, hp, -⟩ := Option.map_eq_some_iff.mp hx
    obtain ⟨hmem, rfl⟩ := (h.storable ha).ascending.find?_eq_some.mp hp
    obtain rfl := h.id_eq ha
    exact mem_slots_of_asset ha
      (List.mem_append_left _ (List.mem_append_right _ (List.mem_map.mpr ⟨p, hmem, rfl⟩)))
  | offer id recipient =>
    obtain ⟨o, ho, -⟩ := Option.map_eq_some_iff.mp hx
    obtain ⟨rfl, rfl⟩ := h.offer_eq ho
    exact mem_slots_of_offer ho (by simp [Offer.slots])
  | balance owner root =>
    obtain ⟨hne, -⟩ := Option.ite_none_left_eq_some.mp hx
    obtain ⟨id, a, ha, rfl, rfl⟩ := exists_of_balance_ne_zero hne
    exact mem_slots_of_asset ha (by simp [Asset.slots])
  | owner account id =>
    obtain ⟨a, ha, hx⟩ := Option.bind_eq_some_iff.mp hx
    obtain ⟨rfl, -⟩ := Option.ite_none_right_eq_some.mp hx
    obtain rfl := h.id_eq ha
    exact mem_slots_of_asset ha (by simp [Asset.slots])
  | reporter account id =>
    obtain ⟨a, ha, hx⟩ := Option.bind_eq_some_iff.mp hx
    obtain ⟨hmem, -⟩ := Option.ite_none_right_eq_some.mp hx
    obtain ⟨r, hr, rfl⟩ := List.mem_map.mp hmem
    obtain rfl := h.id_eq ha
    exact mem_slots_of_asset ha (List.mem_append_right _ (List.mem_map.mpr ⟨r, hr, rfl⟩))
  | recipient account id =>
    obtain ⟨o, ho, -⟩ := Option.map_eq_some_iff.mp hx
    obtain ⟨rfl, rfl⟩ := h.offer_eq ho
    exact mem_slots_of_offer ho (by simp [Offer.slots])

/-- **Sound records have a picture.** -/
theorem Sound.exists_pictured (h : σ.Sound) : ∃ m, σ.Pictured m := by
  obtain ⟨m, -, hm⟩ := Contents.Shows.empty.exec_writes id (σ.sheet σ.balance) (l := σ.slots)
    fun x hx => h.clean_of_mem_slots hx
  refine ⟨m, h, hm.congr fun x => ?_⟩
  have hvalue : ∀ y ∈ σ.slots, id y = x → σ.sheet σ.balance y = σ.sheet σ.balance x := by
    rintro y - rfl
    rfl
  rw [Sheet.setAll_apply hvalue, List.map_id]
  by_cases hx : x ∈ σ.slots
  · rw [if_pos hx]
  · rw [if_neg hx]
    cases hv : σ.sheet σ.balance x with
    | none => rfl
    | some v => exact absurd (h.wellFormed.mem_slots hv) hx

/-! ### Records of what is listed -/

/-- The records that listed assets and offers make; what the assets have by way of properties is
left out. -/
def ofListed (assets : List Asset) (offers : List Offer) : Records where
  assets := .ofList (assets.map fun a => (a.id, a.record))
  offers := .ofList (offers.map fun o => (⟨o.recipient, o.asset⟩, o))

variable {assets : List Asset} {offers : List Offer}

theorem asset?_ofListed (h : AscendingBy Asset.id assets) {id : AssetId} {r : Asset} :
    (ofListed assets offers).asset? id = some r ↔ ∃ a ∈ assets, a.id = id ∧ a.record = r := by
  refine SortedMap.get?_ofList_map fun a ha b hb hid => ?_
  rw [h.eq_of_mem ha hb hid]

theorem offer?_ofListed
    (h : ∀ o ∈ offers, ∀ o' ∈ offers, o.asset = o'.asset → o.recipient = o'.recipient → o = o')
    {id : AssetId} {recipient : AccountId} {o : Offer} :
    (ofListed assets offers).offer? id recipient = some o ↔
      o ∈ offers ∧ o.asset = id ∧ o.recipient = recipient := by
  refine (SortedMap.get?_ofList_map fun o ho o' ho' hkey => ?_).trans ?_
  · obtain ⟨hrecipient, hasset⟩ := Holding.mk.inj hkey
    exact h o ho o' ho' hasset hrecipient
  · constructor
    · rintro ⟨o, ho, hkey, rfl⟩
      obtain ⟨hrecipient, hasset⟩ := Holding.mk.inj hkey
      exact ⟨ho, hasset, hrecipient⟩
    · rintro ⟨ho, rfl, rfl⟩
      exact ⟨o, ho, rfl, rfl⟩

theorem allAssets_ofListed (h : AscendingBy Asset.id assets) :
    (ofListed assets offers).allAssets = assets.map Asset.record := by
  have hascending : (assets.map fun a => (a.id, a.record)).Pairwise
      fun a b => compare a.1 b.1 = .lt := List.pairwise_map.mpr h
  rw [allAssets, ofListed, SortedMap.bindings_ofList hascending, List.map_map]
  rfl

theorem like_allAssets_ofListed (h : AscendingBy Asset.id assets) (offers : List Offer) :
    List.Forall₂ Asset.Like assets (ofListed assets offers).allAssets := by
  rw [allAssets_ofListed h, List.forall₂_map_right_iff]
  exact List.forall₂_same.mpr fun a _ => ⟨_, rfl⟩

end Records

/-! ### What contents list -/

theorem Query.read_eq_ok {α : Type} [JsonForm α] {k v : Bytes} {a : α} :
    read k v = .ok a ↔ decode? v = some a := by
  rw [read]
  cases (decode? v : Option α) <;> simp

theorem Contents.readable_of_properties {m : Contents} {id : AssetId} {l : List Property}
    (h : Registry.properties id m.view = .ok l) : m.Readable id := by
  obtain ⟨stored, hstored, -⟩ := Verdict.bind_eq_ok.mp h
  have hload : (m.view.scan (Key.properties id)).mapM (fun e => Query.read e.1 e.2) = .ok stored :=
    hstored
  intro k v hscope hget
  obtain ⟨p, -, hread⟩ :=
    exists_of_forall₂_left (forall₂_of_mapM_eq_ok hload) (mem_scan.mpr ⟨hscope, hget⟩)
  exact ⟨p, Query.read_eq_ok.mp hread⟩

theorem Registry.complete_eq_ok {m : Contents} {e : Bytes × Bytes} {a : Asset}
    (h : complete e m.view = .ok a) :
    ∃ b : Asset, decode? e.2 = some b ∧ b.Like a ∧ m.Readable a.id := by
  obtain ⟨b, hb, h⟩ := Verdict.bind_eq_ok.mp h
  obtain ⟨l, hl, h⟩ := Verdict.bind_eq_ok.mp h
  obtain rfl := Except.ok.inj h
  exact ⟨b, Query.read_eq_ok.mp hb, ⟨l, rfl⟩, Contents.readable_of_properties hl⟩

namespace Contents

/-- The assets and the offers that contents list, where the audits find nothing. -/
structure Listed (m : Contents) (assets : List Asset) (offers : List Offer) : Prop where
  registry : List.Forall₂
    (fun e a => ∃ b : Asset, decode? e.2 = some b ∧ b.Like a ∧ m.Readable a.id)
    (m.view.scan Namespace.asset.stem) assets
  book : List.Forall₂ (fun e o => decode? e.2 = some o) (m.view.scan Namespace.offer.stem) offers
  indices : ∀ index : IndexKind, Audit.issuesOf index (Audit.expectedEntries assets offers index)
    ((m.view.scan index.space.stem).map Prod.fst) = []
  inventory : m.Counts fun owner root => (Audit.expectedBalances assets).getD ⟨owner, root⟩ 0

variable {m : Contents} {assets : List Asset} {offers : List Offer}

theorem exists_listed (hindices : Audit.indexIssues m.view = .ok [])
    (hinventory : Audit.inventoryIssues m.view = .ok []) :
    ∃ assets offers, m.Listed assets offers := by
  obtain ⟨assets, offers, hall, hoffers, hreports⟩ := Audit.indexIssues_eq_ok.mp hindices
  refine ⟨assets, offers, ?_, ?_, ?_, (Audit.inventoryIssues_eq_nil_iff hall).mp hinventory⟩
  · change (m.view.scan Namespace.asset.stem).mapM Registry.complete m.view = _ at hall
    rw [Query.mapM_view] at hall
    exact (forall₂_of_mapM_eq_ok hall).imp fun _ _ => Registry.complete_eq_ok
  · have hload : (m.view.scan Namespace.offer.stem).mapM (fun e => Query.read e.1 e.2) =
        .ok offers := hoffers
    exact (forall₂_of_mapM_eq_ok hload).imp fun _ _ => Query.read_eq_ok.mp
  · intro index
    have hmem : index ∈ IndexKind.all := by cases index <;> decide
    exact List.flatMap_eq_nil_iff.mp hreports.symm index hmem

namespace Listed

theorem exists_asset (h : m.Listed assets offers) (hm : m.Filed) {k v : Bytes}
    (hk : Namespace.asset.stem <+: k) (hget : m.get? k = some v) :
    ∃ b : Asset, ∃ a ∈ assets, decode? v = some b ∧ b.Like a ∧ k = Key.asset a.id ∧
      m.Readable a.id := by
  obtain ⟨a, ha, b, hb, hlike, hread⟩ :=
    exists_of_forall₂_left h.registry (mem_scan.mpr ⟨hk, hget⟩)
  obtain ⟨l, rfl⟩ := hlike
  exact ⟨b, _, ha, hb, ⟨l, rfl⟩, ((hm k v hget).asset hk b hb).1, hread⟩

theorem of_mem_assets (h : m.Listed assets offers) (hm : m.Filed) {a : Asset} (ha : a ∈ assets) :
    ∃ v, ∃ b : Asset, m.get? (Key.asset a.id) = some v ∧ decode? v = some b ∧ b.Like a ∧
      a.root.Clean := by
  obtain ⟨⟨k, v⟩, hmem, b, hb, ⟨l, rfl⟩, -⟩ := exists_of_forall₂_right h.registry ha
  obtain ⟨hk, hget⟩ := mem_scan.mp hmem
  obtain ⟨rfl, hroot⟩ := (hm k v hget).asset hk b hb
  exact ⟨v, b, hget, hb, ⟨l, rfl⟩, hroot⟩

theorem exists_offer (h : m.Listed assets offers) (hm : m.Filed) {k v : Bytes}
    (hk : Namespace.offer.stem <+: k) (hget : m.get? k = some v) :
    ∃ o ∈ offers, decode? v = some o ∧ k = Key.offer o.asset o.recipient := by
  obtain ⟨o, ho, hdecode⟩ := exists_of_forall₂_left h.book (mem_scan.mpr ⟨hk, hget⟩)
  exact ⟨o, ho, hdecode, (hm k v hget).offer hk o hdecode⟩

theorem of_mem_offers (h : m.Listed assets offers) (hm : m.Filed) {o : Offer} (ho : o ∈ offers) :
    ∃ v, m.get? (Key.offer o.asset o.recipient) = some v ∧ decode? v = some o := by
  obtain ⟨⟨k, v⟩, hmem, hdecode⟩ := exists_of_forall₂_right h.book ho
  obtain ⟨hk, hget⟩ := mem_scan.mp hmem
  obtain rfl := (hm k v hget).offer hk o hdecode
  exact ⟨v, hget, hdecode⟩

/-- Assets are listed in order of identifiers, as their keys are. -/
theorem ascending (h : m.Listed assets offers) (hm : m.Filed) : AscendingBy Asset.id assets := by
  have hkeys : (m.view.scan Namespace.asset.stem).map Prod.fst =
      assets.map fun a => Key.asset a.id := by
    have hscan : List.Forall₂ _ _ assets :=
      (List.forall₂_and_left _ _).mpr ⟨fun e he => mem_scan.mp he, h.registry⟩
    refine map_eq_of_forall₂ hscan ?_
    rintro ⟨k, v⟩ a ⟨⟨hk, hget⟩, b, hb, ⟨l, rfl⟩, -⟩
    exact ((hm k v hget).asset hk b hb).1
  have hascending : ((m.view.scan Namespace.asset.stem).map Prod.fst).Pairwise
      fun k k' => compare k k' = .lt := List.pairwise_map.mpr (m.range _).ascending
  rw [hkeys] at hascending
  exact (List.pairwise_map.mp hascending).imp (Key.compare_single _ _ _).symm.trans

theorem offers_inj (h : m.Listed assets offers) (hm : m.Filed) : ∀ o ∈ offers, ∀ o' ∈ offers,
    o.asset = o'.asset → o.recipient = o'.recipient → o = o' := by
  intro o ho o' ho' hasset hrecipient
  obtain ⟨v, hget, hdecode⟩ := h.of_mem_offers hm ho
  obtain ⟨v', hget', hdecode'⟩ := h.of_mem_offers hm ho'
  rw [hasset, hrecipient, hget'] at hget
  obtain rfl := Option.some.inj hget
  exact Option.some.inj (hdecode.symm.trans hdecode')

/-- **An entry of an index bears witness that its parts are clean.** -/
theorem clean (h : m.Listed assets offers) (index : IndexKind) {entry : Holding}
    (hentry : entry ∈ (Audit.expectedEntries assets offers index).keys) :
    entry.account.Clean ∧ entry.asset.Clean := by
  obtain ⟨k, -, hk⟩ := (Audit.issuesOf_eq_nil_iff.mp (h.indices index)).2 entry hentry
  exact (Key.holding?_eq_some.mp hk).2

theorem clean_of_owner (h : m.Listed assets offers) {a : Asset} (ha : a ∈ assets) :
    a.owner.Clean ∧ a.id.Clean :=
  h.clean .owner (Audit.mem_keys_expectedEntries.mpr ⟨a, ha, rfl⟩)

theorem clean_of_reporter (h : m.Listed assets offers) {a : Asset} (ha : a ∈ assets) {r : Reporter}
    (hr : r ∈ a.reporters) : r.account.Clean ∧ a.id.Clean :=
  h.clean .reporter (Audit.mem_keys_expectedEntries.mpr ⟨a, ha, r, hr, rfl⟩)

theorem clean_of_offer (h : m.Listed assets offers) {o : Offer} (ho : o ∈ offers) :
    o.recipient.Clean ∧ o.asset.Clean :=
  h.clean .recipient (Audit.mem_keys_expectedEntries.mpr ⟨o, ho, rfl⟩)

/-- **The records that are listed are sound.** -/
theorem sound (h : m.Listed assets offers) (hm : m.Filed) :
    (Records.ofListed assets offers).Sound where
  wellFormed := by
    have hascending := h.ascending hm
    have hinj := h.offers_inj hm
    constructor
    · intro id r hr
      obtain ⟨a, -, hid, rfl⟩ := (Records.asset?_ofListed hascending).mp hr
      exact hid
    · intro id r hr
      obtain ⟨a, ha, -, rfl⟩ := (Records.asset?_ofListed hascending).mp hr
      obtain ⟨howner, hid⟩ := h.clean_of_owner ha
      exact ⟨hid, howner, nofun, fun r hr => (h.clean_of_reporter ha hr).1, .nil⟩
    · intro id recipient o ho
      exact ((Records.offer?_ofListed hinj).mp ho).2
    · intro id recipient o ho
      obtain ⟨hmem, rfl, rfl⟩ := (Records.offer?_ofListed hinj).mp ho
      exact (h.clean_of_offer hmem).symm
  root := by
    intro id r hr
    obtain ⟨a, ha, -, rfl⟩ := (Records.asset?_ofListed (h.ascending hm)).mp hr
    obtain ⟨-, -, -, -, -, hroot⟩ := h.of_mem_assets hm ha
    exact hroot

/-- The keys of an index are those of the entries that are asked for. -/
theorem exists_index_iff (h : m.Listed assets offers) {index : IndexKind} {k : Bytes}
    (hk : index.space.stem <+: k) : (∃ v, m.get? k = some v) ↔
      ∃ entry ∈ (Audit.expectedEntries assets offers index).keys, k = index.key entry := by
  obtain ⟨hreads, hholds⟩ := Audit.issuesOf_eq_nil_iff.mp (h.indices index)
  constructor
  · intro hget
    obtain ⟨entry, hentry, hholding⟩ := hreads k (mem_keys_scan.mpr ⟨hk, hget⟩)
    exact ⟨entry, hentry, (IndexKind.key_of_holding? hholding).symm⟩
  · rintro ⟨entry, hentry, rfl⟩
    obtain ⟨k', hk', hholding⟩ := hholds entry hentry
    rw [IndexKind.key_of_holding? hholding]
    exact (mem_keys_scan.mp hk').2

section Picture

variable {m₀ : Contents} (h : m.Listed assets offers) (hm : m.Filed)
  (h₀ : (Records.ofListed assets offers).Pictured m₀)

include h hm h₀

theorem asset_agrees {k : Bytes} (hk : Namespace.asset.stem <+: k) :
    Namespace.asset.Agrees k (m.get? k) (m₀.get? k) := by
  have hasset? := @Records.asset?_ofListed assets offers (h.ascending hm)
  cases hget : m.get? k with
  | some v =>
    obtain ⟨b, a, ha, hb, ⟨l, rfl⟩, rfl, -⟩ := h.exists_asset hm hk hget
    have hget₀ := h₀.shows.get? (.asset b.id)
    rw [Records.sheet, hasset?.mpr ⟨_, ha, rfl, rfl⟩] at hget₀
    change Option.Rel _ _ (m₀.get? (Slot.asset b.id).key)
    rw [hget₀]
    exact .some ⟨b, b.record, hb, decode?_encode (by decide) _, ⟨[], rfl⟩, rfl⟩
  | none =>
    cases hget₀ : m₀.get? k with
    | none => exact .none
    | some v₀ =>
      obtain ⟨r, hr, heq⟩ := h₀.mirrors.mem_scan_assets.mp (mem_scan.mpr ⟨hk, hget₀⟩)
      obtain ⟨rfl, -⟩ := Prod.mk.inj heq
      obtain ⟨a, ha, -, rfl⟩ := hasset?.mp hr
      obtain ⟨v, -, hv, -⟩ := h.of_mem_assets hm ha
      exact absurd (hv.symm.trans hget) (Option.some_ne_none v)

theorem offer_agrees {k : Bytes} (hk : Namespace.offer.stem <+: k) :
    Namespace.offer.Agrees k (m.get? k) (m₀.get? k) := by
  have hoffer? := @Records.offer?_ofListed assets offers (h.offers_inj hm)
  cases hget : m.get? k with
  | some v =>
    obtain ⟨o, ho, hdecode, rfl⟩ := h.exists_offer hm hk hget
    have hget₀ := h₀.shows.get? (.offer o.asset o.recipient)
    rw [Records.sheet, hoffer?.mpr ⟨ho, rfl, rfl⟩] at hget₀
    change Option.Rel _ _ (m₀.get? (Slot.offer o.asset o.recipient).key)
    rw [hget₀]
    exact .some ⟨o, o, hdecode, decode?_encode (by decide) _, rfl⟩
  | none =>
    cases hget₀ : m₀.get? k with
    | none => exact .none
    | some v₀ =>
      obtain ⟨o, ho, heq⟩ := h₀.mirrors.mem_scan_offers.mp (mem_scan.mpr ⟨hk, hget₀⟩)
      obtain ⟨rfl, -⟩ := Prod.mk.inj heq
      obtain ⟨v, hv, -⟩ := h.of_mem_offers hm (hoffer?.mp ho).1
      exact absurd (hv.symm.trans hget) (Option.some_ne_none v)

theorem index_agrees (index : IndexKind) {k : Bytes} (hk : index.space.stem <+: k) :
    m.get? k = none ↔ m₀.get? k = none := by
  have hoffers : ∀ o, o ∈ offers ↔
      (Records.ofListed assets offers).offer? o.asset o.recipient = some o := by
    intro o
    rw [Records.offer?_ofListed (h.offers_inj hm)]
    simp
  have hlike := Records.like_allAssets_ofListed (h.ascending hm) offers
  have hkeys : (∃ v, m.get? k = some v) ↔ ∃ v, m₀.get? k = some v := by
    have hkeys₀ := h₀.mirrors.mem_keys_index index k
    rw [mem_keys_scan, and_iff_right hk] at hkeys₀
    rw [h.exists_index_iff hk, hkeys₀, Audit.expectedEntries_eq hlike]
    simp only [h₀.mirrors.mem_expectedEntries hoffers]
  rw [← Option.ne_none_iff_exists', ← Option.ne_none_iff_exists'] at hkeys
  exact not_iff_not.mp hkeys

theorem inventory_agrees {k : Bytes} (hk : Namespace.inventory.stem <+: k) :
    Namespace.inventory.Agrees k (m.get? k) (m₀.get? k) := by
  have hlike := Records.like_allAssets_ofListed (h.ascending hm) offers
  have hcounts := h.inventory
  rw [Audit.expectedBalances_eq hlike] at hcounts
  refine hcounts.agrees ?_ hk
  exact (Audit.inventoryIssues_eq_nil_iff h₀.mirrors.all).mp h₀.inventoryIssues

/-- **Listed contents resemble the picture of what is listed.** -/
theorem resembles : m.Resembles m₀ where
  agrees ns k hk := by
    cases ns with
    | asset => exact h.asset_agrees hm h₀ hk
    | offer => exact h.offer_agrees hm h₀ hk
    | inventory => exact h.inventory_agrees hm h₀ hk
    | ownerIndex => exact h.index_agrees hm h₀ .owner hk
    | reporterIndex => exact h.index_agrees hm h₀ .reporter hk
    | recipientIndex => exact h.index_agrees hm h₀ .recipient hk
    | property => trivial
  orderly := by
    intro id hne
    obtain ⟨v, hget⟩ := Option.ne_none_iff_exists'.mp hne
    obtain ⟨b, a, -, -, -, hkey, hread⟩ := h.exists_asset hm (List.prefix_append _ _) hget
    rwa [Key.asset_inj.mp hkey]
  orderly₀ id _ := h₀.mirrors.legible.readable id

end Picture

end Listed

/-- **Contents are settled just if they pass the audits and every record lies under its own
key.** -/
theorem settled_iff : m.Settled ↔ Audit.indexIssues m.view = .ok [] ∧
    Audit.inventoryIssues m.view = .ok [] ∧ m.Filed := by
  constructor
  · exact fun h => ⟨h.indexIssues, h.inventoryIssues, h.filed⟩
  · rintro ⟨hindices, hinventory, hfiled⟩
    obtain ⟨assets, offers, h⟩ := exists_listed hindices hinventory
    obtain ⟨m₀, h₀⟩ := (h.sound hfiled).exists_pictured
    exact ⟨_, m₀, h₀, h.resembles hfiled h₀⟩

end Contents

end Custody
