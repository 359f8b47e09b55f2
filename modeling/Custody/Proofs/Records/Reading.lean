import Custody.Ledger.Audit
import Custody.Proofs.Records.Basic

/-!
# Reading records

On a map of bytes that shows records, every query answers what the records say.  Records are read
back as they were written (`decode?_encode`), and a scan finds the entries of a list that is known
beforehand, so nothing is refused.

* `Mirrors.find?`, `Mirrors.all`: assets, with their properties.
* `Mirrors.offer?`, `Mirrors.onAsset`, `Mirrors.allOffers`: offers.
* `Mirrors.balance`: balances.
-/

namespace Custody

open Std

namespace Query

variable {α : Type} [JsonForm α] {depth : Nat} [LawfulForm α depth]

omit [LawfulForm α depth] in
theorem read_of_decode? {v : Bytes} {a : α} (h : decode? v = some a) (key : Bytes) :
    read key v = .ok a := by rw [read, h]

theorem read_encode (h : depth ≤ Json.maxDepth) (key : Bytes) (a : α) :
    read key (encode a) = .ok a := read_of_decode? (decode?_encode h a) key

/-- A key that holds the bytes of a record, or nothing, is loaded as that record, or none. -/
theorem load?_eq (h : depth ≤ Json.maxDepth) {v : View} {key : Bytes} {o : Option α}
    (ho : v.get? key = o.map encode) : load? key v = .ok o := by
  have hget : get? key v = .ok (o.map encode) := congrArg Except.ok ho
  rw [load?, bind_view, hget]
  cases o with
  | none => rfl
  | some a =>
    change (do let a ← (liftM (read key (encode a) : Verdict α) : Query α); pure (some a)) v = _
    rw [bind_view, verdict_view, read_encode h]
    rfl

theorem readAll_map (h : depth ≤ Json.maxDepth) {β : Type} (key : β → Bytes) (f : β → α)
    (l : List β) : readAll (l.map fun b => (key b, encode (f b))) = .ok (l.map f) := by
  induction l with
  | nil => rfl
  | cons b rest ih =>
    simp only [readAll, List.map_cons, List.mapM_cons, read_encode h] at ih ⊢
    rw [ih]
    rfl

theorem loadAll_eq (h : depth ≤ Json.maxDepth) {β : Type} (key : β → Bytes) (f : β → α)
    {l : List β} {v : View} {stem : Bytes}
    (hl : v.scan stem = l.map fun b => (key b, encode (f b))) :
    loadAll stem v = .ok (l.map f) := by
  change (readAll (v.scan stem) : Verdict (List α)) = _
  rw [hl, readAll_map h]

end Query

theorem Property.sortByName_eq {l : List Property} (h : AscendingBy name l) :
    sortByName l = l := by
  refine List.mergeSort_of_pairwise (h.imp fun hpq => ?_)
  rw [hpq]
  rfl

/-- The entries of the properties of an asset, wherever the slots of the asset hold a list that is
in order of names. -/
theorem Contents.Shows.scan_properties {m : Contents} {f : Sheet} (h : m.Shows f) {id : AssetId}
    {l : List Property} (hl : AscendingBy Property.name l)
    (hf : ∀ name, f (.property id name) = (l.find? fun p => p.name == name).map encode) :
    m.view.scan (Key.properties id) = l.map fun p => (Key.property id p.name, encode p) := by
  refine h.scan_eq ?_ fun k v => ⟨?_, ?_⟩
  · rw [List.pairwise_map]
    exact hl.imp fun hpq => (Key.compare_pair _ _ _ _).trans hpq
  · intro hkv
    obtain ⟨p, hp, heq⟩ := List.mem_map.mp hkv
    obtain ⟨rfl, rfl⟩ := Prod.mk.inj heq
    have hx : f (.property id p.name) = some (encode p) := by
      rw [hf, hl.find?_eq_some.mpr ⟨hp, rfl⟩]
      rfl
    exact ⟨.property id p.name, rfl, (Slot.scope_isPrefix_key (h.clean hx)).mpr ⟨rfl, rfl⟩, hx⟩
  · rintro ⟨x, rfl, hscope, hx⟩
    obtain ⟨hspace, hhead⟩ := (Slot.scope_isPrefix_key (h.clean hx)).mp hscope
    cases x with
    | property id' name =>
      obtain rfl : id' = id := Ident.bytes_inj.mp (Option.some.inj hhead)
      obtain ⟨p, hp, rfl⟩ := Option.map_eq_some_iff.mp ((hf name).symm.trans hx)
      obtain ⟨hmem, rfl⟩ := hl.find?_eq_some.mp hp
      exact List.mem_map.mpr ⟨p, hmem, rfl⟩
    | _ => exact absurd hspace (by simp [Slot.space])

namespace Records.Mirrors

variable {σ : Records} {β : Balances} {m : Contents}

/-! ### Assets -/

theorem record? (h : σ.Mirrors β m) (id : AssetId) :
    Registry.record? id m.view = .ok ((σ.asset? id).map Asset.record) := by
  refine Query.load?_eq (by decide) ?_
  refine (h.shows.get? (.asset id)).trans ?_
  rw [sheet, Option.map_map]
  rfl

theorem contains (h : σ.Mirrors β m) (id : AssetId) :
    Registry.contains id m.view = .ok (σ.asset? id).isSome := by
  have hget : m.get? (Key.asset id) = (σ.asset? id).map fun a => encode a.record :=
    h.shows.get? (.asset id)
  change Except.ok (m.get? (Key.asset id)).isSome = _
  rw [hget, Option.isSome_map]

theorem properties (h : σ.Mirrors β m) {id : AssetId} {a : Asset} (ha : σ.asset? id = some a) :
    Registry.properties id m.view = .ok a.properties := by
  have hstorable := h.wellFormed.storable ha
  have hslot : ∀ name, σ.sheet β (.property id name) =
      (a.properties.find? fun p => p.name == name).map encode := fun name => by
    simp [sheet, ha, Asset.property?]
  have hscan := h.shows.scan_properties hstorable.ascending hslot
  have hload : Query.loadAll (Key.properties id) m.view = .ok (a.properties.map fun p => p) :=
    Query.loadAll_eq (by decide) _ _ hscan
  rw [List.map_id'] at hload
  change (Query.loadAll (Key.properties id) m.view >>= fun l =>
    pure (Property.sortByName l)) = _
  rw [hload]
  exact congrArg Except.ok (Property.sortByName_eq hstorable.ascending)

/-- **An asset is found as it was stored, with its properties.** -/
theorem find? (h : σ.Mirrors β m) (id : AssetId) :
    Registry.find? id m.view = .ok (σ.asset? id) := by
  rw [Registry.find?, Query.bind_view, h.record? id]
  cases ha : σ.asset? id with
  | none => rfl
  | some a =>
    change (Registry.properties id m.view >>= fun l =>
      pure (some { a.record with properties := l })) = _
    rw [h.properties ha]
    rfl

theorem get (h : σ.Mirrors β m) (id : AssetId) :
    Registry.get id m.view = σ.get id := by
  rw [Registry.get, Query.bind_view, h.find? id, Records.get]
  cases σ.asset? id <;> rfl

/-! ### Balances -/

theorem balance (h : σ.Mirrors β m) (owner : AccountId) (root : AssetId) :
    Inventory.balance owner root m.view = .ok (β owner root) := by
  have hget : m.view.get? (Key.balance owner root) =
      (if β owner root = 0 then none else some (Balance.mk (β owner root))).map encode := by
    refine (h.shows.get? (.balance owner root)).trans ?_
    rw [sheet]
    split <;> rfl
  rw [Inventory.balance, Query.bind_view, Query.load?_eq (by decide) hget]
  by_cases hzero : β owner root = 0
  · simp [hzero]
    rfl
  · simp [hzero]
    rfl

/-! ### Offers -/

theorem offer? (h : σ.Mirrors β m) (id : AssetId) (recipient : AccountId) :
    OfferBook.find? id recipient m.view = .ok (σ.offer? id recipient) :=
  Query.load?_eq (by decide) (h.shows.get? (.offer id recipient))

theorem getOffer (h : σ.Mirrors β m) (id : AssetId) (recipient : AccountId) :
    OfferBook.get id recipient m.view = σ.getOffer id recipient := by
  rw [OfferBook.get, Query.bind_view, h.offer? id recipient, Records.getOffer]
  cases σ.offer? id recipient <;> rfl

/-- **The offers on an asset are found in order of recipients.** -/
theorem onAsset (h : σ.Mirrors β m) (id : AssetId) :
    OfferBook.onAsset id m.view = .ok (σ.offersOn id) := by
  have hscan : m.view.scan (Key.offers id) =
      (σ.offersOn id).map fun o => (Key.offer id o.recipient, encode o) := by
    refine h.shows.scan_eq ?_ fun k v => ⟨?_, ?_⟩
    · rw [List.pairwise_map]
      exact (h.wellFormed.offersOn_ascending id).imp fun hab =>
        (Key.compare_pair _ _ _ _).trans hab
    · intro hkv
      obtain ⟨o, ho, heq⟩ := List.mem_map.mp hkv
      obtain ⟨rfl, rfl⟩ := Prod.mk.inj heq
      obtain ⟨recipient, ho⟩ := σ.mem_offersOn.mp ho
      obtain ⟨rfl, rfl⟩ := h.wellFormed.offer_eq ho
      have hx : σ.sheet β (.offer o.asset o.recipient) = some (encode o) := by
        rw [sheet, ho]
        rfl
      exact ⟨_, rfl, (Slot.scope_isPrefix_key (h.shows.clean hx)).mpr ⟨rfl, rfl⟩, hx⟩
    · rintro ⟨x, rfl, hscope, hx⟩
      obtain ⟨hspace, hhead⟩ := (Slot.scope_isPrefix_key (h.shows.clean hx)).mp hscope
      cases x with
      | offer id' recipient =>
        obtain rfl : id' = id := Ident.bytes_inj.mp (Option.some.inj hhead)
        obtain ⟨o, ho, rfl⟩ := Option.map_eq_some_iff.mp hx
        obtain ⟨-, rfl⟩ := h.wellFormed.offer_eq ho
        exact List.mem_map.mpr ⟨o, σ.mem_offersOn.mpr ⟨_, ho⟩, rfl⟩
      | _ => exact absurd hspace (by simp [Slot.space])
  have hload : Query.loadAll (Key.offers id) m.view = .ok ((σ.offersOn id).map fun o => o) :=
    Query.loadAll_eq (by decide) _ _ hscan
  rwa [List.map_id'] at hload

end Records.Mirrors

end Custody
