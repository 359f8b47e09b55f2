import Custody.Proofs.Ledger.Consistency
import Custody.Proofs.Records.Regular

/-!
# Stored records are in their form

Nothing looks at the form of what is stored: the search for a grant or a property takes the order
of the list for given, and so does the merging of materials.  In every reachable store the form is
there, every record lies under its own key, and what keys are made of is neither empty nor broken
by a separator.

* `Slot.Proper`: a slot whose identifiers can name something.
* `Ledger.Reachable.regular`: a reachable store pictures regular records.
* `Ledger.records_regular`: **stored records are in their form.**
-/

namespace Custody

/-- A slot whose identifiers are proper. -/
def Slot.Proper : Slot → Prop
  | asset id => id.Proper
  | property id name => id.Proper ∧ name.Proper
  | offer id account => id.Proper ∧ account.Proper
  | balance account root => account.Proper ∧ root.Proper
  | owner account id | reporter account id | recipient account id => account.Proper ∧ id.Proper

namespace Records

variable {σ : Records} {m : Contents}

/-- A balance that is not zero is that of some asset. -/
theorem exists_of_balance_ne_zero {owner : AccountId} {root : AssetId}
    (h : σ.balance owner root ≠ 0) : ∃ id a, σ.asset? id = some a ∧ a.owner = owner ∧
      a.root = root := by
  rw [balance, total, SortedMap.sum] at h
  by_contra hnone
  refine h (List.sum_eq_zero fun n hn => ?_)
  obtain ⟨⟨id, a⟩, hb, rfl⟩ := List.mem_map.mp hn
  have ha : σ.asset? id = some a := (SortedMap.mem_bindings _ _ _).mp hb
  exact if_neg fun heq => hnone ⟨id, a, ha, heq.1, heq.2⟩

/-- The slots that regular records fill are proper. -/
theorem Regular.proper (h : σ.Regular) (hσ : σ.WellFormed) {x : Slot} {v : Bytes}
    (hx : σ.sheet σ.balance x = some v) : x.Proper := by
  have hid : ∀ {id a}, σ.asset? id = some a → id.Proper := fun ha => hσ.id_eq ha ▸ (h.asset ha).id
  have hoffer : ∀ {id recipient o}, σ.offer? id recipient = some o →
      id.Proper ∧ recipient.Proper := fun ho => by
    obtain ⟨rfl, rfl⟩ := hσ.offer_eq ho
    exact ⟨(h.offer ho).asset, (h.offer ho).recipient⟩
  cases x with
  | asset id =>
    obtain ⟨a, ha, -⟩ := Option.map_eq_some_iff.mp hx
    exact hid ha
  | property id name =>
    obtain ⟨a, ha, hp⟩ := Option.bind_eq_some_iff.mp hx
    obtain ⟨p, hp, -⟩ := Option.map_eq_some_iff.mp hp
    obtain ⟨hmem, rfl⟩ := (h.asset ha).properties.find?_eq_some.mp hp
    exact ⟨hid ha, (h.asset ha).names p hmem⟩
  | offer id recipient =>
    obtain ⟨o, ho, -⟩ := Option.map_eq_some_iff.mp hx
    exact hoffer ho
  | balance owner root =>
    obtain ⟨hne, -⟩ := Option.ite_none_left_eq_some.mp hx
    obtain ⟨id, a, ha, rfl, rfl⟩ := exists_of_balance_ne_zero hne
    exact ⟨(h.asset ha).owner, (h.asset ha).root⟩
  | owner account id =>
    obtain ⟨a, ha, howner⟩ := Option.bind_eq_some_iff.mp hx
    obtain ⟨rfl, -⟩ := Option.ite_none_right_eq_some.mp howner
    exact ⟨(h.asset ha).owner, hid ha⟩
  | reporter account id =>
    obtain ⟨a, ha, hmem⟩ := Option.bind_eq_some_iff.mp hx
    obtain ⟨hmem, -⟩ := Option.ite_none_right_eq_some.mp hmem
    obtain ⟨r, hr, rfl⟩ := List.mem_map.mp hmem
    exact ⟨((h.asset ha).accounts r hr).1, hid ha⟩
  | recipient account id =>
    obtain ⟨o, ho, -⟩ := Option.map_eq_some_iff.mp hx
    exact (hoffer ho).symm

/-- The entries of the asset records. -/
theorem Mirrors.mem_scan_assets {β : Balances} (h : σ.Mirrors β m) {entry : Bytes × Bytes} :
    entry ∈ m.view.scan Namespace.asset.stem ↔ ∃ a, σ.asset? a.id = some a ∧
      entry = (Key.asset a.id, encode a.record) := by
  obtain ⟨k, v⟩ := entry
  rw [h.shows.mem_scan]
  constructor
  · rintro ⟨x, rfl, hstem, hx⟩
    cases x with
    | asset id =>
      obtain ⟨a, ha, rfl⟩ := Option.map_eq_some_iff.mp hx
      obtain rfl := h.wellFormed.id_eq ha
      exact ⟨a, ha, rfl⟩
    | _ => exact absurd (Slot.stem_isPrefix_key.mp hstem) (by simp [Slot.space])
  · rintro ⟨a, ha, heq⟩
    obtain ⟨rfl, rfl⟩ := Prod.mk.inj heq
    refine ⟨.asset a.id, rfl, (Slot.stem_isPrefix_key (x := .asset a.id)).mpr rfl, ?_⟩
    rw [sheet, ha]
    rfl

end Records

namespace Ledger

open Records

/-- **A reachable store pictures regular records.** -/
theorem Reachable.regular {s : Store} (h : Reachable s) : ∃ σ m,
    s = .ofContents m ∧ Records.Pictured σ m ∧ σ.Regular :=
  h.stable (fun hwf hσ hcheck hstep => hstep.regular hwf hσ (Envelope.proper_of_check hcheck))
    regular_empty

/-- **Stored records are in their form.**  In every reachable store, each asset lies under the key
of its own identifier, without its properties; as it is found, with them, it is regular, and what it
is composed of exists.  Each offer lies under the key of its own asset and recipient; it is regular,
and its asset is there, is not final and is not the recipient's.  Every key is made of identifiers
that are not empty and free of the separator. -/
theorem records_regular {s : Store} (h : Reachable s) : ∃ assets offers,
    Registered s assets ∧ Pending s offers ∧
    (∀ entry ∈ s.scan Namespace.asset.stem, ∃ a ∈ assets,
      entry = (Key.asset a.id, encode { a with properties := [] })) ∧
    (∀ a ∈ assets, a.Regular ∧ ∀ m ∈ a.materials, ∃ c ∈ assets, c.id = m.component) ∧
    (∀ entry ∈ s.scan Namespace.offer.stem, ∃ o ∈ offers,
      entry = (Key.offer o.asset o.recipient, encode o)) ∧
    (∀ o ∈ offers, o.Regular ∧
      ∃ a ∈ assets, a.id = o.asset ∧ a.isFinal = false ∧ a.owner ≠ o.recipient) ∧
    ∀ k v, s.get? k = some v → ∃ x : Slot, x.Proper ∧ x.key = k := by
  obtain ⟨σ, m, rfl, hm, hσ⟩ := h.regular
  have hwf := hm.sound.wellFormed
  have hassets := fun a => mem_allAssets hwf (a := a)
  have hstored : ∀ {id a}, σ.asset? id = some a → a ∈ σ.allAssets ∧ a.id = id := fun ha =>
    ⟨(hassets _).mpr (hwf.asset?_id ha), hwf.id_eq ha⟩
  obtain ⟨offers, hpending, hmem⟩ := exists_pending hm
  refine ⟨σ.allAssets, offers, registered hm, hpending, ?_, ?_, ?_, ?_, ?_⟩
  · intro entry hentry
    rw [scan_ofContents] at hentry
    obtain ⟨a, ha, rfl⟩ := hm.mirrors.mem_scan_assets.mp hentry
    exact ⟨a, (hassets a).mpr ha, rfl⟩
  · intro a ha
    have ha := (hassets a).mp ha
    refine ⟨hσ.asset ha, fun m hm => ?_⟩
    obtain ⟨c, hc⟩ := Option.ne_none_iff_exists'.mp (hσ.components ha m hm)
    exact ⟨c, (hstored hc).1, (hstored hc).2⟩
  · intro entry hentry
    rw [scan_ofContents] at hentry
    obtain ⟨o, ho, rfl⟩ := hm.mirrors.mem_scan_offers.mp hentry
    exact ⟨o, (hmem o).mpr ho, rfl⟩
  · intro o ho
    have ho := (hmem o).mp ho
    obtain ⟨a, ha, hmutable, hother⟩ := hσ.offered ho
    exact ⟨hσ.offer ho, a, (hstored ha).1, (hstored ha).2, hmutable, hother⟩
  · intro k v hk
    obtain ⟨x, -, rfl⟩ := hm.shows.keys k v hk
    exact ⟨x, hσ.proper hwf ((hm.shows.get? x).symm.trans hk), rfl⟩

/-- An asset that was composed and has a reporter. -/
theorem regular_of_composed :
    (Registry.find? ⟨"bread"⟩).run
        (run {} [⟨⟨"alice"⟩, 1, .createAsset ⟨"flour"⟩ "Flour" 10 "kg" none []⟩,
          ⟨⟨"alice"⟩, 2, .createAsset ⟨"bread"⟩ "Bread" 1 "loaf" none []⟩,
          ⟨⟨"alice"⟩, 3, .addMaterials ⟨"bread"⟩ [⟨⟨"flour"⟩, 2⟩]⟩,
          ⟨⟨"alice"⟩, 4, .createReporter ⟨"bread"⟩ ⟨"bob"⟩ [⟨"weight"⟩, ⟨"crumb"⟩]⟩] .empty) =
      .ok (some { Asset.fresh ⟨"bread"⟩ "Bread" ⟨"alice"⟩ 1 "loaf" with
        materials := [⟨⟨"flour"⟩, 2⟩]
        reporters := [⟨⟨"bob"⟩, [⟨"crumb"⟩, ⟨"weight"⟩], 4⟩] }) ∧
    ({ Asset.fresh ⟨"bread"⟩ "Bread" ⟨"alice"⟩ 1 "loaf" with
      materials := [⟨⟨"flour"⟩, 2⟩]
      reporters := [⟨⟨"bob"⟩, [⟨"crumb"⟩, ⟨"weight"⟩], 4⟩] } : Asset).Regular := by
  obtain ⟨assets, offers, hregistered, -, -, hregular, -⟩ := records_regular (Reachable.empty.run {}
    [⟨⟨"alice"⟩, 1, .createAsset ⟨"flour"⟩ "Flour" 10 "kg" none []⟩,
      ⟨⟨"alice"⟩, 2, .createAsset ⟨"bread"⟩ "Bread" 1 "loaf" none []⟩,
      ⟨⟨"alice"⟩, 3, .addMaterials ⟨"bread"⟩ [⟨⟨"flour"⟩, 2⟩]⟩,
      ⟨⟨"alice"⟩, 4, .createReporter ⟨"bread"⟩ ⟨"bob"⟩ [⟨"weight"⟩, ⟨"crumb"⟩]⟩])
  have hfound : (Registry.find? ⟨"bread"⟩).run
      (run {} [⟨⟨"alice"⟩, 1, .createAsset ⟨"flour"⟩ "Flour" 10 "kg" none []⟩,
        ⟨⟨"alice"⟩, 2, .createAsset ⟨"bread"⟩ "Bread" 1 "loaf" none []⟩,
        ⟨⟨"alice"⟩, 3, .addMaterials ⟨"bread"⟩ [⟨⟨"flour"⟩, 2⟩]⟩,
        ⟨⟨"alice"⟩, 4, .createReporter ⟨"bread"⟩ ⟨"bob"⟩ [⟨"weight"⟩, ⟨"crumb"⟩]⟩] .empty) =
      .ok (some { Asset.fresh ⟨"bread"⟩ "Bread" ⟨"alice"⟩ 1 "loaf" with
        materials := [⟨⟨"flour"⟩, 2⟩]
        reporters := [⟨⟨"bob"⟩, [⟨"crumb"⟩, ⟨"weight"⟩], 4⟩] }) := by
    decide +kernel
  have hlisted := Except.ok.inj ((hregistered.find? _).symm.trans hfound)
  exact ⟨hfound, (hregular _ (List.mem_of_find?_eq_some hlisted)).1⟩

end Ledger

end Custody
