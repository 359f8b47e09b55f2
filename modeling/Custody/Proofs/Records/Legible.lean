import Custody.Proofs.Records.Auditing

/-!
# Legible contents

Contents are **legible** if every record in them can be read.  This asks nothing of the keys beyond
their namespaces, so, other than the picture of sound records, it is kept by writes under any
identifiers whatever, also under those that the checks on an envelope refuse.

* `Contents.Legible`: every stored record can be read.
* `Legible.put`, `Legible.erase`: writes of records, and removals, keep the contents legible.
* `Legible.record?`, `Legible.balance`, `Legible.onAsset`: readings are answered.
* `Records.Mirrors.legible`: contents that picture records are legible.
-/

namespace Custody

/-- Whether bytes may be stored in a namespace: the text of a record of its kind.  What an index
entry holds is never read. -/
def Namespace.Admits : Namespace → Bytes → Prop
  | asset, v => ∃ a : Asset, v = encode a
  | property, v => ∃ p : Property, v = encode p
  | offer, v => ∃ o : Offer, v = encode o
  | inventory, v => ∃ b : Balance, v = encode b
  | ownerIndex, _ | reporterIndex, _ | recipientIndex, _ => True

/-- Contents in which every record can be read. -/
def Contents.Legible (m : Contents) : Prop :=
  ∀ (ns : Namespace) (k v : Bytes), m.get? k = some v → ns.stem <+: k → ns.Admits v

/-- A key belongs to one namespace. -/
theorem Key.eq_of_stems_isPrefix {ns ns' : Namespace} {k : Bytes} (h : ns.stem <+: k)
    (h' : ns'.stem <+: k) : ns = ns' := by
  obtain ⟨rest, rfl⟩ := h'
  exact stem_isPrefix_iff.mp h

namespace Contents.Legible

variable {m : Contents}

/-! ### Writes -/

theorem put (h : m.Legible) {ns : Namespace} {k v : Bytes} (hk : ns.stem <+: k)
    (hv : ns.Admits v) : (m.put k (some v)).Legible := by
  intro ns' k' v' hget hk'
  rw [get?_put] at hget
  by_cases hkey : k' = k
  · rw [if_pos hkey] at hget
    obtain rfl := Option.some.inj hget
    obtain rfl := Key.eq_of_stems_isPrefix hk (hkey ▸ hk')
    exact hv
  · rw [if_neg hkey] at hget
    exact h ns' k' v' hget hk'

theorem erase (h : m.Legible) (k : Bytes) : (m.put k none).Legible := by
  intro ns' k' v' hget hk'
  rw [get?_put] at hget
  by_cases hkey : k' = k
  · rw [if_pos hkey] at hget
    exact nomatch hget
  · rw [if_neg hkey] at hget
    exact h ns' k' v' hget hk'

/-! ### Readings -/

/-- What is stored under a key of a namespace of records is loaded. -/
theorem load? {α : Type} [JsonForm α] {depth : Nat} [LawfulForm α depth]
    (hdepth : depth ≤ Json.maxDepth) {k : Bytes}
    (hk : ∀ v, m.get? k = some v → ∃ a : α, v = encode a) :
    ∃ o : Option α, Query.load? k m.view = .ok o := by
  cases hget : m.get? k with
  | none => exact ⟨none, Query.load?_eq hdepth hget⟩
  | some v =>
    obtain ⟨a, rfl⟩ := hk v hget
    exact ⟨some a, Query.load?_eq hdepth hget⟩

theorem record? (h : m.Legible) (id : AssetId) : ∃ a, Registry.record? id m.view = .ok a :=
  load? (by decide) fun v hget => h .asset _ v hget (List.prefix_append _ _)

theorem balance (h : m.Legible) (owner : AccountId) (root : AssetId) :
    ∃ amount, Inventory.balance owner root m.view = .ok amount := by
  have hstem : Namespace.inventory.stem <+: Key.balance owner root := by
    rw [Key.balance, Key.pair, List.append_assoc]
    exact List.prefix_append _ _
  obtain ⟨o, ho⟩ : ∃ o : Option Balance, Query.load? (Key.balance owner root) m.view = .ok o :=
    load? (by decide) fun v hget => h .inventory _ v hget hstem
  exact ⟨_, by rw [Inventory.balance, Query.bind_view, ho]; rfl⟩

theorem onAsset (h : m.Legible) (id : AssetId) :
    ∃ offers, OfferBook.onAsset id m.view = .ok offers := by
  have hread : ∀ entry ∈ m.view.scan (Key.offers id), ∃ o : Offer,
      Query.read entry.1 entry.2 = .ok o ∧ True := by
    intro entry hentry
    obtain ⟨hscope, hget⟩ := mem_scan.mp hentry
    have hstem : Namespace.offer.stem <+: entry.1 := by
      refine List.IsPrefix.trans ?_ hscope
      rw [Key.offers, Key.scope, List.append_assoc]
      exact List.prefix_append _ _
    obtain ⟨o, ho⟩ := h .offer _ _ hget hstem
    exact ⟨o, by rw [ho]; exact Query.read_encode (by decide) _ o, trivial⟩
  obtain ⟨offers, hoffers, -⟩ := exists_mapM_ok hread
  exact ⟨offers, hoffers⟩

end Contents.Legible

/-- Contents that picture records are legible. -/
theorem Records.Mirrors.legible {σ : Records} {β : Balances} {m : Contents} (h : σ.Mirrors β m) :
    m.Legible := by
  intro ns k v hget hk
  obtain ⟨x, -, rfl⟩ := h.shows.keys k v hget
  obtain rfl := Slot.stem_isPrefix_key.mp hk
  have hx : σ.sheet β x = some v := (h.shows.get? x).symm.trans hget
  cases x with
  | asset id =>
    obtain ⟨a, -, ha⟩ := Option.map_eq_some_iff.mp hx
    exact ⟨_, ha.symm⟩
  | property id name =>
    obtain ⟨a, -, ha⟩ := Option.bind_eq_some_iff.mp hx
    obtain ⟨p, -, hp⟩ := Option.map_eq_some_iff.mp ha
    exact ⟨p, hp.symm⟩
  | offer id recipient =>
    obtain ⟨o, -, ho⟩ := Option.map_eq_some_iff.mp hx
    exact ⟨o, ho.symm⟩
  | balance owner root =>
    obtain ⟨-, hb⟩ := Option.ite_none_left_eq_some.mp hx
    exact ⟨_, (Option.some.inj hb).symm⟩
  | owner account id => trivial
  | reporter account id => trivial
  | recipient account id => trivial

end Custody
