import Custody.Proofs.Records.Legible
import Custody.Proofs.Store.Parts

/-!
# Contents that resemble each other

Contents that come from outside need not be the bytes that a run leaves: records may be written in
another way, properties may be stored for assets that do not exist, a balance of zero may be stored.
They **resemble** other contents if under each key both hold a record of the same meaning, an entry
of an index, or nothing.  Only properties may differ, as long as those of stored assets can be read:
no decision of the ledger depends on them.

* `Asset.Like`: the same asset up to its properties.
* `Contents.Resembles`: the relation; `Resembles.put` keeps it under writes to both sides.
* `Contents.Rewrites`, `Contents.rewrites_withProperties`: what a writing of properties does, on any
  contents.
-/

namespace Custody

/-! ### What stored bytes denote -/

/-- Two values that denote records in a relation. -/
def Denote {α : Type} [JsonForm α] (R : α → α → Prop) (v v₀ : Bytes) : Prop :=
  ∃ a a₀, decode? v = some a ∧ decode? v₀ = some a₀ ∧ R a a₀

/-- The same asset, but perhaps for its properties. -/
def Asset.Like (a a₀ : Asset) : Prop := ∃ properties, a₀ = { a with properties := properties }

theorem Asset.Like.refl (a : Asset) : a.Like a := ⟨_, rfl⟩

/-- The amount of a stored balance; it is zero where nothing is stored. -/
def Balance.amountOf? : Option Bytes → Option Nat
  | none => some 0
  | some v => (decode? v).map Balance.amount

/-- Whether what two contents hold under a key of a namespace is the same.  A balance of zero may be
stored on the left alone, under a key that can be read. -/
def Namespace.Agrees (ns : Namespace) (k : Bytes) (w w₀ : Option Bytes) : Prop :=
  match ns with
  | asset => Option.Rel (Denote fun a a₀ : Asset => a.Like a₀ ∧ k = Key.asset a.id) w w₀
  | offer => Option.Rel (Denote (Eq : Offer → Offer → Prop)) w w₀
  | inventory => (∃ n, Balance.amountOf? w = some n ∧ Balance.amountOf? w₀ = some n) ∧
    (w = none ∨ w₀ ≠ none ∨ ∃ h, Key.holding? .inventory k = some h)
  | ownerIndex | reporterIndex | recipientIndex => w = none ↔ w₀ = none
  | property => True

theorem Key.asset_inj {id id' : AssetId} : asset id = asset id' ↔ id = id' := by
  rw [asset, asset, single, single, List.append_cancel_left_eq, Ident.bytes_inj]

theorem Key.stem_isPrefix_scope (ns : Namespace) (first : Bytes) : ns.stem <+: scope ns first := by
  rw [scope, List.append_assoc]
  exact List.prefix_append _ _

theorem Key.stem_isPrefix_pair (ns : Namespace) (first second : Bytes) :
    ns.stem <+: pair ns first second := by
  rw [pair, List.append_assoc]
  exact List.prefix_append _ _

namespace Contents

/-- The stored properties of an asset can be read. -/
def Readable (m : Contents) (id : AssetId) : Prop :=
  ∀ k v, Key.properties id <+: k → m.get? k = some v → ∃ p : Property, decode? v = some p

/-- The stored properties of every stored asset can be read. -/
def Orderly (m : Contents) : Prop := ∀ id, m.get? (Key.asset id) ≠ none → m.Readable id

theorem Legible.readable {m : Contents} (h : m.Legible) (id : AssetId) : m.Readable id := by
  intro k v hscope hget
  have hk : Namespace.property.stem <+: k := (Key.stem_isPrefix_scope _ _).trans hscope
  obtain ⟨p, rfl⟩ := h .property k v hget hk
  exact ⟨p, decode?_encode (by decide) p⟩

/-- Both contents hold the same, up to the bytes it is written in and to properties. -/
structure Resembles (m m₀ : Contents) : Prop where
  agrees : ∀ (ns : Namespace) (k : Bytes), ns.stem <+: k → ns.Agrees k (m.get? k) (m₀.get? k)
  orderly : m.Orderly
  orderly₀ : m₀.Orderly

variable {m m₀ m' m₀' : Contents} {ns : Namespace} {k : Bytes}

/-! ### Writes outside of the properties -/

theorem Readable.put {id : AssetId} (h : m.Readable id) (hk : ns.stem <+: k) (hns : ns ≠ .property)
    (w : Option Bytes) : (m.put k w).Readable id := by
  intro k' v hscope hget
  have hkey : k' ≠ k := by
    rintro rfl
    exact hns (Key.eq_of_stems_isPrefix hk ((Key.stem_isPrefix_scope _ _).trans hscope))
  rw [get?_put, if_neg hkey] at hget
  exact h k' v hscope hget

theorem Orderly.put (h : m.Orderly) (hk : ns.stem <+: k) (hns : ns ≠ .property)
    (hread : ∀ id, k = Key.asset id → m.Readable id) (w : Option Bytes) : (m.put k w).Orderly := by
  intro id hget
  rw [get?_put] at hget
  split at hget
  · next hkey => exact (hread id hkey.symm).put hk hns w
  · exact (h id hget).put hk hns w

/-- **Writing what agrees keeps the contents alike.** -/
theorem Resembles.put (h : m.Resembles m₀) (hk : ns.stem <+: k) (hns : ns ≠ .property)
    (hread : ∀ id, k = Key.asset id → m.Readable id ∧ m₀.Readable id) {w w₀ : Option Bytes}
    (hw : ns.Agrees k w w₀) : (m.put k w).Resembles (m₀.put k w₀) where
  agrees ns' k' hk' := by
    rw [get?_put, get?_put]
    by_cases hkey : k' = k
    · subst hkey
      obtain rfl := Key.eq_of_stems_isPrefix hk hk'
      rw [if_pos rfl, if_pos rfl]
      exact hw
    · rw [if_neg hkey, if_neg hkey]
      exact h.agrees ns' k' hk'
  orderly := h.orderly.put hk hns (fun id hid => (hread id hid).1) w
  orderly₀ := h.orderly₀.put hk hns (fun id hid => (hread id hid).2) w₀

/-! ### Writing properties -/

/-- The second contents differ from the first in properties alone; those that could be read can
still be, and those of the asset can be read in any case. -/
structure Rewrites (m m' : Contents) (id : AssetId) : Prop where
  get?_eq : ∀ k, ¬ Namespace.property.stem <+: k → m'.get? k = m.get? k
  keeps : ∀ i, m.Readable i → m'.Readable i
  readable : m'.Readable id

theorem Rewrites.orderly {id : AssetId} (h : m.Rewrites m' id) (hm : m.Orderly) : m'.Orderly := by
  intro i hi
  have hstem : ¬ Namespace.property.stem <+: Key.asset i := fun hk =>
    nomatch Key.stem_isPrefix_iff.mp hk
  rw [h.get?_eq _ hstem] at hi
  exact h.keeps i (hm i hi)

theorem Resembles.rewrites {id : AssetId} (h : m.Resembles m₀) (hm : m.Rewrites m' id)
    (hm₀ : m₀.Rewrites m₀' id) : m'.Resembles m₀' where
  agrees ns k hk := by
    by_cases hns : ns = .property
    · subst hns
      trivial
    · have hstem : ¬ Namespace.property.stem <+: k := fun hk' =>
        hns (Key.eq_of_stems_isPrefix hk hk')
      rw [hm.get?_eq k hstem, hm₀.get?_eq k hstem]
      exact h.agrees ns k hk
  orderly := hm.orderly h.orderly
  orderly₀ := hm₀.orderly h.orderly₀

theorem get?_foldl_erase (l : List (Bytes × Bytes)) (m : Contents) (k : Bytes) :
    (l.foldl (fun m e => m.put e.1 none) m).get? k =
      if k ∈ l.map Prod.fst then none else m.get? k := by
  induction l generalizing m with
  | nil => rfl
  | cons e rest ih =>
    rw [List.foldl_cons, ih, get?_put, List.map_cons]
    simp only [List.mem_cons]
    by_cases hk : k = e.1 <;> simp only [hk, true_or, false_or, if_true, if_false, ite_self]

/-- After records are written, a key holds one that was written to it, or what it held before. -/
theorem get?_foldl_save {α : Type} [JsonForm α] (key : α → Bytes) (l : List α) (m : Contents)
    (k : Bytes) :
    (∃ a ∈ l, key a = k ∧
      (l.foldl (fun m a => m.put (key a) (some (encode a))) m).get? k = some (encode a)) ∨
      (∀ a ∈ l, key a ≠ k) ∧
        (l.foldl (fun m a => m.put (key a) (some (encode a))) m).get? k = m.get? k := by
  induction l generalizing m with
  | nil => exact Or.inr ⟨nofun, rfl⟩
  | cons a rest ih =>
    rw [List.foldl_cons]
    rcases ih (m.put (key a) (some (encode a))) with ⟨b, hb, hkey, hget⟩ | ⟨hne, hget⟩
    · exact Or.inl ⟨b, List.mem_cons_of_mem _ hb, hkey, hget⟩
    · rw [get?_put] at hget
      by_cases hk : k = key a
      · rw [if_pos hk] at hget
        exact Or.inl ⟨a, List.mem_cons_self, hk.symm, hget⟩
      · rw [if_neg hk] at hget
        refine Or.inr ⟨?_, hget⟩
        intro b hb
        rcases List.mem_cons.mp hb with rfl | hb
        · exact Ne.symm hk
        · exact hne b hb

/-- A key of a property of an asset that is not stale is the key of one of the given names. -/
theorem exists_name_of_not_isStale {wanted : List PropertyName} {id : AssetId} {k : Bytes}
    (hscope : Key.properties id <+: k) (h : Registry.isStale wanted k = false) :
    ∃ name ∈ wanted, k = Key.property id name := by
  rw [Registry.isStale] at h
  split at h
  · next x name hsplit =>
    obtain ⟨rfl, hx, hname⟩ := Key.split?_eq_pair hsplit
    obtain ⟨-, hid⟩ := (Key.scope_isPrefix_pair hx hname).mp hscope
    refine ⟨⟨name⟩, by simpa using h, ?_⟩
    rw [Key.property, hid]
    rfl
  · cases h

/-- The entries of an asset's properties that are not to stay. -/
def stale (m : Contents) (a : Asset) : List (Bytes × Bytes) :=
  (m.view.scan (Key.properties a.id)).filter fun e =>
    Registry.isStale (a.properties.map Property.name) e.1

/-- The contents with the properties of an asset in place of those that they hold. -/
def withProperties (m : Contents) (a : Asset) : Contents :=
  a.properties.foldl (fun m p => m.put (Key.property a.id p.name) (some (encode p)))
    ((m.stale a).foldl (fun m e => m.put e.1 none) m)

theorem exec_writeProperties_eq (a : Asset) (m : Contents) :
    (Registry.writeProperties a).exec m = (.ok (), m.withProperties a) := by
  rw [Registry.writeProperties]
  refine (Txn.exec_bind_of_ok (a := m.view.scan (Key.properties a.id)) rfl _).trans ?_
  refine (Txn.exec_bind_of_ok (Txn.exec_forM (fun _ _ => rfl) m) _).trans ?_
  exact Txn.exec_forM (fun _ _ => rfl) _

/-- A key then holds a property that was written to it, or what it held before, if that was not
stale. -/
theorem get?_withProperties (a : Asset) (m : Contents) (k : Bytes) :
    (∃ p ∈ a.properties, Key.property a.id p.name = k ∧
      (m.withProperties a).get? k = some (encode p)) ∨
      (∀ p ∈ a.properties, Key.property a.id p.name ≠ k) ∧
        (m.withProperties a).get? k =
          if k ∈ (m.stale a).map Prod.fst then none else m.get? k := by
  have hsaved := get?_foldl_save (fun p => Key.property a.id p.name) a.properties
    ((m.stale a).foldl (fun m e => m.put e.1 none) m) k
  rwa [get?_foldl_erase] at hsaved

theorem get?_withProperties_of_not_stem {k : Bytes} (hk : ¬ Namespace.property.stem <+: k)
    (a : Asset) (m : Contents) : (m.withProperties a).get? k = m.get? k := by
  have hstale : k ∉ (m.stale a).map Prod.fst := by
    intro hmem
    obtain ⟨e, he, rfl⟩ := List.mem_map.mp hmem
    have hscope := (mem_scan.mp (List.mem_of_mem_filter he)).1
    exact hk ((Key.stem_isPrefix_scope _ _).trans hscope)
  rcases get?_withProperties a m k with ⟨p, -, rfl, -⟩ | ⟨-, hget⟩
  · exact absurd (Key.stem_isPrefix_pair _ _ _) hk
  · rw [hget, if_neg hstale]

theorem Readable.withProperties {id : AssetId} (h : m.Readable id) (a : Asset) :
    (m.withProperties a).Readable id := by
  intro k v hscope hget
  rcases get?_withProperties a m k with ⟨p, -, -, hsaved⟩ | ⟨-, hleft⟩
  · obtain rfl := Option.some.inj (hget.symm.trans hsaved)
    exact ⟨p, decode?_encode (by decide) p⟩
  · obtain ⟨-, hget⟩ := Option.ite_none_left_eq_some.mp (hleft.symm.trans hget)
    exact h k v hscope hget

/-- Whatever was stored, the properties that an asset has just been given can be read. -/
theorem readable_withProperties (a : Asset) (m : Contents) :
    (m.withProperties a).Readable a.id := by
  intro k v hscope hget
  rcases get?_withProperties a m k with ⟨p, -, -, hsaved⟩ | ⟨hne, hleft⟩
  · obtain rfl := Option.some.inj (hget.symm.trans hsaved)
    exact ⟨p, decode?_encode (by decide) p⟩
  · -- what is left as it was is neither stale nor the property of a name that was written
    obtain ⟨hstale, hget⟩ := Option.ite_none_left_eq_some.mp (hleft.symm.trans hget)
    have hfresh : Registry.isStale (a.properties.map Property.name) k = false := by
      rw [← Bool.not_eq_true]
      intro hold
      have hmem : (k, v) ∈ m.stale a := List.mem_filter.mpr ⟨mem_scan.mpr ⟨hscope, hget⟩, hold⟩
      exact hstale (List.mem_map.mpr ⟨_, hmem, rfl⟩)
    obtain ⟨name, hname, rfl⟩ := exists_name_of_not_isStale hscope hfresh
    obtain ⟨p, hp, rfl⟩ := List.mem_map.mp hname
    exact absurd rfl (hne p hp)

/-- **What a writing of properties does, on any contents and for any asset.** -/
theorem rewrites_withProperties (a : Asset) (m : Contents) :
    m.Rewrites (m.withProperties a) a.id where
  get?_eq _ hk := get?_withProperties_of_not_stem hk a m
  keeps _ h := h.withProperties a
  readable := readable_withProperties a m

end Contents

end Custody
