import Custody.Proofs.Records.Reading

/-!
# Writing records

Storing an asset writes to four namespaces in turn: the entry of the owner, those of the reporters,
the properties, and the record.  Each phase brings its namespace to what the new records ask for and
leaves the others alone (`Sheet.replace`), so in the end the map shows the new records.  Balances
and offers are written one slot, or two slots, at a time.

* `Mirrors.put`, `Mirrors.create`: storing an asset.
* `Mirrors.credit`, `Mirrors.debit`, `Mirrors.move`: changes of balances.
* `Mirrors.hold`, `Mirrors.drop`, `Mirrors.dropAll`: offers made and removed.
-/

namespace Custody

open Std

/-- A sheet with one namespace taken from another sheet. -/
def Sheet.replace (f : Sheet) (ns : Namespace) (g : Sheet) : Sheet :=
  fun x => if x.space = ns then g x else f x

theorem Sheet.replace_apply (f g : Sheet) (ns : Namespace) (x : Slot) :
    f.replace ns g x = if x.space = ns then g x else f x := rfl

/-! ### Storing an asset -/

namespace Sheet

/-- Removing the properties whose names are gone and writing the new ones leaves the new ones. -/
theorem setAll_properties {f : Sheet} {id : AssetId} {old new : List Property}
    (hold : AscendingBy Property.name old) (hnew : AscendingBy Property.name new)
    (hf : ∀ name, f (.property id name) = (old.find? fun p => p.name == name).map encode)
    (name : PropertyName) :
    (f.setAll (fun p => .property id p.name) (fun _ => none)
        (old.filter fun p => !(new.map Property.name).contains p.name)).setAll
      (fun p => .property id p.name) (fun p => some (encode p)) new (.property id name) =
      (new.find? fun p => p.name == name).map encode := by
  cases hfind : new.find? fun p => p.name == name with
  | some p =>
    obtain ⟨hp, rfl⟩ := hnew.find?_eq_some.mp hfind
    have hv : ∀ q ∈ new, Slot.property id q.name = .property id p.name →
        some (encode q) = some (encode p) := fun q hq hslot => by
      rw [hnew.eq_of_mem hq hp (Slot.property.inj hslot).2]
    rw [setAll_apply hv, if_pos (List.mem_map.mpr ⟨p, hp, rfl⟩)]
    rfl
  | none =>
    have hnone : ∀ p ∈ new, p.name ≠ name := by simpa using hfind
    rw [setAll_of_notMem (by simpa using hnone), setAll_apply (fun _ _ _ => rfl), hf]
    cases hprev : old.find? fun p => p.name == name with
    | none => simp
    | some p =>
      obtain ⟨hp, rfl⟩ := hold.find?_eq_some.mp hprev
      have hgone : p ∈ old.filter fun p => !(new.map Property.name).contains p.name := by
        simpa [hp] using hnone
      rw [if_pos (List.mem_map.mpr ⟨p, hgone, rfl⟩)]
      rfl

end Sheet

namespace Contents.Shows

variable {m : Contents} {f g : Sheet} {ns : Namespace}

theorem congr (h : m.Shows f) (hfg : ∀ x, f x = g x) : m.Shows g := funext hfg ▸ h

/-- A sheet that is that of `g` in a namespace and that of `f` elsewhere. -/
theorem replace {f' : Sheet} (h : m.Shows f') (hin : ∀ x, x.space = ns → f' x = g x)
    (hout : ∀ x, x.space ≠ ns → f' x = f x) : m.Shows (f.replace ns g) := by
  refine h.congr ?_
  intro x
  by_cases hx : x.space = ns
  · rw [hin x hx, Sheet.replace_apply, if_pos hx]
  · rw [hout x hx, Sheet.replace_apply, if_neg hx]

variable {σ : Records} {β : Balances} {a : Asset}

/-- The entry in the index of owners is brought in step. -/
theorem exec_writeOwner (h : m.Shows f) (ha : a.Storable)
    (hf : ∀ x, x.space = .ownerIndex → f x = σ.sheet β x) :
    ∃ m', (Registry.writeOwner ((σ.asset? a.id).map Asset.record) a).exec m = (.ok (), m') ∧
      m'.Shows (f.replace .ownerIndex ((σ.put a).sheet β)) := by
  have hnew : (Slot.owner a.owner a.id).Clean := ⟨ha.owner, ha.id⟩
  cases hp : σ.asset? a.id with
  | none =>
    refine ⟨_, rfl, (h.put hnew (some [])).replace ?_ ?_⟩
    · intro x hx
      cases x with
      | owner account id =>
        rw [Sheet.set_apply, hf _ rfl, Records.sheet, Records.sheet, Records.asset?_put]
        by_cases hid : id = a.id
        · subst hid
          by_cases haccount : account = a.owner <;> simp [hp, haccount, eq_comm]
        · simp [hid]
      | _ => exact absurd hx (by simp [Slot.space])
    · intro x hx
      exact f.set_of_space_ne hx _
  | some p =>
    by_cases howner : p.owner = a.owner
    · refine ⟨m, ?_, h.replace ?_ fun x hx => rfl⟩
      · simp [Registry.writeOwner, Asset.record, howner]
      · intro x hx
        cases x with
        | owner account id =>
          rw [hf _ rfl, Records.sheet, Records.sheet, Records.asset?_put]
          by_cases hid : id = a.id
          · subst hid
            simp [hp, howner]
          · simp [hid]
        | _ => exact absurd hx (by simp [Slot.space])
    · have hold : (Slot.owner p.owner a.id).Clean :=
        h.clean (by rw [hf _ rfl, Records.sheet, hp]; exact if_pos rfl)
      refine ⟨_, ?_, ((h.put hold none).put hnew (some [])).replace ?_ ?_⟩
      · simp only [Registry.writeOwner, Option.map_some, Asset.record, if_neg howner]
        rfl
      · intro x hx
        cases x with
        | owner account id =>
          rw [Sheet.set_apply, Sheet.set_apply, hf _ rfl, Records.sheet, Records.sheet,
            Records.asset?_put]
          by_cases hid : id = a.id
          · subst hid
            by_cases haccount : account = a.owner
            · simp [haccount]
            · by_cases hbefore : account = p.owner <;>
                simp [hp, haccount, hbefore, Ne.symm howner, eq_comm]
          · simp [hid]
        | _ => exact absurd hx (by simp [Slot.space])
      · intro x hx
        rw [Sheet.set_of_space_ne _ hx, Sheet.set_of_space_ne _ hx]

/-- The entries in the index of reporters are brought in step. -/
theorem exec_writeReporters (h : m.Shows f) (ha : a.Storable)
    (hf : ∀ x, x.space = .reporterIndex → f x = σ.sheet β x) :
    ∃ m', (Registry.writeReporters ((σ.asset? a.id).map Asset.record) a).exec m = (.ok (), m') ∧
      m'.Shows (f.replace .reporterIndex ((σ.put a).sheet β)) := by
  let after := Registry.reporterAccounts a
  let before := ((σ.asset? a.id).map Registry.reporterAccounts).getD []
  have hbefore : ∀ r, f (.reporter r a.id) = if r ∈ before then some [] else none := by
    intro r
    rw [hf _ rfl, Records.sheet]
    cases hp : σ.asset? a.id <;> simp [before, hp]
  have hgone : ∀ r ∈ before.filter fun r => !after.contains r, (Slot.reporter r a.id).Clean :=
    fun r hr => h.clean ((hbefore r).trans (if_pos (List.mem_filter.mp hr).1))
  have hcome : ∀ r ∈ after.filter fun r => !before.contains r, (Slot.reporter r a.id).Clean := by
    intro r hr
    obtain ⟨reporter, hreporter, rfl⟩ := List.mem_map.mp (List.mem_filter.mp hr).1
    exact ⟨ha.reporters reporter hreporter, ha.id⟩
  obtain ⟨m₁, hexec₁, h₁⟩ := h.exec_writes _ (fun _ => none) hgone
  obtain ⟨m₂, hexec₂, h₂⟩ := h₁.exec_writes _ (fun _ => some []) hcome
  have hstart : (((σ.asset? a.id).map Asset.record).map Registry.reporterAccounts).getD [] =
      before := by rw [Option.map_map]; rfl
  refine ⟨m₂, ?_, h₂.replace ?_ ?_⟩
  · rw [Registry.writeReporters, hstart]
    exact (Txn.exec_bind_of_ok hexec₁ _).trans hexec₂
  · intro x hx
    cases x with
    | reporter r id =>
      rw [Sheet.setAll_apply (fun _ _ _ => rfl), Sheet.setAll_apply (fun _ _ _ => rfl),
        Records.sheet, Records.asset?_put]
      by_cases hid : id = a.id
      · subst hid
        rw [hbefore]
        by_cases hr : r ∈ before <;> by_cases hr' : r ∈ after <;> simp [hr, hr', after]
      · rw [hf _ rfl, Records.sheet]
        simp [hid, Ne.symm hid]
    | _ => exact absurd hx (by simp [Slot.space])
  · intro x hx
    rw [Sheet.setAll_of_space_ne fun _ => Ne.symm hx, Sheet.setAll_of_space_ne fun _ => Ne.symm hx]

theorem isStale_property {id : AssetId} {name : PropertyName}
    (hx : (Slot.property id name).Clean) (wanted : List PropertyName) :
    Registry.isStale wanted (Key.property id name) = !wanted.contains name := by
  rw [Registry.isStale, Key.property, Key.split?_pair .property hx.1 hx.2]

/-- The properties are brought in step. -/
theorem exec_writeProperties (h : m.Shows f) (hσ : σ.WellFormed) (ha : a.Storable)
    (hf : ∀ x, x.space = .property → f x = σ.sheet β x) :
    ∃ m', (Registry.writeProperties a).exec m = (.ok (), m') ∧
      m'.Shows (f.replace .property ((σ.put a).sheet β)) := by
  let wanted := a.properties.map Property.name
  let old := ((σ.asset? a.id).map Asset.properties).getD []
  have hold : AscendingBy Property.name old := by
    cases hp : σ.asset? a.id with
    | none => simpa [old, hp] using AscendingBy.nil
    | some p => simpa [old, hp] using (hσ.storable hp).ascending
  have hslot : ∀ name, f (.property a.id name) =
      (old.find? fun p => p.name == name).map encode := by
    intro name
    rw [hf _ rfl, Records.sheet]
    cases hp : σ.asset? a.id <;> simp [old, hp, Asset.property?]
  have hclean : ∀ p ∈ old, (Slot.property a.id p.name).Clean := fun p hp =>
    h.clean ((hslot p.name).trans (by rw [hold.find?_eq_some.mpr ⟨hp, rfl⟩]; rfl))
  have hgone : ∀ p ∈ old.filter fun p => !wanted.contains p.name,
      (Slot.property a.id p.name).Clean := fun p hp => hclean p (List.mem_filter.mp hp).1
  have hcome : ∀ p ∈ a.properties, (Slot.property a.id p.name).Clean :=
    fun p hp => ⟨ha.id, ha.names p hp⟩
  obtain ⟨m₁, hexec₁, h₁⟩ := h.exec_writes _ (fun _ => none) hgone
  obtain ⟨m₂, hexec₂, h₂⟩ := h₁.exec_writes _ (fun p => some (encode p)) hcome
  have hstale : (m.view.scan (Key.properties a.id)).filter
      (fun entry => Registry.isStale wanted entry.1) =
      (old.filter fun p => !wanted.contains p.name).map fun p =>
        (Key.property a.id p.name, encode p) := by
    rw [h.scan_properties hold hslot, List.filter_map]
    exact congrArg _ (List.filter_congr fun p hp => isStale_property (hclean p hp) wanted)
  refine ⟨m₂, ?_, h₂.replace ?_ ?_⟩
  · rw [Registry.writeProperties]
    refine (Txn.exec_bind_of_ok (a := m.view.scan (Key.properties a.id)) rfl _).trans ?_
    simp only []
    rw [hstale, List.forM_eq_forM, List.forM_map]
    exact (Txn.exec_bind_of_ok hexec₁ _).trans hexec₂
  · intro x hx
    cases x with
    | property id name =>
      rw [Records.sheet, Records.asset?_put]
      by_cases hid : id = a.id
      · subst hid
        rw [Sheet.setAll_properties hold ha.ascending hslot, if_pos rfl]
        rfl
      · rw [Sheet.setAll_of_notMem (by simp [Ne.symm hid]),
          Sheet.setAll_of_notMem (by simp [Ne.symm hid]), hf _ rfl, Records.sheet, if_neg hid]
    | _ => exact absurd hx (by simp [Slot.space])
  · intro x hx
    rw [Sheet.setAll_of_space_ne fun _ => Ne.symm hx, Sheet.setAll_of_space_ne fun _ => Ne.symm hx]

end Contents.Shows

namespace Records

variable {σ : Records} {β : Balances} {m : Contents} {a : Asset}

theorem WellFormed.put (h : σ.WellFormed) (ha : a.Storable) : (σ.put a).WellFormed where
  id_eq {id b} hb := by
    rw [asset?_put] at hb
    split at hb
    · next hid => exact Option.some.inj hb ▸ hid.symm
    · exact h.id_eq hb
  storable {id b} hb := by
    rw [asset?_put] at hb
    split at hb
    · exact Option.some.inj hb ▸ ha
    · exact h.storable hb
  offer_eq := h.offer_eq
  offer_clean := h.offer_clean

theorem WellFormed.hold (h : σ.WellFormed) {o : Offer} (hid : o.asset.Clean)
    (hr : o.recipient.Clean) : (σ.hold o).WellFormed where
  id_eq := h.id_eq
  storable := h.storable
  offer_eq {id recipient o'} ho := by
    rw [offer?_hold] at ho
    split at ho
    · next hio => exact Option.some.inj ho ▸ ⟨hio.1.symm, hio.2.symm⟩
    · exact h.offer_eq ho
  offer_clean {id recipient o'} ho := by
    rw [offer?_hold] at ho
    split at ho
    · next hio => exact ⟨hio.1 ▸ hid, hio.2 ▸ hr⟩
    · exact h.offer_clean ho

theorem WellFormed.drop (h : σ.WellFormed) (id : AssetId) (recipient : AccountId) :
    (σ.drop id recipient).WellFormed where
  id_eq := h.id_eq
  storable := h.storable
  offer_eq ho := by
    rw [offer?_drop] at ho
    split at ho
    · exact absurd ho (by simp)
    · exact h.offer_eq ho
  offer_clean ho := by
    rw [offer?_drop] at ho
    split at ho
    · exact absurd ho (by simp)
    · exact h.offer_clean ho

namespace Mirrors

theorem write (h : σ.Mirrors β m) (ha : a.Storable) :
    ∃ m', (Registry.write ((σ.asset? a.id).map Asset.record) a).exec m = (.ok (), m') ∧
      (σ.put a).Mirrors β m' := by
  obtain ⟨m₁, hexec₁, h₁⟩ := h.shows.exec_writeOwner ha fun _ _ => rfl
  obtain ⟨m₂, hexec₂, h₂⟩ := h₁.exec_writeReporters (σ := σ) (β := β) ha fun x hx => by
    simp [Sheet.replace_apply, hx]
  obtain ⟨m₃, hexec₃, h₃⟩ := h₂.exec_writeProperties (β := β) h.wellFormed ha fun x hx => by
    simp [Sheet.replace_apply, hx]
  have h₄ := h₃.put (x := .asset a.id) ha.id (some (encode a.record))
  refine ⟨_, ?_, h.wellFormed.put ha, h₄.congr ?_⟩
  · rw [Registry.write, Txn.exec_bind_of_ok hexec₁, Txn.exec_bind_of_ok hexec₂,
      Txn.exec_bind_of_ok hexec₃]
    rfl
  · intro x
    cases x with
    | asset id =>
      by_cases hid : id = a.id <;>
        simp [Sheet.set_apply, Sheet.replace_apply, Slot.space, sheet, asset?_put, hid]
    | _ => simp [Sheet.set_apply, Sheet.replace_apply, Slot.space, sheet]

/-- **Storing an asset makes the map show it in place of its previous record.** -/
theorem put (h : σ.Mirrors β m) (ha : a.Storable) :
    ∃ m', (Registry.put a).exec m = (.ok (), m') ∧ (σ.put a).Mirrors β m' := by
  obtain ⟨m', hexec, hm'⟩ := h.write ha
  refine ⟨m', ?_, hm'⟩
  rw [Registry.put, Txn.exec_bind, Txn.exec_query, h.record?]
  exact hexec

theorem create (h : σ.Mirrors β m) (ha : a.Storable) (hfree : σ.asset? a.id = none) :
    ∃ m', (Registry.create a).exec m = (.ok (), m') ∧ (σ.put a).Mirrors β m' := by
  obtain ⟨m', hexec, hm'⟩ := h.write ha
  refine ⟨m', ?_, hm'⟩
  rw [Registry.create, Txn.exec_bind, Txn.exec_query, h.contains, hfree]
  rwa [hfree] at hexec

theorem create_taken (h : σ.Mirrors β m) (htaken : (σ.asset? a.id).isSome) :
    (Registry.create a).exec m = (.error (.duplicateAsset a.id), m) := by
  rw [Registry.create, Txn.exec_bind, Txn.exec_query, h.contains, htaken]
  rfl

/-! ### Balances -/

theorem writeBalance (h : σ.Mirrors β m) {owner : AccountId} {root : AssetId} (ho : owner.Clean)
    (hr : root.Clean) (amount : Nat) :
    ∃ m', (Inventory.write owner root amount).exec m = (.ok (), m') ∧
      σ.Mirrors (fun o r => if owner = o ∧ root = r then amount else β o r) m' := by
  have hx : (Slot.balance owner root).Clean := ⟨ho, hr⟩
  refine ⟨_, ?_, h.wellFormed,
    (h.shows.put hx (if amount = 0 then none else some (encode (Balance.mk amount)))).congr
      fun x => ?_⟩
  · rw [Inventory.write]
    split <;> rfl
  · cases x with
    | balance o r =>
      by_cases hor : owner = o ∧ root = r
      · obtain ⟨rfl, rfl⟩ := hor
        simp [sheet]
      · have hne : Slot.balance o r ≠ .balance owner root := fun heq =>
          hor ⟨(Slot.balance.inj heq).1.symm, (Slot.balance.inj heq).2.symm⟩
        rw [Sheet.set_of_ne _ hne, sheet, sheet, if_neg hor]
    | _ => exact Sheet.set_of_space_ne _ (by simp [Slot.space]) _

theorem credit (h : σ.Mirrors β m) {owner : AccountId} {root : AssetId} (ho : owner.Clean)
    (hr : root.Clean) (amount : Nat) :
    ∃ m' β', (Inventory.credit owner root amount).exec m = (.ok (β owner root + amount), m') ∧
      σ.Mirrors β' m' ∧ ∀ o r, β' o r = β o r + Balances.single owner root amount o r := by
  obtain ⟨m', hexec, hm'⟩ := h.writeBalance ho hr (β owner root + amount)
  refine ⟨m', _, ?_, hm', ?_⟩
  · rw [Inventory.credit, Txn.exec_bind, Txn.exec_query, h.balance]
    exact Txn.exec_bind_of_ok hexec _
  · intro o r
    by_cases hor : owner = o ∧ root = r
    · obtain ⟨rfl, rfl⟩ := hor
      simp [Balances.single]
    · simp [Balances.single, hor]

theorem debit (h : σ.Mirrors β m) {owner : AccountId} {root : AssetId} (ho : owner.Clean)
    (hr : root.Clean) {amount : Nat} (hle : amount ≤ β owner root) :
    ∃ m' β', (Inventory.debit owner root amount).exec m = (.ok (β owner root - amount), m') ∧
      σ.Mirrors β' m' ∧ ∀ o r, β' o r + Balances.single owner root amount o r = β o r := by
  obtain ⟨m', hexec, hm'⟩ := h.writeBalance ho hr (β owner root - amount)
  refine ⟨m', _, ?_, hm', ?_⟩
  · rw [Inventory.debit, Txn.exec_bind, Txn.exec_query, h.balance]
    simp only [require, hle, decide_true, if_true]
    exact Txn.exec_bind_of_ok hexec _
  · intro o r
    by_cases hor : owner = o ∧ root = r
    · obtain ⟨rfl, rfl⟩ := hor
      simp [Balances.single, hle]
    · simp [Balances.single, hor]

/-- What one owner hands over is taken from its balance and added to that of the other. -/
theorem move (h : σ.Mirrors β m) {giver taker : AccountId} {root : AssetId} (hg : giver.Clean)
    (ht : taker.Clean) (hr : root.Clean) {amount : Nat} (hle : amount ≤ β giver root) :
    ∃ m' β', (Inventory.move giver taker root amount).exec m = (.ok (), m') ∧ σ.Mirrors β' m' ∧
      ∀ o r, β' o r + Balances.single giver root amount o r =
        β o r + Balances.single taker root amount o r := by
  by_cases hstay : giver = taker ∨ amount = 0
  · refine ⟨m, β, by rw [Inventory.move, if_pos hstay]; rfl, h, ?_⟩
    intro o r
    rcases hstay with rfl | rfl
    · rfl
    · simp [Balances.single]
  · obtain ⟨m₁, β₁, hexec₁, h₁, hβ₁⟩ := h.debit hg hr hle
    obtain ⟨m₂, β₂, hexec₂, h₂, hβ₂⟩ := h₁.credit ht hr amount
    refine ⟨m₂, β₂, ?_, h₂, fun o r => by rw [hβ₂, ← hβ₁]; omega⟩
    rw [Inventory.move, if_neg hstay, Txn.exec_bind_of_ok hexec₁]
    exact Txn.exec_bind_of_ok hexec₂ _

/-! ### Offers -/

theorem hold (h : σ.Mirrors β m) {o : Offer} (hid : o.asset.Clean) (hr : o.recipient.Clean) :
    ∃ m', (OfferBook.store o).exec m = (.ok (), m') ∧ (σ.hold o).Mirrors β m' := by
  have h₁ := h.shows.put (x := .offer o.asset o.recipient) ⟨hid, hr⟩ (some (encode o))
  have h₂ := h₁.put (x := .recipient o.recipient o.asset) ⟨hr, hid⟩ (some [])
  refine ⟨_, rfl, h.wellFormed.hold hid hr, h₂.congr ?_⟩
  intro x
  cases x with
  | offer id recipient =>
    by_cases hio : id = o.asset ∧ recipient = o.recipient
    · obtain ⟨rfl, rfl⟩ := hio
      simp [Sheet.set_apply, sheet, offer?_hold]
    · simp [Sheet.set_apply, sheet, offer?_hold, hio]
  | recipient account id =>
    by_cases hio : account = o.recipient ∧ id = o.asset
    · obtain ⟨rfl, rfl⟩ := hio
      simp [sheet, offer?_hold]
    · simp [Sheet.set_apply, sheet, offer?_hold, hio, and_comm]
  | _ => simp [Sheet.set_apply, sheet]

theorem drop (h : σ.Mirrors β m) {id : AssetId} {recipient : AccountId} (hid : id.Clean)
    (hr : recipient.Clean) :
    ∃ m', (OfferBook.remove id recipient).exec m = (.ok (), m') ∧
      (σ.drop id recipient).Mirrors β m' := by
  have h₁ := h.shows.put (x := .offer id recipient) ⟨hid, hr⟩ none
  have h₂ := h₁.put (x := .recipient recipient id) ⟨hr, hid⟩ none
  refine ⟨_, rfl, h.wellFormed.drop id recipient, h₂.congr ?_⟩
  intro x
  cases x with
  | offer id' recipient' =>
    by_cases hio : id' = id ∧ recipient' = recipient
    · obtain ⟨rfl, rfl⟩ := hio
      simp [Sheet.set_apply, sheet, offer?_drop]
    · simp [Sheet.set_apply, sheet, offer?_drop, hio]
  | recipient account id' =>
    by_cases hio : account = recipient ∧ id' = id
    · obtain ⟨rfl, rfl⟩ := hio
      simp [sheet, offer?_drop]
    · simp [Sheet.set_apply, sheet, offer?_drop, hio, and_comm]
  | _ => simp [Sheet.set_apply, sheet]

theorem dropAll (h : σ.Mirrors β m) (id : AssetId) :
    ∃ m' n, (OfferBook.discard id).exec m = (.ok n, m') ∧ (σ.dropAll id).Mirrors β m' := by
  have hloop : ∀ (l : List Offer) (σ : Records) (m : Contents), σ.Mirrors β m →
      (∀ o ∈ l, id.Clean ∧ o.recipient.Clean) →
      ∃ m', (l.forM fun o => OfferBook.remove id o.recipient).exec m = (.ok (), m') ∧
        (l.foldl (fun σ o => σ.drop id o.recipient) σ).Mirrors β m' := by
    intro l
    induction l with
    | nil => exact fun σ m h _ => ⟨m, rfl, h⟩
    | cons o rest ih =>
      intro σ m h hl
      obtain ⟨hid, hr⟩ := hl o List.mem_cons_self
      obtain ⟨m₁, hexec₁, h₁⟩ := h.drop hid hr
      obtain ⟨m₂, hexec₂, h₂⟩ := ih _ m₁ h₁ fun o ho => hl o (List.mem_cons_of_mem _ ho)
      exact ⟨m₂, (Txn.exec_bind_of_ok hexec₁ _).trans hexec₂, h₂⟩
  have hclean : ∀ o ∈ σ.offersOn id, id.Clean ∧ o.recipient.Clean := by
    intro o ho
    obtain ⟨recipient, hget⟩ := σ.mem_offersOn.mp ho
    obtain ⟨-, rfl⟩ := h.wellFormed.offer_eq hget
    exact h.wellFormed.offer_clean hget
  obtain ⟨m', hexec, hm'⟩ := hloop (σ.offersOn id) σ m h hclean
  refine ⟨m', (σ.offersOn id).length, ?_, h.wellFormed.foldl_drop id ▸ hm'⟩
  rw [OfferBook.discard, Txn.exec_bind, Txn.exec_query, h.onAsset]
  exact Txn.exec_bind_of_ok hexec _

end Mirrors

/-! ### Pictured records -/

theorem Sound.put (h : σ.Sound) (ha : a.Storable) (hr : a.root.Clean) : (σ.put a).Sound where
  wellFormed := h.wellFormed.put ha
  root {id b} hb := by
    rw [asset?_put] at hb
    split at hb
    · exact Option.some.inj hb ▸ hr
    · exact h.root hb

theorem Sound.put_of {σ' : Records} (h : σ.Sound) (h' : σ'.Sound) {id : AssetId}
    (ha : σ'.asset? id = some a) : (σ.put a).Sound :=
  h.put (h'.wellFormed.storable ha) (h'.root ha)

theorem Pictured.asset?_id (h : σ.Pictured m) {id : AssetId} (ha : σ.get id = .ok a) :
    σ.asset? a.id = some a := h.sound.wellFormed.asset?_id (get_eq_ok.mp ha)

theorem Mirrors.pictured (h : σ.Mirrors β m) (hσ : σ.Sound)
    (hβ : ∀ o r, β o r = σ.balance o r) : σ.Pictured m :=
  ⟨hσ, funext (fun o => funext (hβ o)) ▸ h.shows⟩

theorem balance_put_of_eq {p : Asset} (hp : σ.asset? a.id = some p) (howner : a.owner = p.owner)
    (hroot : a.root = p.root) (hquantity : a.quantity = p.quantity) (o : AccountId) (r : AssetId) :
    (σ.put a).balance o r = σ.balance o r :=
  σ.total_put_of_eq _ hp (by rw [howner, hroot, hquantity])

/-- Storing an asset that counts for the balances as its previous record does. -/
theorem Pictured.put {p : Asset} (h : σ.Pictured m) (hσ : (σ.put a).Sound)
    (hp : σ.asset? a.id = some p) (howner : a.owner = p.owner) (hroot : a.root = p.root)
    (hquantity : a.quantity = p.quantity) :
    ∃ m', (Registry.put a).exec m = (.ok (), m') ∧ (σ.put a).Pictured m' := by
  have ha : a.Storable := hσ.wellFormed.storable (asset?_put_self σ a)
  obtain ⟨m', hexec, hm'⟩ := h.mirrors.put ha
  exact ⟨m', hexec, hm'.pictured hσ fun o r =>
    (balance_put_of_eq hp howner hroot hquantity o r).symm⟩

theorem Pictured.hold (h : σ.Pictured m) {o : Offer} (hσ : (σ.hold o).Sound) :
    ∃ m', (OfferBook.store o).exec m = (.ok (), m') ∧ (σ.hold o).Pictured m' := by
  have ho : (σ.hold o).offer? o.asset o.recipient = some o := by simp [offer?_hold]
  obtain ⟨hid, hr⟩ := hσ.wellFormed.offer_clean ho
  obtain ⟨m', hexec, hm'⟩ := h.mirrors.hold hid hr
  exact ⟨m', hexec, hm'.pictured hσ fun _ _ => rfl⟩

theorem Sound.drop (h : σ.Sound) (id : AssetId) (recipient : AccountId) :
    (σ.drop id recipient).Sound := ⟨h.wellFormed.drop id recipient, h.root⟩

theorem Pictured.drop (h : σ.Pictured m) {id : AssetId} {recipient : AccountId} {o : Offer}
    (ho : σ.offer? id recipient = some o) :
    ∃ m', (OfferBook.remove id recipient).exec m = (.ok (), m') ∧
      (σ.drop id recipient).Pictured m' := by
  obtain ⟨hid, hr⟩ := h.sound.wellFormed.offer_clean ho
  obtain ⟨m', hexec, hm'⟩ := h.mirrors.drop hid hr
  exact ⟨m', hexec, hm'.pictured (h.sound.drop id recipient) fun _ _ => rfl⟩

theorem Pictured.dropAll (h : σ.Pictured m) (id : AssetId) :
    ∃ m' n, (OfferBook.discard id).exec m = (.ok n, m') ∧ (σ.dropAll id).Pictured m' := by
  obtain ⟨m', n, hexec, hm'⟩ := h.mirrors.dropAll id
  exact ⟨m', n, hexec, hm'.pictured ⟨hm'.wellFormed, h.sound.root⟩ fun _ _ => rfl⟩

end Records

end Custody
