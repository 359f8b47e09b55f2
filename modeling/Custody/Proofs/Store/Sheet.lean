import Custody.Proofs.Store.Execution
import Custody.Proofs.Store.Slot

/-!
# What a map shows, slot by slot

A **sheet** says of every slot what it holds.  A map of bytes shows a sheet if each slot holds at
its key what the sheet says and no key belongs to no clean slot.  Then reading the map is reading
the sheet, writing to the key of a clean slot is writing to the sheet, and a scan comes upon the
slots whose keys begin alike.

* `Contents.Shows.ext`: two maps that show one sheet are equal.
* `Contents.Shows.put`, `Contents.Shows.exec_writes`: writing.
* `Contents.Shows.scan_eq`: scanning.
-/

namespace Custody

open Std

/-- What each slot holds. -/
abbrev Sheet := Slot → Option Bytes

namespace Sheet

/-- A sheet after a write to one slot. -/
def set (f : Sheet) (x : Slot) (v : Option Bytes) : Sheet := fun y => if y = x then v else f y

theorem set_apply (f : Sheet) (x y : Slot) (v : Option Bytes) :
    f.set x v y = if y = x then v else f y := rfl

@[simp] theorem set_self (f : Sheet) (x : Slot) (v : Option Bytes) : f.set x v x = v := if_pos rfl

theorem set_of_ne (f : Sheet) {x y : Slot} (h : y ≠ x) (v : Option Bytes) :
    f.set x v y = f y := if_neg h

theorem set_of_space_ne (f : Sheet) {x y : Slot} (h : y.space ≠ x.space) (v : Option Bytes) :
    f.set x v y = f y := f.set_of_ne (fun heq => h (congrArg Slot.space heq)) v

variable {α : Type}

/-- A sheet after writes to the slots of the elements of a list, in order. -/
def setAll (f : Sheet) (slot : α → Slot) (value : α → Option Bytes) (l : List α) : Sheet :=
  l.foldl (fun f a => f.set (slot a) (value a)) f

/-- If all elements of a slot write one value to it, that value is there in the end. -/
theorem setAll_apply {slot : α → Slot} {value : α → Option Bytes} {l : List α} {y : Slot}
    {v : Option Bytes} (hv : ∀ a ∈ l, slot a = y → value a = v) (f : Sheet) :
    f.setAll slot value l y = if y ∈ l.map slot then v else f y := by
  induction l generalizing f with
  | nil => rfl
  | cons a rest ih =>
    rw [setAll, List.foldl_cons, ← setAll, ih (fun b hb => hv b (List.mem_cons_of_mem _ hb)),
      set_apply]
    by_cases hy : y = slot a
    · rw [hv a List.mem_cons_self hy.symm]
      simp [hy]
    · simp [hy]

theorem setAll_of_notMem {slot : α → Slot} {value : α → Option Bytes} {l : List α} {y : Slot}
    (hy : y ∉ l.map slot) (f : Sheet) : f.setAll slot value l y = f y := by
  have hv : ∀ a ∈ l, slot a = y → value a = none := fun a ha h =>
    absurd (List.mem_map.mpr ⟨a, ha, h⟩) hy
  rw [setAll_apply hv, if_neg hy]

theorem setAll_of_space_ne {slot : α → Slot} {value : α → Option Bytes} {l : List α} {y : Slot}
    (hy : ∀ a, (slot a).space ≠ y.space) (f : Sheet) : f.setAll slot value l y = f y := by
  refine setAll_of_notMem ?_ f
  intro hmem
  obtain ⟨a, -, rfl⟩ := List.mem_map.mp hmem
  exact hy a rfl

end Sheet

/-- A scan comes upon the entries whose keys begin alike. -/
theorem Contents.mem_scan {m : Contents} {stem k v : Bytes} :
    (k, v) ∈ m.view.scan stem ↔ stem <+: k ∧ m.get? k = some v := by
  change (k, v) ∈ (m.range stem).bindings ↔ _
  rw [SortedMap.mem_bindings, get?_range]
  by_cases hk : stem <+: k
  · simp [hk]
  · simp [hk]

/-- A map of bytes that shows a sheet. -/
structure Contents.Shows (m : Contents) (f : Sheet) : Prop where
  get? : ∀ x : Slot, m.get? x.key = f x
  keys : ∀ k v, m.get? k = some v → ∃ x : Slot, x.Clean ∧ x.key = k

namespace Contents.Shows

variable {m m' : Contents} {f : Sheet}

theorem empty : Shows ∅ fun _ => none :=
  ⟨fun _ => rfl, fun k v h => by simp at h⟩

/-- Only clean slots hold anything. -/
theorem clean (h : m.Shows f) {x : Slot} {v : Bytes} (hx : f x = some v) : x.Clean := by
  obtain ⟨y, hy, hkey⟩ := h.keys x.key v ((h.get? x).trans hx)
  exact (Slot.key_inj hy).mp hkey ▸ hy

/-- **The bytes are a function of the sheet.** -/
theorem ext (h : m.Shows f) (h' : m'.Shows f) : m = m' := by
  refine SortedMap.ext_get? ?_
  intro k
  have aux : ∀ {m m' : Contents}, m.Shows f → m'.Shows f → ∀ v, m.get? k = some v →
      m'.get? k = some v := fun h h' v hk => by
    obtain ⟨x, -, rfl⟩ := h.keys k v hk
    rwa [h'.get?, ← h.get?]
  exact Option.ext fun v => ⟨aux h h' v, aux h' h v⟩

/-- Writing to the key of a clean slot is writing to the slot. -/
theorem put (h : m.Shows f) {x : Slot} (hx : x.Clean) (v : Option Bytes) :
    (m.put x.key v).Shows (f.set x v) := by
  constructor
  · intro y
    rw [get?_put, h.get?, Sheet.set_apply]
    by_cases hy : y = x
    · rw [hy, if_pos rfl, if_pos rfl]
    · rw [if_neg fun hkey => hy ((Slot.key_inj hx).mp hkey.symm).symm, if_neg hy]
  · intro k w hk
    rw [get?_put] at hk
    split at hk
    · next hkey => exact ⟨x, hx, hkey.symm⟩
    · exact h.keys k w hk

/-- Writing to the keys of clean slots, one for each element of a list. -/
theorem exec_writes {α : Type} (h : m.Shows f) (slot : α → Slot) (value : α → Option Bytes)
    {l : List α} (hl : ∀ a ∈ l, (slot a).Clean) :
    ∃ m', (l.forM fun a => Txn.write (slot a).key (value a) (pure ())).exec m = (.ok (), m') ∧
      m'.Shows (f.setAll slot value l) := by
  refine ⟨_, Txn.exec_forM (g := fun m a => m.put (slot a).key (value a)) (fun _ _ => rfl) m, ?_⟩
  induction l generalizing m f with
  | nil => exact h
  | cons a rest ih =>
    exact ih (h.put (hl a List.mem_cons_self) (value a))
      fun b hb => hl b (List.mem_cons_of_mem _ hb)

/-! ### Scans -/

theorem mem_scan (h : m.Shows f) {stem k v : Bytes} :
    (k, v) ∈ m.view.scan stem ↔ ∃ x : Slot, x.key = k ∧ stem <+: k ∧ f x = some v := by
  rw [Contents.mem_scan]
  constructor
  · rintro ⟨hstem, hk⟩
    obtain ⟨x, -, rfl⟩ := h.keys k v hk
    exact ⟨x, rfl, hstem, (h.get? x).symm.trans hk⟩
  · rintro ⟨x, rfl, hstem, hx⟩
    exact ⟨hstem, (h.get? x).trans hx⟩

/-- An ascending list of what the slots of a range hold is what a scan of the range finds. -/
theorem scan_eq (h : m.Shows f) {stem : Bytes} {l : List (Bytes × Bytes)}
    (hl : l.Pairwise fun a b => compare a.1 b.1 = .lt)
    (hmem : ∀ k v, (k, v) ∈ l ↔ ∃ x : Slot, x.key = k ∧ stem <+: k ∧ f x = some v) :
    m.view.scan stem = l :=
  SortedMap.bindings_eq hl fun k v => by
    rw [hmem, ← h.mem_scan, ← SortedMap.mem_bindings]
    rfl

end Contents.Shows

end Custody
