import Custody.SortedMap.Lemmas

/-!
# Sorted maps seen through equality of keys

The order of keys decides which of two keys are equal, so the view after a change can be said with
`=`.  This file also gives the views of maps that are built from lists.

* `get?_insert_eq`, `get?_update`, `get?_erase_eq`: the view after a change.
* `bindings_eq`: an ascending list of what a map says is its list of bindings.
* `mem_keys_ofKeys`, `mem_keys_foldl_update`: the keys of a map built from a list are those of the
  list.
* `get?_ofList`: a map built from a list without repeated keys says what the list says.
* `ofList_bindings`, `bindings_ofList`: a map and the ascending list of its bindings.
-/

namespace Custody.SortedMap

open Std

variable {κ ν : Type} [Ord κ] [TransOrd κ] [LawfulEqOrd κ]

section DecidableEq

variable [DecidableEq κ]

theorem get?_insert_eq (m : SortedMap κ ν) (k k' : κ) (v : ν) :
    (m.insert k v).get? k' = if k' = k then some v else m.get? k' := by
  simp [get?_insert]

theorem get?_update (m : SortedMap κ ν) (k k' : κ) (f : Option ν → ν) :
    (m.update k f).get? k' = if k' = k then some (f (m.get? k)) else m.get? k' :=
  get?_insert_eq m k k' (f (m.get? k))

omit [TransOrd κ] in
theorem get?_erase_eq (m : SortedMap κ ν) (k k' : κ) :
    (m.erase k).get? k' = if k' = k then none else m.get? k' := by
  by_cases h : k' = k
  · simp [get?_erase, h]
  · simp [get?_erase, h, Ne.symm h]

/-- Binding a key that is not bound adds its binding to the others. -/
theorem get?_insert_of_free {m : SortedMap κ ν} {k : κ} (hfree : m.get? k = none) (v : ν) (k' : κ)
    (w : ν) : (m.insert k v).get? k' = some w ↔ m.get? k' = some w ∨ k' = k ∧ w = v := by
  rw [get?_insert_eq]
  by_cases h : k' = k
  · subst h
    simp [hfree, eq_comm]
  · simp [h]

end DecidableEq

/-- An ascending list that holds what a map says is its list of bindings. -/
theorem bindings_eq {m : SortedMap κ ν} {l : List (κ × ν)}
    (hl : l.Pairwise fun a b => compare a.1 b.1 = .lt)
    (h : ∀ k v, (k, v) ∈ l ↔ m.get? k = some v) : m.bindings = l := by
  refine eq_of_lookup m.ascending hl ?_
  intro k
  refine Option.ext ?_
  intro v
  rw [← mem_iff_lookup hl, h, get?_eq_lookup]

omit [TransOrd κ] [LawfulEqOrd κ] in
theorem lookup_append (l l' : List (κ × ν)) (k : κ) :
    lookup (l ++ l') k = (lookup l k).or (lookup l' k) := by
  induction l with
  | nil => rfl
  | cons b rest ih =>
    rw [List.cons_append, lookup_cons, lookup_cons, ih]
    split <;> rfl

omit [TransOrd κ] in
theorem mem_of_lookup {l : List (κ × ν)} {k : κ} {v : ν} (h : lookup l k = some v) :
    (k, v) ∈ l := by
  obtain ⟨b, hb, rfl⟩ := Option.map_eq_some_iff.mp h
  have hk : k = b.1 := by simpa using List.find?_some hb
  subst hk
  exact List.mem_of_find?_eq_some hb

omit [LawfulEqOrd κ] in
theorem lookup_ne_none_of_mem {l : List (κ × ν)} {b : κ × ν} (h : b ∈ l) :
    lookup l b.1 ≠ none := by
  intro hnone
  have := List.find?_eq_none.mp (Option.map_eq_none_iff.mp hnone) b h
  simp at this

/-! ### Maps built from lists -/

theorem get?_foldl_insert (l : List (κ × ν)) (m : SortedMap κ ν) (k : κ) :
    (l.foldl (fun m b => m.insert b.1 b.2) m).get? k = (lookup l.reverse k).or (m.get? k) := by
  induction l generalizing m with
  | nil => rfl
  | cons b rest ih =>
    rw [List.foldl_cons, ih, get?_insert, List.reverse_cons, lookup_append, lookup_cons]
    by_cases hk : compare k b.1 = .eq <;> simp [hk]

omit [TransOrd κ] in
/-- In an ascending list a key occurs once, so the first entry of a key is its last one. -/
theorem lookup_reverse {l : List (κ × ν)} (h : l.Pairwise fun a b => compare a.1 b.1 = .lt)
    (k : κ) : lookup l.reverse k = lookup l k := by
  induction l with
  | nil => rfl
  | cons b rest ih =>
    rw [List.reverse_cons, lookup_append, ih (List.pairwise_cons.mp h).2, lookup_cons, lookup_cons]
    by_cases hk : compare k b.1 = .eq
    · have htail : lookup rest k = none := LawfulEqCmp.eq_of_compare hk ▸ lookup_tail h
      simp [hk, htail]
    · simp [hk]

/-- Inserting all bindings of another map lays that map over the first. -/
theorem get?_foldl_bindings (m m' : SortedMap κ ν) (k : κ) :
    (m'.bindings.foldl (fun m b => m.insert b.1 b.2) m).get? k = (m'.get? k).or (m.get? k) := by
  rw [get?_foldl_insert, lookup_reverse m'.ascending]
  rfl

/-- Of several entries of a key the last one counts. -/
theorem get?_ofList (l : List (κ × ν)) (k : κ) : (ofList l).get? k = lookup l.reverse k := by
  rw [ofList, get?_foldl_insert, get?_empty, Option.or_none]

/-- A map built from a list in which a key has one value says what the list says. -/
theorem get?_ofList_map {α : Type} {key : α → κ} {value : α → ν} {l : List α}
    (h : ∀ a ∈ l, ∀ b ∈ l, key a = key b → value a = value b) {k : κ} {v : ν} :
    (ofList (l.map fun a => (key a, value a))).get? k = some v ↔
      ∃ a ∈ l, key a = k ∧ value a = v := by
  have hmem : ∀ w, lookup (l.map fun a => (key a, value a)).reverse k = some w →
      ∃ a ∈ l, key a = k ∧ value a = w := by
    intro w hw
    obtain ⟨a, ha, heq⟩ := List.mem_map.mp (List.mem_reverse.mp (mem_of_lookup hw))
    obtain ⟨hk, hv⟩ := Prod.mk.inj heq
    exact ⟨a, ha, hk, hv⟩
  rw [get?_ofList]
  refine ⟨hmem v, ?_⟩
  rintro ⟨a, ha, rfl, rfl⟩
  have hbound : (key a, value a) ∈ (l.map fun a => (key a, value a)).reverse :=
    List.mem_reverse.mpr (List.mem_map.mpr ⟨a, ha, rfl⟩)
  have hne := lookup_ne_none_of_mem hbound
  obtain ⟨w, hw⟩ := Option.ne_none_iff_exists'.mp hne
  obtain ⟨b, hb, hk, rfl⟩ := hmem w hw
  rw [hw, h b hb a ha hk]

/-- Listing the bindings of a map and binding them again gives the map. -/
theorem ofList_bindings (m : SortedMap κ ν) : ofList m.bindings = m := by
  refine ext_get? ?_
  intro k
  rw [get?_ofList, lookup_reverse m.ascending, get?_eq_lookup]

/-- An ascending list is the list of bindings of its map. -/
theorem bindings_ofList {l : List (κ × ν)} (h : l.Pairwise fun a b => compare a.1 b.1 = .lt) :
    (ofList l).bindings = l :=
  congrArg bindings (ofList_bindings ⟨l, h⟩)

/-- The members of a set built from a list are those of the list. -/
theorem get?_ofKeys [DecidableEq κ] (l : List κ) (k : κ) :
    (ofKeys l).get? k = if k ∈ l then some () else none := by
  have hfold : ∀ m : SortedMap κ Unit,
      (l.foldl (fun m k => m.insert k ()) m).get? k = if k ∈ l then some () else m.get? k := by
    induction l with
    | nil => simp
    | cons a rest ih =>
      intro m
      rw [List.foldl_cons, ih, get?_insert_eq]
      by_cases hk : k = a <;> simp [hk]
  rw [ofKeys, hfold, get?_empty]

omit [TransOrd κ] in
theorem mem_keys (m : SortedMap κ ν) (k : κ) : k ∈ m.keys ↔ ∃ v, m.get? k = some v := by
  simp only [keys, List.mem_map, Prod.exists, exists_and_right, exists_eq_right, mem_bindings]

omit [TransOrd κ] in
theorem contains_iff (m : SortedMap κ ν) (k : κ) : m.contains k = true ↔ k ∈ m.keys := by
  rw [contains, Option.isSome_iff_exists, mem_keys]

omit [TransOrd κ] in
theorem getD_of_notMem_keys {m : SortedMap κ ν} {k : κ} (h : k ∉ m.keys) (v : ν) :
    m.getD k v = v := by
  cases hget : m.get? k with
  | none => rw [getD, hget, Option.getD_none]
  | some w => exact absurd ((mem_keys m k).mpr ⟨w, hget⟩) h

theorem mem_keys_ofKeys [DecidableEq κ] (l : List κ) (k : κ) : k ∈ (ofKeys l).keys ↔ k ∈ l := by
  rw [mem_keys, get?_ofKeys]
  by_cases hk : k ∈ l <;> simp [hk]

theorem mem_keys_update [DecidableEq κ] (m : SortedMap κ ν) (k k' : κ) (f : Option ν → ν) :
    k' ∈ (m.update k f).keys ↔ k' = k ∨ k' ∈ m.keys := by
  rw [mem_keys, mem_keys, get?_update]
  by_cases hk : k' = k <;> simp [hk]

/-- Updating entry by entry binds the keys of the entries. -/
theorem mem_keys_foldl_update {α : Type} [DecidableEq κ] (key : α → κ) (f : α → Option ν → ν)
    (l : List α) (m : SortedMap κ ν) (k : κ) :
    k ∈ (l.foldl (fun m a => m.update (key a) (f a)) m).keys ↔ k ∈ m.keys ∨ k ∈ l.map key := by
  induction l generalizing m with
  | nil => simp
  | cons a rest ih =>
    rw [List.foldl_cons, ih, mem_keys_update, List.map_cons, List.mem_cons, or_assoc, or_left_comm]

end Custody.SortedMap
