import Custody.SortedMap.Lemmas
import Custody.Store.Layered

/-!
# Ranges of keys

In the order of bytes the keys that begin alike stand together: none comes before what they begin
with, and what lies between two of them begins like them.  So a scan that starts at the first of
them and stops at the first other key finds them all.

* `Bytes.not_lt_of_isPrefix`, `Bytes.isPrefix_of_lt`: where such keys stand.
* `SortedMap.stretch_isPrefixOf`: **a scan from neighbour to neighbour finds them all.**
* `Contents.get?_range`: what a range holds.
-/

namespace Custody

namespace Bytes

/-- No key comes before what it begins with. -/
theorem not_lt_of_isPrefix {stem k : Bytes} (h : stem <+: k) : compare k stem ≠ .lt := by
  induction stem generalizing k with
  | nil => cases k <;> exact nofun
  | cons x stem ih =>
    obtain ⟨rest, rfl⟩ := h
    rw [List.cons_append, List.compare_cons_cons, Std.ReflOrd.compare_self]
    exact ih (List.prefix_append stem rest)

/-- A key that comes before one with a beginning, but not before the beginning, begins alike. -/
theorem isPrefix_of_lt {stem k k' : Bytes} (hfrom : compare k stem ≠ .lt)
    (hlt : compare k k' = .lt) (h : stem <+: k') : stem <+: k := by
  induction stem generalizing k k' with
  | nil => exact List.nil_prefix
  | cons x stem ih =>
    obtain ⟨rest, rfl⟩ := h
    cases k with
    | nil => exact absurd rfl hfrom
    | cons y k =>
      rw [List.cons_append, List.compare_cons_cons] at hlt
      rw [List.compare_cons_cons] at hfrom
      cases hyx : compare y x with
      | lt =>
        rw [hyx] at hfrom
        exact absurd rfl hfrom
      | gt =>
        rw [hyx] at hlt
        exact nomatch hlt
      | eq =>
        rw [hyx] at hfrom hlt
        obtain rfl := Std.LawfulEqCmp.eq_of_compare hyx
        exact List.cons_prefix_cons.mpr ⟨rfl, ih hfrom hlt (List.prefix_append stem rest)⟩

end Bytes

/-- **Going from neighbour to neighbour finds the keys that begin alike, and no others.** -/
theorem SortedMap.stretch_isPrefixOf {ν : Type} (m : SortedMap Bytes ν) (stem : Bytes) :
    (m.stretch stem fun key => stem.isPrefixOf key) =
      m.filterKeys fun key => stem.isPrefixOf key := by
  refine stretch_eq_filterKeys m ?_ ?_
  · intro i hi
    exact Bytes.not_lt_of_isPrefix (List.isPrefixOf_iff_prefix.mp hi)
  · intro i j hfrom hlt hj
    rw [List.isPrefixOf_iff_prefix] at hj ⊢
    exact Bytes.isPrefix_of_lt hfrom hlt hj

theorem SortedMap.get?_stretch_isPrefixOf {ν : Type} (m : SortedMap Bytes ν) (stem k : Bytes) :
    (m.stretch stem fun key => stem.isPrefixOf key).get? k =
      if stem.isPrefixOf k then m.get? k else none := by
  rw [stretch_isPrefixOf, get?_filterKeys]

/-- A range holds what the map holds under its keys. -/
theorem Contents.get?_range (m : Contents) (stem k : Bytes) :
    (m.range stem).get? k = if stem.isPrefixOf k then m.get? k else none :=
  m.get?_stretch_isPrefixOf stem k

end Custody
