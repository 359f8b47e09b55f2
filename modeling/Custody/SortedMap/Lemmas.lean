import Custody.SortedMap

/-!
# What sorted maps say after a change

The view of a sorted map is `SortedMap.get?`: what it says of each key.  Every change is described
by its effect on that view, and a map is nothing more than its view.

* `SortedMap.get?_insert`, `SortedMap.get?_erase`, `SortedMap.get?_filterKeys`: the view after a
  change.
* `SortedMap.stretch_eq_filterKeys`: a run of neighbours is a part of the map, if the keys in
  question stand together.
* `SortedMap.mem_bindings`: the bindings are the pairs that the view relates.
* `SortedMap.ext_get?`: two maps with one view are equal.
-/

namespace Custody.SortedMap

open Std

variable {κ ν : Type} [Ord κ]

/-- What a list of bindings says of a key. -/
def lookup (l : List (κ × ν)) (k : κ) : Option ν :=
  (l.find? fun b => compare k b.1 == .eq).map (·.2)

theorem get?_eq_lookup (m : SortedMap κ ν) (k : κ) : m.get? k = lookup m.bindings k := rfl

@[simp] theorem lookup_nil (k : κ) : lookup ([] : List (κ × ν)) k = none := rfl

theorem lookup_cons (b : κ × ν) (l : List (κ × ν)) (k : κ) :
    lookup (b :: l) k = if compare k b.1 = .eq then some b.2 else lookup l k := by
  unfold lookup
  by_cases h : compare k b.1 = .eq <;> simp [h]

theorem lookup_eq_none {l : List (κ × ν)} {k : κ} (h : ∀ b ∈ l, compare k b.1 ≠ .eq) :
    lookup l k = none := by
  induction l with
  | nil => rfl
  | cons b rest ih =>
    rw [lookup_cons, if_neg (h b List.mem_cons_self)]
    exact ih fun c hc => h c (List.mem_cons_of_mem _ hc)

/-- A key below every key of a list is not in it. -/
theorem lookup_eq_none_of_lt {l : List (κ × ν)} {k : κ}
    (h : ∀ b ∈ l, compare k b.1 = .lt) : lookup l k = none :=
  lookup_eq_none fun b hb heq => by rw [h b hb] at heq; exact Ordering.noConfusion heq

theorem lookup_tail {a : κ × ν} {l : List (κ × ν)}
    (h : (a :: l).Pairwise fun a b => compare a.1 b.1 = .lt) : lookup l a.1 = none :=
  lookup_eq_none_of_lt (List.pairwise_cons.mp h).1

@[simp] theorem get?_empty (k : κ) : (∅ : SortedMap κ ν).get? k = none := rfl

variable [LawfulEqOrd κ]

theorem lookup_cons_self (b : κ × ν) (l : List (κ × ν)) : lookup (b :: l) b.1 = some b.2 := by
  rw [lookup_cons, if_pos ReflCmp.compare_self]

/-! ### The view after a change -/

theorem lookup_bind (k k' : κ) (v : ν) (l : List (κ × ν)) :
    lookup (bind k v l) k' = if compare k' k = .eq then some v else lookup l k' := by
  induction l with
  | nil => exact lookup_cons (k, v) [] k'
  | cons b rest ih =>
    rw [bind]
    split
    · exact lookup_cons (k, v) (b :: rest) k'
    · next h =>
      rw [lookup_cons, lookup_cons, LawfulEqCmp.eq_of_compare h]
      split <;> rfl
    · next h =>
      rw [lookup_cons, lookup_cons, ih]
      by_cases hb : compare k' b.1 = .eq
      · have hk : compare k' k ≠ .eq := fun hk => by
          rw [← LawfulEqCmp.eq_of_compare hk, hb] at h
          exact Ordering.noConfusion h
        rw [if_pos hb, if_neg hk, if_pos hb]
      · rw [if_neg hb, if_neg hb]

/-- An inserted binding is seen, and nothing else changes. -/
theorem get?_insert [TransOrd κ] (m : SortedMap κ ν) (k k' : κ) (v : ν) :
    (m.insert k v).get? k' = if compare k' k = .eq then some v else m.get? k' :=
  lookup_bind k k' v m.bindings

theorem lookup_filter (p : κ → Bool) (l : List (κ × ν)) (k : κ) :
    lookup (l.filter fun b => p b.1) k = if p k then lookup l k else none := by
  induction l with
  | nil => simp
  | cons b rest ih =>
    rw [List.filter_cons]
    split
    · next hp =>
      rw [lookup_cons, lookup_cons, ih]
      by_cases hb : compare k b.1 = .eq
      · rw [if_pos hb, if_pos hb, LawfulEqCmp.eq_of_compare hb, if_pos hp]
      · rw [if_neg hb, if_neg hb]
    · next hp =>
      rw [ih, lookup_cons]
      by_cases hb : compare k b.1 = .eq
      · rw [LawfulEqCmp.eq_of_compare hb, if_neg hp, if_neg hp]
      · rw [if_neg hb]

/-- A part of a map says what the map says, of the keys in question. -/
theorem get?_filterKeys (m : SortedMap κ ν) (p : κ → Bool) (k : κ) :
    (m.filterKeys p).get? k = if p k then m.get? k else none :=
  lookup_filter p m.bindings k

/-- A key that was removed is not bound, and nothing else changes. -/
theorem get?_erase (m : SortedMap κ ν) (k k' : κ) :
    (m.erase k).get? k' = if compare k k' = .eq then none else m.get? k' := by
  refine (lookup_filter (fun x => compare k x != .eq) m.bindings k').trans ?_
  by_cases hk : compare k k' = .eq <;> simp [hk, get?_eq_lookup]

/-- If what follows an element has a property only if the element has it, those that have it come
first. -/
theorem takeWhile_eq_filter {α : Type} {p : α → Bool} {l : List α}
    (h : l.Pairwise fun a b => p b = true → p a = true) : l.takeWhile p = l.filter p := by
  induction l with
  | nil => rfl
  | cons a rest ih =>
    obtain ⟨ha, hrest⟩ := List.pairwise_cons.mp h
    by_cases hp : p a = true
    · rw [List.takeWhile_cons_of_pos hp, List.filter_cons_of_pos hp, ih hrest]
    · have hnone : rest.filter p = [] :=
        List.filter_eq_nil_iff.mpr fun b hb hpb => hp (ha b hb hpb)
      rw [List.takeWhile_cons_of_neg hp, List.filter_cons_of_neg hp, hnone]

omit [LawfulEqOrd κ] in
theorem takeWhile_dropWhile_eq_filter [TransOrd κ] {l : List (κ × ν)} {k : κ} {p : κ → Bool}
    (hl : l.Pairwise fun a b => compare a.1 b.1 = .lt)
    (hfrom : ∀ i, p i = true → compare i k ≠ .lt)
    (htogether : ∀ i j, compare i k ≠ .lt → compare i j = .lt → p j = true → p i = true) :
    ((l.dropWhile fun b => compare b.1 k == .lt).takeWhile fun b => p b.1) =
      l.filter fun b => p b.1 := by
  induction l with
  | nil => rfl
  | cons a rest ih =>
    obtain ⟨ha, hrest⟩ := List.pairwise_cons.mp hl
    by_cases hlt : compare a.1 k = .lt
    · rw [List.dropWhile_cons_of_pos (by simpa using hlt), ih hrest, List.filter_cons,
        if_neg fun hp => hfrom a.1 hp hlt]
    · -- From here on no key is below `k`.
      rw [List.dropWhile_cons_of_neg (by simpa using hlt)]
      refine takeWhile_eq_filter (hl.imp_of_mem fun {b c} hb _ hbc => ?_)
      refine htogether b.1 c.1 ?_ hbc
      rcases List.mem_cons.mp hb with rfl | hb
      · exact hlt
      · exact fun hbk => hlt (TransCmp.lt_trans (ha b hb) hbk)

omit [LawfulEqOrd κ] in
/-- **Keys that stand together, from `k` on, are found by going from neighbour to neighbour.** -/
theorem stretch_eq_filterKeys [TransOrd κ] (m : SortedMap κ ν) {k : κ} {p : κ → Bool}
    (hfrom : ∀ i, p i = true → compare i k ≠ .lt)
    (htogether : ∀ i j, compare i k ≠ .lt → compare i j = .lt → p j = true → p i = true) :
    m.stretch k p = m.filterKeys p := by
  rw [stretch, filterKeys, mk.injEq]
  exact takeWhile_dropWhile_eq_filter m.ascending hfrom htogether

/-! ### A map is its view -/

theorem mem_iff_lookup {l : List (κ × ν)} (h : l.Pairwise fun a b => compare a.1 b.1 = .lt)
    (k : κ) (v : ν) : (k, v) ∈ l ↔ lookup l k = some v := by
  induction l with
  | nil => simp
  | cons a rest ih =>
    obtain ⟨ha, hrest⟩ := List.pairwise_cons.mp h
    rw [List.mem_cons, lookup_cons, ih hrest]
    by_cases hk : compare k a.1 = .eq
    · obtain ⟨ka, va⟩ := a
      obtain rfl := LawfulEqCmp.eq_of_compare hk
      rw [if_pos hk, lookup_tail h]
      simp [eq_comm]
    · rw [if_neg hk]
      refine ⟨fun h => h.resolve_left ?_, Or.inr⟩
      rintro rfl
      exact hk ReflCmp.compare_self

/-- The bindings are the pairs that the view relates. -/
theorem mem_bindings (m : SortedMap κ ν) (k : κ) (v : ν) :
    (k, v) ∈ m.bindings ↔ m.get? k = some v :=
  mem_iff_lookup m.ascending k v

theorem eq_of_lookup [TransOrd κ] {l l' : List (κ × ν)} (h : l.Pairwise fun a b => compare a.1 b.1 = .lt)
    (h' : l'.Pairwise fun a b => compare a.1 b.1 = .lt) (hl : ∀ k, lookup l k = lookup l' k) :
    l = l' := by
  induction l generalizing l' with
  | nil =>
    cases l' with
    | nil => rfl
    | cons b rest' => exact absurd (hl b.1) (by simp [lookup_cons_self])
  | cons a rest ih =>
    cases l' with
    | nil => exact absurd (hl a.1) (by simp [lookup_cons_self])
    | cons b rest' =>
      have hab := hl a.1
      rw [lookup_cons_self, lookup_cons] at hab
      have hba := hl b.1
      rw [lookup_cons_self, lookup_cons] at hba
      have hkey : compare a.1 b.1 = .eq := by
        cases hc : compare a.1 b.1 with
        | eq => rfl
        | lt =>
          rw [hc, if_neg (by decide), lookup_eq_none_of_lt] at hab
          · exact absurd hab (by simp)
          · exact fun c hc' => TransCmp.lt_trans hc ((List.pairwise_cons.mp h').1 c hc')
        | gt =>
          have hlt : compare b.1 a.1 = .lt := OrientedCmp.lt_of_gt hc
          rw [hlt, if_neg (by decide), lookup_eq_none_of_lt] at hba
          · exact absurd hba (by simp)
          · exact fun c hc' => TransCmp.lt_trans hlt ((List.pairwise_cons.mp h).1 c hc')
      rw [if_pos hkey] at hab
      have hhead : a = b := Prod.ext (LawfulEqCmp.eq_of_compare hkey) (Option.some.inj hab)
      subst hhead
      refine congrArg (a :: ·)
        (ih (List.pairwise_cons.mp h).2 (List.pairwise_cons.mp h').2 fun k => ?_)
      have hk := hl k
      rw [lookup_cons, lookup_cons] at hk
      by_cases he : compare k a.1 = .eq
      · rw [LawfulEqCmp.eq_of_compare he, lookup_tail h, lookup_tail h']
      · rwa [if_neg he, if_neg he] at hk

/-- Two maps that say the same of every key are equal. -/
theorem ext_get? [TransOrd κ] {m m' : SortedMap κ ν} (h : ∀ k, m.get? k = m'.get? k) : m = m' := by
  obtain ⟨l, hl⟩ := m
  obtain ⟨l', hl'⟩ := m'
  obtain rfl := eq_of_lookup hl hl' h
  rfl

end Custody.SortedMap
