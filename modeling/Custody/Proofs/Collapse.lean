import Custody.Proofs.Ascending

/-!
# Sorting and joining neighbours

A list becomes one in strictly ascending order of keys in two steps: a stable sort puts elements of
one key next to each other, in the order in which they stood, and then neighbours of one key are
joined from left to right.  So what ends up under a key is the join of the elements of that key, in
the order of the list: their total, if joining adds up, and the last of them, if joining replaces.

* `sortBy`, `collapse`: the two steps.
* `filter_sortBy`: the sort is stable.
* `find?_collapse`: what is found under a key once neighbours are joined.
* `AscendingBy.eq_collapse`: **an ascending list that holds the joins is the sorted list with
  neighbours joined.**
-/

namespace Custody

open Std

variable {α κ : Type}

section

variable [DecidableEq κ] (key : α → κ) (join : α → α → α)

/-- Joins the elements of a list into `x` as long as they have its key, then goes on with the next
key. -/
def collapseFrom (x : α) : List α → List α
  | [] => [x]
  | y :: rest =>
    if key x = key y then collapseFrom (join x y) rest else x :: collapseFrom y rest

/-- Joins neighbours that have one key. -/
def collapse : List α → List α
  | [] => []
  | x :: rest => collapseFrom key join x rest

variable {key join}

theorem key_mem_of_mem_collapseFrom (hjoin : ∀ x y, key x = key y → key (join x y) = key x)
    {x z : α} {l : List α} (h : z ∈ collapseFrom key join x l) : key z ∈ (x :: l).map key := by
  fun_induction collapseFrom key join x l with
  | case1 x =>
    rw [List.mem_singleton.mp h]
    exact List.mem_cons_self
  | case2 x y rest hxy ih =>
    have hz := ih h
    rw [List.map_cons, hjoin x y hxy, hxy] at hz
    exact List.mem_cons_of_mem _ hz
  | case3 x y rest hxy ih =>
    rcases List.mem_cons.mp h with rfl | h
    · exact List.mem_cons_self
    · exact List.mem_cons_of_mem _ (ih h)

end

/-- The join of all elements of a list. -/
def joinAll (join : α → α → α) : List α → Option α
  | [] => none
  | x :: rest => some (rest.foldl join x)

/-! ### Sorting -/

section

variable [Ord κ] (key : α → κ) (l : List α)

/-- The list in order of keys, those of one key as they stood. -/
def sortBy : List α := l.mergeSort fun a b => (compare (key a) (key b)).isLE

/-- No key of the list is beyond a later one. -/
def SortedBy : Prop := l.Pairwise fun a b => (compare (key a) (key b)).isLE

variable [TransOrd κ]

theorem isLE_or_isLE (i j : κ) : ((compare i j).isLE || (compare j i).isLE) = true := by
  rw [OrientedOrd.eq_swap (a := j)]
  cases compare i j <;> rfl

theorem sortedBy_sortBy : SortedBy key (sortBy key l) :=
  List.pairwise_mergeSort (fun _ _ _ => TransCmp.isLE_trans) (fun _ _ => isLE_or_isLE _ _) l

/-- **The sort is stable**: the elements of a key are left in the order in which they stood. -/
theorem filter_sortBy [DecidableEq κ] (k : κ) :
    ((sortBy key l).filter fun a => key a == k) = l.filter fun a => key a == k := by
  have hsame : (l.filter fun a => key a == k).Pairwise fun a b =>
      (compare (key a) (key b)).isLE = true := by
    refine List.pairwise_of_forall_mem_list fun a ha b hb => ?_
    have hka : key a = k := by simpa using (List.mem_filter.mp ha).2
    have hkb : key b = k := by simpa using (List.mem_filter.mp hb).2
    rw [hka, hkb, ReflOrd.compare_self]
    rfl
  have hkept : (l.filter fun a => key a == k).Sublist (sortBy key l) :=
    List.sublist_mergeSort (fun _ _ _ => TransCmp.isLE_trans) (fun _ _ => isLE_or_isLE _ _) hsame
      List.filter_sublist
  have hfiltered := hkept.filter fun a => key a == k
  rw [List.filter_filter] at hfiltered
  simp only [Bool.and_self] at hfiltered
  exact (hfiltered.eq_of_length ((List.mergeSort_perm l _).filter _).length_eq.symm).symm

end

/-! ### Sorting, then joining neighbours -/

section

variable [Ord κ] {key : α → κ} {join : α → α → α} {x y : α} {l rest : List α}

/-- In a sorted list, if the second element has another key than the head, the key of the head does
not come again. -/
theorem SortedBy.lt_of_ne [TransOrd κ] [LawfulEqOrd κ] (h : SortedBy key (x :: y :: rest))
    (hxy : key x ≠ key y) : ∀ z ∈ y :: rest, compare (key x) (key z) = .lt := by
  obtain ⟨hx, hrest⟩ := List.pairwise_cons.mp h
  have hlt : compare (key x) (key y) = .lt := by
    have hle := hx y List.mem_cons_self
    cases hc : compare (key x) (key y) with
    | lt => rfl
    | eq => exact absurd (LawfulEqCmp.eq_of_compare hc) hxy
    | gt =>
      rw [hc] at hle
      cases hle
  intro z hz
  rcases List.mem_cons.mp hz with rfl | hz
  · exact hlt
  · exact TransCmp.lt_of_lt_of_isLE hlt ((List.pairwise_cons.mp hrest).1 z hz)

variable (hjoin : ∀ x y, key x = key y → key (join x y) = key x)

include hjoin

theorem SortedBy.join_cons (h : SortedBy key (x :: y :: rest)) (hxy : key x = key y) :
    SortedBy key (join x y :: rest) := by
  obtain ⟨hx, hrest⟩ := List.pairwise_cons.mp h
  refine List.pairwise_cons.mpr ⟨fun z hz => ?_, (List.pairwise_cons.mp hrest).2⟩
  rw [hjoin x y hxy]
  exact hx z (List.mem_cons_of_mem _ hz)

variable [TransOrd κ] [LawfulEqOrd κ] [DecidableEq κ]

theorem collapseFrom_ascending (h : SortedBy key (x :: l)) :
    AscendingBy key (collapseFrom key join x l) := by
  fun_induction collapseFrom key join x l with
  | case1 x => exact List.pairwise_singleton _ _
  | case2 x y rest hxy ih => exact ih (h.join_cons hjoin hxy)
  | case3 x y rest hxy ih =>
    refine List.pairwise_cons.mpr ⟨fun z hz => ?_, ih (List.pairwise_cons.mp h).2⟩
    obtain ⟨z', hz', hkey⟩ := List.mem_map.mp (key_mem_of_mem_collapseFrom hjoin hz)
    exact hkey ▸ h.lt_of_ne hxy z' hz'

theorem find?_collapseFrom (h : SortedBy key (x :: l)) (k : κ) :
    ((collapseFrom key join x l).find? fun a => key a == k) =
      joinAll join ((x :: l).filter fun a => key a == k) := by
  fun_induction collapseFrom key join x l with
  | case1 x => by_cases hk : key x = k <;> simp [hk, joinAll]
  | case2 x y rest hxy ih =>
    have hkey := hjoin x y hxy
    rw [ih (h.join_cons hjoin hxy)]
    by_cases hk : key y = k
    · simp [hkey, hxy, hk, joinAll]
    · simp [hkey, hxy, hk]
  | case3 x y rest hxy ih =>
    by_cases hk : key x = k
    · have hnone : (y :: rest).filter (fun a => key a == k) = [] := by
        refine List.filter_eq_nil_iff.mpr fun z hz hzk => ?_
        exact ne_of_compare_lt (h.lt_of_ne hxy z hz) (hk.trans (beq_iff_eq.mp hzk).symm)
      have hhead : (x :: y :: rest).filter (fun a => key a == k) = [x] := by
        rw [List.filter_cons, if_pos (beq_iff_eq.mpr hk), hnone]
      rw [List.find?_cons_of_pos (by simpa using hk), hhead]
      rfl
    · have htail : (x :: y :: rest).filter (fun a => key a == k) =
          (y :: rest).filter fun a => key a == k :=
        List.filter_cons_of_neg (by simpa using hk)
      rw [List.find?_cons_of_neg (by simpa using hk), htail, ih (List.pairwise_cons.mp h).2]

theorem collapse_ascending (h : SortedBy key l) : AscendingBy key (collapse key join l) := by
  cases l with
  | nil => exact AscendingBy.nil
  | cons x rest => exact collapseFrom_ascending hjoin h

/-- **Once neighbours are joined, each key holds the join of its elements.** -/
theorem find?_collapse (h : SortedBy key l) (k : κ) :
    ((collapse key join l).find? fun a => key a == k) =
      joinAll join (l.filter fun a => key a == k) := by
  cases l with
  | nil => rfl
  | cons x rest => exact find?_collapseFrom hjoin h k

/-- **An ascending list that holds under each key the join of the elements of that key is the sorted
list with neighbours joined.** -/
theorem AscendingBy.eq_collapse {l' : List α} (h : AscendingBy key l')
    (hfind : ∀ k, (l'.find? fun a => key a == k) = joinAll join (l.filter fun a => key a == k)) :
    l' = collapse key join (sortBy key l) := by
  refine h.eq_of_find?_eq (collapse_ascending hjoin (sortedBy_sortBy key l)) fun k => ?_
  rw [find?_collapse hjoin (sortedBy_sortBy key l), filter_sortBy, hfind]

end

end Custody
