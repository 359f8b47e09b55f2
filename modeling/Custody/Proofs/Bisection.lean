import Mathlib.Data.List.InsertIdx
import Custody.Bisection
import Custody.Proofs.Ascending

/-!
# Bisection finds the place

In a list in ascending order of keys, bisection divides the list at the key: what stands before
the place has a lesser key, what stands after it a greater one.

* `bisect_divides`: how the list is divided.
* `exists_bisect_found_iff`: what is found.
* `AscendingBy.upsertBy`: an upsert keeps the order.
* `AscendingBy.mem_upsertBy`, `AscendingBy.find?_upsertBy`: an upsert replaces the element with the
  same key, or adds one.
* `AscendingBy.eraseP_upsertBy`: erasing what an upsert has added undoes it.
-/

namespace Custody

open Std

variable {α κ : Type}

/-- A list that can be bisected: whatever stands before an element that is not beyond the place
lies before it. -/
def Bisectable (cmp : α → Ordering) (l : List α) : Prop :=
  l.Pairwise fun a b => cmp b ≠ .gt → cmp a = .lt

namespace Bisectable

variable {cmp : α → Ordering} {l : List α}

theorem lt_of_lt (h : Bisectable cmp l) {i j : Nat} (hij : i < j) (hj : j < l.length)
    (hle : cmp l[j] ≠ .gt) : cmp l[i] = .lt :=
  List.pairwise_iff_getElem.mp h i j (Nat.lt_trans hij hj) hj hij hle

theorem gt_of_lt (h : Bisectable cmp l) {i j : Nat} (hij : i < j) (hj : j < l.length)
    (hge : cmp l[i] ≠ .lt) : cmp l[j] = .gt :=
  Decidable.byContradiction fun hle => hge (h.lt_of_lt hij hj hle)

/-- The stretch is kept such that it begins at an element that is not beyond the place, unless it
begins with the list, and that all elements after it are beyond the place. -/
theorem narrow_spec (h : Bisectable cmp l) (base size : Nat) (hsize : 0 < size)
    (hlen : base + size ≤ l.length)
    (hlow : base = 0 ∨ ∃ hb : base < l.length, cmp l[base] ≠ .gt)
    (hhigh : ∀ j (hj : j < l.length), base + size ≤ j → cmp l[j] = .gt) :
    ∃ hi : narrow cmp l base size < l.length,
      (narrow cmp l base size = 0 ∨ cmp l[narrow cmp l base size] ≠ .gt) ∧
      ∀ j (hj : j < l.length), narrow cmp l base size < j → cmp l[j] = .gt := by
  fun_induction narrow cmp l base size with
  | case1 base size hone =>
    exact ⟨by omega, hlow.imp_right fun ⟨_, hb⟩ => hb, fun j hj hlt => hhigh j hj (by omega)⟩
  | case2 base size hmany half x hx ih =>
    obtain ⟨hmid, rfl⟩ := List.getElem?_eq_some_iff.mp hx
    by_cases hgt : cmp l[base + half] = .gt
    · rw [dif_pos hgt] at ih
      rw [if_pos hgt]
      refine ih (by omega) (by omega) hlow ?_
      intro j hj hle
      rcases Nat.eq_or_lt_of_le (show base + half ≤ j by omega) with rfl | hlt
      · exact hgt
      · exact h.gt_of_lt hlt hj (by rw [hgt]; decide)
    · rw [dif_neg hgt] at ih
      rw [if_neg hgt]
      exact ih (by omega) (by omega) (Or.inr ⟨hmid, hgt⟩) fun j hj hle => hhigh j hj (by omega)
  | case3 base size hmany half hnone =>
    exact absurd (List.getElem?_eq_none_iff.mp hnone) (by omega)

end Bisectable

/-- How a place divides a list: into what lies before the key, what has it, and what lies beyond. -/
inductive Place.Divides (cmp : α → Ordering) (l : List α) : Place → Prop where
  | found (pre post : List α) (x : α) (split : l = pre ++ x :: post) (eq : cmp x = .eq)
      (before : ∀ a ∈ pre, cmp a = .lt) (beyond : ∀ a ∈ post, cmp a = .gt) :
      Divides cmp l (.found pre.length)
  | missing (pre post : List α) (split : l = pre ++ post)
      (before : ∀ a ∈ pre, cmp a = .lt) (beyond : ∀ a ∈ post, cmp a = .gt) :
      Divides cmp l (.missing pre.length)

/-- **Bisection divides the list at the key.** -/
theorem bisect_divides {cmp : α → Ordering} {l : List α} (h : Bisectable cmp l) :
    (bisect cmp l).Divides cmp l := by
  by_cases hl : l = []
  · subst hl
    have hbisect : bisect cmp ([] : List α) = .missing 0 := by
      simp [bisect, narrow]
    exact hbisect ▸ Place.Divides.missing [] [] rfl (by simp) (by simp)
  obtain ⟨hi, hlow, hhigh⟩ := h.narrow_spec 0 l.length (List.length_pos_of_ne_nil hl)
    (Nat.le_of_eq (Nat.zero_add _)) (Or.inl rfl) (fun j hj hle => absurd hj (by omega))
  rw [bisect]
  generalize narrow cmp l 0 l.length = i at hi hlow hhigh
  have hsplit : l = l.take i ++ l[i] :: l.drop (i + 1) := by simp
  have hlen : (l.take i).length = i := by simp; omega
  have hbeyond : ∀ a ∈ l.drop (i + 1), cmp a = .gt := by
    intro a ha
    obtain ⟨j, hj, rfl⟩ := List.mem_drop_iff_getElem.mp ha
    exact hhigh _ _ (by omega)
  have hbefore : cmp l[i] ≠ .gt → ∀ a ∈ l.take i, cmp a = .lt := by
    intro hne a ha
    obtain ⟨j, hj, rfl⟩ := List.mem_take_iff_getElem.mp ha
    exact h.lt_of_lt (by omega) hi hne
  simp only [List.getElem?_eq_getElem hi]
  cases hx : cmp l[i] with
  | eq =>
    have := Place.Divides.found _ _ _ hsplit hx (hbefore (by simp [hx])) hbeyond
    rwa [hlen] at this
  | lt =>
    have hsplit' : l = (l.take i ++ [l[i]]) ++ l.drop (i + 1) := by simp
    have := Place.Divides.missing _ _ hsplit' (fun a ha => ?_) hbeyond
    · rwa [List.length_append, hlen] at this
    · rcases List.mem_append.mp ha with ha | ha
      · exact hbefore (by simp [hx]) a ha
      · rwa [List.mem_singleton.mp ha]
  | gt =>
    obtain rfl : i = 0 := hlow.resolve_right (· hx)
    refine .missing [] l rfl (by simp) ?_
    intro a ha
    rw [hsplit] at ha
    rcases List.mem_cons.mp ha with rfl | ha
    · exact hx
    · exact hbeyond a ha

/-- Whatever the order of a list, an element that is found has the key. -/
theorem eq_of_bisect_found {cmp : α → Ordering} {l : List α} {i : Nat}
    (h : bisect cmp l = .found i) : ∃ x ∈ l, cmp x = .eq := by
  rw [bisect] at h
  generalize narrow cmp l 0 l.length = j at h
  cases hx : l[j]? with
  | none =>
    simp only [hx] at h
    exact Place.noConfusion h
  | some x =>
    refine ⟨x, List.mem_of_getElem? hx, ?_⟩
    cases hcmp : cmp x with
    | eq => rfl
    | lt =>
      simp only [hx, hcmp] at h
      exact Place.noConfusion h
    | gt =>
      simp only [hx, hcmp] at h
      exact Place.noConfusion h

/-- **Bisection finds an element just if one has the key.** -/
theorem exists_bisect_found_iff {cmp : α → Ordering} {l : List α} (h : Bisectable cmp l) :
    (∃ i, bisect cmp l = .found i) ↔ ∃ x ∈ l, cmp x = .eq := by
  constructor
  · rintro ⟨i, hi⟩
    exact eq_of_bisect_found hi
  · rintro ⟨x, hx, heq⟩
    have hdiv := bisect_divides h
    generalize bisect cmp l = place at hdiv ⊢
    cases hdiv with
    | found => exact ⟨_, rfl⟩
    | missing pre post hsplit hbefore hbeyond =>
      rw [hsplit] at hx
      rcases List.mem_append.mp hx with hx | hx
      · exact nomatch heq.symm.trans (hbefore x hx)
      · exact nomatch heq.symm.trans (hbeyond x hx)

/-! ### Upserts -/

/-- Whatever the order of a list, an upsert adds nothing but the element. -/
theorem mem_of_mem_upsertBy [Ord κ] {key : α → κ} {x y : α} {l : List α}
    (h : y ∈ upsertBy key x l) : y = x ∨ y ∈ l := by
  rw [upsertBy] at h
  split at h
  · exact (List.mem_or_eq_of_mem_set h).symm
  · exact List.eq_or_mem_of_mem_insertIdx h

/-! ### Upserts in ascending lists -/

theorem insertIdx_length_append (pre post : List α) (x : α) :
    (pre ++ post).insertIdx pre.length x = pre ++ x :: post := by
  induction pre with
  | nil => rfl
  | cons a pre ih =>
    rw [List.cons_append, List.length_cons, List.insertIdx_succ_cons, ih, List.cons_append]

namespace AscendingBy

variable [Ord κ] [TransOrd κ] {key : α → κ} {l : List α}

theorem bisectable (h : AscendingBy key l) (k : κ) :
    Bisectable (fun a => compare (key a) k) l :=
  List.Pairwise.imp (fun hab hle => TransCmp.lt_of_lt_of_isLE hab (by
    cases hb : compare _ k <;> simp_all)) h

variable [LawfulEqOrd κ]

/-- An upsert puts the element between those of lesser and those of greater keys. -/
theorem upsertBy_split (h : AscendingBy key l) (x : α) : ∃ pre same post,
    l = pre ++ same ++ post ∧ upsertBy key x l = pre ++ x :: post ∧
    (∀ a ∈ same, key a = key x) ∧ (∀ a ∈ pre, compare (key a) (key x) = .lt) ∧
    ∀ a ∈ post, compare (key a) (key x) = .gt := by
  have hdiv := bisect_divides (h.bisectable (key x))
  rw [upsertBy]
  generalize bisect _ l = place at hdiv
  cases hdiv with
  | found pre post y hsplit heq hbefore hbeyond =>
    refine ⟨pre, [y], post, by simpa using hsplit, ?_, ?_, hbefore, hbeyond⟩
    · simp [hsplit]
    · intro a ha
      rw [List.mem_singleton.mp ha]
      exact LawfulEqCmp.eq_of_compare heq
  | missing pre post hsplit hbefore hbeyond =>
    refine ⟨pre, [], post, by simpa using hsplit, ?_, by simp, hbefore, hbeyond⟩
    rw [hsplit]
    exact insertIdx_length_append pre post x

/-- **An upsert keeps the order.** -/
theorem upsertBy (h : AscendingBy key l) (x : α) : AscendingBy key (upsertBy key x l) := by
  obtain ⟨pre, same, post, rfl, heq, -, hbefore, hbeyond⟩ := h.upsertBy_split x
  rw [heq]
  obtain ⟨hfirst, hpost, hcross⟩ := List.pairwise_append.mp h
  obtain ⟨hpre, -, -⟩ := List.pairwise_append.mp hfirst
  refine List.pairwise_append.mpr ⟨hpre, List.pairwise_cons.mpr ⟨?_, hpost⟩, ?_⟩
  · intro a ha
    exact OrientedCmp.lt_of_gt (hbeyond a ha)
  · intro a ha b hb
    rcases List.mem_cons.mp hb with rfl | hb
    · exact hbefore a ha
    · exact hcross a (List.mem_append_left _ ha) b hb

/-- **An upsert takes the place of the element with its key, and of no other.** -/
theorem mem_upsertBy (h : AscendingBy key l) {x y : α} :
    y ∈ Custody.upsertBy key x l ↔ y = x ∨ y ∈ l ∧ key y ≠ key x := by
  obtain ⟨pre, same, post, rfl, heq, hsame, hbefore, hbeyond⟩ := h.upsertBy_split x
  have hne : ∀ a, a ∈ pre ∨ a ∈ post → key a ≠ key x := by
    rintro a (ha | ha) hkey
    · simpa [hkey] using hbefore a ha
    · simpa [hkey] using hbeyond a ha
  rw [heq]
  simp only [List.mem_append, List.mem_cons]
  constructor
  · rintro (ha | rfl | ha)
    · exact Or.inr ⟨Or.inl (Or.inl ha), hne y (Or.inl ha)⟩
    · exact Or.inl rfl
    · exact Or.inr ⟨Or.inr ha, hne y (Or.inr ha)⟩
  · rintro (rfl | ⟨(ha | ha) | ha, hkey⟩)
    · exact Or.inr (Or.inl rfl)
    · exact Or.inl ha
    · exact absurd (hsame y ha) hkey
    · exact Or.inr (Or.inr ha)

/-- After an upsert the element is found under its key, and nothing else changes. -/
theorem find?_upsertBy [BEq κ] [LawfulBEq κ] (h : AscendingBy key l) (x : α) (k : κ) :
    ((Custody.upsertBy key x l).find? fun a => key a == k) =
      if key x == k then some x else l.find? fun a => key a == k := by
  refine Option.ext ?_
  intro y
  rw [(h.upsertBy x).find?_eq_some, h.mem_upsertBy]
  by_cases hk : key x = k
  · rw [if_pos (beq_iff_eq.mpr hk), Option.some.injEq]
    constructor
    · rintro ⟨rfl | ⟨-, hne⟩, hy⟩
      · rfl
      · exact absurd (hy.trans hk.symm) hne
    · rintro rfl
      exact ⟨Or.inl rfl, hk⟩
  · rw [if_neg fun h => hk (beq_iff_eq.mp h), h.find?_eq_some]
    constructor
    · rintro ⟨rfl | ⟨hmem, -⟩, hy⟩
      · exact absurd hy hk
      · exact ⟨hmem, hy⟩
    · rintro ⟨hmem, rfl⟩
      exact ⟨Or.inr ⟨hmem, Ne.symm hk⟩, rfl⟩

/-- Erasing an element that an upsert has inserted gives the list back. -/
theorem eraseP_upsertBy [BEq κ] [LawfulBEq κ] (h : AscendingBy key l) {x : α}
    (hfree : ∀ a ∈ l, key a ≠ key x) :
    ((Custody.upsertBy key x l).eraseP fun a => key a == key x) = l := by
  obtain ⟨pre, same, post, rfl, heq, hsame, -, -⟩ := h.upsertBy_split x
  have hnil : same = [] := List.eq_nil_iff_forall_not_mem.mpr fun a ha =>
    hfree a (List.mem_append_left _ (List.mem_append_right _ ha)) (hsame a ha)
  subst hnil
  have hpre : ∀ a ∈ pre, ¬ (key a == key x) = true := fun a ha hkey =>
    hfree a (List.mem_append_left _ (List.mem_append_left _ ha)) (eq_of_beq hkey)
  rw [heq, List.eraseP_append_right _ hpre, List.eraseP_cons, beq_self_eq_true, cond_true,
    List.append_nil]

end AscendingBy

end Custody
