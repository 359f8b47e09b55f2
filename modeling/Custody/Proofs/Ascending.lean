import Mathlib.Algebra.BigOperators.Group.List.Basic
import Mathlib.Algebra.Order.Ring.Nat
import Mathlib.Data.List.Nodup
import Mathlib.Data.List.Sort
import Custody.SortedMap.Lemmas

/-!
# Lists in ascending order of keys

The parts of an asset are kept as lists in strictly ascending order of a key, so each key occurs
once and finding an element is finding its key.

* `AscendingBy`: such a list.
* `AscendingBy.eq_of_mem_iff`: such a list is determined by its elements.
* `AscendingBy.find?_eq_some`: what is found under a key.
* `AscendingBy.eq_of_find?_eq`: such a list is determined by what is found in it.
-/

namespace Custody

open Std

variable {α κ : Type} [Ord κ]

/-- A list in strictly ascending order of keys. -/
def AscendingBy (key : α → κ) (l : List α) : Prop :=
  l.Pairwise fun a b => compare (key a) (key b) = .lt

instance (key : α → κ) (l : List α) : Decidable (AscendingBy key l) :=
  inferInstanceAs (Decidable (l.Pairwise fun a b => compare (key a) (key b) = .lt))

theorem ne_of_compare_lt [ReflOrd κ] {i j : κ} (h : compare i j = .lt) : i ≠ j := by
  rintro rfl
  rw [ReflOrd.compare_self] at h
  exact Ordering.noConfusion h

namespace AscendingBy

variable {key : α → κ} {l : List α}

theorem nil : AscendingBy key [] := List.Pairwise.nil

theorem nodup_map [ReflOrd κ] (h : AscendingBy key l) : (l.map key).Nodup :=
  List.pairwise_map.mpr <| List.Pairwise.imp (fun {_ _} => ne_of_compare_lt) h

/-- The key at the head does not occur again. -/
theorem head_key_ne [ReflOrd κ] {b : α} (h : AscendingBy key (b :: l)) :
    ∀ c ∈ l, key b ≠ key c :=
  fun c hc => ne_of_compare_lt ((List.pairwise_cons.mp h).1 c hc)

/-- An element is determined by its key. -/
theorem eq_of_mem [ReflOrd κ] (h : AscendingBy key l) {a b : α} (ha : a ∈ l) (hb : b ∈ l)
    (hkey : key a = key b) : a = b :=
  List.inj_on_of_nodup_map h.nodup_map ha hb hkey

/-- Two such lists with the same elements are the same. -/
theorem eq_of_mem_iff [ReflOrd κ] [OrientedOrd κ] (h : AscendingBy key l) {l' : List α}
    (h' : AscendingBy key l') (hmem : ∀ a, a ∈ l ↔ a ∈ l') : l = l' := by
  have hirrefl : Std.Irrefl fun a b : α => compare (key a) (key b) = .lt :=
    ⟨fun _ ha => ne_of_compare_lt ha rfl⟩
  have hantisymm : Std.Antisymm fun a b : α => compare (key a) (key b) = .lt :=
    ⟨fun a b hab hba => nomatch (OrientedCmp.gt_of_lt hab).symm.trans hba⟩
  exact List.Pairwise.eq_of_mem_iff h h' hmem

theorem find?_eq_some [ReflOrd κ] [BEq κ] [LawfulBEq κ] (h : AscendingBy key l) {k : κ} {a : α} :
    (l.find? fun b => key b == k) = some a ↔ a ∈ l ∧ key a = k := by
  constructor
  · intro ha
    exact ⟨List.mem_of_find?_eq_some ha, by simpa using List.find?_some ha⟩
  · rintro ⟨ha, rfl⟩
    cases hb : l.find? fun b => key b == key a with
    | none => exact absurd (List.find?_eq_none.mp hb a ha) (by simp)
    | some b =>
      have hkey : key b = key a := by simpa using List.find?_some hb
      rw [h.eq_of_mem (List.mem_of_find?_eq_some hb) ha hkey]

/-- Two such lists in which the same is found under each key are the same. -/
theorem eq_of_find?_eq [ReflOrd κ] [OrientedOrd κ] [BEq κ] [LawfulBEq κ] (h : AscendingBy key l)
    {l' : List α} (h' : AscendingBy key l')
    (hfind : ∀ k, (l.find? fun a => key a == k) = l'.find? fun a => key a == k) : l = l' := by
  refine h.eq_of_mem_iff h' fun a => ?_
  have hl : (l.find? fun b => key b == key a) = some a ↔ a ∈ l :=
    h.find?_eq_some.trans (and_iff_left rfl)
  have hl' : (l'.find? fun b => key b == key a) = some a ↔ a ∈ l' :=
    h'.find?_eq_some.trans (and_iff_left rfl)
  rw [← hl, ← hl', hfind]

/-- Erasing a key takes out all that has it, and leaves the others in place. -/
theorem eraseP_eq_filter [ReflOrd κ] [BEq κ] [LawfulBEq κ] (h : AscendingBy key l) (k : κ) :
    (l.eraseP fun b => key b == k) = l.filter fun b => key b != k := by
  induction l with
  | nil => rfl
  | cons b rest ih =>
    by_cases hk : key b = k
    · have hne : ∀ c ∈ rest, (key c != k) = true :=
        fun c hc => bne_iff_ne.mpr (hk ▸ (h.head_key_ne c hc).symm)
      rw [List.eraseP_cons_of_pos (by simpa using hk), List.filter_cons_of_neg (by simpa using hk),
        List.filter_eq_self.mpr hne]
    · rw [List.eraseP_cons_of_neg (by simpa using hk), List.filter_cons_of_pos (by simpa using hk),
        ih (List.pairwise_cons.mp h).2]

/-- Erasing a key leaves no element with it. -/
theorem key_ne_of_mem_eraseP [ReflOrd κ] [BEq κ] [LawfulBEq κ] (h : AscendingBy key l) {k : κ}
    {a : α} (ha : a ∈ l.eraseP fun b => key b == k) : key a ≠ k := by
  rw [h.eraseP_eq_filter] at ha
  exact bne_iff_ne.mp (List.mem_filter.mp ha).2

/-- After a key is erased nothing is found under it, and nothing else changes. -/
theorem find?_eraseP [ReflOrd κ] [DecidableEq κ] (h : AscendingBy key l) (k k' : κ) :
    ((l.eraseP fun b => key b == k).find? fun b => key b == k') =
      if k = k' then none else l.find? fun b => key b == k' := by
  rw [h.eraseP_eq_filter, List.find?_filter]
  by_cases hk : k = k'
  · subst hk
    rw [if_pos rfl, List.find?_eq_none]
    intro b _
    by_cases hb : key b = k <;> simp [hb]
  · rw [if_neg hk]
    refine congrArg (l.find? ·) (funext fun b => ?_)
    by_cases hb : key b = k'
    · simp [hb, Ne.symm hk]
    · simp [hb]

/-- The elements with the key of an element, added up, are that element. -/
theorem sum_map_ite [ReflOrd κ] [DecidableEq κ] (h : AscendingBy key l) (f : α → Nat) {a : α}
    (ha : a ∈ l) : (l.map fun b => if key b = key a then f b else 0).sum = f a := by
  induction l with
  | nil => exact absurd ha List.not_mem_nil
  | cons b rest ih =>
    rw [List.map_cons, List.sum_cons]
    rcases List.mem_cons.mp ha with rfl | ha
    · have hzero : (rest.map fun c => if key c = key a then f c else 0).sum = 0 :=
        List.sum_eq_zero fun n hn => by
          obtain ⟨c, hc, rfl⟩ := List.mem_map.mp hn
          exact if_neg (h.head_key_ne c hc).symm
      rw [if_pos rfl, hzero, Nat.add_zero]
    · rw [if_neg (h.head_key_ne a ha), Nat.zero_add]
      exact ih (List.pairwise_cons.mp h).2 ha

end AscendingBy

end Custody
