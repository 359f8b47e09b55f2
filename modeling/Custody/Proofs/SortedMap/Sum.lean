import Mathlib.Algebra.BigOperators.Group.List.Basic
import Mathlib.Algebra.Order.BigOperators.Group.List
import Mathlib.Algebra.Order.Ring.Nat
import Custody.Proofs.SortedMap.View

/-!
# Sums over sorted maps

The values of a map, weighed and added up.  A change of the map changes the sum by the weights of
the binding that comes and of the one that goes.

* `sum_insert`, `sum_update`: the sum after a change.
* `getD_foldl_update`: a map that is counted up entry by entry holds the sum of each key.
-/

namespace Custody.SortedMap

open Std

variable {κ ν α : Type} [Ord κ]

/-- The weights of the values of a map, added up. -/
def sum (f : ν → Nat) (m : SortedMap κ ν) : Nat := (m.bindings.map fun b => f b.2).sum

variable [TransOrd κ] [LawfulEqOrd κ]

omit [LawfulEqOrd κ] in
theorem sum_bind (f : ν → Nat) (k : κ) (v : ν) {l : List (κ × ν)}
    (h : l.Pairwise fun a b => compare a.1 b.1 = .lt) :
    ((bind k v l).map fun b => f b.2).sum + ((lookup l k).map f).getD 0 =
      (l.map fun b => f b.2).sum + f v := by
  induction l with
  | nil => simp [bind]
  | cons b rest ih =>
    obtain ⟨hb, hrest⟩ := List.pairwise_cons.mp h
    rw [bind, lookup_cons]
    split
    · next hlt =>
      have hnone : lookup rest k = none :=
        lookup_eq_none_of_lt fun c hc => TransCmp.lt_trans hlt (hb c hc)
      simp [hlt, hnone, Nat.add_comm]
    · next heq =>
      simp only [heq, if_true, List.map_cons, List.sum_cons, Option.map_some, Option.getD_some]
      omega
    · next hgt =>
      have := ih hrest
      simp only [hgt, reduceCtorEq, if_false, List.map_cons, List.sum_cons]
      omega

/-- **An insertion adds the new weight and takes away the old one.** -/
theorem sum_insert (f : ν → Nat) (m : SortedMap κ ν) (k : κ) (v : ν) :
    (m.insert k v).sum f + ((m.get? k).map f).getD 0 = m.sum f + f v :=
  sum_bind f k v m.ascending

/-- An update that adds to the weight of a key adds as much to the sum. -/
theorem sum_update (f : ν → Nat) (m : SortedMap κ ν) (k : κ) {g : Option ν → ν} {w : Nat}
    (hg : f (g (m.get? k)) = ((m.get? k).map f).getD 0 + w) :
    (m.update k g).sum f = m.sum f + w := by
  have hinsert := sum_insert f m k (g (m.get? k))
  show (m.insert k (g (m.get? k))).sum f = m.sum f + w
  omega

omit [TransOrd κ] in
/-- The weight of a binding is at most the sum. -/
theorem le_sum_of_get? (f : ν → Nat) {m : SortedMap κ ν} {k : κ} {v : ν}
    (h : m.get? k = some v) : f v ≤ m.sum f := by
  have hmem := (mem_bindings m k v).mpr h
  exact List.single_le_sum (fun _ _ => Nat.zero_le _) _ (List.mem_map.mpr ⟨_, hmem, rfl⟩)

/-- Counting up entry by entry gives each key the sum of its entries. -/
theorem getD_foldl_update [DecidableEq κ] (key : α → κ) (amount : α → Nat) (l : List α)
    (m : SortedMap κ Nat) (k : κ) :
    (l.foldl (fun sums a => sums.update (key a) fun q => q.getD 0 + amount a) m).getD k 0 =
      m.getD k 0 + (l.map fun a => if key a = k then amount a else 0).sum := by
  induction l generalizing m with
  | nil => simp
  | cons a rest ih =>
    rw [List.foldl_cons, ih, getD, get?_update, List.map_cons, List.sum_cons]
    by_cases hk : k = key a
    · simp [hk, getD, Nat.add_assoc]
    · simp [hk, Ne.symm hk, getD]

omit [TransOrd κ] in
/-- The bindings of a key, added up, are what the map says of it. -/
theorem sum_bindings_ite [DecidableEq κ] (m : SortedMap κ Nat) (k : κ) :
    (m.bindings.map fun b => if b.1 = k then b.2 else 0).sum = m.getD k 0 := by
  obtain ⟨l, hl⟩ := m
  rw [getD, get?_eq_lookup]
  change (l.map _).sum = (lookup l k).getD 0
  induction l with
  | nil => rfl
  | cons b rest ih =>
    obtain ⟨hb, hrest⟩ := List.pairwise_cons.mp hl
    rw [List.map_cons, List.sum_cons, ih hrest, lookup_cons]
    by_cases hk : k = b.1
    · subst hk
      simp [lookup_eq_none_of_lt hb]
    · simp [hk, Ne.symm hk]

end Custody.SortedMap
