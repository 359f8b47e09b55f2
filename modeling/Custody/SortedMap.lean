/-!
# Sorted maps

A **sorted map** is a finite map kept as the list of its bindings in strictly ascending key
order.  The list is determined by what the map says of each key, so two maps with the same
contents are equal, and listing, comparing and hashing a map need no further choice of order.

* `SortedMap.insert`, `SortedMap.erase`: the two changes; `SortedMap.update` counts or sums.
* `SortedMap.get?`, `SortedMap.keys`: what a map says.
* `SortedMap.filterKeys`: the part of a map under a set of keys.
* `SortedMap.stretch`: a run of neighbouring bindings; a range of keys that share their first bytes
  is one of these.
-/

namespace Custody

open Std

/-- A finite map, as the list of its bindings in strictly ascending key order. -/
structure SortedMap (κ ν : Type) [Ord κ] where
  bindings : List (κ × ν)
  ascending : bindings.Pairwise fun a b => compare a.1 b.1 = .lt
  deriving DecidableEq

namespace SortedMap

variable {κ ν : Type} [Ord κ]

/-! ### The list of bindings -/

/-- Binds `k` to `v` in an ascending list, in place of an earlier binding of `k`. -/
def bind (k : κ) (v : ν) : List (κ × ν) → List (κ × ν)
  | [] => [(k, v)]
  | b :: rest =>
    match compare k b.1 with
    | .lt => (k, v) :: b :: rest
    | .eq => (k, v) :: rest
    | .gt => b :: bind k v rest

theorem mem_bind {k : κ} {v : ν} {l : List (κ × ν)} {b : κ × ν} (h : b ∈ bind k v l) :
    b = (k, v) ∨ b ∈ l := by
  induction l with
  | nil => simpa [bind] using h
  | cons a rest ih =>
    rw [bind] at h
    split at h
    · simpa using h
    · rcases List.mem_cons.mp h with h | h
      · exact Or.inl h
      · exact Or.inr (List.mem_cons_of_mem _ h)
    · rcases List.mem_cons.mp h with h | h
      · exact Or.inr (h ▸ List.mem_cons_self)
      · exact (ih h).imp_right (List.mem_cons_of_mem _)

theorem pairwise_bind [TransOrd κ] [LawfulEqOrd κ] {k : κ} {v : ν} {l : List (κ × ν)}
    (h : l.Pairwise fun a b => compare a.1 b.1 = .lt) :
    (bind k v l).Pairwise fun a b => compare a.1 b.1 = .lt := by
  induction l with
  | nil => simp [bind]
  | cons a rest ih =>
    obtain ⟨ha, hrest⟩ := List.pairwise_cons.mp h
    rw [bind]
    split
    · next hlt =>
      refine List.pairwise_cons.mpr ⟨fun b hb => ?_, h⟩
      rcases List.mem_cons.mp hb with rfl | hb
      · exact hlt
      · exact TransCmp.lt_trans hlt (ha b hb)
    · next heq =>
      refine List.pairwise_cons.mpr ⟨fun b hb => ?_, hrest⟩
      rw [LawfulEqCmp.eq_of_compare heq]
      exact ha b hb
    · next hgt =>
      refine List.pairwise_cons.mpr ⟨fun b hb => ?_, ih hrest⟩
      rcases mem_bind hb with rfl | hb
      · exact OrientedCmp.lt_of_gt hgt
      · exact ha b hb

/-! ### Maps -/

/-- The map that binds nothing. -/
def empty : SortedMap κ ν := ⟨[], List.Pairwise.nil⟩

instance : EmptyCollection (SortedMap κ ν) := ⟨empty⟩

instance : Inhabited (SortedMap κ ν) := ⟨∅⟩

/-- The value bound to `k`. -/
def get? (m : SortedMap κ ν) (k : κ) : Option ν :=
  (m.bindings.find? fun b => compare k b.1 == .eq).map (·.2)

/-- The value bound to `k`, or `v` if there is none. -/
def getD (m : SortedMap κ ν) (k : κ) (v : ν) : ν := (m.get? k).getD v

/-- Whether `k` is bound. -/
def contains (m : SortedMap κ ν) (k : κ) : Bool := (m.get? k).isSome

/-- The number of bound keys. -/
def size (m : SortedMap κ ν) : Nat := m.bindings.length

/-- The bound keys in ascending order. -/
def keys (m : SortedMap κ ν) : List κ := m.bindings.map (·.1)

/-- Binds `k` to `v`. -/
def insert [TransOrd κ] [LawfulEqOrd κ] (m : SortedMap κ ν) (k : κ) (v : ν) : SortedMap κ ν :=
  ⟨bind k v m.bindings, pairwise_bind m.ascending⟩

/-- Removes the binding of `k`, if there is one. -/
def erase (m : SortedMap κ ν) (k : κ) : SortedMap κ ν :=
  ⟨m.bindings.filter fun b => compare k b.1 != .eq, m.ascending.filter _⟩

/-- Binds `k` to what `f` makes of its present value. -/
def update [TransOrd κ] [LawfulEqOrd κ] (m : SortedMap κ ν) (k : κ) (f : Option ν → ν) :
    SortedMap κ ν :=
  m.insert k (f (m.get? k))

/-- The bindings whose key satisfies `p`. -/
def filterKeys (m : SortedMap κ ν) (p : κ → Bool) : SortedMap κ ν :=
  ⟨m.bindings.filter fun b => p b.1, m.ascending.filter _⟩

/-- The bindings from `k` on, as far as their keys satisfy `p`. -/
def stretch (m : SortedMap κ ν) (k : κ) (p : κ → Bool) : SortedMap κ ν :=
  ⟨(m.bindings.dropWhile fun b => compare b.1 k == .lt).takeWhile fun b => p b.1,
    m.ascending.sublist ((List.takeWhile_sublist _).trans (List.dropWhile_sublist _))⟩

/-- The map of the bindings of a list, in which a later one of a key replaces an earlier one. -/
def ofList [TransOrd κ] [LawfulEqOrd κ] (l : List (κ × ν)) : SortedMap κ ν :=
  l.foldl (fun m b => m.insert b.1 b.2) ∅

/-- The map that binds each of the given keys to nothing but itself: a finite set. -/
def ofKeys [TransOrd κ] [LawfulEqOrd κ] (l : List κ) : SortedMap κ Unit :=
  l.foldl (fun m k => m.insert k ()) ∅

end SortedMap

end Custody
