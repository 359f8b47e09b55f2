/-!
# Bisection

Finding the place of a key in an ascending list by halving the stretch that can hold it.  The
number of comparisons depends on the length of the list alone; in a list that is not ascending
the place found is still determined, and it is a place in the list.

* `bisect`: where an element stands, or where it would have to go.
* `upsertBy`: replaces the element with the same key, or inserts at the place found.
-/

namespace Custody

/-- The place of a key in a list. -/
inductive Place where
  /-- An element with the key stands at this index. -/
  | found (index : Nat)
  /-- No element has the key; it belongs before the element at this index. -/
  | missing (index : Nat)
  deriving DecidableEq, Repr

variable {α κ : Type}

/-- The last index of the stretch of `size` elements from `base` that bisection ends on. -/
def narrow (cmp : α → Ordering) (l : List α) (base size : Nat) : Nat :=
  if size ≤ 1 then base
  else
    let half := size / 2
    match l[base + half]? with
    | some x => narrow cmp l (if cmp x = .gt then base else base + half) (size - half)
    | none => base
termination_by size

/-- The place of the element for which `cmp` answers `.eq`; `cmp x` compares `x` with the key. -/
def bisect (cmp : α → Ordering) (l : List α) : Place :=
  let i := narrow cmp l 0 l.length
  match l[i]? with
  | none => .missing i
  | some x =>
    match cmp x with
    | .eq => .found i
    | .lt => .missing (i + 1)
    | .gt => .missing i

/-- Puts `x` at the place of its key: over the element that has the key, or between its
neighbours. -/
def upsertBy [Ord κ] (key : α → κ) (x : α) (l : List α) : List α :=
  match bisect (fun y => compare (key y) (key x)) l with
  | .found i => l.set i x
  | .missing i => l.insertIdx i x

example : bisect (compare · 5) [1, 3, 5, 7] = .found 2 := by decide +kernel

example : bisect (compare · 4) [1, 3, 5, 7] = .missing 2 := by decide +kernel

end Custody
