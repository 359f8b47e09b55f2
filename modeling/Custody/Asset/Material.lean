import Custody.Identifier
import Custody.SortedMap

/-!
# Materials

A material is a quantity of another asset that was consumed into an asset.  The materials of an
asset are kept in order of components, one entry for each component.

* `Material.normalize`: the total of each component in a batch.
* `Material.merge`: a batch added to a composition in one pass along both.
-/

namespace Custody

open Std

/-- A quantity of a component. -/
structure Material where
  component : AssetId
  quantity : Nat
  deriving DecidableEq, Repr

namespace Material

instance : JsonForm Material where
  toJson m := .object
    [("component_id", toJson m.component), ("quantity", .quantity m.quantity)]
  ofJson? j := do
    let members ← j.fields? ["component_id", "quantity"] []
    return {
      component := ← Json.required? members "component_id" ofJson?
      quantity := ← Json.required? members "quantity" Json.quantity? }

/-- The total quantity of each component in a batch. -/
def totals (batch : List Material) : SortedMap AssetId Nat :=
  batch.foldl (fun sums m => sums.update m.component fun q => q.getD 0 + m.quantity) ∅

/-- A batch in order of components, the quantities of each added up. -/
def normalize (batch : List Material) : List Material :=
  (totals batch).bindings.map fun b => ⟨b.1, b.2⟩

/-- Merges two lists, adding up the quantities where their heads have the same component and
otherwise taking the head with the lesser component. -/
def zipSum : List Material → List Material → List Material
  | [], ys => ys
  | xs, [] => xs
  | x :: xs, y :: ys =>
    match compare x.component y.component with
    | .lt => x :: zipSum xs (y :: ys)
    | .gt => y :: zipSum (x :: xs) ys
    | .eq => ⟨x.component, x.quantity + y.quantity⟩ :: zipSum xs ys
termination_by xs ys => xs.length + ys.length

/-- Adds a batch to a composition; entries of quantity zero are left out. -/
def merge (existing incoming : List Material) : List Material :=
  (zipSum existing (normalize incoming)).filter fun m => m.quantity != 0

example : merge [⟨⟨"a"⟩, 1⟩, ⟨⟨"c"⟩, 2⟩] [⟨⟨"c"⟩, 3⟩, ⟨⟨"b"⟩, 1⟩, ⟨⟨"c"⟩, 1⟩] =
    [⟨⟨"a"⟩, 1⟩, ⟨⟨"b"⟩, 1⟩, ⟨⟨"c"⟩, 6⟩] := by decide +kernel

end Material

end Custody
