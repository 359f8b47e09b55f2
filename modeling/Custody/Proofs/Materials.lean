import Custody.Asset.Material
import Custody.Proofs.Collapse
import Custody.Proofs.SortedMap.Sum

/-!
# Amounts of components

The **amount** of a component in a list of materials is the total of its entries.  Normalizing a
batch keeps the amounts, merging adds them, so no consumed quantity is lost or noted twice.

* `Material.amount_normalize`, `Material.amount_merge`: what happens to amounts.
* `Material.normalize_ascending`, `Material.merge_ascending`: a normalized batch names each
  component once, and so does a composition.
* `Material.mem_components_merge`: a merge names no other components.
* `Material.eq_of_amount_eq`: a composition is determined by its amounts, hence
  `Material.merge_merge` and `Material.normalize_perm`.
* `Material.normalize_eq_collapse`: normalizing is a sort in which neighbours are added up.
* `Material.merge_sorted_sum`: **a merge is a sum in order of components.**
-/

namespace Custody.Material

open Std

attribute [ext] Material

/-- The total quantity of a component in a list of materials. -/
def amount (c : AssetId) (l : List Material) : Nat :=
  (l.map fun m => if m.component = c then m.quantity else 0).sum

variable {c : AssetId}

@[simp] theorem amount_nil : amount c [] = 0 := rfl

@[simp] theorem amount_cons (m : Material) (l : List Material) :
    amount c (m :: l) = (if m.component = c then m.quantity else 0) + amount c l := rfl

theorem normalize_ascending (batch : List Material) :
    AscendingBy component (normalize batch) :=
  List.pairwise_map.mpr (totals batch).ascending

/-- A normalized batch names the components that the batch names. -/
theorem mem_components_normalize (batch : List Material) :
    c ∈ (normalize batch).map component ↔ c ∈ batch.map component := by
  have hkeys : (normalize batch).map component = (totals batch).keys := by
    rw [normalize, List.map_map]
    rfl
  rw [hkeys, totals, SortedMap.mem_keys_foldl_update component fun m q => q.getD 0 + m.quantity]
  exact or_iff_right List.not_mem_nil

theorem amount_normalize (batch : List Material) : amount c (normalize batch) = amount c batch := by
  have hsum := (totals batch).sum_bindings_ite c
  rw [totals, SortedMap.getD_foldl_update] at hsum
  rw [amount, normalize, List.map_map]
  refine hsum.trans ?_
  rw [SortedMap.getD, SortedMap.get?_empty, Option.getD_none, Nat.zero_add, amount]

theorem amount_zipSum (xs ys : List Material) :
    amount c (zipSum xs ys) = amount c xs + amount c ys := by
  fun_induction zipSum xs ys with
  | case1 ys => simp
  | case2 xs hxs => simp
  | case3 x xs y ys hlt ih =>
    rw [amount_cons, ih, amount_cons x, Nat.add_assoc]
  | case4 x xs y ys hgt ih =>
    rw [amount_cons, ih, amount_cons y]
    omega
  | case5 x xs y ys heq ih =>
    have hc : x.component = y.component := LawfulEqCmp.eq_of_compare heq
    simp only [amount_cons, ih, hc]
    split <;> omega

/-- Entries of quantity zero count for nothing. -/
theorem amount_filter_ne_zero (l : List Material) :
    amount c (l.filter fun m => m.quantity != 0) = amount c l := by
  induction l with
  | nil => rfl
  | cons m rest ih =>
    rw [List.filter_cons]
    by_cases hm : m.quantity = 0
    · simp [hm, ih]
    · simp [hm, ih]

/-- **A merge adds the amounts.** -/
theorem amount_merge (existing incoming : List Material) :
    amount c (merge existing incoming) = amount c existing + amount c incoming := by
  rw [merge, amount_filter_ne_zero, amount_zipSum, amount_normalize]

/-! ### The order of components -/

theorem mem_components_zipSum {xs ys : List Material} (h : c ∈ (zipSum xs ys).map component) :
    c ∈ xs.map component ∨ c ∈ ys.map component := by
  fun_induction zipSum xs ys with
  | case1 ys => exact Or.inr h
  | case2 xs hxs => exact Or.inl h
  | case3 x xs y ys hlt ih =>
    rcases List.mem_cons.mp h with rfl | h
    · exact Or.inl List.mem_cons_self
    · exact (ih h).imp_left (List.mem_cons_of_mem _)
  | case4 x xs y ys hgt ih =>
    rcases List.mem_cons.mp h with rfl | h
    · exact Or.inr List.mem_cons_self
    · exact (ih h).imp_right (List.mem_cons_of_mem _)
  | case5 x xs y ys heq ih =>
    rcases List.mem_cons.mp h with rfl | h
    · exact Or.inl List.mem_cons_self
    · exact (ih h).imp (List.mem_cons_of_mem _) (List.mem_cons_of_mem _)

/-- The head that is taken is below all that is left in both lists. -/
theorem zipSum_ascending {xs ys : List Material} (hxs : AscendingBy component xs)
    (hys : AscendingBy component ys) : AscendingBy component (zipSum xs ys) := by
  have hbelow : ∀ {d : AssetId} {xs ys : List Material},
      (∀ m ∈ xs, compare d m.component = .lt) → (∀ m ∈ ys, compare d m.component = .lt) →
        ∀ m ∈ zipSum xs ys, compare d m.component = .lt := fun hxs hys m hm => by
    rcases mem_components_zipSum (List.mem_map_of_mem hm) with hc | hc
    · obtain ⟨m', hm', heq⟩ := List.mem_map.mp hc
      exact heq ▸ hxs m' hm'
    · obtain ⟨m', hm', heq⟩ := List.mem_map.mp hc
      exact heq ▸ hys m' hm'
  fun_induction zipSum xs ys with
  | case1 ys => exact hys
  | case2 xs hne => exact hxs
  | case3 x xs y ys hlt ih =>
    obtain ⟨hx, hxs⟩ := List.pairwise_cons.mp hxs
    refine List.pairwise_cons.mpr ⟨hbelow hx ?_, ih hxs hys⟩
    refine List.forall_mem_cons.mpr ⟨hlt, fun m hm => ?_⟩
    exact TransCmp.lt_trans hlt ((List.pairwise_cons.mp hys).1 m hm)
  | case4 x xs y ys hgt ih =>
    obtain ⟨hy, hys⟩ := List.pairwise_cons.mp hys
    have hlt : compare y.component x.component = .lt := OrientedCmp.lt_of_gt hgt
    refine List.pairwise_cons.mpr ⟨hbelow ?_ hy, ih hxs hys⟩
    refine List.forall_mem_cons.mpr ⟨hlt, fun m hm => ?_⟩
    exact TransCmp.lt_trans hlt ((List.pairwise_cons.mp hxs).1 m hm)
  | case5 x xs y ys heq ih =>
    obtain ⟨hx, hxs⟩ := List.pairwise_cons.mp hxs
    obtain ⟨hy, hys⟩ := List.pairwise_cons.mp hys
    have hc : x.component = y.component := LawfulEqCmp.eq_of_compare heq
    exact List.pairwise_cons.mpr ⟨hbelow hx (hc ▸ hy), ih hxs hys⟩

/-- **A composition names each component once, in order.** -/
theorem merge_ascending {existing : List Material} (h : AscendingBy component existing)
    (incoming : List Material) : AscendingBy component (merge existing incoming) :=
  (zipSum_ascending h (normalize_ascending incoming)).filter _

theorem quantity_ne_zero_of_mem_merge {existing incoming : List Material} {m : Material}
    (h : m ∈ merge existing incoming) : m.quantity ≠ 0 := by
  simpa using (List.mem_filter.mp h).2

theorem mem_components_merge {existing incoming : List Material}
    (h : c ∈ (merge existing incoming).map component) :
    c ∈ existing.map component ∨ c ∈ incoming.map component := by
  obtain ⟨m, hm, rfl⟩ := List.mem_map.mp h
  have hzip := List.mem_map_of_mem (f := component) (List.mem_filter.mp hm).1
  exact (mem_components_zipSum hzip).imp_right (mem_components_normalize incoming).mp

/-! ### Compositions are their amounts -/

theorem amount_append (xs ys : List Material) :
    amount c (xs ++ ys) = amount c xs + amount c ys := by
  rw [amount, List.map_append, List.sum_append_nat]
  rfl

theorem amount_perm {xs ys : List Material} (h : xs.Perm ys) : amount c xs = amount c ys :=
  (h.map _).sum_nat

theorem amount_of_notMem {l : List Material} (h : c ∉ l.map component) : amount c l = 0 := by
  refine List.sum_eq_zero fun n hn => ?_
  obtain ⟨m, hm, rfl⟩ := List.mem_map.mp hn
  have hne : m.component ≠ c := fun heq => h (heq ▸ List.mem_map_of_mem hm)
  exact if_neg hne

/-- A list in order, without entries of quantity zero, is determined by its amounts. -/
theorem eq_of_amount_eq {xs ys : List Material} (hxs : AscendingBy component xs)
    (hys : AscendingBy component ys) (hx : ∀ m ∈ xs, m.quantity ≠ 0) (hy : ∀ m ∈ ys, m.quantity ≠ 0)
    (h : ∀ c, amount c xs = amount c ys) : xs = ys := by
  -- What one list has under a component, the other has under it too.
  have aux : ∀ {xs ys : List Material}, AscendingBy component xs → AscendingBy component ys →
      (∀ m ∈ xs, m.quantity ≠ 0) → (∀ c, amount c xs = amount c ys) → ∀ m ∈ xs, m ∈ ys := by
    intro xs ys hxs hys hx h m hm
    have hamount : amount m.component ys = m.quantity :=
      (h m.component).symm.trans (hxs.sum_map_ite quantity hm)
    have hnamed : m.component ∈ ys.map component := by
      by_contra hnot
      exact hx m hm (hamount.symm.trans (amount_of_notMem hnot))
    obtain ⟨n, hn, hcomponent⟩ := List.mem_map.mp hnamed
    have hquantity : n.quantity = m.quantity :=
      (hys.sum_map_ite quantity hn).symm.trans (hcomponent ▸ hamount)
    exact Material.ext hcomponent hquantity ▸ hn
  exact hxs.eq_of_mem_iff hys fun m =>
    ⟨aux hxs hys hx h m, aux hys hxs hy (fun c => (h c).symm) m⟩

variable {existing : List Material}

/-- **What a merge makes of a batch hangs on the amounts in it alone.** -/
theorem merge_congr (h : AscendingBy component existing) {xs ys : List Material}
    (hamount : ∀ c, amount c xs = amount c ys) : merge existing xs = merge existing ys :=
  eq_of_amount_eq (merge_ascending h xs) (merge_ascending h ys)
    (fun _ => quantity_ne_zero_of_mem_merge) (fun _ => quantity_ne_zero_of_mem_merge)
    fun c => by rw [amount_merge, amount_merge, hamount c]

theorem merge_normalize (h : AscendingBy component existing) (batch : List Material) :
    merge existing (normalize batch) = merge existing batch :=
  merge_congr h fun _ => amount_normalize batch

/-- **Merging one batch after the other is merging them at once.** -/
theorem merge_merge (h : AscendingBy component existing) (xs ys : List Material) :
    merge (merge existing xs) ys = merge existing (xs ++ ys) := by
  have hmerged := merge_ascending h xs
  refine eq_of_amount_eq (merge_ascending hmerged ys) (merge_ascending h _)
    (fun _ => quantity_ne_zero_of_mem_merge) (fun _ => quantity_ne_zero_of_mem_merge) fun c => ?_
  rw [amount_merge, amount_merge, amount_merge, amount_append, Nat.add_assoc]

/-- An entry of a normalized batch is the total of a component that the batch names. -/
theorem mem_normalize {batch : List Material} {m : Material} : m ∈ normalize batch ↔
    m.component ∈ batch.map component ∧ m.quantity = amount m.component batch := by
  have htotal : ∀ n ∈ normalize batch, n.quantity = amount n.component batch := fun n hn => by
    rw [← amount_normalize]
    exact ((normalize_ascending batch).sum_map_ite quantity hn).symm
  constructor
  · intro hm
    exact ⟨(mem_components_normalize batch).mp (List.mem_map_of_mem hm), htotal m hm⟩
  · rintro ⟨hnamed, hquantity⟩
    obtain ⟨n, hn, hcomponent⟩ := List.mem_map.mp ((mem_components_normalize batch).mpr hnamed)
    have hsame : n.quantity = m.quantity := by rw [htotal n hn, hcomponent, hquantity]
    exact Material.ext hcomponent hsame ▸ hn

/-- The order of a batch does not matter. -/
theorem normalize_perm {xs ys : List Material} (h : xs.Perm ys) : normalize xs = normalize ys := by
  refine (normalize_ascending xs).eq_of_mem_iff (normalize_ascending ys) fun m => ?_
  rw [mem_normalize, mem_normalize, (h.map component).mem_iff, amount_perm h]

/-! ### Sorting and adding up neighbours -/

/-- The quantities of two entries, under the component of the first. -/
def plus (m n : Material) : Material := ⟨m.component, m.quantity + n.quantity⟩

theorem amount_filter (c : AssetId) (l : List Material) :
    amount c (l.filter fun m => m.component == c) = amount c l := by
  induction l with
  | nil => rfl
  | cons m rest ih =>
    by_cases hm : m.component = c
    · rw [List.filter_cons_of_pos (by simpa using hm), amount_cons, amount_cons, ih]
    · rw [List.filter_cons_of_neg (by simpa using hm), amount_cons, if_neg hm, Nat.zero_add, ih]

/-- Entries of one component, added up from left to right, are their amount. -/
theorem foldl_plus {l : List Material} (h : ∀ m ∈ l, m.component = c) (q : Nat) :
    l.foldl plus ⟨c, q⟩ = ⟨c, q + amount c l⟩ := by
  induction l generalizing q with
  | nil => rfl
  | cons m rest ih =>
    obtain ⟨hm, hrest⟩ := List.forall_mem_cons.mp h
    rw [List.foldl_cons, plus, ih hrest, amount_cons, if_pos hm, Nat.add_assoc]

theorem joinAll_plus (c : AssetId) (batch : List Material) :
    joinAll plus (batch.filter fun m => m.component == c) =
      if c ∈ batch.map component then some ⟨c, amount c batch⟩ else none := by
  have hsame : ∀ m ∈ batch.filter (fun m => m.component == c), m.component = c :=
    fun m hm => by simpa using (List.mem_filter.mp hm).2
  have hnamed : batch.filter (fun m => m.component == c) = [] ↔ c ∉ batch.map component := by
    rw [List.filter_eq_nil_iff, List.mem_map]
    exact ⟨fun h ⟨m, hm, hc⟩ => h m hm (beq_iff_eq.mpr hc),
      fun h m hm hc => h ⟨m, hm, beq_iff_eq.mp hc⟩⟩
  rw [← amount_filter]
  cases hl : batch.filter fun m => m.component == c with
  | nil => rw [if_neg (hnamed.mp hl), joinAll]
  | cons m rest =>
    rw [hl] at hsame
    obtain ⟨rfl, hrest⟩ := List.forall_mem_cons.mp hsame
    have hsome : m.component ∈ batch.map component :=
      Decidable.byContradiction fun hnot => List.cons_ne_nil _ _ (hl.symm.trans (hnamed.mpr hnot))
    rw [if_pos hsome, amount_cons, if_pos rfl, joinAll]
    exact congrArg some (foldl_plus hrest m.quantity)

/-- **Normalizing is a sort by component, in which neighbours of one component are added up.** -/
theorem normalize_eq_collapse (batch : List Material) :
    normalize batch = collapse component plus (sortBy component batch) := by
  have hplus : ∀ m n : Material, m.component = n.component → (plus m n).component = m.component :=
    fun _ _ _ => rfl
  refine (normalize_ascending batch).eq_collapse hplus fun c => ?_
  rw [joinAll_plus]
  refine Option.ext fun m => ?_
  rw [(normalize_ascending batch).find?_eq_some, mem_normalize]
  split
  · next hc =>
    rw [Option.some.injEq]
    constructor
    · rintro ⟨⟨-, hquantity⟩, rfl⟩
      exact Material.ext rfl hquantity.symm
    · rintro rfl
      exact ⟨⟨hc, rfl⟩, rfl⟩
  · next hc =>
    constructor
    · rintro ⟨⟨hnamed, -⟩, rfl⟩
      exact absurd hnamed hc
    · exact nofun

/-- **A merge is a sum in order of components.**  The batch is sorted by component and neighbours
of one component are added up.  Whatever the lists, merging adds the amount of each component and
leaves no entry of quantity zero.  If the composition names each component once and in order, so
does the result; it then depends on the batch only as far as which entries it has and how often, and
merging one batch after the other is merging them at once. -/
theorem merge_sorted_sum (existing incoming : List Material) :
    normalize incoming = collapse component plus (sortBy component incoming) ∧
    (∀ c, amount c (merge existing incoming) = amount c existing + amount c incoming) ∧
    (∀ m ∈ merge existing incoming, m.quantity ≠ 0) ∧
    (AscendingBy component existing →
      AscendingBy component (merge existing incoming) ∧
      (∀ shuffled, shuffled.Perm incoming → merge existing shuffled = merge existing incoming) ∧
      ∀ more, merge (merge existing incoming) more = merge existing (incoming ++ more)) := by
  refine ⟨normalize_eq_collapse incoming, fun c => amount_merge existing incoming,
    fun m => quantity_ne_zero_of_mem_merge, fun h => ⟨merge_ascending h incoming, ?_, ?_⟩⟩
  · intro shuffled hperm
    exact merge_congr h fun c => amount_perm hperm
  · exact merge_merge h incoming

/-- A batch that names a component three times and another one with nothing, in two orders. -/
theorem merge_sorted_sum_of_shuffled :
    AscendingBy component [⟨⟨"b"⟩, 1⟩, ⟨⟨"d"⟩, 4⟩] ∧
    merge [⟨⟨"b"⟩, 1⟩, ⟨⟨"d"⟩, 4⟩] [⟨⟨"c"⟩, 2⟩, ⟨⟨"a"⟩, 0⟩, ⟨⟨"b"⟩, 5⟩, ⟨⟨"c"⟩, 0⟩, ⟨⟨"c"⟩, 3⟩] =
      [⟨⟨"b"⟩, 6⟩, ⟨⟨"c"⟩, 5⟩, ⟨⟨"d"⟩, 4⟩] ∧
    merge [⟨⟨"b"⟩, 1⟩, ⟨⟨"d"⟩, 4⟩] [⟨⟨"b"⟩, 5⟩, ⟨⟨"c"⟩, 2⟩, ⟨⟨"a"⟩, 0⟩, ⟨⟨"c"⟩, 3⟩, ⟨⟨"c"⟩, 0⟩] =
      [⟨⟨"b"⟩, 6⟩, ⟨⟨"c"⟩, 5⟩, ⟨⟨"d"⟩, 4⟩] := by
  refine ⟨by decide +kernel, by decide +kernel, ?_⟩
  have hsum := merge_sorted_sum [⟨⟨"b"⟩, 1⟩, ⟨⟨"d"⟩, 4⟩]
    [⟨⟨"c"⟩, 2⟩, ⟨⟨"a"⟩, 0⟩, ⟨⟨"b"⟩, 5⟩, ⟨⟨"c"⟩, 0⟩, ⟨⟨"c"⟩, 3⟩]
  refine ((hsum.2.2.2 (by decide +kernel)).2.1 _ ?_).trans (by decide +kernel)
  decide +kernel

end Custody.Material
