import Custody.Asset.Property
import Custody.Proofs.Bisection
import Custody.Proofs.Collapse
import Custody.Proofs.SortedMap.View

/-!
# Properties laid over a set

A batch of properties is normalized and laid over a set in order of names.  The result is again in
order of names and holds nothing but old and new properties; of each name it holds the last one.

* `Property.normalize_ascending`, `Property.upsert_ascending`: the order is kept.
* `Property.mem_normalize`, `Property.mem_upsert`: where the properties come from.
* `Property.find?_normalize`, `Property.find?_upsert`: what is found under a name.
* `Property.normalize_eq_collapse`: normalizing is a stable sort in which the last of several
  neighbours stays.
* `Property.upsert_last_wins`: **the last one wins**, within a batch and from batch to batch.
-/

namespace Custody

open Std

namespace Property

theorem normalize_ascending (batch : List Property) : AscendingBy name (normalize batch) :=
  List.pairwise_map.mpr (SortedMap.ofList _).ascending

theorem mem_normalize {batch : List Property} {p : Property} (h : p ∈ normalize batch) :
    p ∈ batch := by
  obtain ⟨b, hb, rfl⟩ := List.mem_map.mp h
  have hget := (SortedMap.mem_bindings _ _ _).mp hb
  rw [SortedMap.get?_ofList] at hget
  obtain ⟨q, hq, heq⟩ := List.mem_map.mp (List.mem_reverse.mp (SortedMap.mem_of_lookup hget))
  obtain ⟨hname, hvalue⟩ := Prod.mk.inj heq
  rwa [← hname, ← hvalue]

theorem ascending_foldl_upsertBy {l : List Property} (hl : AscendingBy name l)
    (batch : List Property) :
    AscendingBy name (batch.foldl (fun set p => upsertBy name p set) l) := by
  induction batch generalizing l with
  | nil => exact hl
  | cons p rest ih => exact ih (hl.upsertBy p)

theorem upsert_ascending {l : List Property} (hl : AscendingBy name l) (batch : List Property) :
    AscendingBy name (upsert l batch) := ascending_foldl_upsertBy hl _

theorem mem_upsert {l batch : List Property} {p : Property} (h : p ∈ upsert l batch) :
    p ∈ l ∨ p ∈ batch := by
  have hfold : ∀ (batch l : List Property),
      p ∈ batch.foldl (fun set p => upsertBy name p set) l → p ∈ l ∨ p ∈ batch := by
    intro batch
    induction batch with
    | nil => exact fun l h => Or.inl h
    | cons q rest ih =>
      intro l h
      rcases ih _ h with h | h
      · rcases mem_of_mem_upsertBy h with rfl | h
        · exact Or.inr List.mem_cons_self
        · exact Or.inl h
      · exact Or.inr (List.mem_cons_of_mem _ h)
  exact (hfold _ _ h).imp_right mem_normalize

/-! ### What is found under a name -/

/-- What a list of named values says of a name, as a list of bindings and as one of properties. -/
theorem lookup_map (l : List Property) (n : PropertyName) :
    SortedMap.lookup (l.map fun p => (p.name, p.value)) n =
      (l.find? fun p => p.name == n).map value := by
  have hname : (fun p : Property => compare n p.name == .eq) = fun p => p.name == n := by
    funext p
    rw [Bool.eq_iff_iff, beq_iff_eq, beq_iff_eq, LawfulEqCmp.compare_eq_iff_eq, eq_comm]
  rw [SortedMap.lookup, List.find?_map, Option.map_map]
  exact congrArg (fun q => (l.find? q).map value) hname

theorem find?_eq_of_lookup_eq {l l' : List Property} {n : PropertyName}
    (h : SortedMap.lookup (l.map fun p => (p.name, p.value)) n =
      SortedMap.lookup (l'.map fun p => (p.name, p.value)) n) :
    (l.find? fun p => p.name == n) = l'.find? fun p => p.name == n := by
  have hfound : ∀ l : List Property, (l.find? fun p => p.name == n) =
      ((l.find? fun p => p.name == n).map value).map (Property.mk n) := by
    intro l
    cases hp : l.find? fun p => p.name == n with
    | none => rfl
    | some p =>
      obtain rfl : p.name = n := by simpa using List.find?_some hp
      rfl
  rw [lookup_map, lookup_map] at h
  rw [hfound l, hfound l', h]

/-- A normalized batch holds of each name the last property of the batch. -/
theorem find?_normalize (batch : List Property) (n : PropertyName) :
    ((normalize batch).find? fun p => p.name == n) = batch.reverse.find? fun p => p.name == n := by
  refine find?_eq_of_lookup_eq ?_
  rw [normalize, List.map_map, List.map_reverse, ← SortedMap.get?_ofList]
  exact congrArg (SortedMap.lookup · n) (List.map_id _)

/-- **A batch laid over a set: of each name the last property of the batch counts, and the old one
where the batch has none.** -/
theorem find?_upsert {l : List Property} (hl : AscendingBy name l) (batch : List Property)
    (n : PropertyName) :
    ((upsert l batch).find? fun p => p.name == n) =
      (batch.reverse.find? fun p => p.name == n).or (l.find? fun p => p.name == n) := by
  have hfold : ∀ (batch l : List Property), AscendingBy name l →
      ((batch.foldl (fun set p => upsertBy name p set) l).find? fun p => p.name == n) =
        (batch.reverse.find? fun p => p.name == n).or (l.find? fun p => p.name == n) := by
    intro batch
    induction batch with
    | nil => exact fun _ _ => rfl
    | cons p rest ih =>
      intro l hl
      rw [List.foldl_cons, ih _ (hl.upsertBy p), hl.find?_upsertBy, List.reverse_cons,
        List.find?_append, Option.or_assoc]
      cases hn : p.name == n <;> simp [hn]
  rw [upsert, hfold _ l hl, ← find?_normalize batch n]
  refine congrArg (Option.or · _) (find?_eq_of_lookup_eq ?_)
  rw [List.map_reverse, SortedMap.lookup_reverse]
  exact List.pairwise_map.mpr (normalize_ascending batch)

/-! ### The last one wins -/

theorem joinAll_replace {α : Type} (l : List α) : joinAll (fun _ b => b) l = l.getLast? := by
  cases l with
  | nil => rfl
  | cons a rest =>
    rw [joinAll, List.getLast?_cons]
    induction rest generalizing a with
    | nil => rfl
    | cons b rest ih => rw [List.foldl_cons, ih, List.getLast?_cons, Option.getD_some]

theorem find?_reverse_eq_getLast? {α : Type} (p : α → Bool) (l : List α) :
    l.reverse.find? p = (l.filter p).getLast? := by
  rw [← List.head?_filter, List.filter_reverse, List.head?_reverse]

/-- **Normalizing is a stable sort by name, in which the last of neighbours with one name stays.** -/
theorem normalize_eq_collapse (batch : List Property) :
    normalize batch = collapse name (fun _ p => p) (sortByName batch) := by
  refine (normalize_ascending batch).eq_collapse (fun _ _ => Eq.symm) fun n => ?_
  rw [joinAll_replace, find?_normalize, find?_reverse_eq_getLast?]

/-- **Two batches laid over a set one after the other are one batch.** -/
theorem upsert_upsert {l : List Property} (hl : AscendingBy name l) (xs ys : List Property) :
    upsert (upsert l xs) ys = upsert l (xs ++ ys) := by
  have hxs := upsert_ascending hl xs
  refine (upsert_ascending hxs ys).eq_of_find?_eq (upsert_ascending hl _) fun n => ?_
  rw [find?_upsert hxs, find?_upsert hl, find?_upsert hl, List.reverse_append, List.find?_append,
    Option.or_assoc]

/-- **The last one wins.**  A batch, in any order and with names that come again, is laid over a set
that is in order of names.  It is sorted stably by name, and of neighbours with one name the last
stays.  The result is again in order of names, each name once; under each name stands the last
property of that name in the batch, or the old one where the batch has none.  And to lay another
batch over the result is to lay both over the set as one. -/
theorem upsert_last_wins {existing : List Property} (h : AscendingBy name existing)
    (batch : List Property) :
    normalize batch = collapse name (fun _ p => p) (sortByName batch) ∧
    AscendingBy name (upsert existing batch) ∧
    (∀ n, ((upsert existing batch).find? fun p => p.name == n) =
      (batch.filter fun p => p.name == n).getLast?.or (existing.find? fun p => p.name == n)) ∧
    ∀ more, upsert (upsert existing batch) more = upsert existing (batch ++ more) := by
  refine ⟨normalize_eq_collapse batch, upsert_ascending h batch, fun n => ?_, upsert_upsert h batch⟩
  rw [find?_upsert h, find?_reverse_eq_getLast?]

/-- Names that come again at both ends of the order, one of them in the set already. -/
theorem upsert_last_wins_at_ends :
    AscendingBy name [⟨⟨"b"⟩, .boolean true⟩, ⟨⟨"y"⟩, .string "kept"⟩] ∧
    upsert (upsert [⟨⟨"b"⟩, .boolean true⟩, ⟨⟨"y"⟩, .string "kept"⟩]
      [⟨⟨"z"⟩, .number 1⟩, ⟨⟨"b"⟩, .number 1⟩, ⟨⟨"z"⟩, .number 2⟩, ⟨⟨"b"⟩, .number 2⟩])
      [⟨⟨"z"⟩, .number 3⟩, ⟨⟨"a"⟩, .number 1⟩, ⟨⟨"a"⟩, .number 3⟩] =
    [⟨⟨"a"⟩, .number 3⟩, ⟨⟨"b"⟩, .number 2⟩, ⟨⟨"y"⟩, .string "kept"⟩, ⟨⟨"z"⟩, .number 3⟩] :=
  ⟨by decide +kernel, ((upsert_last_wins (by decide +kernel) _).2.2.2 _).trans (by decide +kernel)⟩

end Property

end Custody
