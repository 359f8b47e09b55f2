import Custody.Proofs.Records.Parallel
import Custody.Proofs.Records.Regular

/-!
# Making the indices anew

The entries that a rebuild writes are a function of the records of assets and offers, and no record
lies in the namespace of an index.  So a rebuild answers and leaves the same whatever the indices
held before, and where the records are pictured that is what they held before any damage.

* `Contents.SameRecords`: contents that differ in index entries alone; they are read alike.
* `Contents.get?_rebuilt`: what a key holds after the indices were made anew.
* `Records.Mirrors.rebuilt`: **a rebuild brings back the entries that the records ask for.**
* `Records.Mirrors.size_expectedEntries`: the number of entries of each index.
-/

namespace Custody

open Std

/-- A set built from a list without repetitions has its length. -/
theorem SortedMap.size_ofKeys {κ : Type} [Ord κ] [TransOrd κ] [LawfulEqOrd κ] [DecidableEq κ]
    {l : List κ} (h : l.Nodup) : (ofKeys l).size = l.length := by
  have hkeys : (ofKeys l).keys.Nodup := AscendingBy.nodup_map (ofKeys l).ascending
  have hperm : (ofKeys l).keys.Perm l :=
    (List.perm_ext_iff_of_nodup hkeys h).mpr fun k => mem_keys_ofKeys l k
  rw [← hperm.length_eq, keys, List.length_map, size]

/-- The stem of an index is the beginning of the keys of its entries. -/
theorem IndexKind.stem_isPrefix_key (index : IndexKind) (entry : Holding) :
    index.space.stem <+: index.key entry := by
  cases index <;> exact Key.stem_isPrefix_pair _ _ _

theorem IndexKind.eq_of_space_eq {index index' : IndexKind} (h : index.space = index'.space) :
    index = index' := by
  cases index <;> cases index' <;> first | rfl | exact nomatch h

namespace Contents

variable {m m' : Contents}

/-! ### Readings beside the indices -/

/-- Both contents hold the same under every key that belongs to no index. -/
def SameRecords (m m' : Contents) : Prop :=
  ∀ k, (∀ index : IndexKind, ¬ index.space.stem <+: k) → m.get? k = m'.get? k

theorem scan_congr {stem : Bytes} (h : ∀ k, stem <+: k → m.get? k = m'.get? k) :
    m.view.scan stem = m'.view.scan stem := by
  have hrange : m.range stem = m'.range stem := by
    refine SortedMap.ext_get? ?_
    intro k
    rw [get?_range, get?_range]
    by_cases hk : stem.isPrefixOf k
    · rw [if_pos hk, if_pos hk, h k (List.isPrefixOf_iff_prefix.mp hk)]
    · rw [if_neg hk, if_neg hk]
  exact congrArg SortedMap.bindings hrange

namespace SameRecords

theorem scan (h : m.SameRecords m') (ns : Namespace) (hns : ∀ index : IndexKind, index.space ≠ ns)
    {stem : Bytes} (hstem : ns.stem <+: stem) : m.view.scan stem = m'.view.scan stem := by
  refine scan_congr fun k hk => h k ?_
  intro index hindex
  exact hns index (Key.eq_of_stems_isPrefix hindex (hstem.trans hk))

/-- **Assets are listed alike.** -/
theorem all (h : m.SameRecords m') : Registry.all m.view = Registry.all m'.view := by
  have hproperties : ∀ id, Registry.properties id m.view = Registry.properties id m'.view := by
    intro id
    have hscan := h.scan .property (fun index => by cases index <;> decide)
      (Key.stem_isPrefix_scope .property id.bytes)
    change (Query.readAll (m.view.scan (Key.properties id)) >>= _) = _
    rw [Key.properties, hscan]
    rfl
  have hcomplete : ∀ entry, Registry.complete entry m.view = Registry.complete entry m'.view := by
    intro entry
    rw [Registry.complete, Query.bind_view, Query.bind_view, Query.verdict_view,
      Query.verdict_view]
    refine congrArg _ (funext fun a => ?_)
    rw [Query.bind_view, Query.bind_view, hproperties a.id]
    rfl
  have hscan := h.scan .asset (fun index => by cases index <;> decide) List.prefix_rfl
  change (m.view.scan Namespace.asset.stem).mapM Registry.complete m.view =
    (m'.view.scan Namespace.asset.stem).mapM Registry.complete m'.view
  rw [Query.mapM_view, Query.mapM_view, hscan, funext hcomplete]

/-- **Offers are listed alike.** -/
theorem allOffers (h : m.SameRecords m') : Audit.allOffers m.view = Audit.allOffers m'.view := by
  have hscan := h.scan .offer (fun index => by cases index <;> decide) List.prefix_rfl
  change Query.readAll (m.view.scan Namespace.offer.stem) = _
  rw [hscan]
  rfl

end SameRecords

/-! ### What a rebuild does -/

/-- The contents with the given entries, and no others, in an index. -/
def withIndex (m : Contents) (index : IndexKind) (wanted : SortedMap Holding Unit) : Contents :=
  wanted.keys.foldl (fun m entry => m.put (index.key entry) (some []))
    ((m.view.scan index.space.stem).foldl (fun m e => m.put e.1 none) m)

/-- The contents with the given entries, and no others, in each index. -/
def rebuilt (m : Contents) (wanted : IndexKind → SortedMap Holding Unit) : Contents :=
  IndexKind.all.foldl (fun m index => m.withIndex index (wanted index)) m

theorem get?_foldl_set (index : IndexKind) (l : List Holding) (m : Contents) (k : Bytes) :
    (l.foldl (fun m entry => m.put (index.key entry) (some [])) m).get? k =
      if k ∈ l.map index.key then some [] else m.get? k := by
  induction l generalizing m with
  | nil => rfl
  | cons entry rest ih =>
    rw [List.foldl_cons, ih, get?_put, List.map_cons]
    simp only [List.mem_cons]
    by_cases hk : k = index.key entry <;>
      simp only [hk, true_or, false_or, if_true, if_false, ite_self]

/-- A key then holds what was written to it, nothing if it belongs to the index, and otherwise what
it held before. -/
theorem get?_withIndex (m : Contents) (index : IndexKind) (wanted : SortedMap Holding Unit)
    (k : Bytes) : (m.withIndex index wanted).get? k =
      if k ∈ wanted.keys.map index.key then some []
      else if index.space.stem <+: k then none else m.get? k := by
  rw [withIndex, get?_foldl_set, get?_foldl_erase]
  refine if_congr Iff.rfl rfl ?_
  by_cases hk : index.space.stem <+: k
  · rw [if_pos hk, ite_eq_left_iff]
    intro hmem
    by_contra hget
    exact hmem (mem_keys_scan.mpr ⟨hk, Option.ne_none_iff_exists'.mp hget⟩)
  · rw [if_neg hk, if_neg fun hmem => hk (mem_keys_scan.mp hmem).1]

theorem get?_withIndex_of_not_stem {index : IndexKind} {k : Bytes}
    (hk : ¬ index.space.stem <+: k) (m : Contents) (wanted : SortedMap Holding Unit) :
    (m.withIndex index wanted).get? k = m.get? k := by
  have hmem : k ∉ wanted.keys.map index.key := by
    intro hmem
    obtain ⟨entry, -, rfl⟩ := List.mem_map.mp hmem
    exact hk (index.stem_isPrefix_key entry)
  rw [get?_withIndex, if_neg hmem, if_neg hk]

/-- **After a rebuild a key of an index holds an entry just if it is asked for.** -/
theorem get?_rebuilt (m : Contents) (wanted : IndexKind → SortedMap Holding Unit)
    {index : IndexKind} {k : Bytes} (hk : index.space.stem <+: k) :
    (m.rebuilt wanted).get? k =
      if k ∈ (wanted index).keys.map index.key then some [] else none := by
  have hother : ∀ other : IndexKind, other ≠ index → ¬ other.space.stem <+: k := fun other hne h =>
    hne (IndexKind.eq_of_space_eq (Key.eq_of_stems_isPrefix h hk))
  have hself : ∀ m : Contents, (m.withIndex index (wanted index)).get? k =
      if k ∈ (wanted index).keys.map index.key then some [] else none := by
    intro m
    rw [get?_withIndex, if_pos hk]
  -- the other indices are made anew before or after this one, and touch none of its keys
  simp only [rebuilt, IndexKind.all, List.foldl_cons, List.foldl_nil]
  cases index with
  | owner =>
    rw [get?_withIndex_of_not_stem (hother .recipient nofun),
      get?_withIndex_of_not_stem (hother .reporter nofun), hself]
  | reporter => rw [get?_withIndex_of_not_stem (hother .recipient nofun), hself]
  | recipient => rw [hself]

theorem sameRecords_rebuilt (m : Contents) (wanted : IndexKind → SortedMap Holding Unit) :
    (m.rebuilt wanted).SameRecords m := by
  intro k hk
  simp only [rebuilt, IndexKind.all, List.foldl_cons, List.foldl_nil]
  rw [get?_withIndex_of_not_stem (hk .recipient), get?_withIndex_of_not_stem (hk .reporter),
    get?_withIndex_of_not_stem (hk .owner)]

end Contents

namespace Audit

theorem exec_rebuildIndex (index : IndexKind) (wanted : SortedMap Holding Unit) (m : Contents) :
    (rebuildIndex index wanted).exec m = (.ok wanted.size, m.withIndex index wanted) := by
  rw [rebuildIndex]
  refine (Txn.exec_bind_of_ok (a := (m.view.scan index.space.stem).map Prod.fst) rfl _).trans ?_
  refine (Txn.exec_bind_of_ok (Txn.exec_forM (fun _ _ => rfl) m) _).trans ?_
  refine (Txn.exec_bind_of_ok (Txn.exec_forM (fun _ _ => rfl) _) _).trans ?_
  rw [Txn.exec_pure, List.foldl_map, Contents.withIndex]

/-- The part of a rebuild that writes. -/
def writeIndices (wanted : IndexKind → SortedMap Holding Unit) : Txn Nat := do
  let sizes ← IndexKind.all.mapM fun index => rebuildIndex index (wanted index)
  return sizes.foldl (· + ·) 0

theorem rebuildIndices_eq : rebuildIndices = (do
    let assets ← Registry.all
    let offers ← allOffers
    writeIndices (expectedEntries assets offers)) := rfl

/-- **What a rebuild writes cannot be refused.** -/
theorem exec_writeIndices (wanted : IndexKind → SortedMap Holding Unit) (m : Contents) :
    (writeIndices wanted).exec m =
      (.ok ((wanted .owner).size + (wanted .reporter).size + (wanted .recipient).size),
        m.rebuilt wanted) := by
  have hsizes := Txn.exec_mapM (l := IndexKind.all)
    (fun index m => exec_rebuildIndex index (wanted index) m) m
  rw [writeIndices, Txn.exec_bind_of_ok hsizes]
  simp only [IndexKind.all, List.map_cons, List.map_nil, List.foldl_cons, List.foldl_nil,
    Nat.zero_add]
  rfl

end Audit

namespace Records.Mirrors

variable {σ : Records} {β : Balances} {m m' : Contents} {offers : List Offer}

/-- **A rebuild brings back the entries that the records ask for.** -/
theorem rebuilt (h : σ.Mirrors β m) (hm' : m'.SameRecords m)
    (hoffers : ∀ o, o ∈ offers ↔ σ.offer? o.asset o.recipient = some o) :
    m'.rebuilt (Audit.expectedEntries σ.allAssets offers) = m := by
  refine SortedMap.ext_get? ?_
  intro k
  by_cases hk : ∃ index : IndexKind, index.space.stem <+: k
  · obtain ⟨index, hk⟩ := hk
    refine Option.ext fun v => ?_
    have hscan := h.mem_scan_index index (k := k) (v := v)
    rw [Contents.mem_scan, and_iff_right hk] at hscan
    rw [hscan, Contents.get?_rebuilt _ _ hk, Option.ite_none_right_eq_some, Option.some.injEq,
      List.mem_map, and_comm, @eq_comm _ [] v]
    simp only [h.mem_expectedEntries hoffers, @eq_comm _ _ k]
  · have hk : ∀ index : IndexKind, ¬ index.space.stem <+: k := fun index hindex =>
      hk ⟨index, hindex⟩
    exact (m'.sameRecords_rebuilt _ k hk).trans (hm' k hk)

/-- Offers are listed in the order of their keys. -/
theorem offers_ascending (h : σ.Mirrors β m) (hoffers : Audit.allOffers m.view = .ok offers) :
    AscendingBy (fun o : Offer => Key.offer o.asset o.recipient) offers := by
  have hread : List.Forall₂ (fun e o => Query.read e.1 e.2 = .ok o)
      (m.view.scan Namespace.offer.stem) offers := forall₂_of_mapM_eq_ok hoffers
  have hscan := (List.forall₂_and_left _ _).mpr ⟨fun e he => h.mem_scan_offers.mp he, hread⟩
  have hkeys : (m.view.scan Namespace.offer.stem).map Prod.fst =
      offers.map fun o => Key.offer o.asset o.recipient := by
    refine map_eq_of_forall₂ hscan ?_
    rintro e o ⟨⟨o', -, rfl⟩, hread⟩
    rw [Query.read_encode (by decide)] at hread
    rw [Except.ok.inj hread]
  have hascending : ((m.view.scan Namespace.offer.stem).map Prod.fst).Pairwise
      fun k k' => compare k k' = .lt := List.pairwise_map.mpr (m.range _).ascending
  rw [hkeys] at hascending
  exact List.pairwise_map.mp hascending

/-- The number of entries of each index. -/
theorem size_expectedEntries (h : σ.Mirrors β m) (hσ : σ.Regular)
    (hoffers : Audit.allOffers m.view = .ok offers) :
    (Audit.expectedEntries σ.allAssets offers .owner).size = σ.allAssets.length ∧
    (Audit.expectedEntries σ.allAssets offers .reporter).size =
      (σ.allAssets.flatMap Asset.reporters).length ∧
    (Audit.expectedEntries σ.allAssets offers .recipient).size = offers.length := by
  have hids := (allAssets_ascending h.wellFormed).nodup_map
  refine ⟨?_, ?_, ?_⟩
  · have hnodup : (σ.allAssets.map fun a => Holding.mk a.owner a.id).Nodup := by
      refine List.Nodup.of_map Holding.asset ?_
      rwa [List.map_map]
    rw [Audit.expectedEntries, SortedMap.size_ofKeys hnodup, List.length_map]
  · have hnodup : (σ.allAssets.flatMap fun a => a.reporters.map fun r =>
        Holding.mk r.account a.id).Nodup := by
      refine List.nodup_flatMap.mpr ⟨?_, (List.pairwise_map.mp hids).imp ?_⟩
      · intro a ha
        have hreporters := (hσ.asset ((mem_allAssets h.wellFormed).mp ha)).reporters.nodup_map
        refine List.Nodup.of_map Holding.account ?_
        rwa [List.map_map]
      · intro a b hab entry ha hb
        obtain ⟨r, -, rfl⟩ := List.mem_map.mp ha
        obtain ⟨r', -, heq⟩ := List.mem_map.mp hb
        exact hab (Holding.mk.inj heq).2.symm
    rw [Audit.expectedEntries, SortedMap.size_ofKeys hnodup, List.length_flatMap,
      List.length_flatMap]
    simp only [List.length_map]
  · have hnodup : (offers.map fun o => Holding.mk o.recipient o.asset).Nodup := by
      refine List.Nodup.of_map (fun entry => Key.offer entry.asset entry.account) ?_
      rw [List.map_map]
      exact (h.offers_ascending hoffers).nodup_map
    rw [Audit.expectedEntries, SortedMap.size_ofKeys hnodup, List.length_map]

end Records.Mirrors

end Custody
