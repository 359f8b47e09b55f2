import Mathlib.Data.List.Nodup
import Custody.Proofs.Ledger.Settled
import Custody.Proofs.Records.Rebuilding

/-!
# What audits report

An audit answers on any store whose records can be read, whatever lies beside them: index entries
that no record asks for, keys that are no text, balances of nobody.  What it reports is exactly what
is wrong, each thing once.

* `Store.HasEntry`, `Audit.Exact`: what is there, and a report that says what is wrong with it.
* `Audit.exact_issuesOf`: **the report on one index is exact.**
* `Audit.indexIssues_exact`: **an audit of the indices reports exactly their disagreements.**
* `Audit.inventoryIssues_exact`: **an audit of the inventory reports exactly the balances that are
  not the totals of the assets.**
-/

namespace Custody

/-! ### What is wrong with an index -/

namespace IndexIssue

/-- The index that a disagreement is about. -/
def index : IndexIssue → IndexKind
  | missing index _ => index
  | stale index _ => index
  | malformed index _ => index

/-- The entry that is not there. -/
def missing? : IndexIssue → Option Holding
  | missing _ entry => some entry
  | _ => none

/-- The entry that no record asks for. -/
def stale? : IndexIssue → Option Holding
  | stale _ entry => some entry
  | _ => none

/-- The key that is not one of an entry, as it is displayed. -/
def malformed? : IndexIssue → Option String
  | malformed _ key => some key
  | _ => none

end IndexIssue

/-- Whether a key is one of an index and the store holds something under it. -/
def Store.HasEntry (s : Store) (index : IndexKind) (k : Bytes) : Prop :=
  index.space.stem <+: k ∧ s.get? k ≠ none

/-- The accounts and the assets that records name in an index have no separator in them. -/
structure Store.CleanNames (s : Store) : Prop where
  asset : ∀ assets, Registry.all.run s = .ok assets → ∀ a ∈ assets,
    a.id.Clean ∧ a.owner.Clean ∧ ∀ r ∈ a.reporters, r.account.Clean
  offer : ∀ offers, Audit.allOffers.run s = .ok offers → ∀ o ∈ offers,
    o.asset.Clean ∧ o.recipient.Clean

namespace Audit

/-- A report on an index that lists, each once, the entries that are asked for and not there, the
entries that are there and not asked for, and the keys that do not have two parts. -/
structure Exact (s : Store) (index : IndexKind) (asked : Holding → Prop)
    (report : List IndexIssue) : Prop where
  missing_nodup : (report.filterMap IndexIssue.missing?).Nodup
  mem_missing : ∀ entry, entry ∈ report.filterMap IndexIssue.missing? ↔
    asked entry ∧ s.get? (index.key entry) = none
  stale_nodup : (report.filterMap IndexIssue.stale?).Nodup
  mem_stale : ∀ entry, entry ∈ report.filterMap IndexIssue.stale? ↔ ∃ k, s.HasEntry index k ∧
    Key.split? index.space k = some [entry.account.text, entry.asset.text] ∧
      ∀ other, asked other → index.key other ≠ k
  malformed : ∃ keys : List Bytes, keys.Nodup ∧
    (∀ k, k ∈ keys ↔ s.HasEntry index k ∧ ∀ x y, Key.split? index.space k ≠ some [x, y]) ∧
      report.filterMap IndexIssue.malformed? = keys.map Key.display

/-- Where names are clean, so are the parts of the entries that are asked for. -/
theorem Asked.clean {s : Store} (hs : s.CleanNames) {assets : List Asset} {offers : List Offer}
    (hassets : Registry.all.run s = .ok assets) (hoffers : allOffers.run s = .ok offers)
    {index : IndexKind} {entry : Holding} (h : Asked assets offers index entry) :
    entry.account.Clean ∧ entry.asset.Clean := by
  cases index with
  | owner =>
    obtain ⟨a, ha, rfl⟩ := h
    obtain ⟨hid, howner, -⟩ := hs.asset assets hassets a ha
    exact ⟨howner, hid⟩
  | reporter =>
    obtain ⟨a, ha, r, hr, rfl⟩ := h
    obtain ⟨hid, -, hreporters⟩ := hs.asset assets hassets a ha
    exact ⟨hreporters r hr, hid⟩
  | recipient =>
    obtain ⟨o, ho, rfl⟩ := h
    exact (hs.offer offers hoffers o ho).symm

end Audit

/-! ### Keys of entries -/

namespace Key

variable {ns : Namespace} {k : Bytes} {entry : Holding}

theorem holding?_eq_some_iff_split? : holding? ns k = some entry ↔
    split? ns k = some [entry.account.text, entry.asset.text] := by
  constructor
  · intro h
    obtain ⟨rfl, haccount, hasset⟩ := holding?_eq_some.mp h
    exact split?_pair ns haccount hasset
  · intro h
    rw [holding?, h]

theorem holding?_eq_none_iff_split? :
    holding? ns k = none ↔ ∀ x y, split? ns k ≠ some [x, y] := by
  constructor
  · intro h x y hsplit
    rw [holding?, hsplit] at h
    cases h
  · intro h
    by_contra hne
    obtain ⟨entry, hentry⟩ := Option.ne_none_iff_exists'.mp hne
    exact h _ _ (holding?_eq_some_iff_split?.mp hentry)

end Key

namespace Audit

/-! ### The report on one index -/

section Report

variable {index : IndexKind} {wanted : SortedMap Holding Unit} {keys : List Bytes}

theorem filterMap_missing? : (issuesOf index wanted keys).filterMap IndexIssue.missing? =
    wanted.keys.filter fun entry =>
      !(SortedMap.ofKeys (keys.filterMap (Key.holding? index.space))).contains entry := by
  simp [issuesOf, List.filterMap_map, Function.comp_def, IndexIssue.missing?]

theorem filterMap_stale? : (issuesOf index wanted keys).filterMap IndexIssue.stale? =
    (SortedMap.ofKeys (keys.filterMap (Key.holding? index.space))).keys.filter fun entry =>
      !wanted.contains entry := by
  simp [issuesOf, List.filterMap_map, Function.comp_def, IndexIssue.stale?]

theorem filterMap_malformed? : (issuesOf index wanted keys).filterMap IndexIssue.malformed? =
    (keys.filter fun k => (Key.holding? index.space k).isNone).map Key.display := by
  simp [issuesOf, List.filterMap_map, Function.comp_def, IndexIssue.malformed?]

theorem index_of_mem_issuesOf {issue : IndexIssue} (h : issue ∈ issuesOf index wanted keys) :
    issue.index = index := by
  simp only [issuesOf, List.mem_append, List.mem_map] at h
  obtain (⟨k, -, rfl⟩ | ⟨entry, -, rfl⟩) | ⟨entry, -, rfl⟩ := h <;> rfl

/-- **The report on one index is exact**, if the parts of the entries that are asked for are
clean.  The key of such an entry is read back as that entry, so two of them have two keys; and what
is read as an entry has the key of that entry, so there is no other key that it could stand for. -/
theorem exact_issuesOf {s : Store} {asked : Holding → Prop}
    (hwanted : ∀ entry, entry ∈ wanted.keys ↔ asked entry)
    (hclean : ∀ entry, asked entry → entry.account.Clean ∧ entry.asset.Clean)
    (hkeys : ∀ k, k ∈ keys ↔ s.HasEntry index k) (hnodup : keys.Nodup) :
    Exact s index asked (issuesOf index wanted keys) where
  missing_nodup := by
    rw [filterMap_missing?]
    exact List.Nodup.filter _ (AscendingBy.nodup_map wanted.ascending)
  mem_missing := by
    intro entry
    rw [filterMap_missing?, List.mem_filter, hwanted, Bool.not_eq_true', ← Bool.not_eq_true,
      SortedMap.contains_iff, SortedMap.mem_keys_ofKeys, List.mem_filterMap]
    refine and_congr_right fun hasked => ?_
    obtain ⟨haccount, hasset⟩ := hclean entry hasked
    constructor
    · intro hnone
      by_contra hget
      exact hnone ⟨index.key entry, (hkeys _).mpr ⟨index.stem_isPrefix_key entry, hget⟩,
        IndexKind.holding?_key haccount hasset⟩
    · rintro hget ⟨k, hk, hholding⟩
      obtain rfl := IndexKind.key_of_holding? hholding
      exact ((hkeys _).mp hk).2 hget
  stale_nodup := by
    rw [filterMap_stale?]
    exact List.Nodup.filter _ (AscendingBy.nodup_map (SortedMap.ofKeys _).ascending)
  mem_stale := by
    intro entry
    rw [filterMap_stale?, List.mem_filter, Bool.not_eq_true', ← Bool.not_eq_true,
      SortedMap.contains_iff, hwanted, SortedMap.mem_keys_ofKeys, List.mem_filterMap]
    constructor
    · rintro ⟨⟨k, hk, hholding⟩, hasked⟩
      refine ⟨k, (hkeys k).mp hk, Key.holding?_eq_some_iff_split?.mp hholding, ?_⟩
      rintro other hother rfl
      obtain rfl := IndexKind.eq_of_holding?_key hholding
      exact hasked hother
    · rintro ⟨k, hk, hsplit, hother⟩
      have hholding := Key.holding?_eq_some_iff_split?.mpr hsplit
      refine ⟨⟨k, (hkeys k).mpr hk, hholding⟩, ?_⟩
      intro hasked
      exact hother entry hasked (IndexKind.key_of_holding? hholding)
  malformed := by
    refine ⟨_, hnodup.filter _, ?_, filterMap_malformed?⟩
    intro k
    rw [List.mem_filter, hkeys, Option.isNone_iff_eq_none, Key.holding?_eq_none_iff_split?]

end Report

namespace Exact

variable {s : Store} {index : IndexKind} {asked : Holding → Prop} {report : List IndexIssue}

/-- **An exact report is empty just if the keys that are there are those that are asked for.** -/
theorem eq_nil_iff (h : Exact s index asked report)
    (hclean : ∀ entry, asked entry → entry.account.Clean ∧ entry.asset.Clean) :
    report = [] ↔ ∀ k, s.HasEntry index k ↔ ∃ entry, asked entry ∧ index.key entry = k := by
  obtain ⟨keys, -, hkeys, hmalformed⟩ := h.malformed
  constructor
  · rintro rfl k
    constructor
    · intro hk
      by_contra hnone
      have hother : ∀ entry, asked entry → index.key entry ≠ k := fun entry hasked hkey =>
        hnone ⟨entry, hasked, hkey⟩
      have hsplit : ∀ x y, Key.split? index.space k ≠ some [x, y] := fun x y hsplit =>
        List.not_mem_nil ((h.mem_stale ⟨⟨x⟩, ⟨y⟩⟩).mpr ⟨k, hk, hsplit, hother⟩)
      have hmem := (hkeys k).mpr ⟨hk, hsplit⟩
      rw [List.map_eq_nil_iff.mp hmalformed.symm] at hmem
      exact List.not_mem_nil hmem
    · rintro ⟨entry, hasked, rfl⟩
      refine ⟨index.stem_isPrefix_key entry, ?_⟩
      intro hget
      have hmem := (h.mem_missing entry).mpr ⟨hasked, hget⟩
      exact List.not_mem_nil hmem
  · intro heq
    refine List.eq_nil_iff_forall_not_mem.mpr ?_
    intro issue hissue
    cases issue with
    | missing i entry =>
      obtain ⟨hasked, hget⟩ :=
        (h.mem_missing entry).mp (List.mem_filterMap.mpr ⟨_, hissue, rfl⟩)
      exact ((heq _).mpr ⟨entry, hasked, rfl⟩).2 hget
    | stale i entry =>
      obtain ⟨k, hk, -, hother⟩ :=
        (h.mem_stale entry).mp (List.mem_filterMap.mpr ⟨_, hissue, rfl⟩)
      obtain ⟨other, hasked, hkey⟩ := (heq k).mp hk
      exact hother other hasked hkey
    | malformed i shown =>
      have hshown : shown ∈ keys.map Key.display := by
        rw [← hmalformed]
        exact List.mem_filterMap.mpr ⟨_, hissue, rfl⟩
      obtain ⟨k, hk, -⟩ := List.mem_map.mp hshown
      obtain ⟨hthere, hsplit⟩ := (hkeys k).mp hk
      obtain ⟨entry, hasked, rfl⟩ := (heq k).mp hthere
      obtain ⟨haccount, hasset⟩ := hclean entry hasked
      exact hsplit _ _ (Key.holding?_eq_some_iff_split?.mp (IndexKind.holding?_key haccount hasset))

end Exact

/-! ### The report on all indices -/

/-- The part of a report that is about one index. -/
theorem filter_flatMap_all {report : IndexKind → List IndexIssue}
    (h : ∀ index, ∀ issue ∈ report index, issue.index = index) (index : IndexKind) :
    (IndexKind.all.flatMap report).filter (fun issue => issue.index = index) = report index := by
  have hself : (report index).filter (fun issue => issue.index = index) = report index :=
    List.filter_eq_self.mpr fun issue hissue => decide_eq_true (h index issue hissue)
  have hother : ∀ other : IndexKind, other ≠ index →
      (report other).filter (fun issue => issue.index = index) = [] := fun other hne =>
    List.filter_eq_nil_iff.mpr fun issue hissue => by simpa [h other issue hissue] using hne
  rw [IndexKind.all, List.flatMap_cons, List.flatMap_cons, List.flatMap_cons, List.flatMap_nil,
    List.append_nil, List.filter_append, List.filter_append]
  cases index with
  | owner =>
    rw [hself, hother .reporter (by decide), hother .recipient (by decide), List.append_nil,
      List.append_nil]
  | reporter =>
    rw [hother .owner (by decide), hself, hother .recipient (by decide), List.nil_append,
      List.append_nil]
  | recipient =>
    rw [hother .owner (by decide), hother .reporter (by decide), hself, List.nil_append,
      List.nil_append]

theorem eq_nil_iff_filter_index {issues : List IndexIssue} :
    issues = [] ↔ ∀ index, issues.filter (fun issue => issue.index = index) = [] := by
  constructor
  · rintro rfl index
    rfl
  · intro h
    refine List.eq_nil_iff_forall_not_mem.mpr ?_
    intro issue hissue
    exact List.filter_eq_nil_iff.mp (h issue.index) issue hissue (decide_eq_true rfl)

/-- **An audit of the indices reports exactly their disagreements with the records.**  Whatever a
store holds, if the audit answers and no account or asset that a record names in an index has a
separator in it, then the report on each index lists, each once, the entries that the records ask
for and that are not there, the entries that are there and that no record asks for, and the keys
that do not have two parts.  So it is empty just if the keys of each index are those that the records
ask for. -/
theorem indexIssues_exact {s : Store} (hclean : s.CleanNames) {issues : List IndexIssue}
    (h : indexIssues.run s = .ok issues) :
    ∃ assets offers, Registry.all.run s = .ok assets ∧ allOffers.run s = .ok offers ∧
      (∀ index, Exact s index (Asked assets offers index)
        (issues.filter fun issue => issue.index = index)) ∧
      (issues = [] ↔ ∀ index k, s.HasEntry index k ↔
        ∃ entry, Asked assets offers index entry ∧ index.key entry = k) := by
  rw [Query.run_contents] at h
  obtain ⟨assets, offers, hassets, hoffers, rfl⟩ := indexIssues_eq_ok.mp h
  rw [← Query.run_contents Registry.all] at hassets
  rw [← Query.run_contents allOffers] at hoffers
  have hasked : ∀ index entry, Asked assets offers index entry →
      entry.account.Clean ∧ entry.asset.Clean := fun _ _ => Asked.clean hclean hassets hoffers
  have hexact : ∀ index, Exact s index (Asked assets offers index)
      ((IndexKind.all.flatMap fun index => issuesOf index (expectedEntries assets offers index)
        ((s.contents.view.scan index.space.stem).map Prod.fst)).filter
          fun issue => issue.index = index) := by
    intro index
    rw [filter_flatMap_all fun _ _ => index_of_mem_issuesOf]
    refine exact_issuesOf (fun _ => mem_keys_expectedEntries) (hasked index) ?_ ?_
    · intro k
      rw [Contents.mem_keys_scan, ← Option.ne_none_iff_exists', ← Store.get?_eq]
      exact Iff.rfl
    · exact AscendingBy.nodup_map (s.contents.range index.space.stem).ascending
  refine ⟨assets, offers, hassets, hoffers, hexact, ?_⟩
  rw [eq_nil_iff_filter_index]
  exact forall_congr' fun index => (hexact index).eq_nil_iff (hasked index)

/-- An entry is missing, another one is stale, and two keys that are displayed alike are no text. -/
theorem indexIssues_exact_damaged : ∃ s : Store, ∃ issues, s.CleanNames ∧
    indexIssues.run s = .ok issues ∧
    issues = [.malformed .owner "provena/owner_index/\uFFFD",
      .malformed .owner "provena/owner_index/\uFFFD", .missing .owner ⟨⟨"alice"⟩, ⟨"flour"⟩⟩,
      .stale .owner ⟨⟨"eve"⟩, ⟨"flour"⟩⟩] ∧
    s.get? (Key.owner ⟨"alice"⟩ ⟨"flour"⟩) = none := by
  let es : List Envelope := [⟨⟨"alice"⟩, 1, .createAsset ⟨"flour"⟩ "Flour" 10 "kg" none []⟩,
    ⟨⟨"alice"⟩, 2, .createReporter ⟨"flour"⟩ ⟨"bob"⟩ [⟨"weight"⟩]⟩,
    ⟨⟨"alice"⟩, 3, .createOffer ⟨"flour"⟩ ⟨"carol"⟩ .owner []⟩]
  let s := ((((Ledger.run {} es .empty).delete (Key.owner ⟨"alice"⟩ ⟨"flour"⟩)).set
    (Key.owner ⟨"eve"⟩ ⟨"flour"⟩) []).set (Namespace.ownerIndex.stem ++ [0xFE]) []).set
    (Namespace.ownerIndex.stem ++ [0xFF]) []
  have hclean : s.CleanNames := by
    constructor
    · intro assets hassets
      have hall : (match Registry.all.run s with
        | .ok l => l.all fun a => a.id.Clean ∧ a.owner.Clean ∧ ∀ r ∈ a.reporters, r.account.Clean
        | .error _ => false) = true := by decide +kernel
      rw [hassets] at hall
      simpa using hall
    · intro offers hoffers
      have hall : (match allOffers.run s with
        | .ok l => l.all fun o => o.asset.Clean ∧ o.recipient.Clean
        | .error _ => false) = true := by decide +kernel
      rw [hoffers] at hall
      simpa using hall
  have hissues : indexIssues.run s = .ok [.malformed .owner "provena/owner_index/\uFFFD",
      .malformed .owner "provena/owner_index/\uFFFD", .missing .owner ⟨⟨"alice"⟩, ⟨"flour"⟩⟩,
      .stale .owner ⟨⟨"eve"⟩, ⟨"flour"⟩⟩] := by decide +kernel
  refine ⟨s, _, hclean, hissues, rfl, ?_⟩
  obtain ⟨assets, offers, -, -, hexact, -⟩ := indexIssues_exact hclean hissues
  exact (((hexact .owner).mem_missing ⟨⟨"alice"⟩, ⟨"flour"⟩⟩).mp List.mem_cons_self).2

/-! ### The inventory -/

/-- The total of the assets of an owner under a root. -/
def total (assets : List Asset) (owner : AccountId) (root : AssetId) : Nat :=
  ((assets.filter fun a => a.owner = owner ∧ a.root = root).map Asset.quantity).sum

theorem getD_expectedBalances (assets : List Asset) (entry : Holding) :
    (expectedBalances assets).getD entry 0 = total assets entry.account entry.asset := by
  obtain ⟨owner, root⟩ := entry
  rw [expectedBalances, SortedMap.getD_foldl_update, SortedMap.getD, SortedMap.get?_empty,
    Option.getD_none, Nat.zero_add, List.sum_map_ite]
  simp [total]

/-- The balances that an audit finds are those that are read one by one. -/
theorem balance_of_recordedBalances {m : Contents} {recorded : SortedMap Holding Nat}
    (h : recordedBalances m.view = .ok recorded) (owner : AccountId) (root : AssetId) :
    Inventory.balance owner root m.view = .ok (recorded.getD ⟨owner, root⟩ 0) := by
  have hcounts : m.Counts fun owner root => recorded.getD ⟨owner, root⟩ 0 :=
    Contents.counts_of_recordedBalances h fun _ => rfl
  exact Inventory.balance_of_amountOf? (hcounts.amountOf?_eq owner root)

theorem issueOf?_eq_some {expected recorded : SortedMap Holding Nat} {entry : Holding}
    {issue : InventoryIssue} : issueOf? expected recorded entry = some issue ↔
      recorded.getD entry 0 ≠ expected.getD entry 0 ∧
        issue = ⟨entry, recorded.getD entry 0, expected.getD entry 0⟩ := by
  rw [issueOf?, Option.ite_none_left_eq_some, Option.some.injEq, eq_comm (a := issue)]
  exact and_congr_left fun _ => ne_comm

/-- The balances that differ from their totals, each once: those that are asked about in neither map
are zero on both sides. -/
theorem mem_issues {expected recorded : SortedMap Holding Nat} {issue : InventoryIssue} :
    issue ∈ (SortedMap.ofKeys (expected.keys ++ recorded.keys)).keys.filterMap
      (issueOf? expected recorded) ↔ issueOf? expected recorded issue.holding = some issue := by
  rw [List.mem_filterMap]
  constructor
  · rintro ⟨entry, -, hissue⟩
    have hholding : issue.holding = entry := by rw [(issueOf?_eq_some.mp hissue).2]
    rwa [hholding]
  · intro hissue
    refine ⟨issue.holding, ?_, hissue⟩
    rw [SortedMap.mem_keys_ofKeys, List.mem_append]
    by_contra hkeys
    obtain ⟨hexpected, hrecorded⟩ := not_or.mp hkeys
    refine (issueOf?_eq_some.mp hissue).1 ?_
    rw [SortedMap.getD_of_notMem_keys hexpected, SortedMap.getD_of_notMem_keys hrecorded]

/-- Issues come in the order of the balances that they are about. -/
theorem issues_ascending (expected recorded : SortedMap Holding Nat)
    (pairs : SortedMap Holding Unit) :
    AscendingBy InventoryIssue.holding (pairs.keys.filterMap (issueOf? expected recorded)) := by
  have hpairs : pairs.keys.Pairwise fun a b => compare a b = .lt :=
    List.pairwise_map.mpr pairs.ascending
  refine List.pairwise_filterMap.mpr (hpairs.imp ?_)
  intro a b hab issue hissue issue' hissue'
  rwa [(issueOf?_eq_some.mp hissue).2, (issueOf?_eq_some.mp hissue').2]

/-- **An audit of the inventory reports exactly the balances that are not totals.**  Whatever a store
holds, if the audit answers, then its report is in order of owners and roots, and has for an owner
and a root the one issue that the balance read there differs from the total of the assets, if it
does. -/
theorem inventoryIssues_exact {s : Store} {issues : List InventoryIssue}
    (h : inventoryIssues.run s = .ok issues) :
    ∃ assets, Registry.all.run s = .ok assets ∧ AscendingBy InventoryIssue.holding issues ∧
      ∀ owner root, ∃ recorded, (Inventory.balance owner root).run s = .ok recorded ∧
        ∀ issue, issue ∈ issues ∧ issue.holding = ⟨owner, root⟩ ↔
          recorded ≠ total assets owner root ∧
            issue = ⟨⟨owner, root⟩, recorded, total assets owner root⟩ := by
  rw [Query.run_contents] at h
  obtain ⟨assets, hassets, h⟩ := Verdict.bind_eq_ok.mp h
  obtain ⟨recorded, hrecorded, h⟩ := Verdict.bind_eq_ok.mp h
  obtain rfl := Except.ok.inj h
  refine ⟨assets, by rw [Query.run_contents, hassets], issues_ascending _ _ _, ?_⟩
  intro owner root
  refine ⟨recorded.getD ⟨owner, root⟩ 0, ?_, ?_⟩
  · rw [Query.run_contents, balance_of_recordedBalances hrecorded]
  · intro issue
    rw [mem_issues, ← getD_expectedBalances assets ⟨owner, root⟩, ← issueOf?_eq_some]
    constructor
    · rintro ⟨hissue, hholding⟩
      rwa [hholding] at hissue
    · intro hissue
      obtain rfl := (issueOf?_eq_some.mp hissue).2
      exact ⟨hissue, rfl⟩

/-- A balance is less than its total, one of nothing is stored, and one is of an asset that nobody
has. -/
theorem inventoryIssues_exact_drifted : ∃ s issues, inventoryIssues.run s = .ok issues ∧
    issues = [⟨⟨⟨"alice"⟩, ⟨"flour"⟩⟩, 7, 10⟩, ⟨⟨⟨"zoe"⟩, ⟨"silo"⟩⟩, 5, 0⟩] ∧
    (Inventory.balance ⟨"alice"⟩ ⟨"flour"⟩).run s = .ok 7 := by
  let es : List Envelope := [⟨⟨"alice"⟩, 1, .createAsset ⟨"flour"⟩ "Flour" 10 "kg" none []⟩]
  let s := (((Ledger.run {} es .empty).set (Key.balance ⟨"alice"⟩ ⟨"flour"⟩)
    (encode (Balance.mk 7))).set (Key.balance ⟨"eve"⟩ ⟨"flour"⟩) (encode (Balance.mk 0))).set
    (Key.balance ⟨"zoe"⟩ ⟨"silo"⟩) (encode (Balance.mk 5))
  have hissues : inventoryIssues.run s =
      .ok [⟨⟨⟨"alice"⟩, ⟨"flour"⟩⟩, 7, 10⟩, ⟨⟨⟨"zoe"⟩, ⟨"silo"⟩⟩, 5, 0⟩] := by decide +kernel
  refine ⟨s, _, hissues, rfl, ?_⟩
  obtain ⟨assets, -, -, hpairs⟩ := inventoryIssues_exact hissues
  obtain ⟨recorded, hrecorded, hissue⟩ := hpairs ⟨"alice"⟩ ⟨"flour"⟩
  obtain ⟨-, heq⟩ := (hissue ⟨⟨⟨"alice"⟩, ⟨"flour"⟩⟩, 7, 10⟩).mp ⟨List.mem_cons_self, rfl⟩
  have hseven : recorded = 7 := (congrArg InventoryIssue.recorded heq).symm
  exact hseven ▸ hrecorded

end Audit

end Custody
