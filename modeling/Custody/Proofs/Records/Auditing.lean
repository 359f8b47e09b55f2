import Mathlib.Data.List.Forall2
import Custody.Proofs.Records.Reading
import Custody.Proofs.Store.Parts

/-!
# What an audit finds

On a map of bytes that shows records, the listings that an audit starts from are those of the
records: all assets, all offers, the entries of each index and the balances.

* `Mirrors.all`, `Mirrors.allOffers`: the assets and the offers.
* `Mirrors.mem_scan_index`: the entries of the indices.
* `Contents.Counts`, `Counts.recordedBalances`: contents whose stored balances are given ones.
* `Audit.Asked`, `Audit.indexIssues_eq_ok`: the entries that an audit expects, and what it answers.
* `Mirrors.indexIssues`, `Pictured.inventoryIssues`: on shown records an audit finds nothing.
-/

namespace Custody

open Std

section Lists

variable {α β γ : Type}

/-- If none is refused, every element has its answer, and there are no other answers. -/
theorem exists_mapM_ok {P : α → β → Prop} {f : α → Verdict β} {l : List α}
    (h : ∀ a ∈ l, ∃ b, f a = .ok b ∧ P a b) :
    ∃ l', l.mapM f = .ok l' ∧ (∀ a ∈ l, ∃ b ∈ l', P a b) ∧ ∀ b ∈ l', ∃ a ∈ l, P a b := by
  induction l with
  | nil => exact ⟨[], rfl, by simp, by simp⟩
  | cons a rest ih =>
    obtain ⟨b, hb, hP⟩ := h a List.mem_cons_self
    obtain ⟨l', hl', hleft, hright⟩ := ih fun c hc => h c (List.mem_cons_of_mem _ hc)
    refine ⟨b :: l', by rw [List.mapM_cons, hb, hl']; rfl, ?_, ?_⟩
    · intro c hc
      rcases List.mem_cons.mp hc with rfl | hc
      · exact ⟨b, List.mem_cons_self, hP⟩
      · obtain ⟨d, hd, hPd⟩ := hleft c hc
        exact ⟨d, List.mem_cons_of_mem _ hd, hPd⟩
    · intro c hc
      rcases List.mem_cons.mp hc with rfl | hc
      · exact ⟨a, List.mem_cons_self, hP⟩
      · obtain ⟨d, hd, hPd⟩ := hright c hc
        exact ⟨d, List.mem_cons_of_mem _ hd, hPd⟩

theorem forall₂_of_mapM_eq_ok {f : α → Verdict β} {l : List α} {l' : List β}
    (h : l.mapM f = .ok l') : List.Forall₂ (fun a b => f a = .ok b) l l' := by
  induction l generalizing l' with
  | nil =>
    obtain rfl := Except.ok.inj h
    exact .nil
  | cons a rest ih =>
    rw [List.mapM_cons] at h
    obtain ⟨b, hb, h⟩ := Verdict.bind_eq_ok.mp h
    obtain ⟨bs, hbs, h⟩ := Verdict.bind_eq_ok.mp h
    obtain rfl := Except.ok.inj h
    exact .cons hb (ih hbs)

theorem exists_of_forall₂_left {R : α → β → Prop} {l : List α} {l' : List β}
    (h : List.Forall₂ R l l') {a : α} (ha : a ∈ l) : ∃ b ∈ l', R a b := by
  induction h with
  | nil => exact absurd ha List.not_mem_nil
  | cons hab _ ih =>
    rcases List.mem_cons.mp ha with rfl | ha
    · exact ⟨_, List.mem_cons_self, hab⟩
    · obtain ⟨b, hb, hR⟩ := ih ha
      exact ⟨b, List.mem_cons_of_mem _ hb, hR⟩

theorem exists_of_forall₂_right {R : α → β → Prop} {l : List α} {l' : List β}
    (h : List.Forall₂ R l l') {b : β} (hb : b ∈ l') : ∃ a ∈ l, R a b :=
  exists_of_forall₂_left h.flip hb

theorem map_eq_of_forall₂ {R : α → β → Prop} {f : α → γ} {g : β → γ} {l : List α} {l' : List β}
    (h : List.Forall₂ R l l') (hfg : ∀ a b, R a b → f a = g b) : l.map f = l'.map g := by
  have hmap : List.Forall₂ Eq (l.map f) (l'.map g) := List.rel_map (fun a b => hfg a b) h
  rwa [List.forall₂_eq_eq_eq] at hmap

theorem mapM_eq_ok {g : α → β} {f : α → Verdict β} {l : List α} (h : ∀ a ∈ l, f a = .ok (g a)) :
    l.mapM f = .ok (l.map g) := by
  induction l with
  | nil => rfl
  | cons a rest ih =>
    rw [List.mapM_cons, h a List.mem_cons_self, ih fun c hc => h c (List.mem_cons_of_mem _ hc)]
    rfl

end Lists

namespace IndexKind

/-- The slot of an entry of an index. -/
def slot : IndexKind → Holding → Slot
  | owner, h => .owner h.account h.asset
  | reporter, h => .reporter h.account h.asset
  | recipient, h => .recipient h.account h.asset

theorem key_slot (index : IndexKind) (h : Holding) : (index.slot h).key = index.key h := by
  cases index <;> rfl

theorem space_slot (index : IndexKind) (h : Holding) : (index.slot h).space = index.space := by
  cases index <;> rfl

theorem exists_slot {index : IndexKind} {x : Slot} (h : x.space = index.space) :
    ∃ entry, x = index.slot entry := by
  cases index <;> cases x <;>
    first | exact ⟨⟨_, _⟩, rfl⟩ | exact absurd h (by simp [Slot.space, space])

variable {index : IndexKind} {k : Bytes} {entry : Holding}

theorem key_eq_pair (index : IndexKind) (entry : Holding) :
    index.key entry = Key.pair index.space entry.account.bytes entry.asset.bytes := by
  cases index <;> rfl

theorem key_of_holding? (h : Key.holding? index.space k = some entry) : index.key entry = k := by
  rw [key_eq_pair, (Key.holding?_eq_some.mp h).1]

theorem holding?_key (haccount : entry.account.Clean) (hasset : entry.asset.Clean) :
    Key.holding? index.space (index.key entry) = some entry := by
  rw [key_eq_pair]
  exact Key.holding?_pair _ haccount hasset

theorem eq_of_holding?_key {other : Holding}
    (h : Key.holding? index.space (index.key other) = some entry) : entry = other := by
  rw [key_eq_pair] at h
  exact Key.eq_of_holding?_pair h

end IndexKind

/-! ### Stored balances -/

/-- An entry of the inventory is read just if its key has two parts and its value is a balance. -/
theorem Inventory.entryOf_eq_ok {e : Bytes × Bytes} {b : Holding × Nat} :
    entryOf e = .ok b ↔
      Key.holding? .inventory e.1 = some b.1 ∧ decode? e.2 = some (Balance.mk b.2) := by
  obtain ⟨h, n⟩ := b
  rw [entryOf]
  cases Key.holding? .inventory e.1 with
  | none => simp
  | some h' =>
    cases hdecode : (decode? e.2 : Option Balance) with
    | none =>
      have hread : (Query.read e.1 e.2 : Verdict Balance) =
          .error (.damagedRecord (Key.display e.1) .unreadable) := by rw [Query.read, hdecode]
      simp only [hread, reduceCtorEq, and_false, iff_false]
      rintro ⟨⟩
    | some amount =>
      simp only [Query.read_of_decode? hdecode]
      change Except.ok (h', amount.amount) = Except.ok (h, n) ↔ _
      obtain ⟨amount⟩ := amount
      simp

theorem Audit.recordedBalances_view (v : View) : recordedBalances v =
    (v.scan Namespace.inventory.stem).mapM Inventory.entryOf >>= fun entries =>
      pure (SortedMap.ofList entries) := by
  change ((v.scan Namespace.inventory.stem).mapM
    (fun entry => (liftM (Inventory.entryOf entry) : Query (Holding × Nat))) v >>= _) = _
  rw [Query.mapM_view]
  rfl

/-- The stored balances are the given ones: each lies under a key that can be read, and none that is
not zero is missing. -/
structure Contents.Counts (m : Contents) (β : Balances) : Prop where
  reads : ∀ k v, Namespace.inventory.stem <+: k → m.get? k = some v →
    ∃ h, Key.holding? .inventory k = some h ∧
      decode? v = some (Balance.mk (β h.account h.asset))
  holds : ∀ owner root, β owner root ≠ 0 → ∃ v, m.get? (Key.balance owner root) = some v

/-- A balance that an audit finds is stored. -/
theorem Contents.get?_of_lookup_entries {m : Contents} {entries : List (Holding × Nat)}
    (hentries : (m.view.scan Namespace.inventory.stem).mapM Inventory.entryOf = .ok entries)
    {entry : Holding} {n : Nat} (hlookup : SortedMap.lookup entries.reverse entry = some n) :
    ∃ v, m.get? (Key.balance entry.account entry.asset) = some v ∧
      decode? v = some (Balance.mk n) := by
  obtain ⟨⟨k, v⟩, hmem, hread⟩ := exists_of_forall₂_right (forall₂_of_mapM_eq_ok hentries)
    (List.mem_reverse.mp (SortedMap.mem_of_lookup hlookup))
  obtain ⟨hholding, hdecode⟩ := Inventory.entryOf_eq_ok.mp hread
  obtain ⟨rfl, -⟩ := Key.holding?_eq_some.mp hholding
  exact ⟨v, (mem_scan.mp hmem).2, hdecode⟩

/-- Given balances that an audit finds are those that are stored. -/
theorem Contents.counts_of_recordedBalances {m : Contents} {β : Balances}
    {recorded : SortedMap Holding Nat} (h : Audit.recordedBalances m.view = .ok recorded)
    (hβ : ∀ entry, recorded.getD entry 0 = β entry.account entry.asset) : m.Counts β := by
  rw [Audit.recordedBalances_view] at h
  obtain ⟨entries, hentries, hok⟩ := Verdict.bind_eq_ok.mp h
  obtain rfl := Except.ok.inj hok
  constructor
  · intro k v hk hget
    obtain ⟨b, hb, hread⟩ :=
      exists_of_forall₂_left (forall₂_of_mapM_eq_ok hentries) (mem_scan.mpr ⟨hk, hget⟩)
    obtain ⟨hholding, hdecode⟩ := Inventory.entryOf_eq_ok.mp hread
    obtain ⟨rfl, -⟩ := Key.holding?_eq_some.mp hholding
    have hne := SortedMap.lookup_ne_none_of_mem (List.mem_reverse.mpr hb)
    obtain ⟨n, hn⟩ := Option.ne_none_iff_exists'.mp hne
    obtain ⟨v', hget', hdecode'⟩ := get?_of_lookup_entries hentries hn
    obtain rfl := Option.some.inj (hget.symm.trans hget')
    refine ⟨b.1, hholding, ?_⟩
    rw [hdecode', ← hβ b.1, SortedMap.getD, SortedMap.get?_ofList, hn]
    rfl
  · intro owner root hne
    have hvalue := hβ ⟨owner, root⟩
    rw [SortedMap.getD, SortedMap.get?_ofList] at hvalue
    cases hlookup : SortedMap.lookup entries.reverse ⟨owner, root⟩ with
    | none =>
      rw [hlookup] at hvalue
      exact absurd hvalue.symm hne
    | some n =>
      obtain ⟨v, hget, -⟩ := get?_of_lookup_entries hentries hlookup
      exact ⟨v, hget⟩

/-- **An audit finds the balances that are stored.** -/
theorem Contents.Counts.recordedBalances {m : Contents} {β : Balances} (h : m.Counts β) :
    ∃ recorded, Audit.recordedBalances m.view = .ok recorded ∧
      ∀ entry, recorded.getD entry 0 = β entry.account entry.asset := by
  have hread : ∀ e ∈ m.view.scan Namespace.inventory.stem, ∃ b : Holding × Nat,
      Inventory.entryOf e = .ok b ∧
        (Key.holding? .inventory e.1 = some b.1 ∧ b.2 = β b.1.account b.1.asset) := by
    rintro ⟨k, v⟩ hmem
    obtain ⟨hk, hget⟩ := mem_scan.mp hmem
    obtain ⟨entry, hholding, hdecode⟩ := h.reads k v hk hget
    exact ⟨(entry, β entry.account entry.asset),
      Inventory.entryOf_eq_ok.mpr ⟨hholding, hdecode⟩, hholding, rfl⟩
  obtain ⟨entries, hentries, hleft, hright⟩ := exists_mapM_ok hread
  refine ⟨.ofList entries, by rw [Audit.recordedBalances_view, hentries]; rfl, ?_⟩
  intro entry
  rw [SortedMap.getD, SortedMap.get?_ofList]
  cases hlookup : SortedMap.lookup entries.reverse entry with
  | some n =>
    obtain ⟨-, -, -, hn⟩ := hright _ (List.mem_reverse.mp (SortedMap.mem_of_lookup hlookup))
    exact hn
  | none =>
    refine Eq.symm (Decidable.byContradiction ?_)
    intro hne
    obtain ⟨v, hget⟩ := h.holds entry.account entry.asset hne
    have hk : Namespace.inventory.stem <+: Key.balance entry.account entry.asset :=
      (Slot.stem_isPrefix_key (x := .balance entry.account entry.asset)).mpr rfl
    obtain ⟨b, hb, hholding, -⟩ := hleft _ (mem_scan.mpr ⟨hk, hget⟩)
    refine SortedMap.lookup_ne_none_of_mem (List.mem_reverse.mpr hb) ?_
    rwa [Key.eq_of_holding?_pair hholding]

/-- **An audit of the inventory finds nothing just if the totals of the assets are stored.** -/
theorem Audit.inventoryIssues_eq_nil_iff {m : Contents} {assets : List Asset}
    (hall : Registry.all m.view = .ok assets) : inventoryIssues m.view = .ok [] ↔
      m.Counts fun owner root => (expectedBalances assets).getD ⟨owner, root⟩ 0 := by
  rw [inventoryIssues, Query.bind_view, hall, Verdict.ok_bind, Query.bind_view]
  constructor
  · intro h
    obtain ⟨recorded, hrecorded, h⟩ := Verdict.bind_eq_ok.mp h
    have hnone := List.filterMap_eq_nil_iff.mp (Except.ok.inj h)
    refine Contents.counts_of_recordedBalances hrecorded fun entry => ?_
    by_cases hmem : entry ∈ (expectedBalances assets).keys ++ recorded.keys
    · have hissue := hnone entry ((SortedMap.mem_keys_ofKeys _ _).mpr hmem)
      rw [issueOf?] at hissue
      by_contra hne
      rw [if_neg (Ne.symm hne)] at hissue
      exact nomatch hissue
    · rw [List.mem_append, not_or] at hmem
      rw [SortedMap.getD_of_notMem_keys hmem.1, SortedMap.getD_of_notMem_keys hmem.2]
  · intro h
    obtain ⟨recorded, hrecorded, hbalance⟩ := h.recordedBalances
    rw [hrecorded, Verdict.ok_bind]
    refine congrArg Except.ok (List.filterMap_eq_nil_iff.mpr ?_)
    intro entry _
    exact if_pos (hbalance entry).symm

/-! ### Stored index entries -/

namespace Audit

/-- Whether assets and offers ask for an entry in an index: an asset for one under its owner and for
one under each reporter, an offer for one under its recipient. -/
def Asked (assets : List Asset) (offers : List Offer) : IndexKind → Holding → Prop
  | .owner, entry => ∃ a ∈ assets, entry = ⟨a.owner, a.id⟩
  | .reporter, entry => ∃ a ∈ assets, ∃ r ∈ a.reporters, entry = ⟨r.account, a.id⟩
  | .recipient, entry => ∃ o ∈ offers, entry = ⟨o.recipient, o.asset⟩

theorem mem_keys_expectedEntries {assets : List Asset} {offers : List Offer} {index : IndexKind}
    {entry : Holding} :
    entry ∈ (expectedEntries assets offers index).keys ↔ Asked assets offers index entry := by
  cases index with
  | owner =>
    rw [expectedEntries, SortedMap.mem_keys_ofKeys, List.mem_map]
    exact exists_congr fun a => and_congr_right fun _ => eq_comm
  | reporter =>
    rw [expectedEntries, SortedMap.mem_keys_ofKeys, List.mem_flatMap]
    refine exists_congr fun a => and_congr_right fun _ => ?_
    rw [List.mem_map]
    exact exists_congr fun r => and_congr_right fun _ => eq_comm
  | recipient =>
    rw [expectedEntries, SortedMap.mem_keys_ofKeys, List.mem_map]
    exact exists_congr fun o => and_congr_right fun _ => eq_comm

/-- An audit of the indices reports on each of them, if all assets and all offers are read. -/
theorem indexIssues_eq_ok {v : View} {issues : List IndexIssue} :
    indexIssues v = .ok issues ↔ ∃ assets offers, Registry.all v = .ok assets ∧
      allOffers v = .ok offers ∧ issues = IndexKind.all.flatMap fun index =>
        issuesOf index (expectedEntries assets offers index)
          ((v.scan index.space.stem).map Prod.fst) := by
  have hreports : ∀ assets offers, (IndexKind.all.mapM fun index => (do
      return issuesOf index (expectedEntries assets offers index)
        (← indexKeys index) : Query (List IndexIssue))) v = .ok (IndexKind.all.map fun index =>
          issuesOf index (expectedEntries assets offers index)
            ((v.scan index.space.stem).map Prod.fst)) := by
    intro assets offers
    rw [Query.mapM_view]
    exact mapM_eq_ok fun index _ => rfl
  constructor
  · intro h
    obtain ⟨assets, hassets, h⟩ := Verdict.bind_eq_ok.mp h
    obtain ⟨offers, hoffers, h⟩ := Verdict.bind_eq_ok.mp h
    beta_reduce at h
    rw [Query.bind_view, hreports] at h
    exact ⟨assets, offers, hassets, hoffers, (Except.ok.inj h).symm⟩
  · rintro ⟨assets, offers, hassets, hoffers, rfl⟩
    refine Verdict.bind_eq_ok.mpr ⟨assets, hassets, Verdict.bind_eq_ok.mpr ⟨offers, hoffers, ?_⟩⟩
    beta_reduce
    rw [Query.bind_view, hreports]
    rfl

end Audit

/-- **An index disagrees with nothing just if its keys are those of the entries that are asked
for.** -/
theorem Audit.issuesOf_eq_nil_iff {index : IndexKind} {wanted : SortedMap Holding Unit}
    {keys : List Bytes} : issuesOf index wanted keys = [] ↔
      (∀ k ∈ keys, ∃ entry ∈ wanted.keys, Key.holding? index.space k = some entry) ∧
        ∀ entry ∈ wanted.keys, ∃ k ∈ keys, Key.holding? index.space k = some entry := by
  have hpresent : ∀ entry, entry ∈ keys.filterMap (Key.holding? index.space) ↔
      ∃ k ∈ keys, Key.holding? index.space k = some entry := fun entry => List.mem_filterMap
  rw [issuesOf]
  simp only [List.append_eq_nil_iff, List.map_eq_nil_iff, List.filter_eq_nil_iff,
    Bool.not_eq_true', Bool.not_eq_false, SortedMap.contains_iff, SortedMap.mem_keys_ofKeys,
    hpresent]
  constructor
  · rintro ⟨⟨hreads, hholds⟩, hstale⟩
    refine ⟨fun k hk => ?_, hholds⟩
    obtain ⟨entry, hentry⟩ := Option.ne_none_iff_exists'.mp (by simpa using hreads k hk)
    exact ⟨entry, hstale entry ⟨k, hk, hentry⟩, hentry⟩
  · rintro ⟨hreads, hholds⟩
    refine ⟨⟨?_, hholds⟩, ?_⟩
    · intro k hk
      obtain ⟨entry, -, hentry⟩ := hreads k hk
      simp [hentry]
    · rintro entry ⟨k, hk, hentry⟩
      obtain ⟨entry', hmem, hentry'⟩ := hreads k hk
      rwa [Option.some.inj (hentry.symm.trans hentry')]

namespace Records

/-- The assets in order of identifiers. -/
def allAssets (σ : Records) : List Asset := σ.assets.bindings.map (·.2)

theorem mem_allAssets {σ : Records} (h : σ.WellFormed) {a : Asset} :
    a ∈ σ.allAssets ↔ σ.asset? a.id = some a := by
  simp only [allAssets, List.mem_map, Prod.exists, SortedMap.mem_bindings]
  constructor
  · rintro ⟨id, a, hget, rfl⟩
    exact h.asset?_id hget
  · exact fun hget => ⟨a.id, a, hget, rfl⟩

theorem allAssets_ascending {σ : Records} (h : σ.WellFormed) :
    AscendingBy Asset.id σ.allAssets := by
  refine List.pairwise_map.mpr (σ.assets.ascending.imp_of_mem fun {b c} hb hc hbc => ?_)
  rwa [h.id_eq ((SortedMap.mem_bindings _ _ _).mp hb),
    h.id_eq ((SortedMap.mem_bindings _ _ _).mp hc)]

theorem sum_allAssets (σ : Records) (f : Asset → Nat) :
    (σ.allAssets.map f).sum = σ.total f := by
  rw [allAssets, List.map_map]
  rfl

/-- Whether the records ask for an entry in an index. -/
def Asks (σ : Records) : IndexKind → Holding → Prop
  | .owner, h => ∃ a, σ.asset? h.asset = some a ∧ a.owner = h.account
  | .reporter, h => ∃ a, σ.asset? h.asset = some a ∧ h.account ∈ Registry.reporterAccounts a
  | .recipient, h => ∃ o, σ.offer? h.asset h.account = some o

theorem sheet_slot {σ : Records} {β : Balances} {index : IndexKind} {entry : Holding}
    {v : Bytes} : σ.sheet β (index.slot entry) = some v ↔ v = [] ∧ σ.Asks index entry := by
  cases index with
  | owner =>
    simp only [IndexKind.slot, sheet, Asks, Option.bind_eq_some_iff, Option.ite_none_right_eq_some,
      Option.some.injEq]
    constructor
    · rintro ⟨a, ha, howner, rfl⟩
      exact ⟨rfl, a, ha, howner⟩
    · rintro ⟨rfl, a, ha, howner⟩
      exact ⟨a, ha, howner, rfl⟩
  | reporter =>
    simp only [IndexKind.slot, sheet, Asks, Option.bind_eq_some_iff, Option.ite_none_right_eq_some,
      Option.some.injEq]
    constructor
    · rintro ⟨a, ha, hmem, rfl⟩
      exact ⟨rfl, a, ha, hmem⟩
    · rintro ⟨rfl, a, ha, hmem⟩
      exact ⟨a, ha, hmem, rfl⟩
  | recipient =>
    simp only [IndexKind.slot, sheet, Asks, Option.map_eq_some_iff]
    constructor
    · rintro ⟨o, ho, rfl⟩
      exact ⟨rfl, o, ho⟩
    · rintro ⟨rfl, o, ho⟩
      exact ⟨o, ho, rfl⟩

namespace Mirrors

variable {σ : Records} {β : Balances} {m : Contents}

/-! ### Assets and offers -/

/-- **All assets are listed, in order of identifiers and with their properties.** -/
theorem all (h : σ.Mirrors β m) : Registry.all m.view = .ok σ.allAssets := by
  have hscan : m.view.scan Namespace.asset.stem =
      σ.assets.bindings.map fun b => (Key.asset b.1, encode b.2.record) := by
    refine h.shows.scan_eq ?_ fun k v => ⟨?_, ?_⟩
    · rw [List.pairwise_map]
      exact σ.assets.ascending.imp fun hbc => (Key.compare_single _ _ _).trans hbc
    · intro hkv
      obtain ⟨b, hb, heq⟩ := List.mem_map.mp hkv
      obtain ⟨rfl, rfl⟩ := Prod.mk.inj heq
      have hget : σ.asset? b.1 = some b.2 := (SortedMap.mem_bindings _ _ _).mp hb
      refine ⟨.asset b.1, rfl, (Slot.stem_isPrefix_key (x := .asset b.1)).mpr rfl, ?_⟩
      rw [sheet, hget]
      rfl
    · rintro ⟨x, rfl, hstem, hx⟩
      cases x with
      | asset id =>
        obtain ⟨a, ha, rfl⟩ := Option.map_eq_some_iff.mp hx
        exact List.mem_map.mpr ⟨(id, a), (SortedMap.mem_bindings _ _ _).mpr ha, rfl⟩
      | _ => exact absurd (Slot.stem_isPrefix_key.mp hstem) (by simp [Slot.space])
  have hcomplete : ∀ b ∈ σ.assets.bindings,
      Registry.complete (Key.asset b.1, encode b.2.record) m.view = .ok b.2 := by
    intro b hb
    have hget : σ.asset? b.1 = some b.2 := (SortedMap.mem_bindings _ _ _).mp hb
    rw [Registry.complete, Query.bind_view, Query.verdict_view, Query.read_encode (by decide)]
    change (Registry.properties b.2.id m.view >>= fun l =>
      pure { b.2.record with properties := l }) = _
    rw [h.properties (h.wellFormed.asset?_id hget)]
    rfl
  change (m.view.scan Namespace.asset.stem).mapM Registry.complete m.view = _
  rw [Query.mapM_view, hscan, List.mapM_map]
  exact mapM_eq_ok hcomplete

theorem mem_scan_offers (h : σ.Mirrors β m) {entry : Bytes × Bytes} :
    entry ∈ m.view.scan Namespace.offer.stem ↔ ∃ o, σ.offer? o.asset o.recipient = some o ∧
      entry = (Key.offer o.asset o.recipient, encode o) := by
  obtain ⟨k, v⟩ := entry
  rw [h.shows.mem_scan]
  constructor
  · rintro ⟨x, rfl, hstem, hx⟩
    cases x with
    | offer id recipient =>
      obtain ⟨o, ho, rfl⟩ := Option.map_eq_some_iff.mp hx
      obtain ⟨rfl, rfl⟩ := h.wellFormed.offer_eq ho
      exact ⟨o, ho, rfl⟩
    | _ => exact absurd (Slot.stem_isPrefix_key.mp hstem) (by simp [Slot.space])
  · rintro ⟨o, ho, heq⟩
    obtain ⟨rfl, rfl⟩ := Prod.mk.inj heq
    refine ⟨.offer o.asset o.recipient, rfl, ?_, ?_⟩
    · exact (Slot.stem_isPrefix_key (x := .offer o.asset o.recipient)).mpr rfl
    · rw [sheet, ho]
      rfl

/-- **All offers are listed.** -/
theorem allOffers (h : σ.Mirrors β m) : ∃ offers, Audit.allOffers m.view = .ok offers ∧
    ∀ o, o ∈ offers ↔ σ.offer? o.asset o.recipient = some o := by
  have hread : ∀ entry ∈ m.view.scan Namespace.offer.stem, ∃ o : Offer,
      Query.read entry.1 entry.2 = .ok o ∧
        σ.offer? o.asset o.recipient = some o ∧ entry.2 = encode o := by
    intro entry hentry
    obtain ⟨o, ho, rfl⟩ := h.mem_scan_offers.mp hentry
    exact ⟨o, Query.read_encode (by decide) _ o, ho, rfl⟩
  obtain ⟨offers, hall, hleft, hright⟩ := exists_mapM_ok hread
  refine ⟨offers, hall, fun o => ⟨?_, ?_⟩⟩
  · intro ho
    obtain ⟨entry, -, hget, -⟩ := hright o ho
    exact hget
  · intro ho
    obtain ⟨o', ho', -, hencode⟩ := hleft _ (h.mem_scan_offers.mpr ⟨o, ho, rfl⟩)
    exact encode_inj (by decide) hencode ▸ ho'

/-! ### Indices -/

/-- **The entries of an index are those that the records ask for.** -/
theorem mem_scan_index (h : σ.Mirrors β m) (index : IndexKind) {k v : Bytes} :
    (k, v) ∈ m.view.scan index.space.stem ↔
      v = [] ∧ ∃ entry, σ.Asks index entry ∧ k = index.key entry := by
  rw [h.shows.mem_scan]
  constructor
  · rintro ⟨x, rfl, hstem, hx⟩
    obtain ⟨entry, rfl⟩ := IndexKind.exists_slot (Slot.stem_isPrefix_key.mp hstem)
    obtain ⟨rfl, hasks⟩ := sheet_slot.mp hx
    exact ⟨rfl, entry, hasks, index.key_slot entry⟩
  · rintro ⟨rfl, entry, hasks, rfl⟩
    refine ⟨index.slot entry, index.key_slot entry, ?_, sheet_slot.mpr ⟨rfl, hasks⟩⟩
    rw [← index.key_slot, Slot.stem_isPrefix_key, index.space_slot]

theorem mem_keys_index (h : σ.Mirrors β m) (index : IndexKind) (k : Bytes) :
    k ∈ (m.view.scan index.space.stem).map Prod.fst ↔
      ∃ entry, σ.Asks index entry ∧ k = index.key entry := by
  rw [List.mem_map]
  constructor
  · rintro ⟨⟨k, v⟩, hmem, rfl⟩
    exact ((h.mem_scan_index index).mp hmem).2
  · exact fun hk => ⟨(k, []), (h.mem_scan_index index).mpr ⟨rfl, hk⟩, rfl⟩

theorem holding?_key (h : σ.Mirrors β m) {index : IndexKind} {entry : Holding}
    (hasks : σ.Asks index entry) : Key.holding? index.space (index.key entry) = some entry := by
  have hclean : (index.slot entry).Clean := h.shows.clean (sheet_slot.mpr ⟨rfl, hasks⟩)
  cases index <;> exact IndexKind.holding?_key hclean.1 hclean.2

/-- The entries that an audit expects are those that the records ask for. -/
theorem mem_expectedEntries (h : σ.Mirrors β m) {offers : List Offer}
    (hoffers : ∀ o, o ∈ offers ↔ σ.offer? o.asset o.recipient = some o) (index : IndexKind)
    (entry : Holding) :
    entry ∈ (Audit.expectedEntries σ.allAssets offers index).keys ↔ σ.Asks index entry := by
  have hassets := fun a => mem_allAssets h.wellFormed (a := a)
  rw [Audit.mem_keys_expectedEntries]
  cases index with
  | owner =>
    constructor
    · rintro ⟨a, ha, rfl⟩
      exact ⟨a, (hassets a).mp ha, rfl⟩
    · rintro ⟨a, ha, howner⟩
      have hid := h.wellFormed.id_eq ha
      exact ⟨a, (hassets a).mpr (hid ▸ ha), by rw [howner, hid]⟩
  | reporter =>
    constructor
    · rintro ⟨a, ha, r, hr, rfl⟩
      exact ⟨a, (hassets a).mp ha, List.mem_map.mpr ⟨r, hr, rfl⟩⟩
    · rintro ⟨a, ha, hmem⟩
      have hid := h.wellFormed.id_eq ha
      obtain ⟨r, hr, hreporter⟩ := List.mem_map.mp hmem
      exact ⟨a, (hassets a).mpr (hid ▸ ha), r, hr, by rw [hreporter, hid]⟩
  | recipient =>
    constructor
    · rintro ⟨o, ho, rfl⟩
      exact ⟨o, (hoffers o).mp ho⟩
    · rintro ⟨o, ho⟩
      obtain ⟨hasset, hrecipient⟩ := h.wellFormed.offer_eq ho
      refine ⟨o, (hoffers o).mpr ?_, ?_⟩
      · rwa [hasset, hrecipient]
      · rw [hasset, hrecipient]

theorem issuesOf_eq_nil (h : σ.Mirrors β m) {offers : List Offer}
    (hoffers : ∀ o, o ∈ offers ↔ σ.offer? o.asset o.recipient = some o) (index : IndexKind) :
    Audit.issuesOf index (Audit.expectedEntries σ.allAssets offers index)
      ((m.view.scan index.space.stem).map Prod.fst) = [] := by
  have hmem := h.mem_keys_index index
  have hwanted := h.mem_expectedEntries hoffers index
  refine Audit.issuesOf_eq_nil_iff.mpr ⟨?_, ?_⟩
  · intro k hk
    obtain ⟨entry, hasks, rfl⟩ := (hmem k).mp hk
    exact ⟨entry, (hwanted entry).mpr hasks, h.holding?_key hasks⟩
  · intro entry hentry
    have hasks := (hwanted entry).mp hentry
    exact ⟨_, (hmem _).mpr ⟨entry, hasks, rfl⟩, h.holding?_key hasks⟩

/-- **An audit of the indices finds nothing.** -/
theorem indexIssues (h : σ.Mirrors β m) : Audit.indexIssues m.view = .ok [] := by
  obtain ⟨offers, hoffers, hmem⟩ := h.allOffers
  refine Audit.indexIssues_eq_ok.mpr ⟨_, offers, h.all, hoffers, Eq.symm ?_⟩
  exact List.flatMap_eq_nil_iff.mpr fun index _ => h.issuesOf_eq_nil hmem index

/-! ### Balances -/

/-- The stored balances are those that are not zero. -/
theorem mem_scan_balances (h : σ.Mirrors β m) {entry : Bytes × Bytes} :
    entry ∈ m.view.scan Namespace.inventory.stem ↔ ∃ owner root, β owner root ≠ 0 ∧
      entry = (Key.balance owner root, encode (Balance.mk (β owner root))) := by
  obtain ⟨k, v⟩ := entry
  rw [h.shows.mem_scan]
  constructor
  · rintro ⟨x, rfl, hstem, hx⟩
    cases x with
    | balance owner root =>
      obtain ⟨hne, hv⟩ := Option.ite_none_left_eq_some.mp hx
      exact ⟨owner, root, hne, by rw [← Option.some.inj hv]; rfl⟩
    | _ => exact absurd (Slot.stem_isPrefix_key.mp hstem) (by simp [Slot.space])
  · rintro ⟨owner, root, hne, heq⟩
    obtain ⟨rfl, rfl⟩ := Prod.mk.inj heq
    refine ⟨.balance owner root, rfl, ?_, if_neg hne⟩
    exact (Slot.stem_isPrefix_key (x := .balance owner root)).mpr rfl

theorem entryOf_balance {owner : AccountId} {root : AssetId} (h : (Slot.balance owner root).Clean)
    (amount : Nat) :
    Inventory.entryOf (Key.balance owner root, encode (Balance.mk amount)) =
      .ok (⟨owner, root⟩, amount) :=
  Inventory.entryOf_eq_ok.mpr ⟨Key.holding?_pair _ h.1 h.2, decode?_encode (by decide) _⟩

/-- The stored balances are those of the records. -/
theorem counts (h : σ.Mirrors β m) : m.Counts β where
  reads k v hk hget := by
    obtain ⟨owner, root, hne, heq⟩ := h.mem_scan_balances.mp (Contents.mem_scan.mpr ⟨hk, hget⟩)
    obtain ⟨rfl, rfl⟩ := Prod.mk.inj heq
    have hclean : (Slot.balance owner root).Clean := h.shows.clean (if_neg hne)
    exact ⟨⟨owner, root⟩, Key.holding?_pair _ hclean.1 hclean.2, decode?_encode (by decide) _⟩
  holds owner root hne := ⟨_, (h.shows.get? (.balance owner root)).trans (if_neg hne)⟩

end Mirrors

theorem getD_expectedBalances (σ : Records) (entry : Holding) :
    (Audit.expectedBalances σ.allAssets).getD entry 0 = σ.balance entry.account entry.asset := by
  rw [Audit.expectedBalances, SortedMap.getD_foldl_update, sum_allAssets, SortedMap.getD,
    SortedMap.get?_empty, Option.getD_none, Nat.zero_add, balance]
  obtain ⟨owner, root⟩ := entry
  simp only [Balances.single, Holding.mk.injEq]

/-- **An audit of the inventory finds nothing.** -/
theorem Pictured.inventoryIssues {σ : Records} {m : Contents} (h : σ.Pictured m) :
    Audit.inventoryIssues m.view = .ok [] := by
  have hcounts := h.mirrors.counts
  have hexpected : σ.balance = fun owner root =>
      (Audit.expectedBalances σ.allAssets).getD ⟨owner, root⟩ 0 := by
    funext owner root
    exact (getD_expectedBalances σ ⟨owner, root⟩).symm
  rw [hexpected] at hcounts
  exact (Audit.inventoryIssues_eq_nil_iff h.mirrors.all).mpr hcounts

end Records

end Custody
