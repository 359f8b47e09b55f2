import Custody.Proofs.Ledger.Consistency
import Custody.Proofs.Ledger.Regularity
import Custody.Proofs.Ledger.Restraint
import Custody.Proofs.Records.Rebuilding

/-!
# Rebuilding the indices of a store

However the entries of the indices were damaged, a rebuild gives back the store as runs leave it: the
indices, kept entry by entry over a whole run, are the function of the records that a rebuild
computes.  All readings of a rebuild come before its writings, so a refused one changes nothing.

* `Ledger.rebuildIndices_cases`: a rebuild is refused by a reading, or it writes all indices.
* `Ledger.rebuild_recovers`: **a rebuild recovers every reachable store.**
-/

namespace Custody.Ledger

open Records

/-- **A rebuild is refused by one of its readings, or it answers and makes every index anew.** -/
theorem rebuildIndices_cases (s : Store) :
    (∃ fault, Audit.rebuildIndices.run s = (.error fault, s)) ∨
    ∃ assets offers, Registry.all.run s = .ok assets ∧ Audit.allOffers.run s = .ok offers ∧
      Audit.rebuildIndices.run s =
        (Audit.writeIndices (Audit.expectedEntries assets offers)).run s := by
  rw [Audit.rebuildIndices_eq]
  cases hassets : Registry.all.run s with
  | error fault => exact Or.inl ⟨fault, Txn.run_query_of_error hassets _⟩
  | ok assets =>
    rw [Txn.run_query_of_ok hassets]
    cases hoffers : Audit.allOffers.run s with
    | error fault => exact Or.inl ⟨fault, Txn.run_query_of_error hoffers _⟩
    | ok offers => exact Or.inr ⟨assets, offers, rfl, rfl, Txn.run_query_of_ok hoffers _⟩

/-- A rebuild that is refused changes nothing. -/
theorem rebuildIndices_allOrNothing (s : Store) : Audit.rebuildIndices.AllOrNothing s := by
  intro fault s' hrun
  rcases rebuildIndices_cases s with ⟨fault', hrefused⟩ | ⟨assets, offers, -, -, hwrite⟩
  · rw [hrefused] at hrun
    exact (Prod.mk.inj hrun).2.symm
  · obtain ⟨hverdict, -⟩ :=
      (Audit.writeIndices (Audit.expectedEntries assets offers)).run_contents s
    rw [← hwrite, hrun, Audit.exec_writeIndices] at hverdict
    exact nomatch hverdict

/-- **A rebuild of damaged indices leaves what was pictured**, on any layers. -/
theorem run_rebuildIndices {σ : Records} {m : Contents} {offers : List Offer} (hm : σ.Pictured m)
    (hσ : σ.Regular) (hoffers : Audit.allOffers m.view = .ok offers)
    (hmem : ∀ o, o ∈ offers ↔ σ.offer? o.asset o.recipient = some o) {s : Store}
    (hs : s.contents.SameRecords m) : ∃ s',
      Audit.rebuildIndices.run s = (.ok (σ.allAssets.length +
        (σ.allAssets.flatMap Asset.reporters).length + offers.length), s') ∧
      s'.contents = m ∧ (s.layers = [] → s' = .ofContents m) := by
  have hassets : Registry.all.run s = .ok σ.allAssets := by
    rw [Query.run_contents, hs.all, hm.mirrors.all]
  have hoffers' : Audit.allOffers.run s = .ok offers := by
    rw [Query.run_contents, hs.allOffers, hoffers]
  let t := Audit.writeIndices (Audit.expectedEntries σ.allAssets offers)
  have hrun : Audit.rebuildIndices.run s = t.run s := by
    rw [Audit.rebuildIndices_eq, Txn.run_query_of_ok hassets, Txn.run_query_of_ok hoffers']
  have hexec : t.exec s.contents = (.ok (σ.allAssets.length +
      (σ.allAssets.flatMap Asset.reporters).length + offers.length), m) := by
    obtain ⟨howners, hreporters, hrecipients⟩ := hm.mirrors.size_expectedEntries hσ hoffers
    rw [Audit.exec_writeIndices, hm.mirrors.rebuilt hs hmem, howners, hreporters, hrecipients]
  obtain ⟨hverdict, hcontents⟩ := t.run_contents s
  rw [hexec] at hverdict hcontents
  refine ⟨(t.run s).2, hrun.trans (Prod.ext hverdict rfl), hcontents, ?_⟩
  intro hlayers
  obtain ⟨base, layers⟩ := s
  obtain rfl := hlayers
  have hbase : t.exec base = (_, m) := hexec
  change (t.run (.ofContents base)).2 = _
  rw [Txn.run_ofContents, hbase]

/-- **Rebuilding the indices recovers the store.**  Let a store hold what a reachable store holds,
but for whatever it holds under the keys of the indices.  Then a rebuild of its indices answers with
the number of assets, of their reporters and of pending offers, and leaves the reachable store; a
second rebuild answers the same and changes nothing.  On any store, a rebuild that is refused changes
nothing. -/
theorem rebuild_recovers :
    (∀ s, Reachable s → ∃ assets offers n, Registered s assets ∧ Pending s offers ∧
      n = assets.length + (assets.flatMap Asset.reporters).length + offers.length ∧
      ∀ damaged : Store,
        (∀ k, (∀ index : IndexKind, ¬ index.space.stem <+: k) → damaged.get? k = s.get? k) →
        ∃ s' s'', Audit.rebuildIndices.run damaged = (.ok n, s') ∧ s'.contents = s.contents ∧
          Audit.rebuildIndices.run s' = (.ok n, s'') ∧ s''.contents = s'.contents ∧
          (damaged.layers = [] → s' = s ∧ s'' = s)) ∧
    ∀ s, Audit.rebuildIndices.AllOrNothing s := by
  refine ⟨?_, rebuildIndices_allOrNothing⟩
  intro s h
  obtain ⟨σ, m, rfl, hm, hσ⟩ := h.regular
  obtain ⟨offers, hpending, hmem⟩ := exists_pending hm
  have hoffers : Audit.allOffers m.view = .ok offers :=
    (run_query Audit.allOffers m).symm.trans hpending.all
  refine ⟨σ.allAssets, offers, _, registered hm, hpending, rfl, ?_⟩
  intro damaged hdamaged
  have hrecords : damaged.contents.SameRecords m := by
    intro k hk
    have hget := hdamaged k hk
    rwa [Store.get?_eq, Store.get?_eq] at hget
  obtain ⟨s', hrun, hs', hflat⟩ := run_rebuildIndices hm hσ hoffers hmem hrecords
  have hrecords' : s'.contents.SameRecords m := fun k _ => by rw [hs']
  obtain ⟨s'', hrun', hs'', hflat'⟩ := run_rebuildIndices hm hσ hoffers hmem hrecords'
  refine ⟨s', s'', hrun, hs', hrun', hs''.trans hs'.symm, ?_⟩
  intro hlayers
  obtain rfl := hflat hlayers
  exact ⟨rfl, hflat' rfl⟩

/-- A write to a key of an index leaves the keys that belong to none. -/
theorem get?_put_index (s : Store) (index : IndexKind) {key : Bytes}
    (hkey : index.space.stem <+: key) (value : Option Bytes) {k : Bytes}
    (hk : ∀ index : IndexKind, ¬ index.space.stem <+: k) : (s.put key value).get? k = s.get? k := by
  rw [Store.get?_put, if_neg]
  rintro rfl
  exact hk index hkey

/-- An entry is missing, another one is stale, and a third is no text at all. -/
theorem rebuild_recovers_damaged : ∃ s damaged : Store, Reachable s ∧
    Audit.indexIssues.run damaged = .ok [.missing .owner ⟨⟨"alice"⟩, ⟨"flour"⟩⟩,
      .malformed .reporter "provena/reporter_index/\uFFFD",
      .stale .recipient ⟨⟨"dave"⟩, ⟨"flour"⟩⟩] ∧
    Audit.rebuildIndices.run damaged = (.ok 3, s) := by
  let es : List Envelope := [⟨⟨"alice"⟩, 1, .createAsset ⟨"flour"⟩ "Flour" 10 "kg" none []⟩,
    ⟨⟨"alice"⟩, 2, .createReporter ⟨"flour"⟩ ⟨"bob"⟩ [⟨"weight"⟩]⟩,
    ⟨⟨"alice"⟩, 3, .createOffer ⟨"flour"⟩ ⟨"carol"⟩ .owner []⟩]
  let s := run {} es .empty
  let damaged := ((s.delete (Key.owner ⟨"alice"⟩ ⟨"flour"⟩)).set
    (Namespace.reporterIndex.stem ++ [0xFF]) [1]).set (Key.recipient ⟨"dave"⟩ ⟨"flour"⟩) []
  have hs : Reachable s := Reachable.empty.run {} es
  have hbeside : ∀ k, (∀ index : IndexKind, ¬ index.space.stem <+: k) →
      damaged.get? k = s.get? k := by
    intro k hk
    exact (get?_put_index _ .recipient (Key.stem_isPrefix_pair _ _ _) _ hk).trans
      ((get?_put_index _ .reporter (List.prefix_append _ _) _ hk).trans
        (get?_put_index s .owner (Key.stem_isPrefix_pair _ _ _) none hk))
  have hissues : Audit.indexIssues.run damaged = .ok [.missing .owner ⟨⟨"alice"⟩, ⟨"flour"⟩⟩,
      .malformed .reporter "provena/reporter_index/\uFFFD",
      .stale .recipient ⟨⟨"dave"⟩, ⟨"flour"⟩⟩] := by
    decide +kernel
  have hentries : (Audit.rebuildIndices.run damaged).1 = .ok 3 := by decide +kernel
  obtain ⟨-, -, n, -, -, -, hrecovers⟩ := rebuild_recovers.1 s hs
  obtain ⟨s', _, hrun, -, -, -, hflat⟩ := hrecovers damaged hbeside
  have hlayers : damaged.layers = [] := by
    obtain ⟨-, m, hm, -⟩ := hs.pictured
    change (((s.delete _).set _ _).set _ _).layers = []
    rw [hm]
    rfl
  rw [hrun] at hentries
  have hn : n = 3 := Except.ok.inj hentries
  rw [hn, (hflat hlayers).1] at hrun
  exact ⟨s, damaged, hs, hissues, hrun⟩

end Custody.Ledger
