import Custody.Proofs.Engine.Executor
import Custody.Proofs.Ledger.Consistency

/-!
# Snapshots are faithful

A snapshot is restored just if it passes the checks, and one that does not pass leaves the executor
as it was.  The records of an executor that began without any are sound, so its own snapshot
passes; what is restored from it is like the executor it was taken from.

* `Snapshot.Acceptable`, `Snapshot.check_eq_ok`: the checks, and what they let through.
* `Snapshot.acceptable_sealed`: contents that picture records are accepted.
* `Executor.capture_restore`: a snapshot that was restored is captured again.
* `Executor.restore_faithful`: **snapshots are faithful, and restoring is all or nothing.**
-/

namespace Custody

open Std

/-! ### The checks -/

namespace Snapshot

theorem disorder?_eq_none (n : Nat) (l : List (Bytes × Bytes)) :
    disorder? n l = none ↔ l.Pairwise fun a b => compare a.1 b.1 = .lt := by
  -- Neighbours are compared only; the order of keys is transitive.
  induction l generalizing n with
  | nil => simp [disorder?]
  | cons a rest ih =>
    cases rest with
    | nil => simp [disorder?]
    | cons b rest =>
      rw [disorder?, List.pairwise_cons]
      by_cases hlt : compare a.1 b.1 = .lt
      · rw [if_pos hlt, ih]
        refine ⟨fun h => ⟨?_, h⟩, And.right⟩
        intro c hc
        rcases List.mem_cons.mp hc with rfl | hc
        · exact hlt
        · exact TransCmp.lt_trans hlt ((List.pairwise_cons.mp h).1 c hc)
      · rw [if_neg hlt]
        exact ⟨nofun, fun h => absurd (h.1 b List.mem_cons_self) hlt⟩

theorem audit_eq_ok (m : Contents) : audit m = .ok () ↔
    Audit.indexIssues.run (.ofContents m) = .ok [] ∧
      Audit.inventoryIssues.run (.ofContents m) = .ok [] := by
  rw [audit]
  rcases Audit.indexIssues.run (.ofContents m) with fault | indexIssues
  · exact ⟨nofun, fun h => nomatch h.1⟩
  · rcases Audit.inventoryIssues.run (.ofContents m) with fault | inventoryIssues
    · exact ⟨nofun, fun h => nomatch h.2⟩
    · cases indexIssues with
      | cons issue rest => exact ⟨nofun, fun h => nomatch h.1⟩
      | nil =>
        cases inventoryIssues with
        | cons issue rest => exact ⟨nofun, fun h => nomatch h.2⟩
        | nil => exact ⟨fun _ => ⟨rfl, rfl⟩, fun _ => rfl⟩

/-- What a snapshot has to satisfy to be restored. -/
structure Acceptable (s : Snapshot) : Prop where
  hash : hashOf s.batches s.entries = s.hash
  ascending : s.entries.Pairwise fun a b => compare a.1 b.1 = .lt
  indices : Audit.indexIssues.run (.ofEntries s.entries) = .ok []
  inventory : Audit.inventoryIssues.run (.ofEntries s.entries) = .ok []

theorem check_eq (s : Snapshot) : s.check =
    if hashOf s.batches s.entries = s.hash then
      match disorder? 0 s.entries with
      | some place => .error (.disordered place)
      | none => (audit (.ofList s.entries)).map fun _ => .ofList s.entries
    else .error (.hashMismatch s.hash (hashOf s.batches s.entries)) := by
  simp only [check]
  by_cases hhash : hashOf s.batches s.entries = s.hash
  · rw [if_pos hhash, if_pos hhash]
    rcases disorder? 0 s.entries with _ | place
    · rfl
    · rfl
  · rw [if_neg hhash, if_neg hhash]
    rfl

/-- The checks let through the acceptable snapshots and no others. -/
theorem check_eq_ok {s : Snapshot} {m : Contents} :
    s.check = .ok m ↔ s.Acceptable ∧ m = .ofList s.entries := by
  rw [check_eq]
  by_cases hhash : hashOf s.batches s.entries = s.hash
  · rw [if_pos hhash]
    cases hdisorder : disorder? 0 s.entries with
    | some place =>
      refine ⟨nofun, fun h => ?_⟩
      rw [(disorder?_eq_none 0 _).mpr h.1.ascending] at hdisorder
      exact nomatch hdisorder
    | none =>
      have hascending := (disorder?_eq_none 0 _).mp hdisorder
      have haudits := audit_eq_ok (.ofList s.entries)
      cases haudit : audit (.ofList s.entries) with
      | error fault =>
        refine ⟨nofun, fun h => ?_⟩
        rw [haudits.mpr ⟨h.1.indices, h.1.inventory⟩] at haudit
        exact nomatch haudit
      | ok u =>
        obtain ⟨hindices, hinventory⟩ := haudits.mp haudit
        constructor
        · intro h
          exact ⟨⟨hhash, hascending, hindices, hinventory⟩, (Except.ok.inj h).symm⟩
        · rintro ⟨-, rfl⟩
          rfl
  · rw [if_neg hhash]
    exact ⟨nofun, fun h => absurd h.1.hash hhash⟩

/-- With the right hash, contents are accepted just if the audits find nothing in them. -/
theorem acceptable_sealed_iff {m : Contents} {batches : Nat} :
    (sealed batches m.bindings).Acceptable ↔ Audit.indexIssues.run (.ofContents m) = .ok [] ∧
      Audit.inventoryIssues.run (.ofContents m) = .ok [] := by
  have hentries : Store.ofEntries m.bindings = .ofContents m :=
    congrArg Store.ofContents (SortedMap.ofList_bindings m)
  constructor
  · intro h
    have hindices := h.indices
    have hinventory := h.inventory
    rw [sealed, hentries] at hindices hinventory
    exact ⟨hindices, hinventory⟩
  · rintro ⟨hindices, hinventory⟩
    refine ⟨rfl, m.ascending, ?_, ?_⟩
    · rw [sealed, hentries, hindices]
    · rw [sealed, hentries, hinventory]

/-- Contents that picture records are accepted, under any counter. -/
theorem acceptable_sealed {σ : Records} {m : Contents} (h : σ.Pictured m) (batches : Nat) :
    (sealed batches m.bindings).Acceptable := by
  refine acceptable_sealed_iff.mpr ⟨?_, ?_⟩
  · rw [Ledger.run_query, h.mirrors.indexIssues]
  · rw [Ledger.run_query, h.inventoryIssues]

end Snapshot

/-! ### Capturing and restoring -/

namespace Executor

variable {x y z : Executor} {s : Snapshot}

theorem check_capture (hx : x.Reached) : x.capture.check = .ok x.contents := by
  obtain ⟨σ, hσ⟩ := hx.pictured
  refine Snapshot.check_eq_ok.mpr ⟨Snapshot.acceptable_sealed hσ x.batches, ?_⟩
  exact (SortedMap.ofList_bindings x.contents).symm

theorem restore_of_acceptable (y : Executor) (h : s.Acceptable) :
    y.restore s = (.ok (), starting y.config (.ofList s.entries) s.batches) := by
  rw [restore, Snapshot.check_eq_ok.mpr ⟨h, rfl⟩]

theorem restore_of_not_acceptable (y : Executor) (h : ¬ s.Acceptable) :
    ∃ fault, y.restore s = (.error fault, y) := by
  rw [restore]
  cases hcheck : s.check with
  | error fault => exact ⟨fault, rfl⟩
  | ok m => exact absurd (Snapshot.check_eq_ok.mp hcheck).1 h

/-- A snapshot is restored just if it is acceptable. -/
theorem restore_eq_ok {y : Executor} : (y.restore s).1 = .ok () ↔ s.Acceptable := by
  constructor
  · intro hok
    by_contra hs
    obtain ⟨fault, hrestore⟩ := restore_of_not_acceptable y hs
    rw [hrestore] at hok
    exact nomatch hok
  · intro hs
    rw [restore_of_acceptable y hs]

/-- A snapshot that was restored is captured again. -/
theorem capture_restore (y : Executor) (h : s.Acceptable) : (y.restore s).2.capture = s := by
  obtain ⟨entries, batches, hash⟩ := s
  have hhash : Snapshot.hashOf batches entries = hash := h.hash
  have hbindings : (SortedMap.ofList entries).bindings = entries :=
    SortedMap.bindings_ofList h.ascending
  rw [restore_of_acceptable y h, capture, starting, Snapshot.sealed, hbindings, hhash]

/-- What begins with the records and the counter of an executor is like it. -/
theorem alike_starting {config : EngineConfig} (h : config.module = x.config.module) :
    (starting config x.contents x.batches).Alike x := ⟨h, rfl, rfl⟩

/-- **Snapshots are faithful, and restoring is all or nothing.**  An executor restores the snapshot
of any other with the same settings of the module: its journal is then empty, and it agrees with the
other in records, counter and hash, at once and after whatever batches come, and in the verdict on
every envelope.  Any snapshot whatever is restored just if its hash is the right one, its keys
ascend and both audits of its entries find nothing; otherwise nothing is changed. -/
theorem restore_faithful (y : Executor) :
    (∀ x : Executor, x.Reached → x.config.module = y.config.module → ∃ z,
      y.restore x.capture = (.ok (), z) ∧ z.journal = .withCapacity y.config.journalCapacity ∧
      ∀ batches, (z.applyBatches batches).contents = (x.applyBatches batches).contents ∧
        (z.applyBatches batches).batches = (x.applyBatches batches).batches ∧
        (z.applyBatches batches).stateHash = (x.applyBatches batches).stateHash ∧
        ∀ batch, (z.applyBatches batches).verdicts batch =
          (x.applyBatches batches).verdicts batch) ∧
    ∀ s : Snapshot, ((y.restore s).1 = .ok () ↔ s.Acceptable) ∧
      (¬ s.Acceptable → (y.restore s).2 = y) := by
  constructor
  · intro x hx hmodule
    have hrestore : y.restore x.capture =
        (.ok (), starting y.config x.contents x.batches) := by
      rw [restore, check_capture hx]
      rfl
    refine ⟨_, hrestore, rfl, ?_⟩
    intro batches
    have halike := (alike_starting hmodule.symm).applyBatches batches
    exact ⟨halike.contents, halike.batches, halike.stateHash, fun batch => halike.verdicts batch⟩
  · intro s
    refine ⟨restore_eq_ok, fun hs => ?_⟩
    obtain ⟨fault, hrestore⟩ := restore_of_not_acceptable y hs
    rw [hrestore]

/-- A batch that makes an asset is not lost; a snapshot with its keys in the wrong order is refused,
though its hash is right. -/
theorem restore_of_batch :
    ((new {}).applyBatch [⟨⟨"alice"⟩, 1, .createAsset ⟨"tea"⟩ "Tea" 5 "kg" none []⟩]).1.successCount
      = 1 ∧
    ((new {}).restore ((new {}).applyBatch
      [⟨⟨"alice"⟩, 1, .createAsset ⟨"tea"⟩ "Tea" 5 "kg" none []⟩]).2.capture).1 = .ok () ∧
    ((new {}).restore (.sealed 0 [([1], []), ([0], [])])).2 = new {} := by
  refine ⟨by decide +kernel, ?_, ?_⟩
  · obtain ⟨z, hrestore, -⟩ := (restore_faithful (new {})).1 _ ((Reached.new {}).applyBatch
      [⟨⟨"alice"⟩, 1, .createAsset ⟨"tea"⟩ "Tea" 5 "kg" none []⟩]) rfl
    rw [hrestore]
  · refine ((restore_faithful (new {})).2 _).2 ?_
    intro h
    exact absurd h.ascending (by decide)

end Executor

end Custody
