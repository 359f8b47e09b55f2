import Custody.Proofs.Engine.Snapshot
import Custody.Proofs.Ledger.Settling

/-!
# What is restored stays consistent

A snapshot is audited before it is restored, but the audits do not look at the keys of assets and
of offers.  Where every record lies under its own key, what is restored is settled and stays so;
where one does not, a message for the key writes another record, and the audits find it.

* `Snapshot.Filed`: every record of a snapshot lies under its own key.
* `Executor.settled_applyBatches`: batches keep the records of an executor settled.
* `Executor.restore_capture_eq_ok`: the snapshot of an executor is accepted just if the audits of
  its records find nothing.
* `Executor.restored_consistent`: **what is restored from a filed snapshot stays consistent.**
* `Executor.inconsistent_after_restore`: no part of this condition can be left out.
-/

namespace Custody

/-- Every record of a snapshot lies under its own key. -/
def Snapshot.Filed (s : Snapshot) : Prop := ∀ e ∈ s.entries, Key.Files e.1 e.2

instance (s : Snapshot) : Decidable s.Filed :=
  inferInstanceAs (Decidable (∀ e ∈ s.entries, Key.Files e.1 e.2))

/-- The contents of an accepted and filed snapshot are settled. -/
theorem Snapshot.Acceptable.settled {s : Snapshot} (h : s.Acceptable) (hs : s.Filed) :
    Contents.Settled (.ofList s.entries) := by
  have hfiled : Contents.Filed (.ofList s.entries) := by
    intro k v hget
    have hmem := (SortedMap.mem_bindings _ _ _).mpr hget
    rw [SortedMap.bindings_ofList h.ascending] at hmem
    exact hs (k, v) hmem
  have hindices := h.indices
  have hinventory := h.inventory
  rw [Store.ofEntries, Ledger.run_query] at hindices hinventory
  exact Contents.settled_iff.mpr ⟨hindices, hinventory, hfiled⟩

namespace Executor

variable {x : Executor}

/-- **A batch keeps the records of an executor settled.** -/
theorem settled_applyBatch (h : x.contents.Settled) (batch : List Envelope) :
    (x.applyBatch batch).2.contents.Settled := by
  obtain ⟨m, hrun, hm⟩ := h.run x.config.module batch
  have hstore : (x.applyBatch batch).2.store = .ofContents m :=
    (store_applyBatch x batch).trans hrun
  obtain rfl : (x.applyBatch batch).2.contents = m := congrArg Store.base hstore
  exact hm

/-- **Batches keep the records of an executor settled.** -/
theorem settled_applyBatches (h : x.contents.Settled) (batches : List (List Envelope)) :
    (x.applyBatches batches).contents.Settled := by
  induction batches generalizing x with
  | nil => exact h
  | cons batch rest ih => exact ih (settled_applyBatch h batch)

theorem filed_capture (h : x.contents.Settled) : x.capture.Filed := by
  rintro ⟨k, v⟩ hmem
  exact h.filed k v ((SortedMap.mem_bindings _ _ _).mp hmem)

theorem audits_of_settled (h : x.contents.Settled) :
    Audit.indexIssues.run x.store = .ok [] ∧ Audit.inventoryIssues.run x.store = .ok [] := by
  rw [store, Ledger.run_query, Ledger.run_query]
  exact ⟨h.indexIssues, h.inventoryIssues⟩

/-- The snapshot of an executor is accepted just if the audits of its records find nothing. -/
theorem restore_capture_eq_ok (y x : Executor) : (y.restore x.capture).1 = .ok () ↔
    Audit.indexIssues.run x.store = .ok [] ∧ Audit.inventoryIssues.run x.store = .ok [] :=
  restore_eq_ok.trans Snapshot.acceptable_sealed_iff

/-- **What is restored from a filed snapshot stays consistent.**  Take a snapshot that is accepted,
wherever it comes from, in which every record lies under its own key.  After it is restored and
whatever batches are applied, both audits find nothing, and so every executor accepts the next
snapshot, which is filed as well. -/
theorem restored_consistent {s : Snapshot} (hok : (x.restore s).1 = .ok ()) (hs : s.Filed)
    (batches : List (List Envelope)) :
    Audit.indexIssues.run ((x.restore s).2.applyBatches batches).store = .ok [] ∧
      Audit.inventoryIssues.run ((x.restore s).2.applyBatches batches).store = .ok [] ∧
      ((x.restore s).2.applyBatches batches).capture.Filed ∧
      ∀ y : Executor, (y.restore ((x.restore s).2.applyBatches batches).capture).1 = .ok () := by
  have hacceptable := restore_eq_ok.mp hok
  rw [restore_of_acceptable x hacceptable]
  have hsettled := settled_applyBatches
    (x := starting x.config (.ofList s.entries) s.batches) (hacceptable.settled hs) batches
  have haudits := audits_of_settled hsettled
  exact ⟨haudits.1, haudits.2, filed_capture hsettled,
    fun y => (restore_capture_eq_ok y _).mpr haudits⟩

/-- An executor that restores a snapshot and goes on with a batch. -/
def resumed (s : Snapshot) (batch : List Envelope) : Executor :=
  ((new {}).restore s).2.applyBatches [batch]

/-- Records that no run of envelopes leads to: a balance of zero, an entry of an index with a value,
and a property of an asset that is not there. -/
def untidy : Snapshot := .sealed 0 [
  (Key.asset ⟨"tea"⟩, encode (Asset.fresh ⟨"tea"⟩ "Tea" ⟨"alice"⟩ 5 "kg")),
  (Key.balance ⟨"alice"⟩ ⟨"tea"⟩, encode (Balance.mk 5)),
  (Key.balance ⟨"bob"⟩ ⟨"jam"⟩, encode (Balance.mk 0)),
  (Key.owner ⟨"alice"⟩ ⟨"tea"⟩, [1]),
  (Key.property ⟨"jam"⟩ ⟨"colour"⟩, [2])]

/-- Untidy records that are filed do no harm. -/
theorem restored_consistent_of_untidy :
    ((new {}).restore untidy).1 = .ok () ∧ untidy.Filed ∧
      Audit.indexIssues.run (resumed untidy [⟨⟨"alice"⟩, 1, .addQuantity ⟨"tea"⟩ 1⟩]).store
        = .ok [] ∧
      Audit.inventoryIssues.run (resumed untidy [⟨⟨"alice"⟩, 1, .addQuantity ⟨"tea"⟩ 1⟩]).store
        = .ok [] ∧
      ((new {}).restore (resumed untidy [⟨⟨"alice"⟩, 1, .addQuantity ⟨"tea"⟩ 1⟩]).capture).1
        = .ok () := by
  have hok : ((new {}).restore untidy).1 = .ok () :=
    restore_eq_ok.mpr ⟨rfl, by decide, by decide +kernel, by decide +kernel⟩
  have hfiled : untidy.Filed := by decide +kernel
  obtain ⟨hindices, hinventory, -, hrestore⟩ :=
    restored_consistent hok hfiled [[⟨⟨"alice"⟩, 1, .addQuantity ⟨"tea"⟩ 1⟩]]
  exact ⟨hok, hfiled, hindices, hinventory, hrestore (new {})⟩

theorem resumed_eq {s : Snapshot} (h : s.Acceptable) (batch : List Envelope) :
    resumed s batch = (starting {} (.ofList s.entries) s.batches).applyBatches [batch] := by
  rw [resumed, restore_of_acceptable _ h]
  rfl

/-- The record of an asset under the key of another. -/
def misfiled : Snapshot := .sealed 0 [
  (Key.asset ⟨"tea"⟩, encode (Asset.fresh ⟨"herbs"⟩ "Herbs" ⟨"alice"⟩ 5 "kg")),
  (Key.balance ⟨"alice"⟩ ⟨"herbs"⟩, encode (Balance.mk 5)),
  (Key.owner ⟨"alice"⟩ ⟨"herbs"⟩, [])]

/-- The record of an asset with a root that cannot be part of a key. -/
def unrooted : Snapshot := .sealed 0 [
  (Key.asset ⟨"tea"⟩,
    encode { Asset.fresh ⟨"tea"⟩ "Tea" ⟨"alice"⟩ 0 "kg" with root := ⟨"\x00"⟩ }),
  (Key.owner ⟨"alice"⟩ ⟨"tea"⟩, [])]

/-- The record of an offer under the key of an offer to another account. -/
def misdirected : Snapshot := .sealed 0 [
  (Key.asset ⟨"tea"⟩, encode (Asset.fresh ⟨"tea"⟩ "Tea" ⟨"alice"⟩ 5 "kg")),
  (Key.balance ⟨"alice"⟩ ⟨"tea"⟩, encode (Balance.mk 5)),
  (Key.owner ⟨"alice"⟩ ⟨"tea"⟩, []),
  (Key.offer ⟨"tea"⟩ ⟨"bob"⟩, encode (Offer.pending ⟨"tea"⟩ ⟨"alice"⟩ ⟨"carol"⟩ .owner [])),
  (Key.recipient ⟨"carol"⟩ ⟨"tea"⟩, [])]

/-- Accepted snapshots that one message makes inconsistent, so that the next one is refused.  Each
fails another part of what it is to be filed. -/
theorem inconsistent_after_restore :
    (((new {}).restore misfiled).1 = .ok () ∧
      Audit.inventoryIssues.run (resumed misfiled [⟨⟨"alice"⟩, 1, .addQuantity ⟨"tea"⟩ 1⟩]).store
        = .ok [⟨⟨⟨"alice"⟩, ⟨"herbs"⟩⟩, 6, 11⟩] ∧
      ((new {}).restore (resumed misfiled [⟨⟨"alice"⟩, 1, .addQuantity ⟨"tea"⟩ 1⟩]).capture).1
        ≠ .ok ()) ∧
    (((new {}).restore unrooted).1 = .ok () ∧
      Audit.inventoryIssues.run (resumed unrooted [⟨⟨"alice"⟩, 1, .addQuantity ⟨"tea"⟩ 1⟩]).store
        = .error (.damagedRecord "provena/inventory/alice||" .inventoryKey) ∧
      ((new {}).restore (resumed unrooted [⟨⟨"alice"⟩, 1, .addQuantity ⟨"tea"⟩ 1⟩]).capture).1
        ≠ .ok ()) ∧
    ((new {}).restore misdirected).1 = .ok () ∧
      Audit.indexIssues.run
        (resumed misdirected [⟨⟨"alice"⟩, 1, .answerOffer ⟨"tea"⟩ ⟨"bob"⟩ .cancel⟩]).store
        = .ok [.stale .recipient ⟨⟨"carol"⟩, ⟨"tea"⟩⟩] ∧
      ((new {}).restore
        (resumed misdirected [⟨⟨"alice"⟩, 1, .answerOffer ⟨"tea"⟩ ⟨"bob"⟩ .cancel⟩]).capture).1
        ≠ .ok () := by
  have hmisfiled : misfiled.Acceptable := ⟨rfl, by decide, by decide +kernel, by decide +kernel⟩
  have hunrooted : unrooted.Acceptable := ⟨rfl, by decide, by decide +kernel, by decide +kernel⟩
  have hmisdirected : misdirected.Acceptable :=
    ⟨rfl, by decide, by decide +kernel, by decide +kernel⟩
  -- The audits are of what the checks put in place; no hash is computed.
  simp only [Ne, restore_capture_eq_ok, resumed_eq hmisfiled, resumed_eq hunrooted,
    resumed_eq hmisdirected]
  have hbalance : Audit.inventoryIssues.run
      ((starting {} (.ofList misfiled.entries) misfiled.batches).applyBatches
        [[⟨⟨"alice"⟩, 1, .addQuantity ⟨"tea"⟩ 1⟩]]).store =
      .ok [⟨⟨⟨"alice"⟩, ⟨"herbs"⟩⟩, 6, 11⟩] := by decide +kernel
  have hkey : Audit.inventoryIssues.run
      ((starting {} (.ofList unrooted.entries) unrooted.batches).applyBatches
        [[⟨⟨"alice"⟩, 1, .addQuantity ⟨"tea"⟩ 1⟩]]).store =
      .error (.damagedRecord "provena/inventory/alice||" .inventoryKey) := by decide +kernel
  have hentry : Audit.indexIssues.run
      ((starting {} (.ofList misdirected.entries) misdirected.batches).applyBatches
        [[⟨⟨"alice"⟩, 1, .answerOffer ⟨"tea"⟩ ⟨"bob"⟩ .cancel⟩]]).store =
      .ok [.stale .recipient ⟨⟨"carol"⟩, ⟨"tea"⟩⟩] := by decide +kernel
  rw [hbalance, hkey, hentry]
  refine ⟨⟨restore_eq_ok.mpr hmisfiled, rfl, ?_⟩, ⟨restore_eq_ok.mpr hunrooted, rfl, ?_⟩,
    restore_eq_ok.mpr hmisdirected, rfl, ?_⟩
  · rintro ⟨-, ⟨⟩⟩
  · rintro ⟨-, ⟨⟩⟩
  · rintro ⟨⟨⟩, -⟩

end Executor
end Custody
