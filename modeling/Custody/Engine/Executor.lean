import Custody.Journal.Summary
import Custody.Ledger.Dispatch

/-!
# The executor

An executor owns the records and takes envelopes in the order of their delivery, alone or in
batches.  Each is applied or refused, and either way journalled; a refused one stops nothing.
The time comes with the envelope, so the records after a batch are determined by the records
before it and the batch.

* `Executor.apply`: one envelope; it does not count as a batch.
* `Executor.applyBatch`: a batch, and the report on it.
-/

namespace Custody

/-- The settings of an executor. -/
structure EngineConfig where
  module : ModuleConfig := {}
  /-- A checkpoint is due every this many batches; before every batch if it is zero. -/
  checkpointInterval : Nat := 16
  /-- What the host logs. -/
  logFilter : String := "info"
  /-- The most journal entries that are retained; without it, all are. -/
  journalCapacity : Option Nat := some 65536
  deriving DecidableEq, Repr

/-- What became of a batch. -/
structure BatchReport where
  /-- The place of the batch, counted from zero. -/
  batch : Nat := 0
  /-- The journal number of its first envelope. -/
  firstSequence : Nat := 0
  successCount : Nat := 0
  failedCount : Nat := 0
  deriving DecidableEq, Repr

/-- The number of envelopes in the batch. -/
def BatchReport.total (r : BatchReport) : Nat := r.successCount + r.failedCount

/-- Counts a verdict. -/
def BatchReport.add (r : BatchReport) : Verdict Outcome → BatchReport
  | .ok _ => { r with successCount := r.successCount + 1 }
  | .error _ => { r with failedCount := r.failedCount + 1 }

/-- The records, and what is kept about the envelopes that changed them. -/
structure Executor where
  config : EngineConfig
  contents : Contents
  journal : Journal
  /-- The number of batches that led to the records, those before a restored snapshot included; a
  word of 64 bits. -/
  batches : Nat
  /-- The report on the last batch. -/
  lastReport : BatchReport
  deriving DecidableEq

namespace Executor

/-- An executor that has the given records and has applied the given number of batches. -/
def starting (config : EngineConfig) (contents : Contents) (batches : Nat) : Executor where
  config := config
  contents := contents
  journal := .withCapacity config.journalCapacity
  batches := batches
  lastReport := {}

/-- An executor over existing records. -/
def ofContents (config : EngineConfig) (contents : Contents) : Executor := starting config contents 0

/-- An executor without records. -/
def new (config : EngineConfig) : Executor := ofContents config ∅

/-- The store of the records. -/
def store (x : Executor) : Store := .ofContents x.contents

/-- Applies an envelope and journals what became of it. -/
def apply (x : Executor) (e : Envelope) : Verdict Outcome × Executor :=
  let (verdict, s) := Ledger.dispatch x.config.module e x.store
  (verdict, { x with
    contents := s.base
    journal := x.journal.record e verdict x.config.module.codespace })

/-- Applies envelopes one after the other, counting the verdicts. -/
def applyAll (x : Executor) (report : BatchReport) : List Envelope → BatchReport × Executor
  | [] => (report, x)
  | e :: rest =>
    let (verdict, x) := x.apply e
    x.applyAll (report.add verdict) rest

/-- Applies a batch of envelopes in their order.  The counter is a word, and after the greatest word
comes zero. -/
def applyBatch (x : Executor) (batch : List Envelope) : BatchReport × Executor :=
  let (report, x) :=
    x.applyAll { batch := x.batches, firstSequence := x.journal.nextSequence } batch
  (report, { x with batches := (x.batches + 1) % Json.wordBound, lastReport := report })

end Executor

/-! ### JSON -/

instance : JsonForm EngineConfig where
  toJson c := .object
    [("module", toJson c.module), ("checkpoint_interval", .count c.checkpointInterval),
      ("log_filter", .text c.logFilter),
      ("journal_capacity", .nullable .count c.journalCapacity)]
  ofJson? j := do
    let ms ← j.fields? [] ["module", "checkpoint_interval", "log_filter", "journal_capacity"]
    let unset : EngineConfig := {}
    return {
      module := ← Json.defaulted? ms "module" ofJson? unset.module
      checkpointInterval :=
        ← Json.defaulted? ms "checkpoint_interval" Json.count? unset.checkpointInterval
      logFilter := ← Json.defaulted? ms "log_filter" ofJson? unset.logFilter
      journalCapacity := ← Json.defaulted? ms "journal_capacity" (Json.nullable? Json.count?)
        unset.journalCapacity }

instance : JsonForm BatchReport where
  toJson r := .object
    [("batch", .count r.batch), ("first_sequence", .count r.firstSequence),
      ("success_count", .count r.successCount), ("failed_count", .count r.failedCount)]
  ofJson? j := do
    let ms ← j.fields? ["batch", "first_sequence", "success_count", "failed_count"] []
    return {
      batch := ← Json.required? ms "batch" Json.count?
      firstSequence := ← Json.required? ms "first_sequence" Json.count?
      successCount := ← Json.required? ms "success_count" Json.count?
      failedCount := ← Json.required? ms "failed_count" Json.count? }

end Custody
