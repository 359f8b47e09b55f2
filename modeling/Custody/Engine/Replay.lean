import Custody.Engine.Recording

/-!
# Replay

A log is replayed on an executor: it is put back to where the recording began, applies the
recorded batches in the order of their places, and its state is compared at each checkpoint.
The places run without a gap from the batch counter of the initial snapshot; a place without a
recorded batch is an empty batch.  Replay stops at the first checkpoint that does not match.

* `Schedule.ofEntries`: the entries of a log by their places, each place once.
* `Executor.replayFrom`: the batches from a place on.
* `Executor.replay`: the replay of a log; one that cannot begin leaves the executor as it was.
-/

namespace Custody

/-- A checkpoint that does not match the replayed state. -/
structure Divergence where
  /-- The place of the batch that would have come next. -/
  batch : Nat
  expected : String
  actual : String
  deriving DecidableEq, Repr

/-- How a replay ended. -/
structure ReplayResult where
  /-- Whether every batch was replayed. -/
  completed : Bool
  /-- The number of batches that were. -/
  replayed : Nat
  divergence : Option Divergence
  deriving DecidableEq, Repr

/-- Why a replay cannot begin. -/
inductive ReplayFault where
  /-- The executor has other settings than the recorded one. -/
  | configDiffers
  | duplicateBatch (index : Nat)
  | duplicateCheckpoint (index : Nat)
  /-- The places of the batches go beyond 64 bits. -/
  | overflow (start total : Nat)
  | initial (fault : SnapshotFault)
  deriving DecidableEq

/-- The wording of a fault of a replay, the causes after it. -/
def ReplayFault.message : ReplayFault → String
  | configDiffers => "executor module configuration differs from the recorded one"
  | duplicateBatch index => s!"batch log contains duplicate Batch entry at index {index}"
  | duplicateCheckpoint index =>
    s!"batch log contains duplicate Checkpoint entry at index {index}"
  | overflow start total =>
    s!"batch range overflow: start ({start}) + total_batches ({total}) exceeds u64::MAX"
  | initial (.unreadable fault) => restoring (.unreadable fault) ++ ": " ++ fault.message
  | initial fault => restoring fault
where
  /-- The wording when the initial snapshot is not restored. -/
  restoring (fault : SnapshotFault) : String :=
    "failed to restore initial snapshot for replay: " ++ fault.message

/-- The entries of a log by their places. -/
structure Schedule where
  batches : SortedMap Nat (List Envelope) := ∅
  checkpoints : SortedMap Nat String := ∅

namespace Schedule

/-- Adds an entry, unless there is one of its kind at its place. -/
def add (s : Schedule) : LogEntry → Except ReplayFault Schedule
  | .batch index envelopes =>
    if s.batches.contains index then .error (.duplicateBatch index)
    else .ok { s with batches := s.batches.insert index envelopes }
  | .checkpoint index hash =>
    if s.checkpoints.contains index then .error (.duplicateCheckpoint index)
    else .ok { s with checkpoints := s.checkpoints.insert index hash }

/-- The schedule of the entries of a log. -/
def ofEntries (entries : List LogEntry) : Except ReplayFault Schedule :=
  entries.foldlM add {}

/-- The batch at a place. -/
def batch (s : Schedule) (index : Nat) : List Envelope := s.batches.getD index []

/-- The difference between the checkpoint at a place and the state of an executor. -/
def divergence? (s : Schedule) (index : Nat) (x : Executor) : Option Divergence :=
  match s.checkpoints.get? index with
  | none => none
  | some expected =>
    let actual := x.stateHash
    if actual = expected then none else some ⟨index, expected, actual⟩

end Schedule

/-- What a log asks for: its schedule and the records to begin with. -/
def BatchLog.check (log : BatchLog) (config : ModuleConfig) :
    Except ReplayFault (Schedule × Contents) := do
  unless config = log.module do throw .configDiffers
  let schedule ← Schedule.ofEntries log.entries
  let start := log.initial.batches
  unless start + log.total < Json.wordBound do throw (.overflow start log.total)
  let contents ← log.initial.check.mapError .initial
  return (schedule, contents)

namespace Executor

/-- Replays batches from a place on, as many as there are left; `replayed` counts those before. -/
def replayFrom (x : Executor) (s : Schedule) (index replayed : Nat) : Nat → ReplayResult × Executor
  | 0 => (⟨true, replayed, none⟩, x)
  | left + 1 =>
    match s.divergence? index x with
    | some d => (⟨false, replayed, some d⟩, x)
    | none => (x.applyBatch (s.batch index)).2.replayFrom s (index + 1) (replayed + 1) left

/-- Replays a log. -/
def replay (x : Executor) (log : BatchLog) : Except ReplayFault ReplayResult × Executor :=
  match log.check x.config.module with
  | .error fault => (.error fault, x)
  | .ok (schedule, contents) =>
    let start := log.initial.batches
    let (result, x) := (starting x.config contents start).replayFrom schedule start 0 log.total
    (.ok result, x)

end Executor

/-! ### JSON -/

instance : JsonForm Divergence where
  toJson d := .object
    [("batch", .count d.batch), ("expected_hash", .text d.expected),
      ("actual_hash", .text d.actual)]
  ofJson? j := do
    let ms ← j.fields? ["batch", "expected_hash", "actual_hash"] []
    return {
      batch := ← Json.required? ms "batch" Json.count?
      expected := ← Json.required? ms "expected_hash" ofJson?
      actual := ← Json.required? ms "actual_hash" ofJson? }

instance : JsonForm ReplayResult where
  toJson r := .object
    [("completed", .bool r.completed), ("batches_replayed", .count r.replayed),
      ("first_divergence", toJson r.divergence)]
  ofJson? j := do
    let ms ← j.fields? ["completed", "batches_replayed", "first_divergence"] []
    return {
      completed := ← Json.required? ms "completed" ofJson?
      replayed := ← Json.required? ms "batches_replayed" Json.count?
      divergence := ← Json.optional? ms "first_divergence" ofJson? }

end Custody
