import Custody.Engine.Snapshot

/-!
# Recordings

A recorder takes down the batches that an executor is given, with a checkpoint of its state now
and then.  The log says where the recording began, under which settings, and what came.

* `Recorder.record`: takes down a batch; their places must ascend.
* `Recorder.apply`: takes down a batch and has the executor apply it.
* `Recorder.finish`: the log.
-/

namespace Custody

/-- An entry of a log. -/
inductive LogEntry where
  /-- The envelopes of the batch at a place. -/
  | batch (index : Nat) (envelopes : List Envelope)
  /-- The hash of the state before the batch at a place. -/
  | checkpoint (index : Nat) (stateHash : String)
  deriving DecidableEq

/-- What a recorder took down. -/
structure BatchLog where
  /-- The state at the beginning. -/
  initial : Snapshot
  /-- The settings under which the batches were applied. -/
  module : ModuleConfig
  /-- The number of batches. -/
  total : Nat
  entries : List LogEntry
  deriving DecidableEq

/-- A batch whose place is not after the place of the batch recorded last. -/
structure OutOfOrder where
  index : Nat
  previous : Nat
  deriving DecidableEq, Repr

/-- The wording of the fault. -/
def OutOfOrder.message (o : OutOfOrder) : String :=
  s!"batch {o.index} recorded out of order (previous batch {o.previous})"

/-- A recording that is going on. -/
structure Recorder where
  initial : Snapshot
  module : ModuleConfig
  interval : Nat
  entries : List LogEntry
  /-- The number of batches so far. -/
  recorded : Nat
  /-- The place of the last one. -/
  last : Option Nat
  deriving DecidableEq

namespace Recorder

/-- A recording that begins with the present state of an executor. -/
def withInterval (x : Executor) (interval : Nat) : Recorder where
  initial := x.capture
  module := x.config.module
  interval := interval
  entries := []
  recorded := 0
  last := none

/-- A recording with the checkpoint interval of the executor's settings. -/
def start (x : Executor) : Recorder := withInterval x x.config.checkpointInterval

/-- Whether a checkpoint is due before the batch at a place. -/
def isDue (r : Recorder) (index : Nat) : Bool := r.interval == 0 || index % r.interval == 0

/-- The checkpoint before the batch at a place, if one is due and the hash is known. -/
def checkpoints (r : Recorder) (index : Nat) : Option String → List LogEntry
  | some hash => if r.isDue index then [.checkpoint index hash] else []
  | none => []

/-- Takes down a batch; `hash` is the hash of the state before it. -/
def record (r : Recorder) (index : Nat) (envelopes : List Envelope) (hash : Option String) :
    Except OutOfOrder Recorder :=
  match r.last with
  | some previous => if previous < index then .ok next else .error ⟨index, previous⟩
  | none => .ok next
where
  /-- The recording with the batch. -/
  next : Recorder := { r with
    entries := r.entries ++ r.checkpoints index hash ++ [.batch index envelopes]
    recorded := r.recorded + 1
    last := some index }

/-- Takes down a batch and has the executor apply it. -/
def apply (r : Recorder) (x : Executor) (batch : List Envelope) :
    Except OutOfOrder (BatchReport × Recorder × Executor) := do
  let hash := if r.isDue x.batches then some x.stateHash else none
  let r ← r.record x.batches batch hash
  let (report, x) := x.applyBatch batch
  return (report, r, x)

/-- The log of a recording. -/
def finish (r : Recorder) : BatchLog := ⟨r.initial, r.module, r.recorded, r.entries⟩

end Recorder

/-! ### JSON -/

namespace LogEntry

/-- Reads the members of a batch. -/
def batchOfJson? (j : Json) : Option LogEntry := do
  let ms ← j.fields? ["index", "envelopes"] []
  let index ← Json.required? ms "index" Json.count?
  let envelopes ← Json.required? ms "envelopes" ofJson?
  return batch index envelopes

/-- Reads the members of a checkpoint. -/
def checkpointOfJson? (j : Json) : Option LogEntry := do
  let ms ← j.fields? ["index", "state_hash"] []
  let index ← Json.required? ms "index" Json.count?
  let hash ← Json.required? ms "state_hash" ofJson?
  return checkpoint index hash

instance : JsonForm LogEntry where
  toJson
    | batch index envelopes => .object
      [("Batch", .object [("index", .count index), ("envelopes", toJson envelopes)])]
    | checkpoint index hash => .object
      [("Checkpoint", .object [("index", .count index), ("state_hash", .text hash)])]
  ofJson? j := do
    match ← j.onlyMember? with
    | ("Batch", j) => batchOfJson? j
    | ("Checkpoint", j) => checkpointOfJson? j
    | _ => none

end LogEntry

instance : JsonForm BatchLog where
  toJson l := .object
    [("initial_snapshot", toJson l.initial), ("module", toJson l.module),
      ("total_batches", .count l.total), ("entries", toJson l.entries)]
  ofJson? j := do
    let ms ← j.fields? ["initial_snapshot", "module", "total_batches", "entries"] []
    return {
      initial := ← Json.required? ms "initial_snapshot" ofJson?
      module := ← Json.required? ms "module" ofJson?
      total := ← Json.required? ms "total_batches" Json.count?
      entries := ← Json.required? ms "entries" ofJson? }

end Custody
