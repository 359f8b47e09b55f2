import Custody.Engine.Executor
import Custody.Ledger.Audit

/-!
# Snapshots

A snapshot is a copy of the records and of the batch counter, with a hash of both.  It comes
back from outside, so it is checked before anything is replaced: the hash must be right, the
keys must ascend, and the indices and the inventory must agree with the records.  The journal is
not part of a snapshot, nor are the settings.

* `Snapshot.stream`: the bytes that are hashed; from them, counter and entries can be told.
* `Executor.capture`: the snapshot of an executor.
* `Executor.restore`: an executor put back to a snapshot, or left as it was.
-/

namespace Custody

/-- The records and the batch counter of an executor, with their hash. -/
structure Snapshot where
  /-- The records in ascending order of keys. -/
  entries : List (Bytes × Bytes)
  batches : Nat
  hash : String
  deriving DecidableEq, Repr

/-- Why a snapshot is not restored. -/
inductive SnapshotFault where
  | hashMismatch (recorded recomputed : String)
  /-- The key of the entry after the one at `place` is not greater. -/
  | disordered (place : Nat)
  | inconsistent (indexIssues inventoryIssues : Nat)
  /-- A record cannot be read. -/
  | unreadable (fault : Fault)
  deriving DecidableEq

/-- The wording of a fault of a snapshot. -/
def SnapshotFault.message : SnapshotFault → String
  | hashMismatch recorded recomputed =>
    s!"snapshot hash mismatch: recorded {recorded} but recomputed {recomputed}"
  | disordered place =>
    s!"malformed snapshot: entry {place + 1} is not strictly after entry {place}"
  | inconsistent indexIssues inventoryIssues =>
    s!"inconsistent snapshot: {indexIssues} index issue(s), {inventoryIssues} inventory issue(s)"
  | unreadable fault => s!"snapshot state unreadable: {fault.message}"

namespace Snapshot

/-! ### The hash -/

/-- The bytes that are hashed: the counter, then each key and each value after its length. -/
def stream (batches : Nat) (entries : List (Bytes × Bytes)) : Bytes :=
  Stream.word batches ++ entries.flatMap fun e => Stream.framed e.1 ++ Stream.framed e.2

/-- The hash of records and a batch counter. -/
def hashOf (batches : Nat) (entries : List (Bytes × Bytes)) : String :=
  Blake3.hex (stream batches entries)

/-- A snapshot with the right hash. -/
def sealed (batches : Nat) (entries : List (Bytes × Bytes)) : Snapshot :=
  ⟨entries, batches, hashOf batches entries⟩

/-! ### Checks -/

/-- The first place, counted from `n`, whose key is not below the next one. -/
def disorder? (n : Nat) : List (Bytes × Bytes) → Option Nat
  | a :: b :: rest => if compare a.1 b.1 = .lt then disorder? (n + 1) (b :: rest) else some n
  | _ => none

/-- The audits that records have to pass. -/
def audit (contents : Contents) : Except SnapshotFault Unit := do
  let store := Store.ofContents contents
  let indexIssues ← (Audit.indexIssues.run store).mapError .unreadable
  let inventoryIssues ← (Audit.inventoryIssues.run store).mapError .unreadable
  if indexIssues.isEmpty && inventoryIssues.isEmpty then return ()
  else throw (.inconsistent indexIssues.length inventoryIssues.length)

/-- The records of a snapshot, if it passes every check. -/
def check (s : Snapshot) : Except SnapshotFault Contents := do
  let recomputed := hashOf s.batches s.entries
  unless recomputed = s.hash do throw (.hashMismatch s.hash recomputed)
  if let some place := disorder? 0 s.entries then throw (.disordered place)
  let contents : Contents := .ofList s.entries
  audit contents
  return contents

end Snapshot

namespace Executor

/-- The hash of the records and the batch counter. -/
def stateHash (x : Executor) : String := Snapshot.hashOf x.batches x.contents.bindings

/-- The snapshot of an executor. -/
def capture (x : Executor) : Snapshot := .sealed x.batches x.contents.bindings

/-- Puts an executor back to a snapshot, with an empty journal; a snapshot that does not pass
the checks leaves it as it was. -/
def restore (x : Executor) (s : Snapshot) : Except SnapshotFault Unit × Executor :=
  match s.check with
  | .ok contents => (.ok (), starting x.config contents s.batches)
  | .error fault => (.error fault, x)

end Executor

/-! ### JSON -/

instance : JsonForm Snapshot where
  toJson s := .object
    [("entries", toJson s.entries), ("batches_applied", .count s.batches),
      ("hash", .text s.hash)]
  ofJson? j := do
    let ms ← j.fields? ["entries", "batches_applied", "hash"] []
    return {
      entries := ← Json.required? ms "entries" ofJson?
      batches := ← Json.required? ms "batches_applied" Json.count?
      hash := ← Json.required? ms "hash" ofJson? }

end Custody
