import Custody.Fault
import Custody.Message.Form

/-!
# The journal

Every envelope that is dispatched leaves an entry, applied or refused.  Entries are numbered in
the order in which they come, and the numbering goes on when old entries are dropped: so "entry
42" means the same to two observers also after the journal has rolled over.

* `Journal.push`: appends an entry under the next number and drops what exceeds the capacity.
* `Journal.record`: the entry of an envelope and the verdict on it.
* `Journal.get?`, `Journal.since`, `Journal.forAsset`, …: the retained entries.
-/

namespace Custody

/-- Why an envelope was refused. -/
structure Failure where
  /-- The namespace that the code belongs to. -/
  codespace : String
  code : UInt32
  message : String
  deriving DecidableEq, Repr

/-- A fault as it is recorded. -/
def Failure.ofFault (codespace : String) (fault : Fault) : Failure :=
  ⟨codespace, fault.code, fault.message⟩

/-- An envelope that was dispatched, and what became of it. -/
structure JournalEntry where
  /-- The place in the order of all entries, counted from zero. -/
  sequence : Nat
  blockTime : UInt64
  action : MessageKind
  sender : AccountId
  asset : AssetId
  /-- The tags of the outcome; none if the envelope was refused. -/
  tags : List Tag
  failure : Option Failure
  deriving DecidableEq, Repr

namespace JournalEntry

/-- The entry of an envelope and the verdict on it. -/
def ofVerdict (sequence : Nat) (e : Envelope) (verdict : Verdict Outcome) (codespace : String) :
    JournalEntry where
  sequence := sequence
  blockTime := e.blockTime
  action := e.message.kind
  sender := e.sender
  asset := e.message.asset
  tags := match verdict with
    | .ok outcome => outcome.tags
    | .error _ => []
  failure := match verdict with
    | .ok _ => none
    | .error fault => some (.ofFault codespace fault)

/-- Whether the envelope was applied. -/
def succeeded (e : JournalEntry) : Bool := e.failure.isNone

/-- The value of the first tag with a key. -/
def tag? (e : JournalEntry) (key : String) : Option String := Tag.find? e.tags key

end JournalEntry

/-- The most recent entries, in order. -/
structure Journal where
  entries : List JournalEntry := []
  /-- The most entries that are retained; without it, all are. -/
  capacity : Option Nat := none
  /-- The number that the next entry gets. -/
  nextSequence : Nat := 0
  deriving DecidableEq, Repr

namespace Journal

/-- The journal without entries. -/
def withCapacity (capacity : Option Nat) : Journal := { capacity }

/-! ### Writing -/

/-- The last entries of a list that a capacity admits. -/
def retain (capacity : Option Nat) (entries : List JournalEntry) : List JournalEntry :=
  match capacity with
  | none => entries
  | some n => entries.drop (entries.length - n)

/-- Appends an entry under the next number; the oldest entries make room. -/
def push (j : Journal) (e : JournalEntry) : Journal where
  entries := retain j.capacity (j.entries ++ [{ e with sequence := j.nextSequence }])
  capacity := j.capacity
  nextSequence := j.nextSequence + 1

/-- Appends the entry of an envelope and the verdict on it. -/
def record (j : Journal) (e : Envelope) (verdict : Verdict Outcome) (codespace : String) :
    Journal :=
  j.push (.ofVerdict j.nextSequence e verdict codespace)

/-- Drops every entry; the numbering goes on. -/
def clear (j : Journal) : Journal := { j with entries := [] }

/-! ### Reading -/

/-- The entry with a number, if it is retained: as entries are numbered without a gap, it is as
far from the first as the numbers are apart. -/
def get? (j : Journal) (sequence : Nat) : Option JournalEntry :=
  match j.entries with
  | [] => none
  | first :: _ =>
    if first.sequence ≤ sequence then j.entries[sequence - first.sequence]? else none

/-- The entries from a number on. -/
def since (j : Journal) (sequence : Nat) : List JournalEntry :=
  j.entries.filter fun e => sequence ≤ e.sequence

/-- The entries of envelopes about an asset. -/
def forAsset (j : Journal) (id : AssetId) : List JournalEntry :=
  j.entries.filter fun e => e.asset == id

/-- The entries of envelopes from an account. -/
def bySender (j : Journal) (sender : AccountId) : List JournalEntry :=
  j.entries.filter fun e => e.sender == sender

/-- The entries of messages of a kind. -/
def forAction (j : Journal) (action : MessageKind) : List JournalEntry :=
  j.entries.filter fun e => e.action == action

/-- The entries whose first tag with a key has a value. -/
def withTag (j : Journal) (key value : String) : List JournalEntry :=
  j.entries.filter fun e => e.tag? key == some value

/-- The entries of envelopes that were refused. -/
def failures (j : Journal) : List JournalEntry := j.entries.filter fun e => !e.succeeded

/-- The entries of envelopes that were applied. -/
def successes (j : Journal) : List JournalEntry := j.entries.filter JournalEntry.succeeded

end Journal

/-! ### JSON -/

instance : JsonForm Failure where
  toJson f := .object
    [("codespace", .text f.codespace), ("code", toJson f.code), ("message", .text f.message)]
  ofJson? j := do
    let ms ← j.fields? ["codespace", "code", "message"] []
    return {
      codespace := ← Json.required? ms "codespace" ofJson?
      code := ← Json.required? ms "code" ofJson?
      message := ← Json.required? ms "message" ofJson? }

instance : JsonForm JournalEntry where
  toJson e := .object
    [("sequence", .count e.sequence), ("block_time", toJson e.blockTime),
      ("action", toJson e.action), ("sender", toJson e.sender), ("asset_id", toJson e.asset),
      ("tags", toJson e.tags), ("failure", toJson e.failure)]
  ofJson? j := do
    let ms ← j.fields?
      ["sequence", "block_time", "action", "sender", "asset_id", "tags", "failure"] []
    return {
      sequence := ← Json.required? ms "sequence" Json.count?
      blockTime := ← Json.required? ms "block_time" ofJson?
      action := ← Json.required? ms "action" ofJson?
      sender := ← Json.required? ms "sender" ofJson?
      asset := ← Json.required? ms "asset_id" ofJson?
      tags := ← Json.required? ms "tags" ofJson?
      failure := ← Json.optional? ms "failure" ofJson? }

instance : JsonForm Journal where
  toJson j := .object
    [("entries", toJson j.entries), ("capacity", .nullable .count j.capacity),
      ("next_sequence", .count j.nextSequence)]
  ofJson? j := do
    let ms ← j.fields? ["entries", "capacity", "next_sequence"] []
    return {
      entries := ← Json.required? ms "entries" ofJson?
      capacity := ← Json.optional? ms "capacity" Json.count?
      nextSequence := ← Json.required? ms "next_sequence" Json.count? }

end Custody
