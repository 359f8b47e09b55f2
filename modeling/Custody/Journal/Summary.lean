import Custody.Digest.Blake3
import Custody.Digest.Stream
import Custody.Journal.Basic
import Custody.SortedMap

/-!
# Summaries of the journal

A run of entries condensed: how many were applied and refused, of each kind of message and for
each fault, and a digest of the entries.  Two observers who saw the same entries have the same
digest.

* `Summary.ofEntries`: the summary of a run of entries.
* `Summary.stream`: the bytes that are digested.
-/

namespace Custody

/-- How many envelopes were applied and refused. -/
structure ActionCounts where
  succeeded : Nat := 0
  failed : Nat := 0
  deriving DecidableEq, Repr

/-- What a run of journal entries comes to. -/
structure Summary where
  /-- The numbers of the first and of the last entry. -/
  firstSequence : Option Nat
  lastSequence : Option Nat
  total : Nat
  succeeded : Nat
  failed : Nat
  byAction : SortedMap MessageKind ActionCounts
  /-- The refusals by `Failure.label`. -/
  failuresByCode : SortedMap String Nat
  digest : String
  deriving DecidableEq

/-- The code of a failure under its namespace. -/
def Failure.label (f : Failure) : String :=
  String.ofList (f.codespace.toList ++ ':' :: Decimal.write f.code.toNat)

/-- Counts an entry. -/
def ActionCounts.add (counts : ActionCounts) (e : JournalEntry) : ActionCounts :=
  match e.failure with
  | none => { counts with succeeded := counts.succeeded + 1 }
  | some _ => { counts with failed := counts.failed + 1 }

namespace Summary

/-- The entries counted by the kind of their messages. -/
def countActions (entries : List JournalEntry) : SortedMap MessageKind ActionCounts :=
  entries.foldl (fun m e => m.update e.action fun counts => (counts.getD {}).add e) ∅

/-- The refusals counted by their codes. -/
def countFailures (entries : List JournalEntry) : SortedMap String Nat :=
  (entries.filterMap JournalEntry.failure).foldl
    (fun m f => m.update f.label fun n => n.getD 0 + 1) ∅

/-- The bytes that are digested: the text of each entry after its length. -/
def stream (entries : List JournalEntry) : Bytes :=
  entries.flatMap fun e => Stream.framed (encode e)

/-- The summary of a run of entries. -/
def ofEntries (entries : List JournalEntry) : Summary where
  firstSequence := entries.head?.map JournalEntry.sequence
  lastSequence := entries.getLast?.map JournalEntry.sequence
  total := entries.length
  succeeded := entries.countP JournalEntry.succeeded
  failed := entries.countP fun e => !e.succeeded
  byAction := countActions entries
  failuresByCode := countFailures entries
  digest := Blake3.hex (stream entries)

end Summary

/-- The summary of the retained entries. -/
def Journal.summary (j : Journal) : Summary := .ofEntries j.entries

/-! ### JSON -/

namespace Summary

/-- A map is written as an object with a member for each binding. -/
def mapJson {κ ν : Type} [Ord κ] (name : κ → String) (write : ν → Json) (m : SortedMap κ ν) :
    Json :=
  .object (m.bindings.map fun b => (name b.1, write b.2))

/-- Reads a map; of two members with the same name the later one counts. -/
def mapOfJson? {κ ν : Type} [Ord κ] [Std.TransOrd κ] [Std.LawfulEqOrd κ]
    (key? : String → Option κ) (read? : Json → Option ν) (j : Json) : Option (SortedMap κ ν) := do
  let members ← j.members?
  let bindings ← members.mapM fun m => do return (← key? m.1, ← read? m.2)
  return .ofList bindings

end Summary

instance : JsonForm ActionCounts where
  toJson c := .object [("succeeded", .count c.succeeded), ("failed", .count c.failed)]
  ofJson? j := do
    let ms ← j.fields? ["succeeded", "failed"] []
    return {
      succeeded := ← Json.required? ms "succeeded" Json.count?
      failed := ← Json.required? ms "failed" Json.count? }

instance : JsonForm Summary where
  toJson s := .object
    [("first_sequence", .nullable .count s.firstSequence),
      ("last_sequence", .nullable .count s.lastSequence), ("total", .count s.total),
      ("succeeded", .count s.succeeded), ("failed", .count s.failed),
      ("by_action", Summary.mapJson MessageKind.label toJson s.byAction),
      ("failures_by_code", Summary.mapJson id .count s.failuresByCode),
      ("digest", .text s.digest)]
  ofJson? j := do
    let ms ← j.fields?
      ["first_sequence", "last_sequence", "total", "succeeded", "failed", "by_action",
        "failures_by_code", "digest"] []
    return {
      firstSequence := ← Json.optional? ms "first_sequence" Json.count?
      lastSequence := ← Json.optional? ms "last_sequence" Json.count?
      total := ← Json.required? ms "total" Json.count?
      succeeded := ← Json.required? ms "succeeded" Json.count?
      failed := ← Json.required? ms "failed" Json.count?
      byAction := ← Json.required? ms "by_action" (Summary.mapOfJson? ofLabel? ofJson?)
      failuresByCode :=
        ← Json.required? ms "failures_by_code" (Summary.mapOfJson? some Json.count?)
      digest := ← Json.required? ms "digest" ofJson? }

end Custody
