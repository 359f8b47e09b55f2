import Custody.Journal.Summary
import Custody.Ledger.Audit
import Custody.Proofs.Json.Message
import Custody.Proofs.SortedMap.View

/-!
# Reports are read back

The issues that an audit finds are lawful.  Entries of the journal and their summaries hold counts;
they are read back if these fit.

* `JournalEntry.faithful`: entries of the journal.
* `Summary.mapOfJson?_mapJson`: a map that is written as an object is read back.
* `Summary.faithful`: summaries.
-/

namespace Custody

open LawfulForm

/-! ### Issues of an audit -/

instance : LawfulLabels IndexKind := ⟨fun i => by cases i <;> rfl⟩

instance : LawfulForm IndexKind 0 := ⟨fun _ => rfl, LawfulLabels.ofLabel?_label⟩

namespace IndexIssue

theorem isPlain_entryJson (index : IndexKind) (h : Holding) :
    (entryJson index h).isPlain 1 = true := by
  simp [entryJson, Json.isPlain, Json.membersPlain, isPlain_toJson]

theorem entryOfJson?_entryJson (index : IndexKind) (h : Holding) :
    entryOfJson? (entryJson index h) = some (index, h) := by
  simp [entryOfJson?, entryJson, Json.required?, Json.member?]

end IndexIssue

instance : LawfulForm IndexIssue 2 where
  isPlain_toJson i := by
    delta IndexIssue.instJsonForm
    cases i <;>
      simp [Json.isPlain, Json.membersPlain, IndexIssue.isPlain_entryJson, isPlain_toJson_of_le]
  ofJson?_toJson i := by
    delta IndexIssue.instJsonForm
    cases i with
    | missing index entry | stale index entry =>
      simp [Json.onlyMember?, IndexIssue.entryOfJson?_entryJson]
    | malformed index key =>
      simp [Json.onlyMember?, IndexIssue.keyOfJson?, Json.required?, Json.member?]

instance : LawfulForm InventoryIssue 2 where
  isPlain_toJson i := by
    delta instJsonFormInventoryIssue
    simp [Json.isPlain, Json.membersPlain, isPlain_toJson_of_le, Json.isPlain_digits32]
  ofJson?_toJson i := by
    delta instJsonFormInventoryIssue
    simp [Json.required?, Json.member?, Json.digits32?_digits32]

/-! ### Entries of the journal -/

instance : LawfulForm Failure 1 where
  isPlain_toJson f := by
    delta instJsonFormFailure
    simp [Json.isPlain, Json.membersPlain, isPlain_toJson_of_le]
  ofJson?_toJson f := by
    delta instJsonFormFailure
    simp [Json.required?, Json.member?]

/-- The number of an entry fits in 64 bits. -/
def JournalEntry.Fits (e : JournalEntry) : Prop := e.sequence < Json.wordBound

theorem JournalEntry.faithful : Faithful JournalEntry Fits 3 where
  isPlain_toJson := by
    intro e he
    delta instJsonFormJournalEntry
    have hfailure : (toJson e.failure).isPlain 2 = true :=
      Json.isPlain_nullable fun f _ => isPlain_toJson_of_le (by decide) f
    simp [Json.isPlain, Json.membersPlain, isPlain_toJson_of_le, Json.isPlain_count he, hfailure]
  ofJson?_toJson := by
    intro e he
    delta instJsonFormJournalEntry
    have hfailure : Json.nullable? ofJson? (toJson e.failure) = some e.failure :=
      Json.nullable?_nullable rfl fun f _ => ofJson?_toJson f
    simp only [Json.fields?_object, Json.required?, Json.optional?, Json.member?, List.filter_cons,
      ↓reduceIte, List.filter_nil, BEq.rfl, String.reduceBEq, Bool.false_eq_true, some_bind,
      Option.pure_def, ofJson?_toJson, Json.count?_count he, hfailure]
  of_ofJson? := by
    intro j e h
    delta instJsonFormJournalEntry at h
    simp only [Option.bind_eq_bind, Option.bind_eq_some_iff, Option.pure_def,
      Option.some.injEq] at h
    obtain ⟨_, -, sequence, hsequence, _, -, _, -, _, -, _, -, _, -, _, -, rfl⟩ := h
    exact Json.of_required? Json.lt_of_count? hsequence

/-! ### Summaries -/

namespace Summary

section Maps

variable {κ ν : Type} [Ord κ] [Std.TransOrd κ] [Std.LawfulEqOrd κ] {name : κ → String}
  {key? : String → Option κ} {write : ν → Json} {read? : Json → Option ν}

omit [Std.TransOrd κ] in
theorem isPlain_mapJson {m : SortedMap κ ν} {d : Nat}
    (h : ∀ k v, m.get? k = some v → (write v).isPlain d = true) :
    (mapJson name write m).isPlain (d + 1) = true := by
  rw [mapJson, Json.isPlain]
  exact Json.membersPlain_map fun b hb => h b.1 b.2 ((SortedMap.mem_bindings _ _ _).mp hb)

/-- **A map that is written as an object is read back.** -/
theorem mapOfJson?_mapJson (hkey : ∀ k, key? (name k) = some k) {m : SortedMap κ ν}
    (h : ∀ k v, m.get? k = some v → read? (write v) = some v) :
    mapOfJson? key? read? (mapJson name write m) = some m := by
  have hread : (m.bindings.map fun b => (name b.1, write b.2)).mapM
      (fun member => do return (← key? member.1, ← read? member.2)) = some m.bindings := by
    refine Json.mapM_map_some fun b hb => ?_
    rw [hkey, some_bind, h b.1 b.2 ((SortedMap.mem_bindings _ _ _).mp hb), some_bind]
    rfl
  rw [mapOfJson?, mapJson, Json.members?, some_bind, hread, some_bind, SortedMap.ofList_bindings]
  rfl

/-- What is bound by a map that was read was read. -/
theorem of_mapOfJson? {P : ν → Prop} (hP : ∀ {j v}, read? j = some v → P v) {j : Json}
    {m : SortedMap κ ν} (h : mapOfJson? key? read? j = some m) {k : κ} {v : ν}
    (hv : m.get? k = some v) : P v := by
  obtain ⟨members, -, h⟩ := Option.bind_eq_some_iff.mp h
  obtain ⟨bindings, hbindings, h⟩ := Option.bind_eq_some_iff.mp h
  obtain rfl := Option.some.inj h
  rw [SortedMap.get?_ofList] at hv
  obtain ⟨member, -, hmember⟩ := Json.exists_of_mapM_eq_some hbindings
    (List.mem_reverse.mp (SortedMap.mem_of_lookup hv))
  obtain ⟨_, -, hmember⟩ := Option.bind_eq_some_iff.mp hmember
  obtain ⟨w, hw, hmember⟩ := Option.bind_eq_some_iff.mp hmember
  obtain ⟨-, rfl⟩ := Prod.mk.inj (Option.some.inj hmember)
  exact hP hw

end Maps

end Summary

/-- Both counts fit in 64 bits. -/
def ActionCounts.Fits (c : ActionCounts) : Prop :=
  c.succeeded < Json.wordBound ∧ c.failed < Json.wordBound

theorem ActionCounts.faithful : Faithful ActionCounts Fits 1 where
  isPlain_toJson := by
    intro c hc
    delta instJsonFormActionCounts
    simp [Json.isPlain, Json.membersPlain, Json.isPlain_count hc.1, Json.isPlain_count hc.2]
  ofJson?_toJson := by
    intro c hc
    delta instJsonFormActionCounts
    simp [Json.required?, Json.member?, Json.count?_count hc.1, Json.count?_count hc.2]
  of_ofJson? := by
    intro j c h
    delta instJsonFormActionCounts at h
    simp only [Option.bind_eq_bind, Option.bind_eq_some_iff, Option.pure_def,
      Option.some.injEq] at h
    obtain ⟨_, -, succeeded, hsucceeded, failed, hfailed, rfl⟩ := h
    exact ⟨Json.of_required? Json.lt_of_count? hsucceeded,
      Json.of_required? Json.lt_of_count? hfailed⟩

/-- The counts of a summary fit in 64 bits. -/
structure Summary.Fits (s : Summary) : Prop where
  firstSequence : ∀ n, s.firstSequence = some n → n < Json.wordBound
  lastSequence : ∀ n, s.lastSequence = some n → n < Json.wordBound
  total : s.total < Json.wordBound
  succeeded : s.succeeded < Json.wordBound
  failed : s.failed < Json.wordBound
  byAction : ∀ k c, s.byAction.get? k = some c → c.Fits
  failuresByCode : ∀ k n, s.failuresByCode.get? k = some n → n < Json.wordBound

theorem Summary.faithful : Faithful Summary Fits 3 where
  isPlain_toJson := by
    intro s hs
    delta instJsonFormSummary
    have hfirst : (Json.nullable .count s.firstSequence).isPlain 2 = true :=
      Json.isPlain_nullable fun n hn => Json.isPlain_count (hs.firstSequence n hn) 2
    have hlast : (Json.nullable .count s.lastSequence).isPlain 2 = true :=
      Json.isPlain_nullable fun n hn => Json.isPlain_count (hs.lastSequence n hn) 2
    have hactions : (mapJson MessageKind.label toJson s.byAction).isPlain 2 = true :=
      isPlain_mapJson fun k c hc => ActionCounts.faithful.isPlain_toJson (hs.byAction k c hc)
    have hcodes : (mapJson id .count s.failuresByCode).isPlain 2 = true :=
      isPlain_mapJson fun k n hn => Json.isPlain_count (hs.failuresByCode k n hn) 1
    simp [Json.isPlain, Json.membersPlain, hfirst, hlast, hactions, hcodes,
      Json.isPlain_count hs.total, Json.isPlain_count hs.succeeded, Json.isPlain_count hs.failed]
  ofJson?_toJson := by
    intro s hs
    delta instJsonFormSummary
    have hfirst : Json.nullable? Json.count? (.nullable .count s.firstSequence) =
        some s.firstSequence :=
      Json.nullable?_nullable rfl fun n hn => Json.count?_count (hs.firstSequence n hn)
    have hlast : Json.nullable? Json.count? (.nullable .count s.lastSequence) =
        some s.lastSequence :=
      Json.nullable?_nullable rfl fun n hn => Json.count?_count (hs.lastSequence n hn)
    have hactions : mapOfJson? ofLabel? ofJson? (mapJson MessageKind.label toJson s.byAction) =
        some s.byAction :=
      mapOfJson?_mapJson LawfulLabels.ofLabel?_label fun k c hc =>
        ActionCounts.faithful.ofJson?_toJson (hs.byAction k c hc)
    have hcodes : mapOfJson? some Json.count? (mapJson id .count s.failuresByCode) =
        some s.failuresByCode :=
      mapOfJson?_mapJson (fun _ => rfl) fun k n hn =>
        Json.count?_count (hs.failuresByCode k n hn)
    simp only [Json.fields?_object, Json.required?, Json.optional?, Json.member?, List.filter_cons,
      ↓reduceIte, List.filter_nil, BEq.rfl, String.reduceBEq, Bool.false_eq_true, some_bind,
      Option.pure_def, Json.ofJson?_text, hfirst, hlast, hactions, hcodes,
      Json.count?_count hs.total, Json.count?_count hs.succeeded, Json.count?_count hs.failed]
  of_ofJson? := by
    intro j s h
    delta instJsonFormSummary at h
    simp only [Option.bind_eq_bind, Option.bind_eq_some_iff, Option.pure_def,
      Option.some.injEq] at h
    obtain ⟨_, -, first, hfirst, last, hlast, total, htotal, succeeded, hsucceeded, failed,
      hfailed, actions, hactions, codes, hcodes, _, -, rfl⟩ := h
    exact {
      firstSequence := Json.of_optional? Json.lt_of_count? hfirst
      lastSequence := Json.of_optional? Json.lt_of_count? hlast
      total := Json.of_required? Json.lt_of_count? htotal
      succeeded := Json.of_required? Json.lt_of_count? hsucceeded
      failed := Json.of_required? Json.lt_of_count? hfailed
      byAction := fun k c hc => Json.of_required? (P := fun m => ∀ c, m.get? k = some c → c.Fits)
        (fun hm c hc => of_mapOfJson? ActionCounts.faithful.of_ofJson? hm hc) hactions c hc
      failuresByCode := fun k n hn =>
        Json.of_required? (P := fun m => ∀ n, m.get? k = some n → n < Json.wordBound)
          (fun hm n hn => of_mapOfJson? Json.lt_of_count? hm hn) hcodes n hn }

end Custody
