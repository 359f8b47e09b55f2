import Custody.Engine.Replay
import Custody.Proofs.Json.Journal

/-!
# What is stored and sent is read back

The records of the engine hold counts; with them every record of this library has a faithful form.

* `Snapshot.faithful`, `BatchLog.faithful`, `ReplayResult.faithful`: the records of the engine.
* `readsBack`: **decoding undoes encoding, for every kind of record.**
-/

namespace Custody

open LawfulForm

/-! ### Snapshots and settings -/

/-- The counter of a snapshot fits in 64 bits. -/
def Snapshot.Fits (s : Snapshot) : Prop := s.batches < Json.wordBound

theorem Snapshot.faithful : Faithful Snapshot Fits 4 where
  isPlain_toJson := by
    intro s hs
    delta instJsonFormSnapshot
    simp [Json.isPlain, Json.membersPlain, isPlain_toJson_of_le, Json.isPlain_count hs]
  ofJson?_toJson := by
    intro s hs
    delta instJsonFormSnapshot
    simp [Json.required?, Json.member?, Json.count?_count hs]
  of_ofJson? := by
    intro j s h
    delta instJsonFormSnapshot at h
    simp only [Option.bind_eq_bind, Option.bind_eq_some_iff, Option.pure_def,
      Option.some.injEq] at h
    obtain ⟨_, -, _, -, batches, hbatches, _, -, rfl⟩ := h
    exact Json.of_required? Json.lt_of_count? hbatches

/-- The limits fit in 64 bits. -/
structure Limits.Fits (l : Limits) : Prop where
  idLength : l.idLength < Json.wordBound
  nameLength : l.nameLength < Json.wordBound
  properties : l.properties < Json.wordBound
  materials : l.materials < Json.wordBound
  propertyNames : l.propertyNames < Json.wordBound

theorem Limits.fits_default : Fits {} := ⟨by decide, by decide, by decide, by decide, by decide⟩

theorem Limits.faithful : Faithful Limits Fits 1 where
  isPlain_toJson := by
    intro l hl
    delta instJsonForm
    simp [Json.isPlain, Json.membersPlain, Json.isPlain_count, hl.idLength, hl.nameLength,
      hl.properties, hl.materials, hl.propertyNames]
  ofJson?_toJson := by
    intro l hl
    delta instJsonForm
    simp [Json.defaulted?, Json.member?, Json.count?_count, hl.idLength, hl.nameLength,
      hl.properties, hl.materials, hl.propertyNames]
  of_ofJson? := by
    intro j l h
    delta instJsonForm at h
    simp only [Option.bind_eq_bind, Option.bind_eq_some_iff, Option.pure_def,
      Option.some.injEq] at h
    obtain ⟨_, -, _, hid, _, hname, _, hproperties, _, hmaterials, _, hnames, rfl⟩ := h
    exact {
      idLength := Json.of_defaulted? Json.lt_of_count? fits_default.idLength hid
      nameLength := Json.of_defaulted? Json.lt_of_count? fits_default.nameLength hname
      properties := Json.of_defaulted? Json.lt_of_count? fits_default.properties hproperties
      materials := Json.of_defaulted? Json.lt_of_count? fits_default.materials hmaterials
      propertyNames :=
        Json.of_defaulted? Json.lt_of_count? fits_default.propertyNames hnames }

theorem ModuleConfig.faithful : Faithful ModuleConfig (fun c => c.limits.Fits) 2 where
  isPlain_toJson := by
    intro c hc
    delta instJsonForm
    simp [Json.isPlain, Json.membersPlain, Limits.faithful.isPlain_toJson hc]
  ofJson?_toJson := by
    intro c hc
    delta instJsonForm
    simp [Json.defaulted?, Json.member?, Limits.faithful.ofJson?_toJson hc]
  of_ofJson? := by
    intro j c h
    delta instJsonForm at h
    simp only [Option.bind_eq_bind, Option.bind_eq_some_iff, Option.pure_def,
      Option.some.injEq] at h
    obtain ⟨_, -, _, -, _, hlimits, rfl⟩ := h
    exact Json.of_defaulted? Limits.faithful.of_ofJson? Limits.fits_default hlimits

/-! ### Logs -/

/-- The place of an entry fits in 64 bits. -/
def LogEntry.Fits : LogEntry → Prop
  | batch index _ => index < Json.wordBound
  | checkpoint index _ => index < Json.wordBound

theorem LogEntry.faithful : Faithful LogEntry Fits 9 where
  isPlain_toJson := by
    intro e he
    delta instJsonForm
    cases e <;>
      simp [Json.isPlain, Json.membersPlain, isPlain_toJson_of_le, Json.isPlain_count he]
  ofJson?_toJson := by
    intro e he
    delta instJsonForm
    cases e <;>
      simp [Json.onlyMember?, batchOfJson?, checkpointOfJson?, Json.required?, Json.member?,
        Json.count?_count he]
  of_ofJson? := by
    intro j e h
    delta instJsonForm at h
    obtain ⟨member, -, h⟩ := Option.bind_eq_some_iff.mp h
    split at h
    · simp only [batchOfJson?, Option.bind_eq_bind, Option.bind_eq_some_iff, Option.pure_def,
        Option.some.injEq] at h
      obtain ⟨_, -, index, hindex, _, -, rfl⟩ := h
      exact Json.of_required? Json.lt_of_count? hindex
    · simp only [checkpointOfJson?, Option.bind_eq_bind, Option.bind_eq_some_iff,
        Option.pure_def, Option.some.injEq] at h
      obtain ⟨_, -, index, hindex, _, -, rfl⟩ := h
      exact Json.of_required? Json.lt_of_count? hindex
    · cases h

/-- The counts of a log fit in 64 bits. -/
structure BatchLog.Fits (l : BatchLog) : Prop where
  initial : l.initial.Fits
  limits : l.module.limits.Fits
  total : l.total < Json.wordBound
  entries : ∀ e ∈ l.entries, e.Fits

theorem BatchLog.faithful : Faithful BatchLog Fits 11 where
  isPlain_toJson := by
    intro l hl
    delta instJsonFormBatchLog
    simp [Json.isPlain, Json.membersPlain, Json.isPlain_count hl.total,
      Snapshot.faithful.isPlain_toJson_of_le _ hl.initial,
      ModuleConfig.faithful.isPlain_toJson_of_le _ hl.limits,
      LogEntry.faithful.list.isPlain_toJson_of_le _ hl.entries]
  ofJson?_toJson := by
    intro l hl
    delta instJsonFormBatchLog
    simp [Json.required?, Json.member?, Json.count?_count hl.total,
      Snapshot.faithful.ofJson?_toJson hl.initial, ModuleConfig.faithful.ofJson?_toJson hl.limits,
      LogEntry.faithful.list.ofJson?_toJson hl.entries]
  of_ofJson? := by
    intro j l h
    delta instJsonFormBatchLog at h
    simp only [Option.bind_eq_bind, Option.bind_eq_some_iff, Option.pure_def,
      Option.some.injEq] at h
    obtain ⟨_, -, _, hinitial, _, hmodule, _, htotal, _, hentries, rfl⟩ := h
    exact {
      initial := Json.of_required? Snapshot.faithful.of_ofJson? hinitial
      limits := Json.of_required? ModuleConfig.faithful.of_ofJson? hmodule
      total := Json.of_required? Json.lt_of_count? htotal
      entries := Json.of_required? LogEntry.faithful.list.of_ofJson? hentries }

/-! ### Reports on batches and replays -/

/-- The counts of a report fit in 64 bits. -/
structure BatchReport.Fits (r : BatchReport) : Prop where
  batch : r.batch < Json.wordBound
  firstSequence : r.firstSequence < Json.wordBound
  successCount : r.successCount < Json.wordBound
  failedCount : r.failedCount < Json.wordBound

theorem BatchReport.faithful : Faithful BatchReport Fits 1 where
  isPlain_toJson := by
    intro r hr
    delta instJsonFormBatchReport
    simp [Json.isPlain, Json.membersPlain, Json.isPlain_count, hr.batch, hr.firstSequence,
      hr.successCount, hr.failedCount]
  ofJson?_toJson := by
    intro r hr
    delta instJsonFormBatchReport
    simp [Json.required?, Json.member?, Json.count?_count, hr.batch, hr.firstSequence,
      hr.successCount, hr.failedCount]
  of_ofJson? := by
    intro j r h
    delta instJsonFormBatchReport at h
    simp only [Option.bind_eq_bind, Option.bind_eq_some_iff, Option.pure_def,
      Option.some.injEq] at h
    obtain ⟨_, -, _, hbatch, _, hfirst, _, hsuccess, _, hfailed, rfl⟩ := h
    exact ⟨Json.of_required? Json.lt_of_count? hbatch, Json.of_required? Json.lt_of_count? hfirst,
      Json.of_required? Json.lt_of_count? hsuccess, Json.of_required? Json.lt_of_count? hfailed⟩

theorem Divergence.faithful :
    Faithful Divergence (fun d => d.batch < Json.wordBound) 1 where
  isPlain_toJson := by
    intro d hd
    delta instJsonFormDivergence
    simp [Json.isPlain, Json.membersPlain, Json.isPlain_count hd]
  ofJson?_toJson := by
    intro d hd
    delta instJsonFormDivergence
    simp [Json.required?, Json.member?, Json.count?_count hd]
  of_ofJson? := by
    intro j d h
    delta instJsonFormDivergence at h
    simp only [Option.bind_eq_bind, Option.bind_eq_some_iff, Option.pure_def,
      Option.some.injEq] at h
    obtain ⟨_, -, _, hbatch, _, -, _, -, rfl⟩ := h
    exact Json.of_required? Json.lt_of_count? hbatch

/-- The counts of a result fit in 64 bits. -/
structure ReplayResult.Fits (r : ReplayResult) : Prop where
  replayed : r.replayed < Json.wordBound
  divergence : ∀ d, r.divergence = some d → d.batch < Json.wordBound

theorem ReplayResult.faithful : Faithful ReplayResult Fits 2 where
  isPlain_toJson := by
    intro r hr
    delta instJsonFormReplayResult
    have hdivergence : (toJson r.divergence).isPlain 1 = true :=
      Json.isPlain_nullable fun d hd => Divergence.faithful.isPlain_toJson (hr.divergence d hd)
    simp [Json.isPlain, Json.membersPlain, Json.isPlain_count hr.replayed, hdivergence]
  ofJson?_toJson := by
    intro r hr
    delta instJsonFormReplayResult
    have hdivergence : Json.nullable? ofJson? (toJson r.divergence) = some r.divergence :=
      Json.nullable?_nullable rfl fun d hd =>
        Divergence.faithful.ofJson?_toJson (hr.divergence d hd)
    simp [Json.required?, Json.optional?, Json.member?, Json.count?_count hr.replayed,
      hdivergence]
  of_ofJson? := by
    intro j r h
    delta instJsonFormReplayResult at h
    simp only [Option.bind_eq_bind, Option.bind_eq_some_iff, Option.pure_def,
      Option.some.injEq] at h
    obtain ⟨_, -, _, -, _, hreplayed, _, hdivergence, rfl⟩ := h
    exact ⟨Json.of_required? Json.lt_of_count? hreplayed,
      Json.of_optional? Divergence.faithful.of_ofJson? hdivergence⟩

/-! ### All records -/

/-- **Decoding undoes encoding.**  Every value of every kind of record that is stored or sent is read
from what is written of it, a record with counts if these fit in 64 bits; and what is read from any
bytes has counts that fit, and is read again from what is written of it.  A message is also read from
its text. -/
theorem decoding_undoes_encoding :
    ReadsBack Asset (fun _ => True) ∧ ReadsBack Material (fun _ => True) ∧
    ReadsBack Property (fun _ => True) ∧ ReadsBack PropertyValue (fun _ => True) ∧
    ReadsBack Reporter (fun _ => True) ∧ ReadsBack Offer (fun _ => True) ∧
    ReadsBack Balance (fun _ => True) ∧ ReadsBack Message (fun _ => True) ∧
    ReadsBack Envelope (fun _ => True) ∧ ReadsBack Outcome (fun _ => True) ∧
    ReadsBack IndexIssue (fun _ => True) ∧ ReadsBack InventoryIssue (fun _ => True) ∧
    ReadsBack JournalEntry JournalEntry.Fits ∧ ReadsBack Summary Summary.Fits ∧
    ReadsBack Snapshot Snapshot.Fits ∧ ReadsBack BatchLog BatchLog.Fits ∧
    ReadsBack BatchReport BatchReport.Fits ∧ ReadsBack ReplayResult ReplayResult.Fits ∧
    (∀ m : Message, Utf8.ofString (encodeText m) = encode m ∧
      Message.parse (encodeText m) = .ok m) ∧
    ∀ (s : String) (m : Message), Message.parse s = .ok m →
      Message.parse (encodeText m) = .ok m := by
  have hlawful : ∀ {α : Type} [JsonForm α] {depth : Nat} [LawfulForm α depth],
      depth ≤ Json.maxDepth → ReadsBack α fun _ => True := LawfulForm.faithful.readsBack
  refine ⟨hlawful (by decide), hlawful (by decide), hlawful (by decide), hlawful (by decide),
    hlawful (by decide), hlawful (by decide), hlawful (by decide), hlawful (by decide),
    hlawful (by decide), hlawful (by decide), hlawful (by decide), hlawful (by decide),
    JournalEntry.faithful.readsBack (by decide), Summary.faithful.readsBack (by decide),
    Snapshot.faithful.readsBack (by decide), BatchLog.faithful.readsBack (by decide),
    BatchReport.faithful.readsBack (by decide), ReplayResult.faithful.readsBack (by decide),
    ?_, ?_⟩
  · intro m
    exact ⟨ofString_encodeText m, m.parse_encodeText⟩
  · intro s m _
    exact m.parse_encodeText

/-- An entry with the greatest number, the greatest code and a control character. -/
theorem decoding_undoes_encoding_at_bounds : ∃ e : JournalEntry,
    e.sequence + 1 = Json.wordBound ∧ e.sender = ⟨"alice\x1f"⟩ ∧
      Query.read (Utf8.ofString "journal") (encode e) = .ok e := by
  let e : JournalEntry := ⟨18446744073709551615, 0, .finalize, ⟨"alice\x1f"⟩, ⟨""⟩, [],
    some ⟨"provena", 4294967295, "é"⟩⟩
  have hfits : e.Fits := by
    change 18446744073709551615 < Json.wordBound
    decide
  obtain ⟨-, -, -, -, -, -, -, -, -, -, -, -, hentry, -⟩ := decoding_undoes_encoding
  exact ⟨e, rfl, rfl, hentry.written _ e hfits⟩

end Custody
